import RapiBootloader.NetConfig

namespace RapiBootloader.IgnoredLines

open Lib.Overlay Lib.Strings Lib.Text Card NetAddress NetConfig

/-- A line of the section for one of the four keys, with something else than an address. -/
def isIgnored (inSection : Bool) (line : List UInt8) : Bool :=
  (if inSection then settingOf line else none).any (fun s => (dottedQuad s.2).isNone)

def keptLines : Bool → List (List UInt8) → List (List UInt8)
  | _, [] => []
  | inSection, line :: lines =>
    if isIgnored inSection line then keptLines (sectionAfter inSection line) lines
    else line :: keptLines (sectionAfter inSection line) lines

def withoutIgnored (file : List UInt8) : List UInt8 :=
  [10].intercalate (keptLines false (file.splitOn 10))

/-- The flags, and each address in effect, are the same. -/
def SameConfig (c d : TRapiNetConfig) : Prop :=
  ∀ key, c.inEffect key = d.inEffect key ∧ (c.inEffect key = true → c.address key = d.address key)

def lastQuad (values : List (List UInt8)) : Option Quad := (values.filterMap dottedQuad).getLast?

/-- In each place the last value that gets to it says what `q` says. -/
def Agrees (values : List (List UInt8)) (q : Quad) : Prop :=
  ∀ i, ∀ x ∈ latest (values.map leading) i, x = q i

instance (values : List (List UInt8)) (q : Quad) : Decidable (Agrees values q) :=
  inferInstanceAs (Decidable (∀ i, ∀ x ∈ latest (values.map leading) i, x = q i))

/-- What mistyped values leave behind is what the last address, or the default mask, says. -/
def Undisturbed (values : List (List UInt8)) : Prop :=
  Agrees values ((lastQuad values).getD defaultMask)

instance (values : List (List UInt8)) : Decidable (Undisturbed values) :=
  inferInstanceAs (Decidable (Agrees values ((lastQuad values).getD defaultMask)))

theorem sectionAfter_setting {line : List UInt8} {s : Key × List UInt8}
    (h : settingOf line = some s) (inSection : Bool) :
    sectionAfter inSection line = inSection := by
  simp only [settingOf] at h
  simp only [sectionAfter]
  cases ht : trim isSpace line with
  | nil => rfl
  | cons c text =>
    rw [ht] at h
    dsimp only at h
    by_cases hc : c = 35 ∨ c = 91
    · rw [if_pos hc] at h
      cases h
    · exact if_neg (fun hb => hc (Or.inr hb))

theorem settings_keptLines (inSection : Bool) (lines : List (List UInt8)) :
    settings inSection (keptLines inSection lines) =
      (settings inSection lines).filter (fun s => (dottedQuad s.2).isSome) := by
  induction lines generalizing inSection with
  | nil => rfl
  | cons line lines ih =>
    rw [keptLines, settings, List.filter_append]
    cases hs : (if inSection then settingOf line else none) with
    | none =>
      have hkeep : ¬ isIgnored inSection line = true := by
        rw [isIgnored, hs]
        exact Bool.false_ne_true
      rw [if_neg hkeep, settings, hs, ih]
      rfl
    | some s =>
      cases inSection with
      | false => cases hs
      | true =>
        have hsec := sectionAfter_setting hs true
        cases hq : dottedQuad s.2 with
        | none =>
          have hdrop : isIgnored true line = true := by
            rw [isIgnored, hs, Option.any_some, hq]
            rfl
          rw [if_pos hdrop, hsec, ih]
          simp [hq]
        | some q =>
          have hkeep : ¬ isIgnored true line = true := by
            rw [isIgnored, hs, Option.any_some, hq]
            exact Bool.false_ne_true
          rw [if_neg hkeep, settings, hs, ih]
          simp [hq]

theorem keptLines_sublist (inSection : Bool) (lines : List (List UInt8)) :
    (keptLines inSection lines).Sublist lines := by
  induction lines generalizing inSection with
  | nil => exact List.Sublist.refl _
  | cons line lines ih =>
    rw [keptLines]
    split
    · exact (ih _).cons line
    · exact (ih _).cons_cons line

theorem settings_splitOn_withoutIgnored (file : List UInt8) :
    settings false ((withoutIgnored file).splitOn 10) =
      (settings false (file.splitOn 10)).filter (fun s => (dottedQuad s.2).isSome) := by
  rw [← settings_keptLines, withoutIgnored]
  by_cases hnil : keptLines false (file.splitOn 10) = []
  · rw [hnil]
    rfl
  · rw [List.splitOn_intercalate 10 _ hnil]
    intro line hline
    exact notMem_of_mem_splitOn 10 file line ((keptLines_sublist _ _).subset hline)

theorem withoutIgnored_sublist (file : List UInt8) : (withoutIgnored file).Sublist file := by
  have h := intercalate_sublist 10 (keptLines_sublist false (file.splitOn 10))
  rwa [List.intercalate_splitOn] at h

/-- Without them the values of a key are its dotted quads. -/
theorem valuesOf_withoutIgnored (key : Key) (file : List UInt8) :
    valuesOf key (withoutIgnored file) =
      (valuesOf key file).filter (fun value => (dottedQuad value).isSome) := by
  rw [valuesOf, settings_splitOn_withoutIgnored, valuesOf]
  induction settings false (file.splitOn 10) with
  | nil => rfl
  | cons s ss ih =>
    rw [List.filter_cons, valuesIn_cons]
    by_cases hk : s.1 = key <;> cases hq : dottedQuad s.2 <;> simp [hk, hq, ih, valuesIn_cons]

theorem textRead_eq {file : List UInt8} (hlen : file.length ≤ configMaxBytes - 1)
    (hnul : 0 ∉ file) : textRead file = file := by
  rw [textRead, List.take_of_length_le hlen, List.takeWhile_eq_self_iff]
  intro c hc
  exact bne_iff_ne.mpr (fun h => hnul (h ▸ hc))

theorem latest_quads (values : List (List UInt8)) (i : Fin 4) :
    latest ((values.filter (fun value => (dottedQuad value).isSome)).map leading) i =
      (lastQuad values).map (fun q => q i) := by
  have hmap : (values.filter (fun value => (dottedQuad value).isSome)).map leading =
      (values.filterMap dottedQuad).map (fun q i => some (q i)) := by
    induction values with
    | nil => rfl
    | cons value values ih =>
      cases hq : dottedQuad value with
      | none => simpa [hq] using ih
      | some q => simpa [hq, leading_quad hq] using ih
  rw [hmap, latest_total, lastQuad]

theorem lastQuad_eq_none {values : List (List UInt8)} {i : Fin 4}
    (h : latest (values.map leading) i = none) : lastQuad values = none := by
  rw [latest_eq_none] at h
  rw [lastQuad, List.getLast?_eq_none_iff, List.filterMap_eq_nil_iff]
  intro value hvalue
  cases hq : dottedQuad value with
  | none => rfl
  | some q =>
    have hi := h (leading value) (List.mem_map_of_mem hvalue)
    rw [leading_quad hq] at hi
    cases hi

theorem lastQuad_isSome {values : List (List UInt8)}
    (h : values.any (fun value => (dottedQuad value).isSome) = true) :
    ∃ q, lastQuad values = some q := by
  obtain ⟨value, hvalue, hq⟩ := List.any_eq_true.mp h
  obtain ⟨q, hq⟩ := Option.isSome_iff_exists.mp hq
  cases hl : lastQuad values with
  | some q => exact ⟨q, rfl⟩
  | none =>
    rw [lastQuad, List.getLast?_eq_none_iff, List.filterMap_eq_nil_iff] at hl
    rw [hl value hvalue] at hq
    cases hq

theorem overlay_quads (initial : Quad) (values : List (List UInt8)) :
    overlay initial
        (latest ((values.filter (fun value => (dottedQuad value).isSome)).map leading)) =
      (lastQuad values).getD initial := by
  funext i
  rw [overlay, latest_quads]
  cases lastQuad values <;> rfl

theorem overlay_quads_iff (initial : Quad) (values : List (List UInt8)) :
    overlay initial (latest (values.map leading)) =
        overlay initial
          (latest ((values.filter (fun value => (dottedQuad value).isSome)).map leading)) ↔
      Agrees values ((lastQuad values).getD initial) := by
  rw [overlay_quads, overlay_eq_iff]
  apply and_iff_left
  intro i hi
  rw [lastQuad_eq_none hi]
  rfl

/-- `ParseAddress` stores every octet it gets to, whether it succeeds or not. -/
theorem parseAddress_keeps_iff (text : List UInt8) (address : Quad) :
    (parseAddress text address).2 = address ↔ ∀ i, ∀ x ∈ leading text i, x = address i := by
  rw [parseAddress_snd, overlay_eq_iff]
  apply and_iff_left
  exact fun i _ => rfl

theorem sameConfig_iff {file : List UInt8} (hlen : file.length ≤ configMaxBytes - 1)
    (hnul : 0 ∉ file) (before : TRapiNetConfig) (key : Key) :
    (((rapiReadNetConfig file .frOk .frOk before).inEffect key =
        (rapiReadNetConfig (withoutIgnored file) .frOk .frOk before).inEffect key) ∧
      ((rapiReadNetConfig file .frOk .frOk before).inEffect key = true →
        (rapiReadNetConfig file .frOk .frOk before).address key =
          (rapiReadNetConfig (withoutIgnored file) .frOk .frOk before).address key)) ↔
      ((key = .netmask ∨ ∃ value ∈ valuesOf key file, (dottedQuad value).isSome = true) →
        Undisturbed (valuesOf key file)) := by
  have hsub := withoutIgnored_sublist file
  have hwhole := textRead_eq hlen hnul
  have hrest : textRead (withoutIgnored file) = withoutIgnored file :=
    textRead_eq (Nat.le_trans hsub.length_le hlen) (fun h => hnul (hsub.subset h))
  have hany : (valuesOf key (withoutIgnored file)).any (fun value => (dottedQuad value).isSome) =
      (valuesOf key file).any (fun value => (dottedQuad value).isSome) := by
    rw [valuesOf_withoutIgnored, List.any_filter]
    simp only [Bool.and_self]
  rw [read_inEffect, read_inEffect, read_address, read_address, hwhole, hrest, hany,
    valuesOf_withoutIgnored, overlay_quads_iff, Bool.or_eq_true, decide_eq_true_eq, List.any_eq_true]
  -- the flags never differ, and a key in effect has the default mask or a quad to fall back on
  have hfall : (key = .netmask ∨ ∃ value ∈ valuesOf key file, (dottedQuad value).isSome = true) →
      (lastQuad (valuesOf key file)).getD ((cleared before).address key) =
        (lastQuad (valuesOf key file)).getD defaultMask := by
    rintro (rfl | hquad)
    · rfl
    · obtain ⟨q, hq⟩ := lastQuad_isSome (List.any_eq_true.mpr hquad)
      rw [hq]
      rfl
  constructor
  · intro h hin
    have hagrees := h.2 hin
    rwa [hfall hin] at hagrees
  · refine fun h => ⟨rfl, fun hin => ?_⟩
    rw [hfall hin]
    exact h hin

/-- The lines that are reported as ignored have no effect just in case none of their values
leaves an octet behind that differs from the last address for its key. Inside `ParseAddress`
the octets are stored on the way to the failure. -/
theorem ignored_lines_harmless_iff (file : List UInt8) (hlen : file.length ≤ configMaxBytes - 1)
    (hnul : 0 ∉ file) (openResult readResult : FResult) (before : TRapiNetConfig) :
    (SameConfig (rapiReadNetConfig file openResult readResult before)
        (rapiReadNetConfig (withoutIgnored file) openResult readResult before) ↔
      (openResult = .frOk → readResult = .frOk → ∀ key,
        (key = .netmask ∨ ∃ value ∈ valuesOf key file, (dottedQuad value).isSome = true) →
          Undisturbed (valuesOf key file))) ∧
      ∀ text address, (parseAddress text address).1 = false →
        ((parseAddress text address).2 = address ↔ ∀ i, ∀ x ∈ leading text i, x = address i) := by
  refine ⟨?_, fun text address _ => parseAddress_keeps_iff text address⟩
  by_cases ho : openResult = .frOk
  · by_cases hr : readResult = .frOk
    · subst ho hr
      constructor
      · exact fun h _ _ key => (sameConfig_iff hlen hnul before key).mp (h key)
      · exact fun h key => (sameConfig_iff hlen hnul before key).mpr (h rfl rfl key)
    · refine iff_of_true ?_ (fun _ hr' => absurd hr' hr)
      intro key
      rw [rapiReadNetConfig, if_neg (not_not.mpr ho), if_pos hr, rapiReadNetConfig,
        if_neg (not_not.mpr ho), if_pos hr]
      exact ⟨rfl, fun _ => rfl⟩
  · refine iff_of_true ?_ (fun ho' => absurd ho' ho)
    intro key
    rw [rapiReadNetConfig, if_pos ho, rapiReadNetConfig, if_pos ho]
    exact ⟨rfl, fun _ => rfl⟩

def typoMask : List UInt8 := ascii "[rapi-bootloader]\nnetmask=255.255.256.0\n"

theorem typo_mask_is_ignored :
    SameConfig (rapiReadNetConfig typoMask .frOk .frOk noConfig)
      (rapiReadNetConfig (withoutIgnored typoMask) .frOk .frOk noConfig) := by
  refine (ignored_lines_harmless_iff typoMask (by decide) (by decide) .frOk .frOk
    noConfig).1.mpr (fun _ _ key _ => ?_)
  cases key <;> decide +kernel

def typoAddress : List UInt8 :=
  ascii "[rapi-bootloader]\nipaddress=10.0.0.1\nipaddress=192.168.\n"

/-- The board takes 192.168.0.1, which no line says. -/
theorem typo_moves_the_address :
    typoAddress.length ≤ configMaxBytes - 1 ∧ 0 ∉ typoAddress ∧
      (rapiReadNetConfig typoAddress .frOk .frOk noConfig).ipAddress = ![192, 168, 0, 1] ∧
      ¬ SameConfig (rapiReadNetConfig typoAddress .frOk .frOk noConfig)
        (rapiReadNetConfig (withoutIgnored typoAddress) .frOk .frOk noConfig) := by
  refine ⟨by decide, by decide, by decide, fun h => ?_⟩
  have hsame := (h .ipaddress).2 (by decide)
  exact absurd (congrFun hsame 0) (by decide)

end RapiBootloader.IgnoredLines
