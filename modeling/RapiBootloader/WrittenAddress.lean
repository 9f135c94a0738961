import RapiBootloader.IgnoredLines

namespace RapiBootloader.WrittenAddress

open Lib.Overlay Lib.Strings Lib.Text Card NetAddress NetConfig IgnoredLines

/-- Some line of the file gives the address to the key, in full. -/
def Written (file : List UInt8) (key : Key) (q : Quad) : Prop :=
  ∃ value ∈ valuesOf key file, dottedQuad value = some q

/-- No address is adopted that nobody wrote. Only the net mask has a default. -/
def AdoptsWritten (file : List UInt8) (c : TRapiNetConfig) : Prop :=
  ∀ key, c.inEffect key = true → (key = .netmask → c.netMask ≠ defaultMask) →
    Written file key (c.address key)

/-- Where what is read of the file ends, the value of the key is whole or no address. -/
def Uncut (file : List UInt8) (key : Key) : Prop :=
  (valuesOf key (textRead file)).map dottedQuad <+: (valuesOf key file).map dottedQuad ∨
    ∀ cut ∈ (valuesOf key (textRead file)).getLast?, dottedQuad cut = none

instance (file : List UInt8) (key : Key) : Decidable (Uncut file key) :=
  inferInstanceAs (Decidable (_ ∨ _))

theorem inEffect_iff (file : List UInt8) (before : TRapiNetConfig) (key : Key) :
    (rapiReadNetConfig file .frOk .frOk before).inEffect key = true ↔
      key = .netmask ∨ ∃ value ∈ valuesOf key (textRead file), (dottedQuad value).isSome = true := by
  rw [read_inEffect, Bool.or_eq_true, decide_eq_true_eq, List.any_eq_true]

theorem address_inEffect (file : List UInt8) (before : TRapiNetConfig) (key : Key)
    (h : (rapiReadNetConfig file .frOk .frOk before).inEffect key = true) :
    (rapiReadNetConfig file .frOk .frOk before).address key =
      overlay defaultMask (latest ((valuesOf key (textRead file)).map leading)) := by
  rw [read_address]
  obtain rfl | hquad := (inEffect_iff file before key).mp h
  · rfl
  · obtain ⟨q, hq⟩ := lastQuad_isSome (List.any_eq_true.mpr hquad)
    funext i
    rw [overlay, overlay]
    cases hl : latest ((valuesOf key (textRead file)).map leading) i with
    | some x => rfl
    | none =>
      rw [lastQuad_eq_none hl] at hq
      cases hq

theorem address_undisturbed (file : List UInt8) (before : TRapiNetConfig) (key : Key)
    (hin : (rapiReadNetConfig file .frOk .frOk before).inEffect key = true)
    (h : Undisturbed (valuesOf key (textRead file))) :
    (rapiReadNetConfig file .frOk .frOk before).address key =
      (lastQuad (valuesOf key (textRead file))).getD defaultMask := by
  rw [address_inEffect file before key hin]
  apply overlay_eq_iff.mpr
  refine ⟨h, fun i hi => ?_⟩
  rw [lastQuad_eq_none hi]
  rfl

/-- Behind an address nothing is left of the values before it. -/
theorem overlay_quad (initial : Quad) (values : List (List UInt8)) {value : List UInt8} {q : Quad}
    (hq : dottedQuad value = some q) :
    overlay initial (latest ((values ++ [value]).map leading)) = q := by
  funext i
  rw [overlay, List.map_append, latest_append, List.map_singleton, latest, latest,
    leading_quad hq]
  rfl

theorem settings_append (inSection : Bool) (xs ys : List (List UInt8)) :
    settings inSection (xs ++ ys) =
      settings inSection xs ++ settings (xs.foldl sectionAfter inSection) ys := by
  induction xs generalizing inSection with
  | nil => rfl
  | cons x xs ih =>
    rw [List.cons_append, settings, settings, ih, List.append_assoc, List.foldl_cons]

/-- A line that goes on sets the same key, to a value that goes on. -/
theorem settingOf_append {line : List UInt8} {key : Key} {value : List UInt8}
    (h : settingOf line = some (key, value)) (more : List UInt8) :
    ∃ whole, settingOf (line ++ more) = some (key, whole) ∧ value <+: whole := by
  obtain ⟨rest, hrest⟩ := trim_prefix isSpace line more
  simp only [settingOf] at h
  simp only [settingOf]
  cases ht : trim isSpace line with
  | nil =>
    rw [ht] at h
    cases h
  | cons c text =>
    rw [ht] at h hrest
    rw [← hrest, List.cons_append]
    dsimp only at h ⊢
    by_cases hc : c = 35 ∨ c = 91
    · rw [if_pos hc] at h
      cases h
    · rw [if_neg hc] at h ⊢
      by_cases heq : ((c :: text).takeWhile (· != 61)).length = (c :: text).length
      · rw [if_pos heq] at h
        cases h
      · rw [if_neg heq] at h
        have htoken : (c :: (text ++ rest)).takeWhile (· != 61) =
            (c :: text).takeWhile (· != 61) := by
          rw [← List.cons_append, List.takeWhile_append, if_neg heq]
        have hle := (List.takeWhile_prefix (· != 61) (l := c :: text)).length_le
        have hlong : ¬ ((c :: text).takeWhile (· != 61)).length = (c :: (text ++ rest)).length := by
          rw [← List.cons_append, List.length_append]
          omega
        rw [htoken, if_neg hlong]
        obtain ⟨k, hk, hkv⟩ := Option.map_eq_some_iff.mp h
        obtain ⟨rfl, rfl⟩ := Prod.mk.inj hkv
        refine ⟨_, by rw [hk]; rfl, rest, ?_⟩
        rw [← List.cons_append, List.drop_append_of_le_length (by omega)]

/-- Text that goes on keeps its values, but for one on the line that goes on. -/
theorem valuesOf_append (key : Key) (text rest : List UInt8) :
    valuesOf key text <+: valuesOf key (text ++ rest) ∨
      ∃ values cut whole more, valuesOf key text = values ++ [cut] ∧ cut <+: whole ∧
        valuesOf key (text ++ rest) = values ++ whole :: more := by
  obtain ⟨init, x, y, tail, hx, -, hxy⟩ := splitOn_append 10 text rest
  rw [valuesOf, valuesOf, hx, hxy, settings_append, settings_append, valuesIn_append,
    valuesIn_append, settings, settings, settings, List.append_nil, valuesIn_append]
  generalize valuesIn key (settings false init) = values
  cases hs : (if init.foldl sectionAfter false then settingOf x else none) with
  | none => exact Or.inl ((List.prefix_append_right_inj _).mpr List.nil_prefix)
  | some s =>
    obtain ⟨k, value⟩ := s
    cases hin : init.foldl sectionAfter false with
    | false =>
      rw [hin] at hs
      cases hs
    | true =>
      rw [hin] at hs
      obtain ⟨whole, hwhole, hprefix⟩ := settingOf_append hs y
      rw [if_pos rfl, hwhole, Option.toList_some, Option.toList_some, valuesIn_cons,
        valuesIn_cons]
      by_cases hk : k = key
      · rw [if_pos hk, if_pos hk]
        exact Or.inr ⟨values, value, whole, _, rfl, hprefix, rfl⟩
      · rw [if_neg hk, if_neg hk]
        exact Or.inl ((List.prefix_append_right_inj _).mpr List.nil_prefix)

/-- What is read of a file has the values of its lines, but for the line that the end of what
is read falls into. A value on that line is cut. -/
theorem valuesOf_textRead (key : Key) (file : List UInt8) :
    valuesOf key (textRead file) <+: valuesOf key file ∨
      ∃ values cut whole more, valuesOf key (textRead file) = values ++ [cut] ∧ cut <+: whole ∧
        valuesOf key file = values ++ whole :: more := by
  have hprefix : textRead file <+: file :=
    (List.takeWhile_prefix _).trans (List.take_prefix _ _)
  obtain ⟨rest, hrest⟩ := hprefix
  have h := valuesOf_append key (textRead file) rest
  rwa [hrest] at h

theorem written_of_uncut {file : List UInt8} {key : Key} {q : Quad} (h : Uncut file key)
    (hlast : lastQuad (valuesOf key (textRead file)) = some q) : Written file key q := by
  obtain ⟨value, hvalue, hq⟩ := List.mem_filterMap.mp (List.mem_of_getLast? hlast)
  cases h with
  | inl hsame =>
    have hmem : some q ∈ (valuesOf key file).map dottedQuad :=
      hsame.subset (List.mem_map.mpr ⟨value, hvalue, hq⟩)
    obtain ⟨whole, hwhole, hq'⟩ := List.mem_map.mp hmem
    exact ⟨whole, hwhole, hq'⟩
  | inr hcut =>
    obtain hprefix | ⟨values, cut, whole, more, hread, -, hfile⟩ := valuesOf_textRead key file
    · exact ⟨value, hprefix.subset hvalue, hq⟩
    · rw [hread, List.getLast?_concat] at hcut
      rw [hread, List.mem_append, List.mem_singleton] at hvalue
      obtain hvalue | rfl := hvalue
      · refine ⟨value, ?_, hq⟩
        rw [hfile]
        exact List.mem_append_left _ hvalue
      · rw [hcut value rfl] at hq
        cases hq

theorem cleared_adopts (file : List UInt8) (before : TRapiNetConfig) :
    AdoptsWritten file (cleared before) := by
  intro key hin hmask
  cases key with
  | netmask => exact absurd rfl (hmask rfl)
  | ipaddress => cases hin
  | gateway => cases hin
  | dnsserver => cases hin

/-- Every address adopted is written in full in the file, if for each key in effect no address
is read from a cut value and a mistyped value leaves no octet of its own. A cut value that is
still an address is adopted, whether a line has that address or not. -/
theorem adopts_written_of_uncut (file : List UInt8) (openResult readResult : FResult)
    (before : TRapiNetConfig) :
    ((openResult = .frOk → readResult = .frOk → ∀ key,
        (key = .netmask ∨
          ∃ value ∈ valuesOf key (textRead file), (dottedQuad value).isSome = true) →
        Uncut file key ∧ Undisturbed (valuesOf key (textRead file))) →
      AdoptsWritten file (rapiReadNetConfig file openResult readResult before)) ∧
    ∀ key values cut q, openResult = .frOk → readResult = .frOk →
      valuesOf key (textRead file) = values ++ [cut] → dottedQuad cut = some q →
      (key = .netmask → q ≠ defaultMask) → ¬ Written file key q →
      ¬ AdoptsWritten file (rapiReadNetConfig file openResult readResult before) := by
  constructor
  · intro h
    by_cases hread : openResult = .frOk ∧ readResult = .frOk
    · obtain ⟨rfl, rfl⟩ := hread
      intro key hin hmask
      obtain ⟨huncut, hrest⟩ := h rfl rfl key ((inEffect_iff file before key).mp hin)
      have haddress := address_undisturbed file before key hin hrest
      cases hlast : lastQuad (valuesOf key (textRead file)) with
      | some q =>
        rw [haddress, hlast]
        exact written_of_uncut huncut hlast
      | none =>
        rw [hlast] at haddress
        obtain rfl | hquad := (inEffect_iff file before key).mp hin
        · exact absurd haddress (hmask rfl)
        · obtain ⟨q, hq⟩ := lastQuad_isSome (List.any_eq_true.mpr hquad)
          rw [hq] at hlast
          cases hlast
    · have hcleared : rapiReadNetConfig file openResult readResult before = cleared before := by
        rw [rapiReadNetConfig]
        by_cases ho : openResult = .frOk
        · rw [if_neg (not_not.mpr ho), if_pos (fun hr => hread ⟨ho, hr⟩)]
        · rw [if_pos ho]
      rw [hcleared]
      exact cleared_adopts file before
  · rintro key values cut q rfl rfl hvalues hq hmask hnot h
    have hin : (rapiReadNetConfig file .frOk .frOk before).inEffect key = true := by
      apply (inEffect_iff file before key).mpr
      refine Or.inr ⟨cut, ?_, by rw [hq]; rfl⟩
      rw [hvalues]
      exact List.mem_append_right _ (List.mem_singleton.mpr rfl)
    have haddress : (rapiReadNetConfig file .frOk .frOk before).address key = q := by
      rw [address_inEffect file before key hin, hvalues]
      exact overlay_quad defaultMask values hq
    apply hnot
    rw [← haddress]
    apply h key hin
    rintro rfl heq
    exact hmask rfl (haddress.symm.trans heq)

def padded (n : Nat) (text : List UInt8) : List UInt8 :=
  ascii "[rapi-bootloader]" ++ 10 :: (35 :: List.replicate n 32 ++ 10 :: text)

theorem length_padded (n : Nat) (text : List UInt8) :
    (padded n text).length = 20 + n + text.length := by
  simp only [padded, List.length_append, List.length_cons, List.length_replicate]
  have hhead : (ascii "[rapi-bootloader]").length = 17 := by decide
  omega

theorem zero_notMem_padded (n : Nat) {text : List UInt8} (h : 0 ∉ text) : 0 ∉ padded n text := by
  have hhead : 0 ∉ ascii "[rapi-bootloader]" := by decide
  simp [padded, hhead, h]

theorem padded_append (n : Nat) (text more : List UInt8) :
    padded n text ++ more = padded n (text ++ more) := by
  simp [padded]

theorem valuesOf_padded (key : Key) (n : Nat) (text : List UInt8) :
    valuesOf key (padded n text) = valuesIn key (settings true (text.splitOn 10)) := by
  have hhead : 10 ∉ ascii "[rapi-bootloader]" := by decide
  have hpad : (10 : UInt8) ∉ 35 :: List.replicate n 32 := by simp
  have htrim : trim isSpace (35 :: List.replicate n 32) =
      35 :: (List.replicate n 32).rdropWhile isSpace :=
    trim_append_cons isSpace [] 35 (List.replicate n 32) rfl
  have hnone : settingOf (35 :: List.replicate n 32) = none := by
    rw [settingOf, htrim]
    rfl
  have hsame : sectionAfter true (35 :: List.replicate n 32) = true := by
    rw [sectionAfter, htrim]
    rfl
  have hsection : sectionAfter false (ascii "[rapi-bootloader]") = true := by decide
  rw [valuesOf, padded, List.splitOn_append_cons_self_of_not_mem hhead,
    List.splitOn_append_cons_self_of_not_mem hpad, settings, settings, hsection, hsame, hnone]
  rfl

theorem textRead_padded (n : Nat) {text : List UInt8} (more : List UInt8)
    (hlen : 20 + n + text.length = configMaxBytes - 1) (hnul : 0 ∉ text) :
    textRead (padded n text ++ more) = padded n text := by
  rw [textRead, List.take_left' ((length_padded n text).trans hlen), List.takeWhile_eq_self_iff]
  intro c hc
  exact bne_iff_ne.mpr (fun h => zero_notMem_padded n hnul (h ▸ hc))

def cutFile : List UInt8 := padded 8153 (ascii "ipaddress=10.0.0.1") ++ ascii "23\n"

theorem valuesOf_textRead_cutFile : valuesOf .ipaddress (textRead cutFile) = [ascii "10.0.0.1"] := by
  rw [cutFile, textRead_padded 8153 _ (by decide) (by decide), valuesOf_padded]
  decide

theorem not_written_cutFile : ¬ Written cutFile .ipaddress ![10, 0, 0, 1] := by
  rintro ⟨value, hvalue, hq⟩
  have hwhole : valuesOf .ipaddress cutFile = [ascii "10.0.0.123"] := by
    rw [cutFile, padded_append, valuesOf_padded]
    decide
  rw [hwhole, List.mem_singleton] at hvalue
  rw [hvalue] at hq
  exact absurd hq (by decide)

def harmlessCut : List UInt8 :=
  padded 8140 (ascii "ipaddress=10.0.0.1\nipaddress=10") ++ ascii ".0.0.17\n"

/-- The first file has an address and a mistyped one with the same octets, the second only
the cut one. -/
theorem adopts_written_of_uncut_two :
    AdoptsWritten harmlessCut (rapiReadNetConfig harmlessCut .frOk .frOk noConfig) ∧
      ¬ AdoptsWritten cutFile (rapiReadNetConfig cutFile .frOk .frOk noConfig) := by
  constructor
  · have hread : textRead harmlessCut =
        padded 8140 (ascii "ipaddress=10.0.0.1\nipaddress=10") :=
      textRead_padded 8140 _ (by decide) (by decide)
    have hvalues : ∀ key, valuesOf key (textRead harmlessCut) =
        if key = .ipaddress then [ascii "10.0.0.1", ascii "10"] else [] := by
      intro key
      rw [hread, valuesOf_padded]
      cases key <;> decide +kernel
    apply (adopts_written_of_uncut harmlessCut .frOk .frOk noConfig).1
    intro _ _ key _
    rw [Uncut, hvalues]
    constructor
    · refine Or.inr ?_
      cases key <;> decide +kernel
    · cases key <;> decide +kernel
  · exact (adopts_written_of_uncut cutFile .frOk .frOk noConfig).2 .ipaddress []
      (ascii "10.0.0.1") ![10, 0, 0, 1] rfl rfl valuesOf_textRead_cutFile (by decide)
      (fun hkey => absurd hkey (by decide)) not_written_cutFile

/-- The file says 10.0.0.123 and the board takes 10.0.0.1. -/
theorem cut_makes_another_address :
    (rapiReadNetConfig cutFile .frOk .frOk noConfig).static = true ∧
      (rapiReadNetConfig cutFile .frOk .frOk noConfig).ipAddress = ![10, 0, 0, 1] ∧
      ¬ AdoptsWritten cutFile (rapiReadNetConfig cutFile .frOk .frOk noConfig) := by
  have hstatic : (rapiReadNetConfig cutFile .frOk .frOk noConfig).inEffect .ipaddress = true := by
    rw [read_inEffect, valuesOf_textRead_cutFile]
    decide
  have haddress : (rapiReadNetConfig cutFile .frOk .frOk noConfig).address .ipaddress =
      ![10, 0, 0, 1] := by
    rw [read_address, valuesOf_textRead_cutFile]
    decide
  have hfields : ∀ c : TRapiNetConfig,
      c.static = c.inEffect .ipaddress ∧ c.ipAddress = c.address .ipaddress := fun _ => ⟨rfl, rfl⟩
  refine ⟨(hfields _).1.trans hstatic, (hfields _).2.trans haddress, fun h => ?_⟩
  have hwritten := h .ipaddress hstatic (fun hkey => absurd hkey (by decide))
  rw [haddress] at hwritten
  exact not_written_cutFile hwritten

end RapiBootloader.WrittenAddress
