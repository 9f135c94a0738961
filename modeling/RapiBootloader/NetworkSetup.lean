import RapiBootloader.SectionLines
import RapiBootloader.WrittenAddress
import RapiBootloader.Lib.Scan

namespace RapiBootloader.NetworkSetup

open Lib.Overlay Lib.Scan Lib.Strings Lib.Text Card NetAddress NetConfig IgnoredLines WrittenAddress
open SectionLines

/-- What has been set in the configuration of the network stack. Without an address it asks
DHCP. -/
structure NetSettings where
  ipAddress : Option Quad
  netMask : Option Quad
  defaultGateway : Option Quad
  dnsServer : Option Quad

def configureNetwork (config : TRapiNetConfig) (n : NetSettings) : NetSettings :=
  if !config.static then n
  else
    { ipAddress := some config.ipAddress
      netMask := some config.netMask
      defaultGateway := if config.haveGateway then some config.gateway else n.defaultGateway
      dnsServer := if config.haveDNSServer then some config.dnsServer else n.dnsServer }

def octetText (x : UInt8) : List UInt8 :=
  if x < 10 then [48 + x]
  else if x < 100 then [48 + x / 10, 48 + x % 10]
  else [48 + x / 100, 48 + x / 10 % 10, 48 + x % 10]

def quadText (q : Quad) : List UInt8 := [46].intercalate ((List.ofFn q).map octetText)

def keyName : Key → List UInt8
  | .ipaddress => ascii "ipaddress"
  | .netmask => ascii "netmask"
  | .gateway => ascii "gateway"
  | .dnsserver => ascii "dnsserver"

def settingLine (setting : Key × Quad) : List UInt8 :=
  keyName setting.1 ++ 61 :: quadText setting.2

def heading : List UInt8 := ascii "[rapi-bootloader]"

def writeConfig (pre : List UInt8) (ss : List (Key × Quad)) (post : List UInt8) : List UInt8 :=
  pre ++ 10 :: (heading ++ 10 :: (ss.flatMap (settingLine · ++ [10]) ++ post))

def stated (key : Key) (ss : List (Key × Quad)) : Option Quad :=
  ((ss.filter (·.1 = key)).map Prod.snd).getLast?

theorem octetOf_octetText (x : UInt8) : octetOf (octetText x) = some x := by
  have hall : ∀ n < 256, octetOf (octetText (UInt8.ofNat n)) = some (UInt8.ofNat n) := by
    decide +kernel
  have hx := hall x.toNat x.toNat_lt
  rwa [UInt8.ofNat_toNat] at hx

theorem trim_eq_self {xs : List UInt8} (h : ∀ c ∈ xs, isSpace c = false) :
    trim isSpace xs = xs := by
  have hdrop : xs.dropWhile isSpace = xs := by
    cases xs with
    | nil => rfl
    | cons c xs => rw [List.dropWhile_cons, h c List.mem_cons_self, if_neg Bool.false_ne_true]
  rw [trim, hdrop, List.rdropWhile_eq_self_iff]
  exact fun hne hspace => Bool.false_ne_true ((h _ (List.getLast_mem hne)).symm.trans hspace)

theorem space_of_digit {c : UInt8} (h : isDigit c = true) : isSpace c = false := by
  simp only [isDigit, Bool.and_eq_true, decide_eq_true_eq, UInt8.le_iff_toNat_le] at h
  cases hspace : isSpace c with
  | false => rfl
  | true =>
    simp only [isSpace, Bool.or_eq_true, decide_eq_true_eq] at hspace
    obtain ((rfl | rfl) | rfl) | rfl := hspace <;> exact absurd h (by decide)

theorem mem_intercalate {sep c : UInt8} {parts : List (List UInt8)}
    (h : c ∈ [sep].intercalate parts) : c = sep ∨ ∃ part ∈ parts, c ∈ part := by
  induction parts with
  | nil => cases h
  | cons part parts ih =>
    cases parts with
    | nil => exact .inr ⟨part, List.mem_cons_self, by simpa [List.intercalate] using h⟩
    | cons next parts =>
      simp only [List.intercalate, List.intersperse_cons_cons, List.flatten_cons, List.mem_append,
        List.mem_singleton] at h ih
      obtain h | h | h := h
      · exact .inr ⟨part, List.mem_cons_self, h⟩
      · exact .inl h
      · exact (ih h).imp_right fun ⟨p, hp, hc⟩ => ⟨p, List.mem_cons_of_mem _ hp, hc⟩

theorem mem_quadText {q : Quad} {c : UInt8} (h : c ∈ quadText q) : isDigit c = true ∨ c = 46 := by
  have hoctet : ∀ x, c ∈ octetText x → isDigit c = true :=
    fun x hx => (octetOf_some (octetOf_octetText x)).2.1 c hx
  obtain rfl | ⟨part, hpart, hc⟩ := mem_intercalate h
  · exact .inr rfl
  · obtain ⟨x, -, rfl⟩ := List.mem_map.mp hpart
    exact .inl (hoctet x hc)

theorem space_of_quadText {q : Quad} : ∀ c ∈ quadText q, isSpace c = false := by
  intro c hc
  obtain hdigit | rfl := mem_quadText hc
  · exact space_of_digit hdigit
  · rfl

theorem dottedQuad_quadText (q : Quad) : dottedQuad (quadText q) = some q := by
  have hquad : ![q 0, q 1, q 2, q 3] = q := by
    funext i
    fin_cases i <;> rfl
  have htext : quadText q = octetText (q 0) ++ 46 :: (octetText (q 1) ++ 46 ::
      (octetText (q 2) ++ 46 :: octetText (q 3))) := by
    simp [quadText, List.intercalate, List.ofFn_succ]
  rw [htext, ← hquad]
  exact dottedQuad_of_parts (trim_eq_self (htext ▸ space_of_quadText)) (octetOf_octetText _)
    (octetOf_octetText _) (octetOf_octetText _) (octetOf_octetText _)

theorem keyName_plain (key : Key) :
    (∀ c ∈ keyName key, isSpace c = false ∧ c ≠ 61 ∧ c ≠ 10 ∧ c ≠ 0) ∧
      (∃ c name, keyName key = c :: name ∧ c ≠ 35 ∧ c ≠ 91) ∧ keyOf (keyName key) = some key := by
  cases key <;> exact ⟨by decide +kernel, ⟨_, _, rfl, by decide, by decide⟩, by decide⟩

theorem space_of_settingLine (setting : Key × Quad) :
    ∀ c ∈ settingLine setting, isSpace c = false := by
  intro c hc
  obtain hname | hvalue := List.mem_append.mp hc
  · exact ((keyName_plain setting.1).1 c hname).1
  · obtain rfl | hquad := List.mem_cons.mp hvalue
    · rfl
    · exact space_of_quadText c hquad

theorem settingOf_settingLine (setting : Key × Quad) :
    settingOf (settingLine setting) = some (setting.1, quadText setting.2) := by
  obtain ⟨hplain, ⟨c, name, hname, hcomment, hheading⟩, hkey⟩ := keyName_plain setting.1
  have htoken : (settingLine setting).takeWhile (· != 61) = keyName setting.1 :=
    takeWhile_stop (fun c hc => bne_iff_ne.mpr (hplain c hc).2.1) (by decide)
  have hline : settingLine setting = c :: (name ++ 61 :: quadText setting.2) := by
    rw [settingLine, hname]
    rfl
  have hlength : (keyName setting.1).length ≠ (settingLine setting).length := by
    rw [settingLine, List.length_append, List.length_cons]
    omega
  have hvalue : (settingLine setting).drop ((keyName setting.1).length + 1) =
      quadText setting.2 := by
    rw [settingLine, ← List.drop_drop, List.drop_left]
    rfl
  rw [settingOf, trim_eq_self (space_of_settingLine setting), hline]
  dsimp only
  rw [if_neg (fun h => h.elim hcomment hheading), ← hline, htoken, if_neg hlength, hkey, hvalue]
  rfl

theorem break_of_settingLine (setting : Key × Quad) : 10 ∉ settingLine setting := by
  intro h
  have hspace := space_of_settingLine setting 10 h
  cases hspace

theorem splitOn_body (ss : List (Key × Quad)) (post : List UInt8) :
    (ss.flatMap (settingLine · ++ [10]) ++ post).splitOn 10 =
      ss.map settingLine ++ post.splitOn 10 := by
  induction ss with
  | nil => rfl
  | cons setting ss ih =>
    rw [List.flatMap_cons, List.append_assoc, List.append_assoc, List.singleton_append,
      List.splitOn_append_cons_self_of_not_mem (break_of_settingLine setting), ih]
    rfl

theorem splitOn_writeConfig (pre : List UInt8) (ss : List (Key × Quad)) (post : List UInt8) :
    (writeConfig pre ss post).splitOn 10 =
      pre.splitOn 10 ++ heading :: (ss.map settingLine ++ post.splitOn 10) := by
  have hheading : 10 ∉ heading := by decide
  rw [writeConfig, List.splitOn_append_cons_self,
    List.splitOn_append_cons_self_of_not_mem hheading, splitOn_body]

theorem settingLine_head (setting : Key × Quad) :
    ∃ c text, settingLine setting = c :: text ∧ c ≠ 35 ∧ c ≠ 91 := by
  obtain ⟨-, ⟨c, name, hname, hcomment, hheading⟩, -⟩ := keyName_plain setting.1
  exact ⟨c, name ++ 61 :: quadText setting.2, by rw [settingLine, hname]; rfl, hcomment, hheading⟩

theorem content_settings (ss : List (Key × Quad)) :
    ((ss.map settingLine).map (trim isSpace)).filter
      (fun line => line ≠ [] ∧ line.head? ≠ some 35) = ss.map settingLine := by
  have htrim : (ss.map settingLine).map (trim isSpace) = ss.map settingLine := by
    rw [List.map_map]
    apply List.map_congr_left
    exact fun setting _ => trim_eq_self (space_of_settingLine setting)
  rw [htrim, List.filter_eq_self]
  intro line hline
  obtain ⟨setting, -, rfl⟩ := List.mem_map.mp hline
  obtain ⟨c, text, heq, hcomment, -⟩ := settingLine_head setting
  rw [heq, decide_eq_true_iff]
  exact ⟨List.cons_ne_nil _ _, fun h => hcomment (Option.some.inj h)⟩

theorem contentLines_writeConfig (pre : List UInt8) (ss : List (Key × Quad)) (post : List UInt8) :
    contentLines (writeConfig pre ss post) =
      contentLines pre ++ heading :: (ss.map settingLine ++ contentLines post) := by
  have hheading : trim isSpace heading = heading := by decide
  have hkept : ∀ lines, (heading :: lines).filter (fun line => line ≠ [] ∧ line.head? ≠ some 35) =
      heading :: lines.filter (fun line => line ≠ [] ∧ line.head? ≠ some 35) :=
    fun _ => List.filter_cons_of_pos (by decide)
  rw [contentLines, splitOn_writeConfig, List.map_append, List.map_cons, List.map_append,
    hheading, List.filter_append, hkept, List.filter_append, content_settings]
  rfl

theorem linesWithin_heading {line : List UInt8} (h : isHeading line = true) (within : Bool)
    (xs ys : List (List UInt8)) : linesWithin within (xs ++ line :: ys) =
      linesWithin within xs ++ linesWithin (opensSection line) ys := by
  induction xs generalizing within with
  | nil =>
    rw [List.nil_append, linesWithin, linesWithin, if_pos h]
    rfl
  | cons x xs ih =>
    rw [List.cons_append, linesWithin, linesWithin, ih, ih]
    split
    · rfl
    · split
      · rfl
      · rfl

theorem linesWithin_settings (ss : List (Key × Quad)) (ys : List (List UInt8)) :
    linesWithin true (ss.map settingLine ++ ys) = ss.map settingLine ++ linesWithin true ys := by
  induction ss with
  | nil => rfl
  | cons setting ss ih =>
    obtain ⟨c, text, heq, -, hheading⟩ := settingLine_head setting
    have hplain : ¬ isHeading (settingLine setting) = true := by
      rw [heq, isHeading, decide_eq_true_iff]
      exact fun h => hheading (Option.some.inj h)
    rw [List.map_cons, List.cons_append, linesWithin, if_neg hplain, if_pos rfl, ih]
    rfl

/-- The section is made of the lines that were written, whatever stands before and behind it. -/
theorem sectionLines_writeConfig {pre post : List UInt8} (ss : List (Key × Quad))
    (hpre : sectionLines pre = []) (hpost : linesWithin true (contentLines post) = []) :
    sectionLines (writeConfig pre ss post) = ss.map settingLine := by
  have hheading : isHeading heading = true := by decide
  have hopens : opensSection heading = true := by decide
  rw [sectionLines, contentLines_writeConfig, linesWithin_heading hheading, hopens,
    linesWithin_settings, hpost, List.append_nil]
  rw [sectionLines] at hpre
  rw [hpre, List.nil_append]

theorem valuesOf_writeConfig {pre post : List UInt8} (ss : List (Key × Quad))
    (hpre : sectionLines pre = []) (hpost : linesWithin true (contentLines post) = []) (key : Key) :
    valuesOf key (writeConfig pre ss post) =
      ((ss.filter (·.1 = key)).map Prod.snd).map quadText := by
  rw [valuesOf_eq, sectionLines_writeConfig ss hpre hpost]
  induction ss with
  | nil => rfl
  | cons setting ss ih =>
    rw [List.map_cons, List.filterMap_cons_some (settingOf_settingLine setting), valuesIn_cons, ih]
    by_cases hkey : setting.1 = key
    · simp [hkey]
    · simp [hkey]

section config

variable {pre post : List UInt8} {ss : List (Key × Quad)} (hpre : sectionLines pre = [])
  (hpost : linesWithin true (contentLines post) = [])
  (hlen : (writeConfig pre ss post).length ≤ configMaxBytes - 1)
  (hnul : 0 ∉ writeConfig pre ss post) (before : TRapiNetConfig)

include hpre hpost hlen hnul

theorem written_inEffect (key : Key) :
    (rapiReadNetConfig (writeConfig pre ss post) .frOk .frOk before).inEffect key = true ↔
      key = .netmask ∨ (stated key ss).isSome = true := by
  rw [inEffect_iff, textRead_eq hlen hnul, valuesOf_writeConfig ss hpre hpost, stated,
    List.getLast?_isSome]
  generalize (ss.filter (·.1 = key)).map Prod.snd = qs
  apply or_congr_right
  constructor
  · rintro ⟨_, hvalue, -⟩
    obtain ⟨q, hq, -⟩ := List.mem_map.mp hvalue
    exact List.ne_nil_of_mem hq
  · intro hne
    refine ⟨quadText (qs.head hne), List.mem_map_of_mem (List.head_mem hne), ?_⟩
    rw [dottedQuad_quadText]
    rfl

theorem written_address (key : Key) (h : key = .netmask ∨ (stated key ss).isSome = true) :
    (rapiReadNetConfig (writeConfig pre ss post) .frOk .frOk before).address key =
      (stated key ss).getD defaultMask := by
  rw [address_inEffect _ _ _ ((written_inEffect hpre hpost hlen hnul before key).mpr h),
    textRead_eq hlen hnul, valuesOf_writeConfig ss hpre hpost, List.map_map]
  have hleading : leading ∘ quadText = fun q i => some (q i) := by
    funext q
    exact leading_quad (dottedQuad_quadText q)
  funext i
  rw [hleading, overlay, latest_total, stated]
  cases ((ss.filter (·.1 = key)).map Prod.snd).getLast? <;> rfl

theorem written_optional (key : Key) (hkey : key ≠ .netmask) (old : Option Quad)
    (c : TRapiNetConfig)
    (hc : c = rapiReadNetConfig (writeConfig pre ss post) .frOk .frOk before) :
    (if c.inEffect key then some (c.address key) else old) = (stated key ss).or old := by
  have hflag := written_inEffect hpre hpost hlen hnul before key
  have haddress := written_address hpre hpost hlen hnul before key
  rw [← hc] at hflag haddress
  cases hstated : stated key ss with
  | none =>
    rw [if_neg fun h => (hflag.mp h).elim hkey (by simp [hstated])]
    rfl
  | some q =>
    have hin : key = .netmask ∨ (stated key ss).isSome = true := by simp [hstated]
    rw [if_pos (hflag.mpr hin), haddress hin, hstated]
    rfl

/-- The card decides. A configuration that is written comes back as the network stack's: the last
address that is stated, with the last of each of the other three, and the default net mask; and
nothing at all where none is stated or the card cannot be read. -/
theorem card_decides (openResult readResult : FResult) (n : NetSettings) :
    configureNetwork (rapiReadNetConfig (writeConfig pre ss post) openResult readResult before) n =
      if openResult = .frOk ∧ readResult = .frOk then
        match stated .ipaddress ss with
        | none => n
        | some q =>
          { ipAddress := some q
            netMask := some ((stated .netmask ss).getD defaultMask)
            defaultGateway := (stated .gateway ss).or n.defaultGateway
            dnsServer := (stated .dnsserver ss).or n.dnsServer }
      else n := by
  by_cases hfine : openResult = .frOk ∧ readResult = .frOk
  · obtain ⟨rfl, rfl⟩ := hfine
    have hflag := written_inEffect hpre hpost hlen hnul before
    have haddress := written_address hpre hpost hlen hnul before
    have hoptional := written_optional hpre hpost hlen hnul before
    generalize rapiReadNetConfig (writeConfig pre ss post) .frOk .frOk before = c
      at hflag haddress hoptional
    rw [if_pos ⟨rfl, rfl⟩, configureNetwork]
    cases haddr : stated .ipaddress ss with
    | none =>
      have hstatic : c.static = false := by
        have hno := (hflag .ipaddress).not.mpr (by simp [haddr])
        exact Bool.not_eq_true _ ▸ hno
      rw [hstatic]
      rfl
    | some q =>
      have hstatic : c.static = true := (hflag .ipaddress).mpr (by simp [haddr])
      have hip : c.ipAddress = q := by
        have hip := haddress .ipaddress (by simp [haddr])
        rwa [haddr] at hip
      have hmask : c.netMask = (stated .netmask ss).getD defaultMask := haddress .netmask (.inl rfl)
      have hgateway := hoptional .gateway (by decide) n.defaultGateway c rfl
      have hdns := hoptional .dnsserver (by decide) n.dnsServer c rfl
      rw [hstatic, hip, hmask, ← hgateway, ← hdns]
      rfl
  · rw [if_neg hfine]
    have hcleared : rapiReadNetConfig (writeConfig pre ss post) openResult readResult before =
        cleared before := by
      rw [rapiReadNetConfig]
      by_cases hopen : openResult = .frOk
      · rw [if_neg (not_not.mpr hopen), if_pos fun hread => hfine ⟨hopen, hread⟩]
      · rw [if_pos hopen]
    rw [hcleared]
    rfl

end config

/-- The firmware's settings in front and a section of another name behind. -/
theorem card_decides_lab : configureNetwork (rapiReadNetConfig
      (writeConfig (ascii "arm_64bit=1\n[pi4]\nipaddress=1.2.3.4")
        [(.gateway, ![10, 0, 0, 1]), (.ipaddress, ![10, 0, 0, 9]), (.ipaddress, ![10, 0, 0, 23])]
        (ascii "[all]\nipaddress=1.2.3.4\n")) .frOk .frOk noConfig) ⟨none, none, none, none⟩ =
    ⟨some ![10, 0, 0, 23], some ![255, 255, 255, 0], some ![10, 0, 0, 1], none⟩ :=
  card_decides (by decide) (by decide) (by decide +kernel) (by decide +kernel) noConfig .frOk .frOk _

end RapiBootloader.NetworkSetup
