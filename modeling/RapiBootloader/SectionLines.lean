import RapiBootloader.IgnoredLines

namespace RapiBootloader.SectionLines

open Lib.Overlay Lib.Strings Lib.Text Card NetAddress NetConfig IgnoredLines

/-- The lines of a text without the space around them, blank lines and comments left out. -/
def contentLines (file : List UInt8) : List (List UInt8) :=
  ((file.splitOn 10).map (trim isSpace)).filter (fun line => line ≠ [] ∧ line.head? ≠ some 35)

def isHeading (line : List UInt8) : Bool := line.head? = some 91

/-- `[rapi-bootloader]`, in any case and with any space inside the brackets. -/
def opensSection (line : List UInt8) : Bool :=
  line.getLast? = some 93 &&
    (trim isSpace (line.drop 1).dropLast).map toLower = ascii "rapi-bootloader"

/-- The lines between a heading of the section and the next heading of any kind. -/
def linesWithin : Bool → List (List UInt8) → List (List UInt8)
  | _, [] => []
  | within, line :: lines =>
    if isHeading line then linesWithin (opensSection line) lines
    else if within then line :: linesWithin within lines
    else linesWithin within lines

def sectionLines (file : List UInt8) : List (List UInt8) := linesWithin false (contentLines file)

theorem settingOf_trim (line : List UInt8) : settingOf (trim isSpace line) = settingOf line := by
  simp only [settingOf, trim_trim]

theorem sectionAfter_trim (within : Bool) (line : List UInt8) :
    sectionAfter within (trim isSpace line) = sectionAfter within line := by
  simp only [sectionAfter, trim_trim]

theorem configSection_toLower : configSection.map toLower = ascii "rapi-bootloader" := by
  decide

/-- The scanner's section flag and settings, line by line, are those of the section's lines. -/
theorem settings_eq (within : Bool) (lines : List (List UInt8)) :
    settings within lines =
      (linesWithin within ((lines.map (trim isSpace)).filter
        (fun line => line ≠ [] ∧ line.head? ≠ some 35))).filterMap settingOf := by
  induction lines generalizing within with
  | nil => rfl
  | cons line lines ih =>
    rw [settings, ih, ← settingOf_trim, ← sectionAfter_trim, List.map_cons]
    generalize hs : trim isSpace line = s
    have htrim : trim isSpace s = s := by
      rw [← hs]
      exact trim_trim isSpace line
    cases s with
    | nil => cases within <;> simp [settingOf, sectionAfter, htrim]
    | cons c text =>
      by_cases hc : c = 35
      · subst hc
        cases within <;> simp [settingOf, sectionAfter, htrim]
      · by_cases hb : c = 91
        · subst hb
          cases within <;>
            simp [settingOf, sectionAfter, htrim, linesWithin, isHeading, opensSection, matchToken,
              configSection_toLower]
        · have hafter : sectionAfter within (c :: text) = within := by
            simp [sectionAfter, htrim, hb]
          rw [hafter]
          cases within with
          | false => simp [linesWithin, isHeading, hc, hb]
          | true =>
            cases hset : settingOf (c :: text) <;>
              simp [linesWithin, isHeading, hc, hb, hset]

theorem valuesOf_eq (key : Key) (file : List UInt8) :
    valuesOf key file = valuesIn key ((sectionLines file).filterMap settingOf) := by
  rw [valuesOf, settings_eq]
  rfl

theorem address_eq_of_inEffect {file : List UInt8} {before : TRapiNetConfig} {key : Key}
    (other : TRapiNetConfig)
    (h : (rapiReadNetConfig file .frOk .frOk before).inEffect key = true) :
    (rapiReadNetConfig file .frOk .frOk before).address key =
      (rapiReadNetConfig file .frOk .frOk other).address key := by
  simp only [read_inEffect, Bool.or_eq_true, decide_eq_true_eq] at h
  rw [read_address, read_address]
  obtain rfl | hquad := h
  · rfl
  · funext i
    obtain ⟨q, hq⟩ := lastQuad_isSome hquad
    cases hl : latest ((valuesOf key (textRead file)).map leading) i with
    | none =>
      rw [lastQuad_eq_none hl] at hq
      cases hq
    | some x => simp [overlay, hl]

/-- Two files with the same lines in their sections make the same configuration, whatever else
is in them and whatever was in the structure before. -/
theorem section_lines_decide (file other : List UInt8)
    (hfile : file.length ≤ configMaxBytes - 1) (hother : other.length ≤ configMaxBytes - 1)
    (hnul : 0 ∉ file) (honul : 0 ∉ other) (hlines : sectionLines file = sectionLines other)
    (openResult readResult : FResult) (before before' : TRapiNetConfig) :
    SameConfig (rapiReadNetConfig file openResult readResult before)
      (rapiReadNetConfig other openResult readResult before') := by
  intro key
  by_cases ho : openResult = .frOk
  · by_cases hr : readResult = .frOk
    · subst ho hr
      have hvalues : valuesOf key (textRead file) = valuesOf key (textRead other) := by
        rw [textRead_eq hfile hnul, textRead_eq hother honul, valuesOf_eq, valuesOf_eq, hlines]
      constructor
      · rw [read_inEffect, read_inEffect, hvalues]
      · intro hin
        rw [address_eq_of_inEffect before' hin, read_address, read_address, hvalues]
    · simp only [rapiReadNetConfig, ho, hr, ne_eq, not_true_eq_false, not_false_eq_true, if_true,
        if_false]
      cases key <;> simp [cleared, TRapiNetConfig.inEffect, TRapiNetConfig.address]
  · simp only [rapiReadNetConfig, ho, ne_eq, not_false_eq_true, if_true]
    cases key <;> simp [cleared, TRapiNetConfig.inEffect, TRapiNetConfig.address]

def onePiece : List UInt8 :=
  ascii "arm_64bit=1\r\n[Rapi-Bootloader]\r\n# lab\r\nipaddress=10.0.0.7\r\nnetmask=255.0.0.0\r\n[all]\r\n"

def twoPieces : List UInt8 :=
  ascii "[\n[]\n[rapi-bootloader]\n  ipaddress=10.0.0.7\n[pi4\nipaddress=1.2.3.4\n[ rapi-bootloader ]\nnetmask=255.0.0.0"

theorem pieces_do_not_matter :
    SameConfig (rapiReadNetConfig onePiece .frOk .frOk noConfig)
      (rapiReadNetConfig twoPieces .frOk .frOk noConfig) := by
  apply section_lines_decide onePiece twoPieces (by decide) (by decide)
    (by decide) (by decide)
  decide

end RapiBootloader.SectionLines
