import RapiBootloader.WebDavHeaders
import RapiBootloader.WebDavStored

namespace RapiBootloader.WebDavLength

open Lib.Memory Lib.Strings Lib.CLibrary WebDavText WebDavServer WebDavRequest WebDavParse
open WebDavPut WebDavBatch WebDavUpload WebDavHeaders

def isBlank (c : UInt8) : Bool := c = 32 || c = 9

def decimal (digits : List UInt8) : Nat := digits.foldl (fun n c => 10 * n + (c.toNat - 48)) 0

/-- The value is a decimal numeral, with blanks around it or not. -/
def Numeral (value : List UInt8) (n : Nat) : Prop :=
  ∃ before digits behind, value = before ++ digits ++ behind ∧ (∀ c ∈ before, isBlank c = true) ∧
    digits ≠ [] ∧ (∀ c ∈ digits, isDigit c = true) ∧ (∀ c ∈ behind, isBlank c = true) ∧
    decimal digits = n

theorem skipSpaces_eq (s : List UInt8) : skipSpaces s = s.dropWhile isBlank := rfl

theorem digit_bounds {c : UInt8} (h : isDigit c = true) : 48 ≤ c ∧ c ≤ 57 := by
  rw [isDigit, Bool.and_eq_true, decide_eq_true_iff, decide_eq_true_iff] at h
  exact h

theorem digit_notSpace {c : UInt8} (h : isDigit c = true) : isSpace c = false ∧ isBlank c = false := by
  obtain ⟨hlo, hhi⟩ := digit_bounds h
  have hlo' : 48 ≤ c.toNat := hlo
  constructor
  · rw [isSpace, Bool.or_eq_false_iff, Bool.and_eq_false_iff, decide_eq_false_iff_not,
      decide_eq_false_iff_not, decide_eq_false_iff_not]
    refine ⟨?_, Or.inr ?_⟩
    · rintro rfl
      exact absurd hlo (by decide)
    · intro hle
      have hle' : c.toNat ≤ 13 := hle
      omega
  · rw [isBlank, Bool.or_eq_false_iff, decide_eq_false_iff_not, decide_eq_false_iff_not]
    constructor <;> rintro rfl <;> exact absurd hlo (by decide)

theorem blank_notDigit {c : UInt8} (h : isBlank c = true) : isDigit c = false := by
  by_contra hdigit
  rw [(digit_notSpace ((Bool.not_eq_false _).mp hdigit)).2] at h
  cases h

theorem leadingNumber_digits {digits behind : List UInt8} (hdigits : ∀ c ∈ digits, isDigit c = true)
    (hbehind : ∀ c ∈ behind, isBlank c = true) : leadingNumber (digits ++ behind) = decimal digits := by
  have hnone : behind.takeWhile isDigit = [] := by
    cases behind with
    | nil => rfl
    | cons c behind =>
      rw [List.takeWhile_cons, blank_notDigit (hbehind c List.mem_cons_self)]
      rfl
  rw [leadingNumber, List.takeWhile_append_of_pos hdigits, hnone, List.append_nil, decimal]

theorem strtol_digit {c : UInt8} (h : isDigit c = true) (s : List UInt8) :
    strtol (c :: s) = min (leadingNumber (c :: s) : Int) 0x7FFFFFFFFFFFFFFF := by
  obtain ⟨hlo, -⟩ := digit_bounds h
  rw [strtol, List.dropWhile_cons, (digit_notSpace h).1, if_neg Bool.false_ne_true]
  split
  · rename_i heq
    cases heq
    exact absurd hlo (by decide)
  · rename_i heq
    cases heq
    exact absurd hlo (by decide)
  · rfl

theorem lengthValue_numeral {line : List UInt8} {n : Nat} (h : Numeral (line.drop 15) n)
    (hn : n < 0x100000000) : lengthValue line = n := by
  obtain ⟨before, digits, behind, hvalue, hbefore, hne, hdigits, hbehind, hdecimal⟩ := h
  obtain ⟨c, digits, rfl⟩ := List.exists_cons_of_ne_nil hne
  have hc := hdigits c List.mem_cons_self
  have hskip : skipSpaces (line.drop 15) = c :: (digits ++ behind) := by
    rw [hvalue, skipSpaces_eq, List.append_assoc, List.dropWhile_append_of_pos hbefore,
      List.cons_append, List.dropWhile_cons, (digit_notSpace hc).2, if_neg Bool.false_ne_true]
  have hnumber : leadingNumber (c :: (digits ++ behind)) = n :=
    (leadingNumber_digits hdigits hbehind).trans hdecimal
  rw [lengthValue, hskip, atoi, strtol_digit hc, hnumber]
  omega

theorem reported_stores {a : PutAnswers} {s : Socket} {d : Dav} (hbuf : d.writeBuf = none)
    (hfill : d.writeBufFill = 0) (h : Reported (doPut a s d).response) :
    stored (doPut a s d).calls = (body d s).take d.contentLength ∧
      d.contentLength ≤ (body d s).length := by
  by_cases hopens : Opens a d
  · obtain ⟨hmap, hopen⟩ := hopens
    obtain ⟨path, hpath⟩ := Option.isSome_iff_exists.mp hmap
    obtain ⟨u, hput, -, hends⟩ := doPut_ends (s := s) hpath hopen hbuf hfill
    have hfailed : u.ok = false → False := by
      intro hok
      rw [hput, putFinish_failed hok] at h
      simp [Reported] at h
    cases hends with
    | cut hok => exact (hfailed hok).elim
    | refused hok => exact (hfailed hok).elim
    | whole hup hr =>
      obtain ⟨ok, v, heq, -, -, hv⟩ := flush_last hup hr
      rw [putFinish_flushed hup.ok heq] at hput
      have hlen := hup.remaining
      rw [hr, Nat.add_zero, List.length_take] at hlen
      cases ok with
      | false =>
        rw [hput] at h
        simp [Reported] at h
      | true =>
        rw [hput, stored_close]
        exact ⟨hv.1, by omega⟩
  · obtain ⟨r, calls, hput, hreport, -⟩ := doPut_refused s hopens
    rw [hput] at h
    exact absurd h hreport

/-- A numeral that fits 32 bits is the number of bytes a `PUT` waits for and reports. Other values
are not refused: they count for what `atoi` makes of them. -/
theorem contentLength_announced {d : Dav} {header line : List UInt8}
    (hheld : Holds d.recvBuf 0 header) (hlen : header.length < recvBufSize)
    (hone : (tokens crlf (header.takeWhile (· != 0))).tail.filter lengthLine = [line]) :
    ((parseRequest header.length d).1 = true ↔
        ∃ method target, RequestWords (header.takeWhile (· != 0)) method target) ∧
      ((parseRequest header.length d).1 = true →
        (parseRequest header.length d).2.contentLength = atoi (skipSpaces (line.drop 15)) ∧
          (∀ n, Numeral (line.drop 15) n → n < 0x100000000 →
            (parseRequest header.length d).2.contentLength = n) ∧
          ∀ (a : PutAnswers) (s : Socket), d.writeBuf = none → d.writeBufFill = 0 →
            Reported (doPut a s (parseRequest header.length d).2).response →
              stored (doPut a s (parseRequest header.length d).2).calls =
                  (body (parseRequest header.length d).2 s).take
                    (parseRequest header.length d).2.contentLength ∧
                (parseRequest header.length d).2.contentLength ≤
                  (body (parseRequest header.length d).2 s).length) := by
  have haccepts := parseRequest_accepts_iff hheld hlen
  refine ⟨haccepts, fun hok => ?_⟩
  obtain ⟨method, target, hwords⟩ := haccepts.mp hok
  have hview := parseRequest_view hheld hlen hwords
  have hvalue : lastValue lengthLine lengthValue 0
      (tokens crlf (header.takeWhile (· != 0))).tail = lengthValue line := by
    rw [lastValue, hone]
    rfl
  rw [headerFields_eq, hvalue, view] at hview
  obtain ⟨-, -, hlength, -⟩ := View.mk.inj hview
  have hkept := (parseRequest_reads hheld hlen).kept
  refine ⟨hlength, fun n hn hsmall => hlength.trans (lengthValue_numeral hn hsmall),
    fun a s hbuf hfill hreport => ?_⟩
  exact reported_stores (hkept.writeBuf.trans hbuf) (hkept.writeBufFill.trans hfill) hreport

def putHeader (value : List UInt8) : List UInt8 :=
  ascii "PUT /a HTTP/1.1" ++ crlf ++ ascii "Content-Length:" ++ value

def putTwo : Dav := (parseRequest (putHeader (ascii " 2")).length (holding (putHeader (ascii " 2")))).2

/-- Three bytes come, two of which have been announced. -/
theorem contentLength_announced_two :
    putTwo.contentLength = 2 ∧
      Reported (doPut (roomyCard .frOk) (atOnce (ascii "hi!")) putTwo).response ∧
      stored (doPut (roomyCard .frOk) (atOnce (ascii "hi!")) putTwo).calls = ascii "hi" := by
  have hannounced := @contentLength_announced (holding (putHeader (ascii " 2"))) _
    (ascii "Content-Length: 2") (holds_holding _) (by decide) (by decide)
  have hnumeral : Numeral ((ascii "Content-Length: 2").drop 15) 2 :=
    ⟨[32], [50], [], by decide, by decide +kernel, by decide, by decide +kernel,
      by decide +kernel, by decide⟩
  obtain ⟨-, hvalue, hput⟩ := hannounced.2 (by decide +kernel)
  rw [← putTwo] at hvalue hput
  have htwo : putTwo.contentLength = 2 := hvalue 2 hnumeral (by decide)
  have hstatus : (doPut (roomyCard .frOk) (atOnce (ascii "hi!")) putTwo).response.status = 201 := by
    decide +kernel
  have hstored := (hput (roomyCard .frOk) (atOnce (ascii "hi!")) rfl rfl (Or.inl hstatus)).1
  rw [htwo] at hstored
  exact ⟨htwo, Or.inl hstatus, hstored.trans (by decide +kernel)⟩

/-- A negative length is taken for one of almost 4 GiB. -/
theorem contentLength_negative :
    ¬ ∀ (d : Dav) (header line : List UInt8), Holds d.recvBuf 0 header →
      header.length < recvBufSize →
      (tokens crlf (header.takeWhile (· != 0))).tail.filter lengthLine = [line] →
        (∀ n, n < 0x100000000 → ¬ Numeral (line.drop 15) n) →
          (parseRequest header.length d).1 = false := by
  intro hall
  have hnone : ∀ n, n < 0x100000000 → ¬ Numeral ((ascii "Content-Length: -1").drop 15) n := by
    rintro n - ⟨before, digits, behind, hvalue, hbefore, -, hdigits, hbehind, -⟩
    have hmem : 45 ∈ before ++ digits ++ behind := by
      rw [← hvalue]
      decide
    obtain hmem | hmem := List.mem_append.mp hmem
    · obtain hmem | hmem := List.mem_append.mp hmem
      · exact absurd (hbefore 45 hmem) (by decide)
      · exact absurd (hdigits 45 hmem) (by decide)
    · exact absurd (hbehind 45 hmem) (by decide)
  have hrefused := hall (holding (putHeader (ascii " -1"))) _ (ascii "Content-Length: -1")
    (holds_holding _) (by decide) (by decide) hnone
  revert hrefused
  decide +kernel

end RapiBootloader.WebDavLength
