import RapiBootloader.WebDavHeaders
import RapiBootloader.WebDavHrefs

namespace RapiBootloader.WebDavTarget

open Lib.Memory Lib.Strings Lib.CLibrary WebDavText WebDavServer WebDavParse WebDavPut
open WebDavHrefs WebDavHeaders

theorem mapPath_some {path sdPath : List UInt8} (h : mapPath path = some sdPath) :
    sdPath = ascii "SD:" ++ path ∧ ¬ ascii ".." <:+: path := by
  unfold mapPath at h
  split at h
  · cases h
  · rename_i hdots
    split at h
    · rename_i hroot
      cases h
      rw [hroot]
      exact ⟨by decide, by decide⟩
    · cases h
      exact ⟨rfl, hdots⟩

theorem mapPath_inj {path path' sdPath : List UInt8} (h : mapPath path = some sdPath)
    (h' : mapPath path' = some sdPath) : path = path' :=
  List.append_cancel_left ((mapPath_some h).1.symm.trans (mapPath_some h').1)

/-- The first of the decoding is the decoding of the first of the target. -/
theorem decode_cut (s : List UInt8) :
    ∃ u, u <+: s ∧ percentDecode u = (percentDecode s).takeWhile (· != 0) := by
  fun_induction percentDecode s with
  | case1 => exact ⟨[], List.prefix_refl _, rfl⟩
  | case2 c =>
    by_cases hc : c = 0
    · subst hc
      exact ⟨[], List.nil_prefix, rfl⟩
    · refine ⟨[c], List.prefix_refl _, ?_⟩
      rw [takeWhile_nul_cons hc]
      rfl
  | case3 c a =>
    by_cases hc : c = 0
    · subst hc
      exact ⟨[], List.nil_prefix, rfl⟩
    · rw [takeWhile_nul_cons hc]
      by_cases ha : a = 0
      · subst ha
        exact ⟨[c], ⟨[0], rfl⟩, rfl⟩
      · refine ⟨[c, a], List.prefix_refl _, ?_⟩
        rw [takeWhile_nul_cons ha]
        rfl
  | case4 c a b s hesc ih =>
    obtain ⟨rfl, ha, hb⟩ := hesc
    by_cases hbyte : hexValue a * 16 + hexValue b = 0
    · rw [List.takeWhile_cons_of_neg (by rw [hbyte]; decide)]
      exact ⟨[], List.nil_prefix, rfl⟩
    · obtain ⟨u, hu, hdecode⟩ := ih
      rw [takeWhile_nul_cons hbyte, ← hdecode]
      refine ⟨37 :: a :: b :: u, ?_, percentDecode_escape ha hb u⟩
      simp only [List.cons_prefix_cons, true_and]
      exact hu
  | case5 c a b s hplain ih =>
    by_cases hc : c = 0
    · rw [List.takeWhile_cons_of_neg (by rw [hc]; decide)]
      exact ⟨[], List.nil_prefix, rfl⟩
    · obtain ⟨u, hu, hdecode⟩ := ih
      rw [takeWhile_nul_cons hc, ← hdecode]
      refine ⟨c :: u, List.cons_prefix_cons.mpr ⟨rfl, hu⟩, percentDecode_plain ?_⟩
      rintro ⟨a', b', t, heq, ha, hb⟩
      cases heq
      obtain ⟨rfl, htail⟩ := List.cons_prefix_cons.mp hu
      obtain ⟨rfl, -⟩ := List.cons_prefix_cons.mp htail
      exact hplain ⟨rfl, ha, hb⟩

theorem decodedPath_eq {target : List UInt8} (h : 0 ∉ percentDecode target) :
    decodedPath target = percentDecode target :=
  takeWhile_nul_self h

theorem requestLine_chars {header method target : List UInt8}
    (h : requestLine (header.takeWhile (· != 0)) = some (method, target)) :
    ∀ c ∈ target, c ≠ 0 ∧ c ∉ crlf ∧ c ≠ 32 ∧ c ≠ 63 := by
  obtain ⟨line, lines, word, words, hlines, hwords, rfl⟩ := requestLine_eq_some.mp h
  have hline := (mem_tokens (hlines ▸ List.mem_cons_self : line ∈ tokens crlf _)).2
  have hword := (mem_tokens (hwords ▸ List.mem_cons_of_mem _ List.mem_cons_self :
    word ∈ tokens (ascii " ") line)).2
  intro c hc
  obtain ⟨hin, hblank⟩ := hword c ((List.takeWhile_prefix _).subset hc)
  obtain ⟨htext, hcrlf⟩ := hline c hin
  have hquery : c ≠ 63 := by simpa using List.mem_takeWhile_imp hc
  exact ⟨ne_nul_of_mem_takeWhile htext, hcrlf,
    fun h32 => hblank (h32 ▸ List.mem_singleton_self 32), hquery⟩

theorem requestLine_bare {target : List UInt8} (hne : target ≠ [])
    (h : ∀ c ∈ target, c ≠ 0 ∧ c ∉ crlf ∧ c ≠ 32 ∧ c ≠ 63) :
    requestLine ((ascii "GET" ++ 32 :: target).takeWhile (· != 0)) = some (ascii "GET", target) := by
  have hget : ∀ c ∈ ascii "GET", c ≠ 0 ∧ c ∉ crlf ∧ c ∉ ascii " " := by decide +kernel
  have hall : ∀ c ∈ ascii "GET" ++ 32 :: target, c ≠ 0 ∧ c ∉ crlf := by
    intro c hc
    obtain hc | hc := List.mem_append.mp hc
    · exact ⟨(hget c hc).1, (hget c hc).2.1⟩
    · obtain rfl | hc := List.mem_cons.mp hc
      · exact ⟨by decide, by decide⟩
      · exact ⟨(h c hc).1, (h c hc).2.1⟩
  have htext : (ascii "GET" ++ 32 :: target).takeWhile (· != 0) = ascii "GET" ++ 32 :: target :=
    takeWhile_nul_self (fun h0 => (hall 0 h0).1 rfl)
  have hblank : ∀ c ∈ target, c ∉ ascii " " := fun c hc h32 =>
    (h c hc).2.2.1 (List.mem_singleton.mp h32)
  have hcut : target.takeWhile (· ≠ 63) = target :=
    List.takeWhile_eq_self_iff.mpr (fun c hc => decide_eq_true (h c hc).2.2.2)
  apply requestLine_eq_some.mpr
  refine ⟨ascii "GET" ++ 32 :: target, [], target, [], ?_, ?_, hcut.symm⟩
  · rw [htext]
    apply tokens_token
    · exact List.append_ne_nil_of_right_ne_nil _ (List.cons_ne_nil _ _)
    · exact fun c hc => (hall c hc).2
  · have hspace : 32 ∈ ascii " " := by decide
    rw [tokens_append (by decide) (fun c hc => (hget c hc).2.2) hspace,
      tokens_token hne hblank]

theorem requestedPath_words {d : Dav} {header method target : List UInt8}
    (hheld : Holds d.recvBuf 0 header) (hlen : header.length < recvBufSize)
    (h : RequestWords (header.takeWhile (· != 0)) method target) :
    requestedPath header.length d = mapPath (decodedPath target) := by
  have hok := (parseRequest_accepts_iff hheld hlen).mpr ⟨method, target, h⟩
  have hview := parseRequest_view hheld hlen h
  rw [view] at hview
  obtain ⟨-, hpath, -, -⟩ := View.mk.inj hview
  unfold requestedPath
  dsimp only
  rw [if_pos hok, hpath]

theorem requestedPath_some {d : Dav} {header sdPath method target : List UInt8}
    (hheld : Holds d.recvBuf 0 header) (hlen : header.length < recvBufSize)
    (hline : requestLine (header.takeWhile (· != 0)) = some (method, target))
    (h : requestedPath header.length d = some sdPath) :
    RequestWords (header.takeWhile (· != 0)) method target ∧
      mapPath (decodedPath target) = some sdPath := by
  have hok : (parseRequest header.length d).1 = true := by
    unfold requestedPath at h
    dsimp only at h
    by_contra hno
    rw [if_neg hno] at h
    cases h
  obtain ⟨method', target', hwords⟩ := (parseRequest_accepts_iff hheld hlen).mp hok
  have hsame := requestLine_eq_some.mpr hwords.words
  rw [hline] at hsame
  cases hsame
  rw [requestedPath_words hheld hlen hwords] at h
  exact ⟨hwords, h⟩

/-- The request is about what its target decodes to, or refused if that cannot be a C string. -/
structure Named (d : Dav) (header target : List UInt8) : Prop where
  complete : (parseRequest header.length d).1 = true →
    cstr (parseRequest header.length d).2.path pathSize 0 = percentDecode target
  refused : 0 ∈ percentDecode target → (parseRequest header.length d).1 = false

/-- No request for something else is about the same path on the card. -/
def NoOther (sdPath target : List UInt8) : Prop :=
  ∀ (d : Dav) (header method other : List UInt8), Holds d.recvBuf 0 header →
    header.length < recvBufSize → requestLine (header.takeWhile (· != 0)) = some (method, other) →
      0 ∉ percentDecode other → requestedPath header.length d = some sdPath →
        percentDecode other = percentDecode target

theorem named_iff {d : Dav} {header method target : List UInt8} (hheld : Holds d.recvBuf 0 header)
    (hlen : header.length < recvBufSize)
    (hline : requestLine (header.takeWhile (· != 0)) = some (method, target)) :
    Named d header target ↔
      0 ∉ percentDecode target ∨ ¬ (method.length < methodSize ∧ Rooted target) := by
  have haccepts := parseRequest_accepts_iff hheld hlen
  by_cases htaken : method.length < methodSize ∧ Rooted target
  · have hwords : RequestWords (header.takeWhile (· != 0)) method target :=
      ⟨requestLine_eq_some.mp hline, htaken.1, htaken.2.1, htaken.2.2⟩
    have hok := haccepts.mpr ⟨method, target, hwords⟩
    rw [or_iff_left (not_not.mpr htaken)]
    constructor
    · intro h hnul
      rw [h.refused hnul] at hok
      cases hok
    · intro hnul
      refine ⟨fun _ => ?_, fun hin => absurd hin hnul⟩
      have hview := parseRequest_view hheld hlen hwords
      rw [view] at hview
      obtain ⟨-, hpath, -, -⟩ := View.mk.inj hview
      exact hpath.trans (decodedPath_eq hnul)
  · have hno : (parseRequest header.length d).1 = false := by
      rw [← Bool.not_eq_true, haccepts]
      rintro ⟨method', target', hwords⟩
      have hsame := requestLine_eq_some.mpr hwords.words
      rw [hline] at hsame
      cases hsame
      exact htaken ⟨hwords.short, hwords.rooted, hwords.fits⟩
    refine iff_of_true ⟨fun hok => ?_, fun _ => hno⟩ (Or.inr htaken)
    rw [hno] at hok
    cases hok

theorem noOther_iff {d : Dav} {header method target sdPath : List UInt8}
    (hheld : Holds d.recvBuf 0 header) (hlen : header.length < recvBufSize)
    (hline : requestLine (header.takeWhile (· != 0)) = some (method, target))
    (hpath : requestedPath header.length d = some sdPath) :
    NoOther sdPath target ↔ 0 ∉ percentDecode target := by
  obtain ⟨hwords, hmap⟩ := requestedPath_some hheld hlen hline hpath
  constructor
  · -- the target up to the escape of the NUL is another name of the same path
    intro h hnul
    obtain ⟨u, hu, hdecode⟩ := decode_cut target
    have hchars := requestLine_chars hline
    have hnul' : 0 ∉ percentDecode u := by
      rw [hdecode]
      exact fun h0 => ne_nul_of_mem_takeWhile h0 rfl
    obtain ⟨rest, hrest⟩ := List.head?_eq_some_iff.mp hwords.rooted
    have hslash : percentDecode target = 47 :: percentDecode rest := by
      rw [hrest, percentDecode_slash]
    have hne : u ≠ [] := by
      rintro rfl
      rw [hslash, takeWhile_nul_cons (by decide)] at hdecode
      cases hdecode
    have hroot : u.head? = some 47 := by
      obtain ⟨c, t, rfl⟩ := List.exists_cons_of_ne_nil hne
      rw [hrest] at hu
      rw [(List.cons_prefix_cons.mp hu).1]
      rfl
    have hfits : u.length < pathSize := Nat.lt_of_le_of_lt hu.length_le hwords.fits
    have hline' := requestLine_bare hne (fun c hc => hchars c (hu.subset hc))
    have hsize : (ascii "GET" ++ 32 :: u).length < recvBufSize := by
      have hget : (ascii "GET").length = 3 := by decide
      have hpathSize : pathSize = 512 := rfl
      have hbufSize : recvBufSize = 4096 := rfl
      rw [List.length_append, List.length_cons, hget]
      omega
    have hwords' : RequestWords ((ascii "GET" ++ 32 :: u).takeWhile (· != 0)) (ascii "GET") u :=
      ⟨requestLine_eq_some.mp hline', by decide, hroot, hfits⟩
    have hpath' : requestedPath (ascii "GET" ++ 32 :: u).length (holding (ascii "GET" ++ 32 :: u)) =
        some sdPath := by
      rw [requestedPath_words (holds_holding _) hsize hwords', decodedPath_eq hnul', hdecode]
      exact hmap
    have hsame := h _ _ _ _ (holds_holding _) hsize hline' hnul' hpath'
    rw [← hsame] at hnul
    exact hnul' hnul
  · intro hnul d' header' method' other hheld' hlen' hline' hnul' hpath'
    obtain ⟨-, hmap'⟩ := requestedPath_some hheld' hlen' hline' hpath'
    have hsame := mapPath_inj hmap' hmap
    rwa [decodedPath_eq hnul, decodedPath_eq hnul'] at hsame

/-- A request is about the resource it names just if its target does not decode to a NUL, or
`ParseRequest` refuses it for another reason. -/
theorem target_named_iff {d : Dav} {header method target : List UInt8}
    (hheld : Holds d.recvBuf 0 header) (hlen : header.length < recvBufSize)
    (hline : requestLine (header.takeWhile (· != 0)) = some (method, target)) :
    (Named d header target ↔
        0 ∉ percentDecode target ∨ ¬ (method.length < methodSize ∧ Rooted target)) ∧
      ∀ sdPath, requestedPath header.length d = some sdPath →
        (NoOther sdPath target ↔ 0 ∉ percentDecode target) :=
  ⟨named_iff hheld hlen hline, fun _ hpath => noOther_iff hheld hlen hline hpath⟩

def deleteRequest (target : List UInt8) : List UInt8 :=
  ascii "DELETE " ++ target ++ ascii " HTTP/1.1"

/-- The escape `%2e` in a name. -/
theorem target_named_dot :
    Named (holding (deleteRequest (ascii "/a%2eb"))) (deleteRequest (ascii "/a%2eb"))
      (ascii "/a%2eb") := by
  have hnamed := @target_named_iff (holding (deleteRequest (ascii "/a%2eb"))) _ (ascii "DELETE")
    (ascii "/a%2eb") (holds_holding _) (by decide) (by decide)
  exact hnamed.1.mpr (Or.inl (by decide))

/-- `DELETE /a%00b` is accepted, and about `SD:/a` as `DELETE /a` is. -/
theorem target_cut :
    ¬ (∀ (d : Dav) (header method target : List UInt8), Holds d.recvBuf 0 header →
        header.length < recvBufSize →
          requestLine (header.takeWhile (· != 0)) = some (method, target) → Named d header target) ∧
      requestedPath (deleteRequest (ascii "/a%00b")).length (holding (deleteRequest (ascii "/a%00b"))) =
        some (ascii "SD:/a") ∧
      requestedPath (deleteRequest (ascii "/a")).length (holding (deleteRequest (ascii "/a"))) =
        some (ascii "SD:/a") := by
  refine ⟨fun hall => ?_, by decide +kernel, by decide +kernel⟩
  have hnamed := hall (holding (deleteRequest (ascii "/a%00b"))) _ (ascii "DELETE") (ascii "/a%00b")
    (holds_holding _) (by decide) (by decide)
  have hrefused := hnamed.refused (by decide)
  revert hrefused
  decide +kernel

end RapiBootloader.WebDavTarget
