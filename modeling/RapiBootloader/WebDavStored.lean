import RapiBootloader.WebDavUpload

namespace RapiBootloader.WebDavStored

open Lib.Memory Lib.Strings Lib.CLibrary Card WebDavText WebDavServer WebDavParse WebDavPut WebDavBatch
open WebDavRequest WebDavUpload

/-- The first `n` bytes of the body are in the file, and no call on it has failed. -/
structure Stored (body : List UInt8) (n : Nat) (done : PutDone) : Prop where
  whole : stored done.calls = body.take n
  come : n ≤ body.length
  fine : ∀ c ∈ done.calls, succeeded c = true
  closed : .close .frOk ∈ done.calls

def WasOpened (done : PutDone) : Prop := ∃ path, .card (.openWrite path .frOk) ∈ done.calls

/-- The answer says whether the body is stored. -/
structure Honest (a : PutAnswers) (s : Socket) (d : Dav) : Prop where
  reported : Reported (doPut a s d).response ↔ Stored (body d s) d.contentLength (doPut a s d)
  failed : WasOpened (doPut a s d) → ¬ Stored (body d s) d.contentLength (doPut a s d) →
    (doPut a s d).response.status = 500

/-- Nothing goes wrong in front of `f_close`. -/
structure UpToClose (a : PutAnswers) (s : Socket) (d : Dav) : Prop where
  opens : Opens a d
  delivers : Delivers s (missing d)
  storable : Storable a d.contentLength

theorem not_stored_of_lost {u : Put} {body : List UInt8} {n : Nat} {r : Response}
    {chunks : List (List UInt8 × Bool)} (h : Lost u n) (result : FResult) :
    ¬ Stored body n ⟨r, u.calls ++ [.close result], chunks⟩ := by
  intro hs
  obtain ⟨c, hc, hfail⟩ | hshort := h
  · have := hs.fine c (List.mem_append_left _ hc)
    rw [hfail] at this
    cases this
  · have hwhole := congrArg List.length hs.whole
    have hcome := hs.come
    rw [stored_close, List.length_take] at hwhole
    omega

theorem honest_of_failed {a : PutAnswers} {s : Socket} {d : Dav} {u : Put}
    (hput : doPut a s d = ⟨(putFinish a u).1, (putFinish a u).2.calls, (putFinish a u).2.chunks⟩)
    (hok : u.ok = false) (hl : Lost u d.contentLength) : Honest a s d := by
  rw [putFinish_failed hok] at hput
  refine ⟨?_, fun _ _ => by rw [hput]⟩
  rw [hput]
  exact iff_of_false (by simp [Reported]) (not_stored_of_lost hl a.closeResult)

theorem honest_of_refused {a : PutAnswers} {d : Dav} (s : Socket) (h : ¬ Opens a d) :
    Honest a s d := by
  obtain ⟨r, calls, hput, hreport, hclose, hopen⟩ := doPut_refused s h
  constructor
  · rw [hput]
    exact iff_of_false hreport (fun hs => hclose hs.closed)
  · rw [hput]
    rintro ⟨path, hpath⟩ -
    exact absurd hpath (hopen path)

/-- Once all has gone well up to `f_close`, success is answered whatever `f_close` says. -/
theorem honest_of_whole {a : PutAnswers} {s : Socket} {d : Dav} {u : Put}
    (hput : doPut a s d = ⟨(putFinish a u).1, (putFinish a u).2.calls, (putFinish a u).2.chunks⟩)
    (h : Uploading a u d.contentLength ((body d s).take d.contentLength)) (hr : u.remaining = 0) :
    (TakesAll a d.contentLength → (Honest a s d ↔ a.closeResult = .frOk)) ∧
      (¬ TakesAll a d.contentLength → Honest a s d) := by
  obtain ⟨ok, v, heq, hframe, hall, hv⟩ := flush_last h hr
  rw [putFinish_flushed h.ok heq] at hput
  have hlen := h.remaining
  rw [hr, Nat.add_zero, List.length_take] at hlen
  cases ok with
  | false =>
    refine ⟨fun htakes => absurd (hall.mpr htakes) Bool.false_ne_true, fun _ => ?_⟩
    refine ⟨?_, fun _ _ => by rw [hput]; rfl⟩
    rw [hput]
    exact iff_of_false (by simp [Reported]) (not_stored_of_lost hv a.closeResult)
  | true =>
    refine ⟨fun _ => ?_, fun hnot => absurd (hall.mp rfl) hnot⟩
    have hreport : Reported (doPut a s d).response := by
      rw [hput]
      cases v.existed
      · exact Or.inl rfl
      · exact Or.inr rfl
    have hstored : Stored (body d s) d.contentLength (doPut a s d) ↔ a.closeResult = .frOk := by
      rw [hput]
      constructor
      · intro hs
        exact of_decide_eq_true
          (hs.fine (.close a.closeResult) (List.mem_append_right _ (List.mem_singleton_self _)))
      · intro hclose
        refine ⟨?_, by omega, fun c hc => ?_, ?_⟩
        · rw [stored_close]
          exact hv.1
        · obtain hold | hnew := List.mem_append.mp hc
          · exact hv.2 c hold
          · rw [List.mem_singleton.mp hnew]
            exact decide_eq_true hclose
        · rw [← hclose]
          exact List.mem_append_right _ (List.mem_singleton_self _)
    constructor
    · intro hh
      exact hstored.mp (hh.reported.mp hreport)
    · intro hclose
      have hs := hstored.mpr hclose
      exact ⟨iff_of_true hreport hs, fun _ hnot => absurd hs hnot⟩

theorem upToClose_cases {a : PutAnswers} {s : Socket} {d : Dav} (hbuf : d.writeBuf = none)
    (hfill : d.writeBufFill = 0) :
    (UpToClose a s d ∧ (Honest a s d ↔ a.closeResult = .frOk)) ∨
      (¬ UpToClose a s d ∧ Honest a s d) := by
  by_cases hopens : Opens a d
  · obtain ⟨hmap, hopen⟩ := hopens
    obtain ⟨path, hpath⟩ := Option.isSome_iff_exists.mp hmap
    obtain ⟨u, hput, -, hends⟩ := doPut_ends (s := s) hpath hopen hbuf hfill
    cases hends with
    | whole h hr hd =>
      obtain ⟨hyes, hno⟩ := honest_of_whole hput h hr
      have hheap : d.contentLength = 0 ∨ a.buffer.isSome = true := by
        by_cases hzero : d.contentLength = 0
        · exact Or.inl hzero
        · refine Or.inr (h.buffer (fun hnil => ?_)).2
          have hrem := h.remaining
          rw [hnil, hr] at hrem
          exact hzero hrem.symm
      by_cases htakes : TakesAll a d.contentLength
      · exact Or.inl ⟨⟨⟨hmap, hopen⟩, hd, hheap, htakes⟩, hyes htakes⟩
      · exact Or.inr ⟨fun hup => htakes hup.storable.2, hno htakes⟩
    | cut hok hl _ _ hd => exact Or.inr ⟨fun hup => hd hup.delivers, honest_of_failed hput hok hl⟩
    | refused hok hl _ hw =>
      exact Or.inr ⟨fun hup => hw hup.storable, honest_of_failed hput hok hl⟩
  · exact Or.inr ⟨fun hup => hopens hup.opens, honest_of_refused s hopens⟩

/-- A `PUT` answers whether its body is stored, unless all goes well up to an `f_close` that
fails. -/
theorem put_honest_iff (a : PutAnswers) (method path recvBuf : Mem UInt8) {s₀ s : Socket} {d : Dav}
    (h : readRequest s₀ (Dav.init method path recvBuf) = some (true, s, d)) :
    Honest a s d ↔ a.closeResult = .frOk ∨ ¬ UpToClose a s d := by
  obtain ⟨i, hin⟩ := readRequest_some h
  have hcases := upToClose_cases (a := a) (s := s) hin.writeBuf hin.writeBufFill
  obtain ⟨hup, hiff⟩ | ⟨hup, hhonest⟩ := hcases
  · rw [hiff]
    exact ⟨Or.inl, fun h => h.resolve_right (not_not.mpr hup)⟩
  · exact iff_of_true hhonest (Or.inr hup)

theorem exists_of_served {s₀ : Socket} {d₀ : Dav} {a : PutAnswers} {done : PutDone}
    (h : (readRequest s₀ d₀).map (fun r => (r.1, doPut a r.2.1 r.2.2)) = some (true, done)) :
    ∃ s d, readRequest s₀ d₀ = some (true, s, d) ∧ doPut a s d = done := by
  obtain ⟨⟨ok, s, d⟩, hread, hr⟩ := Option.map_eq_some_iff.mp h
  obtain ⟨hok, hput⟩ := Prod.mk.inj hr
  dsimp only at hok hput
  exact ⟨s, d, hok ▸ hread, hput⟩

theorem hi_served : (readRequest (atOnce putHi) blankWorker).map
    (fun r => (r.1, doPut (roomyCard (.frOther 1)) r.2.1 r.2.2)) =
      some (true, hiStored (.frOther 1) [ascii "hi"]) := by decide +kernel

theorem put_honest_iff_hi : ∃ s d, readRequest (atOnce putHi) blankWorker = some (true, s, d) ∧
    (Honest (roomyCard (.frOther 1)) s d ↔
      FResult.frOther 1 = .frOk ∨ ¬ UpToClose (roomyCard (.frOther 1)) s d) := by
  obtain ⟨s, d, hread, -⟩ := exists_of_served hi_served
  exact ⟨s, d, hread, put_honest_iff _ _ _ _ hread⟩

/-- An upload is answered 201 although `f_close` has reported a disk error. -/
theorem put_not_always_honest :
    ¬ ∀ (a : PutAnswers) (method path recvBuf : Mem UInt8) (s₀ s : Socket) (d : Dav),
      readRequest s₀ (Dav.init method path recvBuf) = some (true, s, d) → Honest a s d := by
  intro hall
  obtain ⟨s, d, hread, hput⟩ := exists_of_served hi_served
  have hhonest := hall (roomyCard (.frOther 1)) _ _ _ _ s d hread
  have hreport : Reported (doPut (roomyCard (.frOther 1)) s d).response := by
    rw [hput]
    exact Or.inl rfl
  have hstored := hhonest.reported.mp hreport
  rw [hput] at hstored
  have hclose := hstored.fine (.close (.frOther 1)) (by simp [hiStored])
  cases hclose

end RapiBootloader.WebDavStored
