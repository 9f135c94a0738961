import RapiBootloader.WebDavUpload

namespace RapiBootloader.WebDavSegments

open Lib.Memory Lib.Strings Lib.CLibrary Card WebDavText WebDavServer WebDavRequest WebDavParse
open WebDavPut WebDavBatch WebDavUpload

/-- The file is opened, and `WritePutChunk` takes every chunk. -/
structure Took (done : PutDone) : Prop where
  opened : ∃ path, .card (.openWrite path .frOk) ∈ done.calls
  chunks : ∀ c ∈ done.chunks, c.2 = true

theorem flushPutBuf_chunks (a : PutAnswers) (u : Put) : (flushPutBuf a u).2.chunks = u.chunks := by
  rw [flushPutBuf]
  split <;> rfl

theorem putFinish_chunks (a : PutAnswers) (u : Put) : (putFinish a u).2.chunks = u.chunks := by
  have hlast : (putFinish a u).2.chunks =
      (if u.ok then flushPutBuf a u else (false, u)).2.chunks := rfl
  rw [hlast]
  split
  · exact flushPutBuf_chunks a u
  · rfl

/-- Whatever way the body comes, the chunks are its first bytes. -/
theorem passed_of_took {a : PutAnswers} {s : Socket} {d : Dav} (hs : Steady s)
    (hbuf : d.writeBuf = none) (hfill : d.writeBufFill = 0) (h : Took (doPut a s d)) :
    passed (doPut a s d).chunks = (body d s).take d.contentLength := by
  have hopens : Opens a d := by
    by_contra hnot
    obtain ⟨r, calls, hput, -, -, hopen⟩ := doPut_refused s hnot
    obtain ⟨path, hpath⟩ := h.opened
    rw [hput] at hpath
    exact hopen path hpath
  obtain ⟨path, hpath⟩ := Option.isSome_iff_exists.mp hopens.1
  obtain ⟨u, hput, -, hends⟩ := doPut_ends (s := s) hpath hopens.2 hbuf hfill
  have hchunks : (doPut a s d).chunks = u.chunks := by
    rw [hput]
    exact putFinish_chunks a u
  rw [hchunks]
  cases hends with
  | whole h _ _ => exact h.passed
  | cut _ _ _ hp _ => exact hp hs
  | refused _ _ hr _ =>
    obtain ⟨c, hc, hfail⟩ := hr
    have := h.chunks c (hchunks ▸ hc)
    rw [hfail] at this
    cases this

theorem readRequest_steady {s : Socket} (hs : Steady s) (d : Dav) {i : Nat}
    (h : headerEnd s.stream = some i) :
    ∃ ok s' d', readRequest s d = some (ok, s', d') ∧ RequestIn s.stream d i ok s' d' ∧
      Steady s' := by
  have hanswer := receiveHeaders_steady hs d
  have hwhole := receiveHeaders_answered s d
  unfold readRequest
  generalize receiveHeaders s d = r at *
  obtain ⟨found, s', d'⟩ := r
  dsimp only at hanswer
  rw [h] at hanswer
  cases hanswer
  have hin := requestIn_of_headersIn hwhole.1
  dsimp only
  generalize parseRequest i d' = r at *
  obtain ⟨ok, d''⟩ := r
  exact ⟨ok, s', d'', rfl, hin, hwhole.2 hs⟩

/-- Two ways to cut a stream into segments make no difference to what the worker answers, parses
and passes to `WritePutChunk`. -/
theorem segments_no_matter (stream : List UInt8) {s₁ s₂ : Socket} (h₁ : s₁.stream = stream)
    (h₂ : s₂.stream = stream) (hs₁ : Steady s₁) (hs₂ : Steady s₂)
    (method₁ path₁ buf₁ method₂ path₂ buf₂ : Mem UInt8) :
    (receiveHeaders s₁ (Dav.init method₁ path₁ buf₁)).1 = headerEnd stream ∧
      (receiveHeaders s₂ (Dav.init method₂ path₂ buf₂)).1 = headerEnd stream ∧
      ∀ i, headerEnd stream = some i →
        ∃ ok t₁ d₁ t₂ d₂, readRequest s₁ (Dav.init method₁ path₁ buf₁) = some (ok, t₁, d₁) ∧
          readRequest s₂ (Dav.init method₂ path₂ buf₂) = some (ok, t₂, d₂) ∧ view d₁ = view d₂ ∧
          (∀ a, Took (doPut a t₁ d₁) →
            passed (doPut a t₁ d₁).chunks = (stream.drop (i + 4)).take d₁.contentLength) ∧
          (∀ a, Took (doPut a t₂ d₂) →
            passed (doPut a t₂ d₂).chunks = (stream.drop (i + 4)).take d₁.contentLength) := by
  subst h₁
  refine ⟨receiveHeaders_steady hs₁ _, h₂ ▸ receiveHeaders_steady hs₂ _, fun i hi => ?_⟩
  obtain ⟨ok₁, t₁, d₁, hread₁, hin₁, ht₁⟩ :=
    readRequest_steady hs₁ (Dav.init method₁ path₁ buf₁) hi
  obtain ⟨ok₂, t₂, d₂, hread₂, hin₂, ht₂⟩ :=
    readRequest_steady hs₂ (Dav.init method₂ path₂ buf₂) (h₂ ▸ hi)
  have hsame : (ok₁, view d₁) = (ok₂, view d₂) := by
    rw [hin₁.outcome, hin₂.outcome, view_init, view_init, h₂]
  obtain ⟨hok, hview⟩ := Prod.mk.inj hsame
  subst hok
  have hlength : d₂.contentLength = d₁.contentLength := (congrArg View.contentLength hview).symm
  refine ⟨ok₁, t₁, d₁, t₂, d₂, hread₁, hread₂, hview, fun a htook => ?_, fun a htook => ?_⟩
  · rw [passed_of_took ht₁ hin₁.writeBuf hin₁.writeBufFill htook, body, hin₁.body]
  · rw [passed_of_took ht₂ hin₂.writeBuf hin₂.writeBufFill htook, body, hin₂.body, h₂, hlength]

theorem segments_no_matter_hi :
    ∃ t₁ d₁ t₂ d₂, readRequest (atOnce putHi) blankWorker = some (true, t₁, d₁) ∧
      readRequest (byBytes putHi) blankWorker = some (true, t₂, d₂) ∧ view d₁ = view d₂ ∧
      passed (doPut (roomyCard .frOk) t₁ d₁).chunks = ascii "hi" ∧
      passed (doPut (roomyCard .frOk) t₂ d₂).chunks = ascii "hi" := by
  obtain ⟨-, -, hsame⟩ := segments_no_matter putHi (rfl : (atOnce putHi).stream = putHi)
    (rfl : (byBytes putHi).stream = putHi) (steady_atOnce putHi) (steady_byBytes putHi)
    (fun _ => 0) (fun _ => 0) (fun _ => 0) (fun _ => 0) (fun _ => 0) (fun _ => 0)
  obtain ⟨ok, t₁, d₁, t₂, d₂, h₁, h₂, hview, hp₁, hp₂⟩ := hsame 34 (by decide +kernel)
  have hdone₁ : (readRequest (atOnce putHi) blankWorker).map
      (fun r => (r.1, r.2.2.contentLength, doPut (roomyCard .frOk) r.2.1 r.2.2)) =
        some (true, 2, hiStored .frOk [ascii "hi"]) := by decide +kernel
  have hdone₂ : (readRequest (byBytes putHi) blankWorker).map
      (fun r => (r.1, r.2.2.contentLength, doPut (roomyCard .frOk) r.2.1 r.2.2)) =
        some (true, 2, hiStored .frOk [ascii "h", ascii "i"]) := by decide +kernel
  have hmap₁ := (congrArg (Option.map _) h₁).symm.trans hdone₁
  have hmap₂ := (congrArg (Option.map _) h₂).symm.trans hdone₂
  simp only [Option.map_some, Option.some.injEq, Prod.mk.injEq] at hmap₁ hmap₂
  obtain ⟨rfl, hlen, hput₁⟩ := hmap₁
  obtain ⟨-, -, hput₂⟩ := hmap₂
  have htook : ∀ pieces, Took (hiStored .frOk pieces) := fun pieces =>
    ⟨⟨ascii "SD:/a", by simp [hiStored]⟩, by simp [hiStored]⟩
  have hbytes : (putHi.drop 38).take 2 = ascii "hi" := by decide
  refine ⟨t₁, d₁, t₂, d₂, h₁, h₂, hview, ?_, ?_⟩
  · rw [hp₁ _ (hput₁ ▸ htook _), hlen, hbytes]
  · rw [hp₂ _ (hput₂ ▸ htook _), hlen, hbytes]

end RapiBootloader.WebDavSegments
