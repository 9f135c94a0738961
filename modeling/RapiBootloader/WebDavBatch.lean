import RapiBootloader.WebDavPut

namespace RapiBootloader.WebDavBatch

open Lib.Memory Card WebDavServer WebDavPut

def storedBy : DavCall → List UInt8
  | .card (.write bytes _ written) => bytes.take written
  | _ => []

def stored (calls : List DavCall) : List UInt8 := calls.flatMap storedBy

def succeeded : DavCall → Bool
  | .card (.openWrite _ result) => result = .frOk
  | .card (.write _ result _) => result = .frOk
  | .close result => result = .frOk
  | _ => true

def Takes (a : PutAnswers) (k n : Nat) : Prop := (a.writes k).1 = .frOk ∧ n ≤ (a.writes k).2

instance (a : PutAnswers) (k n : Nat) : Decidable (Takes a k n) := inferInstanceAs (Decidable (_ ∧ _))

/-- Every batch of a body of `n` bytes is taken. -/
def TakesAll (a : PutAnswers) (n : Nat) : Prop :=
  ∀ k, writeBufSize * k < n → Takes a k (min writeBufSize (n - writeBufSize * k))

/-- Between its bytes in the file and those batched, the upload has all of `xs`. -/
structure Batched (a : PutAnswers) (u : Put) (xs : List UInt8) : Prop where
  contents : stored u.calls ++ pending u.dav = xs
  room : u.dav.writeBufFill < writeBufSize
  count : (stored u.calls).length = writeBufSize * u.writes
  taken : ∀ k < u.writes, Takes a k writeBufSize
  fine : ∀ c ∈ u.calls, succeeded c = true
  empty : u.dav.writeBuf = none → u.dav.writeBufFill = 0

/-- Fewer than `n` bytes are in the file, or a call on it has failed. -/
def Lost (u : Put) (n : Nat) : Prop :=
  (∃ c ∈ u.calls, succeeded c = false) ∨ (stored u.calls).length < n

structure Framed (u v : Put) : Prop where
  chunks : v.chunks = u.chunks
  remaining : v.remaining = u.remaining
  existed : v.existed = u.existed

theorem Framed.refl (u : Put) : Framed u u := ⟨rfl, rfl, rfl⟩

theorem Framed.trans {u v w : Put} (h : Framed u v) (h' : Framed v w) : Framed u w :=
  ⟨h'.chunks.trans h.chunks, h'.remaining.trans h.remaining, h'.existed.trans h.existed⟩

theorem stored_append (calls more : List DavCall) :
    stored (calls ++ more) = stored calls ++ stored more := List.flatMap_append

theorem stored_write (bytes : List UInt8) (result : FResult) (written : Nat) :
    stored [.card (.write bytes result written)] = bytes.take written := by
  simp [stored, storedBy]

theorem length_pending (d : Dav) : (pending d).length = d.writeBufFill := length_read _ _ _

theorem pending_empty {d : Dav} (h : d.writeBufFill = 0) : pending d = [] :=
  List.eq_nil_of_length_eq_zero ((length_pending d).trans h)

/-- A flush that succeeds moves the batch into the file, one that fails loses bytes. -/
theorem flushPutBuf_spec (a : PutAnswers) (u : Put) (hfill : u.dav.writeBufFill ≠ 0)
    (hfine : ∀ c ∈ u.calls, succeeded c = true) :
    ∃ v, flushPutBuf a u = (decide (Takes a u.writes u.dav.writeBufFill), v) ∧ Framed u v ∧
      v.dav = { u.dav with writeBufFill := 0 } ∧ v.writes = u.writes + 1 ∧
      if Takes a u.writes u.dav.writeBufFill then
        stored v.calls = stored u.calls ++ pending u.dav ∧
          ∀ c ∈ v.calls, succeeded c = true
      else Lost v ((stored u.calls).length + u.dav.writeBufFill) := by
  have hlen := length_pending u.dav
  rw [flushPutBuf, if_neg hfill]
  dsimp only
  have hiff : ((a.writes u.writes).1 = .frOk ∧
      min (a.writes u.writes).2 u.dav.writeBufFill = u.dav.writeBufFill) ↔
        Takes a u.writes u.dav.writeBufFill := by
    rw [Takes]
    constructor <;> rintro ⟨hok, hn⟩ <;> exact ⟨hok, by omega⟩
  refine ⟨_, Prod.ext (decide_eq_decide.mpr hiff) rfl, ⟨rfl, rfl, rfl⟩, rfl, rfl, ?_⟩
  dsimp only
  split
  case isTrue htakes =>
    have hfull := hiff.mpr htakes
    refine ⟨?_, fun c hc => ?_⟩
    · rw [stored_append, stored_write, hfull.2, ← hlen, List.take_length]
    · obtain hold | hnew := List.mem_append.mp hc
      · exact hfine c hold
      · rw [List.mem_singleton.mp hnew, succeeded, hfull.1]
        rfl
  case isFalse hrefuses =>
    by_cases hok : (a.writes u.writes).1 = .frOk
    · refine Or.inr ?_
      have hshort : ¬ u.dav.writeBufFill ≤ (a.writes u.writes).2 := fun h => hrefuses ⟨hok, h⟩
      rw [stored_append, stored_write, List.length_append, List.length_take]
      omega
    · refine Or.inl ⟨_, List.mem_append_right _ (List.mem_singleton_self _), ?_⟩
      simpa [succeeded] using hok

theorem Lost.mono {u : Put} {m n : Nat} (h : Lost u m) (hmn : m ≤ n) : Lost u n :=
  h.imp id (fun hlt => Nat.lt_of_lt_of_le hlt hmn)

theorem pending_copied {u : Put} (h : u.dav.writeBuf.isSome = true) (bytes : List UInt8) :
    pending (copied u bytes).dav = pending u.dav ++ bytes := by
  obtain ⟨m, hm⟩ := Option.isSome_iff_exists.mp h
  have hread := read_write_end m 0 u.dav.writeBufFill bytes
  rw [Nat.zero_add] at hread
  simpa [pending, copied, hm] using hread

theorem flush_full {a : PutAnswers} {u : Put} {xs bytes : List UInt8} {n : Nat}
    (h : Batched a u xs) (hbuf : u.dav.writeBuf.isSome = true)
    (hfull : u.dav.writeBufFill + bytes.length = writeBufSize) (hn : xs.length + bytes.length ≤ n) :
    ∃ ok v, flushPutBuf a (copied u bytes) = (ok, v) ∧ Framed u v ∧
      v.dav.writeBuf.isSome = true ∧
      if ok then Batched a v (xs ++ bytes) else Lost v n ∧ ¬ TakesAll a n := by
  have hpending := pending_copied hbuf bytes
  have hlen := congrArg List.length h.contents
  rw [List.length_append, length_pending] at hlen
  have hfill : (copied u bytes).dav.writeBufFill = writeBufSize := hfull
  have hcount := h.count
  obtain ⟨v, heq, hframe, hdav, hwrites, hrest⟩ :=
    flushPutBuf_spec a (copied u bytes) (by rw [hfill]; exact Nat.succ_ne_zero _) h.fine
  rw [hfill] at heq hrest
  have hwrites' : v.writes = u.writes + 1 := hwrites
  have hstored : stored (copied u bytes).calls = stored u.calls := rfl
  refine ⟨_, v, heq, ⟨hframe.chunks, hframe.remaining, hframe.existed⟩, ?_, ?_⟩
  · rw [hdav]
    simpa [copied] using hbuf
  by_cases htakes : Takes a (copied u bytes).writes writeBufSize
  · rw [if_pos htakes, hpending, hstored, ← List.append_assoc, h.contents] at hrest
    rw [if_pos (decide_eq_true htakes)]
    refine ⟨?_, ?_, ?_, fun k hk => ?_, hrest.2, fun _ => by rw [hdav]⟩
    · rw [hrest.1, pending_empty (by rw [hdav]), List.append_nil]
    · rw [hdav]
      exact Nat.succ_pos _
    · rw [hrest.1, hwrites', List.length_append, Nat.mul_succ]
      omega
    · obtain hlt | heq := Nat.lt_succ_iff_lt_or_eq.mp (hwrites' ▸ hk)
      · exact h.taken k hlt
      · rw [heq]
        exact htakes
  · rw [if_neg htakes] at hrest
    rw [if_neg (by simpa using htakes)]
    refine ⟨hrest.mono (by rw [hstored]; omega), fun hall => ?_⟩
    have hpos : 0 < writeBufSize := Nat.succ_pos _
    have hbatch := hall u.writes (by omega)
    rw [Nat.min_eq_left (by omega)] at hbatch
    exact htakes hbatch

theorem copyLoop_spec {a : PutAnswers} {n : Nat} (turns : Nat) {u : Put} {xs data : List UInt8}
    (h : Batched a u xs) (hbuf : u.dav.writeBuf.isSome = true) (hturns : data.length < turns)
    (hn : xs.length + data.length ≤ n) :
    ∃ ok v, copyLoop a turns data u = (ok, v) ∧ Framed u v ∧ v.dav.writeBuf.isSome = true ∧
      if ok then Batched a v (xs ++ data) else Lost v n ∧ ¬ TakesAll a n := by
  induction turns generalizing u xs data with
  | zero => exact absurd hturns (Nat.not_lt_zero _)
  | succ turns ih =>
    have hroom := h.room
    rw [copyLoop]
    by_cases hnil : data = []
    · rw [if_pos hnil]
      refine ⟨true, u, rfl, .refl u, hbuf, ?_⟩
      rw [hnil, List.append_nil]
      exact h
    rw [if_neg hnil]
    have hpos := List.length_pos_iff.mpr hnil
    generalize hcount : min data.length (writeBufSize - u.dav.writeBufFill) = count
    have htake : (data.take count).length = count := by
      rw [List.length_take]
      omega
    have hsplit : xs ++ data.take count ++ data.drop count = xs ++ data := by
      rw [List.append_assoc, List.take_append_drop]
    have hrest : (data.drop count).length < turns := by
      rw [List.length_drop]
      omega
    have hsum : (xs ++ data.take count).length + (data.drop count).length ≤ n := by
      rw [List.length_append, List.length_drop]
      omega
    have hfill : (copied u (data.take count)).dav.writeBufFill = u.dav.writeBufFill + count :=
      congrArg (u.dav.writeBufFill + ·) htake
    dsimp only
    rw [hcount, hfill]
    by_cases hfull : u.dav.writeBufFill + count = writeBufSize
    · rw [if_pos hfull]
      obtain ⟨ok, v, heq, hframe, hvbuf, hv⟩ :=
        flush_full h hbuf (by rw [htake]; exact hfull) (n := n) (by omega)
      rw [heq]
      cases ok with
      | false => exact ⟨false, v, rfl, hframe, hvbuf, hv⟩
      | true =>
        obtain ⟨ok, w, heq', hframe', hwbuf, hw⟩ := ih hv hvbuf hrest hsum
        exact ⟨ok, w, heq', hframe.trans hframe', hwbuf, hsplit ▸ hw⟩
    · rw [if_neg hfull]
      have hbatched : Batched a (copied u (data.take count)) (xs ++ data.take count) := by
        refine ⟨?_, ?_, h.count, h.taken, h.fine, fun hnone => ?_⟩
        · rw [pending_copied hbuf, ← List.append_assoc]
          exact congrArg (· ++ data.take count) h.contents
        · rw [hfill]
          omega
        · rw [Option.map_eq_none_iff.mp hnone] at hbuf
          cases hbuf
      obtain ⟨ok, w, heq, hframe, hwbuf, hw⟩ :=
        ih hbatched (by simpa [copied] using hbuf) hrest hsum
      exact ⟨ok, w, heq, ⟨hframe.chunks, hframe.remaining, hframe.existed⟩, hwbuf, hsplit ▸ hw⟩

def HasBuffer (a : PutAnswers) (d : Dav) : Prop := d.writeBuf.isSome = true ∨ a.buffer.isSome = true

theorem Batched.logged {a : PutAnswers} {u : Put} {xs : List UInt8} (h : Batched a u xs)
    (chunks : List (List UInt8 × Bool)) : Batched a { u with chunks := chunks } xs :=
  ⟨h.contents, h.room, h.count, h.taken, h.fine, h.empty⟩

theorem Batched.received {a : PutAnswers} {u : Put} {xs : List UInt8} (h : Batched a u xs)
    (buf : Mem UInt8) : Batched a { u with dav := { u.dav with recvBuf := buf } } xs :=
  ⟨h.contents, h.room, h.count, h.taken, h.fine, h.empty⟩

theorem Batched.allocated {a : PutAnswers} {u : Put} {xs : List UInt8} (h : Batched a u xs)
    (hnone : u.dav.writeBuf = none) (buf : Option (Mem UInt8)) :
    Batched a { u with dav := { u.dav with writeBuf := buf } } xs := by
  have hfill := h.empty hnone
  refine ⟨?_, h.room, h.count, h.taken, h.fine, fun _ => hfill⟩
  have hcontents := h.contents
  rw [pending_empty hfill] at hcontents
  have hnew : pending { u.dav with writeBuf := buf } = [] := pending_empty hfill
  dsimp only
  rw [hnew]
  exact hcontents

def Passed (a : PutAnswers) (u : Put) (n : Nat) (xs data : List UInt8) (ok : Bool) (v : Put) : Prop :=
  v.chunks = u.chunks ++ [(data, ok)] ∧ v.remaining = u.remaining ∧ v.existed = u.existed ∧
    if ok then HasBuffer a u.dav ∧ v.dav.writeBuf.isSome = true ∧ Batched a v (xs ++ data)
    else Lost v n ∧ ¬ (HasBuffer a u.dav ∧ TakesAll a n)

theorem passed_copied {a : PutAnswers} {u w : Put} {xs data : List UInt8} {n : Nat}
    (h : Batched a w xs) (hbuf : w.dav.writeBuf.isSome = true) (hframe : Framed u w)
    (hhas : HasBuffer a u.dav) (hn : xs.length + data.length ≤ n) :
    ∃ ok v, (let (ok, v) := copyLoop a (data.length + 1) data w
        (ok, { v with chunks := v.chunks ++ [(data, ok)] })) = (ok, v) ∧
      Passed a u n xs data ok v := by
  obtain ⟨ok, v, heq, hframe', hvbuf, hv⟩ :=
    copyLoop_spec (data.length + 1) h hbuf (Nat.lt_succ_self _) hn
  have hall := hframe.trans hframe'
  rw [heq]
  refine ⟨ok, _, rfl, congrArg (· ++ [(data, ok)]) hall.chunks, hall.remaining, hall.existed, ?_⟩
  cases ok with
  | true => exact ⟨hhas, hvbuf, hv.logged _⟩
  | false => exact ⟨hv.1, fun hboth => hv.2 hboth.2⟩

theorem writePutChunk_copies {a : PutAnswers} {u w : Put} {data : List UInt8}
    (hw : (if u.dav.writeBuf.isNone = true then
      { u with dav := { u.dav with writeBuf := a.buffer } } else u) = w)
    (hbuf : w.dav.writeBuf.isSome = true) :
    writePutChunk a data u =
      (let (ok, v) := copyLoop a (data.length + 1) data w
       (ok, { v with chunks := v.chunks ++ [(data, ok)] })) := by
  have hnone : ¬ w.dav.writeBuf.isNone = true := by
    rw [Option.isNone_iff_eq_none]
    intro h
    rw [h] at hbuf
    cases hbuf
  rw [writePutChunk]
  dsimp only
  rw [hw, if_neg hnone]

/-- One call of `WritePutChunk`, in an upload of `n` bytes. -/
theorem writePutChunk_spec {a : PutAnswers} {u : Put} {xs data : List UInt8} {n : Nat}
    (h : Batched a u xs) (hne : data ≠ []) (hn : xs.length + data.length ≤ n) :
    ∃ ok v, writePutChunk a data u = (ok, v) ∧ Passed a u n xs data ok v := by
  cases hbuf : u.dav.writeBuf with
  | some m =>
    have hsome : u.dav.writeBuf.isSome = true := by rw [hbuf]; rfl
    rw [writePutChunk_copies (by rw [hbuf]; rfl) hsome]
    exact passed_copied h hsome (.refl u) (Or.inl hsome) hn
  | none =>
    cases hheap : a.buffer with
    | some m =>
      have hsome : a.buffer.isSome = true := by rw [hheap]; rfl
      rw [writePutChunk_copies (w := { u with dav := { u.dav with writeBuf := a.buffer } })
        (by rw [hbuf]; rfl) hsome]
      exact passed_copied (h.allocated hbuf a.buffer) hsome ⟨rfl, rfl, rfl⟩ (Or.inr hsome) hn
    | none =>
      have hlen := congrArg List.length h.contents
      have hpos := List.length_pos_iff.mpr hne
      rw [List.length_append] at hlen
      have hhas : ¬ HasBuffer a u.dav := by
        rw [HasBuffer, hbuf, hheap]
        simp
      refine ⟨false, { u with
        dav := { u.dav with writeBuf := a.buffer }
        chunks := u.chunks ++ [(data, false)] }, ?_, rfl, rfl, rfl, ?_⟩
      · rw [writePutChunk, hbuf, hheap]
        rfl
      · exact ⟨Or.inr (by dsimp only; omega), fun hboth => hhas hboth.1⟩

end RapiBootloader.WebDavBatch
