import RapiBootloader.WebDavServer

namespace RapiBootloader.WebDavRequest

open Lib.Memory Lib.Strings Lib.CLibrary WebDavText WebDavServer

def BlankAt (stream : List UInt8) (i : Nat) : Prop := (stream.drop i).take 4 = crlfcrlf

instance (stream : List UInt8) (i : Nat) : Decidable (BlankAt stream i) :=
  inferInstanceAs (Decidable (_ = _))

/-- Where the first blank line of a stream stands, if it ends within the buffer. -/
def headerEnd (stream : List UInt8) : Option Nat :=
  (List.range (recvBufSize - 3)).find? (fun i => BlankAt stream i)

def atOnce (stream : List UInt8) : Socket := ⟨stream, fun _ => some recvBufSize⟩

def byBytes (stream : List UInt8) : Socket := ⟨stream, fun _ => some 1⟩

/-- Every `Receive` succeeds while there is something to receive. -/
def Steady (s : Socket) : Prop := ∀ i, (s.arrivals i).isSome = true

theorem steady_atOnce (stream : List UInt8) : Steady (atOnce stream) := fun _ => rfl

theorem steady_byBytes (stream : List UInt8) : Steady (byBytes stream) := fun _ => rfl

theorem BlankAt.fits {stream : List UInt8} {i : Nat} (h : BlankAt stream i) :
    i + 4 ≤ stream.length := by
  have hlen := congrArg List.length h
  rw [List.length_take, List.length_drop, crlfcrlf] at hlen
  simp only [List.length_cons, List.length_nil] at hlen
  omega

theorem blankAt_append {got more : List UInt8} {i : Nat} (h : i + 4 ≤ got.length) :
    BlankAt (got ++ more) i ↔ BlankAt got i := by
  rw [BlankAt, BlankAt, List.drop_append_of_le_length (by omega),
    List.take_append_of_le_length (by rw [List.length_drop]; omega)]

theorem headerEnd_eq_some {stream : List UInt8} {i : Nat} (h : BlankAt stream i)
    (hfit : i + 4 ≤ recvBufSize) (hfirst : ∀ j < i, ¬ BlankAt stream j) :
    headerEnd stream = some i := by
  rw [headerEnd, List.find?_range_eq_some]
  refine ⟨by simpa using h, ?_, fun j hj => by simpa using hfirst j hj⟩
  rw [List.mem_range, recvBufSize]
  rw [recvBufSize] at hfit
  omega

theorem headerEnd_eq_none {stream : List UInt8}
    (h : ∀ i, i + 4 ≤ recvBufSize → ¬ BlankAt stream i) : headerEnd stream = none := by
  rw [headerEnd, List.find?_eq_none]
  intro i hi
  rw [List.mem_range, recvBufSize] at hi
  simpa using h i (by rw [recvBufSize]; omega)

theorem receive_stream (s : Socket) (n : Nat) :
    (receive s n).1 ++ (receive s n).2.stream = s.stream := by
  unfold receive
  cases s.arrivals 0 with
  | none => rfl
  | some k => exact List.take_append_drop _ _

theorem length_receive_le (s : Socket) {n : Nat} (hn : 0 < n) : (receive s n).1.length ≤ n := by
  unfold receive
  cases s.arrivals 0 with
  | none => exact Nat.zero_le n
  | some k =>
    rw [List.length_take]
    omega

theorem Steady.next {s : Socket} (h : Steady s) (n : Nat) : Steady (receive s n).2 := by
  unfold receive
  cases s.arrivals 0 with
  | none => exact fun i => h (i + 1)
  | some k => exact fun i => h (i + 1)

theorem Steady.drained {s : Socket} (h : Steady s) {n : Nat} (hn : (receive s n).1 = []) :
    s.stream = [] := by
  have hsome := h 0
  unfold receive at hn
  cases hk : s.arrivals 0 with
  | none => simp [hk] at hsome
  | some k =>
    rw [hk] at hn
    obtain hzero | hnil := List.take_eq_nil_iff.mp hn
    · omega
    · exact hnil

theorem findBlank_spec {m : Mem UInt8} {got : List UInt8} (hm : Holds m 0 got) (turns : Nat)
    {i : Nat} (hturns : got.length < turns + i) :
    match findBlank m got.length turns i with
    | some j => BlankAt got j ∧ j + 4 ≤ got.length ∧ ∀ k, i ≤ k → k < j → ¬ BlankAt got k
    | none => ∀ k, i ≤ k → ¬ BlankAt got k := by
  induction turns generalizing i with
  | zero =>
    intro k hk hblank
    have := hblank.fits
    omega
  | succ turns ih =>
    rw [findBlank]
    by_cases hfit : i + 4 ≤ got.length
    · have hread : read m i 4 = crlfcrlf ↔ BlankAt got i := by
        have := hm.read_drop hfit
        rw [Nat.zero_add] at this
        rw [this, BlankAt]
      rw [if_pos hfit]
      by_cases hblank : BlankAt got i
      · rw [if_pos (hread.mpr hblank)]
        exact ⟨hblank, hfit, fun k hik hki => absurd hki (Nat.not_lt.mpr hik)⟩
      · rw [if_neg (mt hread.mp hblank)]
        have hrest := ih (i := i + 1) (by omega)
        have hstep : ∀ k, i ≤ k → k = i ∨ i + 1 ≤ k := fun k hk => by omega
        cases hfind : findBlank m got.length turns (i + 1) with
        | none =>
          rw [hfind] at hrest
          intro k hk
          obtain rfl | hk := hstep k hk
          · exact hblank
          · exact hrest k hk
        | some j =>
          rw [hfind] at hrest
          refine ⟨hrest.1, hrest.2.1, fun k hk hkj => ?_⟩
          obtain rfl | hk := hstep k hk
          · exact hblank
          · exact hrest.2.2 k hk hkj
    · rw [if_neg hfit]
      intro k hk hblank
      have := hblank.fits
      omega

/-- A search that goes on three bytes back misses no blank line. -/
theorem findBlank_resumed {m : Mem UInt8} {got bytes : List UInt8} (hm : Holds m 0 (got ++ bytes))
    (hnone : ∀ j, ¬ BlankAt got j) :
    match findBlank m (got ++ bytes).length ((got ++ bytes).length + 1)
        (if 3 ≤ got.length then got.length - 3 else 0) with
    | some j => BlankAt (got ++ bytes) j ∧ j + 4 ≤ (got ++ bytes).length ∧
        ∀ k < j, ¬ BlankAt (got ++ bytes) k
    | none => ∀ k, ¬ BlankAt (got ++ bytes) k := by
  generalize hfrom : (if 3 ≤ got.length then got.length - 3 else 0) = searchFrom
  have hbefore : ∀ j < searchFrom, ¬ BlankAt (got ++ bytes) j := by
    intro j hj hblank
    have hfit : j + 4 ≤ got.length := by
      rw [← hfrom] at hj
      split at hj <;> omega
    exact hnone j ((blankAt_append hfit).mp hblank)
  have hfind := findBlank_spec hm ((got ++ bytes).length + 1) (i := searchFrom) (by omega)
  cases hfound : findBlank m (got ++ bytes).length ((got ++ bytes).length + 1) searchFrom with
  | none =>
    rw [hfound] at hfind
    intro k
    by_cases hk : k < searchFrom
    · exact hbefore k hk
    · exact hfind k (Nat.not_lt.mp hk)
  | some j =>
    rw [hfound] at hfind
    refine ⟨hfind.1, hfind.2.1, fun k hkj => ?_⟩
    by_cases hk : k < searchFrom
    · exact hbefore k hk
    · exact hfind.2.2 k (Nat.not_lt.mp hk) hkj

structure Received (stream : List UInt8) (s : Socket) (d : Dav) (got : List UInt8) : Prop where
  whole : got ++ s.stream = stream
  holds : Holds d.recvBuf 0 got
  fill : d.recvFill = got.length
  room : got.length ≤ recvBufSize

/-- The headers are in, up to the blank line at `i`, and nothing but the buffer has changed. -/
structure HeadersIn (stream : List UInt8) (d : Dav) (i : Nat) (s : Socket) (d' : Dav) : Prop where
  blank : BlankAt stream i
  first : ∀ j < i, ¬ BlankAt stream j
  received : ∃ got, Received stream s d' got ∧ i + 4 ≤ got.length
  bodyStart : d'.bodyStart = i + 4
  same : d' = { d with recvBuf := d'.recvBuf, recvFill := d'.recvFill, bodyStart := d'.bodyStart }

def Answered (stream : List UInt8) (d : Dav) (steady : Prop) : Option Nat × Socket × Dav → Prop
  | (some i, s, d') => HeadersIn stream d i s d' ∧ (steady → Steady s)
  | (none, _, _) => steady → ∀ i, i + 4 ≤ recvBufSize → ¬ BlankAt stream i

theorem Received.take {stream : List UInt8} {s s' : Socket} {d : Dav} {got bytes : List UInt8}
    (h : Received stream s d got) (hs : bytes ++ s'.stream = s.stream)
    (hlen : bytes.length ≤ recvBufSize - d.recvFill) :
    Received stream s'
      { d with
        recvBuf := write d.recvBuf d.recvFill bytes
        recvFill := d.recvFill + bytes.length } (got ++ bytes) := by
  have hfill := h.fill
  have hroom := h.room
  refine ⟨?_, ?_, ?_, ?_⟩
  · rw [List.append_assoc, hs, h.whole]
  · have := h.holds.append bytes
    rwa [Nat.zero_add, ← hfill] at this
  · rw [List.length_append, hfill]
  · rw [List.length_append]
    omega

theorem Answered.back {stream : List UInt8} {d : Dav} {p q : Prop} {buf : Mem UInt8} {fill : Nat}
    {r : Option Nat × Socket × Dav}
    (h : Answered stream { d with recvBuf := buf, recvFill := fill } p r) (hpq : q → p) :
    Answered stream d q r := by
  obtain ⟨found, s, d'⟩ := r
  cases found with
  | none => exact fun hq => h (hpq hq)
  | some i => exact ⟨⟨h.1.blank, h.1.first, h.1.received, h.1.bodyStart, h.1.same⟩,
      fun hq => h.2 (hpq hq)⟩

theorem receiveLoop_answered {stream : List UInt8} (turns : Nat) {s : Socket} {d : Dav}
    {got : List UInt8} (h : Received stream s d got)
    (hnone : ∀ j, ¬ BlankAt got j) (hturns : recvBufSize < turns + got.length) :
    Answered stream d (Steady s) (receiveLoop turns s d) := by
  induction turns generalizing s d got with
  | zero => exact absurd h.room (by omega)
  | succ turns ih =>
    have hfill := h.fill
    rw [receiveLoop]
    by_cases hroom : d.recvFill < recvBufSize
    · rw [if_pos hroom]
      have hstream := receive_stream s (recvBufSize - d.recvFill)
      have hlen := length_receive_le s (Nat.sub_pos_of_lt hroom)
      have hsteady := fun hs : Steady s => hs.next (recvBufSize - d.recvFill)
      have hdrained := fun hs : Steady s => hs.drained (n := recvBufSize - d.recvFill)
      generalize receive s (recvBufSize - d.recvFill) = r at *
      obtain ⟨bytes, s'⟩ := r
      cases bytes with
      | nil =>
        intro hs i _ hblank
        have hgot : got = stream := by
          have := h.whole
          rwa [hdrained hs rfl, List.append_nil] at this
        exact hnone i (hgot ▸ hblank)
      | cons b bs =>
        have htaken := h.take hstream hlen
        dsimp only at htaken hsteady ⊢
        have hgot : d.recvFill + (b :: bs).length = (got ++ b :: bs).length := htaken.fill
        have hfind := findBlank_resumed htaken.holds hnone
        rw [hgot] at htaken ⊢
        rw [← hfill] at hfind
        dsimp only at hfind
        generalize findBlank (write d.recvBuf d.recvFill (b :: bs)) (got ++ b :: bs).length
          ((got ++ b :: bs).length + 1) (if 3 ≤ d.recvFill then d.recvFill - 3 else 0) = found at *
        cases found with
        | none =>
          refine (ih htaken hfind ?_).back hsteady
          rw [List.length_append, List.length_cons]
          omega
        | some i =>
          obtain ⟨hblank, hfit, hfirst⟩ := hfind
          refine ⟨⟨?_, fun j hj => ?_, ⟨_, ⟨htaken.whole, htaken.holds, rfl, htaken.room⟩, hfit⟩,
            rfl, rfl⟩, hsteady⟩
          · rw [← htaken.whole]
            exact (blankAt_append hfit).mpr hblank
          · rw [← htaken.whole, blankAt_append (by omega)]
            exact hfirst j hj
    · rw [if_neg hroom]
      intro _ i hi hblank
      have hgot : BlankAt got i := (blankAt_append (by omega)).mp (h.whole ▸ hblank)
      exact hnone i hgot

theorem receiveHeaders_answered (s : Socket) (d : Dav) :
    Answered s.stream d (Steady s) (receiveHeaders s d) := by
  have hstart : Received s.stream s { d with recvFill := 0 } [] :=
    ⟨rfl, fun i hi => absurd hi (Nat.not_lt_zero i), rfl, Nat.zero_le _⟩
  have hnone : ∀ j, ¬ BlankAt [] j := fun j hblank => absurd hblank.fits (Nat.not_succ_le_zero _)
  exact (receiveLoop_answered _ hstart hnone (Nat.lt_succ_self _)).back id

theorem receiveHeaders_some {s s' : Socket} {d d' : Dav} {i : Nat}
    (h : receiveHeaders s d = (some i, s', d')) : HeadersIn s.stream d i s' d' := by
  have := receiveHeaders_answered s d
  rw [h] at this
  exact this.1

theorem HeadersIn.fits {stream : List UInt8} {d d' : Dav} {i : Nat} {s : Socket}
    (h : HeadersIn stream d i s d') : i + 4 ≤ recvBufSize := by
  obtain ⟨got, hgot, hfit⟩ := h.received
  exact Nat.le_trans hfit hgot.room

/-- Once `Receive` only fails at the end of the stream, the answer is the stream's. -/
theorem receiveHeaders_steady {s : Socket} (hs : Steady s) (d : Dav) :
    (receiveHeaders s d).1 = headerEnd s.stream := by
  have h := receiveHeaders_answered s d
  generalize receiveHeaders s d = r at *
  obtain ⟨found, s', d'⟩ := r
  cases found with
  | none => exact (headerEnd_eq_none (h hs)).symm
  | some i => exact (headerEnd_eq_some h.1.blank h.1.fits h.1.first).symm

end RapiBootloader.WebDavRequest
