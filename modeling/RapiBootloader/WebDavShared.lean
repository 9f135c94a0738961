import RapiBootloader.WebDavUpload
import RapiBootloader.Lib.Run
import Mathlib.Logic.Function.Basic

namespace RapiBootloader.WebDavShared

open Lib.Memory Lib.Strings Lib.CLibrary Lib.Logs Lib.Run Card WebDavText WebDavServer WebDavRequest
open WebDavParse WebDavPut WebDavBatch WebDavUpload

/-- A worker between two of its `Receive` calls. It comes in with its headers parsed. -/
inductive Phase
  | waiting (s : Socket) (d : Dav)
  | receiving (s : Socket) (u : Put)
  | done (response : Response)

def Phase.holdsFile : Phase → Bool
  | .receiving _ _ => true
  | _ => false

def Phase.Opens (a : PutAnswers) : Phase → Prop
  | .waiting _ d => WebDavUpload.Opens a d
  | _ => False

instance (a : PutAnswers) : (phase : Phase) → Decidable (phase.Opens a)
  | .waiting _ _ => inferInstanceAs (Decidable (_ ∧ _))
  | .receiving _ _ => .isFalse id
  | .done _ => .isFalse id

def Phase.status : Phase → Option Nat
  | .done response => some response.status
  | _ => none

structure World (ι : Type) where
  file : List UInt8
  phase : ι → Phase

def writeAt (file : List UInt8) (offset : Nat) (bytes : List UInt8) : List UInt8 :=
  file.take offset ++ List.replicate (offset - file.length) 0 ++ bytes ++
    file.drop (offset + bytes.length)

/-- What a call does to the file and to the offset of its own handle. `FA_CREATE_ALWAYS` empties
the file, whoever else has it open. -/
def playCall (f : List UInt8 × Nat) : DavCall → List UInt8 × Nat
  | .card (.openWrite _ .frOk) => ([], 0)
  | .card (.write bytes _ written) =>
    (writeAt f.1 f.2 (bytes.take written), f.2 + (bytes.take written).length)
  | _ => f

def play (file : List UInt8) (offset : Nat) (calls : List DavCall) : List UInt8 :=
  (calls.foldl playCall (file, offset)).1

def settle (a : PutAnswers) (s : Socket) (u : Put) : Phase × List DavCall :=
  if u.receiving then (.receiving s u, u.calls)
  else (.done (putFinish a u).1, (putFinish a u).2.calls)

variable {ι : Type} [DecidableEq ι]

/-- One worker runs up to its next `Receive`. -/
def step (a : ι → PutAnswers) (w : World ι) (i : ι) : Option (World ι) :=
  match w.phase i with
  | .waiting s d =>
    match putBegin (a i) d with
    | .inl (response, calls) =>
      some ⟨play w.file 0 calls, Function.update w.phase i (.done response)⟩
    | .inr u =>
      let (phase, calls) := settle (a i) s u
      some ⟨play w.file 0 calls, Function.update w.phase i phase⟩
  | .receiving s u =>
    let (bytes, s) := receive s u.toRead
    let (phase, calls) := settle (a i) s (putReceive (a i) bytes u)
    some ⟨play w.file (stored u.calls).length (calls.drop u.calls.length),
      Function.update w.phase i phase⟩
  | .done _ => none

/-- `PUT` requests for one path, each read up to its body. -/
structure Uploads (ι : Type) where
  socket : ι → Socket
  dav : ι → Dav
  parsed : ∀ i, ∃ s method path recvBuf,
    readRequest s (Dav.init method path recvBuf) = some (true, socket i, dav i)
  path : List UInt8
  samePath : ∀ i, cstr (dav i).path pathSize 0 = path

def start (p : Uploads ι) (file : List UInt8) : World ι :=
  ⟨file, fun i => .waiting (p.socket i) (p.dav i)⟩

def announced (p : Uploads ι) (i : ι) : List UInt8 :=
  (body (p.dav i) (p.socket i)).take (p.dav i).contentLength

def Answered (w : World ι) (i : ι) : Prop := ∃ r, w.phase i = .done r ∧ Reported r

/-- No worker opens the file while another has it open. -/
def Apart (a : ι → PutAnswers) (w : World ι) (i : ι) : Prop :=
  (w.phase i).Opens (a i) → ∀ j, (w.phase j).holdsFile = false

instance (a : Bool → PutAnswers) (w : World Bool) (i : Bool) : Decidable (Apart a w i) :=
  inferInstanceAs (Decidable (_ → _))

def quiet : DavCall → Bool
  | .card (.openWrite _ result) => result ≠ .frOk
  | _ => true

theorem writeAt_end (file bytes : List UInt8) : writeAt file file.length bytes = file ++ bytes := by
  simp [writeAt]

theorem foldl_playCall_quiet {calls : List DavCall} (h : ∀ c ∈ calls, quiet c = true)
    (file : List UInt8) :
    calls.foldl playCall (file, file.length) =
      (file ++ stored calls, (file ++ stored calls).length) := by
  induction calls generalizing file with
  | nil => simp [stored]
  | cons c calls ih =>
    have hrest := ih (fun c hc => h c (List.mem_cons_of_mem _ hc))
    have hcall : playCall (file, file.length) c =
        (file ++ storedBy c, (file ++ storedBy c).length) := by
      have hquiet := h c List.mem_cons_self
      cases c with
      | card call =>
        cases call with
        | write bytes result written => simp [playCall, storedBy, writeAt_end]
        | openWrite path result =>
          cases result with
          | frOk => cases hquiet
          | _ => simp [playCall, storedBy]
        | _ => simp [playCall, storedBy]
      | _ => simp [playCall, storedBy]
    rw [List.foldl_cons, hcall, hrest]
    simp [stored]

theorem play_quiet {calls : List DavCall} (h : ∀ c ∈ calls, quiet c = true) (file : List UInt8) :
    play file file.length calls = file ++ stored calls := by
  rw [play, foldl_playCall_quiet h]

theorem quiet_of_follows {c : DavCall} (h : Follows c) : quiet c = true := by
  obtain ⟨bytes, result, written, rfl⟩ | ⟨result, rfl⟩ := h <;> rfl

theorem settle_follows {a : PutAnswers} {u v : Put} (h : Onward IsWrite u v) (s : Socket) :
    Extends Follows u.calls (settle a s v).2 := by
  rw [settle]
  split
  · exact h.calls.imp fun _ => Or.inl
  · exact h.finish.calls

/-- A worker that is alone in the file has there what it has written. -/
theorem play_follows {calls calls' : List DavCall} (h : Extends Follows calls calls') :
    play (stored calls) (stored calls).length (calls'.drop calls.length) = stored calls' := by
  obtain ⟨more, rfl, hmore⟩ := h
  rw [List.drop_left, play_quiet fun c hc => quiet_of_follows (hmore c hc), stored_append]

theorem foldl_playCall_mkdir {calls : List CardCall} (h : ∀ c ∈ calls, ∃ dir, c = .mkdir dir)
    (f : List UInt8 × Nat) : (calls.map .card).foldl playCall f = f := by
  induction calls with
  | nil => rfl
  | cons c calls ih =>
    obtain ⟨dir, rfl⟩ := h c List.mem_cons_self
    exact ih (fun c hc => h c (List.mem_cons_of_mem _ hc))

theorem play_opened {a : PutAnswers} {d : Dav} {path : List UInt8} {calls : List DavCall}
    (hopen : a.openResult = .frOk) (h : Extends Follows (opened a d path).calls calls)
    (file : List UInt8) :
    play file 0 calls = stored calls := by
  obtain ⟨more, rfl, hmore⟩ := h
  have hempty : (opened a d path).calls.foldl playCall (file, 0) = ([], ([] : List UInt8).length) := by
    rw [opened, List.foldl_append, foldl_playCall_mkdir (parentDirs_mkdir path), hopen]
    rfl
  rw [play, List.foldl_append, hempty,
    foldl_playCall_quiet fun c hc => quiet_of_follows (hmore c hc), stored_append, stored_opened]

theorem putBegin_inr {a : PutAnswers} {d : Dav} {u : Put} (h : putBegin a d = .inr u) :
    ∃ path, mapPath (cstr d.path pathSize 0) = some path ∧ a.openResult = .frOk ∧
      u = putBuffered a (opened a d path) := by
  have hopens : Opens a d := by
    by_contra hnot
    unfold putBegin at h
    cases hpath : mapPath (cstr d.path pathSize 0) with
    | none =>
      rw [hpath] at h
      cases h
    | some path =>
      have hfail : a.openResult ≠ .frOk := fun hok => hnot ⟨by rw [hpath]; rfl, hok⟩
      rw [hpath] at h
      dsimp only at h
      rw [if_pos hfail] at h
      cases h
  obtain ⟨path, hpath⟩ := Option.isSome_iff_exists.mp hopens.1
  rw [putBegin_opened hpath hopens.2] at h
  exact ⟨path, hpath, hopens.2, (Sum.inr.inj h).symm⟩

theorem play_refused {a : PutAnswers} {d : Dav} {response : Response} {calls : List DavCall}
    (h : putBegin a d = .inl (response, calls)) (file : List UInt8) :
    play file 0 calls = file ∧ ¬ Reported response ∧ ¬ Opens a d := by
  unfold putBegin at h
  cases hpath : mapPath (cstr d.path pathSize 0) with
  | none =>
    rw [hpath] at h
    cases h
    exact ⟨rfl, by simp [Reported], fun hopens => by rw [Opens, hpath] at hopens; cases hopens.1⟩
  | some path =>
    rw [hpath] at h
    dsimp only at h
    split at h
    case isTrue hfail =>
      cases h
      refine ⟨?_, by simp [Reported], fun hopens => hfail hopens.2⟩
      rw [play, List.foldl_append, foldl_playCall_mkdir (parentDirs_mkdir path)]
      cases hresult : a.openResult with
      | frOk => exact absurd hresult hfail
      | _ => rfl
    case isFalse => cases h

def Progress (a : PutAnswers) (d : Dav) (s₀ s : Socket) (u : Put) : Prop :=
  u.ok = false ∨ ∃ xs, Uploading a u d.contentLength xs ∧
    xs ++ s.stream.take u.remaining = (body d s₀).take d.contentLength

theorem progress_begin {a : PutAnswers} {d : Dav} {path : List UInt8} (s : Socket)
    (hopen : a.openResult = .frOk) (hbuf : d.writeBuf = none) (hfill : d.writeBufFill = 0) :
    Progress a d s s (putBuffered a (opened a d path)) := by
  obtain ⟨-, hstarted⟩ := @putBuffered_spec a d path s hopen hbuf hfill
  obtain ⟨xs, hup, hbody, hrem⟩ | ⟨hok, -⟩ := hstarted
  · exact Or.inr ⟨xs, hup, by rw [hrem]; exact hbody⟩
  · exact Or.inl hok

theorem progress_receive {a : PutAnswers} {d : Dav} {s₀ s : Socket} {u : Put}
    (h : Progress a d s₀ s u) (hgo : u.receiving = true) :
    Progress a d s₀ (receive s u.toRead).2 (putReceive a (receive s u.toRead).1 u) := by
  obtain ⟨hok, hleft⟩ := Bool.and_eq_true_iff.mp hgo
  obtain hfail | ⟨xs, hup, hbody⟩ := h
  · rw [hok] at hfail
    cases hfail
  have hspec := receive_spec hup hbody (of_decide_eq_true hleft) (Prod.eta (receive s u.toRead)).symm
  obtain ⟨-, hput⟩ | ⟨-, -, -, ⟨hnext, -, hrest⟩ | ⟨hfail, -⟩⟩ := hspec
  · rw [hput]
    exact Or.inl rfl
  · exact Or.inr ⟨_, hnext, hrest⟩
  · exact Or.inl hfail

theorem stored_of_reported {a : PutAnswers} {d : Dav} {s₀ s : Socket} {u : Put}
    (h : Progress a d s₀ s u) (hstop : u.receiving = false) (hr : Reported (putFinish a u).1) :
    stored (putFinish a u).2.calls = (body d s₀).take d.contentLength := by
  obtain hfail | ⟨xs, hup, hbody⟩ := h
  · rw [putFinish_failed hfail] at hr
    simp [Reported] at hr
  have hzero : u.remaining = 0 := by
    by_contra hne
    have hpos := Nat.pos_of_ne_zero hne
    simp [Put.receiving, hup.ok, hpos] at hstop
  rw [hzero, List.take_zero, List.append_nil] at hbody
  obtain ⟨ok, v, heq, -, -, hv⟩ := flush_last hup hzero
  rw [putFinish_flushed hup.ok heq] at hr ⊢
  cases ok with
  | false => simp [Reported] at hr
  | true =>
    rw [stored_close, ← hbody]
    exact hv.1

/-- What every run of workers that keep apart maintains: one that has the file open has it to
itself, and once none has, it holds what the last of them has written. -/
structure Sound (p : Uploads ι) (a : ι → PutAnswers) (w : World ι) : Prop where
  waiting : ∀ i s d, w.phase i = .waiting s d → s = p.socket i ∧ d = p.dav i
  receiving : ∀ i s u, w.phase i = .receiving s u →
    Progress (a i) (p.dav i) (p.socket i) s u ∧ u.receiving = true ∧ w.file = stored u.calls ∧
      ∀ j t v, w.phase j = .receiving t v → j = i
  idle : (∀ i s u, w.phase i ≠ .receiving s u) →
    (∀ i, ¬ Answered w i) ∨
      ∃ i r, w.phase i = .done r ∧ (Reported r → w.file = announced p i)

omit [DecidableEq ι] in
theorem sound_start (p : Uploads ι) (a : ι → PutAnswers) (file : List UInt8) :
    Sound p a (start p file) := by
  refine ⟨fun i s d h => ?_, fun i s u h => ?_, fun _ => Or.inl fun i h => ?_⟩
  · cases h
    exact ⟨rfl, rfl⟩
  · cases h
  · obtain ⟨r, h, -⟩ := h
    cases h

theorem update_cases {f : ι → Phase} {i j : ι} {x y : Phase} (h : Function.update f i x j = y) :
    (j = i ∧ x = y) ∨ (j ≠ i ∧ f j = y) := by
  by_cases hj : j = i
  · subst hj
    rw [Function.update_self] at h
    exact Or.inl ⟨rfl, h⟩
  · rw [Function.update_of_ne hj] at h
    exact Or.inr ⟨hj, h⟩

theorem Sound.waiting_update {p : Uploads ι} {a : ι → PutAnswers} {w : World ι} (h : Sound p a w)
    {i j : ι} {x : Phase} {s : Socket} {d : Dav} (hx : ∀ t e, x ≠ .waiting t e)
    (hj : Function.update w.phase i x j = .waiting s d) : s = p.socket j ∧ d = p.dav j := by
  obtain ⟨-, hnew⟩ | ⟨-, hold⟩ := update_cases hj
  · exact absurd hnew (hx s d)
  · exact h.waiting j s d hold

/-- A worker that has the file to itself goes on. -/
theorem sound_settle {p : Uploads ι} {a : ι → PutAnswers} {w : World ι} {i : ι} {s : Socket}
    {u : Put} (h : Sound p a w) (hother : ∀ j t v, w.phase j = .receiving t v → j = i)
    (hprogress : Progress (a i) (p.dav i) (p.socket i) s u) :
    Sound p a ⟨stored (settle (a i) s u).2, Function.update w.phase i (settle (a i) s u).1⟩ := by
  have halone : ∀ x j t v, Function.update w.phase i x j = .receiving t v → j = i := by
    intro x j t v hj
    obtain ⟨hji, -⟩ | ⟨-, hold⟩ := update_cases hj
    · exact hji
    · exact hother j t v hold
  by_cases hgo : u.receiving = true
  · have hsettle : settle (a i) s u = (.receiving s u, u.calls) := if_pos hgo
    rw [hsettle]
    refine ⟨fun j t d hj => h.waiting_update (fun _ _ hx => by cases hx) hj, fun j t v hj => ?_,
      fun hnone => ?_⟩
    · have hji := halone _ j t v hj
      subst hji
      obtain ⟨-, hnew⟩ | ⟨hne, -⟩ := update_cases hj
      · cases hnew
        exact ⟨hprogress, hgo, rfl, halone _⟩
      · exact absurd rfl hne
    · exact absurd (Function.update_self i _ w.phase) (hnone i s u)
  · have hsettle : settle (a i) s u = (.done (putFinish (a i) u).1, (putFinish (a i) u).2.calls) :=
      if_neg hgo
    rw [hsettle]
    refine ⟨fun j t d hj => h.waiting_update (fun _ _ hx => by cases hx) hj, fun j t v hj => ?_,
      fun _ => ?_⟩
    · have hji := halone _ j t v hj
      subst hji
      obtain ⟨-, hnew⟩ | ⟨hne, -⟩ := update_cases hj
      · cases hnew
      · exact absurd rfl hne
    · exact Or.inr ⟨i, _, Function.update_self i _ w.phase,
        stored_of_reported hprogress (Bool.not_eq_true _ ▸ hgo)⟩

theorem sound_refused {p : Uploads ι} {a : ι → PutAnswers} {w : World ι} {i : ι} {s : Socket}
    {d : Dav} {r : Response} (h : Sound p a w) (hw : w.phase i = .waiting s d) (hr : ¬ Reported r) :
    Sound p a ⟨w.file, Function.update w.phase i (.done r)⟩ := by
  refine ⟨fun j t e hj => h.waiting_update (fun _ _ hx => by cases hx) hj, fun j t v hj => ?_,
    fun hnone => ?_⟩
  · obtain ⟨-, hnew⟩ | ⟨-, hold⟩ := update_cases hj
    · cases hnew
    · obtain ⟨hprogress, hgo, hfile, halone⟩ := h.receiving j t v hold
      refine ⟨hprogress, hgo, hfile, fun k t' v' hk => ?_⟩
      obtain ⟨-, hnew⟩ | ⟨-, hold'⟩ := update_cases hk
      · cases hnew
      · exact halone k t' v' hold'
  · have hnone' : ∀ j t v, w.phase j ≠ .receiving t v := by
      intro j t v hj
      by_cases hji : j = i
      · subst hji
        rw [hw] at hj
        cases hj
      · exact hnone j t v ((Function.update_of_ne hji _ _).trans hj)
    obtain hnobody | ⟨k, r', hk, hfile⟩ := h.idle hnone'
    · refine Or.inl (fun j hj => ?_)
      obtain ⟨r', hdone, hreported⟩ := hj
      obtain ⟨-, hnew⟩ | ⟨-, hold⟩ := update_cases hdone
      · cases hnew
        exact hr hreported
      · exact hnobody j ⟨r', hold, hreported⟩
    · have hki : k ≠ i := by
        rintro rfl
        rw [hw] at hk
        cases hk
      exact Or.inr ⟨k, r', (Function.update_of_ne hki _ _).trans hk, hfile⟩

omit [DecidableEq ι] in
theorem uploads_fresh (p : Uploads ι) (i : ι) :
    (p.dav i).writeBuf = none ∧ (p.dav i).writeBufFill = 0 := by
  obtain ⟨s, method, path, recvBuf, hread⟩ := p.parsed i
  obtain ⟨_, hin⟩ := readRequest_some hread
  exact ⟨hin.writeBuf, hin.writeBufFill⟩

theorem sound_step {p : Uploads ι} {a : ι → PutAnswers} (w : World ι) (i : ι) (w' : World ι)
    (h : Sound p a w) (hapart : Apart a w i) (hstep : step a w i = some w') : Sound p a w' := by
  unfold step at hstep
  cases hphase : w.phase i with
  | waiting s d =>
    rw [hphase] at hstep
    obtain ⟨rfl, rfl⟩ := h.waiting i s d hphase
    dsimp only at hstep
    cases hbegin : putBegin (a i) (p.dav i) with
    | inl refused =>
      obtain ⟨response, calls⟩ := refused
      rw [hbegin] at hstep
      cases hstep
      obtain ⟨hplay, hr, -⟩ := play_refused hbegin w.file
      rw [hplay]
      exact sound_refused h hphase hr
    | inr u =>
      obtain ⟨path, hpath, hopen, rfl⟩ := putBegin_inr hbegin
      obtain ⟨hbuf, hfill⟩ := uploads_fresh p i
      have hopens : (w.phase i).Opens (a i) := by
        rw [hphase]
        exact ⟨Option.isSome_iff_exists.mpr ⟨path, hpath⟩, hopen⟩
      have hnobody : ∀ j t v, w.phase j ≠ .receiving t v := by
        intro j t v hj
        have hfree := hapart hopens j
        rw [hj] at hfree
        cases hfree
      rw [hbegin] at hstep
      cases hstep
      have honward : Onward IsWrite (opened (a i) (p.dav i) path)
          (putBuffered (a i) (opened (a i) (p.dav i) path)) := (Onward.refl _).buffered
      have hgrow := settle_follows (a := a i) honward (p.socket i)
      rw [play_opened hopen hgrow]
      exact sound_settle h (fun j t v hj => absurd hj (hnobody j t v))
        (progress_begin _ hopen hbuf hfill)
  | receiving s u =>
    rw [hphase] at hstep
    obtain ⟨hprogress, hgo, hfile, halone⟩ := h.receiving i s u hphase
    have hnext := progress_receive hprogress hgo
    dsimp only at hstep
    cases hstep
    have honward : Onward IsWrite u (putReceive (a i) (receive s u.toRead).1 u) :=
      (Onward.refl u).receive _
    have hgrow := settle_follows (a := a i) honward (receive s u.toRead).2
    rw [hfile, play_follows hgrow]
    exact sound_settle h halone hnext
  | done r =>
    rw [hphase] at hstep
    cases hstep

/-- Uploads of which none opens the file while another has it open leave one body in it, if all of
them report success. -/
theorem uploads_apart_serialise [Nonempty ι] (p : Uploads ι) (a : ι → PutAnswers) (file : List UInt8)
    {es : List ι} {w : World ι} (hapart : Along (step a) (Apart a) (start p file) es)
    (hrun : run (step a) (start p file) es = some w) (hall : ∀ i, Answered w i) :
    ∃ i, w.file = announced p i := by
  have hsound : Sound p a w := run_invariant sound_step (sound_start p a file) hapart hrun
  have hnobody : ∀ i s u, w.phase i ≠ .receiving s u := by
    intro i s u hi
    obtain ⟨r, hdone, -⟩ := hall i
    rw [hi] at hdone
    cases hdone
  obtain hnone | ⟨i, r, hdone, hfile⟩ := hsound.idle hnobody
  · obtain ⟨i⟩ := ‹Nonempty ι›
    exact absurd (hall i) (hnone i)
  · obtain ⟨r', hdone', hreported⟩ := hall i
    rw [hdone] at hdone'
    cases hdone'
    exact ⟨i, hfile hreported⟩

def parsedRequest (stream : List UInt8) : Option (Bool × Socket × Dav) :=
  readRequest (byBytes stream) blankWorker

def putBang : List UInt8 := putRequest (ascii "1") (ascii "!")

def hiOrBang (first : Bool) : List UInt8 := if first then putHi else putBang

theorem parsed_hiOrBang (first : Bool) : (parsedRequest (hiOrBang first)).isSome = true := by
  cases first <;> decide +kernel

def hiAndBang : Uploads Bool where
  socket := fun first => ((parsedRequest (hiOrBang first)).get (parsed_hiOrBang first)).2.1
  dav := fun first => ((parsedRequest (hiOrBang first)).get (parsed_hiOrBang first)).2.2
  parsed := by
    intro first
    refine ⟨byBytes (hiOrBang first), fun _ => 0, fun _ => 0, fun _ => 0, ?_⟩
    have hok : ((parsedRequest (hiOrBang first)).get (parsed_hiOrBang first)).1 = true := by
      cases first <;> decide +kernel
    rw [← hok]
    exact (Option.some_get (parsed_hiOrBang first)).symm
  path := ascii "/a"
  samePath := by
    intro first
    cases first <;> decide +kernel

def hiAndBangCard (first : Bool) : PutAnswers :=
  { roomyCard .frOk with statResult := if first then .frNoFile else .frOk }

theorem hiAndBang_announced (first : Bool) :
    announced hiAndBang first = if first then ascii "hi" else ascii "!" := by
  cases first <;> decide +kernel

def statusOf (a : Bool → PutAnswers) (es : List Bool) : Option (List UInt8 × Option Nat × Option Nat) :=
  (run (step a) (start hiAndBang []) es).map
    (fun w => (w.file, (w.phase true).status, (w.phase false).status))

theorem answered_run {es : List Bool} {file : List UInt8}
    (h : statusOf hiAndBangCard es = some (file, some 201, some 204)) :
    ∃ w, run (step hiAndBangCard) (start hiAndBang []) es = some w ∧ w.file = file ∧
      ∀ i, Answered w i := by
  obtain ⟨w, hrun, heq⟩ := Option.map_eq_some_iff.mp h
  obtain ⟨hfile, hrest⟩ := Prod.mk.inj heq
  obtain ⟨hfirst, hsecond⟩ := Prod.mk.inj hrest
  have hdone : ∀ i n, (w.phase i).status = some n → n = 201 ∨ n = 204 → Answered w i := by
    intro i n hstatus hn
    cases hphase : w.phase i with
    | done r =>
      rw [hphase] at hstatus
      cases hstatus
      exact ⟨r, hphase, hn⟩
    | waiting s d =>
      rw [hphase] at hstatus
      cases hstatus
    | receiving s u =>
      rw [hphase] at hstatus
      cases hstatus
  refine ⟨w, hrun, hfile, fun i => ?_⟩
  cases i with
  | true => exact hdone true 201 hfirst (Or.inl rfl)
  | false => exact hdone false 204 hsecond (Or.inr rfl)

theorem uploads_apart_serialise_in_turn :
    ∃ w, run (step hiAndBangCard) (start hiAndBang []) [true, true, true, false, false] = some w ∧
      ∃ i, w.file = announced hiAndBang i := by
  have hstatus : statusOf hiAndBangCard [true, true, true, false, false] =
      some (ascii "!", some 201, some 204) := by decide +kernel
  have hapart : Along (step hiAndBangCard) (Apart hiAndBangCard) (start hiAndBang [])
      [true, true, true, false, false] := by decide +kernel
  obtain ⟨w, hrun, -, hall⟩ := answered_run hstatus
  exact ⟨w, hrun, uploads_apart_serialise hiAndBang hiAndBangCard [] hapart hrun hall⟩

/-- Two workers have the file open at once, both report success, and the file holds one byte of
each body. -/
theorem not_every_run_serialises :
    ¬ ∀ (p : Uploads Bool) (a : Bool → PutAnswers) (file : List UInt8) (es : List Bool)
      (w : World Bool), run (step a) (start p file) es = some w → (∀ i, Answered w i) →
      ∃ i, w.file = announced p i := by
  intro hall
  have hstatus : statusOf hiAndBangCard [true, false, true, true, false] =
      some (ascii "!i", some 201, some 204) := by decide +kernel
  obtain ⟨w, hrun, hfile, hanswered⟩ := answered_run hstatus
  obtain ⟨i, hi⟩ := hall hiAndBang hiAndBangCard [] _ w hrun hanswered
  rw [hfile, hiAndBang_announced] at hi
  revert hi
  cases i <;> decide

end RapiBootloader.WebDavShared
