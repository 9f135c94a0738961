import RapiBootloader.Lib.Run
import Mathlib.Data.List.Perm.Basic
import Mathlib.Data.List.Range

namespace RapiBootloader.WebDavListener

open Lib.Run

def maxClients : Nat := 4

/-- The first instance, from its constructor to its destructor. A socket is named by its place in
the order in which sockets are made. -/
inductive Listener
  | created
  | listening (socket : Nat)
  | returned
  | deleted
deriving DecidableEq, Repr

structure Worker where
  socket : Option Nat
deriving DecidableEq, Repr

/-- All instances of `CWebDAVServer` that there are, and all the sockets there have been. -/
structure Pool where
  instanceCount : Nat
  listener : Listener
  workers : List Worker
  sockets : Nat
  deleted : List Nat
deriving DecidableEq, Repr

/-- What the tasks do between two yields. `Accept` may fail, and the scheduler deletes a task at
some time after its `Run`. -/
inductive Event
  | listen (bound listens : Bool)
  | accept (connected : Bool)
  | worked (i : Nat)
  | reapWorker (i : Nat)
  | reapListener
deriving DecidableEq, Repr

def increment (count : Nat) : Nat := (count + 1) % 0x100000000

def decrement (count : Nat) : Nat := (count + 0xFFFFFFFF) % 0x100000000

/-- `new CWebDAVServer` in the `Run` of the kernel. -/
def Pool.init : Pool := ⟨increment 0, .created, [], 0, []⟩

def listen (p : Pool) (bound listens : Bool) : Pool :=
  if bound ∧ listens then
    { p with listener := .listening p.sockets, sockets := p.sockets + 1 }
  else
    { p with
      listener := .returned
      sockets := p.sockets + 1
      deleted := p.sockets :: p.deleted }

def accept (p : Pool) : Pool :=
  if p.instanceCount ≥ maxClients + 1 then
    { p with sockets := p.sockets + 1, deleted := p.sockets :: p.deleted }
  else
    { p with
      instanceCount := increment p.instanceCount
      workers := p.workers ++ [⟨some p.sockets⟩]
      sockets := p.sockets + 1 }

/-- The result is `none` where a task is not there to do it. The destructor asserts that `m_pSocket`
is 0. -/
def step (p : Pool) : Event → Option Pool
  | .listen bound listens =>
    if p.listener = .created then some (listen p bound listens) else none
  | .accept connected =>
    match p.listener with
    | .listening _ => some (if connected then accept p else p)
    | _ => none
  | .worked i =>
    match p.workers[i]? with
    | some ⟨some socket⟩ =>
      some { p with workers := p.workers.set i ⟨none⟩, deleted := socket :: p.deleted }
    | _ => none
  | .reapWorker i =>
    match p.workers[i]? with
    | some ⟨none⟩ =>
      some { p with instanceCount := decrement p.instanceCount, workers := p.workers.eraseIdx i }
    | _ => none
  | .reapListener =>
    if p.listener = .returned then
      some { p with instanceCount := decrement p.instanceCount, listener := .deleted }
    else none

def Pool.instances (p : Pool) : Nat :=
  p.workers.length + if p.listener = .deleted then 0 else 1

def Pool.held (p : Pool) : List Nat :=
  (match p.listener with
    | .listening socket => [socket]
    | _ => []) ++ p.workers.filterMap Worker.socket

structure Sound (p : Pool) : Prop where
  count : p.instanceCount = p.instances
  atMost : p.workers.length ≤ maxClients
  served : p.workers ≠ [] → ∃ socket, p.listener = .listening socket
  sockets : (p.held ++ p.deleted).Perm (List.range p.sockets)

/-- The next connection gets a worker just if fewer than `MAX_CLIENTS` workers are left, returned
ones that the scheduler has not deleted among them. Otherwise only its socket comes and goes. -/
def Admits (p : Pool) : Prop :=
  if p.workers.length < maxClients then
    (accept p).workers = p.workers ++ [⟨some p.sockets⟩] ∧ (accept p).deleted = p.deleted
  else
    (accept p).workers = p.workers ∧ (accept p).instanceCount = p.instanceCount ∧
      (accept p).deleted = p.sockets :: p.deleted

theorem increment_eq {n : Nat} (h : n < 0xFFFFFFFF) : increment n = n + 1 :=
  Nat.mod_eq_of_lt (by omega)

theorem decrement_eq {n : Nat} (h : n < 0xFFFFFFFF) : decrement (n + 1) = n := by
  rw [decrement]
  omega

theorem perm_new {held held' deleted deleted' : List Nat} {n : Nat}
    (h : (held ++ deleted).Perm (List.range n))
    (hnew : (held' ++ deleted').Perm (n :: (held ++ deleted))) :
    (held' ++ deleted').Perm (List.range (n + 1)) := by
  rw [List.range_succ]
  refine hnew.trans ((h.cons n).trans ?_)
  exact (List.perm_append_singleton n (List.range n)).symm

theorem workers_at {p : Pool} {i : Nat} {w : Worker} (h : p.workers[i]? = some w) :
    ∃ before after, p.workers = before ++ w :: after ∧ before.length = i := by
  obtain ⟨hi, hw⟩ := List.getElem?_eq_some_iff.mp h
  refine ⟨p.workers.take i, p.workers.drop (i + 1), ?_, List.length_take_of_le hi.le⟩
  rw [← hw, List.getElem_cons_drop, List.take_append_drop]

theorem Sound.listen {p : Pool} (h : Sound p) (hp : p.listener = .created) (bound listens : Bool) :
    Sound (listen p bound listens) := by
  have hnone : p.workers = [] := by
    by_contra hne
    obtain ⟨socket, hs⟩ := h.served hne
    rw [hp] at hs
    cases hs
  have hheld : p.held = [] := by rw [Pool.held, hp, hnone]; rfl
  have hperm := h.sockets
  have hcount := h.count
  rw [hheld] at hperm
  rw [Pool.instances, hp, hnone] at hcount
  rw [WebDavListener.listen]
  split
  · refine ⟨?_, h.atMost, fun _ => ⟨_, rfl⟩, perm_new hperm ?_⟩
    · rw [hcount, Pool.instances, hnone]
      rfl
    · rw [Pool.held, hnone]
      exact .rfl
  · refine ⟨?_, h.atMost, fun hne => absurd hnone hne, perm_new hperm ?_⟩
    · rw [hcount, Pool.instances, hnone]
      rfl
    · rw [Pool.held, hnone]
      exact .rfl

theorem Sound.accept {p : Pool} (h : Sound p) {socket : Nat} (hp : p.listener = .listening socket) :
    Sound (accept p) := by
  have hcount := h.count
  have hroom := h.atMost
  rw [Pool.instances, hp, if_neg nofun] at hcount
  rw [WebDavListener.accept]
  split
  · refine ⟨?_, hroom, h.served, perm_new h.sockets ?_⟩
    · rw [hcount, Pool.instances, hp]
      rfl
    · exact List.perm_middle
  · rename_i hless
    refine ⟨?_, ?_, fun _ => ⟨socket, hp⟩, perm_new h.sockets ?_⟩
    · rw [hcount, Pool.instances, hp, List.length_append, if_neg nofun]
      rw [maxClients] at hroom
      exact increment_eq (by omega)
    · rw [List.length_append, List.length_singleton]
      omega
    · have hheld : Pool.held { p with
          instanceCount := increment p.instanceCount
          workers := p.workers ++ [⟨some p.sockets⟩]
          sockets := p.sockets + 1 } = p.held ++ [p.sockets] := by
        rw [Pool.held, Pool.held, List.filterMap_append, List.append_assoc]
        rfl
      rw [hheld, List.append_assoc]
      exact List.perm_middle

theorem Sound.worked {p : Pool} (h : Sound p) {i socket : Nat}
    (hw : p.workers[i]? = some ⟨some socket⟩) :
    Sound { p with workers := p.workers.set i ⟨none⟩, deleted := socket :: p.deleted } := by
  obtain ⟨before, after, hworkers, hi⟩ := workers_at hw
  have hset : p.workers.set i ⟨none⟩ = before ++ ⟨none⟩ :: after := by
    rw [hworkers, ← hi, List.set_append_right _ _ (Nat.le_refl _), Nat.sub_self, List.set_cons_zero]
  have hperm := h.sockets
  refine ⟨?_, ?_, fun _ => ?_, ?_⟩
  · rw [h.count, Pool.instances, Pool.instances, List.length_set]
  · rw [List.length_set]
    exact h.atMost
  · apply h.served
    rw [hworkers]
    exact List.append_ne_nil_of_right_ne_nil before (List.cons_ne_nil _ _)
  · rw [Pool.held, hworkers, List.filterMap_append] at hperm
    rw [Pool.held, hset, List.filterMap_append]
    refine .trans ?_ hperm
    rw [List.append_assoc, List.append_assoc, List.append_assoc, List.append_assoc]
    refine List.Perm.append_left _ (List.Perm.append_left _ ?_)
    exact List.perm_middle

/-- The destructor of a worker. -/
theorem Sound.reapWorker {p : Pool} (h : Sound p) {i : Nat} (hw : p.workers[i]? = some ⟨none⟩) :
    Sound { p with
      instanceCount := decrement p.instanceCount
      workers := p.workers.eraseIdx i } := by
  obtain ⟨before, after, hworkers, hi⟩ := workers_at hw
  have herase : p.workers.eraseIdx i = before ++ after := by
    rw [hworkers, ← hi, List.eraseIdx_append_of_length_le (Nat.le_refl _), Nat.sub_self,
      List.eraseIdx_cons_zero]
  have hne : p.workers ≠ [] := by
    rw [hworkers]
    exact List.append_ne_nil_of_right_ne_nil before (List.cons_ne_nil _ _)
  obtain ⟨socket, hp⟩ := h.served hne
  have hperm := h.sockets
  have hcount := h.count
  have hroom := h.atMost
  have hlen : p.workers.length = (before ++ after).length + 1 := by
    rw [hworkers, List.length_append, List.length_append, List.length_cons]
    rfl
  rw [Pool.instances, hp, if_neg nofun, hlen] at hcount
  rw [hlen, maxClients] at hroom
  refine ⟨?_, ?_, fun _ => ⟨socket, hp⟩, ?_⟩
  · dsimp only
    rw [hcount, Pool.instances, herase, hp, if_neg nofun]
    exact decrement_eq (by omega)
  · dsimp only
    rw [herase, maxClients]
    omega
  · rw [Pool.held, hworkers, List.filterMap_append] at hperm
    rw [Pool.held, herase, List.filterMap_append]
    exact hperm

theorem Sound.reapListener {p : Pool} (h : Sound p) (hp : p.listener = .returned) :
    Sound { p with instanceCount := decrement p.instanceCount, listener := .deleted } := by
  have hnone : p.workers = [] := by
    by_contra hne
    obtain ⟨socket, hs⟩ := h.served hne
    rw [hp] at hs
    cases hs
  have hcount := h.count
  have hperm := h.sockets
  rw [Pool.instances, hp, hnone] at hcount
  rw [Pool.held, hp, hnone] at hperm
  refine ⟨?_, h.atMost, fun hne => absurd hnone hne, ?_⟩
  · dsimp only
    rw [hcount, Pool.instances, hnone, if_neg nofun, if_pos rfl]
    exact decrement_eq (by decide)
  · rw [Pool.held, hnone]
    exact hperm

theorem step_sound (p : Pool) (ev : Event) (q : Pool) (h : Sound p) (hq : step p ev = some q) :
    Sound q := by
  cases ev with
  | listen bound listens =>
    obtain ⟨hp, hlisten⟩ := Option.ite_none_right_eq_some.mp hq
    rw [← Option.some.inj hlisten]
    exact h.listen hp bound listens
  | accept connected =>
    cases hp : p.listener with
    | listening socket =>
      rw [step, hp] at hq
      dsimp only at hq
      rw [← Option.some.inj hq]
      split
      · exact h.accept hp
      · exact h
    | _ =>
      rw [step, hp] at hq
      cases hq
  | worked i =>
    cases hw : p.workers[i]? with
    | none =>
      rw [step, hw] at hq
      cases hq
    | some w =>
      obtain ⟨_ | socket⟩ := w
      · rw [step, hw] at hq
        cases hq
      · rw [step, hw] at hq
        rw [← Option.some.inj hq]
        exact h.worked hw
  | reapWorker i =>
    cases hw : p.workers[i]? with
    | none =>
      rw [step, hw] at hq
      cases hq
    | some w =>
      obtain ⟨_ | socket⟩ := w
      · rw [step, hw] at hq
        rw [← Option.some.inj hq]
        exact h.reapWorker hw
      · rw [step, hw] at hq
        cases hq
  | reapListener =>
    obtain ⟨hp, hreap⟩ := Option.ite_none_right_eq_some.mp hq
    rw [← Option.some.inj hreap]
    exact h.reapListener hp

theorem sound_init : Sound Pool.init :=
  ⟨rfl, Nat.zero_le _, fun h => absurd rfl h, .rfl⟩

theorem Sound.admits {p : Pool} (h : Sound p) {socket : Nat} (hp : p.listener = .listening socket) :
    Admits p := by
  have hcount := h.count
  rw [Pool.instances, hp, if_neg nofun] at hcount
  rw [Admits, WebDavListener.accept, hcount]
  split
  · rw [if_neg (by omega)]
    exact ⟨rfl, rfl⟩
  · rw [if_pos (by omega)]
    exact ⟨rfl, rfl, rfl⟩

/-- In every run of the listener, its workers and the scheduler: the count is that of the instances,
no more than `MAX_CLIENTS` connections are served at once, each socket has one holder or has been
deleted once, and a connection is refused just if that many workers are left. -/
theorem pool_of_run {evs : List Event} {p : Pool} (hr : run step Pool.init evs = some p) :
    Sound p ∧ ∀ socket, p.listener = .listening socket → Admits p := by
  have hsound := run_invariant_all step_sound sound_init hr
  exact ⟨hsound, fun socket hp => hsound.admits hp⟩

def fiveConnections : List Event :=
  [.listen true true, .accept true, .accept true, .accept false, .worked 0, .accept true,
    .accept true, .accept true, .reapWorker 0, .accept true]

theorem pool_of_five : ∃ p, run step Pool.init fiveConnections = some p ∧
    p.workers.length = maxClients ∧ p.deleted = [5, 1] ∧ Sound p := by
  refine ⟨_, rfl, rfl, rfl, (@pool_of_run fiveConnections _ rfl).1⟩

end RapiBootloader.WebDavListener
