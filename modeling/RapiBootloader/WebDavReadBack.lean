import RapiBootloader.WebDavVolume

namespace RapiBootloader.WebDavReadBack

open Lib.Memory Lib.Strings Lib.CLibrary Lib.Volumes Card WebDavText WebDavServer WebDavRequest
open WebDavParse WebDavPut WebDavBatch WebDavUpload WebDavListing WebDavGet WebDavWorker WebDavVolume

variable {A K : Type} [DecidableEq A] [DecidableEq K] (key : List UInt8 → K)

def changed : WorkerCall → Option (List UInt8)
  | .dav (.card (.openWrite path _)) => some path
  | .unlink path _ => some path
  | _ => none

/-- Each connection gets on with its calls in its own order. Some may not have come to their end. -/
def Ordered (conns : A → Connection) (trace : List (A × WorkerCall)) : Prop :=
  ∀ i, own i trace <+: (conns i).calls

def ops (conns : A → Connection) (trace : List (A × WorkerCall)) : List (A × Op K UInt8) :=
  trace.map fun e => (e.1, volumeOp key (conns e.1).info e.2)

/-- No connection but `i` has a call in the trace and alters what has this name. -/
def Undisturbed (conns : A → Connection) (trace : List (A × WorkerCall)) (i : A) (k : K) : Prop :=
  ∀ j, j ≠ i → own j trace ≠ [] → ¬ Alters key (conns j) k

def Unbroken (pieces : Pieces) (calls : List WorkerCall) : Prop :=
  (∀ p ∈ pieces, p.2 = true) ∧
    ∀ count result bytes, WorkerCall.dav (.card (.read count result bytes)) ∈ calls → result = .frOk

/-- How a `GET` of the file at `path` may be answered, if its contents are these. An error has
its cause in the answer to a call. -/
def GetsFile (c : Connection) (path bytes : List UInt8) : Prop :=
  match c.reply with
  | none => False
  | some (.simple r) =>
    (r.status = 404 ∧ ∃ result, .dav (.stat path result) ∈ c.calls ∧ result ≠ .frOk) ∨
      (r.status = 500 ∧ ∃ result, .dav (.card (.openRead path result)) ∈ c.calls ∧ result ≠ .frOk)
  | some (.sent pieces) => ∃ sent rest, pieces = (getHeader bytes.length, sent) :: rest ∧
      delivered rest <+: bytes ∧ (Unbroken pieces c.calls → delivered rest = bytes)

omit [DecidableEq K] in
theorem changes_iff (info : Option (Bool × Nat)) (call : WorkerCall) (k : K) :
    (volumeOp key info call).Changes k ↔ ∃ path, changed call = some path ∧ key path = k := by
  cases call with
  | unlink path result => simp [volumeOp, changed, Op.Changes]
  | mkdir path result => simp [volumeOp, changed, Op.Changes]
  | dav call =>
    cases call with
    | card call => cases call <;> simp [volumeOp, cardOp, changed, Op.Changes]
    | _ => simp [volumeOp, changed, Op.Changes]

def Preserving (calls : List DavCall) : Prop := ∀ call ∈ calls, changed (.dav call) = none

theorem preserving_nil : Preserving [] := fun _ hcall => absurd hcall List.not_mem_nil

theorem preserving_cons {call : DavCall} {calls : List DavCall} (hcall : changed (.dav call) = none)
    (h : Preserving calls) : Preserving (call :: calls) :=
  List.forall_mem_cons.mpr ⟨hcall, h⟩

theorem Preserving.append {calls more : List DavCall} (h : Preserving calls)
    (hmore : Preserving more) : Preserving (calls ++ more) :=
  List.forall_mem_append.mpr ⟨h, hmore⟩

theorem preserving_reads {calls : List DavCall} (h : ∀ call ∈ calls, isRead call = true) :
    Preserving calls := by
  intro call hcall
  have hread := h call hcall
  cases call with
  | card call =>
    cases call with
    | read count result bytes => rfl
    | _ => cases hread
  | _ => cases hread

theorem preserving_get (a : GetAnswers) (turns : Nat) (headOnly : Bool) (d : Dav) :
    Preserving (doGet a turns headOnly d).calls := by
  have hreads := preserving_reads (getLoop_reads a turns 0 d.recvBuf)
  have hclose : Preserving [.close a.closeResult] := preserving_cons rfl preserving_nil
  unfold doGet
  cases mapPath (cstr d.path pathSize 0) with
  | none => exact preserving_nil
  | some path =>
    have hstat : Preserving [.stat path a.statResult] := preserving_cons rfl preserving_nil
    have hopen : Preserving [.card (.openRead path a.openResult)] :=
      preserving_cons rfl preserving_nil
    dsimp only
    split
    · exact hstat
    split
    · exact hstat
    split
    · exact hstat.append hopen
    split
    · generalize getLoop a turns 0 d.recvBuf = l at hreads ⊢
      apply Preserving.append
      · exact preserving_cons rfl (preserving_cons rfl hreads)
      · split
        · exact hclose
        · exact preserving_nil
    · exact (hstat.append hopen).append hclose

theorem preserving_propfind (a : DirAnswers) (d : Dav) : Preserving (doPropfind a d).2 := by
  unfold doPropfind
  dsimp only
  cases mapPath (cstr d.path pathSize 0) with
  | none => exact preserving_nil
  | some path =>
    have hstat : Preserving [.stat path a.statResult] := preserving_cons rfl preserving_nil
    have hdir : Preserving [.opendir path a.openResult] := preserving_cons rfl preserving_nil
    dsimp only
    split
    · exact hstat
    · generalize (if cstr d.path pathSize 0 = ascii "/" then _ else a.statInfo : FileInfo) = self
      apply Preserving.append
      · split
        · exact preserving_nil
        · exact hstat
      · split
        · exact hdir
        · exact preserving_nil

theorem changed_put {a : PutAnswers} {s : Socket} {d : Dav} {call : DavCall} {path : List UInt8}
    (hcall : call ∈ (doPut a s d).calls) (hpath : changed (.dav call) = some path) :
    mapPath (cstr d.path pathSize 0) = some path := by
  cases hmap : mapPath (cstr d.path pathSize 0) with
  | none =>
    unfold doPut putBegin at hcall
    rw [hmap] at hcall
    cases hcall
  | some mapped =>
    obtain ⟨more, hcalls, hmore⟩ := doPut_calls (a := a) s hmap
    rw [hcalls] at hcall
    obtain hopened | hlater := List.mem_append.mp hcall
    · obtain ⟨dir, rfl⟩ | rfl | rfl := mem_opened hopened
      · cases hpath
      · cases hpath
      · exact hpath
    · obtain ⟨bytes, result, written, rfl⟩ | ⟨result, rfl⟩ := hmore call hlater <;> cases hpath

theorem changed_delete {result : FResult} {d : Dav} {call : WorkerCall} {path : List UInt8}
    (hcall : call ∈ (doDelete result d).2) (hpath : changed call = some path) :
    mapPath (cstr d.path pathSize 0) = some path := by
  unfold doDelete at hcall
  dsimp only at hcall
  cases hmap : mapPath (cstr d.path pathSize 0) with
  | none =>
    rw [hmap] at hcall
    cases hcall
  | some mapped =>
    rw [hmap] at hcall
    dsimp only at hcall
    split at hcall
    · cases hcall
    · rw [List.mem_singleton.mp hcall] at hpath
      exact hpath

theorem changed_mkcol (result : FResult) (d : Dav) :
    ∀ call ∈ (doMkcol result d).2, changed call = none := by
  unfold doMkcol
  cases mapPath (cstr d.path pathSize 0) with
  | none => exact fun call hcall => absurd hcall List.not_mem_nil
  | some path => exact List.forall_mem_singleton.mpr rfl

/-- Only `PUT` and `DELETE` change a file, and only that of their path. -/
theorem changed_handle {a : WorkerAnswers} {turns : Nat} {s : Socket} {d : Dav} {call : WorkerCall}
    {path : List UInt8} (hcall : call ∈ (handle a turns s d).2) (hpath : changed call = some path) :
    (cstr d.method methodSize 0 = ascii "PUT" ∨ cstr d.method methodSize 0 = ascii "DELETE") ∧
      mapPath (cstr d.path pathSize 0) = some path := by
  have hquiet : ∀ {calls : List DavCall}, Preserving calls →
      call ∈ calls.map WorkerCall.dav → False := by
    intro calls hnone hmem
    obtain ⟨c, hc, rfl⟩ := List.mem_map.mp hmem
    rw [hnone c hc] at hpath
    cases hpath
  unfold handle at hcall
  dsimp only at hcall
  split at hcall
  · exact absurd hcall List.not_mem_nil
  split at hcall
  case isTrue =>
    dsimp only at hcall
    exact (hquiet (preserving_get _ _ _ _) hcall).elim
  split at hcall
  case isTrue =>
    dsimp only at hcall
    exact (hquiet (preserving_get _ _ _ _) hcall).elim
  split at hcall
  case isTrue hput =>
    dsimp only at hcall
    obtain ⟨c, hc, rfl⟩ := List.mem_map.mp hcall
    exact ⟨Or.inl hput, changed_put hc hpath⟩
  split at hcall
  case isTrue hdelete =>
    dsimp only at hcall
    exact ⟨Or.inr hdelete, changed_delete hcall hpath⟩
  split at hcall
  case isTrue =>
    dsimp only at hcall
    have hnone := changed_mkcol a.mkdirResult d call hcall
    rw [hnone] at hpath
    cases hpath
  split at hcall
  case isTrue =>
    dsimp only at hcall
    exact (hquiet (preserving_propfind _ _) hcall).elim
  · exact absurd hcall List.not_mem_nil

omit [DecidableEq K] in
theorem alters_of_changes {c : Connection} {call : WorkerCall} {k : K} (hcall : call ∈ c.calls)
    (info : Option (Bool × Nat)) (h : (volumeOp key info call).Changes k) : Alters key c k := by
  obtain ⟨path, hpath, hkey⟩ := (changes_iff key info call k).mp h
  unfold Connection.calls worker at hcall
  cases hread : readRequest c.socket c.dav with
  | none =>
    rw [hread] at hcall
    cases hcall
  | some request =>
    obtain ⟨ok, s, d⟩ := request
    rw [hread] at hcall
    cases ok with
    | false => cases hcall
    | true =>
      obtain ⟨hmethod, hmap⟩ := changed_handle hcall hpath
      exact ⟨s, d, path, hread, hmethod, hmap, hkey⟩

section
variable {c : Connection} {s : Socket} {d : Dav}

omit [DecidableEq A] [DecidableEq K] in
theorem put_served (h : c.Asks s d) (hmethod : cstr d.method methodSize 0 = ascii "PUT") :
    c.calls = (doPut c.answers.put s d).calls.map .dav ∧
      c.reply = some (.simple (doPut c.answers.put s d).response) := by
  have hworker : worker c.answers c.turns c.socket c.dav =
      (some (.simple (doPut c.answers.put s d).response),
        (doPut c.answers.put s d).calls.map .dav) := by
    unfold worker
    rw [h]
    dsimp only
    unfold handle
    dsimp only
    rw [hmethod, if_neg (by decide), if_neg (by decide), if_neg (by decide), if_pos rfl]
  constructor
  · rw [Connection.calls, hworker]
  · rw [Connection.reply, hworker]

omit [DecidableEq A] [DecidableEq K] in
theorem get_served (h : c.Asks s d) (hmethod : cstr d.method methodSize 0 = ascii "GET") :
    c.calls = (doGet c.answers.get c.turns false d).calls.map .dav ∧
      c.reply = some (doGet c.answers.get c.turns false d).reply ∧
      c.info = some (c.answers.get.isDir, c.answers.get.fsize) := by
  have hworker : worker c.answers c.turns c.socket c.dav =
      (some (doGet c.answers.get c.turns false d).reply,
        (doGet c.answers.get c.turns false d).calls.map .dav) := by
    unfold worker
    rw [h]
    dsimp only
    unfold handle
    dsimp only
    rw [hmethod, if_neg (by decide), if_pos rfl]
  refine ⟨?_, ?_, ?_⟩
  · rw [Connection.calls, hworker]
  · rw [Connection.reply, hworker]
  · unfold Connection.info
    rw [h]
    exact if_pos hmethod

end

omit [DecidableEq K] in
theorem own_ops (conns : A → Connection) (i : A) (trace : List (A × WorkerCall)) :
    own i (ops key conns trace) = (own i trace).map (volumeOp key (conns i).info) :=
  own_map (fun i call => volumeOp key (conns i).info call) i trace

section
variable {conns : A → Connection} {trace more : List (A × WorkerCall)} {i : A} {k : K}

omit [DecidableEq K] in
theorem Ordered.quiet (h : Ordered conns trace) (hquiet : Undisturbed key conns trace i k) :
    ∀ call ∈ ops key conns trace, call.1 ≠ i → ¬ call.2.Changes k := by
  intro call hcall hi hchanges
  obtain ⟨⟨j, e⟩, he, rfl⟩ := List.mem_map.mp hcall
  have hmem := own_of_mem he
  refine hquiet j hi (List.ne_nil_of_mem hmem) ?_
  exact alters_of_changes key ((h j).subset hmem) _ hchanges

theorem Ordered.ended (h : Ordered conns (trace ++ more)) (hall : own i trace = (conns i).calls) :
    own i more = [] := by
  have hpre := h i
  rw [own_append, hall] at hpre
  have hlen := hpre.length_le
  rw [List.length_append] at hlen
  exact List.eq_nil_of_length_eq_zero (by omega)

/-- An upload that is reported and closed leaves its file at rest. -/
theorem Ordered.stored (h : Ordered conns trace) {v v' : Volume A K UInt8}
    (hsteps : Steps v (ops key conns trace) v') {path bytes : List UInt8} {r : Response}
    (hfree : Free v (key path)) (hput : IsPut (conns i) path bytes)
    (hreply : (conns i).reply = some (.simple r)) (hr : Reported r)
    (hclose : (conns i).answers.put.closeResult = .frOk) (hall : own i trace = (conns i).calls)
    (hquiet : Undisturbed key conns trace i (key path)) : Rests v' (key path) bytes := by
  obtain ⟨s, d, hasks, hmethod, hpath, rfl⟩ := hput
  obtain ⟨hcalls, hserved⟩ := put_served hasks hmethod
  rw [hserved] at hreply
  obtain rfl := Reply.simple.inj (Option.some.inj hreply)
  obtain ⟨n, hin⟩ := readRequest_some hasks
  obtain ⟨before, parts, hops, hparts, hbefore⟩ :=
    put_ops key (conns i).info hpath hin.writeBuf hin.writeBufFill hr hclose
  rw [← hparts]
  refine upload_rests hfree hsteps ?_ hbefore (h.quiet key hquiet)
  rw [own_ops, hall, hcalls]
  exact hops

end

/-- A `GET` of a file that nobody alters meanwhile. -/
theorem get_rests {c : Connection} {calls : List (A × Op K UInt8)} {v v' : Volume A K UInt8}
    (hsteps : Steps v calls v') {j : A} {path bytes : List UInt8}
    (hrests : Rests v (key path) bytes) (hget : IsGet c path)
    (hown : own j calls = c.calls.map (volumeOp key c.info))
    (hturns : bytes.length < recvBufSize * c.turns)
    (hquiet : ∀ call ∈ calls, ¬ call.2.Changes (key path)) : GetsFile c path bytes := by
  obtain ⟨s, d, hasks, hmethod, hpath⟩ := hget
  obtain ⟨hcalls, hserved, hinfo⟩ := get_served hasks hmethod
  rw [hcalls, hinfo] at hown
  have hlook : .stat path .frOk ∈ (doGet c.answers.get c.turns false d).calls →
      c.answers.get.isDir = false ∧ c.answers.get.fsize = bytes.length := by
    intro hstat
    have hmem : Op.look (key path) (some (c.answers.get.isDir, c.answers.get.fsize)) ∈
        own j calls := by
      rw [hown]
      exact List.mem_map.mpr ⟨_, List.mem_map.mpr ⟨_, hstat, rfl⟩, rfl⟩
    exact Prod.mk.inj (hrests.looks hsteps hquiet (mem_of_own hmem))
  have hreplies := @doGet_replies c.answers.get c.turns d path hpath
  generalize doGet c.answers.get c.turns false d = done at *
  unfold GetsFile
  rw [hserved, hcalls]
  obtain ⟨r, hreply, hstatus⟩ | ⟨l, hsent, hunsent, hdone⟩ := hreplies
  · rw [hreply]
    obtain ⟨h404, result, hcall, hfail⟩ | ⟨h500, result, hcall, hfail⟩ | ⟨hdir, hstat⟩ := hstatus
    · exact Or.inl ⟨h404, result, List.mem_map_of_mem hcall, hfail⟩
    · exact Or.inr ⟨h500, result, List.mem_map_of_mem hcall, hfail⟩
    · rw [(hlook hstat).1] at hdir
      cases hdir
  · rw [hdone] at hlook hown ⊢
    dsimp only at hlook hown ⊢
    obtain ⟨-, hsize⟩ := hlook List.mem_cons_self
    refine ⟨_, l.pieces, by rw [hsize], ?_⟩
    cases hheader : c.answers.get.sends 0 with
    | false =>
      rw [hunsent hheader]
      refine ⟨List.nil_prefix, fun hunbroken => ?_⟩
      exact Bool.noConfusion (hunbroken.1 _ List.mem_cons_self)
    | true =>
      have hslices : ∀ (reads : List (List UInt8)) (after : List DavCall),
          l.calls = reads.map okRead ++ after → Slices bytes 0 (reads.map (recvBufSize, ·)) := by
        intro reads after hreads
        rw [hreads, List.cons_append, List.cons_append, List.append_assoc, get_ops] at hown
        exact download_slices hrests hsteps hown hquiet
      rw [hsent hheader] at hslices ⊢
      obtain ⟨hpre, hwhole⟩ := getLoop_slices c.turns (Nat.zero_le _) hslices
      refine ⟨hpre, fun hunbroken => (hwhole (by omega)).2 ⟨?_, ?_⟩⟩
      · exact fun p hp => hunbroken.1 p (List.mem_cons_of_mem _ hp)
      · intro call hcall
        cases call with
        | card call =>
          cases call with
          | read count result found =>
            refine decide_eq_true (hunbroken.2 count result found ?_)
            exact List.mem_map.mpr ⟨_, List.mem_cons_of_mem _ (List.mem_cons_of_mem _
              (List.mem_append_left _ (hsent hheader ▸ hcall))), rfl⟩
          | _ => rfl
        | _ => rfl

/-- In whatever order the volume gets the calls of any number of connections: what a `PUT` has
reported stored is in its file from its `f_close` on, and is what a later `GET` of the file sends,
unless another connection alters the file. -/
theorem put_read_back {conns : A → Connection} {v u v' : Volume A K UInt8}
    {during after : List (A × WorkerCall)} {i j : A} {path path' bytes : List UInt8} {r : Response}
    (hordered : Ordered conns (during ++ after)) (hduring : Steps v (ops key conns during) u)
    (hafter : Steps u (ops key conns after) v') (hfree : Free v (key path))
    (hput : IsPut (conns i) path bytes) (hreply : (conns i).reply = some (.simple r))
    (hr : Reported r) (hclose : (conns i).answers.put.closeResult = .frOk)
    (hstored : own i during = (conns i).calls) (hget : IsGet (conns j) path')
    (hkey : key path' = key path) (hread : own j after = (conns j).calls)
    (hturns : bytes.length < recvBufSize * (conns j).turns)
    (hquiet : Undisturbed key conns (during ++ after) i (key path)) :
    Rests u (key path) bytes ∧ Rests v' (key path) bytes ∧ GetsFile (conns j) path' bytes := by
  have hfirst : Ordered conns during := fun m => by
    have hpre := hordered m
    rw [own_append] at hpre
    exact (List.prefix_append _ _).trans hpre
  have hall := hordered.quiet key hquiet
  rw [ops, List.map_append] at hall
  have hquietDuring : Undisturbed key conns during i (key path) := fun m hm hcalls =>
    hquiet m hm (by
      rw [own_append]
      exact List.append_ne_nil_of_left_ne_nil hcalls _)
  have hrests := hfirst.stored key hduring hfree hput hreply hr hclose hstored hquietDuring
  have hnone := hordered.ended hstored
  have hquietAfter : ∀ call ∈ ops key conns after, ¬ call.2.Changes (key path) := by
    intro call hcall
    by_cases hi : call.1 = i
    · subst hi
      have hown := own_ops key conns call.1 after
      rw [hnone] at hown
      have hmem : call.2 ∈ own call.1 (ops key conns after) := own_of_mem hcall
      rw [hown] at hmem
      cases hmem
    · exact hall call (List.mem_append_right _ hcall) hi
  refine ⟨hrests, hrests.steps hafter hquietAfter, ?_⟩
  rw [← hkey] at hrests hquietAfter
  exact get_rests key hafter hrests hget (by rw [own_ops, hread]) hturns hquietAfter

/-- Any number of uploads to different files: each has what it reports, whatever becomes of the
others and in whatever order they take turns, and no other file is touched. -/
theorem puts_apart {conns : A → Connection} {v v' : Volume A K UInt8}
    {trace : List (A × WorkerCall)} {path bytes : A → List UInt8} (hordered : Ordered conns trace)
    (hsteps : Steps v (ops key conns trace) v') (hfree : ∀ k, Free v k)
    (hput : ∀ i, IsPut (conns i) (path i) (bytes i))
    (hkeys : ∀ i j, key (path i) = key (path j) → i = j) :
    (∀ i r, (conns i).reply = some (.simple r) → Reported r →
        (conns i).answers.put.closeResult = .frOk → own i trace = (conns i).calls →
        v'.entries (key (path i)) = some (.file (bytes i))) ∧
      ∀ k old, (∀ i, key (path i) ≠ k) → v.entries k = some (.file old) →
        v'.entries k = some (.file old) := by
  have halters : ∀ i k, Alters key (conns i) k → key (path i) = k := by
    rintro i k ⟨s, d, mapped, hasks, -, hmapped, hkey⟩
    obtain ⟨s', d', hasks', -, hpath, -⟩ := hput i
    have hsame := Option.some.inj (hasks.symm.trans hasks')
    cases hsame
    rw [hmapped] at hpath
    rw [← Option.some.inj hpath, hkey]
  constructor
  · intro i r hreply hr hclose hall
    have hquiet : Undisturbed key conns trace i (key (path i)) := fun j hj _ halter =>
      hj (hkeys j i (halters j _ halter))
    exact (hordered.stored key hsteps (hfree _) (hput i) hreply hr hclose hall hquiet).entry
  · intro k old hother hold
    have hrests : Rests v k old := ⟨hold, hfree k⟩
    refine (hrests.steps hsteps fun call hcall hchanges => ?_).entry
    obtain ⟨⟨j, e⟩, he, rfl⟩ := List.mem_map.mp hcall
    have hmem := (hordered j).subset (own_of_mem he)
    exact hother j (halters j k (alters_of_changes key hmem _ hchanges))

def disk (a b : Option (List UInt8)) (first second : Handle (List UInt8) UInt8) :
    Volume Bool (List UInt8) UInt8 where
  entries path :=
    if path = ascii "SD:/a" then a.map .file else if path = ascii "SD:/b" then b.map .file else none
  handles i := if i then second else first

def hiConns (downloads : Bool) : Connection where
  answers := obliging
  turns := 1
  socket := atOnce (if downloads then ascii "GET /a HTTP/1.1" ++ crlfcrlf else putHi)
  method _ := 0
  path _ := 0
  recvBuf _ := 0

def hiUpload : List (Bool × WorkerCall) :=
  [.dav (.stat (ascii "SD:/a") .frNoFile), .dav (.card (.openWrite (ascii "SD:/a") .frOk)),
    .dav (.card (.write (ascii "hi") .frOk 2)), .dav (.close .frOk)].map (false, ·)

def hiDownload : List (Bool × WorkerCall) :=
  [.dav (.stat (ascii "SD:/a") .frOk), .dav (.card (.openRead (ascii "SD:/a") .frOk)),
    .dav (.card (.read recvBufSize .frOk (ascii "hi"))), .dav (.close .frOk)].map (true, ·)

theorem hi_calls : (hiConns false).calls = own false hiUpload ∧
    (hiConns true).calls = own true hiDownload := by
  decide +kernel

theorem hi_info : (hiConns true).info = some (false, 2) := by decide +kernel

section
variable {a a' b b' : Option (List UInt8)} {h h' t t' : Handle (List UInt8) UInt8}

theorem disk_off_a : Off (ascii "SD:/a") (disk a b h t).entries (disk a' b h' t').entries :=
  fun _ hpath => (if_neg hpath).trans (if_neg hpath).symm

theorem disk_off_b : Off (ascii "SD:/b") (disk a b h t).entries (disk a b' h' t').entries := by
  intro path hpath
  simp only [disk, if_neg hpath]

theorem disk_first {op : Op (List UInt8) UInt8}
    (heffect : Effect (fun k => ∃ j, j ≠ false ∧ ((disk a b h t).handles j).target = some k)
      (disk a b h t).entries h op (disk a' b' h' t).entries h') (hother : op.spoils t = t) :
    Step (disk a b h t) false op (disk a' b' h' t) := by
  refine ⟨heffect, fun j hj => ?_⟩
  cases j with
  | false => exact absurd rfl hj
  | true => exact hother.symm

theorem disk_second {op : Op (List UInt8) UInt8}
    (heffect : Effect (fun k => ∃ j, j ≠ true ∧ ((disk a b h t).handles j).target = some k)
      (disk a b h t).entries t op (disk a' b' h t').entries t') (hother : op.spoils h = h) :
    Step (disk a b h t) true op (disk a' b' h t') := by
  refine ⟨heffect, fun j hj => ?_⟩
  cases j with
  | false => exact hother.symm
  | true => exact absurd rfl hj

end

theorem appended (path bytes : List UInt8) : ∀ k old,
    Handle.writing path [] = .writing k old → true = true →
      Handle.writing path bytes = .writing k (old ++ bytes) := by
  intro k old hold _
  cases hold
  rfl

theorem hi_stored : Steps (disk none none .closed .closed)
    [(false, .create (ascii "SD:/a") true), (false, .append (ascii "hi") true),
      (false, .shut true)] (disk (some (ascii "hi")) none .closed .closed) := by
  refine ⟨disk (some []) none (.writing (ascii "SD:/a") []) .closed,
    disk_first ⟨disk_off_a, rfl, fun _ => rfl⟩ rfl,
    disk (some []) none (.writing (ascii "SD:/a") (ascii "hi")) .closed,
    disk_first ⟨fun _ _ => rfl, rfl, appended _ _⟩ rfl, _, disk_first ⟨?_, rfl, ?_⟩ rfl, rfl⟩
  · intro path hpath
    exact @disk_off_a _ _ _ .closed .closed .closed .closed path
      (fun hp => hpath (by rw [hp]; rfl))
  · intro k bytes hbytes _
    cases hbytes
    rfl

theorem hi_uploaded : Steps (disk none none .closed .closed) (ops id hiConns hiUpload)
    (disk (some (ascii "hi")) none .closed .closed) :=
  ⟨disk none none .closed .closed, disk_first ⟨rfl, rfl, nofun⟩ rfl, hi_stored⟩

theorem hi_downloaded : Steps (disk (some (ascii "hi")) none .closed .closed)
    (ops id hiConns hiDownload) (disk (some (ascii "hi")) none .closed .closed) := by
  rw [ops, hiDownload]
  simp only [List.map_cons, List.map_nil, hi_info]
  refine ⟨_, disk_second ⟨rfl, rfl, ?_⟩ rfl,
    disk _ _ .closed (.reading (ascii "SD:/a") (ascii "hi") 0),
    disk_second ⟨rfl, ascii "hi", rfl, rfl⟩ rfl,
    disk _ _ .closed (.reading (ascii "SD:/a") (ascii "hi") 2), disk_second ⟨rfl, rfl, ?_⟩ rfl,
    disk (some (ascii "hi")) none .closed .closed, disk_second ⟨fun _ _ => rfl, rfl, nofun⟩ rfl, rfl⟩
  · intro info hinfo
    cases hinfo
    rfl
  · intro k c pos hreading _ _
    cases hreading
    exact ⟨rfl, rfl⟩

def asked (c : Connection) : Option (Bool × List UInt8 × Option (List UInt8) × List UInt8) :=
  (readRequest c.socket c.dav).map fun r =>
    (r.1, cstr r.2.2.method methodSize 0, mapPath (cstr r.2.2.path pathSize 0),
      (body r.2.2 r.2.1).take r.2.2.contentLength)

theorem asks_of_asked {c : Connection} {method path bytes : List UInt8}
    (h : asked c = some (true, method, some path, bytes)) :
    ∃ s d, c.Asks s d ∧ cstr d.method methodSize 0 = method ∧
      mapPath (cstr d.path pathSize 0) = some path ∧ (body d s).take d.contentLength = bytes := by
  obtain ⟨⟨ok, s, d⟩, hread, hr⟩ := Option.map_eq_some_iff.mp h
  obtain ⟨hok, hrest⟩ := Prod.mk.inj hr
  obtain ⟨hmethod, hrest⟩ := Prod.mk.inj hrest
  obtain ⟨hpath, hbytes⟩ := Prod.mk.inj hrest
  dsimp only at hok
  subst hok
  exact ⟨s, d, hread, hmethod, hpath, hbytes⟩

theorem hi_asked : asked (hiConns false) =
    some (true, ascii "PUT", some (ascii "SD:/a"), ascii "hi") := by
  decide +kernel

theorem hi_asked_back : asked (hiConns true) =
    some (true, ascii "GET", some (ascii "SD:/a"), []) := by
  decide +kernel

theorem put_read_back_hi :
    Rests (disk (some (ascii "hi")) none .closed .closed) (ascii "SD:/a") (ascii "hi") ∧
      Rests (disk (some (ascii "hi")) none .closed .closed) (ascii "SD:/a") (ascii "hi") ∧
      GetsFile (hiConns true) (ascii "SD:/a") (ascii "hi") := by
  obtain ⟨s, d, hasks, hmethod, hpath, -⟩ := asks_of_asked hi_asked_back
  have hordered : Ordered hiConns (hiUpload ++ hiDownload) := by
    intro i
    cases i with
    | false =>
      rw [hi_calls.1]
      exact List.prefix_rfl
    | true =>
      rw [hi_calls.2]
      exact List.prefix_rfl
  have hfree : Free (disk none none .closed .closed) (ascii "SD:/a") := by
    intro j
    cases j <;> exact nofun
  have hquiet : Undisturbed id hiConns (hiUpload ++ hiDownload) false (ascii "SD:/a") := by
    rintro j hj - ⟨s', d', path, hasks', hmethod', -⟩
    cases j with
    | false => exact hj rfl
    | true =>
      have hsame := Option.some.inj (hasks.symm.trans hasks')
      cases hsame
      rw [hmethod] at hmethod'
      revert hmethod'
      decide
  exact put_read_back id hordered hi_uploaded hi_downloaded hfree (asks_of_asked hi_asked)
    (by decide +kernel : (hiConns false).reply =
      some (.simple ⟨201, "Created", "text/plain", []⟩)) (Or.inl rfl) rfl
    hi_calls.1.symm ⟨s, d, hasks, hmethod, hpath⟩ rfl hi_calls.2.symm (by decide) hquiet

def twoConns (second : Bool) : Connection where
  answers := obliging
  turns := 1
  socket := atOnce (if second then ascii "PUT /b HTTP/1.1" ++ crlf ++ ascii "Content-Length: 2" ++
    crlfcrlf ++ ascii "hi" else putHi)
  method _ := 0
  path _ := 0
  recvBuf _ := 0

def twoPaths (second : Bool) : List UInt8 := if second then ascii "SD:/b" else ascii "SD:/a"

def twoUploads : List (Bool × WorkerCall) :=
  [(false, .dav (.stat (ascii "SD:/a") .frNoFile)), (true, .dav (.stat (ascii "SD:/b") .frNoFile)),
    (false, .dav (.card (.openWrite (ascii "SD:/a") .frOk))),
    (true, .dav (.card (.openWrite (ascii "SD:/b") .frOk))),
    (true, .dav (.card (.write (ascii "hi") .frOk 2))),
    (false, .dav (.card (.write (ascii "hi") .frOk 2))), (false, .dav (.close .frOk)),
    (true, .dav (.close .frOk))]

theorem two_calls (i : Bool) : own i twoUploads = (twoConns i).calls := by
  cases i <;> decide +kernel

theorem two_asked (i : Bool) : asked (twoConns i) =
    some (true, ascii "PUT", some (twoPaths i), ascii "hi") := by
  cases i <;> decide +kernel

theorem two_uploaded : Steps (disk none none .closed .closed) (ops id twoConns twoUploads)
    (disk (some (ascii "hi")) (some (ascii "hi")) .closed .closed) := by
  refine ⟨disk none none .closed .closed, disk_first ⟨rfl, rfl, nofun⟩ rfl,
    disk none none .closed .closed, disk_second ⟨rfl, rfl, nofun⟩ rfl,
    disk (some []) none (.writing (ascii "SD:/a") []) .closed,
    disk_first ⟨disk_off_a, rfl, fun _ => rfl⟩ rfl,
    disk (some []) (some []) (.writing (ascii "SD:/a") []) (.writing (ascii "SD:/b") []),
    disk_second ⟨disk_off_b, rfl, fun _ => rfl⟩ rfl,
    disk (some []) (some []) (.writing (ascii "SD:/a") []) (.writing (ascii "SD:/b") (ascii "hi")),
    disk_second ⟨fun _ _ => rfl, rfl, appended _ _⟩ rfl,
    disk (some []) (some []) (.writing (ascii "SD:/a") (ascii "hi"))
      (.writing (ascii "SD:/b") (ascii "hi")),
    disk_first ⟨fun _ _ => rfl, rfl, appended _ _⟩ rfl,
    disk (some (ascii "hi")) (some []) .closed (.writing (ascii "SD:/b") (ascii "hi")),
    disk_first ⟨?_, rfl, ?_⟩ rfl, _, disk_second ⟨?_, rfl, ?_⟩ rfl, rfl⟩
  · intro path hpath
    exact @disk_off_a _ _ _ .closed .closed .closed .closed path
      (fun hp => hpath (by rw [hp]; rfl))
  · intro k bytes hbytes _
    cases hbytes
    rfl
  · intro path hpath
    exact @disk_off_b _ _ _ .closed .closed .closed .closed path
      (fun hp => hpath (by rw [hp]; rfl))
  · intro k bytes hbytes _
    cases hbytes
    rfl

theorem puts_apart_two :
    (∀ i r, (twoConns i).reply = some (.simple r) → Reported r →
        (twoConns i).answers.put.closeResult = .frOk → own i twoUploads = (twoConns i).calls →
        (disk (some (ascii "hi")) (some (ascii "hi")) .closed .closed).entries (id (twoPaths i)) =
          some (.file (ascii "hi"))) ∧
      ∀ k old, (∀ i, id (twoPaths i) ≠ k) →
        (disk none none .closed .closed).entries k = some (.file old) →
        (disk (some (ascii "hi")) (some (ascii "hi")) .closed .closed).entries k =
          some (.file old) := by
  have hordered : Ordered twoConns twoUploads := fun i => by rw [two_calls]
  have hfree : ∀ k, Free (disk none none .closed .closed) k := by
    intro k j
    cases j <;> exact nofun
  refine @puts_apart _ _ _ _ id _ _ _ _ _ (fun _ => ascii "hi") hordered two_uploaded hfree
    (fun i => asks_of_asked (two_asked i)) ?_
  intro i j
  cases i <;> cases j <;> decide

end RapiBootloader.WebDavReadBack
