import Mathlib.Data.List.Basic

namespace RapiBootloader.Lib.Volumes

variable {A K B : Type} [DecidableEq K]

inductive Entry (B : Type)
  | file (bytes : List B)
  | directory

def Entry.info : Entry B → Bool × Nat
  | .file bytes => (false, bytes.length)
  | .directory => (true, 0)

/-- What a user of the volume has open. A writer is `lost`, and a reader `stale`, once somebody
else has created or removed its file. -/
inductive Handle (K B : Type)
  | closed
  | writing (k : K) (bytes : List B)
  | lost (k : K)
  | reading (k : K) (bytes : List B) (pos : Nat)
  | stale

def Handle.target : Handle K B → Option K
  | .writing k _ => some k
  | .lost k => some k
  | _ => none

def Handle.spoil (k : K) : Handle K B → Handle K B
  | .writing j bytes => if j = k then .lost j else .writing j bytes
  | .reading j bytes pos => if j = k then .stale else .reading j bytes pos
  | h => h

structure Volume (A K B : Type) where
  entries : K → Option (Entry B)
  handles : A → Handle K B

inductive Op (K B : Type)
  | look (k : K) (seen : Option (Bool × Nat))
  | create (k : K) (ok : Bool)
  | append (bytes : List B) (ok : Bool)
  | openRead (k : K) (ok : Bool)
  | read (count : Nat) (bytes : List B) (ok : Bool)
  | shut (ok : Bool)
  | remove (k : K)
  | makeDir (k : K)
  | other

def Op.Changes (k : K) : Op K B → Prop
  | .create j _ => j = k
  | .remove j => j = k
  | _ => False

/-- What a call does to the handles of the others. -/
def Op.spoils : Op K B → Handle K B → Handle K B
  | .create k _, h => h.spoil k
  | .remove k, h => h.spoil k
  | _, h => h

def Off (k : K) (m m' : K → Option (Entry B)) : Prop := ∀ j, j ≠ k → m' j = m j

def Within (h : Handle K B) (m m' : K → Option (Entry B)) : Prop :=
  ∀ j, h.target ≠ some j → m' j = m j

/-- What a volume promises of each call for the entries and the caller's handle. It promises little
when a call fails, and nothing of a file that is open twice while it is written. -/
def Effect (busy : K → Prop) (m : K → Option (Entry B)) (h : Handle K B) (op : Op K B)
    (m' : K → Option (Entry B)) (h' : Handle K B) : Prop :=
  match op with
  | .look k seen => m' = m ∧ h' = h ∧ ∀ info, seen = some info → (m k).map Entry.info = some info
  | .create k ok => Off k m m' ∧
      if ok then h'.target = some k ∧ (¬ busy k → h' = .writing k []) else h' = h
  | .append bytes ok => Within h m m' ∧ h'.target = h.target ∧
      ∀ k old, h = .writing k old → ok = true → h' = .writing k (old ++ bytes)
  | .openRead k ok => m' = m ∧
      if ok then ∃ bytes, m k = some (.file bytes) ∧ h' = .reading k bytes 0 else h' = h
  | .read count bytes ok => m' = m ∧ h'.target = h.target ∧
      ∀ k c pos, h = .reading k c pos → ok = true → m k = some (.file c) →
        bytes = (c.drop pos).take count ∧ h' = .reading k c (pos + bytes.length)
  | .shut ok => Within h m m' ∧ h' = .closed ∧
      ∀ k bytes, h = .writing k bytes → ok = true → m' k = some (.file bytes)
  | .remove k => Off k m m' ∧ h' = h.spoil k
  | .makeDir k => Off k m m' ∧ (m' k = m k ∨ m k = none ∧ m' k = some .directory) ∧ h' = h
  | .other => m' = m ∧ h' = h

structure Step (v : Volume A K B) (i : A) (op : Op K B) (v' : Volume A K B) : Prop where
  effect : Effect (fun k => ∃ j, j ≠ i ∧ (v.handles j).target = some k) v.entries (v.handles i) op
    v'.entries (v'.handles i)
  others : ∀ j, j ≠ i → v'.handles j = op.spoils (v.handles j)

def Steps (v : Volume A K B) : List (A × Op K B) → Volume A K B → Prop
  | [], v' => v' = v
  | (i, op) :: calls, v' => ∃ u, Step v i op u ∧ Steps u calls v'

def own [DecidableEq A] {O : Type} (i : A) (calls : List (A × O)) : List O :=
  (calls.filter (·.1 = i)).map Prod.snd

def Free (v : Volume A K B) (k : K) : Prop := ∀ j, (v.handles j).target ≠ some k

structure Rests (v : Volume A K B) (k : K) (bytes : List B) : Prop where
  entry : v.entries k = some (.file bytes)
  free : Free v k

structure Alone (v : Volume A K B) (i : A) (k : K) (bytes : List B) : Prop where
  mine : v.handles i = .writing k bytes
  free : ∀ j, j ≠ i → (v.handles j).target ≠ some k

def Slices (c : List B) : Nat → List (Nat × List B) → Prop
  | _, [] => True
  | pos, (count, bytes) :: reads =>
    bytes = (c.drop pos).take count ∧ Slices c (pos + bytes.length) reads

theorem spoil_target (k : K) (h : Handle K B) : (h.spoil k).target = h.target := by
  cases h with
  | writing j bytes =>
    rw [Handle.spoil]
    split <;> rfl
  | reading j bytes pos =>
    rw [Handle.spoil]
    split <;> rfl
  | _ => rfl

theorem spoils_target (op : Op K B) (h : Handle K B) : (op.spoils h).target = h.target := by
  cases op with
  | create k ok => exact spoil_target k h
  | remove k => exact spoil_target k h
  | _ => rfl

theorem spoils_writing {op : Op K B} {k : K} (h : ¬ op.Changes k) (bytes : List B) :
    op.spoils (.writing k bytes) = .writing k bytes := by
  cases op with
  | create j ok => exact if_neg (Ne.symm h)
  | remove j => exact if_neg (Ne.symm h)
  | _ => rfl

theorem spoils_reading {op : Op K B} {k : K} (h : ¬ op.Changes k) (bytes : List B) (pos : Nat) :
    op.spoils (.reading k bytes pos) = .reading k bytes pos := by
  cases op with
  | create j ok => exact if_neg (Ne.symm h)
  | remove j => exact if_neg (Ne.symm h)
  | _ => rfl

section
variable {v v' : Volume A K B} {i : A} {op : Op K B} {k : K}

theorem Step.entry (h : Step v i op v') (hop : ¬ op.Changes k)
    (hmine : (v.handles i).target ≠ some k) {e : Entry B} (he : v.entries k = some e) :
    v'.entries k = some e := by
  have heffect := h.effect
  rw [← he]
  cases op with
  | create j ok => exact heffect.1 k (Ne.symm hop)
  | remove j => exact heffect.1 k (Ne.symm hop)
  | append bytes ok => exact heffect.1 k hmine
  | shut ok => exact heffect.1 k hmine
  | makeDir j =>
    obtain ⟨hoff, hsame | ⟨hnone, -⟩, -⟩ := heffect
    · by_cases hjk : k = j
      · rw [hjk, hsame]
      · exact hoff k hjk
    · by_cases hjk : k = j
      · rw [← hjk, he] at hnone
        cases hnone
      · exact hoff k hjk
  | look j seen => rw [heffect.1]
  | openRead j ok => rw [heffect.1]
  | read count bytes ok => rw [heffect.1]
  | other => rw [heffect.1]

theorem Step.target (h : Step v i op v') (hop : ¬ op.Changes k) {j : A}
    (hj : (v.handles j).target ≠ some k) : (v'.handles j).target ≠ some k := by
  have heffect := h.effect
  by_cases hij : j = i
  · subst hij
    cases op with
    | create l ok =>
      cases ok with
      | false =>
        have hsame : v'.handles j = v.handles j := heffect.2
        rwa [hsame]
      | true =>
        have hnew : (v'.handles j).target = some l := heffect.2.1
        rw [hnew]
        intro hl
        exact hop (Option.some.inj hl)
    | append bytes ok => rwa [heffect.2.1]
    | read count bytes ok => rwa [heffect.2.1]
    | look l seen => rwa [heffect.2.1]
    | shut ok =>
      rw [heffect.2.1]
      exact nofun
    | openRead l ok =>
      cases ok with
      | false =>
        have hsame : v'.handles j = v.handles j := heffect.2
        rwa [hsame]
      | true =>
        obtain ⟨bytes, -, hread⟩ := heffect.2
        rw [hread]
        exact nofun
    | remove l => rwa [heffect.2, spoil_target]
    | makeDir l => rwa [heffect.2.2]
    | other => rwa [heffect.2]
  · rwa [h.others j hij, spoils_target]

theorem Free.step (hfree : Free v k) (h : Step v i op v') (hop : ¬ op.Changes k) : Free v' k :=
  fun j => h.target hop (hfree j)

theorem Rests.step {bytes : List B} (hrests : Rests v k bytes) (h : Step v i op v')
    (hop : ¬ op.Changes k) : Rests v' k bytes :=
  ⟨h.entry hop (hrests.free i) hrests.entry, hrests.free.step h hop⟩

theorem Alone.other {bytes : List B} {j : A} (halone : Alone v j k bytes) (h : Step v i op v')
    (hij : i ≠ j) (hop : ¬ op.Changes k) : Alone v' j k bytes := by
  refine ⟨?_, fun l hl => h.target hop (halone.free l hl)⟩
  rw [h.others j (Ne.symm hij), halone.mine, spoils_writing hop]

theorem Alone.append {old bytes : List B} (halone : Alone v i k old)
    (h : Step v i (.append bytes true) v') : Alone v' i k (old ++ bytes) :=
  ⟨h.effect.2.2 k old halone.mine rfl,
    fun l hl => h.target (fun hop => hop) (halone.free l hl)⟩

theorem Alone.shut {bytes : List B} (halone : Alone v i k bytes) (h : Step v i (.shut true) v') :
    Rests v' k bytes := by
  refine ⟨h.effect.2.2 k bytes halone.mine rfl, fun j => ?_⟩
  by_cases hij : j = i
  · rw [hij, h.effect.2.1]
    exact nofun
  · exact h.target (fun hop => hop) (halone.free j hij)

theorem Free.create (hfree : Free v k) (h : Step v i (.create k true) v') : Alone v' i k [] := by
  have hbusy : ¬ ∃ j, j ≠ i ∧ (v.handles j).target = some k := by
    rintro ⟨j, -, hj⟩
    exact hfree j hj
  refine ⟨h.effect.2.2 hbusy, fun j hj => ?_⟩
  rw [h.others j hj, spoils_target]
  exact hfree j

end

section
variable {v v' : Volume A K B} {k : K} {calls : List (A × Op K B)}

theorem steps_append_iff {more : List (A × Op K B)} :
    Steps v (calls ++ more) v' ↔ ∃ u, Steps v calls u ∧ Steps u more v' := by
  induction calls generalizing v with
  | nil =>
    constructor
    · exact fun h => ⟨v, rfl, h⟩
    · rintro ⟨u, rfl, h⟩
      exact h
  | cons call calls ih =>
    constructor
    · rintro ⟨w, hstep, hrest⟩
      obtain ⟨u, hcalls, hmore⟩ := ih.mp hrest
      exact ⟨u, ⟨w, hstep, hcalls⟩, hmore⟩
    · rintro ⟨u, ⟨w, hstep, hcalls⟩, hmore⟩
      exact ⟨w, hstep, ih.mpr ⟨u, hcalls, hmore⟩⟩

theorem Rests.steps {bytes : List B} (hrests : Rests v k bytes) (h : Steps v calls v')
    (hquiet : ∀ call ∈ calls, ¬ call.2.Changes k) : Rests v' k bytes := by
  induction calls generalizing v with
  | nil =>
    cases h
    exact hrests
  | cons call calls ih =>
    obtain ⟨u, hstep, hrest⟩ := h
    obtain ⟨hcall, hcalls⟩ := List.forall_mem_cons.mp hquiet
    exact ih (hrests.step hstep hcall) hrest hcalls

theorem Rests.looks {bytes : List B} (hrests : Rests v k bytes) (h : Steps v calls v')
    (hquiet : ∀ call ∈ calls, ¬ call.2.Changes k) {i : A} {info : Bool × Nat}
    (hlook : (i, .look k (some info)) ∈ calls) : info = (false, bytes.length) := by
  induction calls generalizing v with
  | nil => cases hlook
  | cons call calls ih =>
    obtain ⟨u, hstep, hrest⟩ := h
    obtain ⟨hcall, hcalls⟩ := List.forall_mem_cons.mp hquiet
    obtain rfl | hlook := List.mem_cons.mp hlook
    · have hseen := hstep.effect.2.2 info rfl
      rw [hrests.entry, Option.map_some] at hseen
      exact (Option.some.inj hseen).symm
    · exact ih (hrests.step hstep hcall) hrest hcalls hlook

variable [DecidableEq A]

omit [DecidableEq K] in
theorem own_cons_self {O : Type} (i : A) (op : O) (calls : List (A × O)) :
    own i ((i, op) :: calls) = op :: own i calls := by
  rw [own, List.filter_cons_of_pos (by simp)]
  rfl

omit [DecidableEq K] in
theorem own_cons_other {O : Type} {i j : A} (h : i ≠ j) (op : O) (calls : List (A × O)) :
    own j ((i, op) :: calls) = own j calls := by
  rw [own, List.filter_cons_of_neg (by simpa using h)]
  rfl

omit [DecidableEq K] in
theorem own_map {O P : Type} (f : A → O → P) (i : A) (calls : List (A × O)) :
    own i (calls.map fun call => (call.1, f call.1 call.2)) = (own i calls).map (f i) := by
  induction calls with
  | nil => rfl
  | cons call calls ih =>
    obtain ⟨j, op⟩ := call
    rw [List.map_cons]
    by_cases hij : j = i
    · subst hij
      rw [own_cons_self, own_cons_self, ih, List.map_cons]
    · rw [own_cons_other hij, own_cons_other hij, ih]

omit [DecidableEq K] in
theorem own_append {O : Type} (i : A) (calls more : List (A × O)) :
    own i (calls ++ more) = own i calls ++ own i more := by
  rw [own, List.filter_append, List.map_append, own, own]

omit [DecidableEq K] in
theorem mem_of_own {O : Type} {i : A} {op : O} {calls : List (A × O)} (h : op ∈ own i calls) :
    (i, op) ∈ calls := by
  obtain ⟨⟨j, op'⟩, hmem, rfl⟩ := List.mem_map.mp h
  obtain ⟨hcall, hj⟩ := List.mem_filter.mp hmem
  rwa [← of_decide_eq_true hj]

omit [DecidableEq K] in
theorem own_of_mem {O : Type} {i : A} {op : O} {calls : List (A × O)} (h : (i, op) ∈ calls) :
    op ∈ own i calls :=
  List.mem_map.mpr ⟨(i, op), List.mem_filter.mpr ⟨h, decide_eq_true rfl⟩, rfl⟩

/-- The rest of an upload that has its file alone, in whatever order it takes turns with others. -/
theorem Alone.steps {i : A} {old : List B} {parts : List (List B)} (halone : Alone v i k old)
    (h : Steps v calls v') (hown : own i calls = parts.map (.append · true) ++ [.shut true])
    (hquiet : ∀ call ∈ calls, call.1 ≠ i → ¬ call.2.Changes k) :
    Rests v' k (old ++ parts.flatten) := by
  induction calls generalizing v old parts with
  | nil =>
    have hlen := congrArg List.length hown
    rw [List.length_append] at hlen
    exact absurd hlen (Nat.succ_ne_zero _).symm
  | cons call calls ih =>
    obtain ⟨j, op⟩ := call
    obtain ⟨u, hstep, hrest⟩ := h
    obtain ⟨hcall, hcalls⟩ := List.forall_mem_cons.mp hquiet
    by_cases hij : j = i
    · subst hij
      rw [own_cons_self] at hown
      cases parts with
      | nil =>
        obtain ⟨rfl, hnone⟩ := List.cons.inj hown
        rw [List.flatten_nil, List.append_nil]
        refine (halone.shut hstep).steps hrest fun call hmem => ?_
        by_cases hmine : call.1 = j
        · subst hmine
          have hempty := own_of_mem hmem
          rw [hnone] at hempty
          cases hempty
        · exact hcalls call hmem hmine
      | cons part parts =>
        obtain ⟨rfl, hparts⟩ := List.cons.inj hown
        rw [List.flatten_cons, ← List.append_assoc]
        exact ih (halone.append hstep) hrest hparts hcalls
    · rw [own_cons_other hij] at hown
      exact ih (halone.other hstep hij (hcall hij)) hrest hown hcalls

/-- A whole upload to a file that nobody else writes to, creates or removes meanwhile. -/
theorem upload_rests {i : A} {before : List (Op K B)} {parts : List (List B)} (hfree : Free v k)
    (h : Steps v calls v')
    (hown : own i calls =
      before ++ .create k true :: (parts.map (.append · true) ++ [.shut true]))
    (hbefore : ∀ op ∈ before, ¬ op.Changes k)
    (hquiet : ∀ call ∈ calls, call.1 ≠ i → ¬ call.2.Changes k) : Rests v' k parts.flatten := by
  induction calls generalizing v before with
  | nil =>
    have hlen := congrArg List.length hown
    rw [List.length_append] at hlen
    exact absurd hlen (Nat.succ_ne_zero _).symm
  | cons call calls ih =>
    obtain ⟨j, op⟩ := call
    obtain ⟨u, hstep, hrest⟩ := h
    obtain ⟨hcall, hcalls⟩ := List.forall_mem_cons.mp hquiet
    by_cases hij : j = i
    · subst hij
      rw [own_cons_self] at hown
      cases before with
      | nil =>
        obtain ⟨rfl, hparts⟩ := List.cons.inj hown
        exact (hfree.create hstep).steps hrest hparts hcalls
      | cons op' before =>
        obtain ⟨rfl, hparts⟩ := List.cons.inj hown
        obtain ⟨hop, hops⟩ := List.forall_mem_cons.mp hbefore
        exact ih (hfree.step hstep hop) hrest hparts hops hcalls
    · rw [own_cons_other hij] at hown
      exact ih (hfree.step hstep (hcall hij)) hrest hown hbefore hcalls

/-- Reads of a file that nobody creates or removes meanwhile. -/
theorem reads_slices {i : A} {bytes : List B} {pos : Nat} {reads : List (Nat × List B)}
    {after : List (Op K B)} (hrests : Rests v k bytes) (hmine : v.handles i = .reading k bytes pos)
    (h : Steps v calls v') (hown : own i calls = reads.map (fun r => .read r.1 r.2 true) ++ after)
    (hquiet : ∀ call ∈ calls, ¬ call.2.Changes k) : Slices bytes pos reads := by
  induction calls generalizing v pos reads with
  | nil =>
    cases reads with
    | nil => trivial
    | cons r reads => cases hown
  | cons call calls ih =>
    obtain ⟨j, op⟩ := call
    obtain ⟨u, hstep, hrest⟩ := h
    obtain ⟨hcall, hcalls⟩ := List.forall_mem_cons.mp hquiet
    by_cases hij : j = i
    · subst hij
      rw [own_cons_self] at hown
      cases reads with
      | nil => trivial
      | cons r reads =>
        obtain ⟨rfl, hreads⟩ := List.cons.inj hown
        obtain ⟨hslice, hnext⟩ := hstep.effect.2.2 k bytes pos hmine rfl hrests.entry
        exact ⟨hslice, ih (hrests.step hstep hcall) hnext hrest hreads hcalls⟩
    · rw [own_cons_other hij] at hown
      refine ih (hrests.step hstep hcall) ?_ hrest hown hcalls
      rw [hstep.others i (Ne.symm hij), hmine, spoils_reading hcall]

theorem slices_starts {c : List B} {pos : Nat} {reads : List (Nat × List B)}
    (h : Slices c pos reads) : reads.flatMap Prod.snd <+: c.drop pos ∧
      ((∃ r ∈ reads, r.2.length < r.1) → reads.flatMap Prod.snd = c.drop pos) := by
  induction reads generalizing pos with
  | nil => exact ⟨List.nil_prefix, fun ⟨_, hr, _⟩ => absurd hr List.not_mem_nil⟩
  | cons r reads ih =>
    obtain ⟨count, bytes⟩ := r
    obtain ⟨hbytes, hreads⟩ := h
    obtain ⟨hstart, hwhole⟩ := ih hreads
    have hsplit : c.drop pos = bytes ++ c.drop (pos + bytes.length) := by
      have hpre : bytes <+: c.drop pos := hbytes ▸ List.take_prefix count _
      rw [← List.drop_drop]
      exact (List.prefix_iff_eq_append.mp hpre).symm
    rw [List.flatMap_cons, hsplit]
    refine ⟨(List.prefix_append_right_inj bytes).mpr hstart, ?_⟩
    rintro ⟨r, hr, hshort⟩
    obtain rfl | hr := List.mem_cons.mp hr
    · have hall : c.drop (pos + bytes.length) = [] := by
        have hlen := congrArg List.length hbytes
        dsimp only at hshort
        rw [List.length_take, List.length_drop] at hlen
        exact List.drop_eq_nil_of_le (by omega)
      rw [hall] at hstart ⊢
      rw [List.prefix_nil.mp hstart]
    · rw [hwhole ⟨r, hr, hshort⟩]

/-- A download sees the file from its start, piece by piece. -/
theorem download_slices {i : A} {bytes : List B} {before after : List (Op K B)}
    {reads : List (Nat × List B)} (hrests : Rests v k bytes) (h : Steps v calls v')
    (hown : own i calls =
      before ++ .openRead k true :: (reads.map (fun r => .read r.1 r.2 true) ++ after))
    (hquiet : ∀ call ∈ calls, ¬ call.2.Changes k) : Slices bytes 0 reads := by
  induction calls generalizing v before with
  | nil =>
    have hlen := congrArg List.length hown
    rw [List.length_append] at hlen
    exact absurd hlen (Nat.succ_ne_zero _).symm
  | cons call calls ih =>
    obtain ⟨j, op⟩ := call
    obtain ⟨u, hstep, hrest⟩ := h
    obtain ⟨hcall, hcalls⟩ := List.forall_mem_cons.mp hquiet
    have hnext := hrests.step hstep hcall
    by_cases hij : j = i
    · subst hij
      rw [own_cons_self] at hown
      cases before with
      | nil =>
        obtain ⟨rfl, hreads⟩ := List.cons.inj hown
        obtain ⟨found, hfound, hmine⟩ := hstep.effect.2
        rw [hrests.entry] at hfound
        cases hfound
        exact reads_slices hnext hmine hrest hreads hcalls
      | cons op' before =>
        obtain ⟨rfl, hreads⟩ := List.cons.inj hown
        exact ih hnext hrest hreads hcalls
    · rw [own_cons_other hij] at hown
      exact ih hnext hrest hown hcalls

end

end RapiBootloader.Lib.Volumes
