import RapiBootloader.TftpDaemon

namespace RapiBootloader.KernelPush

open Lib.Memory Lib.Strings Lib.Run BootImage ChainBoot TftpServer TftpDaemon

def takenBytes (t : Tftp) (ev : Event) : List UInt8 :=
  match ev.1 with
  | .fileWrite block => if (reply t ev).accepted then block.bytes else []
  | _ => []

/-- The blocks `FileWrite` takes in the course of these events, one behind the other. -/
def taken (t : Tftp) : List Event → List UInt8
  | [] => []
  | ev :: es => takenBytes t ev ++ ((step t ev).map (fun u => taken u es)).getD []

def Continues (t : Tftp) (ev : Event) : Prop :=
  match ev.1 with
  | .fileCreate _ | .fileOpen _ => False
  | .fileWrite _ => (reply t ev).accepted = true
  | _ => True

/-- The events end with a transfer that `FileCreate` has let in under this name and no
block of which was refused. Its data are the blocks taken since. -/
inductive Pushed (start : Tftp) (fileName : List UInt8) : List Event → Tftp → List UInt8 → Prop
  | mk {before during : List Event} {e : Env} {s u t : Tftp} (hb : run step start before = some s)
      (ha : (reply s (.fileCreate fileName, e)).accepted = true)
      (hs : step s (.fileCreate fileName, e) = some u) (hr : run step u during = some t)
      (hc : Along step Continues u during) :
      Pushed start fileName (before ++ (.fileCreate fileName, e) :: during) t (taken u during)

theorem taken_concat {u t v : Tftp} {es : List Event} {ev : Event} (h : run step u es = some t)
    (hs : step t ev = some v) : taken u (es ++ [ev]) = taken u es ++ takenBytes t ev := by
  induction es generalizing u with
  | nil =>
    cases h
    simp [taken, hs]
  | cons e es ih =>
    obtain ⟨w, hw, ht⟩ := run_cons_some.mp h
    simp [taken, hw, ih ht]

theorem Pushed.concat {start t u : Tftp} {fileName data : List UInt8} {es : List Event} {ev : Event}
    (h : Pushed start fileName es t data) (hs : step t ev = some u) (hc : Continues t ev) :
    Pushed start fileName (es ++ [ev]) u (data ++ takenBytes t ev) := by
  obtain ⟨hb, ha, hu, hr, hd⟩ := h
  rw [List.append_assoc, List.cons_append, ← taken_concat hr hs]
  refine .mk hb ha hu (run_concat hr hs) ((along_append hr).mpr ⟨hd, hc, fun _ _ => trivial⟩)

/-- The transfer the daemon has under way is the one the events end with. -/
def Traced (start : Tftp) (es : List Event) (t : Tftp) : Prop :=
  match t.daemon.phase with
  | .receiving fileName data | .closed fileName data => Pushed start fileName es t data
  | _ => True

theorem Pushed.pass {start t u : Tftp} {fileName data : List UInt8} {es : List Event} {ev : Event}
    (h : Pushed start fileName es t data) (hs : step t ev = some u) (hc : Continues t ev)
    (hn : takenBytes t ev = []) : Pushed start fileName (es ++ [ev]) u data := by
  have hp := h.concat hs hc
  rwa [hn, List.append_nil] at hp

theorem traced_step {start t u : Tftp} {es : List Event} {ev : Event}
    (hr : run step start es = some t) (h : Traced start es t) (hs : step t ev = some u) :
    Traced start (es ++ [ev]) u := by
  obtain ⟨hn, -⟩ := step_some hs
  obtain ⟨c, e⟩ := ev
  obtain ⟨s, phase, finished⟩ := t
  obtain ⟨s', d'⟩ := u
  simp only [Traced] at h ⊢
  cases phase with
  | idle =>
    cases c with
    | fileOpen fileName =>
      cases ha : (reply ⟨s, .idle, finished⟩ (.fileOpen fileName, e)).accepted
      all_goals
        rw [ha] at hn
        cases hn
        trivial
    | fileCreate fileName =>
      cases ha : (reply ⟨s, .idle, finished⟩ (.fileCreate fileName, e)).accepted
      · rw [ha] at hn
        cases hn
        trivial
      · rw [ha] at hn
        cases hn
        exact .mk hr ha hs rfl trivial
    | updateStatus status => cases status <;> cases hn; trivial
    | _ => cases hn
  | receiving fileName data =>
    cases c with
    | fileWrite block =>
      cases ha : (reply ⟨s, .receiving fileName data, finished⟩ (.fileWrite block, e)).accepted
      · rw [ha] at hn
        cases hn
        trivial
      · have hbytes : takenBytes ⟨s, .receiving fileName data, finished⟩ (.fileWrite block, e) =
            block.bytes := if_pos ha
        rw [ha] at hn
        cases hn
        have hp := h.concat hs ha
        rwa [hbytes] at hp
    | fileClose =>
      cases hn
      exact h.pass hs trivial rfl
    | updateStatus status =>
      cases status <;> cases hn
      exact h.pass hs trivial rfl
    | _ => cases hn
  | refused fileName data closed =>
    cases c with
    | fileClose => cases closed <;> cases hn; trivial
    | updateStatus status => cases closed <;> cases status <;> cases hn <;> trivial
    | _ => cases closed <;> cases hn
  | closed fileName data =>
    cases c with
    | updateStatus status =>
      cases status <;> cases hn
      · trivial
      · trivial
      · exact h.pass hs trivial rfl
    | _ => cases hn
  | sending failed =>
    cases c with
    | fileRead count => cases failed <;> cases hn; trivial
    | fileClose => cases failed <;> cases hn <;> trivial
    | updateStatus status => cases failed <;> cases status <;> cases hn <;> trivial
    | _ => cases failed <;> cases hn

/-- A call of `BootImageWithDefaults` comes with the verdict on a kernel push and gets the
bytes of that push. -/
def BootsPushed (start : Tftp) (es : List Event) (t : Tftp) (ev : Event) (b : Boot) : Prop :=
  ev.1 = .updateStatus .statusWriteCompleted ∧
    ∃ fileName data image, kindOf fileName = some .kernel ∧ Pushed start fileName es t data ∧
      t.server.kernelBuffer = some image ∧ t.server.currentOffset = data.length ∧
      read image 0 t.server.currentOffset = data ∧
      b = bootImageWithDefaults image t.server.currentOffset
        (if t.server.injectPending then some (injectString ev.2 t.server) else none)

/-- A transfer that ends leaves no kernel closed, and arms nothing but a completed push. -/
structure EndsWell (t : Tftp) (ev : Event) (u : Tftp) : Prop where
  idle : u.daemon.phase = .idle → u.server.kernelClosed = false
  finished : ∀ tr, u.daemon.finished = tr :: t.daemon.finished → u.server.kernelClosed = false
  unarmed : (∀ tr, u.daemon.finished = tr :: t.daemon.finished → ¬ Boots tr) →
    (reply t ev).boot = none

theorem moves_bootsPushed {start t u : Tftp} {es : List Event} {ev : Event} {b : Boot}
    {boot : Option Boot} (h : Traced start es t) (hm : Moves t ev u boot) (hboot : boot = some b) :
    BootsPushed start es t ev b := by
  cases hm with
  | boot fileName data image he hn hp hne hd hm hs _ hb hu hx hi =>
    simp only [Traced, hp] at h
    obtain ⟨ho, -, m, hbuf, hholds⟩ := hs
    rw [hm] at hbuf
    cases hbuf
    cases hboot
    refine ⟨he, fileName, data, image, hn, h, hm, ho, ?_, ?_⟩
    · rw [ho]
      exact hholds.read_eq
    · rw [hb, ho]
  | _ => cases hboot

theorem cons_ne_finished {tr : Transfer} {finished : List Transfer} : finished ≠ tr :: finished :=
  (List.cons_ne_self tr finished).symm

/-- A transfer gets into the account when the daemon goes back to idle. -/
theorem next_finished {d d' : Daemon} {c : Callback} {accepted : Bool} {tr : Transfer}
    (h : d.next c accepted = some d') (hf : d'.finished = tr :: d.finished) : d'.phase = .idle := by
  simp only [Daemon.next] at h
  split at h <;> cases h <;> first | rfl | exact absurd hf cons_ne_finished

theorem step_endsWell {t u : Tftp} {ev : Event} (hc : Consistent t.server t.daemon.phase)
    (hs : step t ev = some u) : EndsWell t ev u := by
  obtain ⟨hm, hcu⟩ := step_moves hc hs
  have hidle : u.daemon.phase = .idle → u.server.kernelClosed = false := by
    intro hp
    rw [hp] at hcu
    exact hcu.1
  refine ⟨hidle, fun tr htr => hidle (next_finished (step_some hs).1 htr), fun hno => ?_⟩
  generalize (reply t ev).boot = boot at hm
  cases hm with
  | boot fileName data image he hn hp hne hd =>
    exact absurd ⟨hn, rfl, hne⟩ (hno ⟨fileName, data, .completed⟩ (by rw [hd]; rfl))
  | _ => rfl

/-- In every run of transfers in daemon order only the verdict on a completed kernel push
arms, with the bytes of that push and no others, and no transfer that ends leaves the
kernel closed. -/
theorem only_completed_pushes_arm (maxKernelSize : KernelMaxSize) (offset : Nat) (text : Mem UInt8)
    (es : List Event) (t u : Tftp) (ev : Event)
    (hr : run step (Tftp.init maxKernelSize offset text) es = some t) (hs : step t ev = some u) :
    (∀ b, (reply t ev).boot = some b →
      BootsPushed (Tftp.init maxKernelSize offset text) es t ev b) ∧ EndsWell t ev u := by
  have hc : Consistent t.server t.daemon.phase := run_invariant_all
    (I := fun t => Consistent t.server t.daemon.phase)
    (fun t ev u hc hu => (step_moves hc hu).2) (consistent_init maxKernelSize offset text) hr
  have hstart : Traced (Tftp.init maxKernelSize offset text) []
      (Tftp.init maxKernelSize offset text) := trivial
  have ht := run_history (fun es t ev u hrun h hu => traced_step hrun h hu) hstart hr
  refine ⟨fun b hb => ?_, step_endsWell hc hs⟩
  exact moves_bootsPushed ht (step_moves hc hs).1 hb

def retriedPush : List Event :=
  push (ascii "kernel8.img") ⟨[1, 2, 3, 4, 5], by decide⟩ .statusWriteAborted ++
    (push (ascii "kernel.img") someKernel .statusWriteCompleted).take 3

theorem only_completed_pushes_arm_run :
    ∃ t u b, run step (Tftp.init smallMax 0 (fun _ => 0)) retriedPush = some t ∧
      step t (.updateStatus .statusWriteCompleted, fineEnv) = some u ∧
      (reply t (.updateStatus .statusWriteCompleted, fineEnv)).boot = some b ∧
      BootsPushed (Tftp.init smallMax 0 (fun _ => 0)) retriedPush t
        (.updateStatus .statusWriteCompleted, fineEnv) b :=
  ⟨_, _, _, rfl, rfl, rfl, (only_completed_pushes_arm smallMax 0 (fun _ => 0) retriedPush _ _
    (.updateStatus .statusWriteCompleted, fineEnv) rfl rfl).1 _ rfl⟩

end RapiBootloader.KernelPush
