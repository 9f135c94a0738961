import RapiBootloader.TftpDaemon

namespace RapiBootloader.TftpInject

open Lib.Memory Lib.Strings Lib.Run DefaultsBlock BootImage ChainBoot Card TftpServer TftpDaemon

def Injects (t : Transfer) : Prop := kindOf t.fileName = some .inject ∧ t.outcome = .completed

instance (t : Transfer) : Decidable (Injects t) := inferInstanceAs (Decidable (_ ∧ _))

/-- The text of the last completed inject push since the last boot attempt. The
newest transfer comes first. -/
def lastInject : List Transfer → Option (List UInt8)
  | [] => none
  | t :: ts =>
    if Boots t then none
    else if Injects t then some (trimNewlines t.data)
    else lastInject ts

def ArmedIs (s : Server) (armed : Option (List UInt8)) : Prop :=
  s.injectPending = armed.isSome ∧
    ∀ text ∈ armed, text.length ≤ defaultsBufferBytes - 1 ∧ Holds s.injectText 0 (text ++ [0])

def injecting : Phase → Bool
  | .receiving fileName _ | .closed fileName _ => kindOf fileName = some .inject
  | _ => false

/-- Between inject pushes the last completed one is armed and no other, and it is
what every completed kernel push is booted with. -/
def StampsInjected (t : Tftp) : Prop :=
  (injecting t.daemon.phase = false → ArmedIs t.server (lastInject t.daemon.finished)) ∧
    ∀ ev u, step t ev = some u → ∀ b ∈ (reply t ev).boot,
      b.defaults = (lastInject t.daemon.finished).map ofBytes

/-- The two ways an inject push that does not complete leaves its mark: the verdict
that comes behind `FileClose`, and a block that does not fit while another text
is armed. -/
def spoils (t : Tftp) (ev : Event) : Bool :=
  match t.daemon.phase, ev.1 with
  | .closed fileName data, .updateStatus .statusWriteAborted =>
    kindOf fileName = some .inject ∧ lastInject t.daemon.finished ≠ some (trimNewlines data)
  | .receiving fileName data, .fileWrite block =>
    kindOf fileName = some .inject ∧ defaultsBufferBytes - 1 < data.length + block.bytes.length ∧
      lastInject t.daemon.finished ≠ none
  | _, _ => false

def Arming (s : Server) (finished : List Transfer) : Phase → Prop
  | .receiving fileName _ =>
    if kindOf fileName = some .inject then s.injectPending = (lastInject finished).isSome
    else ArmedIs s (lastInject finished)
  | .closed fileName data =>
    ArmedIs s (if kindOf fileName = some .inject then some (trimNewlines data)
      else lastInject finished)
  | _ => ArmedIs s (lastInject finished)

def InStep (t : Tftp) : Prop :=
  Consistent t.server t.daemon.phase ∧ Arming t.server t.daemon.finished t.daemon.phase

theorem ArmedIs.same {s t : Server} {armed : Option (List UInt8)} (ha : ArmedIs s armed)
    (h : SameInject s t) : ArmedIs t armed := by
  obtain ⟨hp, -, ht⟩ := h
  simp only [ArmedIs]
  rwa [hp, ht]

theorem Arming.same {s t : Server} {finished : List Transfer} {phase : Phase}
    (ha : Arming s finished phase) (h : SameInject s t) : Arming t finished phase := by
  cases phase with
  | receiving fileName data =>
    by_cases hn : kindOf fileName = some .inject
    · simp only [Arming, if_pos hn] at ha ⊢
      exact h.injectPending.trans ha
    · simp only [Arming, if_neg hn] at ha ⊢
      exact ArmedIs.same ha h
  | _ => exact ArmedIs.same ha h

theorem arming_settled {s : Server} {finished : List Transfer} {phase : Phase}
    (h : injecting phase = false) : Arming s finished phase ↔ ArmedIs s (lastInject finished) := by
  cases phase with
  | receiving fileName data | closed fileName data =>
    have hn : kindOf fileName ≠ some .inject := by simpa [injecting] using h
    simp [Arming, hn]
  | _ => rfl

theorem injecting_free {phase : Phase} (h : phase.Free) : injecting phase = false := by
  cases phase with
  | receiving fileName data | closed fileName data =>
    have hn : kindOf fileName = some .sd := h
    simp [injecting, hn]
  | _ => rfl

theorem lastInject_cons_other {t : Transfer} (ts : List Transfer) (hb : ¬ Boots t)
    (hi : ¬ Injects t) : lastInject (t :: ts) = lastInject ts := by
  rw [lastInject, if_neg hb, if_neg hi]

theorem lastInject_cons_injects {t : Transfer} (ts : List Transfer) (hi : Injects t) :
    lastInject (t :: ts) = some (trimNewlines t.data) := by
  have hb : ¬ Boots t := by
    intro hb
    have := hi.1.symm.trans hb.1
    cases this
  rw [lastInject, if_neg hb, if_pos hi]

theorem length_trimNewlines_le (data : List UInt8) : (trimNewlines data).length ≤ data.length :=
  (List.rdropWhile_prefix isNewline data).length_le

theorem arming_finish {t u : Tftp} {ev : Event} {fileName data : List UInt8} {outcome : Outcome}
    (ha : Arming t.server t.daemon.finished t.daemon.phase) (hs : spoils t ev = false)
    (hp : match outcome with
      | .completed => t.daemon.phase = .closed fileName data ∧
          (kindOf fileName = some .kernel → data = [])
      | .aborted => t.daemon.phase = .closed fileName data
      | .refused => ∃ closed, t.daemon.phase = .refused fileName data closed)
    (he : ev.1 = .updateStatus
      (if outcome = .completed then .statusWriteCompleted else .statusWriteAborted))
    (hd : u.daemon = t.daemon.finish fileName data outcome) :
    ArmedIs t.server (lastInject u.daemon.finished) := by
  rw [hd, Daemon.finish]
  cases outcome with
  | completed =>
    obtain ⟨hp, hempty⟩ := hp
    have hboots : ¬ Boots ⟨fileName, data, .completed⟩ := fun hb => hb.2.2 (hempty hb.1)
    by_cases hn : kindOf fileName = some .inject
    · rw [lastInject_cons_injects _ ⟨hn, rfl⟩]
      simpa only [hp, Arming, if_pos hn] using ha
    · rw [lastInject_cons_other _ hboots (fun hj => hn hj.1)]
      simpa only [hp, Arming, if_neg hn] using ha
  | aborted =>
    rw [lastInject_cons_other _ (fun hb => by cases hb.2.1) (fun hj => by cases hj.2)]
    by_cases hn : kindOf fileName = some .inject
    · have hsame : lastInject t.daemon.finished = some (trimNewlines data) := by
        simpa [spoils, hp, he, hn] using hs
      rw [hsame]
      simpa only [hp, Arming, if_pos hn] using ha
    · simpa only [hp, Arming, if_neg hn] using ha
  | refused =>
    obtain ⟨closed, hp⟩ := hp
    rw [lastInject_cons_other _ (fun hb => by cases hb.2.1) (fun hj => by cases hj.2)]
    simpa only [hp, Arming] using ha

/-- One callback that does not spoil the armed text keeps it in step with the
transfers. -/
theorem step_arming {t u : Tftp} {ev : Event} (hc : Consistent t.server t.daemon.phase)
    (ha : Arming t.server t.daemon.finished t.daemon.phase) (hs : spoils t ev = false)
    (h : step t ev = some u) : Arming u.server u.daemon.finished u.daemon.phase := by
  have hm := (step_moves hc h).1
  generalize (reply t ev).boot = boot at hm
  cases hm with
  | quiet hk hi hf hp =>
    rw [hf]
    obtain hp | ⟨ht, hu⟩ := hp
    · rw [hp]
      exact ha.same hi
    · rw [arming_settled (injecting_free ht)] at ha
      rw [arming_settled (injecting_free hu)]
      exact ha.same hi
  | startInject fileName hn hp hd hk hi =>
    rw [hp] at ha
    simp only [hd, Arming, if_pos hn]
    exact hi.trans ha.1
  | startKernel fileName hn hp hd hi m hb hkeep hx =>
    rw [hp] at ha
    have hne : kindOf fileName ≠ some .inject := by simp [hn]
    simp only [hd, Arming, if_neg hne]
    exact ha.same hi
  | takeInject fileName data block he hn hp hd hsv =>
    have hpend : u.server.injectPending = t.server.injectPending := by
      rw [hsv, writeInject]
      split <;> rfl
    simp only [hp, hd, Arming, if_pos hn] at ha ⊢
    exact hpend.trans ha
  | takeKernel fileName data block he hn hp hd hsv =>
    have hsame : SameInject t.server u.server := by
      rw [hsv, writeKernel]
      split <;> exact ⟨rfl, rfl, rfl⟩
    have hne : kindOf fileName ≠ some .inject := by simp [hn]
    simp only [hp, hd, Arming, if_neg hne] at ha ⊢
    exact ha.same hsame
  | refuse fileName data block he hp hd hk hi hkernel hinject =>
    simp only [hp, hd, Arming] at ha ⊢
    refine ArmedIs.same ?_ hi
    by_cases hn : kindOf fileName = some .inject
    · have hnone : lastInject t.daemon.finished = none := by
        have hlong := hinject hn
        simpa [spoils, hp, he, hn, hlong] using hs
      rw [if_pos hn, hnone] at ha
      rw [hnone]
      exact ⟨ha, fun text ht => by cases ht⟩
    · rwa [if_neg hn] at ha
  | closeInject fileName data hn hp hd hk hi hl ht =>
    simp only [hd, Arming, if_pos hn]
    refine ⟨hi, fun text htext => ?_⟩
    cases htext
    exact ⟨(length_trimNewlines_le data).trans hl, ht⟩
  | closeKernel fileName data hn hp hd hb hx hi =>
    have hne : kindOf fileName ≠ some .inject := by simp [hn]
    simp only [hp, hd, Arming, if_neg hne] at ha ⊢
    exact ha.same hi
  | finish fileName data outcome he hd hp hb hx hi =>
    have hends := arming_finish ha hs (by cases outcome <;> exact hp) he hd
    have harmed := hends.same hi
    rw [hd] at harmed ⊢
    exact harmed
  | boot fileName data image he hn hp hne hd hm hsd b hb hu hx hi =>
    have hnone : lastInject u.daemon.finished = none := by
      rw [hd]
      exact if_pos ⟨hn, rfl, hne⟩
    have hidle : injecting u.daemon.phase = false := by rw [hd]; rfl
    rw [arming_settled hidle, hnone]
    exact ⟨hi, fun text ht => by cases ht⟩

theorem injectString_armed {s : Server} {armed : Option (List UInt8)} (h : ArmedIs s armed)
    (e : Env) : (if s.injectPending then some (injectString e s) else none) = armed.map ofBytes := by
  obtain ⟨hp, ht⟩ := h
  rw [hp]
  cases armed with
  | none => rfl
  | some text =>
    obtain ⟨hl, hh⟩ := ht text rfl
    have hlen : (text ++ [0]).length ≤ defaultsBufferBytes := by
      rw [List.length_append]
      exact Nat.add_le_add_right hl 1
    have hp : text ++ [0] <+: read s.injectText 0 defaultsBufferBytes ++ e.overrun :=
      (holds_take hh hlen).trans (List.prefix_append _ _)
    simp only [Option.isSome_some, if_true, Option.map_some, injectString, ofBytes_of_prefix hp]

theorem arming_stampsInjected {t : Tftp} (hc : Consistent t.server t.daemon.phase)
    (ha : Arming t.server t.daemon.finished t.daemon.phase) : StampsInjected t := by
  refine ⟨fun hi => (arming_settled hi).mp ha, fun ev u h b hb => ?_⟩
  have hm := (step_moves hc h).1
  generalize (reply t ev).boot = boot at hm hb
  cases hm with
  | boot fileName data image he hn hp hne hd hm hsd b' hb' hu hx hi =>
    have hne : kindOf fileName ≠ some .inject := by simp [hn]
    simp only [hp, Arming, if_neg hne] at ha
    cases hb
    rw [hb', boot_defaults, injectString_armed ha]
  | _ => cases hb

theorem stamps_what_was_injected (maxKernelSize : KernelMaxSize) (offset : Nat) (text : Mem UInt8)
    (evs : List Event) (t : Tftp)
    (hs : Along step (fun t ev => spoils t ev = false) (Tftp.init maxKernelSize offset text) evs)
    (hr : run step (Tftp.init maxKernelSize offset text) evs = some t) : StampsInjected t := by
  have hstart : ArmedIs (Tftp.init maxKernelSize offset text).server none :=
    ⟨rfl, fun text ht => by cases ht⟩
  have hinv : InStep t := run_invariant
    (fun t ev u hi hq hu => ⟨(step_moves hi.1 hu).2, step_arming hi.1 hi.2 hq hu⟩)
    (And.intro (consistent_init maxKernelSize offset text) hstart : InStep _) hs hr
  exact arming_stampsInjected hinv.1 hinv.2

def argString : Block := ⟨ascii "-v 1\n", by decide⟩

def textBlock : Block := ⟨ascii "-v 1", by decide⟩

def injectAndBoot (verdict : TStatus) : List Event :=
  push injectFileName argString verdict ++
    push (ascii "kernel.img") someKernel .statusWriteCompleted

theorem stamps_what_was_injected_run :
    ∃ t, run step (Tftp.init smallMax 0 (fun _ => 0)) (injectAndBoot .statusWriteCompleted) =
      some t ∧ StampsInjected t :=
  ⟨_, rfl, stamps_what_was_injected smallMax 0 (fun _ => 0) (injectAndBoot .statusWriteCompleted) _
    (by decide) rfl⟩

/-- An inject push that timed out arms what had come of it. -/
theorem aborted_inject_is_stamped :
    ¬ ∀ (maxKernelSize : KernelMaxSize) (offset : Nat) (text : Mem UInt8) (evs : List Event)
      (t : Tftp), run step (Tftp.init maxKernelSize offset text) evs = some t →
        StampsInjected t := by
  intro h
  have hall := h smallMax 0 (fun _ => 0) ((injectAndBoot .statusWriteAborted).take 7) _ rfl
  have hboot := hall.2 (.updateStatus .statusWriteCompleted, fineEnv) _ rfl _ rfl
  exact absurd (congrArg Option.isSome ((boot_defaults _ _ _).symm.trans hboot)) (by decide)

end RapiBootloader.TftpInject
