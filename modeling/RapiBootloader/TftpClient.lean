import RapiBootloader.TftpInject

namespace RapiBootloader.TftpClient

open Lib.Memory Lib.Strings DefaultsBlock BootImage ChainBoot Card TftpServer TftpDaemon TftpInject

def writeAll (e : Env) (blocks : List Block) (s : Server) : Bool × Server :=
  feed (blocks.map fun block => (e, block)) s

theorem writeAll_cons (e : Env) (block : Block) (blocks : List Block) (s : Server) :
    writeAll e (block :: blocks) s =
      if 0 ≤ (fileWrite e block s).1 then writeAll e blocks (fileWrite e block s).2
      else (false, (fileWrite e block s).2) := rfl

/-- A whole push as the daemon carries it out. Behind a refused block `closes` tells
whether it calls `FileClose`. -/
def transfer (closes : Bool) (e : Env) (fileName : List UInt8) (blocks : List Block)
    (s : Server) : Option Boot × Server :=
  if !(fileCreate e fileName s).1 then (none, (fileCreate e fileName s).2)
  else
    let w := writeAll e blocks (fileCreate e fileName s).2
    if w.1 then updateStatus e .statusWriteCompleted (fileClose e w.2).2
    else updateStatus e .statusWriteAborted (if closes then (fileClose e w.2).2 else w.2)

def bytesOf (blocks : List Block) : List UInt8 := (blocks.map Block.bytes).flatten

theorem bytesOf_cons (block : Block) (blocks : List Block) :
    bytesOf (block :: blocks) = block.bytes ++ bytesOf blocks := rfl

structure AfterInject (s t : Server) (text : List UInt8) : Prop where
  same : SameKernel s t
  pending : t.injectPending = s.injectPending
  done : if text.length ≤ defaultsBufferBytes - 1 then t.mode = .modeInject ∧ Filled t text
    else t.mode = .modeNone

theorem writeAll_inject (e : Env) (blocks : List Block) (s : Server) (data : List UInt8)
    (hm : s.mode = .modeInject) (hf : Filled s data) :
    AfterInject s (writeAll e blocks s).2 (data ++ bytesOf blocks) ∧
      (writeAll e blocks s).1 =
        decide ((data ++ bytesOf blocks).length ≤ defaultsBufferBytes - 1) := by
  induction blocks generalizing s data with
  | nil =>
    have hnil : data ++ bytesOf [] = data := List.append_nil data
    rw [hnil]
    refine ⟨⟨sameKernel_refl s, rfl, ?_⟩, (decide_eq_true hf.fits).symm⟩
    rw [if_pos hf.fits]
    exact ⟨hm, hf⟩
  | cons block blocks ih =>
    have hw : fileWrite e block s = writeInject block s := by rw [fileWrite, hm]
    rw [writeAll_cons, hw, bytesOf_cons, ← List.append_assoc]
    by_cases hfit : s.injectFill + block.bytes.length ≤ defaultsBufferBytes - 1
    · obtain ⟨hok, hmode, hpend, hsame⟩ := writeInject_fits hfit
      obtain ⟨⟨hk, hp, hd⟩, hrest⟩ := ih (writeInject block s).2 (data ++ block.bytes)
        (hmode.trans hm) (hf.take block hfit)
      rw [if_pos hok]
      exact ⟨⟨hsame.trans hk, hp.trans hpend, hd⟩, hrest⟩
    · have hout : writeInject block s = (-1, { s with mode := .modeNone }) :=
        if_pos (Nat.lt_of_not_le hfit)
      have hlong : ¬ (data ++ block.bytes ++ bytesOf blocks).length ≤ defaultsBufferBytes - 1 := by
        rw [List.length_append, List.length_append, ← hf.fill]
        omega
      have hneg : ¬ (0 : Int) ≤ -1 := by decide
      rw [hout, decide_eq_false hlong]
      dsimp only
      rw [if_neg hneg]
      refine ⟨⟨⟨rfl, rfl, rfl, rfl⟩, rfl, ?_⟩, rfl⟩
      rw [if_neg hlong]

theorem writeAll_kernel (e : Env) (blocks : List Block) (s : Server) (data : List UInt8)
    (hm : s.mode = .modeKernel) (hs : Staged s data)
    (hfit : (data ++ bytesOf blocks).length ≤ s.maxKernelSize.bytes) :
    (writeAll e blocks s).1 = true ∧ (writeAll e blocks s).2.mode = .modeKernel ∧
      SameInject s (writeAll e blocks s).2 ∧
      Staged (writeAll e blocks s).2 (data ++ bytesOf blocks) := by
  induction blocks generalizing s data with
  | nil =>
    have hnil : data ++ bytesOf [] = data := List.append_nil data
    rw [hnil]
    exact ⟨rfl, hm, sameInject_refl s, hs⟩
  | cons block blocks ih =>
    have hw : fileWrite e block s = writeKernel block s := by rw [fileWrite, hm]
    rw [bytesOf_cons, ← List.append_assoc] at hfit ⊢
    have hblock : (s.currentOffset + block.bytes.length) % 0x100000000 ≤ s.maxKernelSize.bytes := by
      rw [hs.offset_add block]
      rw [List.length_append, List.length_append] at hfit
      omega
    obtain ⟨htaken, hmode, -, hmax, hsame⟩ := writeKernel_fits hblock
    obtain ⟨hok, hmd, hi, hst⟩ := ih (writeKernel block s).2 (data ++ block.bytes)
      (hmode.trans hm) (hs.take block hblock) (hmax ▸ hfit)
    rw [writeAll_cons, hw, if_pos htaken]
    exact ⟨hok, hmd, hsame.trans hi, hst⟩

structure Ready (s : Server) : Prop where
  mode : s.mode = .modeNone
  kernelClosed : s.kernelClosed = false

/-- An inject push of any blocks arms the whole text, or nothing if it is too long. -/
theorem transfer_inject (closes : Bool) (e : Env) (blocks : List Block) (s : Server)
    (hr : Ready s) (hp : s.injectPending = false) :
    let t := (transfer closes e injectFileName blocks s).2
    Ready t ∧ SameKernel s t ∧
      ArmedIs t (if (bytesOf blocks).length ≤ defaultsBufferBytes - 1 then
        some (trimNewlines (bytesOf blocks)) else none) := by
  have hcreate : fileCreate e injectFileName s =
      (true, { s with
        injectFill := 0
        injectText := write s.injectText 0 [0]
        mode := .modeInject }) := by
    rw [fileCreate, if_neg (not_not.mpr hr.mode), if_pos rfl]
  rw [transfer, hcreate]
  dsimp only
  generalize hs' : ({ s with
    injectFill := 0
    injectText := write s.injectText 0 [0]
    mode := .modeInject } : Server) = s'
  have hmode : s'.mode = .modeInject := by rw [← hs']
  have hfill : Filled s' [] := by
    rw [← hs']
    exact ⟨rfl, Nat.zero_le _, fun i hi => absurd hi (Nat.not_lt_zero i)⟩
  have hsame : SameKernel s s' := by
    rw [← hs']
    exact ⟨rfl, rfl, rfl, rfl⟩
  have hpend : s'.injectPending = false := by
    rw [← hs']
    exact hp
  obtain ⟨⟨hk, hpw, hd⟩, hok⟩ := writeAll_inject e blocks s' [] hmode hfill
  rw [List.nil_append] at hd hok
  generalize writeAll e blocks s' = w at hk hpw hd hok
  obtain ⟨ok, t⟩ := w
  dsimp only at hk hpw hd hok ⊢
  have hkt := hsame.trans hk
  have hopen := hkt.kernelClosed.trans hr.kernelClosed
  rw [hok]
  by_cases hfit : (bytesOf blocks).length ≤ defaultsBufferBytes - 1
  · rw [if_pos hfit] at hd ⊢
    rw [Bool.not_true, if_neg Bool.false_ne_true, decide_eq_true hfit, if_pos rfl]
    obtain ⟨hm, hf⟩ := hd
    have hclosed := hf.closed
    have hclose : (fileClose e t).2.kernelClosed = false := by
      simp only [fileClose, hm]
      exact hopen
    rw [updateStatus_open e _ hclose]
    simp only [fileClose, hm]
    refine ⟨⟨rfl, hopen⟩, ⟨hkt.1, hkt.2, hkt.3, hkt.4⟩, rfl, fun text ht => ?_⟩
    cases ht
    exact ⟨(length_trimNewlines_le _).trans hfit, hclosed⟩
  · rw [if_neg hfit] at hd ⊢
    rw [Bool.not_true, if_neg Bool.false_ne_true, decide_eq_false hfit, if_neg Bool.false_ne_true]
    have hnone : ArmedIs t none := ⟨hpw.trans hpend, fun text ht => by cases ht⟩
    cases closes with
    | false =>
      rw [if_neg Bool.false_ne_true, updateStatus_open e _ hopen]
      exact ⟨⟨hd, hopen⟩, hkt, hnone⟩
    | true =>
      have hclose : fileClose e t = (true, t) := by
        rw [fileClose]
        simp only [hd]
        rw [← hd]
      rw [if_pos rfl, hclose, updateStatus_open e _ hopen]
      exact ⟨⟨hd, hopen⟩, hkt, hnone⟩

def canStage (e : Env) (s : Server) : Bool :=
  s.kernelBuffer.isSome || (stageAlloc e.memory s.maxKernelSize.bytes).isSome

theorem kindOf_kernel {fileName : List UInt8} (h : kindOf fileName = some .kernel) :
    fileName ≠ injectFileName ∧ mapSDPath fileName = none ∧ isKernelName fileName := by
  simp only [kindOf] at h
  split at h
  · cases h
  · rename_i hi
    split at h
    · cases h
    · rename_i hp
      split at h
      · rename_i hk
        exact ⟨hi, by simpa using hp, hk⟩
      · cases h

theorem fileCreate_kernel (e : Env) {fileName : List UInt8} {s : Server}
    (hn : kindOf fileName = some .kernel) (hm : s.mode = .modeNone) :
    (canStage e s = false ∧ (fileCreate e fileName s).1 = false) ∨
    (canStage e s = true ∧ ∃ m, fileCreate e fileName s =
      (true, { s with
        kernelBuffer := some m
        currentOffset := 0
        kernelHash := fnvOffsetBasis
        mode := .modeKernel })) := by
  obtain ⟨hi, hp, hk⟩ := kindOf_kernel hn
  rw [fileCreate, if_neg (not_not.mpr hm), if_neg hi, hp]
  dsimp only
  rw [if_neg (not_not.mpr hk)]
  cases hb : s.kernelBuffer with
  | some m =>
    refine Or.inr ⟨by rw [canStage, hb]; rfl, m, rfl⟩
  | none =>
    cases hs : stageAlloc e.memory s.maxKernelSize.bytes with
    | none => exact Or.inl ⟨by rw [canStage, hb, hs]; rfl, rfl⟩
    | some m => exact Or.inr ⟨by rw [canStage, hb, hs]; rfl, m, rfl⟩

/-- A kernel push of any blocks boots the image with what is armed, if there is an
image and a buffer for it. -/
theorem transfer_kernel (closes : Bool) (e : Env) (fileName : List UInt8) (blocks : List Block)
    (s : Server) (armed : Option (List UInt8)) (hn : kindOf fileName = some .kernel)
    (hr : Ready s) (ha : ArmedIs s armed)
    (hfit : (bytesOf blocks).length ≤ s.maxKernelSize.bytes) :
    ((bytesOf blocks = [] ∨ canStage e s = false) ∧
      (transfer closes e fileName blocks s).1 = none) ∨
    ((bytesOf blocks ≠ [] ∧ canStage e s = true) ∧ ∃ m, Holds m 0 (bytesOf blocks) ∧
      (transfer closes e fileName blocks s).1 =
        some (bootImageWithDefaults m (bytesOf blocks).length (armed.map ofBytes))) := by
  obtain ⟨hcs, hcreate⟩ | ⟨hcs, m, hcreate⟩ := fileCreate_kernel e hn hr.mode
  · refine Or.inl ⟨Or.inr hcs, ?_⟩
    rw [transfer, hcreate]
    rfl
  · rw [transfer, hcreate]
    dsimp only
    generalize hs' : ({ s with
      kernelBuffer := some m
      currentOffset := 0
      kernelHash := fnvOffsetBasis
      mode := .modeKernel } : Server) = s'
    have hmode : s'.mode = .modeKernel := by rw [← hs']
    have hmax : s'.maxKernelSize = s.maxKernelSize := by rw [← hs']
    have hst : Staged s' [] := by
      rw [← hs']
      exact ⟨rfl, Nat.zero_le _, m, rfl, fun i hi => absurd hi (Nat.not_lt_zero i)⟩
    have ha' : ArmedIs s' armed := by
      rw [← hs']
      exact ha
    obtain ⟨hok, hmt, hi, hstt⟩ := writeAll_kernel e blocks s' [] hmode hst (by
      rw [List.nil_append, hmax]
      exact hfit)
    rw [List.nil_append] at hstt
    rw [Bool.not_true, if_neg Bool.false_ne_true, hok, if_pos rfl]
    generalize (writeAll e blocks s').2 = t at hmt hi hstt
    have hclosed : (fileClose e t).2.kernelClosed = decide (bytesOf blocks ≠ []) := by
      simp only [fileClose, hmt, hstt.offset, gt_iff_lt, List.length_pos_iff]
    by_cases hempty : bytesOf blocks = []
    · refine Or.inl ⟨Or.inl hempty, ?_⟩
      rw [updateStatus_open e _ (hclosed.trans (decide_eq_false (not_not.mpr hempty)))]
    · refine Or.inr ⟨⟨hempty, hcs⟩, ?_⟩
      obtain ⟨ho, -, n, hn', hh⟩ := hstt
      refine ⟨n, hh, ?_⟩
      have hbuf : (fileClose e t).2.kernelBuffer = some n := by simp only [fileClose, hmt, hn']
      have hoff : (fileClose e t).2.currentOffset = (bytesOf blocks).length := by
        simp only [fileClose, hmt, ho]
      have harm : ArmedIs (fileClose e t).2 armed := by
        simp only [fileClose, hmt]
        have hat := ha'.same hi
        exact ⟨hat.1, hat.2⟩
      simp only [updateStatus, hclosed.trans (decide_eq_true hempty), hbuf, hoff,
        injectString_armed harm e, Bool.not_true, Bool.false_eq_true, if_false]

end RapiBootloader.TftpClient
