import RapiBootloader.BootSelection

namespace RapiBootloader.WholeKernel

open Lib.Memory Lib.Strings DefaultsBlock BootImage ChainBoot Card BootMenu BootSelection

/-- `size_t` on the boards of 32 and of 64 bits. -/
inductive SizeT
  | bits32
  | bits64

def SizeT.range : SizeT → Nat
  | .bits32 => 0x100000000
  | .bits64 => 0x10000000000000000

def SizeT.cast (w : SizeT) (n : Nat) : Nat := n % w.range

structure ReadCall where
  offset : Nat
  asked : Nat
  result : FResult
  nRead : Nat
deriving DecidableEq, Repr

structure LoopEnd where
  readOk : Bool
  offset : Nat
  buffer : Mem UInt8
  reads : List ReadCall

/-- The loop of `BootSelection` with the types of its variables, from its `call`-th read on. It has
no result while it has not ended. -/
def readLoop (w : SizeT) (s : Selection) (nSize : Nat) :
    Nat → Nat → Nat → Mem UInt8 → Option LoopEnd
  | 0, _, _, _ => none
  | turns + 1, call, nOffset, buffer =>
    if nOffset < w.cast nSize then
      let nChunk := w.cast nSize - nOffset
      let nChunk := if nChunk > chunkBytes then chunkBytes else nChunk
      let asked := nChunk % 0x100000000
      let nRead := min (s.reads call).2 asked
      let buffer := write buffer nOffset ((s.kernel.drop nOffset).take nRead)
      let read : ReadCall := ⟨nOffset, asked, (s.reads call).1, nRead⟩
      if (s.reads call).1 ≠ .frOk ∨ nRead = 0 then some ⟨false, nOffset, buffer, [read]⟩
      else
        (readLoop w s nSize turns (call + 1) (w.cast (nOffset + nRead)) buffer).map
          (fun e => { e with reads := read :: e.reads })
    else some ⟨true, nOffset, buffer, []⟩

/-- What `BootSelection` does to the card's file, the chain-boot and the screen. -/
inductive Effect
  | read (call : ReadCall)
  | enableChainBoot (image : Mem UInt8) (imageSize : Nat)
  | fatal (message : String)

/-- What `BootSelection` does, in order. It has no result while it is still reading. -/
def effects (w : SizeT) (kernelMaxSize : KernelMaxSize) (menu : Menu)
    (imageBuffer : Option (Mem UInt8)) (s : Selection) (turns : Nat) : Option (List Effect) :=
  match getLabel menu s.index, getString menu s.index with
  | some _, some string =>
    match if imageBuffer.isNone then stageAlloc s.memory kernelMaxSize.bytes else imageBuffer with
    | none => some [.fatal "out of memory staging the kernel image"]
    | some buffer =>
      if s.openResult ≠ .frOk then
        some [.fatal ("cannot open " ++ s.kernelPath ++ " (FR=" ++ toString s.openResult.code ++ ")")]
      else if s.kernel.length = 0 ∨ s.kernel.length > kernelMaxSize.bytes then
        some [.fatal "kernel image size out of range"]
      else
        (readLoop w s s.kernel.length turns 0 0 buffer).map (fun e =>
          e.reads.map .read ++
            if !e.readOk ∨ e.offset ≠ w.cast s.kernel.length then
              [.fatal "read error on the kernel image"]
            else
              let boot := bootImageWithDefaults e.buffer (w.cast s.kernel.length) (some string)
              [.enableChainBoot boot.image boot.imageSize])
  | _, _ => some [.fatal "selected menu entry has no label or defaults string"]

def armings (es : List Effect) : List (Mem UInt8 × Nat) :=
  es.filterMap (fun
    | .enableChainBoot image imageSize => some (image, imageSize)
    | _ => none)

def fatals (es : List Effect) : List String :=
  es.filterMap (fun
    | .fatal message => some message
    | _ => none)

def WithinFile (n : Nat) (reads : List ReadCall) : Prop := ∀ r ∈ reads, r.offset + r.asked ≤ n

theorem cast_eq (w : SizeT) {n : Nat} (h : n < 0x80000000) : w.cast n = n := by
  apply Nat.mod_eq_of_lt
  cases w with
  | bits32 => exact Nat.lt_trans h (by decide)
  | bits64 => exact Nat.lt_trans h (by decide)

theorem asked_bounds {left chunk : Nat} (h : 0 < left)
    (hchunk : chunk = (if left > chunkBytes then chunkBytes else left) % 0x100000000) :
    0 < chunk ∧ chunk ≤ left ∧ chunk = if left > chunkBytes then chunkBytes else left := by
  have hsize : chunkBytes = 0x1000000 := rfl
  rw [hsize] at hchunk ⊢
  split at hchunk <;> rename_i hlarge
  · rw [if_pos hlarge]
    omega
  · rw [if_neg hlarge]
    omega

theorem readLoop_turn (w : SizeT) (s : Selection) (hsmall : s.kernel.length < 0x80000000)
    (call : Nat) {offset : Nat} (buffer : Mem UInt8) (hmore : offset < s.kernel.length) :
    ∃ read : ReadCall, read.offset + read.asked ≤ s.kernel.length ∧ read.nRead ≤ read.asked ∧
      (∀ turns, readLoop w s s.kernel.length (turns + 1) call offset buffer =
        if (s.reads call).1 ≠ .frOk ∨ read.nRead = 0 then
          some ⟨false, offset, write buffer offset ((s.kernel.drop offset).take read.nRead), [read]⟩
        else
          (readLoop w s s.kernel.length turns (call + 1) (w.cast (offset + read.nRead))
            (write buffer offset ((s.kernel.drop offset).take read.nRead))).map
            (fun e => { e with reads := read :: e.reads })) ∧
      (∀ fuel, readImage s (fuel + 1) call offset buffer =
        if (s.reads call).1 ≠ .frOk ∨ read.nRead = 0 then (false, offset, buffer)
        else readImage s fuel (call + 1) (offset + read.nRead)
          (write buffer offset ((s.kernel.drop offset).take read.nRead))) ∧
      read.offset = offset := by
  generalize hasked : (if s.kernel.length - offset > chunkBytes then chunkBytes
    else s.kernel.length - offset) % 0x100000000 = asked
  obtain ⟨-, hle, hchunk⟩ := asked_bounds (Nat.sub_pos_of_lt hmore) hasked.symm
  refine ⟨⟨offset, asked, (s.reads call).1, min (s.reads call).2 asked⟩, ?_, Nat.min_le_right _ _,
    fun turns => ?_, fun fuel => ?_, rfl⟩
  · dsimp only
    omega
  · rw [readLoop, cast_eq w hsmall, if_pos hmore]
    dsimp only
    rw [hasked]
  · rw [readImage, if_pos hmore]
    dsimp only
    rw [← hchunk]

theorem exists_turn {fuel turns : Nat} (h : fuel < turns) :
    ∃ more, turns = more + 1 ∧ fuel ≤ more :=
  ⟨turns - 1, by omega, by omega⟩

/-- The loop ends after at most one turn for every byte that is left, and has read what the one
without the casts reads. -/
theorem readLoop_ends (w : SizeT) (s : Selection) (hsmall : s.kernel.length < 0x80000000)
    (fuel call : Nat) {offset : Nat} (buffer : Mem UInt8) (hoff : offset ≤ s.kernel.length)
    (hfuel : s.kernel.length ≤ offset + fuel) :
    ∃ e, (∀ turns, fuel < turns → readLoop w s s.kernel.length turns call offset buffer = some e) ∧
      WithinFile s.kernel.length e.reads ∧
      e.readOk = (readImage s fuel call offset buffer).1 ∧
      (e.readOk = true → (e.offset, e.buffer) = (readImage s fuel call offset buffer).2) := by
  induction fuel generalizing call offset buffer with
  | zero =>
    have hend : ¬ offset < s.kernel.length := by omega
    refine ⟨⟨true, offset, buffer, []⟩, fun turns hturns => ?_, fun r hr => ?_, rfl, fun _ => rfl⟩
    · obtain ⟨turns, rfl, -⟩ := exists_turn hturns
      rw [readLoop, cast_eq w hsmall, if_neg hend]
    · cases hr
  | succ fuel ih =>
    by_cases hmore : offset < s.kernel.length
    · obtain ⟨read, hwithin, hread, hloop, himage, rfl⟩ := readLoop_turn w s hsmall call buffer hmore
      rw [himage]
      by_cases hstop : (s.reads call).1 ≠ .frOk ∨ read.nRead = 0
      · rw [if_pos hstop]
        refine ⟨⟨false, read.offset, write buffer read.offset
          ((s.kernel.drop read.offset).take read.nRead), [read]⟩, fun turns hturns => ?_,
          fun r hr => ?_, rfl, fun hno => Bool.noConfusion hno⟩
        · obtain ⟨turns, rfl, -⟩ := exists_turn hturns
          rw [hloop, if_pos hstop]
        · rw [List.mem_singleton.mp hr]
          exact hwithin
      · rw [if_neg hstop]
        obtain ⟨e, hends, hreads, hok, hsame⟩ := @ih (call + 1) (read.offset + read.nRead)
          (write buffer read.offset ((s.kernel.drop read.offset).take read.nRead)) (by omega)
          (by omega)
        refine ⟨{ e with reads := read :: e.reads }, fun turns hturns => ?_, fun r hr => ?_, hok, hsame⟩
        · obtain ⟨turns, rfl, hfewer⟩ := exists_turn hturns
          rw [hloop, if_neg hstop, cast_eq w (by omega), hends turns hfewer]
          rfl
        · obtain rfl | hr := List.mem_cons.mp hr
          · exact hwithin
          · exact hreads r hr
    · refine ⟨⟨true, offset, buffer, []⟩, fun turns hturns => ?_, fun r hr => ?_, ?_, fun _ => ?_⟩
      · obtain ⟨turns, rfl, -⟩ := exists_turn hturns
        rw [readLoop, cast_eq w hsmall, if_neg hmore]
      · cases hr
      · rw [readImage, if_neg hmore]
      · rw [readImage, if_neg hmore]

def ending : Selected → Effect
  | .fatal message => .fatal message
  | .armed b => .enableChainBoot b.image b.imageSize

theorem effects_eq (w : SizeT) (kernelMaxSize : KernelMaxSize) (menu : Menu)
    (imageBuffer : Option (Mem UInt8)) (s : Selection) :
    ∃ reads, WithinFile s.kernel.length reads ∧
      ∀ turns, s.kernel.length < turns → effects w kernelMaxSize menu imageBuffer s turns =
        some (reads.map .read ++ [ending (bootSelection kernelMaxSize menu imageBuffer s)]) := by
  have hnone : WithinFile s.kernel.length [] := fun r hr => by cases hr
  unfold effects bootSelection
  cases getLabel menu s.index with
  | none => exact ⟨[], hnone, fun turns _ => rfl⟩
  | some label =>
    cases getString menu s.index with
    | none => exact ⟨[], hnone, fun turns _ => rfl⟩
    | some string =>
      dsimp only
      cases (if imageBuffer.isNone then stageAlloc s.memory kernelMaxSize.bytes else imageBuffer) with
      | none => exact ⟨[], hnone, fun turns _ => rfl⟩
      | some buffer =>
        dsimp only
        by_cases hopen : s.openResult ≠ .frOk
        · simp only [if_pos hopen]
          exact ⟨[], hnone, fun turns _ => rfl⟩
        simp only [if_neg hopen]
        by_cases hsize : s.kernel.length = 0 ∨ s.kernel.length > kernelMaxSize.bytes
        · simp only [if_pos hsize]
          exact ⟨[], hnone, fun turns _ => rfl⟩
        simp only [if_neg hsize]
        have hsmall : s.kernel.length < 0x80000000 := by
          have hmax := kernelMaxSize.small
          omega
        obtain ⟨e, hends, hreads, hok, hsame⟩ := @readLoop_ends w s hsmall s.kernel.length 0 0 buffer
          (Nat.zero_le _) (by omega)
        generalize readImage s s.kernel.length 0 0 buffer = r at hok hsame ⊢
        obtain ⟨ok, offset, image⟩ := r
        dsimp only at hok hsame ⊢
        subst hok
        refine ⟨e.reads, hreads, fun turns hturns => ?_⟩
        rw [hends turns hturns, Option.map_some, cast_eq w hsmall]
        cases hok : e.readOk with
        | false => rfl
        | true =>
          obtain ⟨rfl, rfl⟩ := Prod.mk.inj (hsame hok)
          by_cases hwhole : e.offset = s.kernel.length
          · simp [hwhole, ending]
          · simp [hwhole, ending]

theorem armings_reads (reads : List ReadCall) (last : Effect) :
    armings (reads.map .read ++ [last]) = armings [last] := by
  rw [armings, List.filterMap_append, List.filterMap_map]
  simp [armings]

theorem fatals_reads (reads : List ReadCall) (last : Effect) :
    fatals (reads.map .read ++ [last]) = fatals [last] := by
  rw [fatals, List.filterMap_append, List.filterMap_map]
  simp [fatals]

/-- The image is the file, with the string of the entry stamped into it or not. -/
structure ArmedWith (kernelMaxSize : KernelMaxSize) (menu : Menu) (s : Selection)
    (image : Mem UInt8) :
    Prop where
  positive : 0 < s.kernel.length
  fits : s.kernel.length ≤ kernelMaxSize.bytes
  stamped : ∃ string base, getString menu s.index = some string ∧ Holds base 0 s.kernel ∧
    (image = base ∨ image = (patchDefaults base s.kernel.length string).2)

/-- However the reads turn out, the loop ends, and the whole file is armed or `Fatal` is entered;
no read reaches behind the file. -/
theorem arms_whole_kernel_or_nothing (w : SizeT) (kernelMaxSize : KernelMaxSize) (menu : Menu)
    (imageBuffer : Option (Mem UInt8)) (s : Selection) :
    ∃ es, (∀ turns, s.kernel.length < turns →
        effects w kernelMaxSize menu imageBuffer s turns = some es) ∧
      (∀ r, .read r ∈ es → r.offset + r.asked ≤ s.kernel.length) ∧
      ((∃ image, armings es = [(image, s.kernel.length)] ∧ fatals es = [] ∧
          ArmedWith kernelMaxSize menu s image) ∨
        (armings es = [] ∧ ∃ message, fatals es = [message])) := by
  obtain ⟨reads, hreads, heffects⟩ := effects_eq w kernelMaxSize menu imageBuffer s
  refine ⟨_, heffects, fun r hr => ?_, ?_⟩
  · obtain hr | hr := List.mem_append.mp hr
    · obtain ⟨r', hr', heq⟩ := List.mem_map.mp hr
      cases heq
      exact hreads r hr'
    · cases hsel : bootSelection kernelMaxSize menu imageBuffer s with
      | fatal message =>
        rw [hsel, ending] at hr
        cases List.mem_singleton.mp hr
      | armed b =>
        rw [hsel, ending] at hr
        cases List.mem_singleton.mp hr
  · rw [armings_reads, fatals_reads]
    cases hsel : bootSelection kernelMaxSize menu imageBuffer s with
    | fatal message => exact Or.inr ⟨rfl, message, rfl⟩
    | armed b =>
      obtain ⟨string, image, hloaded⟩ := bootSelection_armed hsel
      have hsize : b.imageSize = s.kernel.length := by rw [hloaded.boot, boot_imageSize]
      refine Or.inl ⟨b.image, ?_, rfl, hloaded.positive, hloaded.fits, string, image, hloaded.chosen,
        hloaded.holds, ?_⟩
      · rw [ending, hsize]
        rfl
      · rw [hloaded.boot]
        by_cases hempty : string.chars = []
        · exact Or.inl (boot_image_empty _ _ _ hempty)
        · exact Or.inr (boot_image _ _ _ hempty)

end RapiBootloader.WholeKernel
