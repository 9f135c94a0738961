import RapiBootloader.Lib.Fnv
import RapiBootloader.TftpClient

namespace RapiBootloader.ReceivedImage

open Lib.Memory Lib.Fnv TftpServer TftpDaemon TftpClient

/-- One call of `FileWrite` after the other. A refused block does not keep the caller from going
on. -/
def fileWrites : List (Block × Env) → Server → List Int × Server
  | [], s => ([], s)
  | (block, e) :: ws, s =>
    let rest := fileWrites ws (fileWrite e block s).2
    ((fileWrite e block s).1 :: rest.1, rest.2)

/-- The `memcpy` of a block into the staging buffer, if it comes to it: where and what. -/
def copy (block : Block) (s : Server) : List (Nat × List UInt8) :=
  if s.mode ≠ .modeKernel then []
  else if (s.currentOffset + block.bytes.length) % 0x100000000 > s.maxKernelSize.bytes then []
  else [(s.currentOffset, block.bytes)]

def copies : List (Block × Env) → Server → List (Nat × List UInt8)
  | [], _ => []
  | (block, e) :: ws, s => copy block s ++ copies ws (fileWrite e block s).2

/-- What `FileClose` prints of an image: the hash and the number of bytes. -/
def imageNotice (s : Server) : Option (UInt32 × Nat) :=
  if s.mode = .modeKernel then some (s.kernelHash, s.currentOffset) else none

def payload (ws : List (Block × Env)) : List UInt8 := bytesOf (ws.map Prod.fst)

def sizes (ws : List (Block × Env)) : List Int := ws.map (fun w => (w.1.bytes.length : Int))

structure Received (old : Mem UInt8) (data : List UInt8) (s : Server) : Prop where
  mode : s.mode = .modeKernel
  offset : s.currentOffset = data.length
  fits : data.length ≤ s.maxKernelSize.bytes
  hash : s.kernelHash.toNat = fnv1a data
  buffer : s.kernelBuffer = some (write old 0 data)

theorem payload_cons (block : Block) (e : Env) (ws : List (Block × Env)) :
    payload ((block, e) :: ws) = block.bytes ++ payload ws := rfl

theorem toNat_hashByte (hash : UInt32) (byte : UInt8) :
    (hashByte hash byte).toNat = absorb hash.toNat byte := by
  rw [hashByte, UInt32.toNat_mul, UInt32.toNat_xor, UInt8.toNat_toUInt32]
  rfl

theorem Received.end_eq {old : Mem UInt8} {data : List UInt8} {s : Server} (h : Received old data s)
    (block : Block) :
    (s.currentOffset + block.bytes.length) % 0x100000000 = (data ++ block.bytes).length := by
  have hfits := h.fits
  have hsmall := s.maxKernelSize.small
  have hshort := block.short
  rw [h.offset, List.length_append]
  omega

theorem Received.take {old : Mem UInt8} {data : List UInt8} {s : Server} (h : Received old data s)
    (e : Env) (block : Block) (hfit : (data ++ block.bytes).length ≤ s.maxKernelSize.bytes) :
    (fileWrite e block s).1 = block.bytes.length ∧
      (fileWrite e block s).2.maxKernelSize = s.maxKernelSize ∧
      Received old (data ++ block.bytes) (fileWrite e block s).2 := by
  have hend := h.end_eq block
  have hroom : ¬ (s.currentOffset + block.bytes.length) % 0x100000000 > s.maxKernelSize.bytes := by
    rw [hend]
    exact Nat.not_lt.mpr hfit
  rw [fileWrite, h.mode]
  dsimp only
  rw [writeKernel, if_neg hroom]
  refine ⟨rfl, rfl, h.mode, hend, hfit, ?_, ?_⟩
  · dsimp only
    rw [foldl_toNat toNat_hashByte, h.hash, fnv1a_append]
  · dsimp only
    rw [h.buffer, h.offset, Option.map_some, write_behind]

/-- The first block for which there is no room ends the push. -/
theorem Received.refuse {old : Mem UInt8} {data : List UInt8} {s : Server}
    (h : Received old data s) (e : Env) (block : Block)
    (hlong : s.maxKernelSize.bytes < (data ++ block.bytes).length) :
    fileWrite e block s = (-1, { s with mode := .modeNone }) := by
  have hend := h.end_eq block
  rw [fileWrite, h.mode]
  dsimp only
  rw [writeKernel, hend, if_pos hlong]

theorem fileWrite_none (e : Env) (block : Block) {s : Server} (hm : s.mode = .modeNone) :
    fileWrite e block s = (-1, s) := by
  rw [fileWrite, hm]

theorem fileWrites_none (ws : List (Block × Env)) {s : Server} (hm : s.mode = .modeNone) :
    fileWrites ws s = (List.replicate ws.length (-1), s) := by
  induction ws with
  | nil => rfl
  | cons w ws ih =>
    obtain ⟨block, e⟩ := w
    rw [fileWrites, fileWrite_none e block hm, ih]
    rfl

theorem Received.takeAll {old : Mem UInt8} {data : List UInt8} {s : Server}
    (h : Received old data s) (ws : List (Block × Env))
    (hfit : (data ++ payload ws).length ≤ s.maxKernelSize.bytes) :
    (fileWrites ws s).1 = sizes ws ∧ Received old (data ++ payload ws) (fileWrites ws s).2 := by
  induction ws generalizing data s with
  | nil =>
    have hnil : data ++ payload [] = data := List.append_nil data
    rw [hnil]
    exact ⟨rfl, h⟩
  | cons w ws ih =>
    obtain ⟨block, e⟩ := w
    rw [payload_cons, ← List.append_assoc] at hfit ⊢
    have hblock : (data ++ block.bytes).length ≤ s.maxKernelSize.bytes := by
      rw [List.length_append] at hfit
      omega
    obtain ⟨hsize, hmax, htaken⟩ := h.take e block hblock
    obtain ⟨hsizes, hrest⟩ := ih htaken (hmax ▸ hfit)
    rw [fileWrites, hsize, hsizes]
    exact ⟨rfl, hrest⟩

/-- The replies to blocks that are too much as a whole: up to the first one that would pass the
maximum they are taken, and from there on all are refused. -/
def RefusedAt (max : Nat) (before : Nat) (ws : List (Block × Env)) (replies : List Int) : Prop :=
  ∃ taken w post, ws = taken ++ w :: post ∧ before + (payload taken).length ≤ max ∧
    max < before + (payload (taken ++ [w])).length ∧
    replies = sizes taken ++ List.replicate (post.length + 1) (-1)

theorem Received.refusedAt {old : Mem UInt8} {data : List UInt8} {s : Server}
    (h : Received old data s) (ws : List (Block × Env))
    (hlong : s.maxKernelSize.bytes < (data ++ payload ws).length) :
    RefusedAt s.maxKernelSize.bytes data.length ws (fileWrites ws s).1 := by
  induction ws generalizing data s with
  | nil =>
    have hnil : data ++ payload [] = data := List.append_nil data
    rw [hnil] at hlong
    exact absurd h.fits (Nat.not_le.mpr hlong)
  | cons w ws ih =>
    obtain ⟨block, e⟩ := w
    by_cases hblock : (data ++ block.bytes).length ≤ s.maxKernelSize.bytes
    · obtain ⟨hsize, hmax, htaken⟩ := h.take e block hblock
      rw [payload_cons, ← List.append_assoc, ← hmax] at hlong
      obtain ⟨taken, w, post, hws, hfit, hpast, hreplies⟩ := ih htaken hlong
      rw [hmax] at hfit hpast
      rw [List.length_append] at hfit hpast
      refine ⟨(block, e) :: taken, w, post, ?_, ?_, ?_, ?_⟩
      · rw [hws]
        rfl
      · rw [payload_cons, List.length_append]
        omega
      · rw [List.cons_append, payload_cons, List.length_append]
        omega
      · rw [fileWrites, hsize, hreplies]
        rfl
    · rw [not_le] at hblock
      have hsingle : payload ([] ++ [(block, e)]) = block.bytes := List.append_nil _
      refine ⟨[], (block, e), ws, rfl, h.fits, ?_, ?_⟩
      · rw [hsingle, ← List.length_append]
        exact hblock
      · rw [fileWrites, h.refuse e block hblock, fileWrites_none ws rfl]
        rfl

def CopiesInside (max : Nat) (old : Mem UInt8) (cs : List (Nat × List UInt8)) (u : Server) : Prop :=
  u.kernelBuffer = some (cs.foldl (fun m c => write m c.1 c.2) old) ∧
    ∀ c ∈ cs, c.1 + c.2.length ≤ max

theorem copies_none (ws : List (Block × Env)) {s : Server} (hm : s.mode = .modeNone) :
    copies ws s = [] := by
  induction ws with
  | nil => rfl
  | cons w ws ih =>
    obtain ⟨block, e⟩ := w
    have hcopy : copy block s = [] := if_pos (by rw [hm]; decide)
    rw [copies, fileWrite_none e block hm, ih, hcopy]
    rfl

theorem Received.copiesInside {old : Mem UInt8} {data : List UInt8} {s : Server}
    (h : Received old data s) (ws : List (Block × Env)) :
    CopiesInside s.maxKernelSize.bytes (write old 0 data) (copies ws s) (fileWrites ws s).2 := by
  induction ws generalizing data s with
  | nil => exact ⟨h.buffer, fun c hc => by cases hc⟩
  | cons w ws ih =>
    obtain ⟨block, e⟩ := w
    have hend := h.end_eq block
    rw [copies, copy, if_neg (not_not.mpr h.mode), hend]
    by_cases hblock : (data ++ block.bytes).length ≤ s.maxKernelSize.bytes
    · obtain ⟨-, hmax, htaken⟩ := h.take e block hblock
      obtain ⟨hbuffer, hinside⟩ := ih htaken
      rw [if_neg (Nat.not_lt.mpr hblock)]
      refine ⟨?_, ?_⟩
      · rw [List.singleton_append, List.foldl_cons, h.offset, write_behind]
        exact hbuffer
      · intro c hc
        rw [List.singleton_append, List.mem_cons] at hc
        obtain rfl | hc := hc
        · rw [h.offset, ← List.length_append]
          exact hblock
        · exact hmax ▸ hinside c hc
    · rw [not_le] at hblock
      rw [if_pos hblock, fileWrites, h.refuse e block hblock, copies_none ws rfl,
        fileWrites_none ws rfl]
      exact ⟨h.buffer, fun c hc => by cases hc⟩

theorem received_fileCreate {e : Env} {fileName : List UInt8} {s t : Server}
    (hn : kindOf fileName = some .kernel) (hc : fileCreate e fileName s = (true, t)) :
    ∃ old, t.kernelBuffer = some old ∧ t.maxKernelSize = s.maxKernelSize ∧ Received old [] t := by
  have hm : s.mode = .modeNone := by
    by_contra hm
    rw [fileCreate, if_pos hm] at hc
    cases hc
  obtain ⟨-, hcreate⟩ | ⟨-, old, hcreate⟩ := fileCreate_kernel e hn hm
  · rw [hc] at hcreate
    cases hcreate
  · rw [hc] at hcreate
    cases hcreate
    have hnone : write old 0 [] = old := by
      funext i
      exact write_outside old 0 [] i (Or.inr (Nat.zero_le i))
    refine ⟨old, rfl, rfl, rfl, rfl, Nat.zero_le _, rfl, ?_⟩
    rw [hnone]

structure ReceivedWhole (ws : List (Block × Env)) (replies : List Int) (u : Server) : Prop where
  replies : replies = sizes ws
  offset : u.currentOffset = (payload ws).length
  buffer : ∃ image, u.kernelBuffer = some image ∧ Holds image 0 (payload ws)
  hash : u.kernelHash.toNat = fnv1a (payload ws)
  notice : imageNotice u = some (u.kernelHash, (payload ws).length)

/-- After the `FileCreate` of a kernel push an image that fits is received whole, in whatever
blocks it comes and whatever was pushed before. Of one that does not fit the first block too many is
refused. No copy passes the maximum either way. -/
theorem kernel_received (e : Env) (fileName : List UInt8) (s t : Server) (ws : List (Block × Env))
    (hn : kindOf fileName = some .kernel) (hc : fileCreate e fileName s = (true, t)) :
    let max := s.maxKernelSize.bytes
    let written := fileWrites ws t
    ((payload ws).length ≤ max → ReceivedWhole ws written.1 written.2) ∧
      (max < (payload ws).length → RefusedAt max 0 ws written.1) ∧
      ∃ old, t.kernelBuffer = some old ∧ CopiesInside max old (copies ws t) written.2 := by
  obtain ⟨old, hold, hmax, ht⟩ := received_fileCreate hn hc
  intro max written
  refine ⟨fun hfit => ?_, fun hlong => ?_, old, hold, ?_⟩
  · obtain ⟨hreplies, hu⟩ := ht.takeAll ws (by rw [hmax]; exact hfit)
    rw [List.nil_append] at hu
    refine ⟨hreplies, hu.offset, ⟨_, hu.buffer, holds_write old 0 _⟩, hu.hash, ?_⟩
    rw [imageNotice, if_pos hu.mode, hu.offset]
  · have hrefused := ht.refusedAt ws (by rw [hmax]; exact hlong)
    rw [hmax] at hrefused
    exact hrefused
  · have hinside := ht.copiesInside ws
    have hbuffer := ht.buffer
    rw [hold, Option.some.injEq] at hbuffer
    rw [hmax, ← hbuffer] at hinside
    exact hinside

def usedServer : Server :=
  { Server.init smallMax 5 (fun _ => 0) with kernelBuffer := some (fun _ => 255), kernelHash := 7 }

def twoBlocks : List (Block × Env) := [(someKernel, fineEnv), (someKernel, fineEnv)]

theorem kernel_received_twoBlocks :
    ∃ t, fileCreate fineEnv (Lib.Strings.ascii "kernel8.img") usedServer = (true, t) ∧
      ReceivedWhole twoBlocks (fileWrites twoBlocks t).1 (fileWrites twoBlocks t).2 :=
  ⟨_, rfl, (kernel_received fineEnv (Lib.Strings.ascii "kernel8.img") usedServer _ twoBlocks
    (by decide) rfl).1 (by decide)⟩

end RapiBootloader.ReceivedImage
