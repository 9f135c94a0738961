import RapiBootloader.NetworkLoader

namespace RapiBootloader.ArmedImage

open Lib.Memory Lib.Strings Lib.Run DefaultsBlock BootImage ChainBoot TftpServer TftpDaemon
open HttpServer NetworkLoader

variable {kernelMaxSize : KernelMaxSize}

/-- While the TFTP buffer is armed it holds, up to the armed size, the bytes of one
completed kernel push with at most the block stamped. -/
def ArmedComplete (l : Loader) : Prop :=
  l.chainBoot.kernelImage = some .kernelBuffer →
    ∃ t ∈ l.tftp.daemon.finished, Boots t ∧ t.data.length = l.chainBoot.kernelSize ∧
      ∃ m, l.tftp.server.kernelBuffer = some m ∧ StampedOnly t.data m

/-- A block of a later kernel push that fits the buffer and differs from an armed
byte it falls on. -/
def overwrites (l : Loader) : NetworkLoader.Event kernelMaxSize → Bool
  | .tftp (.fileWrite block, _) =>
    match l.tftp.daemon.phase, l.chainBoot.kernelImage, l.tftp.server.kernelBuffer with
    | .receiving fileName data, some .kernelBuffer, some m =>
      kindOf fileName = some .kernel ∧
        data.length + block.bytes.length ≤ l.tftp.server.maxKernelSize.bytes ∧
        ∃ i ∈ List.range block.bytes.length, data.length + i < l.chainBoot.kernelSize ∧
          block.bytes[i]? ≠ some (m (data.length + i))
    | _, _, _ => false
  | _ => false

theorem ArmedComplete.keep {l u : Loader} (h : ArmedComplete l)
    (hi : u.chainBoot.kernelImage = l.chainBoot.kernelImage)
    (hs : u.chainBoot.kernelSize = l.chainBoot.kernelSize)
    (hf : ∀ t ∈ l.tftp.daemon.finished, t ∈ u.tftp.daemon.finished)
    (hb : l.chainBoot.kernelImage = some .kernelBuffer →
      ∀ m, l.tftp.server.kernelBuffer = some m →
        ∃ n, u.tftp.server.kernelBuffer = some n ∧
          ∀ i, i < l.chainBoot.kernelSize → n i = m i) : ArmedComplete u := by
  intro harmed
  rw [hi] at harmed
  obtain ⟨t, ht, hboots, hlen, m, hm, hst⟩ := h harmed
  obtain ⟨n, hn, hsame⟩ := hb harmed m hm
  refine ⟨t, hf t ht, hboots, hlen.trans hs.symm, n, hn, hst.congr (fun i hi => ?_)⟩
  exact hsame i (hlen ▸ hi)

theorem keep_tftp {l : Loader} {t : Tftp} (h : ArmedComplete l)
    (hf : ∀ tr ∈ l.tftp.daemon.finished, tr ∈ t.daemon.finished)
    (hb : l.chainBoot.kernelImage = some .kernelBuffer →
      ∀ m, l.tftp.server.kernelBuffer = some m →
        ∃ n, t.server.kernelBuffer = some n ∧
          ∀ i, i < l.chainBoot.kernelSize → n i = m i) :
    ArmedComplete { l with tftp := t } := h.keep rfl rfl hf hb

theorem same_buffer {s t : Server} (h : t.kernelBuffer = s.kernelBuffer) (size : Nat) (m : Mem UInt8)
    (hm : s.kernelBuffer = some m) :
    ∃ n, t.kernelBuffer = some n ∧ ∀ i, i < size → n i = m i := ⟨m, h.trans hm, fun _ _ => rfl⟩

/-- A block that does not overwrite leaves the armed bytes as they are. -/
theorem take_keeps {l : Loader} {block : Block} {e : Env} {fileName data : List UInt8}
    {m : Mem UInt8} (hn : kindOf fileName = some .kernel)
    (hp : l.tftp.daemon.phase = .receiving fileName data) (hst : Staged l.tftp.server data)
    (ho : overwrites l (.tftp (.fileWrite block, e) : NetworkLoader.Event kernelMaxSize) = false)
    (ha : l.chainBoot.kernelImage = some .kernelBuffer)
    (hm : l.tftp.server.kernelBuffer = some m) :
    ∃ n, (writeKernel block l.tftp.server).2.kernelBuffer = some n ∧
      ∀ i, i < l.chainBoot.kernelSize → n i = m i := by
  simp only [writeKernel]
  rw [hst.offset_add block]
  split
  · exact ⟨m, hm, fun _ _ => rfl⟩
  · rename_i hfit
    refine ⟨write m data.length block.bytes, ?_, fun i hi => ?_⟩
    · simp only [hm, Option.map_some, hst.offset]
    · by_contra hne
      obtain ⟨hlo, hhi⟩ := write_changed m data.length block.bytes i hne
      obtain ⟨k, rfl⟩ := Nat.exists_eq_add_of_le hlo
      have hk : k < block.bytes.length := by omega
      rw [write_inside _ _ _ _ hk] at hne
      have hfits := Nat.not_lt.mp hfit
      simp only [overwrites, hp, ha, hm, hn, hfits, true_and, decide_eq_false_iff_not, not_exists,
        not_and] at ho
      apply ho k (List.mem_range.mpr hk) hi
      rw [List.getElem?_eq_getElem hk, ne_eq, Option.some.injEq]
      exact hne

theorem step_armedComplete {site : Site} {l u : Loader} {ev : NetworkLoader.Event kernelMaxSize}
    (hc : Consistent l.tftp.server l.tftp.daemon.phase) (ha : ArmedComplete l)
    (ho : overwrites l ev = false) (h : NetworkLoader.step site l ev = some u) :
    ArmedComplete u := by
  obtain ⟨-, hs⟩ := step_cases h
  cases hs with
  | http r hu =>
    rw [hu]
    generalize (getContent site r).boot = boot
    cases boot with
    | none => exact ha
    | some b => exact fun hi => by cases hi
  | main elapsed hu =>
    obtain ⟨ht, hi, hsz, -⟩ := mainStep_frame hu
    refine ha.keep hi hsz (fun t htr => ht ▸ htr) (fun _ m hm => ?_)
    exact same_buffer (by rw [ht]) _ m hm
  | tftp ev t ht hu =>
    rw [hu]
    have hm := (step_moves hc ht).1
    generalize (reply l.tftp ev).boot = boot at hm
    cases hm with
    | quiet hk hi hf hp =>
      exact keep_tftp ha (fun tr htr => hf ▸ htr) (fun _ m => same_buffer hk.kernelBuffer _ m)
    | startInject fileName hn hp hd hk hi =>
      exact keep_tftp ha (fun tr htr => by rw [hd]; exact htr)
        (fun _ m => same_buffer hk.kernelBuffer _ m)
    | startKernel fileName hn hp hd hi m hb hkeep hx =>
      refine keep_tftp ha (fun tr htr => by rw [hd]; exact htr) (fun _ m' hm' => ?_)
      exact ⟨m, hb, fun i _ => by rw [hkeep m' hm']⟩
    | takeInject fileName data block he hn hp hd hsv =>
      refine keep_tftp ha (fun tr htr => by rw [hd]; exact htr) (fun _ m => same_buffer ?_ _ m)
      rw [hsv, writeInject]
      split <;> rfl
    | takeKernel fileName data block he hn hp hd hsv =>
      refine keep_tftp ha (fun tr htr => by rw [hd]; exact htr) (fun harmed m hm => ?_)
      have hst : Staged l.tftp.server data := by
        rw [hp] at hc
        have hr := hc.2
        rw [hn] at hr
        cases hr with
        | kernel _ hst => exact hst
      obtain ⟨c, e⟩ := ev
      cases he
      rw [hsv]
      exact take_keeps hn hp hst ho harmed hm
    | refuse fileName data block he hp hd hk hi hkernel hinject =>
      exact keep_tftp ha (fun tr htr => by rw [hd]; exact htr)
        (fun _ m => same_buffer hk.kernelBuffer _ m)
    | closeInject fileName data hn hp hd hk hi hl htx =>
      exact keep_tftp ha (fun tr htr => by rw [hd]; exact htr)
        (fun _ m => same_buffer hk.kernelBuffer _ m)
    | closeKernel fileName data hn hp hd hb hx hi =>
      exact keep_tftp ha (fun tr htr => by rw [hd]; exact htr) (fun _ m => same_buffer hb _ m)
    | finish fileName data outcome he hd hp hb hx hi =>
      exact keep_tftp ha (fun tr htr => by rw [hd]; exact List.mem_cons_of_mem _ htr)
        (fun _ m => same_buffer hb _ m)
    | boot fileName data image he hn hp hne hd hm hst b hb hbuf hx hi =>
      intro _
      refine ⟨⟨fileName, data, .completed⟩, ?_, ⟨hn, rfl, hne⟩, ?_, b.image, hbuf, ?_⟩
      · rw [arm_tftp, hd]
        exact List.mem_cons_self
      · rw [hb]
        exact (boot_imageSize _ _ _).symm
      · obtain ⟨m, hm', hh⟩ := hst.buffer
        rw [hm, Option.some.injEq] at hm'
        rw [hb]
        exact boot_stampedOnly (hm' ▸ hh) _

theorem armed_image_complete (site : Site) (offset : Nat) (text : Mem UInt8)
    (evs : List (NetworkLoader.Event kernelMaxSize)) (l : Loader)
    (ho : Along (NetworkLoader.step site) (fun l ev => overwrites l ev = false)
      (Loader.init kernelMaxSize offset text) evs)
    (hr : run (NetworkLoader.step site) (Loader.init kernelMaxSize offset text) evs = some l) :
    ArmedComplete l :=
  (run_invariant (I := fun l : Loader =>
      Consistent l.tftp.server l.tftp.daemon.phase ∧ ArmedComplete l)
    (fun _ _ _ hi hq hu => ⟨step_consistent hi.1 hu, step_armedComplete hi.1 hi.2 hq hu⟩)
    ⟨consistent_init kernelMaxSize offset text, fun hi => by cases hi⟩ ho hr).2

/-- The same push again, given up by the client, while `QuiesceUSB` is pumping. -/
def repeatedRun : List (NetworkLoader.Event smallMax) :=
  kernelPush ++ [.main false] ++
    (push (ascii "kernel8.img") someKernel .statusWriteAborted).map .tftp ++ [.main true]

theorem armed_image_complete_run :
    ∃ l, run (NetworkLoader.step bareSite) (Loader.init smallMax 0 (fun _ => 0)) repeatedRun = some l ∧
      l.chainBoot.kernelImage = some .kernelBuffer ∧ ArmedComplete l :=
  ⟨_, rfl, rfl, armed_image_complete bareSite 0 (fun _ => 0) repeatedRun _ (by decide) rfl⟩

def secondPush : List (NetworkLoader.Event smallMax) :=
  kernelPush ++ [.main false] ++
    ((push (ascii "kernel8.img") ⟨[9], by decide⟩ .statusWriteAborted).take 2).map .tftp

theorem second_push_tears_armed_image :
    ¬ ∀ (kernelMaxSize : KernelMaxSize) (site : Site) (offset : Nat) (text : Mem UInt8)
      (evs : List (NetworkLoader.Event kernelMaxSize)) (l : Loader),
      run (NetworkLoader.step site) (Loader.init kernelMaxSize offset text) evs = some l →
        ArmedComplete l := by
  intro h
  obtain ⟨t, ht, -, -, m, hm, image, hh, hd⟩ :=
    h smallMax bareSite 0 (fun _ => 0) secondPush _ rfl rfl
  have hdata : t.data = [1, 2, 3] := by
    obtain rfl := List.mem_singleton.mp ht
    rfl
  rw [hdata] at hh hd
  have himage : image 0 = 1 := hh 0 (by decide)
  have hbyte : m 0 = 9 := by
    obtain rfl := Option.some.inj hm
    rfl
  have hblock := (hd 0 (by decide) (by rw [himage, hbyte]; decide)).1
  exact absurd hblock (by decide)

end RapiBootloader.ArmedImage
