import RapiBootloader.SDWrite
import RapiBootloader.WebDavReadBack

namespace RapiBootloader.TftpVolume

open Lib.Memory Lib.Strings Lib.Logs Lib.Volumes DefaultsBlock ChainBoot Card TftpServer TftpDaemon
open SDWrite WebDavVolume WebDavReadBack
open WebDavServer (recvBufSize)

variable {K : Type} [DecidableEq K] (key : List UInt8 → K)

def callsFrom (s t : Server) : List CardCall := t.calls.drop s.calls.length

/-- A whole put: `FileCreate`, the blocks that `FileWrite` is given, `FileClose`. -/
structure Put where
  server : Server
  create : Env
  fileName : List UInt8
  blocks : List (Env × Block)
  close : Env

def Put.created (p : Put) : Server := (fileCreate p.create p.fileName p.server).2

def Put.fed (p : Put) : Server := (feed p.blocks p.created).2

def Put.closed (p : Put) : Server := (fileClose p.close p.fed).2

/-- Every callback is accepted, and the last flush goes well, which `FileClose` does not tell. -/
structure Put.Stores (p : Put) (path : List UInt8) : Prop where
  mapped : mapSDPath p.fileName = some path
  created : (fileCreate p.create p.fileName p.server).1 = true
  fed : (feed p.blocks p.created).1 = true
  flushed : p.fed.writeBufFill = 0 ∨
    p.close.card.writeResult = .frOk ∧ p.fed.writeBufFill ≤ p.close.card.written

def fileReads : List (Env × Nat) → Server → Bool × Server
  | [], s => (true, s)
  | (e, count) :: reads, s =>
    if 0 ≤ (fileRead e count s).1 then fileReads reads (fileRead e count s).2
    else (false, (fileRead e count s).2)

/-- A whole get: `FileOpen`, the reads, `FileClose`. -/
structure Get where
  server : Server
  opens : Env
  fileName : List UInt8
  reads : List (Env × Nat)
  close : Env

def Get.opened (g : Get) : Server := (fileOpen g.opens g.fileName g.server).2

def Get.read (g : Get) : Server := (fileReads g.reads g.opened).2

def Get.closed (g : Get) : Server := (fileClose g.close g.read).2

structure Get.Fetches (g : Get) (path : List UInt8) : Prop where
  mapped : mapSDPath g.fileName = some path
  opened : (fileOpen g.opens g.fileName g.server).1 = true
  read : (fileReads g.reads g.opened).1 = true

def Get.received (g : Get) : List UInt8 := g.reads.flatMap fun r => r.1.card.readBytes

def IsWrite (c : CardCall) : Prop := ∃ bytes result written, c = .write bytes result written

theorem flushWriteBuf_extends (e : Env) (s : Server) :
    Extends IsWrite s.calls (flushWriteBuf e s).2.calls := by
  by_cases hfill : s.writeBufFill = 0
  · rw [flushWriteBuf, if_pos hfill]
    exact .refl s.calls
  · rw [flushWriteBuf_some e hfill]
    exact (Extends.refl s.calls).concat ⟨_, _, _, rfl⟩

theorem sdWrite_extends {e : Env} {bytes : List UInt8} {s : Server}
    (hok : 0 ≤ (sdWrite e bytes s).1) : Extends IsWrite s.calls (sdWrite e bytes s).2.calls := by
  have htaken := sdWrite_taken e bytes s
  generalize sdWrite e bytes s = r at htaken hok ⊢
  cases htaken with
  | unbuffered | refused => exact absurd hok (giveUp_refused _)
  | flushed hsome hflush => exact flushWriteBuf_extends e s
  | copied hsome => exact .refl s.calls

theorem feed_extends {base : Nat} {blocks : List (Env × Block)} {s : Server} (h : Accepting base s)
    (hok : (feed blocks s).1 = true) : Extends IsWrite s.calls (feed blocks s).2.calls := by
  induction blocks generalizing s with
  | nil => exact .refl s.calls
  | cons b blocks ih =>
    obtain ⟨e, block⟩ := b
    simp only [feed, fileWrite_sd h.mode] at hok ⊢
    split at hok
    · rename_i hwrite
      rw [if_pos hwrite]
      exact (sdWrite_extends hwrite).trans (ih (accepting_write h hwrite) hok)
    · cases hok

theorem not_inject {fileName path : List UInt8} (hpath : mapSDPath fileName = some path) :
    fileName ≠ injectFileName := by
  rintro rfl
  have hnone : mapSDPath injectFileName = none := by decide
  rw [hnone] at hpath
  cases hpath

theorem kindOf_sd {fileName path : List UInt8} (hpath : mapSDPath fileName = some path) :
    kindOf fileName = some .sd := by
  rw [kindOf, if_neg (not_inject hpath), hpath]
  rfl

theorem fileCreate_calls {e : Env} {fileName path : List UInt8} {s : Server}
    (hpath : mapSDPath fileName = some path) (hok : (fileCreate e fileName s).1 = true) :
    (fileCreate e fileName s).2.calls = s.calls ++ parentDirs path ++ [.openWrite path .frOk] := by
  have hmode : s.mode = .modeNone := by
    by_contra hbusy
    rw [fileCreate, if_pos hbusy] at hok
    cases hok
  have hcreate : fileCreate e fileName s = createSD e path s := by
    rw [fileCreate, if_neg (not_not.mpr hmode), if_neg (not_inject hpath), hpath]
  rw [hcreate] at hok ⊢
  unfold createSD at hok ⊢
  dsimp only at hok ⊢
  split at hok
  · cases hok
  · rename_i hopen
    rw [if_neg hopen, not_not.mp hopen]

theorem put_calls {p : Put} {path : List UInt8} (h : p.Stores path) :
    ∃ writes, callsFrom p.server p.closed =
        parentDirs path ++ .openWrite path .frOk :: (writes ++ [.close]) ∧
      onCard writes = sent p.blocks ∧
      ∀ c ∈ writes, ∃ bytes written, c = .write bytes .frOk written := by
  obtain ⟨haccepting, hempty⟩ := fileCreate_sd (kindOf_sd h.mapped) h.created
  have hfed := feed_accepting haccepting h.fed
  have hcomplete := (complete_close_iff hfed p.close .frOk).mpr ⟨h.flushed, rfl⟩
  rw [accepting_whole haccepting rfl hempty h.fed] at hcomplete
  obtain ⟨writes, hcalls, hwrites⟩ :=
    (feed_extends haccepting h.fed).trans (flushWriteBuf_extends p.close p.fed)
  have hclosed : p.closed.calls = p.created.calls ++ (writes ++ [.close]) := by
    have hclose : p.closed.calls = (flushWriteBuf p.close p.fed).2.calls ++ [.close] := by
      have hmode : p.fed.mode = .modeSDWrite := hfed.mode
      simp only [Put.closed, fileClose, hmode]
    rw [hclose, hcalls, List.append_assoc]
    rfl
  have hdrop : p.closed.calls.drop p.created.calls.length = writes ++ [.close] := by
    rw [hclosed, List.drop_left]
  obtain ⟨hwhole, hclean, -, -⟩ := hcomplete
  have hwhole : onCard (p.closed.calls.drop p.created.calls.length) = sent p.blocks := hwhole
  have hclean : Clean (p.closed.calls.drop p.created.calls.length) := hclean
  rw [hdrop] at hwhole hclean
  refine ⟨writes, ?_, ?_, fun c hc => ?_⟩
  · have hcreated : p.created.calls =
        p.server.calls ++ parentDirs path ++ [.openWrite path .frOk] :=
      fileCreate_calls h.mapped h.created
    rw [callsFrom, hclosed, hcreated]
    simp
  · rw [← hwhole, onCard_append]
    exact (List.append_nil _).symm
  · obtain ⟨bytes, result, written, rfl⟩ := hwrites c hc
    rw [hclean bytes result written (List.mem_append_left _ hc)]
    exact ⟨bytes, written, rfl⟩

omit [DecidableEq K] in
/-- What a whole put asks of the volume, when `f_close` does not fail. -/
theorem put_ops {p : Put} {path : List UInt8} (h : p.Stores path) :
    ∃ (before : List (Op K UInt8)) (parts : List (List UInt8)),
      (callsFrom p.server p.closed).map (cardOp key true) =
        before ++ .create (key path) true :: (parts.map (.append · true) ++ [.shut true]) ∧
      parts.flatten = sent p.blocks ∧ ∀ op ∈ before, ¬ op.Changes (key path) := by
  obtain ⟨writes, hcalls, hwhole, hwrites⟩ := put_calls h
  have hparts : writes.map (cardOp key true) = (writes.map writtenBy).map (.append · true) := by
    rw [List.map_map]
    apply List.map_congr_left
    intro c hc
    obtain ⟨bytes, written, rfl⟩ := hwrites c hc
    rfl
  refine ⟨(parentDirs path).map (cardOp key true), writes.map writtenBy, ?_, ?_, fun op hop => ?_⟩
  · rw [hcalls, List.map_append, List.map_cons, List.map_append, hparts]
    rfl
  · rw [← hwhole, onCard, List.flatMap_def]
  · obtain ⟨c, hc, rfl⟩ := List.mem_map.mp hop
    obtain ⟨dir, rfl⟩ := parentDirs_mkdir path c hc
    exact fun hchanges => hchanges

theorem fileOpen_calls {e : Env} {fileName path : List UInt8} {s : Server}
    (hpath : mapSDPath fileName = some path) (hok : (fileOpen e fileName s).1 = true) :
    (fileOpen e fileName s).2.calls = s.calls ++ [.openRead path .frOk] ∧
      (fileOpen e fileName s).2.mode = .modeSDRead := by
  unfold fileOpen at hok ⊢
  rw [hpath] at hok ⊢
  dsimp only at hok ⊢
  split at hok
  · cases hok
  · rename_i hmode
    rw [if_neg hmode]
    split at hok
    · cases hok
    · rename_i hopen
      rw [if_neg hopen, not_not.mp hopen]
      exact ⟨rfl, rfl⟩

def asked (r : Env × Nat) : Nat × List UInt8 := (r.2, r.1.card.readBytes)

def readCall (r : Nat × List UInt8) : CardCall := .read r.1 .frOk r.2

theorem fileReads_calls {reads : List (Env × Nat)} {s : Server} (hmode : s.mode = .modeSDRead)
    (hok : (fileReads reads s).1 = true) :
    (fileReads reads s).2.calls = s.calls ++ (reads.map asked).map readCall ∧
      (fileReads reads s).2.mode = .modeSDRead := by
  induction reads generalizing s with
  | nil => exact ⟨(List.append_nil _).symm, hmode⟩
  | cons r reads ih =>
    obtain ⟨e, count⟩ := r
    rw [fileReads] at hok ⊢
    split at hok
    · rename_i hread
      have hresult : e.card.readResult = .frOk := by
        by_contra hfail
        rw [fileRead, if_neg (not_not.mpr hmode)] at hread
        dsimp only at hread
        rw [if_pos hfail] at hread
        exact absurd hread (by decide : ¬ (0 : Int) ≤ -1)
      have hcalls : (fileRead e count s).2.calls = s.calls ++ [readCall (asked (e, count))] := by
        rw [fileRead, if_neg (not_not.mpr hmode)]
        dsimp only
        rw [if_neg (not_not.mpr hresult), hresult]
        rfl
      obtain ⟨hrest, hlast⟩ := ih ((fileRead_same e count s).2.2.trans hmode) hok
      rw [if_pos hread, hrest, hcalls, List.append_assoc]
      exact ⟨rfl, hlast⟩
    · cases hok

theorem get_calls {g : Get} {path : List UInt8} (h : g.Fetches path) :
    callsFrom g.server g.closed =
      .openRead path .frOk :: ((g.reads.map asked).map readCall ++ [.close]) := by
  obtain ⟨hopened, hmode⟩ := fileOpen_calls h.mapped h.opened
  obtain ⟨hread, hlast⟩ := fileReads_calls hmode h.read
  have hclose : g.closed.calls = g.read.calls ++ [.close] := by
    have hmode : g.read.mode = .modeSDRead := hlast
    simp only [Get.closed, fileClose, hmode]
  have hcalls : g.read.calls =
      g.server.calls ++ [.openRead path .frOk] ++ (g.reads.map asked).map readCall := by
    rw [← hopened]
    exact hread
  rw [callsFrom, hclose, hcalls]
  simp

variable {A : Type} [DecidableEq A] {v v' : Volume A K UInt8} {calls : List (A × Op K UInt8)}

/-- A get of a file at rest, whoever else uses the card meanwhile. -/
theorem get_fetches {i : A} {g : Get} {path bytes : List UInt8} (h : Steps v calls v')
    (hrests : Rests v (key path) bytes) (hget : g.Fetches path)
    (hown : own i calls = (callsFrom g.server g.closed).map (cardOp key true))
    (hquiet : ∀ call ∈ calls, ¬ call.2.Changes (key path)) :
    g.received <+: bytes ∧
      ((∃ r ∈ g.reads, r.1.card.readBytes.length < r.2) → g.received = bytes) := by
  have hreads : ((g.reads.map asked).map readCall).map (cardOp key true) =
      (g.reads.map asked).map (fun r => Op.read r.1 r.2 true) := by
    rw [List.map_map]
    rfl
  rw [get_calls hget, List.map_cons, List.map_append, hreads, ← List.nil_append (_ :: _)] at hown
  obtain ⟨hstart, hwhole⟩ := slices_starts (download_slices hrests h hown hquiet)
  rw [List.flatMap_map] at hstart hwhole
  refine ⟨hstart, fun hshort => hwhole ?_⟩
  obtain ⟨r, hr, hlen⟩ := hshort
  exact ⟨asked r, List.mem_map_of_mem hr, hlen⟩

/-- What `FileClose` has put behind an upload to `sd/` is in the file from then on, when its last
flush and `f_close` have gone well. Whoever gets it later, over TFTP or over WebDAV, gets what
was sent, as long as nobody else creates or removes the file. -/
theorem sd_put_read_back {v u v' : Volume A K UInt8} {during after : List (A × Op K UInt8)} {t : A}
    {p : Put} {path : List UInt8} (hput : p.Stores path) (hfree : Free v (key path))
    (hduring : Steps v during u) (hafter : Steps u after v')
    (hown : own t during = (callsFrom p.server p.closed).map (cardOp key true))
    (hquiet : ∀ call ∈ during, call.1 ≠ t → ¬ call.2.Changes (key path))
    (hlater : ∀ call ∈ after, ¬ call.2.Changes (key path)) :
    Rests v' (key path) (sent p.blocks) ∧
      (∀ i (g : Get) path', g.Fetches path' → key path' = key path →
        own i after = (callsFrom g.server g.closed).map (cardOp key true) →
        g.received <+: sent p.blocks ∧
          ((∃ r ∈ g.reads, r.1.card.readBytes.length < r.2) → g.received = sent p.blocks)) ∧
      ∀ i (c : Connection) path', IsGet c path' → key path' = key path →
        own i after = c.calls.map (volumeOp key c.info) →
        (sent p.blocks).length < recvBufSize * c.turns → GetsFile c path' (sent p.blocks) := by
  obtain ⟨before, parts, hops, hparts, hbefore⟩ := put_ops key hput
  rw [hops] at hown
  have hrests : Rests u (key path) (sent p.blocks) := by
    rw [← hparts]
    exact upload_rests hfree hduring hown hbefore hquiet
  refine ⟨hrests.steps hafter hlater, ?_, ?_⟩
  · intro i g path' hget hkey hcalls
    rw [← hkey] at hrests hlater
    exact get_fetches key hafter hrests hget hcalls hlater
  · intro i c path' hget hkey hcalls hturns
    rw [← hkey] at hrests hlater
    exact get_rests key hafter hrests hget hcalls hturns hlater

def hiPut : Put := ⟨Server.init smallMax 0 (fun _ => 0), fineEnv, ascii "sd/a",
  [(fineEnv, hiBlock)], roomEnv⟩

def readEnv : Env := { fineEnv with card := ⟨.frOk, .frOk, 0, .frOk, ascii "hi"⟩ }

def hiGet : Get := ⟨Server.init smallMax 0 (fun _ => 0), fineEnv, ascii "sd/a",
  [(readEnv, 512)], fineEnv⟩

theorem hiPut_stores : hiPut.Stores (ascii "SD:/a") :=
  ⟨by decide, rfl, rfl, Or.inr ⟨rfl, by decide⟩⟩

theorem hiPut_calls : callsFrom hiPut.server hiPut.closed =
    [.openWrite (ascii "SD:/a") .frOk, .write (ascii "hi") .frOk 2, .close] := by
  decide +kernel

theorem hiGet_fetches : hiGet.Fetches (ascii "SD:/a") := ⟨by decide, rfl, rfl⟩

theorem hiGet_calls : callsFrom hiGet.server hiGet.closed =
    [.openRead (ascii "SD:/a") .frOk, .read 512 .frOk (ascii "hi"), .close] := by
  decide +kernel

def hiAfter : List (Bool × Op (List UInt8) UInt8) :=
  [(false, .openRead (ascii "SD:/a") true), (false, .read 512 (ascii "hi") true),
    (false, .shut true)] ++ ops id hiConns hiDownload

theorem hi_served : Steps (disk (some (ascii "hi")) none .closed .closed) hiAfter
    (disk (some (ascii "hi")) none .closed .closed) := by
  refine steps_append_iff.mpr ⟨disk (some (ascii "hi")) none .closed .closed, ?_, hi_downloaded⟩
  refine ⟨disk _ _ (.reading (ascii "SD:/a") (ascii "hi") 0) .closed,
    disk_first ⟨rfl, ascii "hi", rfl, rfl⟩ rfl,
    disk _ _ (.reading (ascii "SD:/a") (ascii "hi") 2) .closed, disk_first ⟨rfl, rfl, ?_⟩ rfl,
    disk (some (ascii "hi")) none .closed .closed, disk_first ⟨fun _ _ => rfl, rfl, nofun⟩ rfl, rfl⟩
  intro k c pos hreading _ _
  cases hreading
  exact ⟨rfl, rfl⟩

theorem sd_put_read_back_hi :
    Rests (disk (some (ascii "hi")) none .closed .closed) (ascii "SD:/a") (ascii "hi") ∧
      hiGet.received = ascii "hi" ∧ GetsFile (hiConns true) (ascii "SD:/a") (ascii "hi") := by
  obtain ⟨s, d, hasks, hmethod, hpath, -⟩ := asks_of_asked hi_asked_back
  have hfree : Free (disk none none .closed .closed) (ascii "SD:/a") := by
    intro j
    cases j <;> exact nofun
  have hown : own false [(false, Op.create (ascii "SD:/a") true),
      (false, .append (ascii "hi") true), (false, .shut true)] =
      (callsFrom hiPut.server hiPut.closed).map (cardOp id true) := by
    rw [hiPut_calls]
    rfl
  have hlater : ∀ call ∈ hiAfter, ¬ call.2.Changes (ascii "SD:/a") := by
    simp [hiAfter, ops, hiDownload, volumeOp, cardOp, Op.Changes]
  have hconn : own true hiAfter = (hiConns true).calls.map (volumeOp id (hiConns true).info) := by
    rw [hi_calls.2, ← own_ops]
    rfl
  obtain ⟨hrests, hget, hgets⟩ := sd_put_read_back id hiPut_stores hfree hi_stored hi_served hown
    (by simp) hlater
  have hserved : own false hiAfter = (callsFrom hiGet.server hiGet.closed).map (cardOp id true) := by
    rw [hiGet_calls]
    rfl
  have hsent : sent hiPut.blocks = ascii "hi" := rfl
  rw [hsent] at hrests hget hgets
  have hturns : (ascii "hi").length < recvBufSize * (hiConns true).turns := by decide
  refine ⟨hrests, (hget false hiGet _ hiGet_fetches rfl hserved).2 ?_, ?_⟩
  · exact ⟨(readEnv, 512), List.mem_singleton_self _, by decide⟩
  · generalize hiConns true = c at hasks hconn hturns ⊢
    exact hgets true c _ ⟨s, d, hasks, hmethod, hpath⟩ rfl hconn hturns

end RapiBootloader.TftpVolume
