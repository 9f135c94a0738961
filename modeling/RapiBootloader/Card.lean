import RapiBootloader.Lib.Strings

namespace RapiBootloader.Card

open Lib.Strings

inductive FResult
  | frOk
  | frNoFile
  | frNoPath
  | frDenied
  | frExist
  | frOther (code : Nat)
deriving DecidableEq, Repr

def FResult.code : FResult → Nat
  | .frOk => 0
  | .frNoFile => 4
  | .frNoPath => 5
  | .frDenied => 7
  | .frExist => 8
  | .frOther code => code

/-- A call to FatFs together with its outcome. Results the code does not look at
are left out. -/
inductive CardCall
  | mkdir (path : List UInt8)
  | openRead (path : List UInt8) (result : FResult)
  | openWrite (path : List UInt8) (result : FResult)
  | write (bytes : List UInt8) (result : FResult) (written : Nat)
  | read (count : Nat) (result : FResult) (bytes : List UInt8)
  | close
deriving DecidableEq, Repr

/-- What FatFs answers to the calls one callback makes; no callback makes two of
a kind. -/
structure Answers where
  openResult : FResult
  writeResult : FResult
  written : Nat
  readResult : FResult
  readBytes : List UInt8

/-- `sizeof Dir` of the directory loop, with `FF_MAX_LFN` 255. -/
def dirBytes : Nat := 255 + 8

/-- The `f_mkdir` calls in front of an upload: one for each `/` behind `SD:/` whose
prefix fits the buffer. -/
def parentDirs (path : List UInt8) : List CardCall :=
  (List.range path.length).filterMap fun i =>
    if 4 ≤ i ∧ path[i]? = some 47 ∧ i < dirBytes then some (.mkdir (path.take i)) else none

theorem parentDirs_mkdir (path : List UInt8) : ∀ c ∈ parentDirs path, ∃ dir, c = .mkdir dir := by
  intro c hc
  obtain ⟨i, -, hi⟩ := List.mem_filterMap.mp hc
  split at hi
  · exact ⟨_, (Option.some.inj hi).symm⟩
  · cases hi

/-- `sd/<path>` on the wire is `SD:/<path>` for FatFs. -/
def mapSDPath (fileName : List UInt8) : Option (List UInt8) :=
  if ascii "sd/" <+: fileName ∧ fileName.length > 3 then some (ascii "SD:/" ++ fileName.drop 3)
  else none

end RapiBootloader.Card
