import Chbackup.Lib.SortedMap
import Chbackup.Lib.Text

/-!
# Resume state

State files of the resumable commands (`src/resume.rs`).  Writing one is atomic and its failure
is only logged, so a state file is absent, unreadable, or the last state that was written.
-/

namespace Chbackup

/-- A state file on disk. -/
inductive StateFile (α : Type) where
  | absent
  | unreadable (e : Str)
  | holds (state : α)
  deriving DecidableEq

/-- `load_state_file`. -/
def loadStateFile {α : Type} : StateFile α → Except Str (Option α)
  | .absent => .ok none
  | .unreadable e => .error e
  | .holds state => .ok (some state)

/-- `UploadState`: the keys whose upload has completed. -/
structure UploadState where
  completedKeys : List Str
  backupName : Str
  paramsHash : Str
  deriving DecidableEq

/-- `RestoreState`: the parts attached so far, by table.  A file written before the hash was
recorded has an empty one. -/
structure RestoreState where
  attachedParts : SortedMap Str (List Str)
  backupName : Str
  paramsHash : Str
  deriving DecidableEq

/-- One byte of the FNV-1a hash. -/
def fnvStep (hash : UInt64) (byte : UInt8) : UInt64 :=
  (hash ^^^ byte.toUInt64) * 1099511628211

/-- `compute_params_hash`: FNV-1a over the parameters, each followed by a byte that no text
contains. -/
def computeParamsHash (params : List Str) : Str :=
  let hash := params.foldl
    (fun hash p => fnvStep (p.utf8.foldl fnvStep hash) 0xFF) (14695981039346656037 : UInt64)
  Str.hex false 16 hash.toNat

example : computeParamsHash ["ab", "c"] ≠ computeParamsHash ["a", "bc"] := by decide +kernel

end Chbackup
