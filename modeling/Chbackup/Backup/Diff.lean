import Chbackup.Manifest

/-!
# Incremental diff

`diff_parts` (`src/backup/diff.rs`): a part of the current backup that the base backup already
holds, under the same table, disk and name and with the same checksum, is marked as carried and
takes the base part's stored keys.
-/

namespace Chbackup

/-- How many parts the diff carried, left for upload, and found changed under an old name. -/
structure DiffResult where
  carried : Nat
  uploaded : Nat
  crcMismatches : Nat
  deriving DecidableEq

/-- The lookup table of the diff.  A later part of the same name replaces an earlier one. -/
def baseLookup (base : BackupManifest) (tableKey diskName partName : Str) : Option PartInfo :=
  (base.tables.get? tableKey).bind fun table =>
    (table.parts.get? diskName).bind fun parts => parts.reverse.find? fun p => p.name = partName

/-- What the diff does to one part. -/
def diffPart (base : BackupManifest) (tableKey diskName : Str) (part : PartInfo) : PartInfo :=
  match baseLookup base tableKey diskName part.name with
  | some basePart =>
    if part.checksumCrc64 = basePart.checksumCrc64 then
      { part with
        source := carriedPrefix ++ base.name
        backupKey := basePart.backupKey
        s3Objects := basePart.s3Objects }
    else part
  | none => part

/-- The counters the diff adds up for one part. -/
def diffCount (base : BackupManifest) (tableKey diskName : Str) (part : PartInfo) : DiffResult :=
  match baseLookup base tableKey diskName part.name with
  | some basePart => if part.checksumCrc64 = basePart.checksumCrc64 then ⟨1, 0, 0⟩ else ⟨0, 1, 1⟩
  | none => ⟨0, 1, 0⟩

/-- `diff_parts`: the manifest it leaves in `current`. -/
def diffParts (current base : BackupManifest) : BackupManifest :=
  { current with
    tables := current.tables.mapValues fun tableKey table =>
      { table with
        parts := table.parts.mapValues fun diskName parts =>
          parts.map (diffPart base tableKey diskName) } }

/-- `diff_parts`: the counters it returns. -/
def diffPartsResult (current base : BackupManifest) : DiffResult :=
  let counts := current.tables.entries.flatMap fun t =>
    t.2.parts.entries.flatMap fun d => d.2.map (diffCount base t.1 d.1)
  ⟨(counts.map DiffResult.carried).sum, (counts.map DiffResult.uploaded).sum,
    (counts.map DiffResult.crcMismatches).sum⟩

/-- What the diff does depends on the name and the checksum of a part only: it leaves every
part with these alone, or carries every such part. -/
theorem diffPart_cases (base : BackupManifest) (t d : Str) (p : PartInfo) :
    (∀ q : PartInfo, q.name = p.name → q.checksumCrc64 = p.checksumCrc64 →
      diffPart base t d q = q) ∨
    ∃ basePart : PartInfo, ∀ q : PartInfo, q.name = p.name → q.checksumCrc64 = p.checksumCrc64 →
      diffPart base t d q =
        { q with
          source := carriedPrefix ++ base.name
          backupKey := basePart.backupKey
          s3Objects := basePart.s3Objects } := by
  cases hl : baseLookup base t d p.name with
  | none =>
    refine Or.inl fun q hn _ => ?_
    rw [diffPart, hn, hl]
  | some bp =>
    by_cases hcrc : p.checksumCrc64 = bp.checksumCrc64
    · refine Or.inr ⟨bp, fun q hn hc => ?_⟩
      rw [diffPart, hn, hl]
      dsimp only
      rw [if_pos (hc.trans hcrc)]
    · refine Or.inl fun q hn hc => ?_
      rw [diffPart, hn, hl]
      dsimp only
      rw [if_neg fun h => hcrc (hc.symm.trans h)]

end Chbackup
