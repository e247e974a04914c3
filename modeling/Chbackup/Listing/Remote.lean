import Chbackup.Storage.Bucket

/-!
# Listing the remote backups

`list_remote` (`src/list.rs`): every first component of a stored key names a backup, its
`metadata.json` is read, and a backup whose manifest cannot be read or parsed is listed as
broken.  The result is ordered by time, then by name, a missing time coming first.

The command never sees why a read failed: an absent manifest and a failed request give the
same broken summary.
-/

namespace Chbackup

open CallTree

/-- Summary of one backup for display.  A missing time (`⊥`) sorts before every time. -/
structure BackupSummary where
  name : Str
  timestamp : WithBot Int
  size : Nat
  compressedSize : Nat
  tableCount : Nat
  metadataSize : Nat
  rbacSize : Nat
  configSize : Nat
  objectDiskSize : Nat
  /-- Name of the base backup of an incremental one; empty for a full backup. -/
  required : Str
  isBroken : Bool
  brokenReason : Option Str

/-- `broken_summary`. -/
def brokenSummary (name reason : Str) : BackupSummary where
  name := name
  timestamp := ⊥
  size := 0
  compressedSize := 0
  tableCount := 0
  metadataSize := 0
  rbacSize := 0
  configSize := 0
  objectDiskSize := 0
  required := []
  isBroken := true
  brokenReason := some reason

/-- `compute_object_disk_size`. -/
def computeObjectDiskSize (m : BackupManifest) : Nat :=
  (m.allParts.flatMap fun p => (p.s3Objects.getD []).map S3ObjectInfo.size).sum

/-- The base backup a part names, if it is carried. -/
def PartInfo.carriedBase? (p : PartInfo) : Option Str :=
  if p.isCarried then some (p.source.drop carriedPrefix.length) else none

/-- `extract_required_backup`: the base named by the first carried part. -/
def extractRequiredBackup (m : BackupManifest) : Str :=
  (m.allParts.findSome? PartInfo.carriedBase?).getD []

/-- `summary_from_manifest`.  The name comes from the key, not from the manifest. -/
def summaryFromManifest (m : BackupManifest) (backupName : Str) : BackupSummary where
  name := if backupName = [] then m.name else backupName
  timestamp := m.timestamp
  size := (m.tables.values.map TableManifest.totalBytes).sum
  compressedSize := m.compressedSize
  tableCount := m.tables.keys.length
  metadataSize := m.metadataSize
  rbacSize := m.rbacSize
  configSize := m.configSize
  objectDiskSize := computeObjectDiskSize m
  required := extractRequiredBackup m
  isBroken := false
  brokenReason := none

/-- `extract_backup_name_from_prefix`: the component without its slashes. -/
def extractBackupNameFromPrefix (commonPrefix : Str) : Str :=
  (commonPrefix.dropWhile (· = '/')).rdropWhile (· = '/')

/-- The key of a backup's manifest. -/
def manifestKey (name : Str) : Str := name ++ "/metadata.json"

/-- The text that every key of a backup starts with. -/
def backupDir (name : Str) : Str := name ++ ['/']

/-- The body of the listing loop: one backup, healthy or broken. -/
def summarizeRemote (name : Str) : S3Prog BackupSummary :=
  (getObject (manifestKey name)).attempt.bind fun
    | .ok data =>
      match fromJsonBytes data with
      | .ok manifest => .ret (summaryFromManifest manifest name)
      | .error e => .ret (brokenSummary name ("manifest parse error: " ++ e))
    | .error e => .ret (brokenSummary name ("metadata.json not found: " ++ e))

/-- By time, then by name. -/
def BackupSummary.le (a b : BackupSummary) : Prop :=
  a.timestamp < b.timestamp ∨ a.timestamp = b.timestamp ∧ a.name ≤ b.name

instance : DecidableRel BackupSummary.le := fun a b =>
  haveI : Decidable (a.timestamp < b.timestamp) := WithBot.decidableLT a.timestamp b.timestamp
  inferInstanceAs (Decidable (_ ∨ _))

/-- `list_remote`. -/
def listRemote : S3Prog (List BackupSummary) :=
  listCommonPrefixes.bind fun prefixes =>
    (Prog.forEach ((prefixes.map extractBackupNameFromPrefix).filter (· ≠ []))
      summarizeRemote).bind fun summaries => .ret (summaries.insertionSort BackupSummary.le)

/-! ## What the listing reads in a bucket -/

/-- A backup name: a first component of a key. -/
def IsBackupName (name : Str) : Prop := name ≠ [] ∧ '/' ∉ name

namespace Bucket

/-- The manifest of a backup, if it is stored and parses. -/
def manifest? (b : Bucket) (name : Str) : Option BackupManifest :=
  (b.get? (manifestKey name)).bind fun body => (fromJsonBytes body).toOption

/-- The names of the backups that have at least one key. -/
def backupNames (b : Bucket) : List Str :=
  (b.commonPrefixes.map extractBackupNameFromPrefix).filter (· ≠ [])

/-- What the listing says of one backup when no request fails. -/
def summary (b : Bucket) (name : Str) : BackupSummary :=
  match b.get? (manifestKey name) with
  | some body =>
    match fromJsonBytes body with
    | .ok manifest => summaryFromManifest manifest name
    | .error e => brokenSummary name ("manifest parse error: " ++ e)
  | none => brokenSummary name ("metadata.json not found: " ++ "NoSuchKey")

/-- The listing of a bucket when no request fails. -/
def summaries (b : Bucket) : List BackupSummary :=
  (b.backupNames.map b.summary).insertionSort BackupSummary.le

end Bucket

theorem extractBackupNameFromPrefix_append {n : Str} (hn : '/' ∉ n) :
    extractBackupNameFromPrefix (n ++ ['/']) = n := by
  cases n with
  | nil => rfl
  | cons c n =>
    have hc : c ≠ '/' := fun h => hn (by simp [h])
    rw [extractBackupNameFromPrefix, List.cons_append,
      List.dropWhile_cons_of_neg (by simpa using hc), ← List.cons_append,
      List.rdropWhile_concat_pos _ _ _ (by simp), List.rdropWhile_eq_self_iff]
    intro hne hlast
    have hmem : (c :: n).getLast hne ∈ c :: n := List.getLast_mem hne
    rw [of_decide_eq_true hlast] at hmem
    exact hn hmem

theorem backupDir_prefix_manifestKey (n : Str) : backupDir n <+: manifestKey n :=
  ⟨"metadata.json", by rw [backupDir, manifestKey, List.append_assoc]; rfl⟩

/-- A key lies under one backup only. -/
theorem backupDir_unique {a b k : Str} (ha : '/' ∉ a) (hb : '/' ∉ b) (hak : backupDir a <+: k)
    (hbk : backupDir b <+: k) : a = b :=
  Str.append_cons_prefix_inj ha hb hak hbk

theorem manifestKey_injective {a b : Str} (h : manifestKey a = manifestKey b) : a = b :=
  List.append_cancel_right h

namespace Bucket

theorem mem_backupNames {b : Bucket} {n : Str} :
    n ∈ b.backupNames ↔ IsBackupName n ∧ ∃ k ∈ b.keys, backupDir n <+: k := by
  simp only [backupNames, List.mem_filter, List.mem_map, mem_commonPrefixes,
    decide_eq_true_eq, ne_eq]
  constructor
  · rintro ⟨⟨p, ⟨m, hm, rfl, k, hk, hp⟩, rfl⟩, hne⟩
    rw [extractBackupNameFromPrefix_append hm] at hne ⊢
    exact ⟨⟨hne, hm⟩, k, hk, hp⟩
  · rintro ⟨⟨hne, hn⟩, k, hk, hp⟩
    exact ⟨⟨backupDir n, ⟨n, hn, rfl, k, hk, hp⟩, extractBackupNameFromPrefix_append hn⟩, hne⟩

theorem nodup_backupNames (b : Bucket) : b.backupNames.Nodup := by
  refine List.Nodup.filter _ (List.Nodup.map_on ?_ (List.nodup_dedup _))
  intro p hp q hq h
  obtain ⟨m, hm, rfl, -⟩ := mem_commonPrefixes.mp hp
  obtain ⟨n, hn, rfl, -⟩ := mem_commonPrefixes.mp hq
  rw [extractBackupNameFromPrefix_append hm, extractBackupNameFromPrefix_append hn] at h
  rw [h]

/-- However the backups are summarised, as long as under their own names, the sorted listing
names each of them once. -/
theorem nodup_names_sorted (b : Bucket) {f : Str → BackupSummary}
    (hf : ∀ n, n ≠ [] → (f n).name = n) :
    (((b.backupNames.map f).insertionSort BackupSummary.le).map BackupSummary.name).Nodup := by
  have hp := List.perm_insertionSort BackupSummary.le (b.backupNames.map f)
  rw [(hp.map _).nodup_iff, List.map_map]
  have hid : b.backupNames.map (BackupSummary.name ∘ f) = b.backupNames := by
    conv_rhs => rw [← List.map_id b.backupNames]
    exact List.map_congr_left fun n hn => hf n (mem_backupNames.mp hn).1.1
  rw [hid]
  exact b.nodup_backupNames

theorem summary_name {b : Bucket} {n : Str} (hn : n ≠ []) : (b.summary n).name = n := by
  rw [summary]
  split
  · split
    · exact if_neg hn
    · rfl
  · rfl

/-- A backup is listed as healthy exactly when its manifest is stored and parses. -/
theorem isBroken_summary (b : Bucket) (n : Str) :
    (b.summary n).isBroken = (b.manifest? n).isNone := by
  rw [summary, manifest?]
  cases b.get? (manifestKey n) with
  | none => rfl
  | some body => cases body <;> rfl

theorem mem_keys_of_manifest? {b : Bucket} {n : Str} {m : BackupManifest}
    (h : b.manifest? n = some m) : manifestKey n ∈ b.keys := by
  obtain ⟨body, hbody, -⟩ := Option.bind_eq_some_iff.mp h
  exact mem_keys_of_get? hbody

theorem mem_backupNames_of_manifest? {b : Bucket} {n : Str} {m : BackupManifest}
    (hn : IsBackupName n) (h : b.manifest? n = some m) : n ∈ b.backupNames :=
  mem_backupNames.mpr ⟨hn, _, mem_keys_of_manifest? h, backupDir_prefix_manifestKey n⟩

theorem exec_summarizeRemote (b : Bucket) (n : Str) :
    exec serve (summarizeRemote n) b = (.ok (b.summary n), b) := by
  rw [summarizeRemote, exec_bind, exec_attempt, exec_getObject, summary]
  cases b.get? (manifestKey n) with
  | none => rfl
  | some body => cases body <;> rfl

theorem exec_forEach_summarizeRemote (b : Bucket) (ns : List Str) :
    exec serve (Prog.forEach ns summarizeRemote) b = (.ok (ns.map b.summary), b) := by
  induction ns with
  | nil => rfl
  | cons n ns ih =>
    rw [Prog.forEach, exec_bind, exec_summarizeRemote]
    dsimp only
    rw [exec_bind, ih]
    rfl

/-- **The listing, with no request failing**, changes nothing and returns the summaries. -/
theorem exec_listRemote (b : Bucket) :
    exec serve listRemote b = (.ok b.summaries, b) := by
  rw [listRemote, exec_bind, exec_listCommonPrefixes]
  dsimp only
  rw [exec_bind, exec_forEach_summarizeRemote]
  rfl

end Bucket

end Chbackup
