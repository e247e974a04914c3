import Chbackup.Backup.Stage
import Chbackup.Lib.Ends
import Chbackup.Upload.Plan

/-!
# The keys of objects

The key of an object on an object disk, from the disk it was frozen on to the disk it is restored
to (`src/object_disk.rs`, `src/backup/collect.rs`, `src/restore/attach.rs`).  The server reads the
key in a metadata file of version 5 as a complete key, and in an older file as relative to the key
prefix of the disk.  The upload has to name the object that the server reads, and the restore has to
write the name of the copy.
-/

namespace Chbackup

/-- How the server reads the key in a metadata file, on a disk with the given key prefix. -/
def resolveKey (version : Nat) (diskPrefix key : Str) : Str :=
  if 5 ≤ version then key
  else if diskPrefix = [] then key
  else diskPrefix ++ '/' :: key

/-- `upload_source_key`. -/
def uploadSourceKey (diskRelative sourcePrefix : Str) : Str := joinDiskKey sourcePrefix diskRelative

/-- `S3Client::full_key`, for a client with the given prefix. -/
def fullKey (clientPrefix relativeKey : Str) : Str :=
  if clientPrefix = [] then relativeKey else clientPrefix.trimEnd '/' ++ '/' :: relativeKey

/-- The key an object of a part is copied to by the restore. -/
def copyDestination (path uuidPrefix dstPrefix : Str) : Str :=
  fullKey dstPrefix (restoreObjectKeys 0 path uuidPrefix dstPrefix).copyDestRelativeKey

/-- The manifest still has what was recorded of a metadata file; the upload has filled in where the
objects were copied to. -/
def Records (srcPrefix : Str) (metadata : ObjectDiskMetadata) (recorded : List S3ObjectInfo) : Prop :=
  ∀ o ∈ recordedObjects srcPrefix metadata, ∃ o' ∈ recorded, o'.path = o.path ∧ o'.size = o.size

/-! ## Slashes at the ends -/

section Slashes

variable {s : Str}

/-- The prefix of a disk does not end with a slash. -/
theorem parseS3Uri_not_suffix (uri : Str) : ¬['/'] <:+ (parseS3Uri uri).2 := by
  rw [parseS3Uri]
  cases (Str.stripPrefix? "s3://" uri).or (Str.stripPrefix? "S3://" uri) with
  | none => exact Str.not_suffix_trimEnd '/' uri
  | some rest =>
    dsimp only
    cases hsplit : Str.splitOnce '/' (rest.trimEnd '/') with
    | none => simp
    | some p =>
      intro hsuffix
      refine Str.not_suffix_trimEnd '/' rest (hsuffix.trans ?_)
      rw [(Str.splitOnce_eq_some_iff.mp hsplit).1]
      exact ⟨p.1 ++ ['/'], by simp⟩

/-- What is left of a prefix without slashes at its ends: nothing is cut at the right. -/
theorem trimMatches_eq (h : ¬['/'] <:+ s) : Str.trimMatches '/' s = s.dropWhile (· = '/') := by
  refine Str.trimEnd_eq_self fun hsuffix => h ?_
  exact hsuffix.trans (List.dropWhile_suffix _)

theorem trimMatches_eq_nil_iff (h : ¬['/'] <:+ s) : Str.trimMatches '/' s = [] ↔ s = [] := by
  rw [trimMatches_eq h]
  constructor
  · intro hnil
    rcases List.eq_nil_or_concat s with hs | ⟨l, x, rfl⟩
    · exact hs
    · have hall := List.dropWhile_eq_nil_iff.mp hnil x (by simp)
      rw [decide_eq_true_eq] at hall
      subst hall
      exact absurd ⟨l, by simp⟩ h
  · rintro rfl
    rfl

theorem trimMatches_eq_self_iff (h : ¬['/'] <:+ s) : Str.trimMatches '/' s = s ↔ ¬['/'] <+: s := by
  rw [trimMatches_eq h]
  cases s with
  | nil => simp
  | cons x s =>
    by_cases hx : x = '/'
    · subst hx
      constructor
      · intro heq
        have hlen := congrArg List.length heq
        rw [List.dropWhile_cons_of_pos (by simp), List.length_cons] at hlen
        have := (List.dropWhile_suffix (fun c : Char => decide (c = '/')) (l := s)).length_le
        omega
      · intro hnot
        exact absurd ⟨s, rfl⟩ hnot
    · rw [List.dropWhile_cons_of_neg (by simp [hx])]
      simp [List.cons_prefix_cons, Ne.symm hx]

end Slashes

/-! ## Keys relative to a disk -/

section Relative

variable {key pre : Str}

theorem diskRelativeKey_of_nil (h : Str.trimMatches '/' pre = []) : diskRelativeKey key pre = key := by
  rw [diskRelativeKey]
  exact if_pos h

/-- A key below the prefix loses it. -/
theorem append_diskRelativeKey (hroot : Str.trimMatches '/' pre ≠ [])
    (h : Str.trimMatches '/' pre ++ ['/'] <+: key) :
    Str.trimMatches '/' pre ++ '/' :: diskRelativeKey key pre = key := by
  rw [diskRelativeKey]
  obtain ⟨rest, rfl⟩ := h
  simp only [if_neg hroot]
  rw [Str.stripPrefix?, if_pos (List.isPrefixOf_iff_prefix.mpr ⟨rest, rfl⟩), Option.getD_some,
    List.drop_left]
  simp

/-- Any other key stays as it is. -/
theorem diskRelativeKey_of_not_below (h : ¬Str.trimMatches '/' pre ++ ['/'] <+: key) :
    diskRelativeKey key pre = key := by
  rw [diskRelativeKey]
  split_ifs with hroot
  · rfl
  · rw [Str.stripPrefix?, if_neg fun hp => h (List.isPrefixOf_iff_prefix.mp hp), Option.getD_none]

/-- **A key is the relative key with the prefix put back or not.** -/
theorem diskRelativeKey_cases (key pre : Str) :
    diskRelativeKey key pre = key ∨
      (Str.trimMatches '/' pre ≠ [] ∧ Str.trimMatches '/' pre ++ ['/'] <+: key ∧
        Str.trimMatches '/' pre ++ '/' :: diskRelativeKey key pre = key) := by
  by_cases hroot : Str.trimMatches '/' pre = []
  · exact Or.inl (diskRelativeKey_of_nil hroot)
  · by_cases hp : Str.trimMatches '/' pre ++ ['/'] <+: key
    · exact Or.inr ⟨hroot, hp, append_diskRelativeKey hroot hp⟩
    · exact Or.inl (diskRelativeKey_of_not_below hp)

end Relative

/-! ## The copy of the upload -/

/-- **The upload copies the object that the server reads** from a file of version 5 iff the key is
below the prefix of the disk, and from an older file iff it is not. -/
theorem uploadSourceKey_eq_iff {version : Nat} {key pre : Str} (hpre : ¬['/'] <:+ pre) :
    uploadSourceKey (diskRelativeKey key pre) pre = resolveKey version pre key ↔
      pre = [] ∨ if 5 ≤ version then Str.trimMatches '/' pre ++ ['/'] <+: key
        else ¬['/'] <+: pre ∧ ¬pre ++ ['/'] <+: key := by
  rw [uploadSourceKey, joinDiskKey]
  by_cases hnil : pre = []
  · subst hnil
    simp only [true_or, iff_true]
    rw [resolveKey, diskRelativeKey_of_nil rfl]
    split_ifs with h₁ h₂ h₃ <;> first | rfl | contradiction
  · have hroot : Str.trimMatches '/' pre ≠ [] := fun h => hnil ((trimMatches_eq_nil_iff hpre).mp h)
    simp only [if_neg hroot, hnil, false_or, resolveKey, if_false]
    by_cases hp : Str.trimMatches '/' pre ++ ['/'] <+: key
    · rw [append_diskRelativeKey hroot hp]
      split_ifs with hv
      · simp [hp]
      · constructor
        · intro heq
          have hlen := congrArg List.length heq
          rw [List.length_append, List.length_cons] at hlen
          omega
        · rintro ⟨hslash, hnot⟩
          rw [(trimMatches_eq_self_iff hpre).mpr hslash] at hp
          exact absurd hp hnot
    · rw [diskRelativeKey_of_not_below hp]
      split_ifs with hv
      · constructor
        · intro heq
          have hlen := congrArg List.length heq
          rw [List.length_append, List.length_cons] at hlen
          omega
        · intro h
          exact absurd h hp
      · rw [List.append_cancel_right_eq, trimMatches_eq_self_iff hpre]
        constructor
        · intro hslash
          rw [(trimMatches_eq_self_iff hpre).mpr hslash] at hp
          exact ⟨hslash, hp⟩
        · exact And.left

/-! ## The keys that the restore writes -/

section Restore

variable {manifestObjects : List S3ObjectInfo} {obj obj' : ObjectRef} {pre : Str}

/-- A key ends with its relative key. -/
theorem endsWith_diskRelativeKey (key pre : Str) :
    (key = diskRelativeKey key pre ||
      ((Str.stripSuffix? (diskRelativeKey key pre) key).any fun root => ['/'].isSuffixOf root)) =
    true := by
  rcases diskRelativeKey_cases key pre with hkey | ⟨-, -, hkey⟩
  · simp [hkey]
  · rw [Bool.or_eq_true]
    right
    generalize hrel : diskRelativeKey key pre = rel at hkey ⊢
    have hsuffix : rel <:+ key := ⟨Str.trimMatches '/' pre ++ ['/'], by rw [← hkey]; simp⟩
    have htake : key.take (key.length - rel.length) = Str.trimMatches '/' pre ++ ['/'] := by
      have hlen : key.length - rel.length = (Str.trimMatches '/' pre ++ ['/']).length := by
        rw [← hkey]
        simp only [List.length_append, List.length_cons, List.length_nil]
        omega
      have hsplit : key = (Str.trimMatches '/' pre ++ ['/']) ++ rel := by rw [← hkey]; simp
      rw [hlen, hsplit, List.take_left]
    rw [Str.stripSuffix?, if_pos (List.isSuffixOf_iff_suffix.mpr hsuffix), htake, Option.any_some,
      List.isSuffixOf_iff_suffix]
    exact List.suffix_append _ _

/-- **A recorded key is the only one that can be found for an object**, if one is found at all. -/
theorem toDiskRelativeKey_eq (hrecorded : ∃ o ∈ manifestObjects,
      o.path = diskRelativeKey obj.relativePath pre ∧ o.size = obj.size)
    (h : toDiskRelativeKey manifestObjects obj = .ok obj') :
    obj'.relativePath = diskRelativeKey obj.relativePath pre := by
  obtain ⟨o, ho, hpath, hsize⟩ := hrecorded
  rw [toDiskRelativeKey] at h
  generalize hmatching : manifestObjects.filter (fun m : S3ObjectInfo =>
    obj.relativePath = m.path ||
      ((Str.stripSuffix? m.path obj.relativePath).any fun root => ['/'].isSuffixOf root)) = matching at h
  have hom : o ∈ matching := by
    rw [← hmatching, List.mem_filter, hpath]
    exact ⟨ho, endsWith_diskRelativeKey obj.relativePath pre⟩
  have hoc : o ∈ if 1 < matching.length then matching.filter (·.size = obj.size) else matching := by
    split_ifs
    · exact List.mem_filter.mpr ⟨hom, by simp [hsize]⟩
    · exact hom
  generalize (if 1 < matching.length then matching.filter (·.size = obj.size) else matching) =
    candidates at h hoc
  match candidates with
  | [] => cases hoc
  | [only] =>
    rw [List.mem_singleton] at hoc
    subst hoc
    cases h
    exact hpath
  | _ :: _ :: _ => cases h

/-- What a loop that can fail makes of an element. -/
theorem getElem?_of_mapM {α β : Type} {g : α → Except Str β} {xs : List α} {ys : List β}
    (h : xs.mapM g = .ok ys) {i : Nat} {x : α} {y : β} (hx : xs[i]? = some x) (hy : ys[i]? = some y) :
    g x = .ok y := by
  induction xs generalizing ys i with
  | nil => cases hx
  | cons x' xs ih =>
    rw [List.mapM_cons] at h
    cases hg : g x' with
    | error e =>
      rw [hg] at h
      cases h
    | ok y' =>
      cases hm : xs.mapM g with
      | error e =>
        rw [hg, hm] at h
        cases h
      | ok ys' =>
        rw [hg, hm] at h
        cases h
        cases i with
        | zero =>
          cases hx
          cases hy
          exact hg
        | succ i => exact ih hm hx hy

/-- The objects of a file after `to_disk_relative_keys`. -/
theorem getElem?_toDiskRelativeKeys {metadata relative : ObjectDiskMetadata} (hv : 5 ≤ metadata.version)
    (hrecords : Records pre metadata manifestObjects)
    (h : toDiskRelativeKeys metadata manifestObjects = .ok relative) {i : Nat}
    (hi : metadata.objects[i]? = some obj) (hi' : relative.objects[i]? = some obj') :
    obj'.relativePath = diskRelativeKey obj.relativePath pre := by
  rw [toDiskRelativeKeys, if_neg (Nat.not_lt.mpr hv)] at h
  cases hm : metadata.objects.mapM (toDiskRelativeKey manifestObjects) with
  | error e =>
    rw [hm] at h
    cases h
  | ok objects =>
    rw [hm] at h
    cases h
    have hobj : toDiskRelativeKey manifestObjects obj = .ok obj' := getElem?_of_mapM hm hi hi'
    refine toDiskRelativeKey_eq ?_ hobj
    exact hrecords _ (List.mem_map_of_mem (List.mem_of_getElem? hi))

theorem version_toDiskRelativeKeys {metadata relative : ObjectDiskMetadata}
    (h : toDiskRelativeKeys metadata manifestObjects = .ok relative) :
    relative.version = metadata.version := by
  rw [toDiskRelativeKeys] at h
  split_ifs at h with hv
  · cases h
    rfl
  · cases hm : metadata.objects.mapM (toDiskRelativeKey manifestObjects) with
    | error e =>
      rw [hm] at h
      cases h
    | ok objects =>
      rw [hm] at h
      cases h
      rfl

/-- **The restore writes the key of the copy** into a file of version 5 iff the prefix of the
destination does not begin with a slash. -/
theorem joinDiskKey_eq_fullKey_iff {relativeKey : Str} (hpre : ¬['/'] <:+ pre) :
    joinDiskKey pre relativeKey = fullKey pre relativeKey ↔ ¬['/'] <+: pre := by
  rw [joinDiskKey, fullKey, Str.trimEnd_eq_self hpre]
  by_cases hnil : pre = []
  · subst hnil
    simp [Str.trimMatches, Str.trimEnd]
  · have hroot : Str.trimMatches '/' pre ≠ [] := fun h => hnil ((trimMatches_eq_nil_iff hpre).mp h)
    simp only [if_neg hroot, if_neg hnil, List.append_cancel_right_eq]
    exact trimMatches_eq_self_iff hpre

/-- Older files keep the relative form, which the server completes as the copy was. -/
theorem resolveKey_eq_fullKey {version : Nat} {relativeKey : Str} (hv : ¬5 ≤ version)
    (hpre : ¬['/'] <:+ pre) : resolveKey version pre relativeKey = fullKey pre relativeKey := by
  rw [resolveKey, if_neg hv, fullKey, Str.trimEnd_eq_self hpre]

end Restore

/-- **The keys of an object agree**: the upload copies the object that the server reads on the source
disk, and the key that the restore writes into a metadata file is one that the server reads on the
destination disk as the key of the copy. -/
structure ObjectKeysAgree (version : Nat) (srcPrefix dstPrefix uuidPrefix key : Str) : Prop where
  copied : uploadSourceKey (diskRelativeKey key srcPrefix) srcPrefix = resolveKey version srcPrefix key
  rewritten : ∀ (metadata relative : ObjectDiskMetadata) (recorded : List S3ObjectInfo),
    metadata.version = version → Records srcPrefix metadata recorded →
    toDiskRelativeKeys metadata recorded = .ok relative →
    ∀ (i : Nat) (obj obj' : ObjectRef), metadata.objects[i]? = some obj → obj.relativePath = key →
      relative.objects[i]? = some obj' →
      resolveKey version dstPrefix
          (restoreObjectKeys relative.version obj'.relativePath uuidPrefix dstPrefix).metadataKey =
        copyDestination (diskRelativeKey key srcPrefix) uuidPrefix dstPrefix

/-- When the keys of an object agree, for each way in which the server reads them. -/
def KeysUnambiguous (version : Nat) (srcPrefix dstPrefix key : Str) : Prop :=
  if 5 ≤ version then
    (srcPrefix = [] ∨ Str.trimMatches '/' srcPrefix ++ ['/'] <+: key) ∧ ¬['/'] <+: dstPrefix
  else srcPrefix = [] ∨ ¬['/'] <+: srcPrefix ∧ ¬srcPrefix ++ ['/'] <+: key

/-- A metadata file with one object. -/
def oneObject (version : Nat) (key : Str) : ObjectDiskMetadata := ⟨version, [⟨key, 1⟩], 1, 0, false, none⟩

/-- The keys of a file with one object can always be found. -/
theorem toDiskRelativeKeys_oneObject {version : Nat} (hv : 5 ≤ version) (key pre : Str) :
    toDiskRelativeKeys (oneObject version key) [⟨diskRelativeKey key pre, 1, []⟩] =
      .ok (oneObject version (diskRelativeKey key pre)) := by
  have hone : toDiskRelativeKey [⟨diskRelativeKey key pre, 1, []⟩] ⟨key, 1⟩ =
      .ok ⟨diskRelativeKey key pre, 1⟩ := by
    simp only [toDiskRelativeKey, List.filter_cons, endsWith_diskRelativeKey, List.filter_nil, if_true,
      List.length_singleton, Nat.lt_irrefl, if_false]
  have hnot : ¬(oneObject version key).version < 5 := Nat.not_lt.mpr hv
  rw [toDiskRelativeKeys, if_neg hnot, oneObject, List.mapM_cons, hone]
  rfl

/-- **Object keys agree end to end** if and only if they are unambiguous. -/
theorem object_keys_agree (version : Nat) (srcUri dstUri uuidPrefix key : Str) :
    ObjectKeysAgree version (parseS3Uri srcUri).2 (parseS3Uri dstUri).2 uuidPrefix key ↔
      KeysUnambiguous version (parseS3Uri srcUri).2 (parseS3Uri dstUri).2 key := by
  have hsrc := parseS3Uri_not_suffix srcUri
  have hdst := parseS3Uri_not_suffix dstUri
  generalize (parseS3Uri srcUri).2 = src at hsrc ⊢
  generalize (parseS3Uri dstUri).2 = dst at hdst ⊢
  rw [KeysUnambiguous]
  constructor
  · intro h
    have hcopied := (uploadSourceKey_eq_iff hsrc).mp h.copied
    split_ifs with hv
    · rw [if_pos hv] at hcopied
      refine ⟨hcopied, ?_⟩
      have hrewritten : resolveKey version dst
          (restoreObjectKeys version (diskRelativeKey key src) uuidPrefix dst).metadataKey =
            copyDestination (diskRelativeKey key src) uuidPrefix dst := h.rewritten (oneObject version key) _ [⟨diskRelativeKey key src, 1, []⟩] rfl
        (fun o ho => ⟨_, List.mem_singleton_self _, by simp_all [recordedObjects, oneObject]⟩)
        (toDiskRelativeKeys_oneObject hv key src) 0 ⟨key, 1⟩ ⟨diskRelativeKey key src, 1⟩ rfl rfl rfl
      rw [resolveKey, if_pos hv] at hrewritten
      simp only [restoreObjectKeys, if_pos hv, copyDestination] at hrewritten
      exact (joinDiskKey_eq_fullKey_iff hdst).mp hrewritten
    · rw [if_neg hv] at hcopied
      exact hcopied
  · intro h
    refine ⟨(uploadSourceKey_eq_iff hsrc).mpr ?_, ?_⟩
    · split_ifs at h ⊢ with hv
      · exact h.1
      · exact h
    · intro metadata relative recorded hversion hrecords hkeys i obj obj' hi hkey hi'
      split_ifs at h with hv
      · have hpath := getElem?_toDiskRelativeKeys (hversion ▸ hv) hrecords hkeys hi hi'
        rw [hpath, hkey, version_toDiskRelativeKeys hkeys, hversion, resolveKey, if_pos hv]
        simp only [restoreObjectKeys, if_pos hv, copyDestination]
        exact (joinDiskKey_eq_fullKey_iff hdst).mpr h.2
      · rw [toDiskRelativeKeys, hversion, if_pos (Nat.lt_of_not_le hv)] at hkeys
        cases hkeys
        obtain rfl : obj = obj' := Option.some.inj (hi.symm.trans hi')
        have hrelative : diskRelativeKey key src = key := by
          rcases h with rfl | ⟨hslash, hnot⟩
          · rfl
          · refine diskRelativeKey_of_not_below ?_
            rw [(trimMatches_eq_self_iff hsrc).mpr hslash]
            exact hnot
        rw [hversion, hkey, hrelative]
        simp only [restoreObjectKeys, if_neg hv, copyDestination]
        exact resolveKey_eq_fullKey hv hdst

/-- A relative key that begins with the prefix of its disk is taken for a complete one. -/
theorem prefixed_key_confused :
    ¬∀ (version : Nat) (srcUri dstUri uuidPrefix key : Str), 2 ≤ version → version ≤ 5 →
      ObjectKeysAgree version (parseS3Uri srcUri).2 (parseS3Uri dstUri).2 uuidPrefix key := by
  intro h
  have hcopied := (h 3 "s3://bucket/disk" "s3://bucket/disk" "store/abc/uuid" "disk/data.bin" (by decide)
    (by decide)).copied
  exact absurd hcopied (by decide +kernel)

end Chbackup
