import Chbackup.Keys.Objects

/-!
# Listed keys and requested keys

A listing returns complete keys, a request takes a key relative to the prefix of the client.
`strip_s3_prefix` (`src/list.rs`) turns the ones into the others, and `full_key` (`src/storage/s3.rs`)
puts the prefix back.  The first takes one slash at the end of the prefix into account, the second cuts
off all of them.
-/

namespace Chbackup

/-- What `strip_s3_prefix` takes for the beginning of a listed key. -/
def prefixWithSlash (pre : Str) : Str := if ['/'].isSuffixOf pre then pre else pre ++ ['/']

/-- `strip_s3_prefix`. -/
def stripS3Prefix (key pre : Str) : Str :=
  if pre = [] then key else (Str.stripPrefix? (prefixWithSlash pre) key).getD key

/-- The keys that `delete_remote` asks `delete_objects` to delete, as they are sent. -/
def deleteRemoteKeys (pre : Str) (objects : List Str) : List Str :=
  (objects.map fun key => stripS3Prefix key pre).map (fullKey pre)

/-- Listed keys and requested keys are inverse to each other. -/
structure KeysInverse (pre : Str) : Prop where
  relative : ∀ r, stripS3Prefix (fullKey pre r) pre = r
  listed : ∀ relativePrefix key, fullKey pre relativePrefix <+: key →
    fullKey pre (stripS3Prefix key pre) = key
  /-- A deletion names the objects that were listed. -/
  deleted : ∀ backupName objects, (∀ key ∈ objects, fullKey pre (backupName ++ ['/']) <+: key) →
    deleteRemoteKeys pre objects = objects

/-! ## One slash or more -/

variable {pre : Str}

/-- With one slash at most, both functions take the same text for the prefix. -/
theorem prefixWithSlash_eq (h : ¬['/', '/'] <:+ pre) :
    prefixWithSlash pre = pre.trimEnd '/' ++ ['/'] := by
  by_cases hslash : ['/'] <:+ pre
  · obtain ⟨u, rfl⟩ := hslash
    have hu : ¬['/'] <:+ u := by
      rintro ⟨w, rfl⟩
      exact h ⟨w, by simp⟩
    rw [prefixWithSlash, if_pos (List.isSuffixOf_iff_suffix.mpr ⟨u, rfl⟩), Str.trimEnd_append_self,
      Str.trimEnd_eq_self hu]
  · rw [prefixWithSlash, if_neg (fun hs => hslash (List.isSuffixOf_iff_suffix.mp hs)),
      Str.trimEnd_eq_self hslash]

theorem fullKey_eq (hne : pre ≠ []) (h : ¬['/', '/'] <:+ pre) (r : Str) :
    fullKey pre r = prefixWithSlash pre ++ r := by
  rw [fullKey, if_neg hne, prefixWithSlash_eq h, List.append_assoc]
  rfl

theorem stripS3Prefix_append (hne : pre ≠ []) (r : Str) :
    stripS3Prefix (prefixWithSlash pre ++ r) pre = r := by
  rw [stripS3Prefix, if_neg hne, Str.stripPrefix?,
    if_pos (List.isPrefixOf_iff_prefix.mpr ⟨r, rfl⟩), Option.getD_some, List.drop_left]

/-- A key below the prefix comes back. -/
theorem fullKey_stripS3Prefix (h : ¬['/', '/'] <:+ pre) {relativePrefix key : Str}
    (hkey : fullKey pre relativePrefix <+: key) : fullKey pre (stripS3Prefix key pre) = key := by
  by_cases hne : pre = []
  · rw [fullKey, if_pos hne, stripS3Prefix, if_pos hne]
  · obtain ⟨rest, rfl⟩ := hkey
    rw [fullKey_eq hne h relativePrefix, List.append_assoc, stripS3Prefix_append hne,
      fullKey_eq hne h]

/-- With two slashes the key that the prefix is put before is too short to be stripped. -/
theorem stripS3Prefix_of_slashes (h : ['/', '/'] <:+ pre) :
    stripS3Prefix (fullKey pre []) pre = fullKey pre [] ∧ fullKey pre [] ≠ [] := by
  obtain ⟨(u : Str), rfl⟩ := h
  have hne : u ++ ['/', '/'] ≠ [] := by simp
  have hsuffix : ['/'] <:+ u ++ ['/', '/'] := ⟨u ++ ['/'], by simp⟩
  have htrim : Str.trimEnd '/' (u ++ ['/', '/']) = Str.trimEnd '/' u := by
    have happend : u ++ ['/', '/'] = (u ++ ['/']) ++ ['/'] := by simp
    rw [happend, Str.trimEnd_append_self, Str.trimEnd_append_self]
  have hshort : ¬(u ++ ['/', '/']) <+: Str.trimEnd '/' u ++ ['/'] := by
    intro hp
    have hlen := hp.length_le
    have hle := Str.length_trimEnd_le '/' u
    simp only [List.length_append, List.length_cons, List.length_nil] at hlen
    omega
  rw [fullKey, if_neg hne, htrim]
  refine ⟨?_, by simp⟩
  rw [stripS3Prefix, if_neg hne, prefixWithSlash, if_pos (List.isSuffixOf_iff_suffix.mpr hsuffix),
    Str.stripPrefix?, if_neg (fun hp => hshort (List.isPrefixOf_iff_prefix.mp hp)), Option.getD_none]

/-- **Listed keys and requested keys are inverse to each other exactly if the prefix does not end in two
slashes.** -/
theorem keys_inverse_iff (pre : Str) : KeysInverse pre ↔ ¬['/', '/'] <:+ pre := by
  constructor
  · intro h hslashes
    obtain ⟨hstrip, hne⟩ := stripS3Prefix_of_slashes hslashes
    exact hne (hstrip.symm.trans (h.relative []))
  · intro h
    refine ⟨fun r => ?_, fun _ _ hkey => fullKey_stripS3Prefix h hkey, fun backupName objects hall => ?_⟩
    · by_cases hne : pre = []
      · rw [stripS3Prefix, if_pos hne, fullKey, if_pos hne]
      · rw [fullKey_eq hne h, stripS3Prefix_append hne]
    · rw [deleteRemoteKeys, List.map_map]
      calc objects.map (fullKey pre ∘ fun key => stripS3Prefix key pre) = objects.map id :=
            List.map_congr_left fun key hkey => fullKey_stripS3Prefix h (hall key hkey)
        _ = objects := List.map_id objects

/-- Below the prefix `backups//` every key of a deletion misses its object. -/
theorem keys_under_two_slashes : ¬∀ pre, KeysInverse pre := by
  intro h
  obtain ⟨hstrip, hne⟩ := @stripS3Prefix_of_slashes "backups//" ⟨"backups", by decide⟩
  exact hne (hstrip.symm.trans ((h "backups//").relative []))

end Chbackup
