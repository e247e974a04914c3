import Chbackup.Lib.Program
import Chbackup.Manifest

/-!
# The backup bucket

The remote store as the S3 client shows it (`src/storage/s3.rs`): a finite map from keys to
objects, and the four requests that the list, retention and cleanup commands make.  Keys are
relative to the prefix the client is configured with.

The bytes of an object matter to these commands only through what the JSON reader makes of
them, so a body is either the manifest it parses to or raw bytes that parse to nothing.

`Bucket.serve` answers the requests with no call failing.  A failed request is any other reply:
programs are trees over *all* replies, so the error paths need no second model.
-/

namespace Chbackup

open CallTree

/-- The body of a stored object. -/
inductive Body where
  | json (m : BackupManifest)
  | raw (bytes : List Nat)
  deriving DecidableEq, Inhabited

/-- `BackupManifest::from_json_bytes`. -/
def fromJsonBytes : Body → Except Str BackupManifest
  | .json m => .ok m
  | .raw _ => .error "Failed to parse manifest from JSON bytes"

/-- An object as a listing shows it, together with its body. -/
structure StoredObject where
  key : Str
  body : Body
  /-- Absent when the service sends no usable time. -/
  lastModified : Option Int
  deriving DecidableEq, Inhabited

/-- The bucket: objects under distinct keys. -/
@[ext] structure Bucket where
  objects : List StoredObject
  nodup : (objects.map StoredObject.key).Nodup

namespace Bucket

/-- The stored keys. -/
def keys (b : Bucket) : List Str := b.objects.map StoredObject.key

/-- The body stored under a key. -/
def get? (b : Bucket) (k : Str) : Option Body :=
  (b.objects.find? fun o => o.key = k).map StoredObject.body

/-- The objects whose key starts with the given text. -/
def list (b : Bucket) (pre : Str) : List StoredObject :=
  b.objects.filter fun o => pre <+: o.key

/-- The bucket without the keys that satisfy a predicate. -/
def discard (b : Bucket) (gone : Str → Bool) : Bucket where
  objects := b.objects.filter fun o => !gone o.key
  nodup := b.nodup.sublist (List.filter_sublist.map _)

/-- The first component of a key, with its slash, if the key has one: the "directory" that a
delimited listing shows for it. -/
def commonPrefix? (k : Str) : Option Str :=
  (Str.splitOnce '/' k).map fun p => p.1 ++ ['/']

/-- The distinct first components of the stored keys. -/
def commonPrefixes (b : Bucket) : List Str := (b.keys.filterMap commonPrefix?).dedup

theorem get?_isSome_iff {b : Bucket} {k : Str} : (b.get? k).isSome ↔ k ∈ b.keys := by
  simp only [get?, Option.isSome_map, List.find?_isSome, decide_eq_true_eq, keys, List.mem_map]

theorem mem_keys_of_get? {b : Bucket} {k : Str} {x : Body} (h : b.get? k = some x) :
    k ∈ b.keys := get?_isSome_iff.mp (by rw [h]; rfl)

theorem mem_keys_list {b : Bucket} {pre k : Str} :
    k ∈ (b.list pre).map StoredObject.key ↔ k ∈ b.keys ∧ pre <+: k := by
  simp only [list, keys, List.mem_map, List.mem_filter, decide_eq_true_eq]
  constructor
  · rintro ⟨o, ⟨ho, hp⟩, rfl⟩
    exact ⟨⟨o, ho, rfl⟩, hp⟩
  · rintro ⟨⟨o, ho, rfl⟩, hp⟩
    exact ⟨o, ⟨ho, hp⟩, rfl⟩

/-- A key that is not discarded keeps its object. -/
theorem get?_discard (b : Bucket) (gone : Str → Bool) (k : Str) :
    (b.discard gone).get? k = if gone k then none else b.get? k := by
  simp only [get?, discard]
  induction b.objects with
  | nil => simp
  | cons o os ih =>
    by_cases hk : o.key = k
    · subst hk
      by_cases hg : gone o.key <;> simp_all
    · by_cases hg : gone o.key <;> simp_all

theorem mem_keys_discard {b : Bucket} {gone : Str → Bool} {k : Str} :
    k ∈ (b.discard gone).keys ↔ k ∈ b.keys ∧ gone k = false := by
  rw [← get?_isSome_iff, get?_discard, ← get?_isSome_iff]
  by_cases hg : gone k = true <;> simp [hg]

/-- Discarding twice is discarding what either predicate holds of. -/
theorem discard_discard (b : Bucket) (f g : Str → Bool) :
    (b.discard f).discard g = b.discard fun k => f k || g k := by
  refine Bucket.ext ?_
  simp only [discard, List.filter_filter]
  congr 1
  funext o
  cases f o.key <;> cases g o.key <;> rfl

theorem discard_congr {b : Bucket} {f g : Str → Bool} (h : ∀ k ∈ b.keys, f k = g k) :
    b.discard f = b.discard g := by
  refine Bucket.ext (List.filter_congr fun o ho => ?_)
  rw [h o.key (List.mem_map.mpr ⟨o, ho, rfl⟩)]

/-- Discarding nothing leaves the bucket alone. -/
theorem discard_false {b : Bucket} {f : Str → Bool} (h : ∀ k ∈ b.keys, f k = false) :
    b.discard f = b := by
  refine Bucket.ext (List.filter_eq_self.mpr fun o ho => ?_)
  rw [h o.key (List.mem_map.mpr ⟨o, ho, rfl⟩)]
  rfl

/-- Discarding elsewhere does not change what a listing shows. -/
theorem list_discard {b : Bucket} {gone : Str → Bool} {pre : Str}
    (h : ∀ k, pre <+: k → gone k = false) : (b.discard gone).list pre = b.list pre := by
  simp only [list, discard, List.filter_filter]
  refine List.filter_congr fun o _ => ?_
  by_cases hp : pre <+: o.key
  · simp [hp, h o.key hp]
  · simp [hp]

theorem mem_commonPrefixes {b : Bucket} {p : Str} :
    p ∈ b.commonPrefixes ↔ ∃ n, '/' ∉ n ∧ p = n ++ ['/'] ∧ ∃ k ∈ b.keys, p <+: k := by
  simp only [commonPrefixes, List.mem_dedup, List.mem_filterMap, commonPrefix?,
    Option.map_eq_some_iff, Prod.exists, Str.splitOnce_eq_some_iff]
  constructor
  · rintro ⟨k, hk, n, rest, ⟨rfl, hn⟩, rfl⟩
    exact ⟨n, hn, rfl, _, hk, ⟨rest, by simp⟩⟩
  · rintro ⟨n, hn, rfl, k, hk, rest, rfl⟩
    exact ⟨_, hk, n, rest, ⟨by simp, hn⟩, rfl⟩

end Bucket

/-! ## The requests -/

/-- A request to the object store. -/
inductive S3Call where
  | listCommonPrefixes
  | getObject (key : Str)
  | listObjects (pre : Str)
  | deleteObjects (keys : List Str)
  deriving DecidableEq

/-- What a request brings back: an error text, or the answer.  A batch delete reports how many
of its keys failed. -/
abbrev S3Reply : S3Call → Type
  | .listCommonPrefixes => Except Str (List Str)
  | .getObject _ => Except Str Body
  | .listObjects _ => Except Str (List StoredObject)
  | .deleteObjects _ => Except Str Nat

/-- A program over the object store whose errors are texts. -/
abbrev S3Prog (α : Type) : Type := Prog S3Call S3Reply Str α

/-- `S3Client::list_common_prefixes` below the root, with the delimiter `/`. -/
def listCommonPrefixes : S3Prog (List Str) :=
  (Prog.perform S3Call.listCommonPrefixes).bind Prog.ofExcept

/-- `S3Client::get_object`. -/
def getObject (key : Str) : S3Prog Body := (Prog.perform (S3Call.getObject key)).bind Prog.ofExcept

/-- `S3Client::list_objects`. -/
def listObjects (pre : Str) : S3Prog (List StoredObject) :=
  (Prog.perform (S3Call.listObjects pre)).bind Prog.ofExcept

/-- `S3Client::delete_objects`: no request is made for no keys. -/
def deleteObjects (keys : List Str) : S3Prog Nat :=
  if keys = [] then .ret 0
  else (Prog.perform (S3Call.deleteObjects keys)).bind Prog.ofExcept

namespace Bucket

/-- Answer a request with no call failing.  Only a read of an absent key is an error. -/
def serve : (c : S3Call) → Bucket → S3Reply c × Bucket
  | .listCommonPrefixes, b => (.ok b.commonPrefixes, b)
  | .getObject k, b =>
    (match b.get? k with
      | some x => .ok x
      | none => .error "NoSuchKey", b)
  | .listObjects pre, b => (.ok (b.list pre), b)
  | .deleteObjects ks, b => (.ok 0, b.discard fun k => k ∈ ks)

@[simp] theorem exec_getObject (b : Bucket) (k : Str) :
    exec serve (getObject k) b =
      (match b.get? k with
        | some x => .ok x
        | none => .error "NoSuchKey", b) := by
  simp only [getObject, Prog.perform_bind, exec_call, serve]
  cases b.get? k <;> rfl

@[simp] theorem exec_listObjects (b : Bucket) (pre : Str) :
    exec serve (listObjects pre) b = (.ok (b.list pre), b) := rfl

@[simp] theorem exec_listCommonPrefixes (b : Bucket) :
    exec serve listCommonPrefixes b = (.ok b.commonPrefixes, b) := rfl

@[simp] theorem exec_deleteObjects (b : Bucket) (ks : List Str) :
    exec serve (deleteObjects ks) b = (.ok 0, b.discard fun k => k ∈ ks) := by
  by_cases h : ks = []
  · subst h
    rw [discard_false fun k _ => by simp]
    rfl
  · rw [deleteObjects, if_neg h]
    rfl

end Bucket

end Chbackup
