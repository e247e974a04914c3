import Chbackup.Retention.Interrupted

/-!
# Deleting a remote backup

`delete_remote` (`src/list.rs`) deletes what lies under the name of a backup, the manifest among the other
keys and in no order of its own.  It does not look at other manifests, and a deletion may leave any of the
keys: so a readable manifest keeps what it refers to exactly if none refers to a key under the backup.
-/

namespace Chbackup

open CallTree Prog

/-- `delete_remote`.  The requests of `S3Client::delete_objects` for a thousand keys each are one request:
of all the keys any may stay. -/
def deleteRemote (backupName : Str) : S3Prog Unit :=
  (listObjects (backupDir backupName)).bind fun objects =>
    if objects = [] then
      .fail ("Backup not found: remote backup '".toList ++ backupName ++
        "' not found (no objects under prefix '".toList ++ backupDir backupName ++ "')".toList)
    else (deleteObjects (objects.map StoredObject.key)).bind fun _ => .ret ()

/-- Whatever fails and wherever the deletion is cut, every readable manifest keeps what it refers to. -/
def DeletionSafe (backupName : Str) (b : Bucket) : Prop :=
  ∀ batches t e, Runs (deleteRemote backupName) t e → unreliableStore.Legal (b, batches) t →
    ∀ n m, IsBackupName n → (unreliableStore.after (b, batches) t).1.manifest? n = some m →
      Intact b (unreliableStore.after (b, batches) t).1 m

/-- No readable manifest, that of the backup itself included, refers to a key under the backup; a manifest
may refer to its own `metadata.json`. -/
def BackupUnreferred (backupName : Str) (b : Bucket) : Prop :=
  ∀ k ∈ b.keys, backupDir backupName <+: k → ∀ n m, IsBackupName n → b.manifest? n = some m →
    ∀ e ∈ collectKeyPrefixesFromManifest m, Denotes e k → k = manifestKey n

/-! ## What a deletion takes away -/

section Run

variable {backupName : Str} {b : Bucket} {batches : Nat → Str → Bool}

/-- Only keys under the backup are gone, at every moment of a deletion. -/
theorem gone_under_backup {t : List S3Event} {e : End Str Unit} (ht : Runs (deleteRemote backupName) t e)
    (hl : unreliableStore.Legal (b, batches) t) :
    ∃ gone, (unreliableStore.after (b, batches) t).1 = b.discard gone ∧
      ∀ k, gone k = true → backupDir backupName <+: k := by
  have hnone : ∃ gone, b = b.discard gone ∧ ∀ k, gone k = true → backupDir backupName <+: k :=
    ⟨fun _ => false, (Bucket.discard_false fun _ _ => rfl).symm, fun _ h => absurd h Bool.false_ne_true⟩
  unfold deleteRemote listObjects at ht
  cases ht with
  | cut => exact hnone
  | call listed ht =>
    obtain ⟨hlisted, hl⟩ := hl
    rcases listed with x | objects
    · cases ht <;> exact hnone
    obtain rfl : objects = b.list (backupDir backupName) := hlisted objects rfl
    change Runs (if b.list (backupDir backupName) = [] then _ else _) _ _ at ht
    split at ht
    · cases ht <;> exact hnone
    rename_i hne
    rw [deleteObjects, if_neg (fun h => hne (List.map_eq_nil_iff.mp h))] at ht
    cases ht with
    | cut => exact hnone
    | call reply ht =>
      -- no request comes after the deletion
      have hend : ∀ {t : List S3Event} {e : End Str Unit}, Runs ((ofExcept reply : S3Prog Nat).bind fun _ =>
          .ret ()) t e → t = [] := by
        intro t e ht
        cases reply <;> cases ht <;> rfl
      rw [hend ht]
      refine ⟨fun k => k ∈ (b.list (backupDir backupName)).map StoredObject.key && batches 0 k, rfl,
        fun k hk => ?_⟩
      have hmem := of_decide_eq_true (Bool.and_eq_true_iff.mp hk).1
      exact (Bucket.mem_keys_list.mp hmem).2

/-- A deletion may take away one key and leave the others. -/
theorem can_lose_key {k : Str} (hk : k ∈ b.keys) (hunder : backupDir backupName <+: k) :
    ∃ t e, Runs (deleteRemote backupName) t e ∧ unreliableStore.Legal (b, fun _ x => x = k) t ∧
      (unreliableStore.after (b, fun _ x => x = k) t).1 = b.discard fun x => x = k := by
  have hmem : k ∈ (b.list (backupDir backupName)).map StoredObject.key :=
    Bucket.mem_keys_list.mpr ⟨hk, hunder⟩
  have hne : b.list (backupDir backupName) ≠ [] := by
    intro h
    rw [h] at hmem
    exact List.not_mem_nil hmem
  refine ⟨[⟨.listObjects (backupDir backupName), .ok (b.list (backupDir backupName))⟩,
    ⟨.deleteObjects ((b.list (backupDir backupName)).map StoredObject.key), .ok 0⟩], .returned (), ?_, ?_, ?_⟩
  · refine Runs.call _ ?_
    change Runs (if b.list (backupDir backupName) = [] then _ else _) _ _
    rw [if_neg hne, deleteObjects, if_neg (fun h => hne (List.map_eq_nil_iff.mp h))]
    exact Runs.call _ (Runs.ret ())
  · exact ⟨fun objects h => (Except.ok.inj h).symm, trivial, trivial⟩
  · show b.discard (fun x => x ∈ (b.list (backupDir backupName)).map StoredObject.key && decide (x = k)) = _
    refine Bucket.discard_congr fun x _ => ?_
    by_cases hx : x = k
    · rw [hx, decide_eq_true hmem, Bool.true_and]
    · rw [decide_eq_false hx, Bool.and_false]

end Run

/-! ## Safety -/

/-- The bucket without some keys keeps what a manifest refers to, if none of these keys is referred to. -/
theorem Intact.discard {b : Bucket} {gone : Str → Bool} {m : BackupManifest} (h : Intact b b m)
    (hkept : ∀ e ∈ collectKeyPrefixesFromManifest m, ∀ k ∈ b.keys, Denotes e k → gone k = false) :
    Intact b (b.discard gone) m := by
  intro e he
  have hself := h e he
  split_ifs at hself ⊢ with hdir
  · intro k hk
    rw [Bucket.get?_discard]
    by_cases hmem : k ∈ b.keys
    · rw [hkept e he k hmem (.inr ⟨hdir, hk⟩), if_neg Bool.false_ne_true]
    · have hnone : b.get? k = none := by
        rw [← Bucket.get?_isSome_iff, Option.not_isSome_iff_eq_none] at hmem
        exact hmem
      rw [hnone, ite_self]
  · have hmem : e ∈ b.keys := Bucket.get?_isSome_iff.mp hself
    rw [Bucket.get?_discard, hkept e he e hmem (.inl rfl), if_neg Bool.false_ne_true]
    exact hself

/-- A key that is gone and was referred to is missed. -/
theorem not_intact_discard {b : Bucket} {m : BackupManifest} {e k : Str}
    (he : e ∈ collectKeyPrefixesFromManifest m) (hk : k ∈ b.keys) (hden : Denotes e k) :
    ¬Intact b (b.discard fun x => x = k) m := by
  intro h
  have hmissing := h e he
  have hsome := Bucket.get?_isSome_iff.mpr hk
  have hgone : (b.discard fun x => x = k).get? k = none := by
    rw [Bucket.get?_discard, if_pos (decide_eq_true rfl)]
  split_ifs at hmissing with hdir
  · rcases hden with rfl | ⟨-, hpre⟩
    · rw [← hmissing k List.prefix_rfl, hgone] at hsome
      cases hsome
    · rw [← hmissing k hpre, hgone] at hsome
      cases hsome
  · rcases hden with rfl | ⟨hdir', -⟩
    · rw [hgone] at hmissing
      cases hmissing
    · exact hdir hdir'

/-- **Deleting a remote backup is safe exactly if no readable manifest refers to a key under it.** -/
theorem delete_remote_safe_iff (b : Bucket) (hintact : AllIntact b) (backupName : Str) :
    DeletionSafe backupName b ↔ BackupUnreferred backupName b := by
  constructor
  · intro h k hk hunder n m hn hm e he hden
    by_contra hne
    obtain ⟨t, e', ht, hl, hafter⟩ := can_lose_key hk hunder
    have hsafe := h _ t e' ht hl n m hn
    rw [hafter] at hsafe
    have hm' : (b.discard fun x => x = k).manifest? n = some m :=
      Bucket.manifest?_discard_eq_some_iff.mpr ⟨hm, decide_eq_false (Ne.symm hne)⟩
    exact not_intact_discard he hk hden (hsafe hm')
  · intro h batches t e ht hl n m hn hm
    obtain ⟨gone, hafter, hunder⟩ := gone_under_backup ht hl
    rw [hafter] at hm ⊢
    obtain ⟨hm, hown⟩ := Bucket.manifest?_discard_eq_some_iff.mp hm
    refine (hintact n m hn hm).discard fun x hx k hk hden => ?_
    by_contra hgone
    rw [Bool.not_eq_false] at hgone
    rw [h k hk (hunder k hgone) n m hn hm x hx hden, hown] at hgone
    exact Bool.false_ne_true hgone

/-- A backup of one part, and an upload that never came to its manifest. -/
def fullAndLeftover : Bucket where
  objects := [storedManifest chainFull, storedArchive "full/data/d/t/all_1_1_0.tar.lz4",
    storedArchive "broken/data/d/t/all_1_1_0.tar.lz4"]
  nodup := by decide +kernel

/-- Nobody misses what is left of an upload. -/
theorem leftover_deletion_safe : DeletionSafe "broken" fullAndLeftover := by
  refine (delete_remote_safe_iff fullAndLeftover (allIntact_iff.mpr (by decide +kernel)) "broken").mpr ?_
  intro k hk hunder n m hn hm e he hden
  have hnone : ∀ k ∈ fullAndLeftover.keys, backupDir "broken" <+: k →
      ∀ n ∈ fullAndLeftover.backupNames, ∀ m ∈ fullAndLeftover.manifest? n,
        ∀ e ∈ collectKeyPrefixesFromManifest m, ¬Denotes e k := by decide +kernel
  exact absurd hden (hnone k hk hunder n (Bucket.mem_backupNames_of_manifest? hn hm) m hm e he)

/-- **Deleting a base leaves the incremental backup without the part that it carries.** -/
theorem base_deletion_dangles : AllIntact twoLinkChain ∧ ¬DeletionSafe "full" twoLinkChain := by
  have hintact : AllIntact twoLinkChain := allIntact_iff.mpr (by decide +kernel)
  refine ⟨hintact, fun h => ?_⟩
  obtain ⟨t, e, ht, hl, hafter⟩ := @can_lose_key "full" twoLinkChain
    "full/data/d/t/all_1_1_0.tar.lz4" (by decide +kernel) (by decide +kernel)
  have hsafe := h _ t e ht hl "incr1" chainFirst ⟨by decide, by decide⟩
  rw [hafter] at hsafe
  have hread : (twoLinkChain.discard fun x => x = "full/data/d/t/all_1_1_0.tar.lz4").manifest? "incr1" =
      some chainFirst := by decide +kernel
  exact not_intact_discard (e := "full/data/d/t/all_1_1_0.tar.lz4") (by decide +kernel) (by decide +kernel)
    (.inl rfl) (hsafe hread)

end Chbackup
