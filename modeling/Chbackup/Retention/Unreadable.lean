import Chbackup.Retention.Interrupted

/-!
# Retention when manifests cannot be read

A pass reads each manifest twice: to list the backups, and to protect what the survivors refer to.
A failure of the second read ends the pass.  A failure of the first does not: the backup is listed
as broken, it is no survivor, and nothing protects what it refers to.
-/

namespace Chbackup

open CallTree Prog

/-! ## A store where reads fail -/

/-- A bucket, the keys read so far and the keys passed to `delete_objects` so far. -/
structure FlakyStore where
  bucket : Bucket
  reads : List Str
  passed : List Str

/-- Which reads fail, and how: by the number of earlier reads of the key, and by the key. -/
abbrev ReadFailures : Type := Nat → Str → Option Str

namespace FlakyStore

/-- Answer a request.  Only reads fail. -/
def serve (fails : ReadFailures) : (c : S3Call) → FlakyStore → S3Reply c × FlakyStore
  | .getObject k, s =>
    (match fails (s.reads.count k) k with
      | some e => .error e
      | none => (Bucket.serve (.getObject k) s.bucket).1, { s with reads := k :: s.reads })
  | .deleteObjects ks, s =>
    (.ok 0, { s with bucket := s.bucket.discard fun k => k ∈ ks, passed := s.passed ++ ks })
  | .listCommonPrefixes, s => (.ok s.bucket.commonPrefixes, s)
  | .listObjects pre, s => (.ok (s.bucket.list pre), s)

/-- The store before a pass. -/
def ofBucket (b : Bucket) : FlakyStore := ⟨b, [], []⟩

/-- The store after a pass. -/
def afterRetention (fails : ReadFailures) (b : Bucket) (keep : Int) : FlakyStore :=
  (exec (serve fails) (retentionRemote keep) (ofBucket b)).2

end FlakyStore

/-- No key that a stored and readable manifest refers to was passed to `delete_objects`, unless its
backup was deleted. -/
def FailsClosed (fails : ReadFailures) (b : Bucket) (keep : Int) : Prop :=
  ∀ n m, IsBackupName n → b.manifest? n = some m →
    manifestKey n ∉ (FlakyStore.afterRetention fails b keep).passed →
      ∀ e ∈ collectKeyPrefixesFromManifest m,
        ∀ k ∈ (FlakyStore.afterRetention fails b keep).passed, ¬Denotes e k

/-! ## The listing -/

section Listing

variable (fails : ReadFailures) (b : Bucket)

/-- What the listing says of a backup. -/
def flakySummary (n : Str) : BackupSummary :=
  match fails 0 (manifestKey n) with
  | some e => brokenSummary n ("metadata.json not found: " ++ e)
  | none => b.summary n

/-- The plan of a pass. -/
def flakyPlan (keep : Int) : RetentionPlan :=
  planRetentionDeletions ((b.backupNames.map (flakySummary fails b)).insertionSort BackupSummary.le)
    keep.toNat

variable {fails b}

theorem flakySummary_name {n : Str} (hn : n ≠ []) : (flakySummary fails b n).name = n := by
  unfold flakySummary
  split
  · rfl
  · exact Bucket.summary_name hn

theorem exec_summarizeRemote {s : FlakyStore} {n : Str}
    (hn : s.reads.count (manifestKey n) = 0) :
    exec (FlakyStore.serve fails) (summarizeRemote n) s =
      (.ok (flakySummary fails s.bucket n), { s with reads := manifestKey n :: s.reads }) := by
  rw [summarizeRemote, exec_bind, exec_attempt]
  simp only [getObject, perform_bind, exec_call, FlakyStore.serve, hn, flakySummary]
  cases fails 0 (manifestKey n) with
  | some e => rfl
  | none =>
    simp only [Bucket.serve, Bucket.summary]
    cases s.bucket.get? (manifestKey n) with
    | none => rfl
    | some body => cases body <;> rfl

theorem exec_summarizeAll {s : FlakyStore} {ns : List Str} (hnodup : ns.Nodup)
    (hns : ∀ n ∈ ns, s.reads.count (manifestKey n) = 0) :
    exec (FlakyStore.serve fails) (Prog.forEach ns summarizeRemote) s =
      (.ok (ns.map (flakySummary fails s.bucket)),
        { s with reads := (ns.map manifestKey).reverse ++ s.reads }) := by
  induction ns generalizing s with
  | nil => rfl
  | cons n ns ih =>
    obtain ⟨hn, hnodup⟩ := List.nodup_cons.mp hnodup
    rw [Prog.forEach, exec_bind, exec_summarizeRemote (hns n List.mem_cons_self)]
    dsimp only
    rw [exec_bind, ih hnodup]
    · simp
    · intro x hx
      rw [List.count_cons_of_ne, hns x (List.mem_cons_of_mem _ hx)]
      intro heq
      rw [manifestKey_injective heq] at hn
      exact hn hx

theorem exec_listRemote :
    exec (FlakyStore.serve fails) listRemote (FlakyStore.ofBucket b) =
      (.ok ((b.backupNames.map (flakySummary fails b)).insertionSort BackupSummary.le),
        ⟨b, (b.backupNames.map manifestKey).reverse, []⟩) := by
  have hprefixes : exec (FlakyStore.serve fails) listCommonPrefixes (FlakyStore.ofBucket b) =
      (.ok b.commonPrefixes, FlakyStore.ofBucket b) := rfl
  have hall : exec (FlakyStore.serve fails) (Prog.forEach b.backupNames summarizeRemote)
      (FlakyStore.ofBucket b) = _ := exec_summarizeAll b.nodup_backupNames fun _ _ => rfl
  rw [Bucket.backupNames] at hall
  rw [listRemote, exec_bind, hprefixes]
  dsimp only
  rw [exec_bind, hall]
  simp [FlakyStore.ofBucket, Bucket.backupNames]

theorem mem_flakyPlan {keep : Int} {n : Str} :
    n ∈ (flakyPlan fails b keep).toDelete ∨ n ∈ (flakyPlan fails b keep).surviving ↔
      (IsBackupName n ∧ (b.manifest? n).isSome) ∧ fails 0 (manifestKey n) = none := by
  rw [flakyPlan, mem_plan_iff]
  constructor
  · rintro ⟨s, hs, hbroken, rfl⟩
    obtain ⟨n, hn, rfl⟩ := List.mem_map.mp ((List.mem_insertionSort _).mp hs)
    have hname := (Bucket.mem_backupNames.mp hn).1
    rw [flakySummary_name hname.1]
    unfold flakySummary at hbroken
    split at hbroken
    · cases hbroken
    · rename_i hread
      rw [Bucket.isBroken_summary, Option.isNone_eq_false_iff] at hbroken
      exact ⟨⟨hname, hbroken⟩, hread⟩
  · rintro ⟨⟨hn, hm⟩, hread⟩
    obtain ⟨m, hm'⟩ := Option.isSome_iff_exists.mp hm
    refine ⟨flakySummary fails b n, (List.mem_insertionSort _).mpr (List.mem_map_of_mem
      (Bucket.mem_backupNames_of_manifest? hn hm')), ?_, flakySummary_name hn.1⟩
    unfold flakySummary
    rw [hread]
    dsimp only
    rw [Bucket.isBroken_summary, Option.isNone_eq_false_iff]
    exact hm

theorem flakyPlan_disjoint {keep : Int} {n : Str} (h : n ∈ (flakyPlan fails b keep).toDelete) :
    n ∉ (flakyPlan fails b keep).surviving :=
  plan_disjoint _ (b.nodup_names_sorted fun _ => flakySummary_name) h

end Listing

/-! ## The survivors -/

section Survivors

variable {fails : ReadFailures} {s : FlakyStore} {ns : List Str}

theorem exec_fetchManifest_flaky {n : Str} {m : BackupManifest}
    (hn : s.reads.count (manifestKey n) = 1) (hm : s.bucket.manifest? n = some m) :
    exec (FlakyStore.serve fails) (fetchManifest n) s =
      ((match fails 1 (manifestKey n) with
        | some e => .error e
        | none => .ok m), { s with reads := manifestKey n :: s.reads }) := by
  obtain ⟨body, hbody, hparse⟩ := Option.bind_eq_some_iff.mp hm
  rw [fetchManifest, exec_bind]
  simp only [getObject, perform_bind, exec_call, FlakyStore.serve, hn]
  cases fails 1 (manifestKey n) with
  | some e => rfl
  | none =>
    simp only [Bucket.serve, hbody]
    cases body with
    | json m' =>
      cases hparse
      rfl
    | raw => cases hparse

/-- A survivor has been read once when the pass reads it again. -/
def ReadOnce (s : FlakyStore) (ns : List Str) : Prop :=
  ns.Nodup ∧ ∀ n ∈ ns, s.reads.count (manifestKey n) = 1 ∧ (s.bucket.manifest? n).isSome

theorem ReadOnce.tail {n : Str} (h : ReadOnce s (n :: ns)) :
    ReadOnce { s with reads := manifestKey n :: s.reads } ns := by
  obtain ⟨hnodup, hread⟩ := h
  obtain ⟨hn, hnodup⟩ := List.nodup_cons.mp hnodup
  refine ⟨hnodup, fun x hx => ?_⟩
  obtain ⟨hcount, hsome⟩ := hread x (List.mem_cons_of_mem _ hx)
  refine ⟨?_, hsome⟩
  rw [List.count_cons_of_ne, hcount]
  intro heq
  rw [manifestKey_injective heq] at hn
  exact hn hx

/-- The reads of the survivors: all of them, or an error.  Nothing is deleted. -/
theorem exec_fetchSurvivors_flaky (h : ReadOnce s ns) :
    ∃ reads, (∀ n ∈ ns, fails 1 (manifestKey n) = none) ∧
        exec (FlakyStore.serve fails)
          (Prog.forEach ns fun n => (fetchManifest n).mapError (retentionAborted n)) s =
            (.ok (ns.filterMap s.bucket.manifest?), { s with reads := reads }) ∨
      (∃ n ∈ ns, fails 1 (manifestKey n) ≠ none) ∧ ∃ e,
        exec (FlakyStore.serve fails)
          (Prog.forEach ns fun n => (fetchManifest n).mapError (retentionAborted n)) s =
            (.error e, { s with reads := reads }) := by
  induction ns generalizing s with
  | nil => exact ⟨s.reads, Or.inl ⟨fun _ hn => (nomatch hn), rfl⟩⟩
  | cons n ns ih =>
    obtain ⟨hcount, hsome⟩ := h.2 n List.mem_cons_self
    obtain ⟨m, hm⟩ := Option.isSome_iff_exists.mp hsome
    obtain ⟨reads, hrest⟩ := ih h.tail
    rw [Prog.forEach, exec_bind, exec_mapError, exec_fetchManifest_flaky hcount hm]
    cases hread : fails 1 (manifestKey n) with
    | some e =>
      refine ⟨_, Or.inr ⟨⟨n, List.mem_cons_self, by simp [hread]⟩, retentionAborted n e, rfl⟩⟩
    | none =>
      dsimp only [Except.mapError]
      rw [exec_bind]
      rcases hrest with ⟨hall, hexec⟩ | ⟨⟨x, hx, hfail⟩, e, hexec⟩
      · refine ⟨reads, Or.inl ⟨List.forall_mem_cons.mpr ⟨hread, hall⟩, ?_⟩⟩
        rw [hexec]
        simp [hm]
      · refine ⟨reads, Or.inr ⟨⟨x, List.mem_cons_of_mem _ hx, hfail⟩, e, ?_⟩⟩
        rw [hexec]

end Survivors

/-! ## What is passed to `delete_objects` -/

namespace FlakyStore

variable {α : Type} {fails : ReadFailures}

/-- Without a read, the store behaves as one where nothing fails. -/
theorem exec_of_no_read {Q : α → Prop} {p : S3Prog α}
    (hp : Within (fun c => ∀ k, c ≠ .getObject k) Q p) (s : FlakyStore) :
    (exec (serve fails) p s).2.bucket = (exec Bucket.serve p s.bucket).2 := by
  induction p generalizing s with
  | ret a => rfl
  | fail e => rfl
  | call c f ih =>
    obtain ⟨hc, hf⟩ := hp.of_call
    cases c with
    | getObject k => exact absurd rfl (hc k)
    | _ => exact ih _ (hf _) _

/-- What is gone was passed to `delete_objects`. -/
theorem passed_of_gone (p : S3Prog α) (s : FlakyStore) : s.passed ⊆ (exec (serve fails) p s).2.passed ∧
    ∀ k ∈ s.bucket.keys, k ∉ (exec (serve fails) p s).2.bucket.keys →
      k ∈ (exec (serve fails) p s).2.passed := by
  induction p generalizing s with
  | ret a => exact ⟨List.Subset.refl _, fun k hk hgone => absurd hk hgone⟩
  | fail e => exact ⟨List.Subset.refl _, fun k hk hgone => absurd hk hgone⟩
  | call c k ih =>
    obtain ⟨hpassed, hgone⟩ := ih (serve fails c s).1 (serve fails c s).2
    cases c with
    | deleteObjects ks =>
      refine ⟨List.Subset.trans (List.subset_append_left _ ks) hpassed, fun x hx hx' => ?_⟩
      by_cases hks : x ∈ ks
      · exact hpassed (List.mem_append_right _ hks)
      · refine hgone x ?_ hx'
        exact Bucket.mem_keys_discard.mpr ⟨hx, by simpa using hks⟩
    | _ => exact ⟨hpassed, hgone⟩

/-- What was passed to `delete_objects` is in a batch of the run. -/
theorem batch_of_passed {p : S3Prog α} {s : FlakyStore} {k : Str}
    (hk : k ∈ (exec (serve fails) p s).2.passed) : k ∈ s.passed ∨
      ∃ ks r, (⟨.deleteObjects ks, r⟩ : S3Event) ∈ execTrace (serve fails) p s ∧ k ∈ ks := by
  induction p generalizing s with
  | ret a => exact Or.inl hk
  | fail e => exact Or.inl hk
  | call c f ih =>
    rcases ih _ hk with hpassed | ⟨ks, r, hev, hks⟩
    · cases c with
      | deleteObjects ks =>
        rcases List.mem_append.mp hpassed with hpassed | hks
        · exact Or.inl hpassed
        · exact Or.inr ⟨ks, _, List.mem_cons_self, hks⟩
      | _ => exact Or.inl hpassed
    · exact Or.inr ⟨ks, r, List.mem_cons_of_mem _ hev, hks⟩

theorem serve_flaky_allowed (c : S3Call) (s : FlakyStore) :
    unreliableStore.allows (reliable s.bucket) ⟨c, (serve fails c s).1⟩ ∧
      unreliableStore.next (reliable s.bucket) ⟨c, (serve fails c s).1⟩ =
        reliable (serve fails c s).2.bucket := by
  cases c with
  | getObject k =>
    refine ⟨fun body hbody => ?_, rfl⟩
    simp only [serve] at hbody
    split at hbody
    · cases hbody
    · exact (serve_allowed (.getObject k) s.bucket).1 body hbody
  | deleteObjects ks => exact serve_allowed (.deleteObjects ks) s.bucket
  | listCommonPrefixes => exact serve_allowed .listCommonPrefixes s.bucket
  | listObjects pre => exact serve_allowed (.listObjects pre) s.bucket

end FlakyStore

/-! ## When a pass fails closed -/

section FailsClosed

variable (fails : ReadFailures) (b : Bucket) (keep : Int)

/-- The read that protects a survivor fails. -/
def SurvivorUnreadable : Prop :=
  ∃ n ∈ (flakyPlan fails b keep).surviving, fails 1 (manifestKey n) ≠ none

/-- A stored and readable manifest that is neither a survivor of the plan nor deleted, because the
listing failed to read it or because the pass keeps it, refers to nothing under a deleted
candidate. -/
def UnprotectedSpared : Prop :=
  ∀ n m, IsBackupName n → b.manifest? n = some m → n ∉ (flakyPlan fails b keep).surviving →
    ¬(n ∈ (flakyPlan fails b keep).toDelete ∧
      Condemned b ((flakyPlan fails b keep).survivors b) n) →
      ∀ e ∈ collectKeyPrefixesFromManifest m, ∀ k ∈ b.keys, Denotes e k →
        underCondemned b ((flakyPlan fails b keep).survivors b) (flakyPlan fails b keep).toDelete k =
          false

/-- No survivor refers to the `metadata.json` of a deleted candidate. -/
def SurvivorsSpare : Prop :=
  ∀ n m, n ∈ (flakyPlan fails b keep).surviving → b.manifest? n = some m →
    ∀ e ∈ collectKeyPrefixesFromManifest m, ∀ d ∈ (flakyPlan fails b keep).toDelete,
      Condemned b ((flakyPlan fails b keep).survivors b) d → ¬Denotes e (manifestKey d)

variable {fails b keep}

theorem within_retireCandidates (prot bases ds : List Str) :
    Within (fun c => ∀ k, c ≠ S3Call.getObject k) (fun _ => True)
      (Prog.forEach ds fun name => (retireCandidate listPrefix deleteKeys prot bases name).bind
        fun fate => .ret (name, fate)) := by
  have hdelete : ∀ ks, Within (fun c => ∀ k, c ≠ S3Call.getObject k) (fun _ => True)
      (deleteKeys ks) := by
    intro ks
    unfold deleteKeys deleteObjects
    split
    · exact within_ret trivial
    · refine within_perform (fun _ h => nomatch h) fun reply => ?_
      cases reply
      · exact within_fail _
      · exact within_ret trivial
  refine (within_forEach (Q := fun _ _ => True) fun d _ => ?_).imp fun _ _ => trivial
  refine Within.bind (Q := fun _ => True) ?_ fun _ _ => within_ret trivial
  unfold retireCandidate
  split
  · exact within_ret trivial
  refine Within.bind (Q := fun _ => True) ?_ fun reply _ => ?_
  · refine (Within.attempt (Q := fun _ => True) ?_).imp fun _ _ => trivial
    refine within_perform (fun _ h => nomatch h) fun reply => ?_
    cases reply
    · exact within_fail _
    · exact within_ret trivial
  split
  · exact within_ret trivial
  · exact within_ret trivial
  · dsimp only
    split
    · exact within_ret trivial
    · refine (hdelete _).attempt.bind fun reply _ => ?_
      split
      · exact within_ret trivial
      · refine (hdelete _).attempt.bind fun reply _ => ?_
        split <;> exact within_ret trivial

theorem readOnce_survivors :
    ReadOnce ⟨b, (b.backupNames.map manifestKey).reverse, []⟩ (flakyPlan fails b keep).surviving := by
  have hnodup := plan_nodup keep.toNat
    (b.nodup_names_sorted (f := flakySummary fails b) fun _ => flakySummary_name)
  refine ⟨(List.nodup_append.mp hnodup).2.1, fun n hn => ?_⟩
  obtain ⟨⟨hname, hsome⟩, -⟩ := mem_flakyPlan.mp (Or.inr hn)
  obtain ⟨m, hm⟩ := Option.isSome_iff_exists.mp hsome
  refine ⟨List.count_eq_one_of_mem ?_ ?_, hsome⟩
  · refine List.nodup_reverse.mpr (b.nodup_backupNames.map fun _ _ => manifestKey_injective)
  · exact List.mem_reverse.mpr (List.mem_map_of_mem (Bucket.mem_backupNames_of_manifest? hname hm))

/-- After the listing, the pass works on its plan. -/
theorem afterRetention_eq (hkeep : 1 ≤ keep) : FlakyStore.afterRetention fails b keep =
    if (flakyPlan fails b keep).toDelete = [] then
      ⟨b, (b.backupNames.map manifestKey).reverse, []⟩
    else (exec (FlakyStore.serve fails) (retentionPass (flakyPlan fails b keep))
      ⟨b, (b.backupNames.map manifestKey).reverse, []⟩).2 := by
  rw [FlakyStore.afterRetention, retentionRemote, if_neg (by omega), exec_bind, exec_listRemote]
  dsimp only
  change (exec _ (if (flakyPlan fails b keep).toDelete = [] then _ else _) _).2 = _
  split
  · rfl
  · exact exec_bind_ret _ _ _ _

/-- **What a pass passes to `delete_objects`**: nothing if a survivor cannot be read, and otherwise
what lies under the condemned candidates. -/
theorem passed_iff (hkeep : 1 ≤ keep) :
    (SurvivorUnreadable fails b keep → (FlakyStore.afterRetention fails b keep).passed = []) ∧
    (¬SurvivorUnreadable fails b keep → ∀ k, k ∈ (FlakyStore.afterRetention fails b keep).passed ↔
      k ∈ b.keys ∧ underCondemned b ((flakyPlan fails b keep).survivors b)
        (flakyPlan fails b keep).toDelete k = true) := by
  have hnames : ∀ d ∈ (flakyPlan fails b keep).toDelete, '/' ∉ d ∧ manifestKey d ∈ b.keys := by
    intro d hd
    obtain ⟨⟨hname, hsome⟩, -⟩ := mem_flakyPlan.mp (Or.inl hd)
    obtain ⟨m, hm⟩ := Option.isSome_iff_exists.mp hsome
    exact ⟨hname.2, Bucket.mem_keys_of_manifest? hm⟩
  have hslash : ∀ d ∈ (flakyPlan fails b keep).toDelete, '/' ∉ d := fun d hd => (hnames d hd).1
  have honce : ReadOnce ⟨b, (b.backupNames.map manifestKey).reverse, []⟩
    (flakyPlan fails b keep).surviving := readOnce_survivors
  rw [afterRetention_eq hkeep]
  split
  · rename_i hnone
    refine ⟨fun _ => rfl, fun _ k => ⟨fun hk => absurd hk List.not_mem_nil, fun hk => ?_⟩⟩
    rw [hnone] at hk
    cases hk.2
  obtain ⟨reads, ⟨hall, hexec⟩ | ⟨hfail, e, hexec⟩⟩ := exec_fetchSurvivors_flaky honce
  · refine ⟨fun hsome => ?_, fun _ k => ⟨fun hk => ?_, fun hk => ?_⟩⟩
    · obtain ⟨n, hn, hne⟩ := hsome
      exact absurd (hall n hn) hne
    · -- every batch of the pass lies under a condemned candidate
      obtain ⟨hl, -⟩ := World.legal_execTrace FlakyStore.serve_flaky_allowed
        (retentionPass (flakyPlan fails b keep)) ⟨b, (b.backupNames.map manifestKey).reverse, []⟩
      rcases FlakyStore.batch_of_passed hk with hk | ⟨ks, r, hev, hks⟩
      · cases hk
      · obtain ⟨d, hd, hcond, hunder⟩ := condemned_of_deleted hslash
          (runs_execTrace _ _ _) hl hev
        obtain ⟨hdk, hstored⟩ := hunder k hks
        refine ⟨hstored.elim (fun heq => heq ▸ (hnames d hd).2) id, ?_⟩
        exact underCondemned_iff.mpr ⟨d, hd, hcond, hdk⟩
    · obtain ⟨hk, hunder⟩ := hk
      rw [retentionPass, retentionRemoteInner, exec_bind, hexec]
      dsimp only
      rw [exec_bind_ret]
      refine (FlakyStore.passed_of_gone _ _).2 k hk ?_
      rw [FlakyStore.exec_of_no_read (within_retireCandidates _ _ _)]
      obtain ⟨fates, hfates⟩ := exec_retireCandidates ((flakyPlan fails b keep).survivors b) _ hslash b
      rw [RetentionPlan.survivors] at hfates hunder
      rw [hfates, Bucket.mem_keys_discard, hunder]
      exact fun h => Bool.noConfusion h.2
  · refine ⟨fun _ => ?_, fun h => absurd hfail h⟩
    rw [retentionPass, retentionRemoteInner, exec_bind, hexec]

theorem manifestKey_passed_iff (hkeep : 1 ≤ keep) (hread : ¬SurvivorUnreadable fails b keep) {n : Str}
    {m : BackupManifest} (hn : IsBackupName n) (hm : b.manifest? n = some m) :
    manifestKey n ∈ (FlakyStore.afterRetention fails b keep).passed ↔
      n ∈ (flakyPlan fails b keep).toDelete ∧
        Condemned b ((flakyPlan fails b keep).survivors b) n := by
  have hslash : ∀ d ∈ (flakyPlan fails b keep).toDelete, '/' ∉ d :=
    fun d hd => (mem_flakyPlan.mp (Or.inl hd)).1.1.2
  rw [(passed_iff hkeep).2 hread, underCondemned_manifestKey_iff hslash hn.2]
  exact and_iff_right (Bucket.mem_keys_of_manifest? hm)

theorem spared_of_failsClosed (hkeep : 1 ≤ keep) (hread : ¬SurvivorUnreadable fails b keep)
    (h : FailsClosed fails b keep) : UnprotectedSpared fails b keep ∧ SurvivorsSpare fails b keep := by
  have hpassed := (passed_iff hkeep).2 hread
  constructor
  · intro n m hn hm _ hkept e he k hk hden
    by_contra hunder
    refine h n m hn hm ?_ e he k ((hpassed k).mpr ⟨hk, by simpa using hunder⟩) hden
    exact fun hmem => hkept ((manifestKey_passed_iff hkeep hread hn hm).mp hmem)
  · intro n m hn hm e he d hd hcond hden
    have hname := (mem_flakyPlan.mp (Or.inr hn)).1.1
    obtain ⟨⟨hdname, hsome⟩, -⟩ := mem_flakyPlan.mp (Or.inl hd)
    obtain ⟨md, hmd⟩ := Option.isSome_iff_exists.mp hsome
    refine h n m hname hm (fun hmem => ?_) e he _
      ((manifestKey_passed_iff hkeep hread hdname hmd).mpr ⟨hd, hcond⟩) hden
    exact flakyPlan_disjoint ((manifestKey_passed_iff hkeep hread hname hm).mp hmem).1 hn

theorem failsClosed_of_spared (hkeep : 1 ≤ keep) (hread : ¬SurvivorUnreadable fails b keep)
    (hun : UnprotectedSpared fails b keep) (hsp : SurvivorsSpare fails b keep) :
    FailsClosed fails b keep := by
  intro n m hn hm hkept e he k hk hden
  obtain ⟨hkb, hunder⟩ := ((passed_iff hkeep).2 hread k).mp hk
  by_cases hsurv : n ∈ (flakyPlan fails b keep).surviving
  · -- a survivor protects what it refers to, manifests apart
    obtain ⟨d, hd, hcond, hdk⟩ := underCondemned_iff.mp hunder
    have hne : k ≠ manifestKey d := by
      intro heq
      rw [heq] at hden
      exact hsp n m hsurv hm e he d hd hcond hden
    have hprot : isKeyProtected k
        (((flakyPlan fails b keep).survivors b).flatMap collectKeyPrefixesFromManifest) = true :=
      isKeyProtected_iff.mpr ⟨e, List.mem_flatMap.mpr
        ⟨m, List.mem_filterMap.mpr ⟨n, hsurv, hm⟩, he⟩, hden⟩
    rw [hcond.2 k hkb hdk hne] at hprot
    cases hprot
  · have hfree := hun n m hn hm hsurv
      (fun hdel => hkept ((manifestKey_passed_iff hkeep hread hn hm).mpr hdel)) e he k hkb hden
    rw [hunder] at hfree
    cases hfree

/-- **Exactly when a pass fails closed.** -/
theorem retention_fails_closed_iff (fails : ReadFailures) (b : Bucket) (keep : Int)
    (hkeep : 1 ≤ keep) :
    FailsClosed fails b keep ↔ SurvivorUnreadable fails b keep ∨
      UnprotectedSpared fails b keep ∧ SurvivorsSpare fails b keep := by
  by_cases hread : SurvivorUnreadable fails b keep
  · refine ⟨fun _ => Or.inl hread, fun _ n m _ _ _ e _ k hk => ?_⟩
    rw [(passed_iff hkeep).1 hread] at hk
    cases hk
  · refine ⟨fun h => Or.inr (spared_of_failsClosed hkeep hread h), fun h => ?_⟩
    obtain ⟨hun, hsp⟩ := h.resolve_left hread
    exact failsClosed_of_spared hkeep hread hun hsp

end FailsClosed

/-- Nothing fails. -/
def noFailure : ReadFailures := fun _ _ => none

/-- A pass that deletes an unrelated backup. -/
theorem unrelated_backup_fails_closed : (1 : Int) ≤ 1 ∧ FailsClosed noFailure fullThenEmpty 1 := by
  refine ⟨by decide, (retention_fails_closed_iff noFailure fullThenEmpty 1 (by decide)).mpr
    (Or.inr ⟨fun n m hn hm hsurv hdel => ?_, fun n m hn hm e he => ?_⟩)⟩
  · have hall : ∀ n ∈ fullThenEmpty.backupNames,
        n ∈ (flakyPlan noFailure fullThenEmpty 1).surviving ∨
          n ∈ (flakyPlan noFailure fullThenEmpty 1).toDelete ∧ Condemned fullThenEmpty
            ((flakyPlan noFailure fullThenEmpty 1).survivors fullThenEmpty) n := by decide +kernel
    rcases hall n (Bucket.mem_backupNames_of_manifest? hn hm) with h | h
    · exact absurd h hsurv
    · exact absurd h hdel
  · have hall : ∀ n ∈ (flakyPlan noFailure fullThenEmpty 1).surviving,
        ∀ m ∈ fullThenEmpty.manifest? n, collectKeyPrefixesFromManifest m = [] := by decide +kernel
    rw [hall n hn m hm] at he
    cases he

/-- A chain of two backups and a later one of its own. -/
def chainThenEmpty : Bucket where
  objects := twoLinkChain.objects ++ [storedManifest (emptyBackup "later" 9)]
  nodup := by decide +kernel

/-- The listing fails to read the second backup of the chain. -/
def secondUnlisted : ReadFailures := fun i k =>
  if i = 0 ∧ k = manifestKey "incr1" then some "timeout" else none

/-- **A backup that the listing failed to read loses its base.** -/
theorem unlisted_backup_loses_base : ¬FailsClosed secondUnlisted chainThenEmpty 1 := by
  intro h
  have hkept : manifestKey "incr1" ∉
      (FlakyStore.afterRetention secondUnlisted chainThenEmpty 1).passed := by decide +kernel
  exact h "incr1" chainFirst ⟨by decide, by decide⟩ (by decide +kernel) hkept
    "full/data/d/t/all_1_1_0.tar.lz4" (by decide +kernel) "full/data/d/t/all_1_1_0.tar.lz4"
    (by decide +kernel) (Or.inl rfl)

end Chbackup
