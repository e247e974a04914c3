import Chbackup.Backup.Diff
import Chbackup.Retention.Pass

/-!
# Referential closure under retention

A manifest is *intact* when everything it refers to is still stored.  The retention pass
protects what the planned survivors refer to; it does not protect what a candidate refers to
that it then decides to keep.  The pass therefore preserves intactness exactly when no kept
candidate refers into a deleted one (and no survivor refers to a deleted `metadata.json`, the
one key the protection does not look at).

* `Condemned`: the pure condition on the store and the plan under which a candidate goes.  It
  does not depend on the order of the candidates, because a candidate's keys lie under its own
  name and a name has no slash.
* `exec_retentionRemote`: the pass, with no request failing, removes the keys under the
  condemned candidates and nothing else.
* `retention_preserves_intact_iff`: the exact condition.
* `three_link_chain_dangles`: a chain of three backups built by `diffParts` on which keeping one
  backup leaves a manifest with a missing part.
-/

namespace Chbackup

open CallTree

/-- Everything the manifest refers to in `before` is still stored in `after`: an exact key is
present, and below a directory entry nothing has changed. -/
def Intact (before after : Bucket) (m : BackupManifest) : Prop :=
  ∀ e ∈ collectKeyPrefixesFromManifest m,
    if ['/'] <:+ e then ∀ k, e <+: k → after.get? k = before.get? k else (after.get? e).isSome

/-- Every readable manifest of the bucket is intact. -/
def AllIntact (b : Bucket) : Prop :=
  ∀ n m, IsBackupName n → b.manifest? n = some m → Intact b b m

/-! ## Which candidates go -/

/-- The plan that `retention_remote` makes from the bucket. -/
def Bucket.plan (b : Bucket) (keep : Int) : RetentionPlan :=
  planRetentionDeletions b.summaries keep.toNat

/-- The manifests of the planned survivors. -/
def Bucket.survivors (b : Bucket) (keep : Int) : List BackupManifest :=
  (b.plan keep).surviving.filterMap b.manifest?

/-- No survivor names the candidate as its base, and no survivor refers to a key under it other
than its manifest. -/
def Condemned (b : Bucket) (survivors : List BackupManifest) (name : Str) : Prop :=
  name ∉ survivors.flatMap collectIncrementalBases ∧
    ∀ k ∈ b.keys, backupDir name <+: k → k ≠ manifestKey name →
      isKeyProtected k (survivors.flatMap collectKeyPrefixesFromManifest) = false

instance (b : Bucket) (survivors : List BackupManifest) (name : Str) :
    Decidable (Condemned b survivors name) := inferInstanceAs (Decidable (_ ∧ _))

/-- The key lies under a condemned candidate. -/
def underCondemned (b : Bucket) (survivors : List BackupManifest) (candidates : List Str)
    (key : Str) : Bool :=
  candidates.any fun d => Condemned b survivors d ∧ backupDir d <+: key

theorem underCondemned_iff {b : Bucket} {survivors : List BackupManifest}
    {candidates : List Str} {key : Str} :
    underCondemned b survivors candidates key = true ↔
      ∃ d ∈ candidates, Condemned b survivors d ∧ backupDir d <+: key := by
  simp [underCondemned]

/-! ## Running the pass -/

@[simp] theorem exec_fetchManifest {b : Bucket} {n : Str} {m : BackupManifest}
    (h : b.manifest? n = some m) : exec Bucket.serve (fetchManifest n) b = (.ok m, b) := by
  obtain ⟨body, hbody, hm⟩ := Option.bind_eq_some_iff.mp h
  rw [fetchManifest, exec_bind, Bucket.exec_getObject, hbody]
  cases body with
  | json m' =>
    cases hm
    rfl
  | raw _ => cases hm

theorem exec_fetchSurvivors {b : Bucket} {ns : List Str}
    (h : ∀ n ∈ ns, (b.manifest? n).isSome) :
    exec Bucket.serve
        (Prog.forEach ns fun n => (fetchManifest n).mapError (retentionAborted n)) b =
      (.ok (ns.filterMap b.manifest?), b) := by
  induction ns with
  | nil => rfl
  | cons n ns ih =>
    obtain ⟨m, hm⟩ := Option.isSome_iff_exists.mp (h n (List.mem_cons_self ..))
    rw [Prog.forEach, exec_bind, exec_mapError, exec_fetchManifest hm]
    dsimp only [Except.mapError]
    rw [exec_bind, ih fun x hx => h x (List.mem_cons_of_mem _ hx)]
    simp [hm]

theorem exec_deleteKeys (b : Bucket) (ks : List Str) :
    exec Bucket.serve (deleteKeys ks) b = (.ok (), b.discard fun k => k ∈ ks) := by
  rw [deleteKeys, exec_bind, Bucket.exec_deleteObjects]
  rfl

theorem exec_listPrefix (b : Bucket) (pre : Str) :
    exec Bucket.serve (listPrefix pre) b = (.ok ((b.list pre).map StoredObject.key), b) := rfl

/-- **One candidate.**  It loses all its keys when it is condemned and none otherwise. -/
theorem exec_retireCandidate (b : Bucket) (survivors : List BackupManifest) (name : Str) :
    ∃ fate, exec Bucket.serve
        (retireCandidate listPrefix deleteKeys (survivors.flatMap collectKeyPrefixesFromManifest)
          (survivors.flatMap collectIncrementalBases) name) b =
      (.ok fate, b.discard fun k => Condemned b survivors name ∧ backupDir name <+: k) := by
  have hkeep (h : ∀ k ∈ b.keys, ¬(Condemned b survivors name ∧ backupDir name <+: k)) :
      (b.discard fun k => Condemned b survivors name ∧ backupDir name <+: k) = b :=
    Bucket.discard_false fun k hk => decide_eq_false (h k hk)
  rw [retireCandidate]
  by_cases hbase : name ∈ survivors.flatMap collectIncrementalBases
  · rw [if_pos hbase, exec_ret, hkeep fun k _ h => h.1.1 hbase]
    exact ⟨_, rfl⟩
  rw [if_neg hbase, exec_bind, exec_attempt, exec_listPrefix]
  set prot := survivors.flatMap collectKeyPrefixesFromManifest with hprot
  have hkeys : ∀ k, k ∈ (b.list (backupDir name)).map StoredObject.key ↔
      k ∈ b.keys ∧ backupDir name <+: k := fun k => Bucket.mem_keys_list
  rcases hlist : (b.list (backupDir name)).map StoredObject.key with _ | ⟨k₀, ks⟩
  · -- nothing under the name
    rw [hlist] at hkeys
    rw [hkeep fun k hk h => absurd ((hkeys k).mpr ⟨hk, h.2⟩) List.not_mem_nil]
    exact ⟨_, rfl⟩
  rw [hlist] at hkeys
  dsimp only
  split_ifs with hcount
  · -- some key is protected: the candidate is not condemned
    obtain ⟨x, hx⟩ := List.exists_mem_of_length_pos hcount
    simp only [List.mem_filter, decide_eq_true_eq] at hx
    obtain ⟨⟨hxk, hxm⟩, hxp⟩ := hx
    obtain ⟨hxb, hxd⟩ := (hkeys x).mp hxk
    rw [exec_ret, hkeep]
    · exact ⟨_, rfl⟩
    · intro k _ h
      rw [h.1.2 x hxb hxd hxm] at hxp
      exact absurd hxp (by simp)
  · -- no key is protected: data keys first, then the manifest
    have hfree : ∀ k ∈ k₀ :: ks, k ≠ manifestKey name → isKeyProtected k prot = false := by
      intro k hk hm
      rw [← Bool.not_eq_true]
      intro hp
      refine hcount (List.length_pos_of_mem (a := k) ?_)
      simp only [List.mem_filter, decide_eq_true_eq]
      exact ⟨⟨hk, hm⟩, hp⟩
    have hcond : Condemned b survivors name :=
      ⟨hbase, fun k hk hd hm => hfree k ((hkeys k).mpr ⟨hk, hd⟩) hm⟩
    rw [exec_bind, exec_attempt, exec_deleteKeys]
    dsimp only
    rw [exec_bind, exec_attempt, exec_deleteKeys]
    refine ⟨.deleted, Prod.ext rfl ?_⟩
    dsimp only [exec_ret]
    rw [Bucket.discard_discard]
    refine Bucket.discard_congr fun k hk => ?_
    rw [Bool.eq_iff_iff]
    simp only [Bool.or_eq_true, decide_eq_true_eq, List.mem_filter, List.mem_singleton,
      Bool.not_eq_true', hcond, true_and]
    constructor
    · rintro (⟨⟨h, -⟩, -⟩ | rfl)
      · exact ((hkeys k).mp h).2
      · exact backupDir_prefix_manifestKey name
    · intro hd
      by_cases hm : k = manifestKey name
      · exact Or.inr hm
      · have hk' := (hkeys k).mpr ⟨hk, hd⟩
        exact Or.inl ⟨⟨hk', hm⟩, hfree k hk' hm⟩

/-- Losing the keys of one candidate does not change the fate of another. -/
theorem condemned_discard_iff {b : Bucket} {survivors : List BackupManifest} {d n : Str}
    (hd : '/' ∉ d) (hn : '/' ∉ n) (hne : n ≠ d) (p : Prop) [Decidable p] :
    Condemned (b.discard fun k => p ∧ backupDir d <+: k) survivors n ↔
      Condemned b survivors n := by
  have hkeys : ∀ k, backupDir n <+: k →
      (k ∈ (b.discard fun k => p ∧ backupDir d <+: k).keys ↔ k ∈ b.keys) := by
    intro k hk
    rw [Bucket.mem_keys_discard, decide_eq_false_iff_not]
    exact ⟨fun h => h.1, fun h => ⟨h, fun h' => hne (backupDir_unique hn hd hk h'.2)⟩⟩
  refine and_congr_right fun _ => ⟨fun h k hk hnk => ?_, fun h k hk hnk => ?_⟩
  · exact h k ((hkeys k hnk).mpr hk) hnk
  · exact h k ((hkeys k hnk).mp hk) hnk

/-- **All candidates.**  Whatever their order, the pass removes exactly what lies under the
candidates that are condemned in the bucket it started from. -/
theorem exec_retireCandidates (survivors : List BackupManifest) (ds : List Str)
    (hds : ∀ d ∈ ds, '/' ∉ d) (b : Bucket) :
    ∃ fates, exec Bucket.serve
        (Prog.forEach ds fun name =>
          (retireCandidate listPrefix deleteKeys
            (survivors.flatMap collectKeyPrefixesFromManifest)
            (survivors.flatMap collectIncrementalBases) name).bind fun fate =>
              .ret (name, fate)) b =
      (.ok fates, b.discard (underCondemned b survivors ds)) := by
  induction ds generalizing b with
  | nil =>
    have hnil : b.discard (underCondemned b survivors []) = b :=
      Bucket.discard_false fun _ _ => rfl
    exact ⟨[], by rw [hnil]; rfl⟩
  | cons d ds ih =>
    obtain ⟨fate, hfate⟩ := exec_retireCandidate b survivors d
    have hd : '/' ∉ d := hds d (List.mem_cons_self ..)
    have hds' : ∀ n ∈ ds, '/' ∉ n := fun n hn => hds n (List.mem_cons_of_mem _ hn)
    set b' := b.discard fun k => Condemned b survivors d ∧ backupDir d <+: k with hb'
    obtain ⟨fates, hfates⟩ := ih hds' b'
    refine ⟨(d, fate) :: fates, ?_⟩
    rw [Prog.forEach, exec_bind, exec_bind, hfate]
    dsimp only [exec_ret]
    rw [exec_bind, hfates]
    refine Prod.ext rfl ?_
    dsimp only [exec_ret]
    rw [hb', Bucket.discard_discard]
    refine Bucket.discard_congr fun k _ => ?_
    rw [Bool.eq_iff_iff]
    simp only [Bool.or_eq_true, decide_eq_true_eq, underCondemned_iff, List.mem_cons]
    constructor
    · rintro (⟨hc, hk⟩ | ⟨n, hn, hc, hk⟩)
      · exact ⟨d, Or.inl rfl, hc, hk⟩
      · by_cases hnd : n = d
        · subst hnd
          by_cases hcd : Condemned b survivors n
          · exact ⟨n, Or.inl rfl, hcd, hk⟩
          · rw [Bucket.discard_false fun k _ => decide_eq_false fun h => hcd h.1] at hc
            exact ⟨n, Or.inl rfl, hc, hk⟩
        · exact ⟨n, Or.inr hn, (condemned_discard_iff hd (hds' n hn) hnd _).mp hc, hk⟩
    · rintro ⟨n, rfl | hn, hc, hk⟩
      · exact Or.inl ⟨hc, hk⟩
      · by_cases hnd : n = d
        · subst hnd
          exact Or.inl ⟨hc, hk⟩
        · exact Or.inr ⟨n, hn, (condemned_discard_iff hd (hds' n hn) hnd _).mpr hc, hk⟩

/-! ## The plan of a bucket -/

theorem Bucket.mem_summaries {b : Bucket} {s : BackupSummary} :
    s ∈ b.summaries ↔ ∃ n ∈ b.backupNames, b.summary n = s := by
  rw [summaries, List.mem_insertionSort, List.mem_map]

/-- The plan divides the readable backups. -/
theorem Bucket.mem_plan {b : Bucket} {keep : Int} {n : Str} :
    n ∈ (b.plan keep).toDelete ∨ n ∈ (b.plan keep).surviving ↔
      IsBackupName n ∧ (b.manifest? n).isSome := by
  rw [plan, mem_plan_iff]
  constructor
  · rintro ⟨s, hs, hbroken, rfl⟩
    obtain ⟨n, hn, rfl⟩ := mem_summaries.mp hs
    have hname := (mem_backupNames.mp hn).1
    rw [summary_name hname.1]
    rw [isBroken_summary, Option.isNone_eq_false_iff] at hbroken
    exact ⟨hname, hbroken⟩
  · rintro ⟨hn, hm⟩
    obtain ⟨m, hm'⟩ := Option.isSome_iff_exists.mp hm
    refine ⟨b.summary n, mem_summaries.mpr ⟨n, mem_backupNames_of_manifest? hn hm', rfl⟩, ?_,
      summary_name hn.1⟩
    rw [isBroken_summary, Option.isNone_eq_false_iff]
    exact hm

theorem Bucket.plan_disjoint (b : Bucket) (keep : Int) {n : Str}
    (h : n ∈ (b.plan keep).toDelete) : n ∉ (b.plan keep).surviving :=
  Chbackup.plan_disjoint _ (b.nodup_names_sorted fun _ => Bucket.summary_name) h

/-- **The whole pass**, with no request failing. -/
theorem exec_retentionRemote (b : Bucket) {keep : Int} (hkeep : 1 ≤ keep) :
    (exec Bucket.serve (retentionRemote keep) b).2 =
      b.discard (underCondemned b (b.survivors keep) (b.plan keep).toDelete) := by
  rw [retentionRemote, if_neg (by omega), exec_bind, Bucket.exec_listRemote]
  dsimp only
  split_ifs with hnone
  · rw [exec_ret, Bucket.discard_false]
    intro k _
    rw [Bucket.plan, hnone]
    rfl
  · have hsurv : ∀ n ∈ (b.plan keep).surviving, (b.manifest? n).isSome :=
      fun n hn => (Bucket.mem_plan.mp (Or.inr hn)).2
    have hslash : ∀ d ∈ (b.plan keep).toDelete, '/' ∉ d :=
      fun d hd => (Bucket.mem_plan.mp (Or.inl hd)).1.2
    obtain ⟨fates, hfates⟩ := exec_retireCandidates (b.survivors keep) _ hslash b
    rw [exec_bind, retentionRemoteInner, exec_bind]
    rw [Bucket.plan] at hsurv hfates
    rw [exec_fetchSurvivors hsurv]
    dsimp only
    rw [exec_bind]
    rw [Bucket.survivors, Bucket.plan] at hfates ⊢
    rw [hfates]
    rfl

/-! ## When the pass preserves intactness -/

/-- What a removal of keys leaves intact: the manifests that denote no removed key. -/
theorem intact_discard_iff {b : Bucket} {m : BackupManifest} (h : Intact b b m)
    (gone : Str → Bool) :
    Intact b (b.discard gone) m ↔
      ∀ e ∈ collectKeyPrefixesFromManifest m, ∀ k ∈ b.keys, Denotes e k → gone k = false := by
  refine forall₂_congr fun e he => ?_
  have he' := h e he
  by_cases hdir : ['/'] <:+ e
  · simp only [Bucket.get?_discard, Denotes, hdir, true_and]
    constructor
    · intro hk k hkb hd
      have hek : e <+: k := hd.elim (fun heq => heq ▸ List.prefix_rfl) id
      have hsome := Bucket.get?_isSome_iff.mpr hkb
      rw [← hk k hek] at hsome
      by_contra hg
      rw [if_pos (by simpa using hg)] at hsome
      exact absurd hsome (by simp)
    · intro hk k hek
      by_cases hkb : k ∈ b.keys
      · rw [hk k hkb (Or.inr hek), if_neg (by simp)]
      · have hnone : b.get? k = none := by
          rw [← Option.not_isSome_iff_eq_none, Bucket.get?_isSome_iff]
          exact hkb
        rw [hnone, ite_self]
  · rw [if_neg hdir] at he' ⊢
    rw [Bucket.get?_isSome_iff] at he' ⊢
    rw [Bucket.mem_keys_discard]
    constructor
    · rintro ⟨-, hg⟩ k - (rfl | ⟨hd, -⟩)
      · exact hg
      · exact absurd hd hdir
    · exact fun hk => ⟨he', hk e he' (Or.inl rfl)⟩

/-- A backup of the plan is still listed after the pass unless it is a condemned candidate. -/
theorem underCondemned_manifestKey_iff {b : Bucket} {survivors : List BackupManifest}
    {ds : List Str} (hds : ∀ d ∈ ds, '/' ∉ d) {n : Str} (hn : '/' ∉ n) :
    underCondemned b survivors ds (manifestKey n) = true ↔ n ∈ ds ∧ Condemned b survivors n := by
  rw [underCondemned_iff]
  constructor
  · rintro ⟨d, hd, hc, hk⟩
    rw [backupDir_unique hn (hds d hd) (backupDir_prefix_manifestKey n) hk]
    exact ⟨hd, hc⟩
  · rintro ⟨hd, hc⟩
    exact ⟨n, hd, hc, backupDir_prefix_manifestKey n⟩

theorem Bucket.manifest?_discard_eq_some_iff {b : Bucket} {gone : Str → Bool} {n : Str}
    {m : BackupManifest} :
    (b.discard gone).manifest? n = some m ↔
      b.manifest? n = some m ∧ gone (manifestKey n) = false := by
  rw [manifest?, manifest?, get?_discard]
  by_cases hg : gone (manifestKey n) = true <;> simp [hg]

/-- No candidate that the pass keeps refers to a key under a candidate that it deletes. -/
def KeptCandidatesClosed (b : Bucket) (keep : Int) : Prop :=
  ∀ n ∈ (b.plan keep).toDelete, ¬Condemned b (b.survivors keep) n →
    ∀ m ∈ b.manifest? n, ∀ e ∈ collectKeyPrefixesFromManifest m,
      ∀ k ∈ b.keys, Denotes e k →
        underCondemned b (b.survivors keep) (b.plan keep).toDelete k = false

/-- No survivor refers to the `metadata.json` of a candidate that the pass deletes. -/
def SurvivorsSpareManifests (b : Bucket) (keep : Int) : Prop :=
  ∀ m ∈ b.survivors keep, ∀ e ∈ collectKeyPrefixesFromManifest m,
    ∀ d ∈ (b.plan keep).toDelete, Condemned b (b.survivors keep) d →
      ¬Denotes e (manifestKey d)

instance (b : Bucket) (keep : Int) : Decidable (KeptCandidatesClosed b keep) :=
  inferInstanceAs (Decidable (∀ n ∈ (b.plan keep).toDelete, _))

instance (b : Bucket) (keep : Int) : Decidable (SurvivorsSpareManifests b keep) :=
  inferInstanceAs (Decidable (∀ m ∈ b.survivors keep, _))

theorem Bucket.mem_survivors {b : Bucket} {keep : Int} {m : BackupManifest} :
    m ∈ b.survivors keep ↔ ∃ n ∈ (b.plan keep).surviving, b.manifest? n = some m := by
  rw [survivors, List.mem_filterMap]

/-- What a survivor refers to is protected, its candidates' manifests apart. -/
theorem survivor_spared {b : Bucket} {keep : Int} (hspare : SurvivorsSpareManifests b keep)
    {m : BackupManifest} (hm : m ∈ b.survivors keep) {e k : Str}
    (he : e ∈ collectKeyPrefixesFromManifest m) (hk : k ∈ b.keys) (hd : Denotes e k) :
    underCondemned b (b.survivors keep) (b.plan keep).toDelete k = false := by
  rw [← Bool.not_eq_true, underCondemned_iff]
  rintro ⟨d, hdel, hcond, hpre⟩
  have hne : k ≠ manifestKey d := by
    rintro rfl
    exact hspare m hm e he d hdel hcond hd
  have hprot : isKeyProtected k
      ((b.survivors keep).flatMap collectKeyPrefixesFromManifest) = true :=
    isKeyProtected_iff.mpr ⟨e, List.mem_flatMap.mpr ⟨m, hm, he⟩, hd⟩
  rw [hcond.2 k hk hpre hne] at hprot
  exact absurd hprot (by simp)

/-- **Exactly when retention preserves intactness.**  Starting from a bucket whose readable
manifests are intact, with no request failing, every backup whose manifest is still stored is
intact after the pass if and only if the candidates it keeps refer to nothing under the
candidates it deletes, and no survivor refers to a deleted candidate's manifest. -/
theorem retention_preserves_intact_iff (b : Bucket) (keep : Int) (hkeep : 1 ≤ keep)
    (hb : AllIntact b) :
    (∀ n m, IsBackupName n →
        (exec Bucket.serve (retentionRemote keep) b).2.manifest? n = some m →
          Intact b (exec Bucket.serve (retentionRemote keep) b).2 m) ↔
      KeptCandidatesClosed b keep ∧ SurvivorsSpareManifests b keep := by
  rw [exec_retentionRemote b hkeep]
  set gone := underCondemned b (b.survivors keep) (b.plan keep).toDelete with hgone
  have hslash : ∀ d ∈ (b.plan keep).toDelete, '/' ∉ d :=
    fun d hd => (Bucket.mem_plan.mp (Or.inl hd)).1.2
  constructor
  · intro h
    have hintact : ∀ n m, IsBackupName n → b.manifest? n = some m →
        gone (manifestKey n) = false →
        ∀ e ∈ collectKeyPrefixesFromManifest m, ∀ k ∈ b.keys, Denotes e k → gone k = false :=
      fun n m hn hm hg => (intact_discard_iff (hb n m hn hm) gone).mp
        (h n m hn (Bucket.manifest?_discard_eq_some_iff.mpr ⟨hm, hg⟩))
    refine ⟨fun n hdel hkept m hm => ?_, fun m hm e he d hdel hcond hden => ?_⟩
    · have hn := (Bucket.mem_plan.mp (Or.inl hdel)).1
      refine hintact n m hn hm ?_
      rw [← Bool.not_eq_true, hgone, underCondemned_manifestKey_iff hslash hn.2]
      exact fun h => hkept h.2
    · obtain ⟨n, hsurv, hnm⟩ := Bucket.mem_survivors.mp hm
      have hn := (Bucket.mem_plan.mp (Or.inr hsurv)).1
      have hd := Bucket.mem_plan.mp (Or.inl hdel)
      obtain ⟨md, hmd⟩ := Option.isSome_iff_exists.mp hd.2
      have hng : gone (manifestKey n) = false := by
        rw [← Bool.not_eq_true, hgone, underCondemned_manifestKey_iff hslash hn.2]
        exact fun h => b.plan_disjoint keep h.1 hsurv
      have hfree := hintact n m hn hnm hng e he _ (Bucket.mem_keys_of_manifest? hmd) hden
      have hdg : gone (manifestKey d) = true :=
        (underCondemned_manifestKey_iff hslash hd.1.2).mpr ⟨hdel, hcond⟩
      rw [hdg] at hfree
      exact absurd hfree (by simp)
  · rintro ⟨hkept, hspare⟩ n m hn hm
    obtain ⟨hmb, hg⟩ := Bucket.manifest?_discard_eq_some_iff.mp hm
    rw [intact_discard_iff (hb n m hn hmb)]
    intro e he k hk hden
    have hplan : n ∈ (b.plan keep).toDelete ∨ n ∈ (b.plan keep).surviving :=
      Bucket.mem_plan.mpr ⟨hn, by rw [hmb]; rfl⟩
    rcases hplan with hdel | hsurv
    · have hnot : ¬Condemned b (b.survivors keep) n := by
        intro hcond
        have hdg : gone (manifestKey n) = true :=
          (underCondemned_manifestKey_iff hslash hn.2).mpr ⟨hdel, hcond⟩
        rw [hdg] at hg
        exact absurd hg (by simp)
      exact hkept n hdel hnot m hmb e he k hk hden
    · exact survivor_spared hspare (Bucket.mem_survivors.mpr ⟨n, hsurv, hmb⟩) he hk hden

/-! ## Two chains of incremental backups -/

/-- Intactness of the bucket as a check over its listed backups. -/
theorem allIntact_iff {b : Bucket} :
    AllIntact b ↔ ∀ n ∈ b.backupNames, ∀ m ∈ b.manifest? n,
      ∀ e ∈ collectKeyPrefixesFromManifest m, ¬['/'] <:+ e → e ∈ b.keys := by
  have hself : ∀ m, Intact b b m ↔
      ∀ e ∈ collectKeyPrefixesFromManifest m, ¬['/'] <:+ e → e ∈ b.keys := by
    refine fun m => forall₂_congr fun e _ => ?_
    by_cases hdir : ['/'] <:+ e
    · simp [hdir]
    · rw [if_neg hdir, Bucket.get?_isSome_iff]
      exact ⟨fun h _ => h, fun h => h hdir⟩
  constructor
  · exact fun h n hn m hm => (hself m).mp (h n m (Bucket.mem_backupNames.mp hn).1 hm)
  · exact fun h n m hn hm =>
      (hself m).mpr (h n (Bucket.mem_backupNames_of_manifest? hn hm) m hm)

/-- A manifest of one table `d.t` on one disk. -/
def oneTableManifest (name : Str) (timestamp : Int) (parts : List PartInfo) : BackupManifest :=
  { (default : BackupManifest) with
    name := name
    timestamp := timestamp
    dataFormat := "lz4"
    tables := ⟨[("d.t".toList,
      { (default : TableManifest) with
        engine := "MergeTree"
        parts := ⟨[("default".toList, parts)], by simp⟩ })], by simp⟩ }

/-- A part whose archive is stored under the given key. -/
def storedPart (name key : Str) (crc64 : Nat) : PartInfo :=
  { PartInfo.new name 10 crc64 with backupKey := key, backupSize := 5 }

/-- A full backup of the one part that the table had. -/
def chainFull : BackupManifest :=
  oneTableManifest "full" 1 [storedPart "all_1_1_0" "full/data/d/t/all_1_1_0.tar.lz4" 1]

/-- The next backup: it carries the old part and uploads a new one. -/
def chainFirst : BackupManifest :=
  diffParts (oneTableManifest "incr1" 2
    [storedPart "all_1_1_0" [] 1, storedPart "all_2_2_0" "incr1/data/d/t/all_2_2_0.tar.lz4" 2])
    chainFull

/-- A third backup, made when only the newer part was left: it carries it from the second. -/
def chainSecond : BackupManifest :=
  diffParts (oneTableManifest "incr2" 3 [storedPart "all_2_2_0" [] 2]) chainFirst

/-- A stored manifest and a stored archive. -/
def storedManifest (m : BackupManifest) : StoredObject := ⟨manifestKey m.name, .json m, some 0⟩

/-- A stored archive. -/
def storedArchive (key : Str) : StoredObject := ⟨key, .raw [1], some 0⟩

/-- The bucket that holds the first two backups. -/
def twoLinkChain : Bucket where
  objects := [storedManifest chainFull, storedArchive "full/data/d/t/all_1_1_0.tar.lz4",
    storedManifest chainFirst, storedArchive "incr1/data/d/t/all_2_2_0.tar.lz4"]
  nodup := by decide +kernel

/-- The bucket that holds all three. -/
def threeLinkChain : Bucket where
  objects := twoLinkChain.objects ++ [storedManifest chainSecond]
  nodup := by decide +kernel

/-- On two links the condition holds: the kept base refers only to itself. -/
theorem two_link_chain_intact :
    AllIntact twoLinkChain ∧
      ∀ n m, IsBackupName n →
        (exec Bucket.serve (retentionRemote 1) twoLinkChain).2.manifest? n = some m →
          Intact twoLinkChain (exec Bucket.serve (retentionRemote 1) twoLinkChain).2 m := by
  have hb : AllIntact twoLinkChain := allIntact_iff.mpr (by decide +kernel)
  exact ⟨hb, (retention_preserves_intact_iff twoLinkChain 1 (by decide) hb).mpr
    ⟨by decide +kernel, by decide +kernel⟩⟩

/-- **A dangling chain.**  Keeping the newest of three backups deletes the oldest and keeps the
middle one as a base, whose manifest then refers to an archive that is gone. -/
theorem three_link_chain_dangles :
    AllIntact threeLinkChain ∧
      ¬∀ n m, IsBackupName n →
        (exec Bucket.serve (retentionRemote 1) threeLinkChain).2.manifest? n = some m →
          Intact threeLinkChain (exec Bucket.serve (retentionRemote 1) threeLinkChain).2 m := by
  refine ⟨allIntact_iff.mpr (by decide +kernel), fun h => ?_⟩
  have hkept : (exec Bucket.serve (retentionRemote 1) threeLinkChain).2.manifest? "incr1" =
      some chainFirst := by decide +kernel
  have hintact := h "incr1" chainFirst ⟨by decide, by decide⟩ hkept
    "full/data/d/t/all_1_1_0.tar.lz4" (by decide +kernel)
  rw [if_neg (by decide +kernel)] at hintact
  have hgone : (exec Bucket.serve (retentionRemote 1) threeLinkChain).2.get?
      "full/data/d/t/all_1_1_0.tar.lz4" = none := by decide +kernel
  rw [hgone] at hintact
  exact absurd hintact (by simp)

end Chbackup
