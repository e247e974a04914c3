import Chbackup.Lib.World
import Chbackup.Retention.Closure

/-!
# A retention pass that is cut short

A pass deletes the data of a candidate first and its manifest last.  It may die after any request,
any request may fail, and a batch delete may leave some of its keys.  Between the two deletions of
a candidate the manifest is still there and the data is not, so the pass is safe at every moment
exactly when nothing readable refers to what it deletes.
-/

namespace Chbackup

open CallTree Prog

/-! ## A store where requests fail and batches are incomplete -/

/-- A bucket, and for each batch to come which of its keys will really go. -/
abbrev UnreliableStore : Type := Bucket × (Nat → Str → Bool)

/-- A read brings what is stored or fails; what a batch delete does and what it reports are
independent of each other. -/
def unreliableStore : World S3Call S3Reply UnreliableStore where
  allows s ev := match ev with
    | ⟨.listCommonPrefixes, (r : Except Str (List Str))⟩ => ∀ ps, r = .ok ps → ps = s.1.commonPrefixes
    | ⟨.getObject k, (r : Except Str Body)⟩ => ∀ body, r = .ok body → s.1.get? k = some body
    | ⟨.listObjects pre, (r : Except Str (List StoredObject))⟩ =>
      ∀ objects, r = .ok objects → objects = s.1.list pre
    | ⟨.deleteObjects _, _⟩ => True
  next s ev := match ev with
    | ⟨.deleteObjects ks, _⟩ =>
      (s.1.discard fun k => k ∈ ks && s.2 0 k, fun i => s.2 (i + 1))
    | _ => s

theorem unreliableStore_deleteObjects (s : UnreliableStore) (ks : List Str)
    (r : S3Reply (.deleteObjects ks)) : unreliableStore.next s ⟨.deleteObjects ks, r⟩ =
      (s.1.discard fun k => k ∈ ks && s.2 0 k, fun i => s.2 (i + 1)) := rfl

/-- The events of a retention pass. -/
abbrev S3Event : Type := Event S3Call S3Reply

/-- No readable manifest of `after` refers to a key that `before` had and `after` has not. -/
def NoneDangling (before after : Bucket) : Prop :=
  ∀ n m, IsBackupName n → after.manifest? n = some m →
    ∀ e ∈ collectKeyPrefixesFromManifest m, ∀ k ∈ before.keys, Denotes e k → k ∈ after.keys

/-- The pass on a store of its own. -/
def retentionPass (plan : RetentionPlan) : S3Prog RetentionOutcome :=
  retentionRemoteInner fetchManifest listPrefix deleteKeys plan

/-- Whatever fails, however batches end and wherever the pass is cut, nothing dangles. -/
def CrashSafe (plan : RetentionPlan) (b : Bucket) : Prop :=
  ∀ batches t e, Runs (retentionPass plan) t e → unreliableStore.Legal (b, batches) t →
    NoneDangling b (unreliableStore.after (b, batches) t).1

/-- The manifests of the planned survivors. -/
def RetentionPlan.survivors (plan : RetentionPlan) (b : Bucket) : List BackupManifest :=
  plan.surviving.filterMap b.manifest?

/-- No readable manifest, that of the candidate itself included, refers to a key under a candidate
that the pass deletes; a manifest may refer to its own `metadata.json`. -/
def NothingReferred (plan : RetentionPlan) (b : Bucket) : Prop :=
  ∀ d ∈ plan.toDelete, Condemned b (plan.survivors b) d → ∀ k ∈ b.keys, backupDir d <+: k →
    ∀ n m, IsBackupName n → b.manifest? n = some m → ∀ e ∈ collectKeyPrefixesFromManifest m,
      Denotes e k → k = manifestKey d ∧ n = d

/-! ## What a pass asks to delete -/

/-- A batch lies under a candidate that survivors leave unprotected, going by what was read. -/
def Justified (plan : RetentionPlan) (h : List S3Event) (ks : List Str) : Prop :=
  ∃ manifests d objects,
    List.Forall₂ (fun n m => ∃ body, (⟨.getObject (manifestKey n), .ok body⟩ : S3Event) ∈ h ∧
      fromJsonBytes body = .ok m) plan.surviving manifests ∧
    d ∈ plan.toDelete ∧ d ∉ manifests.flatMap collectIncrementalBases ∧
    (⟨.listObjects (backupDir d), .ok objects⟩ : S3Event) ∈ h ∧
    (∀ k ∈ objects.map StoredObject.key, k ≠ manifestKey d →
      isKeyProtected k (manifests.flatMap collectKeyPrefixesFromManifest) = false) ∧
    ∀ k ∈ ks, k = manifestKey d ∨ k ∈ objects.map StoredObject.key

/-- The demand on the calls of a pass. -/
def PassCall (plan : RetentionPlan) (h : List S3Event) : S3Call → Prop
  | .deleteObjects ks => Justified plan h ks
  | _ => True

theorem Justified.mono {plan : RetentionPlan} {h h' : List S3Event} {ks : List Str}
    (hj : Justified plan h ks) (hh : h.Sublist h') : Justified plan h' ks := by
  obtain ⟨manifests, d, objects, hms, hd, hbase, hlist, hfree, hks⟩ := hj
  refine ⟨manifests, d, objects, hms.imp fun n m hm => ?_, hd, hbase, hh.subset hlist, hfree, hks⟩
  obtain ⟨body, hev, hbody⟩ := hm
  exact ⟨body, hh.subset hev, hbody⟩

section Safe

variable {plan : RetentionPlan} {h : List S3Event}

theorem safe_deleteKeys (ks : List Str) (hj : Justified plan h ks) :
    Safe (PassCall plan) (fun _ _ => True) h (deleteKeys ks) := by
  unfold deleteKeys deleteObjects
  split
  · trivial
  · refine safe_perform hj fun reply => ?_
    cases reply <;> trivial

theorem safe_fetchManifest {n : Str} : Safe (PassCall plan) (fun h m =>
    ∃ body, (⟨.getObject (manifestKey n), .ok body⟩ : S3Event) ∈ h ∧ fromJsonBytes body = .ok m) h
      (fetchManifest n) := by
  unfold fetchManifest getObject
  refine safe_perform trivial fun reply => ?_
  cases reply with
  | error e => trivial
  | ok body =>
    change Safe _ _ _ (ofExcept (fromJsonBytes body))
    cases hbody : fromJsonBytes body with
    | error e => trivial
    | ok m => exact ⟨body, List.mem_append_right _ (List.mem_singleton_self _), hbody⟩

theorem safe_retireCandidate {manifests : List BackupManifest} {d : Str}
    (hms : List.Forall₂ (fun n m => ∃ body, (⟨.getObject (manifestKey n), .ok body⟩ : S3Event) ∈ h ∧
      fromJsonBytes body = .ok m) plan.surviving manifests) (hd : d ∈ plan.toDelete) :
    Safe (PassCall plan) (fun _ _ => True) h
      (retireCandidate listPrefix deleteKeys (manifests.flatMap collectKeyPrefixesFromManifest)
        (manifests.flatMap collectIncrementalBases) d) := by
  unfold retireCandidate
  split
  · trivial
  rename_i hbase
  refine Safe.bind (Q := fun h r => ∀ keys, r = .ok keys → ∃ objects, objects.map StoredObject.key = keys ∧
    (⟨.listObjects (backupDir d), .ok objects⟩ : S3Event) ∈ h) ?_ fun t reply hreply => ?_
  · unfold listPrefix listObjects
    refine Safe.attempt (safe_perform trivial fun reply => ?_)
    cases reply with
    | error e => trivial
    | ok objects => exact ⟨objects, rfl, List.mem_append_right _ (List.mem_singleton_self _)⟩
  rcases reply with e | keys
  · trivial
  obtain ⟨objects, rfl, hlist⟩ := hreply keys rfl
  cases hkeys : objects.map StoredObject.key with
  | nil => trivial
  | cons k ks =>
    dsimp only
    split
    · trivial
    rename_i hcount
    have hjust : ∀ batch : List Str, (∀ x ∈ batch, x = manifestKey d ∨ x ∈ k :: ks) →
        Justified plan (h ++ t) batch := by
      intro batch hbatch
      refine ⟨manifests, d, objects, ?_, hd, hbase, hlist, fun x hx hne => ?_, ?_⟩
      · refine hms.imp fun n m hm => ?_
        obtain ⟨body, hev, hbody⟩ := hm
        exact ⟨body, List.mem_append_left _ hev, hbody⟩
      · rw [hkeys] at hx
        by_contra hp
        refine hcount (List.length_pos_of_mem (a := x) ?_)
        rw [List.mem_filter, List.mem_filter]
        exact ⟨⟨hx, by simpa using hne⟩, by simpa using hp⟩
      · rw [hkeys]
        exact hbatch
    refine Safe.bind (safe_deleteKeys _ (hjust _ fun x hx => Or.inr ?_)).attempt
      fun t₁ reply _ => ?_
    · exact (List.mem_filter.mp (List.mem_filter.mp hx).1).1
    rcases reply with e | _
    · trivial
    refine Safe.bind (Safe.attempt (safe_deleteKeys [manifestKey d] ?_)) fun t₂ reply _ => ?_
    · exact (hjust _ fun x hx => Or.inl (List.mem_singleton.mp hx)).mono
        (List.sublist_append_left _ _)
    · rcases reply with e | _ <;> trivial

/-- **What a pass deletes was read to be unprotected.** -/
theorem safe_retentionPass : Safe (PassCall plan) (fun _ _ => True) [] (retentionPass plan) := by
  refine Safe.bind (safe_forEach (S := fun n h m => ∃ body,
    (⟨.getObject (manifestKey n), .ok body⟩ : S3Event) ∈ h ∧ fromJsonBytes body = .ok m)
    (fun n h h' m hh hm => ?_) fun n _ t => safe_fetchManifest.mapError) fun t manifests hms => ?_
  · obtain ⟨body, hev, hbody⟩ := hm
    exact ⟨body, hh.subset hev, hbody⟩
  refine Safe.bind (safe_forEach (S := fun _ _ _ => True) (fun _ _ _ _ _ _ => trivial)
    fun d hd t' => ?_) fun t' fates _ => trivial
  refine Safe.bind (safe_retireCandidate (hms.imp fun n m hm => ?_) hd) fun _ _ _ => trivial
  obtain ⟨body, hev, hbody⟩ := hm
  exact ⟨body, List.mem_append_left _ hev, hbody⟩

end Safe

/-! ## Safety -/

/-- Some survivor's manifest cannot be read, so that the pass deletes nothing. -/
def PassAborts (plan : RetentionPlan) (b : Bucket) : Prop :=
  ∃ n ∈ plan.surviving, b.manifest? n = none

/-- What is left of the bucket: only keys under condemned candidates are gone, and none if the
pass aborts. -/
def Reduced (plan : RetentionPlan) (b : Bucket) (s : UnreliableStore) : Prop :=
  ∃ gone, s.1 = b.discard gone ∧ ∀ k ∈ b.keys, gone k = true →
    ¬PassAborts plan b ∧ underCondemned b (plan.survivors b) plan.toDelete k = true

theorem Reduced.get? {plan : RetentionPlan} {b : Bucket} {s : UnreliableStore}
    (h : Reduced plan b s) {k : Str} {body : Body} (hk : s.1.get? k = some body) :
    b.get? k = some body := by
  obtain ⟨gone, hs, -⟩ := h
  rw [hs, Bucket.get?_discard] at hk
  split at hk
  · cases hk
  · exact hk

theorem filterMap_eq_of_forall₂ {α β : Type} {f : α → Option β} {xs : List α} {ys : List β}
    (h : List.Forall₂ (fun x y => f x = some y) xs ys) : xs.filterMap f = ys := by
  induction h with
  | nil => rfl
  | cons hxy _ ih => rw [List.filterMap_cons, hxy, ih]

section Run

variable {plan : RetentionPlan} {b : Bucket} {batches : Nat → Str → Bool} {t : List S3Event}

/-- A justified batch lies under a condemned candidate. -/
theorem condemned_of_justified (hplan : ∀ d ∈ plan.toDelete, '/' ∉ d)
    (hl : unreliableStore.Legal (b, batches) t)
    (hred : ∀ u, u <+: t → Reduced plan b (unreliableStore.after (b, batches) u)) {ks : List Str}
    (hj : Justified plan t ks) : ¬PassAborts plan b ∧
      ∃ d ∈ plan.toDelete, Condemned b (plan.survivors b) d ∧
        ∀ k ∈ ks, backupDir d <+: k ∧ (k = manifestKey d ∨ k ∈ b.keys) := by
  obtain ⟨manifests, d, objects, hms, hd, hbase, hlist, hfree, hks⟩ := hj
  have hread : List.Forall₂ (fun n m => b.manifest? n = some m) plan.surviving manifests := by
    refine hms.imp fun n m hm => ?_
    obtain ⟨body, hev, hbody⟩ := hm
    obtain ⟨t₁, t₂, rfl⟩ := List.append_of_mem hev
    have hget := (World.legal_append.mp hl).2.1 body rfl
    rw [Bucket.manifest?, (hred t₁ (List.prefix_append _ _)).get? hget]
    simp [hbody, Except.toOption]
  have hsurvivors : plan.survivors b = manifests := filterMap_eq_of_forall₂ hread
  obtain ⟨t₁, t₂, rfl⟩ := List.append_of_mem hlist
  have hobjects := (World.legal_append.mp hl).2.1 objects rfl
  obtain ⟨gone, hgone, hunder⟩ := hred t₁ (List.prefix_append _ _)
  have hkeys : ∀ k, k ∈ objects.map StoredObject.key ↔ (k ∈ b.keys ∧ gone k = false) ∧ backupDir d <+: k := by
    intro k
    rw [hobjects, hgone, Bucket.mem_keys_list, Bucket.mem_keys_discard]
  refine ⟨?_, d, hd, ⟨hsurvivors ▸ hbase, fun k hk hdk hne => ?_⟩, fun k hk => ?_⟩
  · rintro ⟨n, hn, hnone⟩
    obtain ⟨m, -, hm⟩ := exists_of_forall₂ hread.flip hn
    rw [hnone] at hm
    cases hm
  · cases hg : gone k with
    | false =>
      rw [hsurvivors]
      exact hfree k ((hkeys k).mpr ⟨⟨hk, hg⟩, hdk⟩) hne
    | true =>
      -- a key that is gone lay under a condemned candidate, which can only be this one
      obtain ⟨d', hd', hcond, hdk'⟩ := underCondemned_iff.mp (hunder k hk hg).2
      rw [backupDir_unique (hplan d hd) (hplan d' hd') hdk hdk'] at hne
      exact hcond.2 k hk hdk' hne
  · rcases hks k hk with rfl | hmem
    · exact ⟨backupDir_prefix_manifestKey d, Or.inl rfl⟩
    · exact ⟨((hkeys k).mp hmem).2, Or.inr ((hkeys k).mp hmem).1.1⟩

/-- **At every moment of a pass, only keys under condemned candidates are gone.** -/
theorem reduced_along (hplan : ∀ d ∈ plan.toDelete, '/' ∉ d) {e : End Str RetentionOutcome}
    (ht : Runs (retentionPass plan) t e) (hl : unreliableStore.Legal (b, batches) t) :
    ∀ u, u <+: t → Reduced plan b (unreliableStore.after (b, batches) u) := by
  have hinit : Reduced plan b (b, batches) :=
    ⟨fun _ => false, (Bucket.discard_false fun _ _ => rfl).symm, fun _ _ h => (nomatch h)⟩
  refine World.Legal.invariant_along hinit hl fun t₁ c r t₂ hsplit hl₁ hred _ => ?_
  have hcall : PassCall plan t₁ c := (safe_retentionPass.runs ht).1 t₁ c r t₂ hsplit
  cases c with
  | deleteObjects ks =>
    obtain ⟨hab, d, hd, hcond, hks⟩ := condemned_of_justified hplan hl₁ hred hcall
    obtain ⟨gone, hgone, hunder⟩ := hred t₁ List.prefix_rfl
    refine ⟨fun k => gone k || (k ∈ ks && (unreliableStore.after (b, batches) t₁).2 0 k), ?_, ?_⟩
    · rw [unreliableStore_deleteObjects, hgone, Bucket.discard_discard]
    · intro k hk hg
      rcases Bool.or_eq_true_iff.mp hg with hg | hg
      · exact hunder k hk hg
      · have hmem : k ∈ ks := of_decide_eq_true (Bool.and_eq_true_iff.mp hg).1
        exact ⟨hab, underCondemned_iff.mpr ⟨d, hd, hcond, (hks k hmem).1⟩⟩
  | _ => exact hred t₁ List.prefix_rfl

/-- Every batch of a pass lies under a condemned candidate. -/
theorem condemned_of_deleted (hplan : ∀ d ∈ plan.toDelete, '/' ∉ d) {e : End Str RetentionOutcome}
    (ht : Runs (retentionPass plan) t e) (hl : unreliableStore.Legal (b, batches) t)
    {ks : List Str} {r : S3Reply (.deleteObjects ks)} (hev : ⟨.deleteObjects ks, r⟩ ∈ t) :
    ∃ d ∈ plan.toDelete, Condemned b (plan.survivors b) d ∧
      ∀ k ∈ ks, backupDir d <+: k ∧ (k = manifestKey d ∨ k ∈ b.keys) := by
  obtain ⟨t₁, t₂, rfl⟩ := List.append_of_mem hev
  have hj : Justified plan t₁ ks := (safe_retentionPass.runs ht).1 t₁ _ r t₂ rfl
  exact (condemned_of_justified hplan (World.legal_append.mp hl).1
    (fun u hu => reduced_along hplan ht hl u (hu.trans (List.prefix_append _ _))) hj).2

end Run

theorem Reduced.mem_keys {plan : RetentionPlan} {b : Bucket} {s : UnreliableStore}
    (h : Reduced plan b s) {k : Str} (hk : k ∈ b.keys) (hgone : k ∉ s.1.keys) :
    ¬PassAborts plan b ∧ underCondemned b (plan.survivors b) plan.toDelete k = true := by
  obtain ⟨gone, hs, hunder⟩ := h
  rw [hs, Bucket.mem_keys_discard] at hgone
  refine hunder k hk ?_
  by_contra hg
  exact hgone ⟨hk, Bool.eq_false_of_not_eq_true hg⟩

theorem crashSafe_of_nothingReferred {plan : RetentionPlan} {b : Bucket}
    (hplan : ∀ d ∈ plan.toDelete, '/' ∉ d) (h : PassAborts plan b ∨ NothingReferred plan b) :
    CrashSafe plan b := by
  intro batches t e ht hl n m hn hm x hx k hk hden
  have hred := reduced_along hplan ht hl t List.prefix_rfl
  by_contra hgone
  obtain ⟨hab, hunder⟩ := hred.mem_keys hk hgone
  obtain ⟨d, hd, hcond, hdk⟩ := underCondemned_iff.mp hunder
  have hm' : b.manifest? n = some m := by
    obtain ⟨body, hbody, hparse⟩ := Option.bind_eq_some_iff.mp hm
    rw [Bucket.manifest?, hred.get? hbody]
    exact hparse
  -- the only key that a readable manifest may lose is its own, and then it is not readable
  obtain ⟨rfl, rfl⟩ := h.resolve_left hab d hd hcond k hk hdk n m hn hm' x hx hden
  exact hgone (Bucket.mem_keys_of_manifest? hm)

/-! ## A run that leaves a manifest without its data -/

/-- The store when nothing fails and every batch is complete. -/
def reliable (b : Bucket) : UnreliableStore := (b, fun _ _ => true)

theorem serve_allowed (c : S3Call) (b : Bucket) :
    unreliableStore.allows (reliable b) ⟨c, (Bucket.serve c b).1⟩ ∧
      unreliableStore.next (reliable b) ⟨c, (Bucket.serve c b).1⟩ =
        reliable (Bucket.serve c b).2 := by
  cases c with
  | listCommonPrefixes => exact ⟨fun ps hps => (Except.ok.inj hps).symm, rfl⟩
  | listObjects pre => exact ⟨fun os hos => (Except.ok.inj hos).symm, rfl⟩
  | getObject k =>
    refine ⟨fun body hbody => ?_, rfl⟩
    rw [Bucket.serve] at hbody
    dsimp only at hbody
    cases hget : b.get? k with
    | none => simp [hget] at hbody
    | some x => simpa [hget, reliable] using hbody
  | deleteObjects ks =>
    refine ⟨trivial, ?_⟩
    rw [unreliableStore_deleteObjects]
    simp [reliable, Bucket.serve]

section Dies

variable {plan : RetentionPlan} {b : Bucket}

/-- A candidate whose keys cannot be listed is left alone. -/
theorem returns_unlisted (manifests : List BackupManifest) (d : Str) : ∃ fate, unreliableStore.Returns (reliable b)
    (retireCandidate listPrefix deleteKeys (manifests.flatMap collectKeyPrefixesFromManifest)
      (manifests.flatMap collectIncrementalBases) d) fate (reliable b) := by
  unfold retireCandidate
  split
  · exact ⟨_, World.returns_ret _ _⟩
  · refine ⟨.failed, World.Returns.call (.error []) ?_ (World.returns_ret _ _)⟩
    exact fun _ h => nomatch h

/-- A condemned candidate may lose its data and keep its manifest. -/
theorem can_lose_data {d k : Str} (hcond : Condemned b manifests d) (hk : k ∈ b.keys)
    (hdk : backupDir d <+: k) (hne : k ≠ manifestKey d) :
    unreliableStore.Can (reliable b)
      (retireCandidate listPrefix deleteKeys (manifests.flatMap collectKeyPrefixesFromManifest)
        (manifests.flatMap collectIncrementalBases) d)
      fun s => k ∉ s.1.keys ∧ s.1.get? (manifestKey d) = b.get? (manifestKey d) := by
  rw [retireCandidate, if_neg hcond.1]
  have hlist : unreliableStore.Returns (reliable b)
      ((listPrefix (backupDir d)).attempt : S3Prog (Except Str (List Str)))
      (.ok ((b.list (backupDir d)).map StoredObject.key)) (reliable b) :=
    World.returns_of_exec serve_allowed (by rw [exec_attempt, exec_listPrefix])
  refine World.Can.bind hlist ?_
  have hkeys : ∀ x, x ∈ (b.list (backupDir d)).map StoredObject.key ↔
      x ∈ b.keys ∧ backupDir d <+: x := fun x => Bucket.mem_keys_list
  cases hl : (b.list (backupDir d)).map StoredObject.key with
  | nil =>
    rw [hl] at hkeys
    exact absurd ((hkeys k).mpr ⟨hk, hdk⟩) List.not_mem_nil
  | cons x xs =>
    rw [hl] at hkeys
    dsimp only
    rw [if_neg]
    · refine World.Can.of_left ?_
      have hdelete : unreliableStore.Returns (reliable b)
          ((deleteKeys (((x :: xs).filter fun key => key ≠ manifestKey d).filter fun key =>
            !isKeyProtected key (manifests.flatMap collectKeyPrefixesFromManifest))).attempt :
              S3Prog (Except Str Unit)) (.ok ()) (reliable _) :=
        World.returns_of_exec serve_allowed (by rw [exec_attempt, exec_deleteKeys])
      refine hdelete.can ⟨?_, ?_⟩
      · rw [reliable, Bucket.mem_keys_discard]
        rintro ⟨-, hgone⟩
        have hfree := hcond.2 k hk hdk hne
        simp [(hkeys k).mpr ⟨hk, hdk⟩, hne, hfree] at hgone
      · rw [reliable, Bucket.get?_discard, if_neg]
        simp
    · -- no key is protected
      rw [gt_iff_lt, Nat.not_lt, Nat.le_zero, List.length_eq_zero_iff, List.filter_eq_nil_iff]
      intro y hy
      obtain ⟨hy, hyne⟩ := List.mem_filter.mp hy
      obtain ⟨hyb, hdy⟩ := (hkeys y).mp hy
      rw [hcond.2 y hyb hdy (by simpa using hyne)]
      exact Bool.false_ne_true

/-- A pass may bring about what the treatment of one candidate can. -/
theorem can_retentionPass (hread : ¬PassAborts plan b) {d : Str} (hd : d ∈ plan.toDelete)
    {P : UnreliableStore → Prop} (h : unreliableStore.Can (reliable b)
      (retireCandidate listPrefix deleteKeys
        ((plan.survivors b).flatMap collectKeyPrefixesFromManifest)
        ((plan.survivors b).flatMap collectIncrementalBases) d) P) :
    unreliableStore.Can (reliable b) (retentionPass plan) P := by
  have hfetch : ∀ n ∈ plan.surviving, (b.manifest? n).isSome := by
    intro n hn
    by_contra hnone
    exact hread ⟨n, hn, Option.not_isSome_iff_eq_none.mp hnone⟩
  refine World.Can.bind (World.returns_of_exec serve_allowed (exec_fetchSurvivors hfetch)) ?_
  refine World.Can.of_left (World.can_forEach hd (fun y _ => ?_) (World.Can.of_left h))
  obtain ⟨fate, hfate⟩ := returns_unlisted (b := b) (plan.survivors b) y
  exact ⟨(y, fate), hfate.bind (World.returns_ret _ _)⟩

end Dies

theorem nothingReferred_of_crashSafe {plan : RetentionPlan} {b : Bucket}
    (hplan : ∀ d ∈ plan.toDelete, '/' ∉ d) (h : CrashSafe plan b) (hread : ¬PassAborts plan b) :
    NothingReferred plan b := by
  intro d hd hcond k hk hdk n m hn hm e he hden
  by_contra hne
  -- some run loses the key and keeps the manifest that refers to it
  have hcan : unreliableStore.Can (reliable b) (retentionPass plan)
      fun s => k ∉ s.1.keys ∧ s.1.get? (manifestKey n) = b.get? (manifestKey n) := by
    refine can_retentionPass hread hd ?_
    by_cases hnd : n = d
    · subst hnd
      exact can_lose_data hcond hk hdk fun hkm => hne ⟨hkm, rfl⟩
    · obtain ⟨fate, hfate⟩ := exec_retireCandidate b (plan.survivors b) d
      refine (World.returns_of_exec serve_allowed hfate).can ⟨?_, ?_⟩
      · rw [reliable, Bucket.mem_keys_discard]
        simp [hcond, hdk]
      · rw [reliable, Bucket.get?_discard, if_neg]
        simp only [decide_eq_true_eq]
        intro hboth
        exact hnd (backupDir_unique hn.2 (hplan d hd) (backupDir_prefix_manifestKey n) hboth.2)
  obtain ⟨t, e', ht, hl, hgone, hget⟩ := hcan
  have hm' : (unreliableStore.after (reliable b) t).1.manifest? n = some m := by
    rw [Bucket.manifest?, hget]
    exact hm
  exact hgone (h _ t e' ht hl n m hn hm' e he k hk hden)

/-- **Exactly when a retention pass is safe at every moment.**  Candidates are first components of
keys. -/
theorem retention_crash_safe_iff (plan : RetentionPlan) (hplan : ∀ d ∈ plan.toDelete, '/' ∉ d)
    (b : Bucket) : CrashSafe plan b ↔ PassAborts plan b ∨ NothingReferred plan b := by
  refine ⟨fun h => ?_, crashSafe_of_nothingReferred hplan⟩
  by_cases hread : PassAborts plan b
  · exact Or.inl hread
  · exact Or.inr (nothingReferred_of_crashSafe hplan h hread)

/-- A backup of tables without parts. -/
def emptyBackup (name : Str) (timestamp : Int) : BackupManifest := oneTableManifest name timestamp []

/-- A bucket with a backup of one part and a later one without parts. -/
def fullThenEmpty : Bucket where
  objects := [storedManifest chainFull, storedArchive "full/data/d/t/all_1_1_0.tar.lz4",
    storedManifest (emptyBackup "later" 2)]
  nodup := by decide +kernel

/-- A bucket with two links of a chain, and an older backup without parts. -/
def emptyThenChain : Bucket where
  objects := storedManifest (emptyBackup "older" 0) :: twoLinkChain.objects
  nodup := by decide +kernel

/-- Keep the later backup. -/
def keepLater : RetentionPlan := ⟨["full"], ["later"]⟩

/-- Keep the second link of the chain. -/
def keepSecond : RetentionPlan := ⟨["older", "full"], ["incr1"]⟩

/-- Where the survivor carries a part of a candidate, the candidate stays; the other one has nothing to lose. -/
theorem carried_part_crash_safe :
    (∀ d ∈ keepSecond.toDelete, '/' ∉ d) ∧ CrashSafe keepSecond emptyThenChain := by
  have hplan : ∀ d ∈ keepSecond.toDelete, '/' ∉ d := by decide
  refine ⟨hplan, (retention_crash_safe_iff keepSecond hplan emptyThenChain).mpr (Or.inr ?_)⟩
  intro d hd hcondemned k hk hunder n m hn hm e he hdenotes
  have hsafe : ∀ d ∈ keepSecond.toDelete, Condemned emptyThenChain (keepSecond.survivors emptyThenChain) d →
      ∀ k ∈ emptyThenChain.keys, backupDir d <+: k → ∀ n ∈ emptyThenChain.backupNames,
        ∀ m ∈ emptyThenChain.manifest? n, ∀ e ∈ collectKeyPrefixesFromManifest m, ¬Denotes e k := by
    decide +kernel
  exact absurd hdenotes
    (hsafe d hd hcondemned k hk hunder n (Bucket.mem_backupNames_of_manifest? hn hm) m hm e he)

/-- **A pass that dies between its two deletions leaves a manifest without its data.** -/
theorem interrupted_pass_dangles : ¬CrashSafe keepLater fullThenEmpty := by
  intro h
  have hread : ¬PassAborts keepLater fullThenEmpty := by
    have hall : ∀ n ∈ keepLater.surviving, fullThenEmpty.manifest? n ≠ none := by decide +kernel
    exact fun ⟨n, hn, hnone⟩ => hall n hn hnone
  have hnothing := nothingReferred_of_crashSafe (by decide) h hread "full" (by decide)
    (by decide +kernel) "full/data/d/t/all_1_1_0.tar.lz4" (by decide +kernel) (by decide +kernel)
    "full" chainFull ⟨by decide, by decide⟩ (by decide +kernel)
    "full/data/d/t/all_1_1_0.tar.lz4" (by decide +kernel) (Or.inl rfl)
  exact absurd hnothing.1 (by decide +kernel)

end Chbackup
