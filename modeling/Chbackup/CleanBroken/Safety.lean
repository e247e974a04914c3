import Chbackup.CleanBroken.Pass
import Chbackup.Retention.Closure

/-!
# What the cleanup can destroy

The cleanup against a bucket whose individual requests may fail.  A failure pattern says, for
every request and every time it is repeated, whether it fails; the command cannot tell a failed
read of a manifest from an absent one.

* `deletes_iff`: the batches that reach `delete_objects`, exactly.
* `clean_broken_spares_healthy_iff`: healthy backups are spared exactly when the run ends before
  it deletes, or when everything that belongs to a misread healthy backup and lies under a
  backup cleared for deletion is also protected by a manifest that was read.
* `misread_backup_is_deleted`: one failed read of a healthy manifest, and the backup is gone.
-/

namespace Chbackup

open CallTree

/-! ## Requests that may fail -/

/-- A pattern of failures: `fails c i` is the error that the request `c` meets when it is made
for the `i`-th time, and `leaves ks i` the keys of a batch that stay although they should go. -/
structure Outages where
  fails : S3Call → Nat → Option Str
  leaves : List Str → Nat → Str → Bool

/-- The bucket and the requests made so far. -/
structure Session where
  bucket : Bucket
  log : List S3Call

/-- A request that failed. -/
def S3Call.failed : (c : S3Call) → Str → S3Reply c
  | .listCommonPrefixes, e => .error e
  | .getObject _, e => .error e
  | .listObjects _, e => .error e
  | .deleteObjects _, e => .error e

namespace Outages

/-- The reply to a request that is made for the `i`-th time. -/
def reply (o : Outages) (b : Bucket) (i : Nat) : (c : S3Call) → S3Reply c
  | .deleteObjects ks =>
    match o.fails (.deleteObjects ks) i with
    | some e => .error e
    | none => .ok (ks.filter (o.leaves ks i)).length
  | c =>
    match o.fails c i with
    | some e => c.failed e
    | none => (b.serve c).1

/-- The bucket after a request.  A batch that failed may still have removed keys. -/
def effect (o : Outages) (b : Bucket) (i : Nat) : S3Call → Bucket
  | .deleteObjects ks => b.discard fun k => k ∈ ks && !o.leaves ks i k
  | _ => b

/-- Answer a request under a pattern of failures. -/
def serve (o : Outages) (c : S3Call) (s : Session) : S3Reply c × Session :=
  (o.reply s.bucket (s.log.count c) c, ⟨o.effect s.bucket (s.log.count c) c, s.log ++ [c]⟩)

theorem exec_getObject (o : Outages) (s : Session) (k : Str) :
    exec o.serve (getObject k) s =
      (o.reply s.bucket (s.log.count (.getObject k)) (.getObject k),
        ⟨s.bucket, s.log ++ [.getObject k]⟩) := by
  simp only [getObject, Prog.perform_bind, exec_call, serve]
  cases o.reply s.bucket (s.log.count (.getObject k)) (.getObject k) <;> rfl

theorem exec_listObjects (o : Outages) (s : Session) (pre : Str) :
    exec o.serve (listObjects pre) s =
      (o.reply s.bucket (s.log.count (.listObjects pre)) (.listObjects pre),
        ⟨s.bucket, s.log ++ [.listObjects pre]⟩) := by
  simp only [listObjects, Prog.perform_bind, exec_call, serve]
  cases o.reply s.bucket (s.log.count (.listObjects pre)) (.listObjects pre) <;> rfl

theorem exec_listCommonPrefixes (o : Outages) (s : Session) :
    exec o.serve listCommonPrefixes s =
      (o.reply s.bucket (s.log.count .listCommonPrefixes) .listCommonPrefixes,
        ⟨s.bucket, s.log ++ [.listCommonPrefixes]⟩) := by
  simp only [listCommonPrefixes, Prog.perform_bind, exec_call, serve]
  cases o.reply s.bucket (s.log.count .listCommonPrefixes) .listCommonPrefixes <;> rfl

/-- A planned deletion makes one request, never fails, and removes only planned keys. -/
theorem exec_applyDelete (o : Outages) (s : Session) {ks : List Str} (hne : ks ≠ []) :
    ∃ r gone, exec o.serve (applyCleanBrokenPlan (.delete ks) deleteKeys) s =
        (.ok r, ⟨s.bucket.discard gone, s.log ++ [.deleteObjects ks]⟩) ∧
      ∀ k, gone k = true → k ∈ ks := by
  simp only [applyCleanBrokenPlan, deleteKeys, deleteObjects]
  rw [if_neg hne, exec_bind, exec_attempt]
  simp only [Prog.perform_bind, Prog.call_bind, exec_call, serve, effect]
  have hmem : ∀ k, (k ∈ ks && !o.leaves ks (s.log.count (.deleteObjects ks)) k) = true →
      k ∈ ks := by simp +contextual
  cases o.reply s.bucket (s.log.count (.deleteObjects ks)) (.deleteObjects ks) with
  | error e => exact ⟨_, _, rfl, hmem⟩
  | ok n => exact ⟨_, _, rfl, hmem⟩

/-! ## The listing under failures -/

/-- The read of a manifest by the listing succeeds and gives a manifest. -/
def ReadsHealthy (o : Outages) (b : Bucket) (n : Str) : Prop :=
  o.fails (.getObject (manifestKey n)) 0 = none ∧ (b.manifest? n).isSome

instance (o : Outages) (b : Bucket) (n : Str) : Decidable (o.ReadsHealthy b n) :=
  inferInstanceAs (Decidable (_ ∧ _))

/-- What the listing says of one backup. -/
def summary (o : Outages) (b : Bucket) (n : Str) : BackupSummary :=
  match o.fails (.getObject (manifestKey n)) 0 with
  | some e => brokenSummary n ("metadata.json not found: " ++ e)
  | none => b.summary n

/-- What the listing says. -/
def summaries (o : Outages) (b : Bucket) : List BackupSummary :=
  (b.backupNames.map (o.summary b)).insertionSort BackupSummary.le

theorem summary_name {o : Outages} {b : Bucket} {n : Str} (hn : n ≠ []) :
    (o.summary b n).name = n := by
  rw [summary]
  split
  · rfl
  · exact Bucket.summary_name hn

/-- A failed read and an unreadable manifest look alike. -/
theorem isBroken_summary (o : Outages) (b : Bucket) (n : Str) :
    (o.summary b n).isBroken = true ↔ ¬o.ReadsHealthy b n := by
  rw [summary, ReadsHealthy]
  cases hf : o.fails (.getObject (manifestKey n)) 0 with
  | some e => simp [brokenSummary]
  | none => simp [Bucket.isBroken_summary]

theorem exec_summarizeRemote (o : Outages) (s : Session) (n : Str)
    (h : s.log.count (.getObject (manifestKey n)) = 0) :
    exec o.serve (summarizeRemote n) s =
      (.ok (o.summary s.bucket n), ⟨s.bucket, s.log ++ [.getObject (manifestKey n)]⟩) := by
  rw [summarizeRemote, exec_bind, exec_attempt, exec_getObject, h]
  simp only [reply, summary, Bucket.summary, Bucket.serve]
  cases o.fails (.getObject (manifestKey n)) 0 with
  | some e => rfl
  | none =>
    cases s.bucket.get? (manifestKey n) with
    | none => rfl
    | some body => cases body <;> rfl

theorem exec_forEach_summarizeRemote (o : Outages) (ns : List Str) (hns : ns.Nodup)
    (s : Session) (h : ∀ n ∈ ns, s.log.count (.getObject (manifestKey n)) = 0) :
    exec o.serve (Prog.forEach ns summarizeRemote) s =
      (.ok (ns.map (o.summary s.bucket)),
        ⟨s.bucket, s.log ++ ns.map fun n => .getObject (manifestKey n)⟩) := by
  induction ns generalizing s with
  | nil => simp [Prog.forEach]
  | cons n ns ih =>
    obtain ⟨hn, hns⟩ := List.nodup_cons.mp hns
    rw [Prog.forEach, exec_bind, exec_summarizeRemote o s n (h n (List.mem_cons_self ..))]
    dsimp only
    rw [exec_bind, ih hns]
    · simp
    · intro x hx
      have hne : S3Call.getObject (manifestKey n) ≠ .getObject (manifestKey x) := by
        rintro heq
        rw [manifestKey_injective (S3Call.getObject.inj heq)] at hn
        exact hn hx
      simp [List.count_append, h x (List.mem_cons_of_mem _ hx), hne]

/-- The listing succeeds unless its own first request fails. -/
theorem exec_listRemote (o : Outages) (b : Bucket) :
    exec o.serve listRemote ⟨b, []⟩ =
      match o.fails .listCommonPrefixes 0 with
      | some e => (.error e, ⟨b, [.listCommonPrefixes]⟩)
      | none => (.ok (o.summaries b), ⟨b, .listCommonPrefixes ::
          b.backupNames.map fun n => .getObject (manifestKey n)⟩) := by
  rw [listRemote, exec_bind, exec_listCommonPrefixes]
  simp only [reply, List.count_nil, List.nil_append]
  cases o.fails .listCommonPrefixes 0 with
  | some e => rfl
  | none =>
    simp only [Bucket.serve]
    rw [exec_bind]
    have hlog := exec_forEach_summarizeRemote o b.backupNames b.nodup_backupNames
      ⟨b, [.listCommonPrefixes]⟩ fun n _ => by simp
    rw [Bucket.backupNames] at hlog
    rw [hlog]
    rfl

theorem mem_summaries {o : Outages} {b : Bucket} {s : BackupSummary} :
    s ∈ o.summaries b ↔ ∃ n ∈ b.backupNames, o.summary b n = s := by
  rw [summaries, List.mem_insertionSort, List.mem_map]

theorem nodup_summaries_name (o : Outages) (b : Bucket) :
    ((o.summaries b).map BackupSummary.name).Nodup :=
  b.nodup_names_sorted fun _ => summary_name

/-- The backups that the listing calls healthy. -/
def healthy (o : Outages) (b : Bucket) : List BackupSummary :=
  (o.summaries b).filter fun s => !s.isBroken

/-- The backups that the listing calls broken. -/
def broken (o : Outages) (b : Bucket) : List BackupSummary :=
  (o.summaries b).filter fun s => s.isBroken

theorem mem_names_healthy {o : Outages} {b : Bucket} {n : Str} :
    (∃ s ∈ o.healthy b, s.name = n) ↔ n ∈ b.backupNames ∧ o.ReadsHealthy b n := by
  simp only [healthy, List.mem_filter, mem_summaries, Bool.not_eq_true']
  constructor
  · rintro ⟨s, ⟨⟨x, hx, rfl⟩, hs⟩, rfl⟩
    rw [summary_name (Bucket.mem_backupNames.mp hx).1.1]
    refine ⟨hx, ?_⟩
    by_contra hb
    rw [(o.isBroken_summary b x).mpr hb] at hs
    exact absurd hs (by simp)
  · rintro ⟨hn, hr⟩
    refine ⟨o.summary b n, ⟨⟨n, hn, rfl⟩, ?_⟩, summary_name (Bucket.mem_backupNames.mp hn).1.1⟩
    rw [← Bool.not_eq_true, isBroken_summary, not_not]
    exact hr

theorem mem_names_broken {o : Outages} {b : Bucket} {n : Str} :
    (∃ s ∈ o.broken b, s.name = n) ↔ n ∈ b.backupNames ∧ ¬o.ReadsHealthy b n := by
  simp only [broken, List.mem_filter, mem_summaries]
  constructor
  · rintro ⟨s, ⟨⟨x, hx, rfl⟩, hs⟩, rfl⟩
    rw [summary_name (Bucket.mem_backupNames.mp hx).1.1]
    exact ⟨hx, (o.isBroken_summary b x).mp hs⟩
  · rintro ⟨hn, hr⟩
    exact ⟨o.summary b n, ⟨⟨n, hn, rfl⟩, (o.isBroken_summary b n).mpr hr⟩,
      summary_name (Bucket.mem_backupNames.mp hn).1.1⟩

/-! ## The second read of the healthy manifests -/

theorem exec_fetchManifest (o : Outages) (s : Session) {n : Str} {m : BackupManifest}
    (hm : s.bucket.manifest? n = some m) (hc : s.log.count (.getObject (manifestKey n)) = 1) :
    exec o.serve (fetchManifest n) s =
      (match o.fails (.getObject (manifestKey n)) 1 with
        | some e => .error e
        | none => .ok m, ⟨s.bucket, s.log ++ [.getObject (manifestKey n)]⟩) := by
  obtain ⟨body, hbody, hbm⟩ := Option.bind_eq_some_iff.mp hm
  rw [fetchManifest, exec_bind, exec_getObject, hc]
  simp only [reply, Bucket.serve, hbody]
  cases o.fails (.getObject (manifestKey n)) 1 with
  | some e => rfl
  | none =>
    cases body with
    | json m' =>
      cases hbm
      rfl
    | raw _ => cases hbm

/-- Either every healthy manifest is read again, or the run ends there.  Only reads are made. -/
theorem exec_readAgain (o : Outages) (vs : List BackupSummary)
    (hvs : (vs.map BackupSummary.name).Nodup) (s : Session)
    (hm : ∀ v ∈ vs, (s.bucket.manifest? v.name).isSome)
    (hc : ∀ v ∈ vs, s.log.count (.getObject (manifestKey v.name)) = 1) :
    ∃ ks : List Str,
      ((∀ v ∈ vs, o.fails (.getObject (manifestKey v.name)) 1 = none) ∧
        exec o.serve (Prog.forEach vs fun valid =>
            (fetchManifest valid.name).mapError (cleanBrokenAborted valid.name)) s =
          (.ok (vs.filterMap fun v => s.bucket.manifest? v.name),
            ⟨s.bucket, s.log ++ ks.map .getObject⟩)) ∨
      ((∃ v ∈ vs, o.fails (.getObject (manifestKey v.name)) 1 ≠ none) ∧
        ∃ e, exec o.serve (Prog.forEach vs fun valid =>
            (fetchManifest valid.name).mapError (cleanBrokenAborted valid.name)) s =
          (.error e, ⟨s.bucket, s.log ++ ks.map .getObject⟩)) := by
  induction vs generalizing s with
  | nil => exact ⟨[], Or.inl ⟨by simp, by simp [Prog.forEach]⟩⟩
  | cons v vs ih =>
    obtain ⟨hv, hvs⟩ := List.nodup_cons.mp hvs
    obtain ⟨m, hvm⟩ := Option.isSome_iff_exists.mp (hm v (List.mem_cons_self ..))
    have hvc := hc v (List.mem_cons_self ..)
    have hstep := exec_fetchManifest o s hvm hvc
    rcases hf : o.fails (.getObject (manifestKey v.name)) 1 with _ | e
    · have hc' : ∀ x ∈ vs, (s.log ++ [S3Call.getObject (manifestKey v.name)]).count
          (.getObject (manifestKey x.name)) = 1 := by
        intro x hx
        have hne : S3Call.getObject (manifestKey v.name) ≠ .getObject (manifestKey x.name) := by
          intro heq
          rw [manifestKey_injective (S3Call.getObject.inj heq)] at hv
          exact hv (List.mem_map.mpr ⟨x, hx, rfl⟩)
        simp [List.count_append, hc x (List.mem_cons_of_mem _ hx), hne]
      obtain ⟨ks, hks⟩ := ih hvs ⟨s.bucket, s.log ++ [.getObject (manifestKey v.name)]⟩
        (fun x hx => hm x (List.mem_cons_of_mem _ hx)) hc'
      refine ⟨manifestKey v.name :: ks, ?_⟩
      rw [Prog.forEach, exec_bind, exec_mapError, hstep, hf]
      dsimp only [Except.mapError]
      rw [exec_bind]
      rcases hks with ⟨hall, hex⟩ | ⟨⟨x, hx, hfx⟩, e, hex⟩
      · rw [hex]
        refine Or.inl ⟨?_, by simp [hvm]⟩
        intro x hx
        rcases List.mem_cons.mp hx with rfl | hx
        · exact hf
        · exact hall x hx
      · rw [hex]
        exact Or.inr ⟨⟨x, List.mem_cons_of_mem _ hx, hfx⟩, e, by simp⟩
    · refine ⟨[manifestKey v.name], Or.inr ⟨⟨v, List.mem_cons_self .., by simp [hf]⟩, ?_⟩⟩
      rw [Prog.forEach, exec_bind, exec_mapError, hstep, hf]
      exact ⟨_, rfl⟩

end Outages

/-! ## The cleanup loop -/

/-- A plan deletes exactly the unprotected keys, and only past all three guards. -/
theorem planCleanBrokenDeletion_eq_delete_iff {keys : List Str} {newest? : Option Int}
    {nowSecs : Int} {minAgeSecs : Nat} {lockIsLive : Bool} {protectedKeys ks : List Str} :
    planCleanBrokenDeletion keys newest? nowSecs minAgeSecs lockIsLive protectedKeys =
        .delete ks ↔
      (lockIsLive = false ∧ ∃ newest ∈ newest?, minAgeSecs ≤ ageSecs nowSecs newest) ∧
        (keys.filter fun key => !isKeyProtected key protectedKeys) = ks ∧ ks ≠ [] := by
  unfold planCleanBrokenDeletion
  cases lockIsLive with
  | true => simp
  | false =>
    rcases newest? with _ | newest
    · simp
    · by_cases hage : ageSecs nowSecs newest < minAgeSecs
      · simp [hage]
      · have hage' : minAgeSecs ≤ ageSecs nowSecs newest := Nat.le_of_not_lt hage
        cases hks : keys.filter fun key => !isKeyProtected key protectedKeys with
        | nil =>
          simp only [Bool.false_eq_true, if_false, hage]
          constructor
          · exact fun h => nomatch h
          · rintro ⟨-, rfl, hne⟩
            exact absurd rfl hne
        | cons k ks' =>
          simp only [Bool.false_eq_true, if_false, hage, CleanBrokenPlan.delete.injEq]
          constructor
          · rintro rfl
            exact ⟨⟨trivial, newest, rfl, hage'⟩, rfl, by simp⟩
          · exact fun h => h.2.1

section Loop

variable (o : Outages) (host : Host) (nowSecs : Int) (minAgeSecs : Nat)

/-- The listing of the backup succeeds, no live process holds its lock, and everything under it
is known to be old enough. -/
def Cleared (b : Bucket) (d : Str) : Prop :=
  o.fails (.listObjects (backupDir d)) 0 = none ∧ host.backupLockIsLive d = false ∧
    ∃ newest ∈ newestLastModified (b.list (backupDir d)),
      minAgeSecs ≤ ageSecs nowSecs newest

/-- The keys under a backup that nothing protects. -/
def unprotectedKeys (protectedKeys : List Str) (b : Bucket) (d : Str) : List Str :=
  ((b.list (backupDir d)).map StoredObject.key).filter fun k => !isKeyProtected k protectedKeys

theorem mem_unprotectedKeys {protectedKeys : List Str} {b : Bucket} {d k : Str} :
    k ∈ unprotectedKeys protectedKeys b d ↔
      (k ∈ b.keys ∧ backupDir d <+: k) ∧ isKeyProtected k protectedKeys = false := by
  rw [unprotectedKeys, List.mem_filter, Bucket.mem_keys_list, Bool.not_eq_true']

/-- **One broken backup.**  It loses its unprotected keys, in one batch, when it is cleared and
has any; the rest of the bucket is left alone. -/
theorem exec_cleanBrokenBackup (protectedKeys : List Str) (s : Session) (d : Str)
    (hc : s.log.count (.listObjects (backupDir d)) = 0) :
    ∃ r s', exec o.serve (cleanBrokenBackup host nowSecs minAgeSecs protectedKeys d) s =
        (.ok r, s') ∧
      (∃ gone, s'.bucket = s.bucket.discard gone ∧ ∀ k, gone k = true → backupDir d <+: k) ∧
      (s'.log = s.log ++ [.listObjects (backupDir d)] ∧
          ¬(Cleared o host nowSecs minAgeSecs s.bucket d ∧
            unprotectedKeys protectedKeys s.bucket d ≠ []) ∨
        s'.log = s.log ++ [.listObjects (backupDir d),
            .deleteObjects (unprotectedKeys protectedKeys s.bucket d)] ∧
          Cleared o host nowSecs minAgeSecs s.bucket d ∧
            unprotectedKeys protectedKeys s.bucket d ≠ []) := by
  have hsame : s.bucket = s.bucket.discard fun _ => false :=
    (Bucket.discard_false fun _ _ => rfl).symm
  rw [cleanBrokenBackup, exec_bind, exec_attempt, Outages.exec_listObjects, hc]
  simp only [Outages.reply, Bucket.serve]
  cases hf : o.fails (.listObjects (backupDir d)) 0 with
  | some e =>
    refine ⟨_, _, rfl, ⟨_, hsame, by simp⟩, Or.inl ⟨rfl, fun h => ?_⟩⟩
    rw [Cleared, hf] at h
    exact absurd h.1.1 (by simp)
  | none =>
    dsimp only
    cases hplan : planCleanBrokenDeletion ((s.bucket.list (backupDir d)).map StoredObject.key)
        (newestLastModified (s.bucket.list (backupDir d))) nowSecs minAgeSecs
        (host.backupLockIsLive d) protectedKeys with
    | skip reason =>
      refine ⟨_, _, rfl, ⟨_, hsame, by simp⟩, Or.inl ⟨rfl, fun h => ?_⟩⟩
      have hdel := planCleanBrokenDeletion_eq_delete_iff.mpr ⟨h.1.2, rfl, h.2⟩
      rw [hplan] at hdel
      exact absurd hdel (by simp)
    | delete ks =>
      obtain ⟨hguard, rfl, hne⟩ := planCleanBrokenDeletion_eq_delete_iff.mp hplan
      change unprotectedKeys protectedKeys s.bucket d ≠ [] at hne
      obtain ⟨r, gone, hr, hgone⟩ := Outages.exec_applyDelete o
        ⟨s.bucket, s.log ++ [.listObjects (backupDir d)]⟩ hne
      refine ⟨r, _, hr, ⟨gone, rfl, fun k hk => ?_⟩,
        Or.inr ⟨by simp, ⟨hf, hguard⟩, hne⟩⟩
      exact (mem_unprotectedKeys.mp (hgone k hk)).1.2

/-- **All broken backups.**  The batches are those of the backups that are cleared in the bucket
the loop started from. -/
theorem exec_cleanBrokenBackups (protectedKeys : List Str) (b : Bucket)
    (ds : List BackupSummary) (hds : (ds.map BackupSummary.name).Nodup)
    (hslash : ∀ d ∈ ds, '/' ∉ d.name) (s : Session)
    (hs : ∀ d ∈ ds, s.bucket.list (backupDir d.name) = b.list (backupDir d.name))
    (hc : ∀ d ∈ ds, s.log.count (.listObjects (backupDir d.name)) = 0) :
    ∃ rs s', exec o.serve (Prog.forEach ds fun d =>
        cleanBrokenBackup host nowSecs minAgeSecs protectedKeys d.name) s = (.ok rs, s') ∧
      ∀ ks, .deleteObjects ks ∈ s'.log ↔ .deleteObjects ks ∈ s.log ∨
        ∃ d ∈ ds, Cleared o host nowSecs minAgeSecs b d.name ∧
          unprotectedKeys protectedKeys b d.name = ks ∧ ks ≠ [] := by
  induction ds generalizing s with
  | nil => exact ⟨[], s, rfl, by simp⟩
  | cons d ds ih =>
    obtain ⟨hd, hds⟩ := List.nodup_cons.mp hds
    have hdc := hc d (List.mem_cons_self ..)
    have hdslash := hslash d (List.mem_cons_self ..)
    obtain ⟨r, s₁, hex, ⟨gone, hgone, hunder⟩, hlog⟩ :=
      exec_cleanBrokenBackup o host nowSecs minAgeSecs protectedKeys s d.name hdc
    have hother : ∀ x ∈ ds, x.name ≠ d.name :=
      fun x hx heq => hd (List.mem_map.mpr ⟨x, hx, heq⟩)
    have hs₁ : ∀ x ∈ ds, s₁.bucket.list (backupDir x.name) = b.list (backupDir x.name) := by
      intro x hx
      rw [hgone, Bucket.list_discard, hs x (List.mem_cons_of_mem _ hx)]
      intro k hk
      by_contra hg
      rw [Bool.not_eq_false] at hg
      exact hother x hx (backupDir_unique (hslash x (List.mem_cons_of_mem _ hx)) hdslash hk
        (hunder k hg))
    have hc₁ : ∀ x ∈ ds, s₁.log.count (.listObjects (backupDir x.name)) = 0 := by
      intro x hx
      have hne : S3Call.listObjects (backupDir d.name) ≠ .listObjects (backupDir x.name) := by
        intro heq
        have hdir : backupDir d.name = backupDir x.name := S3Call.listObjects.inj heq
        exact hother x hx (List.append_cancel_right hdir).symm
      have hx0 := hc x (List.mem_cons_of_mem _ hx)
      rcases hlog with ⟨hlog, -⟩ | ⟨hlog, -⟩ <;> simp [hlog, List.count_append, hx0, hne]
    obtain ⟨rs, s₂, hex₂, hdel⟩ := ih hds (fun x hx => hslash x (List.mem_cons_of_mem _ hx)) s₁
      hs₁ hc₁
    have hcl : Cleared o host nowSecs minAgeSecs s.bucket d.name ↔
        Cleared o host nowSecs minAgeSecs b d.name := by
      rw [Cleared, Cleared, hs d (List.mem_cons_self ..)]
    have hun : unprotectedKeys protectedKeys s.bucket d.name =
        unprotectedKeys protectedKeys b d.name := by
      rw [unprotectedKeys, unprotectedKeys, hs d (List.mem_cons_self ..)]
    rw [hcl, hun] at hlog
    refine ⟨r :: rs, s₂, ?_, fun ks => ?_⟩
    · rw [Prog.forEach, exec_bind, hex]
      dsimp only
      rw [exec_bind, hex₂]
      rfl
    · rw [hdel ks]
      simp only [List.mem_cons, exists_eq_or_imp]
      rcases hlog with ⟨hlog, hno⟩ | ⟨hlog, hyes⟩
      · rw [hlog]
        have hnot : ¬(Cleared o host nowSecs minAgeSecs b d.name ∧
            unprotectedKeys protectedKeys b d.name = ks ∧ ks ≠ []) := by
          rintro ⟨h₁, rfl, h₂⟩
          exact hno ⟨h₁, h₂⟩
        simp [hnot]
      · rw [hlog]
        simp only [List.mem_append, List.mem_cons, List.not_mem_nil, or_false, reduceCtorEq,
          false_or, S3Call.deleteObjects.injEq]
        constructor
        · rintro ((h | rfl) | h)
          · exact Or.inl h
          · exact Or.inr (Or.inl ⟨hyes.1, rfl, hyes.2⟩)
          · exact Or.inr (Or.inr h)
        · rintro (h | ⟨-, rfl, -⟩ | h)
          · exact Or.inl (Or.inl h)
          · exact Or.inl (Or.inr rfl)
          · exact Or.inr h

/-! ## The whole run -/

/-- The run ends before it deletes anything: the listing fails, or a manifest that the listing
read cannot be read again. -/
def Aborts (b : Bucket) : Prop :=
  o.fails .listCommonPrefixes 0 ≠ none ∨
    ∃ n ∈ b.backupNames, o.ReadsHealthy b n ∧ o.fails (.getObject (manifestKey n)) 1 ≠ none

/-- What the manifests that the run has read refer to. -/
def Outages.protectedKeys (b : Bucket) : List Str :=
  ((o.healthy b).filterMap fun v => b.manifest? v.name).flatMap collectKeyPrefixesFromManifest

variable {o}

theorem isKeyProtected_protectedKeys_iff {b : Bucket} {k : Str} :
    isKeyProtected k (o.protectedKeys b) = true ↔
      ∃ n ∈ b.backupNames, o.ReadsHealthy b n ∧
        ∃ m ∈ b.manifest? n, ∃ e ∈ collectKeyPrefixesFromManifest m, Denotes e k := by
  simp only [isKeyProtected_iff, Outages.protectedKeys, List.mem_flatMap, List.mem_filterMap]
  constructor
  · rintro ⟨e, ⟨m, ⟨v, hv, hm⟩, he⟩, hd⟩
    obtain ⟨hn, hr⟩ := Outages.mem_names_healthy.mp ⟨v, hv, rfl⟩
    exact ⟨v.name, hn, hr, m, hm, e, he, hd⟩
  · rintro ⟨n, hn, hr, m, hm, e, he, hd⟩
    obtain ⟨v, hv, rfl⟩ := Outages.mem_names_healthy.mpr ⟨hn, hr⟩
    exact ⟨e, ⟨m, ⟨v, hv, hm⟩, he⟩, hd⟩

/-- **The batches that reach `delete_objects`.** -/
theorem deletes_iff {b : Bucket} {ks : List Str} :
    .deleteObjects ks ∈
        (exec o.serve (cleanBrokenRemote host nowSecs minAgeSecs) ⟨b, []⟩).2.log ↔
      ¬Aborts o b ∧ ∃ d ∈ b.backupNames, ¬o.ReadsHealthy b d ∧
        Cleared o host nowSecs minAgeSecs b d ∧
          unprotectedKeys (o.protectedKeys b) b d = ks ∧ ks ≠ [] := by
  rw [cleanBrokenRemote, exec_bind, Outages.exec_listRemote]
  rcases hf : o.fails .listCommonPrefixes 0 with _ | e
  swap
  · -- the listing itself fails
    have habort : Aborts o b := Or.inl (by simp [hf])
    simp [habort]
  dsimp only
  have hbroken : ∀ d ∈ b.backupNames, ¬o.ReadsHealthy b d → o.broken b ≠ [] := by
    intro d hd hr
    obtain ⟨v, hv, -⟩ := Outages.mem_names_broken.mpr ⟨hd, hr⟩
    exact List.ne_nil_of_mem hv
  split_ifs with hnone
  · -- nothing is listed as broken
    constructor
    · intro h
      exact absurd h (by simp)
    · rintro ⟨-, d, hd, hr, -⟩
      exact absurd hnone (hbroken d hd hr)
  have hhealthy : ∀ v ∈ o.healthy b,
      v.name ∈ b.backupNames ∧ o.ReadsHealthy b v.name :=
    fun v hv => Outages.mem_names_healthy.mp ⟨v, hv, rfl⟩
  have hcount : ∀ v ∈ o.healthy b, (S3Call.listCommonPrefixes ::
      b.backupNames.map fun n => S3Call.getObject (manifestKey n)).count
        (.getObject (manifestKey v.name)) = 1 := by
    intro v hv
    have hinj : Function.Injective fun n => S3Call.getObject (manifestKey n) :=
      fun x y h => manifestKey_injective (S3Call.getObject.inj h)
    rw [List.count_cons_of_ne (by simp)]
    exact List.count_eq_one_of_mem (b.nodup_backupNames.map hinj)
      (List.mem_map.mpr ⟨v.name, (hhealthy v hv).1, rfl⟩)
  obtain ⟨reads, hread⟩ := Outages.exec_readAgain o (o.healthy b)
    ((o.nodup_summaries_name b).sublist (List.filter_sublist.map _)) ⟨b, .listCommonPrefixes ::
      b.backupNames.map fun n => .getObject (manifestKey n)⟩
    (fun v hv => (hhealthy v hv).2.2) hcount
  rw [exec_bind]
  rcases hread with ⟨hall, hex⟩ | ⟨⟨v, hv, hfv⟩, e, hex⟩
  · -- every healthy manifest is read again, and the loop runs
    have hrun : ¬Aborts o b := by
      rintro (h | ⟨n, hn, hr, hfn⟩)
      · exact h hf
      · obtain ⟨v, hv, rfl⟩ := Outages.mem_names_healthy.mpr ⟨hn, hr⟩
        exact hfn (hall v hv)
    have hname : ∀ d ∈ o.broken b, d.name ∈ b.backupNames :=
      fun d hd => (Outages.mem_names_broken.mp ⟨d, hd, rfl⟩).1
    obtain ⟨rs, s', hloop, hdel⟩ := exec_cleanBrokenBackups o host nowSecs minAgeSecs
      (o.protectedKeys b) b (o.broken b)
      ((o.nodup_summaries_name b).sublist (List.filter_sublist.map _))
      (fun d hd => (Bucket.mem_backupNames.mp (hname d hd)).1.2)
      ⟨b, (.listCommonPrefixes :: b.backupNames.map fun n => .getObject (manifestKey n)) ++
        reads.map .getObject⟩ (fun _ _ => rfl) (fun d _ => by simp [List.count_eq_zero])
    rw [Outages.healthy] at hex
    rw [hex]
    dsimp only
    rw [Outages.protectedKeys, Outages.healthy, Outages.broken] at hloop
    rw [exec_bind, hloop]
    dsimp only [exec_ret]
    rw [hdel ks]
    constructor
    · rintro (h | ⟨d, hd, h⟩)
      · exact absurd h (by simp)
      · obtain ⟨hdn, hdr⟩ := Outages.mem_names_broken.mp ⟨d, hd, rfl⟩
        exact ⟨hrun, d.name, hdn, hdr, h⟩
    · rintro ⟨-, d, hdn, hdr, h⟩
      obtain ⟨v, hv, rfl⟩ := Outages.mem_names_broken.mpr ⟨hdn, hdr⟩
      exact Or.inr ⟨v, hv, h⟩
  · -- a manifest cannot be read again
    have habort : Aborts o b :=
      Or.inr ⟨v.name, (hhealthy v hv).1, (hhealthy v hv).2, hfv⟩
    rw [Outages.healthy] at hex
    rw [hex]
    constructor
    · intro h
      exact absurd h (by simp)
    · exact fun h => absurd habort h.1

/-- A healthy backup whose manifest the listing fails to read. -/
def Misread (o : Outages) (b : Bucket) (n : Str) (m : BackupManifest) : Prop :=
  IsBackupName n ∧ b.manifest? n = some m ∧ o.fails (.getObject (manifestKey n)) 0 ≠ none

/-- **Exactly when healthy backups are spared.**  For every bucket, failure pattern, lock state,
clock and age limit: no key under a healthy backup and no key that a healthy manifest refers to
reaches `delete_objects` if and only if the run ends before it deletes, or every stored key that
belongs to a misread healthy backup and lies under a backup cleared for deletion is protected by
a manifest that was read. -/
theorem clean_broken_spares_healthy_iff (o : Outages) (host : Host) (nowSecs : Int)
    (minAgeSecs : Nat) (b : Bucket) :
    (∀ ks, .deleteObjects ks ∈
        (exec o.serve (cleanBrokenRemote host nowSecs minAgeSecs) ⟨b, []⟩).2.log →
      ∀ k ∈ ks, ∀ n m, IsBackupName n → b.manifest? n = some m →
        ¬backupDir n <+: k ∧ ∀ e ∈ collectKeyPrefixesFromManifest m, ¬Denotes e k) ↔
    (Aborts o b ∨ ∀ n m, Misread o b n m →
      ∀ d ∈ b.backupNames, ¬o.ReadsHealthy b d → Cleared o host nowSecs minAgeSecs b d →
        ∀ k ∈ b.keys, backupDir d <+: k →
          (d = n ∨ ∃ e ∈ collectKeyPrefixesFromManifest m, Denotes e k) →
            isKeyProtected k (o.protectedKeys b) = true) := by
  constructor
  · intro h
    by_cases habort : Aborts o b
    · exact Or.inl habort
    refine Or.inr fun n m hmis d hd hr hcl k hk hdk hbelongs => ?_
    by_contra hprot
    rw [Bool.not_eq_true] at hprot
    have hkdel : k ∈ unprotectedKeys (o.protectedKeys b) b d :=
      mem_unprotectedKeys.mpr ⟨⟨hk, hdk⟩, hprot⟩
    obtain ⟨hdir, href⟩ := h _ ((deletes_iff host nowSecs minAgeSecs).mpr
      ⟨habort, d, hd, hr, hcl, rfl, List.ne_nil_of_mem hkdel⟩) k hkdel n m hmis.1 hmis.2.1
    rcases hbelongs with rfl | ⟨e, he, hden⟩
    · exact hdir hdk
    · exact href e he hden
  · intro h ks hks k hk n m hn hm
    obtain ⟨habort, d, hd, hr, hcl, rfl, -⟩ := (deletes_iff host nowSecs minAgeSecs).mp hks
    obtain ⟨⟨hkb, hdk⟩, hprot⟩ := mem_unprotectedKeys.mp hk
    have hnb : n ∈ b.backupNames := Bucket.mem_backupNames_of_manifest? hn hm
    have hsome : (b.manifest? n).isSome := by rw [hm]; rfl
    by_cases hf : o.fails (.getObject (manifestKey n)) 0 = none
    · -- the listing read this manifest: what it refers to is protected
      refine ⟨fun hnk => ?_, fun e he hden => ?_⟩
      · have hdn : d = n :=
          backupDir_unique (Bucket.mem_backupNames.mp hd).1.2 hn.2 hdk hnk
        exact hr (hdn ▸ ⟨hf, hsome⟩)
      · have hyes := isKeyProtected_protectedKeys_iff.mpr
          ⟨n, hnb, ⟨hf, hsome⟩, m, hm, e, he, hden⟩
        rw [hprot] at hyes
        exact absurd hyes (by simp)
    · -- the listing misread it: only the condition helps
      have hcond := h.resolve_left habort n m ⟨hn, hm, hf⟩ d hd hr hcl k hkb hdk
      refine ⟨fun hnk => ?_, fun e he hden => ?_⟩
      · have hdn : d = n :=
          backupDir_unique (Bucket.mem_backupNames.mp hd).1.2 hn.2 hdk hnk
        have hyes := hcond (Or.inl hdn)
        rw [hprot] at hyes
        exact absurd hyes (by simp)
      · have hyes := hcond (Or.inr ⟨e, he, hden⟩)
        rw [hprot] at hyes
        exact absurd hyes (by simp)

end Loop

/-! ## One failed read -/

/-- Only the listing's read of one manifest fails. -/
def oneMisread (name : Str) : Outages where
  fails c i := if c = .getObject (manifestKey name) ∧ i = 0 then some "timeout" else none
  leaves _ _ _ := false

/-- A machine without lock files. -/
def idleHost : Host := ⟨fun _ => none, fun _ => false, fun _ => none⟩

/-- **One failed read deletes a backup.**  In the chain of two backups, each with a stored
manifest that parses, the listing's read of the second manifest times out; an hour after the
last write the cleanup passes both its keys to `delete_objects`. -/
theorem misread_backup_is_deleted :
    ∃ ks, .deleteObjects ks ∈ (exec (oneMisread "incr1").serve
        (cleanBrokenRemote idleHost 3600 3600) ⟨twoLinkChain, []⟩).2.log ∧
      ∃ k ∈ ks, ∃ n m, IsBackupName n ∧ twoLinkChain.manifest? n = some m ∧ backupDir n <+: k := by
  refine ⟨["incr1/metadata.json".toList, "incr1/data/d/t/all_2_2_0.tar.lz4".toList],
    by decide +kernel, "incr1/metadata.json", by simp, "incr1", chainFirst,
    ⟨by decide, by decide⟩, by decide +kernel, by decide +kernel⟩

end Chbackup
