import Chbackup.Retention.Pass

/-!
# The contract of the retention pass

`retention_remote_inner` (`src/list.rs`) over operations that may answer anything: each fetch, each
listing and each deletion may fail on its own, and a listing may return any keys under its prefix.
The trace of a pass is its fetches followed by one segment for every candidate.
-/

namespace Chbackup

open CallTree

/-- The injected operations. -/
inductive RetentionCall where
  | fetchManifest (name : Str)
  | listPrefix (pre : Str)
  | deleteKeys (keys : List Str)
  deriving DecidableEq

/-- What an operation answers: a result, or its own failure. -/
def RetentionReply : RetentionCall → Type
  | .fetchManifest _ => Except Str BackupManifest
  | .listPrefix _ => Except Str (List Str)
  | .deleteKeys _ => Except Str Unit

namespace RetentionCall

/-- The operation `fetch_manifest`. -/
def fetch (name : Str) : Prog RetentionCall RetentionReply Str BackupManifest :=
  (Prog.perform (fetchManifest name)).bind fun r => .ofExcept r

/-- The operation `list_prefix`. -/
def list (pre : Str) : Prog RetentionCall RetentionReply Str (List Str) :=
  (Prog.perform (listPrefix pre)).bind fun r => .ofExcept r

/-- The operation `delete_keys`. -/
def delete (keys : List Str) : Prog RetentionCall RetentionReply Str Unit :=
  (Prog.perform (deleteKeys keys)).bind fun r => .ofExcept r

end RetentionCall

/-- A pass over injected operations. -/
def injectedPass (plan : RetentionPlan) : Prog RetentionCall RetentionReply Str RetentionOutcome :=
  retentionRemoteInner RetentionCall.fetch RetentionCall.list RetentionCall.delete plan

/-- A call of a pass and its reply. -/
abbrev RetentionEvent : Type := Event RetentionCall RetentionReply

/-- The event of a deletion. -/
def deletion (keys : List Str) (reply : Except Str Unit) : RetentionEvent := ⟨.deleteKeys keys, reply⟩

/-- The event of a fetch. -/
def fetching (name : Str) (reply : Except Str BackupManifest) : RetentionEvent := ⟨.fetchManifest name, reply⟩

/-- The event of a listing. -/
def listing (pre : Str) (reply : Except Str (List Str)) : RetentionEvent := ⟨.listPrefix pre, reply⟩

/-- The deletions of a trace, with their replies. -/
def deletions (t : List RetentionEvent) : List (List Str × Except Str Unit) :=
  t.filterMap fun
    | ⟨.deleteKeys keys, reply⟩ => some (keys, reply)
    | _ => none

/-- The manifests that were fetched. -/
def fetched (t : List RetentionEvent) : List BackupManifest :=
  t.filterMap fun
    | ⟨.fetchManifest _, .ok m⟩ => some m
    | _ => none

/-- A listing returns keys under its prefix only. -/
def ListsUnderPrefix (t : List RetentionEvent) : Prop :=
  ∀ pre keys, listing pre (.ok keys) ∈ t → ∀ key ∈ keys, pre <+: key

/-- The keys of a listing that are deleted first. -/
def dataKeys (name : Str) (keys : List Str) : List Str := keys.filter fun key => key ≠ manifestKey name

/-- What a pass does to one candidate, and what it reports of it. -/
structure CandidateContract (outcome : RetentionOutcome) (name : Str) (segment : List RetentionEvent) :
    Prop where
  /-- No deletion; or the data keys, and the manifest if that succeeded. -/
  deletes : deletions segment = [] ∨ ∃ keys, listing (backupDir name) (.ok keys) ∈ segment ∧
    ((∃ x, deletions segment = [(dataKeys name keys, .error x)]) ∨
      ∃ r, deletions segment = [(dataKeys name keys, .ok ()), ([manifestKey name], r)])
  deleted : name ∈ outcome.deleted ↔ ∃ keys, listing (backupDir name) (.ok keys) ∈ segment ∧
    deletions segment = [(dataKeys name keys, .ok ()), ([manifestKey name], .ok ())]
  skipped : name ∈ outcome.skipped → deletions segment = []

/-- The contract of a pass: what its trace and its result have to do with each other. -/
structure PassContract (plan : RetentionPlan) (t : List RetentionEvent) (e : End Str RetentionOutcome) :
    Prop where
  /-- A pass that fails has deleted nothing. -/
  failed : ∀ x, e = .failed x → deletions t = []
  /-- No key that a survivor's manifest protects is deleted, the candidates' manifests apart. -/
  unprotected : ∀ d ∈ deletions t, ∀ key ∈ d.1,
    isKeyProtected key ((fetched t).flatMap collectKeyPrefixesFromManifest) = true →
      ∃ name ∈ plan.toDelete, key = manifestKey name
  /-- Before a deletion the manifest of every survivor has been fetched. -/
  informed : ∀ t₁ t₂ keys reply, t = t₁ ++ deletion keys reply :: t₂ →
    ∀ name ∈ plan.surviving, ∃ m, fetching name (.ok m) ∈ t₁
  /-- Only candidates are reported as deleted. -/
  planned : ∀ outcome, e = .returned outcome → ∀ name ∈ outcome.deleted, name ∈ plan.toDelete
  /-- Every candidate has its own segment of the trace. -/
  candidates : ∀ outcome, e = .returned outcome → ∃ fetches segments,
    t = fetches ++ segments.flatten ∧ deletions fetches = [] ∧
      List.Forall₂ (CandidateContract outcome) plan.toDelete segments
  /-- Nothing under a skipped candidate is deleted. -/
  intact : ∀ outcome, e = .returned outcome → ∀ name ∈ outcome.skipped, ∀ d ∈ deletions t,
    ∀ key ∈ d.1, ¬backupDir name <+: key

/-! ## One candidate -/

namespace RetentionCall

variable {β : Type}

theorem list_attempt_bind (pre : Str)
    (f : Except Str (List Str) → Prog RetentionCall RetentionReply Str β) :
    (list pre).attempt.bind f = .call (listPrefix pre) f := by
  refine congrArg (Prog.call (listPrefix pre)) (funext fun r => ?_)
  cases r <;> rfl

theorem delete_attempt_bind (keys : List Str)
    (f : Except Str Unit → Prog RetentionCall RetentionReply Str β) :
    (delete keys).attempt.bind f = .call (deleteKeys keys) f := by
  refine congrArg (Prog.call (deleteKeys keys)) (funext fun r => ?_)
  cases r <;> rfl

end RetentionCall

/-- The segments a candidate can leave behind, and the fate that goes with each. -/
inductive CandidateRun (protectedKeys : List Str) (name : Str) :
    List RetentionEvent → CandidateFate → Prop where
  | base : CandidateRun protectedKeys name [] .skipped
  | unlisted (x : Str) : CandidateRun protectedKeys name [listing (backupDir name) (.error x)] .failed
  | empty : CandidateRun protectedKeys name [listing (backupDir name) (.ok [])] .failed
  | shared (keys : List Str) :
      CandidateRun protectedKeys name [listing (backupDir name) (.ok keys)] .skipped
  | refused (keys : List Str) (x : Str)
      (free : ∀ key ∈ dataKeys name keys, isKeyProtected key protectedKeys = false) :
      CandidateRun protectedKeys name
        [listing (backupDir name) (.ok keys), deletion (dataKeys name keys) (.error x)] .failed
  | orphaned (keys : List Str) (x : Str)
      (free : ∀ key ∈ dataKeys name keys, isKeyProtected key protectedKeys = false) :
      CandidateRun protectedKeys name
        [listing (backupDir name) (.ok keys), deletion (dataKeys name keys) (.ok ()),
          deletion [manifestKey name] (.error x)] .failed
  | gone (keys : List Str)
      (free : ∀ key ∈ dataKeys name keys, isKeyProtected key protectedKeys = false) :
      CandidateRun protectedKeys name
        [listing (backupDir name) (.ok keys), deletion (dataKeys name keys) (.ok ()),
          deletion [manifestKey name] (.ok ())] .deleted

section Candidate

variable {protectedKeys bases : List Str} {name : Str} {t : List RetentionEvent}

/-- The body of the deletion loop over injected operations. -/
def injectedCandidate (protectedKeys bases : List Str) (name : Str) :
    Prog RetentionCall RetentionReply Str CandidateFate :=
  retireCandidate RetentionCall.list RetentionCall.delete protectedKeys bases name

/-- Without a protected key, the keys that are deleted first are all the data keys. -/
theorem filter_unprotected {l : List Str}
    (h : ¬(l.filter fun key => isKeyProtected key protectedKeys).length > 0) :
    (l.filter fun key => !isKeyProtected key protectedKeys) = l ∧
      ∀ key ∈ l, isKeyProtected key protectedKeys = false := by
  have hnil : (l.filter fun key => isKeyProtected key protectedKeys) = [] :=
    List.length_eq_zero_iff.mp (by omega)
  have hfree : ∀ key ∈ l, isKeyProtected key protectedKeys = false := fun key hkey => by
    simpa using List.filter_eq_nil_iff.mp hnil key hkey
  refine ⟨List.filter_eq_self.mpr fun key hkey => ?_, hfree⟩
  rw [hfree key hkey]
  rfl

/-- **One candidate.**  Its run never fails, and leaves one of the segments. -/
theorem candidateRun_of_runs {e : End Str CandidateFate}
    (h : Runs (injectedCandidate protectedKeys bases name) t e) :
    e = .cut ∨ ∃ fate, e = .returned fate ∧ CandidateRun protectedKeys name t fate := by
  unfold injectedCandidate retireCandidate at h
  split at h
  · cases h with
    | ret => exact Or.inr ⟨_, rfl, CandidateRun.base⟩
    | cut => exact Or.inl rfl
  rw [RetentionCall.list_attempt_bind] at h
  cases h with
  | cut => exact Or.inl rfl
  | call r h =>
    rcases r with x | (_ | ⟨k, ks⟩)
    · cases h with
      | ret => exact Or.inr ⟨_, rfl, CandidateRun.unlisted x⟩
      | cut => exact Or.inl rfl
    · cases h with
      | ret => exact Or.inr ⟨_, rfl, CandidateRun.empty⟩
      | cut => exact Or.inl rfl
    · dsimp only at h
      split at h
      · cases h with
        | ret => exact Or.inr ⟨_, rfl, CandidateRun.shared (k :: ks)⟩
        | cut => exact Or.inl rfl
      · rename_i hcount
        obtain ⟨hall, hfree⟩ := filter_unprotected hcount
        rw [hall, RetentionCall.delete_attempt_bind] at h
        cases h with
        | cut => exact Or.inl rfl
        | call r h =>
          rcases r with x | ⟨⟩
          · cases h with
            | ret => exact Or.inr ⟨_, rfl, CandidateRun.refused (k :: ks) x hfree⟩
            | cut => exact Or.inl rfl
          · dsimp only at h
            rw [RetentionCall.delete_attempt_bind] at h
            cases h with
            | cut => exact Or.inl rfl
            | call r h =>
              rcases r with x | ⟨⟩
              · cases h with
                | ret => exact Or.inr ⟨_, rfl, CandidateRun.orphaned (k :: ks) x hfree⟩
                | cut => exact Or.inl rfl
              · cases h with
                | ret => exact Or.inr ⟨_, rfl, CandidateRun.gone (k :: ks) hfree⟩
                | cut => exact Or.inl rfl

/-- A deletion that one candidate asks for: no protected key, its own manifest apart. -/
def RetentionCall.Spares (protectedKeys : List Str) (names : List Str) (c : RetentionCall) : Prop :=
  (∀ n, c ≠ .fetchManifest n) ∧ ∀ keys, c = .deleteKeys keys → ∀ key ∈ keys,
    isKeyProtected key protectedKeys = true → ∃ name ∈ names, key = manifestKey name

theorem injectedCandidate_spares (protectedKeys bases : List Str) {names : List Str} {name : Str}
    (hname : name ∈ names) :
    Within (RetentionCall.Spares protectedKeys names) (fun _ => True)
      (injectedCandidate protectedKeys bases name) := by
  unfold injectedCandidate retireCandidate
  split
  · exact within_ret trivial
  rw [RetentionCall.list_attempt_bind]
  refine within_call ⟨fun _ h => (by cases h), fun _ h => (by cases h)⟩ fun r => ?_
  rcases r with x | (_ | ⟨k, ks⟩)
  · exact within_ret trivial
  · exact within_ret trivial
  dsimp only
  split
  · exact within_ret trivial
  rename_i hcount
  obtain ⟨hall, hfree⟩ := filter_unprotected hcount
  rw [hall, RetentionCall.delete_attempt_bind]
  refine within_call ⟨fun _ h => (by cases h), fun keys hkeys key hkey hprot => ?_⟩ fun r => ?_
  · cases hkeys
    rw [hfree key hkey] at hprot
    cases hprot
  rcases r with x | ⟨⟩
  · exact within_ret trivial
  dsimp only
  rw [RetentionCall.delete_attempt_bind]
  refine within_call ⟨fun _ h => (by cases h), fun keys hkeys key hkey _ => ?_⟩ fun r => ?_
  · cases hkeys
    exact ⟨name, hname, List.mem_singleton.mp hkey⟩
  rcases r with x | ⟨⟩
  · exact within_ret trivial
  · exact within_ret trivial

end Candidate

/-! ## Reading a trace -/

@[simp] theorem deletions_append (t t' : List RetentionEvent) :
    deletions (t ++ t') = deletions t ++ deletions t' := List.filterMap_append

@[simp] theorem fetched_append (t t' : List RetentionEvent) :
    fetched (t ++ t') = fetched t ++ fetched t' := List.filterMap_append

@[simp] theorem deletions_nil : deletions [] = [] := rfl

@[simp] theorem deletions_listing (pre : Str) (r : Except Str (List Str)) (t : List RetentionEvent) :
    deletions (listing pre r :: t) = deletions t := rfl

@[simp] theorem deletions_deletion (keys : List Str) (r : Except Str Unit)
    (t : List RetentionEvent) : deletions (deletion keys r :: t) = (keys, r) :: deletions t := rfl

theorem mem_deletions {t : List RetentionEvent} {d : List Str × Except Str Unit} :
    d ∈ deletions t ↔ deletion d.1 d.2 ∈ t := by
  simp only [deletions, List.mem_filterMap]
  constructor
  · rintro ⟨⟨_ | _ | keys, reply⟩, hev, h⟩
    · cases h
    · cases h
    · cases h
      exact hev
  · intro h
    exact ⟨_, h, rfl⟩

theorem deletions_eq_nil {t : List RetentionEvent}
    (h : ∀ ev ∈ t, ∀ keys, ev.1 ≠ .deleteKeys keys) : deletions t = [] := by
  refine List.eq_nil_iff_forall_not_mem.mpr fun d hd => ?_
  exact h _ (mem_deletions.mp hd) d.1 rfl

theorem fetched_eq_nil {t : List RetentionEvent}
    (h : ∀ ev ∈ t, ∀ n, ev.1 ≠ .fetchManifest n) : fetched t = [] := by
  refine List.filterMap_eq_nil_iff.mpr fun ev hev => ?_
  rcases ev with ⟨n | _ | _, reply⟩
  · exact absurd rfl (h _ hev n)
  · rfl
  · rfl

namespace CandidateRun

variable {protectedKeys : List Str} {name : Str} {t : List RetentionEvent} {fate : CandidateFate}

/-- The deletions of a candidate come in order. -/
theorem deletes (h : CandidateRun protectedKeys name t fate) :
    deletions t = [] ∨ ∃ keys, listing (backupDir name) (.ok keys) ∈ t ∧
      ((∃ x, deletions t = [(dataKeys name keys, .error x)]) ∨
        ∃ r, deletions t = [(dataKeys name keys, .ok ()), ([manifestKey name], r)]) := by
  cases h with
  | base => exact Or.inl rfl
  | unlisted x => exact Or.inl rfl
  | empty => exact Or.inl rfl
  | shared keys => exact Or.inl rfl
  | refused keys x => exact Or.inr ⟨keys, List.mem_cons_self, Or.inl ⟨x, rfl⟩⟩
  | orphaned keys x => exact Or.inr ⟨keys, List.mem_cons_self, Or.inr ⟨_, rfl⟩⟩
  | gone keys => exact Or.inr ⟨keys, List.mem_cons_self, Or.inr ⟨_, rfl⟩⟩

theorem deleted_iff (h : CandidateRun protectedKeys name t fate) :
    fate = .deleted ↔ ∃ keys, listing (backupDir name) (.ok keys) ∈ t ∧
      deletions t = [(dataKeys name keys, .ok ()), ([manifestKey name], .ok ())] := by
  cases h with
  | gone keys => exact ⟨fun _ => ⟨keys, List.mem_cons_self, rfl⟩, fun _ => rfl⟩
  | _ => simp

theorem skipped (h : CandidateRun protectedKeys name t fate) (hs : fate = .skipped) :
    deletions t = [] := by
  cases h with
  | base => rfl
  | shared keys => rfl
  | _ => cases hs

/-- What a candidate deletes lies under it. -/
theorem under (h : CandidateRun protectedKeys name t fate)
    (hlist : ListsUnderPrefix t) {d : List Str × Except Str Unit} (hd : d ∈ deletions t) {key : Str}
    (hkey : key ∈ d.1) : backupDir name <+: key := by
  have hdata : ∀ keys, listing (backupDir name) (.ok keys) ∈ t → key ∈ dataKeys name keys →
      backupDir name <+: key := fun keys hk hkey =>
    hlist _ _ hk key (List.mem_of_mem_filter hkey)
  have hmanifest : key ∈ [manifestKey name] → backupDir name <+: key := fun h =>
    List.mem_singleton.mp h ▸ backupDir_prefix_manifestKey name
  rcases h.deletes with hnil | ⟨keys, hk, ⟨x, hx⟩ | ⟨r, hr⟩⟩
  · rw [hnil] at hd
    cases hd
  · rw [hx, List.mem_singleton] at hd
    subst hd
    exact hdata keys hk hkey
  · rw [hr, List.mem_cons, List.mem_singleton] at hd
    rcases hd with rfl | rfl
    · exact hdata keys hk hkey
    · exact hmanifest hkey

end CandidateRun

/-! ## The pass -/

section Pass

variable {plan : RetentionPlan} {t : List RetentionEvent}

/-- The loop that reads the survivors' manifests. -/
def readSurvivors (names : List Str) : Prog RetentionCall RetentionReply Str (List BackupManifest) :=
  .forEach names fun name => (RetentionCall.fetch name).mapError (retentionAborted name)

/-- The loop over the candidates. -/
def retireAll (protectedKeys bases : List Str) (names : List Str) :
    Prog RetentionCall RetentionReply Str (List (Str × CandidateFate)) :=
  .forEach names fun name =>
    (injectedCandidate protectedKeys bases name).bind fun fate => .ret (name, fate)

/-- What the pass reports. -/
def RetentionOutcome.ofFates (fates : List (Str × CandidateFate)) : RetentionOutcome where
  deleted := (fates.filter fun f => f.2 = .deleted).map Prod.fst
  skipped := (fates.filter fun f => f.2 = .skipped).map Prod.fst

theorem injectedPass_eq (plan : RetentionPlan) :
    injectedPass plan = (readSurvivors plan.surviving).bind fun manifests =>
      (retireAll (manifests.flatMap collectKeyPrefixesFromManifest)
          (manifests.flatMap collectIncrementalBases) plan.toDelete).bind fun fates =>
        .ret (RetentionOutcome.ofFates fates) := rfl

theorem readSurvivors_deletes {names : List Str} {e : End Str (List BackupManifest)}
    (h : Runs (readSurvivors names) t e) : deletions t = [] := by
  have hw : Within (fun c : RetentionCall => ∀ keys, c ≠ .deleteKeys keys) _
      (readSurvivors names) := within_forEach fun name _ =>
    Within.mapError (within_perform (fun _ h => by cases h) fun r => by
      cases r with
      | error x => exact within_fail x
      | ok m => exact within_ret (Q := fun _ => True) trivial)
  exact deletions_eq_nil (hw.runs h).1

theorem fetched_of_fetch {name : Str} {m : BackupManifest}
    (h : Runs (RetentionCall.fetch name) t (.returned m)) : fetched t = [m] := by
  cases h with
  | call r h =>
    cases r with
    | error x => cases h
    | ok m' =>
      cases h
      rfl

theorem fetched_flatten {us : List (List RetentionEvent × BackupManifest)}
    (h : ∀ u ∈ us, fetched u.1 = [u.2]) : fetched (us.map Prod.fst).flatten = us.map Prod.snd := by
  induction us with
  | nil => rfl
  | cons u us ih =>
    rw [List.map_cons, List.flatten_cons, fetched_append, h u List.mem_cons_self,
      ih fun v hv => h v (List.mem_cons_of_mem _ hv)]
    rfl

/-- The manifests in the trace are the ones the pass protects. -/
theorem fetched_of_readSurvivors {names : List Str} {ms : List BackupManifest}
    (h : Runs (readSurvivors names) t (.returned ms)) : fetched t = ms := by
  obtain ⟨us, rfl, rfl, hus⟩ := h.values_of_forEach
  refine fetched_flatten fun u hu => ?_
  obtain ⟨name, -, hrun⟩ := exists_of_forall₂ hus hu
  exact fetched_of_fetch hrun.of_mapError

theorem mem_of_fetch {name : Str} {m : BackupManifest} (h : Runs (RetentionCall.fetch name) t (.returned m)) :
    fetching name (.ok m) ∈ t := by
  cases h with
  | call r h =>
    cases r with
    | error x => cases h
    | ok m' =>
      cases h
      exact List.mem_cons_self

/-- The manifest of every survivor is read. -/
theorem mem_of_readSurvivors {names : List Str} {ms : List BackupManifest}
    (h : Runs (readSurvivors names) t (.returned ms)) {name : Str} (hname : name ∈ names) :
    ∃ m, fetching name (.ok m) ∈ t := by
  obtain ⟨us, rfl, rfl, hus⟩ := h.values_of_forEach
  obtain ⟨u, hu, hrun⟩ := exists_of_forall₂ hus.flip hname
  exact ⟨u.2, List.mem_flatten.mpr ⟨u.1, List.mem_map_of_mem hu, mem_of_fetch hrun.of_mapError⟩⟩

/-- A deletion comes after all that deletes nothing. -/
theorem prefix_of_deletions_nil {t' t₁ t₂ : List RetentionEvent} {keys : List Str} {reply : Except Str Unit}
    (h : t ++ t' = t₁ ++ deletion keys reply :: t₂) (hnil : deletions t = []) : t <+: t₁ := by
  rcases List.append_eq_append_iff.mp h with ⟨u, rfl, -⟩ | ⟨u, rfl, hu⟩
  · exact List.prefix_append t u
  · cases u with
    | nil => rw [List.append_nil]
    | cons ev u =>
      obtain ⟨rfl, -⟩ := List.cons.inj hu
      have hmem : (keys, reply) ∈ deletions (t₁ ++ deletion keys reply :: u) :=
        mem_deletions.mpr (List.mem_append_right _ List.mem_cons_self)
      rw [hnil] at hmem
      cases hmem

theorem retireAll_spares (protectedKeys bases names : List Str) :
    Within (RetentionCall.Spares protectedKeys names) (fun _ => True)
      (retireAll protectedKeys bases names) :=
  (within_forEach fun _ hname => (injectedCandidate_spares protectedKeys bases hname).bind
    fun _ _ => within_ret (Q := fun _ => True) trivial).imp fun _ _ => trivial

/-- The loop over the candidates never fails. -/
theorem retireAll_not_failed {protectedKeys bases names : List Str} {x : Str} :
    ¬Runs (retireAll protectedKeys bases names) t (.failed x) := by
  intro h
  obtain ⟨name, -, t', ht'⟩ := h.failed_of_forEach
  rcases ht'.of_bind with ⟨fate, t₁, t₂, -, -, h₂⟩ | ⟨he, -⟩ | ⟨y, he, h₁⟩
  · cases h₂
  · cases he
  · rcases candidateRun_of_runs h₁ with hc | ⟨fate, hc, -⟩
    · cases hc
    · cases hc

/-- The loop over the candidates leaves one segment for each. -/
theorem segments_of_retireAll {protectedKeys bases names : List Str}
    {fates : List (Str × CandidateFate)}
    (h : Runs (retireAll protectedKeys bases names) t (.returned fates)) :
    ∃ us : List (List RetentionEvent × Str × CandidateFate),
      t = (us.map Prod.fst).flatten ∧ fates = us.map Prod.snd ∧
        List.Forall₂ (fun name u => u.2.1 = name ∧ CandidateRun protectedKeys name u.1 u.2.2)
          names us := by
  obtain ⟨us, rfl, rfl, hus⟩ := h.values_of_forEach
  refine ⟨us, rfl, rfl, hus.imp fun name u hu => ?_⟩
  rcases u with ⟨t', n, fate⟩
  obtain ⟨fate', t₁, t₂, rfl, h₁, h₂⟩ := hu.returned_of_bind
  cases h₂
  rcases candidateRun_of_runs h₁ with hc | ⟨f, hf, hrun⟩
  · cases hc
  · cases hf
    rw [List.append_nil]
    exact ⟨rfl, hrun⟩

/-- A candidate is reported by its own fate. -/
theorem mem_filter_fates_iff {fates : List (Str × CandidateFate)} (hnodup : (fates.map Prod.fst).Nodup)
    {name : Str} {fate x : CandidateFate} (hmem : (name, fate) ∈ fates) :
    name ∈ (fates.filter fun f => f.2 = x).map Prod.fst ↔ fate = x := by
  constructor
  · intro h
    obtain ⟨⟨n, f⟩, hf, rfl⟩ := List.mem_map.mp h
    have hx := List.mem_filter.mp hf
    have heq : (n, f) = (n, fate) := List.inj_on_of_nodup_map hnodup hx.1 hmem rfl
    cases heq
    exact of_decide_eq_true hx.2
  · rintro rfl
    exact List.mem_map.mpr ⟨(name, fate), List.mem_filter.mpr ⟨hmem, decide_eq_true rfl⟩, rfl⟩

/-- The reported names of a finished pass. -/
theorem reported_iff {protectedKeys names : List Str}
    {us : List (List RetentionEvent × Str × CandidateFate)}
    (hus : List.Forall₂ (fun name u => u.2.1 = name ∧ CandidateRun protectedKeys name u.1 u.2.2)
      names us) (hnodup : names.Nodup) {u : List RetentionEvent × Str × CandidateFate} (hu : u ∈ us)
    (x : CandidateFate) :
    u.2.1 ∈ ((us.map Prod.snd).filter fun f => f.2 = x).map Prod.fst ↔ u.2.2 = x := by
  have hnames : (us.map Prod.snd).map Prod.fst = names := by
    rw [List.map_map]
    rw [← List.forall₂_eq_eq_eq, List.forall₂_map_left_iff]
    exact hus.flip.imp fun _ _ h => h.1
  have hmem : (u.2.1, u.2.2) ∈ us.map Prod.snd := List.mem_map.mpr ⟨u, hu, rfl⟩
  exact mem_filter_fates_iff (hnames.symm ▸ hnodup) hmem

/-- Every candidate of a finished pass meets its contract. -/
theorem candidateContracts {protectedKeys names : List Str}
    {us : List (List RetentionEvent × Str × CandidateFate)}
    (hus : List.Forall₂ (fun name u => u.2.1 = name ∧ CandidateRun protectedKeys name u.1 u.2.2)
      names us) (hnodup : names.Nodup) :
    List.Forall₂ (CandidateContract (RetentionOutcome.ofFates (us.map Prod.snd))) names
      (us.map Prod.fst) := by
  rw [List.forall₂_map_right_iff]
  have hmem := (List.forall₂_and_left (p := fun u => u ∈ us) us names).mpr
    ⟨fun u hu => hu, hus.flip⟩
  refine hmem.flip.imp fun name u h => ?_
  obtain ⟨hu, rfl, hrun⟩ := h
  exact
    { deletes := hrun.deletes
      deleted := (reported_iff hus hnodup hu .deleted).trans hrun.deleted_iff
      skipped := fun hs => hrun.skipped ((reported_iff hus hnodup hu .skipped).mp hs) }

/-- What is deleted lies under a candidate that is not skipped. -/
theorem skipped_intact {protectedKeys names : List Str}
    {us : List (List RetentionEvent × Str × CandidateFate)}
    (hus : List.Forall₂ (fun name u => u.2.1 = name ∧ CandidateRun protectedKeys name u.1 u.2.2)
      names us) (hnodup : names.Nodup) (hslash : ∀ n ∈ names, '/' ∉ n)
    (hlist : ∀ u ∈ us, ListsUnderPrefix u.1) {name : Str}
    (hname : name ∈ (RetentionOutcome.ofFates (us.map Prod.snd)).skipped)
    {d : List Str × Except Str Unit} (hd : d ∈ deletions (us.map Prod.fst).flatten) {key : Str}
    (hkey : key ∈ d.1) : ¬backupDir name <+: key := by
  intro hpre
  have hskip : ∃ u ∈ us, u.2.2 = .skipped ∧ u.2.1 = name := by
    obtain ⟨f, hf, rfl⟩ := List.mem_map.mp hname
    obtain ⟨u, hu, rfl⟩ := List.mem_map.mp (List.mem_of_mem_filter hf)
    exact ⟨u, hu, of_decide_eq_true (List.mem_filter.mp hf).2, rfl⟩
  obtain ⟨u, hu, hfate, rfl⟩ := hskip
  obtain ⟨seg, hseg, hev⟩ := List.mem_flatten.mp (mem_deletions.mp hd)
  obtain ⟨v, hv, rfl⟩ := List.mem_map.mp hseg
  obtain ⟨n, hn, hvn, hrun⟩ := exists_of_forall₂ hus hv
  obtain ⟨n', hn', hun, -⟩ := exists_of_forall₂ hus hu
  have hunder := hrun.under (hlist v hv) (mem_deletions.mpr hev) hkey
  -- the segment that deletes the key is the skipped candidate's own
  have hsame : n = u.2.1 :=
    backupDir_unique (hslash n hn) (hun ▸ hslash n' hn') hunder hpre
  have hvfate : v.2.2 = .skipped := by
    rw [← reported_iff hus hnodup hv .skipped, hvn, hsame]
    exact (reported_iff hus hnodup hu .skipped).mpr hfate
  have hnil := hrun.skipped hvfate
  have hmem := mem_deletions.mpr hev
  rw [hnil] at hmem
  cases hmem

/-- A pass that ends before its first deletion. -/
theorem passContract_of_deletions_nil {e : End Str RetentionOutcome} (hdel : deletions t = [])
    (he : ∀ outcome, e ≠ .returned outcome) : PassContract plan t e where
  failed _ _ := hdel
  unprotected d hd := by
    rw [hdel] at hd
    cases hd
  informed t₁ t₂ keys reply ht := by
    have hmem : (keys, reply) ∈ deletions t :=
      mem_deletions.mpr (ht ▸ List.mem_append_right t₁ List.mem_cons_self)
    rw [hdel] at hmem
    cases hmem
  planned outcome ho := absurd ho (he outcome)
  candidates outcome ho := absurd ho (he outcome)
  intact outcome ho := absurd ho (he outcome)

/-- **The contract of the pass.**  For every plan that names each backup once, and every pattern
of failures of its operations. -/
theorem injectedPass_contract (plan : RetentionPlan)
    (hslash : ∀ n ∈ plan.toDelete ++ plan.surviving, '/' ∉ n)
    (hnodup : (plan.toDelete ++ plan.surviving).Nodup) {t : List RetentionEvent}
    {e : End Str RetentionOutcome} (h : Runs (injectedPass plan) t e) (hlist : ListsUnderPrefix t) :
    PassContract plan t e := by
  rw [injectedPass_eq] at h
  rcases h.of_bind with ⟨ms, t₁, t₂, rfl, h₁, h₂⟩ | ⟨rfl, h₁⟩ | ⟨x, rfl, h₁⟩
  · have hdel := readSurvivors_deletes h₁
    have hfetch := fetched_of_readSurvivors h₁
    have hspares : (∀ ev ∈ t₂, RetentionCall.Spares _ plan.toDelete ev.1) :=
      (((retireAll_spares _ _ _).bind fun fates _ =>
        within_ret (Q := fun _ => True) trivial).runs h₂).1
    have hunprotected : ∀ d ∈ deletions (t₁ ++ t₂), ∀ key ∈ d.1,
        isKeyProtected key ((fetched (t₁ ++ t₂)).flatMap collectKeyPrefixesFromManifest) = true →
          ∃ name ∈ plan.toDelete, key = manifestKey name := by
      intro d hd key hkey hprot
      rw [deletions_append, hdel, List.nil_append] at hd
      rw [fetched_append, hfetch, fetched_eq_nil fun ev hev => (hspares ev hev).1,
        List.append_nil] at hprot
      exact (hspares _ (mem_deletions.mp hd)).2 d.1 rfl key hkey hprot
    have hinformed : ∀ t₃ t₄ keys reply, t₁ ++ t₂ = t₃ ++ deletion keys reply :: t₄ →
        ∀ name ∈ plan.surviving, ∃ m, fetching name (.ok m) ∈ t₃ := by
      intro t₃ t₄ keys reply ht name hname
      obtain ⟨m, hm⟩ := mem_of_readSurvivors h₁ hname
      exact ⟨m, (prefix_of_deletions_nil ht hdel).subset hm⟩
    rcases h₂.of_bind with ⟨fates, t₃, t₄, rfl, h₃, h₄⟩ | ⟨rfl, h₃⟩ | ⟨x, rfl, h₃⟩
    · obtain ⟨us, rfl, rfl, hus⟩ := segments_of_retireAll h₃
      have hnd : plan.toDelete.Nodup := (List.nodup_append.mp hnodup).1
      cases h₄ with
      | cut => exact ⟨fun x hx => (by cases hx), hunprotected, hinformed, fun o ho => (by cases ho),
          fun o ho => (by cases ho), fun o ho => (by cases ho)⟩
      | ret =>
        refine ⟨fun x hx => (by cases hx), hunprotected, hinformed, ?_, ?_, ?_⟩
        · rintro outcome ⟨⟩ name hname
          obtain ⟨f, hf, rfl⟩ := List.mem_map.mp hname
          obtain ⟨u, hu, rfl⟩ := List.mem_map.mp (List.mem_of_mem_filter hf)
          obtain ⟨n, hn, hnu, -⟩ := exists_of_forall₂ hus hu
          exact hnu ▸ hn
        · rintro outcome ⟨⟩
          refine ⟨t₁, us.map Prod.fst, ?_, hdel, candidateContracts hus hnd⟩
          rw [List.append_nil]
        · rintro outcome ⟨⟩ name hname d hd key hkey
          rw [deletions_append, hdel, List.nil_append, List.append_nil] at hd
          refine skipped_intact hus hnd (fun n hn => hslash n (List.mem_append_left _ hn))
            (fun u hu pre keys hk => hlist pre keys ?_) hname hd hkey
          refine List.mem_append_right _ (List.mem_append_left _ (List.mem_flatten.mpr ?_))
          exact ⟨u.1, List.mem_map.mpr ⟨u, hu, rfl⟩, hk⟩
    · exact ⟨fun x hx => (by cases hx), hunprotected, hinformed, fun o ho => (by cases ho),
        fun o ho => (by cases ho), fun o ho => (by cases ho)⟩
    · exact absurd h₃ retireAll_not_failed
  · exact passContract_of_deletions_nil (readSurvivors_deletes h₁) fun o ho => by cases ho
  · exact passContract_of_deletions_nil (readSurvivors_deletes h₁) fun o ho => by cases ho

end Pass

/-- A survivor that refers to an object of the backup `b`. -/
def survivorOfB : BackupManifest :=
  { (default : BackupManifest) with
    tables := SortedMap.empty.insert "db.t" { (default : TableManifest) with
      parts := SortedMap.empty.insert "default" [{ PartInfo.new "p" 1 1 with backupKey := "b/x" }] } }

/-- Operations that succeed: each backup has one object beside its manifest. -/
def succeedingOps : (c : RetentionCall) → RetentionReply c
  | .fetchManifest _ => .ok survivorOfB
  | .listPrefix pre => .ok [pre ++ "metadata.json", pre ++ "x"]
  | .deleteKeys _ => .ok ()

/-- The plan that retires `a` and `b`, and keeps `c`. -/
def twoCandidates : RetentionPlan := ⟨["a", "b"], ["c"]⟩

theorem injectedPass_contract_twoCandidates :
    endOn succeedingOps (injectedPass twoCandidates) = .returned ⟨["a"], ["b"]⟩ ∧
      PassContract twoCandidates (traceOn succeedingOps (injectedPass twoCandidates))
        (endOn succeedingOps (injectedPass twoCandidates)) := by
  refine ⟨by decide, injectedPass_contract twoCandidates (by decide) (by decide)
    (runs_on succeedingOps _) ?_⟩
  have hanswers : ∀ ev ∈ traceOn succeedingOps (injectedPass twoCandidates),
      ev.2 = succeedingOps ev.1 := fun _ hev => snd_of_mem_traceOn succeedingOps _ hev
  intro pre keys hk key hkey
  have hkeys := hanswers _ hk
  cases hkeys
  rcases List.mem_cons.mp hkey with rfl | hkey
  · exact List.prefix_append _ _
  · rw [List.mem_singleton.mp hkey]
    exact List.prefix_append _ _

end Chbackup
