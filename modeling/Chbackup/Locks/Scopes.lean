import Chbackup.Locks.Acquire

/-!
# Threads that take scopes

Threads of several processes take and drop locks of backups and the global lock.  What keeps the
tiers apart is the gate: under it a thread looks for locks of the other tier and takes its own.
The gate is a lock like any other, so it protects only as long as nobody removes it from under its
holder.  A process that has read the gate file asks whether its holder is alive in a second
operation; if the holder has dropped the gate, finished its work and ended in between, the answer
is no, and the file that is removed is the gate of somebody else.
-/

namespace Chbackup

open CallTree Prog

/-! ## What a thread knows -/

/-- What a thread holds, and what it has learnt since it took the gate. -/
structure LockMind where
  gate : Bool
  scope : Option LockScope
  /-- A file that was just read, with its holder. -/
  pending : Option (Str × Nat)
  /-- A file that was just found to be removable. -/
  judged : Option Str
  /-- The files that were seen without a live holder. -/
  cleared : List Str
  /-- The last listing of the directory. -/
  listed : Option (List Str)
  deriving DecidableEq

namespace LockMind

/-- A thread that holds nothing. -/
def initial : LockMind := ⟨false, none, none, none, [], none⟩

/-- What a thread learns from an operation. -/
def learn (l : LockMind) : LockEvent → LockMind
  | ⟨.link target, (r : LinkReply)⟩ =>
    match r, target with
    | .created, .gate => ⟨true, l.scope, none, none, [], none⟩
    | .created, .scope s => ⟨l.gate, some s, none, none, l.cleared, l.listed⟩
    | _, _ => ⟨l.gate, l.scope, none, none, l.cleared, l.listed⟩
  | ⟨.read file, (r : Option LockContent)⟩ =>
    match r with
    | some (.held holder) => ⟨l.gate, l.scope, some (file, holder), none, l.cleared, l.listed⟩
    | some .corrupt => ⟨l.gate, l.scope, none, some file, file :: l.cleared, l.listed⟩
    | none => ⟨l.gate, l.scope, none, none, file :: l.cleared, l.listed⟩
  | ⟨.holderIsLive _, (live : Bool)⟩ =>
    match live, l.pending with
    | false, some (file, _) => ⟨l.gate, l.scope, none, some file, file :: l.cleared, l.listed⟩
    | _, _ => ⟨l.gate, l.scope, none, none, l.cleared, l.listed⟩
  | ⟨.unlink file, _⟩ =>
    ⟨l.gate && file ≠ gateFile, l.scope.filter fun s => s.file ≠ file, none, none, l.cleared,
      l.listed⟩
  | ⟨.readDir, (r : Except Str (List Str))⟩ =>
    ⟨l.gate, l.scope, none, none, l.cleared, r.toOption.or l.listed⟩

/-- The files of the locks that a thread holds. -/
def Owns (l : LockMind) (file : Str) : Prop :=
  l.gate = true ∧ file = gateFile ∨ ∃ s, l.scope = some s ∧ file = s.file

end LockMind

/-- A scope whose lock file a scan of the directory can see: the name of a backup is not empty and
has no slash. -/
def LockScope.Visible : LockScope → Prop
  | .backup name => name ≠ [] ∧ '/' ∉ name
  | _ => True

/-- The scopes that must not be held together. -/
def LockScope.Conflicts : LockScope → LockScope → Prop
  | .backup n, .backup n' => n = n'
  | .none, _ => False
  | _, .none => False
  | _, _ => True

/-! ## Processes and threads -/

/-- Take and drop locks one after the other; an attempt that fails is given up. -/
def scopeUser (scopes : List LockScope) : LockProg (List Unit) :=
  forEach scopes fun scope =>
    (acquireScoped scope).attempt.bind fun (taken : Except LockError Unit) =>
      match taken with
      | .ok _ => release (.scope scope)
      | .error _ => .ret ()

/-- Threads of processes.  A process may end when its threads hold nothing; its threads then take
no further step. -/
def scopeMachine (process : Nat → Nat) : Machine LockCall LockCall.Reply LockDir LockMind Nat where
  serve i := LockDir.serve (process i)
  learn := LockMind.learn
  enabled i dir := process i ∉ dir.dead
  move p dir ls :=
    if ls.zipIdx.all fun t => process t.2 ≠ p || (!t.1.gate && t.1.scope.isNone) then
      some { dir with dead := p :: dir.dead }
    else none

/-- The threads of the machine. -/
abbrev ScopeThreads : Type := Threads LockCall LockCall.Reply LockDir LockMind LockError (List Unit)

/-- Threads with the scopes they will ask for, an empty lock directory. -/
def scopeStart (requests : List (List LockScope)) : ScopeThreads where
  shared := ⟨SortedMap.empty, []⟩
  threads := requests.map fun scopes => ⟨LockMind.initial, scopeUser scopes⟩

/-- No two threads hold scopes that conflict. -/
def MutuallyExclusive (s : ScopeThreads) : Prop :=
  ∀ (i j : Nat) t t' a b, i ≠ j → s.threads[i]? = some t → s.threads[j]? = some t' →
    t.mind.scope = some a → t'.mind.scope = some b → ¬LockScope.Conflicts a b

/-- A process does not end while a thread that has read its name in the gate file has not yet asked
whether it is alive. -/
def EndsUnobserved (_ : LockDir) (ls : List LockMind) : Nat ⊕ Nat → Prop
  | .inl _ => True
  | .inr p => ∀ l ∈ ls, l.pending ≠ some (gateFile, p)

/-! ## File names -/

namespace LockScope

theorem file_backup (n : Str) : (backup n).file = "chbackup.".toList ++ (n ++ ".pid".toList) :=
  List.append_assoc _ _ _

theorem file_ne_gateFile (s : LockScope) : s.file ≠ gateFile := by
  cases s with
  | none => decide
  | global => decide
  | backup name =>
    intro h
    have hlast := congrArg List.getLast? h
    rw [file_backup, ← List.append_assoc, List.getLast?_append_of_ne_nil _ (by decide)] at hlast
    exact absurd hlast (by decide)

theorem backup_file_injective {n n' : Str} (h : (backup n).file = (backup n').file) : n = n' := by
  rw [file_backup, file_backup] at h
  exact List.append_cancel_right (List.append_cancel_left h)

theorem slash_notMem_file {s : LockScope} (h : s.Visible) : '/' ∉ s.file := by
  cases s with
  | none => exact List.not_mem_nil
  | global => decide
  | backup name =>
    rw [file_backup, List.mem_append, List.mem_append]
    intro hmem
    rcases hmem with hmem | hmem | hmem
    · exact absurd hmem (by decide)
    · exact h.2 hmem
    · exact absurd hmem (by decide)

end LockScope

/-- What is between the beginning and the end of a lock file name. -/
theorem backupNameFromLockFile_file (stem : Str) :
    backupNameFromLockFile (LockScope.backup stem).file =
      if stem ≠ [] ∧ stem ≠ "global".toList then some stem else none := by
  have hpre : Str.stripPrefix? "chbackup.".toList (LockScope.backup stem).file =
      some (stem ++ ".pid".toList) := by
    rw [Str.stripPrefix?, LockScope.file_backup, if_pos, List.drop_left]
    exact List.isPrefixOf_iff_prefix.mpr (List.prefix_append _ _)
  have hpost : Str.stripSuffix? ".pid".toList (stem ++ ".pid".toList) = some stem := by
    rw [Str.stripSuffix?, if_pos, List.length_append, Nat.add_sub_cancel, List.take_left]
    exact List.isSuffixOf_iff_suffix.mpr (List.suffix_append _ _)
  rw [backupNameFromLockFile, hpre, Option.bind_some, hpost, Option.bind_some]

theorem backupNameFromLockFile_backup {n : Str} (hn : n ≠ []) (hg : n ≠ "global".toList) :
    backupNameFromLockFile (LockScope.backup n).file = some n := by
  rw [backupNameFromLockFile_file, if_pos ⟨hn, hg⟩]

/-! ## The discipline of `acquire_scoped` -/

namespace LockMind

/-- Since it took the gate, the thread has seen no live lock of the other tier. -/
def Checked (l : LockMind) : LockScope → Prop
  | .global => ∃ entries, l.listed = some entries ∧
      ∀ entry ∈ entries, (backupNameFromLockFile entry).isSome → entry ∈ l.cleared
  | .backup _ => LockScope.global.file ∈ l.cleared
  | .none => True

/-- The operations a thread may make. -/
def Permits (l : LockMind) : LockCall → Prop
  | .link .gate => l.gate = false ∧ l.scope = none
  | .link (.scope s) => l.gate = true ∧ l.scope = none ∧ s.Visible ∧ l.Checked s
  | .read file => l.gate = decide (file ≠ gateFile)
  | .holderIsLive holder => ∃ file, l.pending = some (file, holder) ∧ l.gate = decide (file ≠ gateFile)
  | .unlink file => l.Owns file ∨ l.judged = some file ∧ l.gate = decide (file ≠ gateFile)
  | .readDir => l.gate = true

end LockMind

/-- The thread holds the lock it asked for, under the gate if it is a scope. -/
def LockTarget.Taken : LockTarget → LockMind → Prop
  | .gate, l => l.gate = true ∧ l.scope = none
  | .scope s, l => l.gate = true ∧ l.scope = some s

section Obeys

variable {target : LockTarget} {l : LockMind}

theorem LockTarget.gate_eq (hl : l.Permits (.link target)) :
    l.gate = decide (target.file ≠ gateFile) ∧ l.scope = none := by
  cases target with
  | gate => exact ⟨by rw [hl.1]; rfl, hl.2⟩
  | scope s => exact ⟨by rw [hl.1]; simp [LockTarget.file, s.file_ne_gateFile], hl.2.1⟩

/-- Learning more does not forbid a link. -/
theorem permits_link_of_le {l' : LockMind} (hl : l.Permits (.link target)) (hgate : l'.gate = l.gate)
    (hscope : l'.scope = l.scope) (hcleared : l.cleared ⊆ l'.cleared) (hlisted : l'.listed = l.listed) :
    l'.Permits (.link target) := by
  cases target with
  | gate => exact ⟨hgate.trans hl.1, hscope.trans hl.2⟩
  | scope s =>
    obtain ⟨hg, hs, hv, hc⟩ := hl
    refine ⟨hgate.trans hg, hscope.trans hs, hv, ?_⟩
    cases s with
    | global =>
      obtain ⟨entries, hentries, hall⟩ := hc
      exact ⟨entries, hlisted.trans hentries, fun e he hname => hcleared (hall e he hname)⟩
    | backup n => exact hcleared hc
    | none => trivial

theorem obeys_acquireLoop_scope (target : LockTarget) (attempts corruptReads : Nat)
    (hl : l.Permits (.link target)) :
    Obeys LockMind.learn LockMind.Permits
      (fun l (r : Except LockError Unit) =>
        (r = .ok () → target.Taken l) ∧ ((∀ a, r ≠ .ok a) → l.Permits (.link target))) l
      (acquireLoop target attempts corruptReads) := by
  induction attempts generalizing l corruptReads with
  | zero => exact ⟨fun h => (nomatch h), fun _ => hl⟩
  | succ attempts ih =>
    refine obeys_perform hl fun reply => ?_
    cases reply with
    | created =>
      refine ⟨fun _ => ?_, fun h => absurd rfl (h ())⟩
      cases target with
      | gate => exact ⟨rfl, hl.2⟩
      | scope s => exact ⟨hl.1, rfl⟩
    | failed e =>
      refine ⟨fun h => (nomatch h), fun _ => ?_⟩
      exact permits_link_of_le hl rfl rfl (List.Subset.refl _) rfl
    | alreadyExists =>
      have hl₁ : (l.learn ⟨.link target, LinkReply.alreadyExists⟩).Permits (.link target) :=
        permits_link_of_le hl rfl rfl (List.Subset.refl _) rfl
      refine Obeys.bind (Q := fun l r => l.Permits (.link target) ∧
        ((r = .ok .stale ∨ r = .ok .unreadable) → l.judged = some target.file)) ?_
        (fun l' existing hexisting => ?_) fun l' e he => ⟨fun h => (nomatch h), fun _ => he.1⟩
      · refine obeys_perform (LockTarget.gate_eq hl₁).1 fun content => ?_
        match content with
        | none =>
          refine ⟨permits_link_of_le hl₁ rfl rfl (List.subset_cons_self _ _) rfl, fun h => ?_⟩
          rcases h with h | h <;> cases h
        | some .corrupt =>
          exact ⟨permits_link_of_le hl₁ rfl rfl (List.subset_cons_self _ _) rfl, fun _ => rfl⟩
        | some (.held holder) =>
          refine obeys_perform ⟨target.file, rfl, (LockTarget.gate_eq hl₁).1⟩ fun live => ?_
          cases live with
          | true =>
            refine ⟨permits_link_of_le hl₁ rfl rfl (List.Subset.refl _) rfl, fun h => ?_⟩
            rcases h with h | h <;> cases h
          | false =>
            exact ⟨permits_link_of_le hl₁ rfl rfl (List.subset_cons_self _ _) rfl, fun _ => rfl⟩
      · obtain ⟨hl', hjudged⟩ := hexisting
        obtain ⟨hgate, hscope⟩ := LockTarget.gate_eq hl'
        -- removing a file that is not one's own changes nothing that the thread knows
        have hremove : l'.judged = some target.file → ∀ reads, Obeys LockMind.learn LockMind.Permits
            (fun l (r : Except LockError Unit) =>
              (r = .ok () → target.Taken l) ∧ ((∀ a, r ≠ .ok a) → l.Permits (.link target))) l'
            ((perform (LockCall.unlink target.file)).bind fun _ =>
              acquireLoop target attempts reads) := by
          intro hj reads
          refine obeys_perform (Or.inr ⟨hj, hgate⟩) fun _ => ih _ ?_
          refine permits_link_of_le hl' ?_ ?_ (List.Subset.refl _) rfl
          · simp [LockMind.learn, hgate]
          · simp [LockMind.learn, hscope]
        cases existing with
        | live holder => exact ⟨fun h => (nomatch h), fun _ => hl'⟩
        | gone => exact ih _ hl'
        | stale => exact hremove (hjudged (Or.inl rfl)) _
        | unreadable =>
          rw [onExisting]
          split
          · exact ih _ hl'
          · exact hremove (hjudged (Or.inr rfl)) _

/-- A thread outside the gate. -/
def LockMind.Outside (l : LockMind) (scope : Option LockScope) : Prop :=
  l.gate = false ∧ l.scope = scope

theorem obeys_gateLoop (retries : Nat) (hl : l.Outside none) :
    Obeys LockMind.learn LockMind.Permits (fun l (r : Except LockError Unit) =>
      (r = .ok () → LockTarget.gate.Taken l) ∧ ((∀ a, r ≠ .ok a) → l.Outside none)) l
      (gateLoop retries) := by
  induction retries generalizing l with
  | zero =>
    refine (obeys_acquireLoop_scope .gate _ _ hl).attempt.bind (fun l' taken h => ?_)
      fun l' e he => ?_
    · obtain ⟨x, hx, hok, herr⟩ := h
      cases hx
      cases taken with
      | ok => exact ⟨fun _ => hok rfl, fun h => absurd rfl (h ())⟩
      | error e => exact ⟨fun h => (nomatch h), fun _ => herr fun a h => nomatch h⟩
    · obtain ⟨x, hx, -⟩ := he
      cases hx
  | succ retries ih =>
    refine (obeys_acquireLoop_scope .gate _ _ hl).attempt.bind (fun l' taken h => ?_)
      fun l' e he => ?_
    · obtain ⟨x, hx, hok, herr⟩ := h
      cases hx
      cases taken with
      | ok => exact ⟨fun _ => hok rfl, fun h => absurd rfl (h ())⟩
      | error e => exact ih (herr fun a h => nomatch h)
    · obtain ⟨x, hx, -⟩ := he
      cases hx

/-- Looking at a lock under the gate. -/
theorem obeys_liveLockHolder {file : Str} (hfile : file ≠ gateFile)
    (hl : l.gate = true ∧ l.scope = none) :
    Obeys LockMind.learn LockMind.Permits (fun l' (r : Except LockError (Option Nat)) =>
      (l'.gate = true ∧ l'.scope = none) ∧ l.cleared ⊆ l'.cleared ∧ l'.listed = l.listed ∧
        (r = .ok none → file ∈ l'.cleared)) l (liveLockHolder file) := by
  have hgate : l.gate = decide (file ≠ gateFile) := by rw [hl.1]; simp [hfile]
  refine obeys_perform hgate fun content => ?_
  match content with
  | none => exact ⟨hl, List.subset_cons_self _ _, rfl, fun _ => List.mem_cons_self⟩
  | some .corrupt => exact ⟨hl, List.subset_cons_self _ _, rfl, fun _ => List.mem_cons_self⟩
  | some (.held holder) =>
    refine obeys_perform ⟨file, rfl, hgate⟩ fun live => ?_
    cases live with
    | true => exact ⟨hl, List.Subset.refl _, rfl, fun h => (nomatch h)⟩
    | false => exact ⟨hl, List.subset_cons_self _ _, rfl, fun _ => List.mem_cons_self⟩

theorem obeys_checkEntries (entries : List Str) (hl : l.gate = true ∧ l.scope = none) :
    Obeys LockMind.learn LockMind.Permits (fun l' (r : Except LockError Unit) =>
      (l'.gate = true ∧ l'.scope = none) ∧ l.cleared ⊆ l'.cleared ∧ l'.listed = l.listed ∧
        (r = .ok () → ∀ entry ∈ entries, (backupNameFromLockFile entry).isSome →
          entry ∈ l'.cleared)) l (checkEntries entries) := by
  induction entries generalizing l with
  | nil => exact ⟨hl, List.Subset.refl _, rfl, fun _ _ h => (nomatch h)⟩
  | cons entry entries ih =>
    rw [checkEntries]
    split
    · rename_i hname
      refine (ih hl).imp fun l' r h => ?_
      obtain ⟨hl', hc, hlist, hok⟩ := h
      refine ⟨hl', hc, hlist, fun hr => List.forall_mem_cons.mpr ⟨fun hsome => ?_, hok hr⟩⟩
      rw [hname] at hsome
      cases hsome
    · rename_i backup hname
      have hne : entry ≠ gateFile := by
        intro heq
        rw [heq, show backupNameFromLockFile gateFile = none by decide] at hname
        cases hname
      refine (obeys_liveLockHolder hne hl).bind (fun l' holder h => ?_) fun l' e h => ?_
      · obtain ⟨hl', hc, hlist, hclear⟩ := h
        cases holder with
        | some holder => exact ⟨hl', hc, hlist, fun h => (nomatch h)⟩
        | none =>
          refine (ih hl').imp fun l'' r h => ?_
          obtain ⟨hl'', hc', hlist', hok⟩ := h
          refine ⟨hl'', List.Subset.trans hc hc', hlist'.trans hlist, fun hr => ?_⟩
          exact List.forall_mem_cons.mpr ⟨fun _ => hc' (hclear rfl), hok hr⟩
      · exact ⟨h.1, h.2.1, h.2.2.1, fun h => (nomatch h)⟩

theorem obeys_check (scope : LockScope) (hl : l.gate = true ∧ l.scope = none) :
    Obeys LockMind.learn LockMind.Permits (fun l' (r : Except LockError Unit) =>
      (l'.gate = true ∧ l'.scope = none) ∧ (r = .ok () → l'.Checked scope)) l
      (checkCrossTierExclusion scope) := by
  cases scope with
  | none => exact ⟨hl, fun _ => trivial⟩
  | global =>
    refine obeys_perform hl.1 fun entries => ?_
    cases entries with
    | error e => exact ⟨hl, fun h => (nomatch h)⟩
    | ok entries =>
      have hl₁ : (l.learn ⟨.readDir, (.ok entries : Except Str (List Str))⟩).gate = true ∧
          (l.learn ⟨.readDir, (.ok entries : Except Str (List Str))⟩).scope = none := hl
      refine (obeys_checkEntries entries hl₁).imp fun l' r h => ?_
      obtain ⟨hl', -, hlist, hok⟩ := h
      exact ⟨hl', fun hr => ⟨entries, hlist, hok hr⟩⟩
  | backup name =>
    refine (obeys_liveLockHolder (LockScope.file_ne_gateFile _) hl).bind (fun l' holder h => ?_)
      fun l' e h => ⟨h.1, fun h => (nomatch h)⟩
    obtain ⟨hl', -, -, hclear⟩ := h
    cases holder with
    | some holder => exact ⟨hl', fun h => (nomatch h)⟩
    | none => exact ⟨hl', fun _ => hclear rfl⟩

theorem obeys_acquireScoped {scope : LockScope} (hv : scope.Visible) (hl : l.Outside none) :
    Obeys LockMind.learn LockMind.Permits (fun l (r : Except LockError Unit) =>
      (r = .ok () → l.Outside (some scope)) ∧ ((∀ a, r ≠ .ok a) → l.Outside none)) l
      (acquireScoped scope) := by
  unfold acquireScoped
  split
  · exact ⟨fun h => (nomatch h), fun _ => hl⟩
  · refine (obeys_gateLoop _ hl).bind (fun l₁ _ h₁ => ?_) fun l₁ e h₁ =>
      ⟨fun h => (nomatch h), fun _ => h₁.2 fun a h => nomatch h⟩
    have hgate : l₁.gate = true ∧ l₁.scope = none := h₁.1 rfl
    refine Obeys.bind (Q := fun l r => ∃ x, r = .ok x ∧ l.gate = true ∧
      l.scope = if x.isOk then some scope else none) ?_ (fun l₂ taken h₂ => ?_) fun l₂ e h₂ => ?_
    · refine Obeys.imp (Obeys.attempt ((obeys_check scope hgate).bind (S := fun l r =>
        l.gate = true ∧ l.scope = if r.isOk then some scope else none) (fun l₃ _ h₃ => ?_)
        fun l₃ e h₃ => ⟨h₃.1.1, h₃.1.2⟩)) fun l₄ r h₄ => h₄
      refine (obeys_acquireLoop_scope (.scope scope) _ _
        ⟨h₃.1.1, h₃.1.2, hv, h₃.2 rfl⟩).imp fun l₄ r h₄ => ?_
      cases r with
      | ok => exact h₄.1 rfl
      | error e =>
        have hp := h₄.2 fun a h => nomatch h
        exact ⟨hp.1, hp.2.1⟩
    · obtain ⟨x, hx, hg, hs⟩ := h₂
      cases hx
      refine obeys_perform (Or.inl (Or.inl ⟨hg, rfl⟩)) fun _ => ?_
      have hkeep : (l₂.learn ⟨.unlink LockTarget.gate.file, ()⟩).Outside l₂.scope := by
        refine ⟨by simp [LockMind.learn, LockTarget.file], ?_⟩
        cases hscope : l₂.scope with
        | none => simp [LockMind.learn, hscope]
        | some s => simp [LockMind.learn, hscope, LockTarget.file, s.file_ne_gateFile]
      rw [hs] at hkeep
      cases taken with
      | ok => exact ⟨fun _ => hkeep, fun h => absurd rfl (h ())⟩
      | error e => exact ⟨fun h => (nomatch h), fun _ => hkeep⟩
    · obtain ⟨x, hx, -⟩ := h₂
      cases hx

theorem obeys_scopeUser {scopes : List LockScope} (hv : ∀ s ∈ scopes, s.Visible)
    (hl : l.Outside none) :
    Obeys LockMind.learn LockMind.Permits (fun l _ => l.Outside none) l (scopeUser scopes) := by
  refine obeys_forEach (fun s hs l hl => ?_) hl
  refine (obeys_acquireScoped (hv s hs) hl).attempt.bind (fun l' taken h => ?_) fun l' e he => ?_
  · obtain ⟨x, hx, hok, herr⟩ := h
    cases hx
    cases taken with
    | error e => exact herr fun a h => nomatch h
    | ok =>
      obtain ⟨hg, hs'⟩ := hok rfl
      refine obeys_perform (Or.inl (Or.inr ⟨s, hs', rfl⟩)) fun _ => ⟨?_, ?_⟩
      · simp [LockMind.learn, hg]
      · simp [LockMind.learn, hs', LockTarget.file]
  · obtain ⟨x, hx, -⟩ := he
    cases hx

end Obeys

end Chbackup
