import Chbackup.Locks.Scopes

/-!
# Exclusion between the scopes

The invariant of the threads of `Locks.Scopes`: a lock file is there exactly while a thread holds
its lock, and what a thread has seen under the gate stays true until it drops the gate.  The one
step that can break it is the end of a process whose name another thread has read in the gate file.
-/

namespace Chbackup

open CallTree Prog

namespace LockMind

theorem owns_gate {l : LockMind} (h : l.gate = true) : l.Owns gateFile := Or.inl ⟨h, rfl⟩

theorem owns_scope {l : LockMind} {s : LockScope} (h : l.scope = some s) : l.Owns s.file :=
  Or.inr ⟨s, h, rfl⟩

theorem owns_congr {l l' : LockMind} (hgate : l'.gate = l.gate) (hscope : l'.scope = l.scope)
    (f : Str) : l'.Owns f ↔ l.Owns f := by
  rw [Owns, Owns, hgate, hscope]

/-- A thread that removes a file keeps the locks that lie elsewhere. -/
theorem owns_unlink {l : LockMind} {f f' : Str} :
    (l.learn ⟨.unlink f, ()⟩).Owns f' ↔ l.Owns f' ∧ f' ≠ f := by
  constructor
  · intro h
    rcases h with ⟨hg, rfl⟩ | ⟨s, hs, rfl⟩
    · have hgate : l.gate = true ∧ f ≠ gateFile := by simpa [learn] using hg
      exact ⟨owns_gate hgate.1, hgate.2.symm⟩
    · have hscope : l.scope = some s ∧ s.file ≠ f := by
        simpa [learn, Option.filter_eq_some_iff] using hs
      exact ⟨owns_scope hscope.1, hscope.2⟩
  · intro h
    obtain ⟨h | h, hne⟩ := h
    · obtain ⟨hg, rfl⟩ := h
      exact Or.inl ⟨by simp [learn, hg, hne.symm], rfl⟩
    · obtain ⟨s, hs, rfl⟩ := h
      exact Or.inr ⟨s, by simp [learn, Option.filter_eq_some_iff, hs, hne], rfl⟩

/-- A thread that links a file has its lock besides those it had. -/
theorem owns_link {l : LockMind} {target : LockTarget} (hl : l.Permits (.link target)) {f : Str} :
    (l.learn ⟨.link target, LinkReply.created⟩).Owns f ↔ l.Owns f ∨ f = target.file := by
  cases target with
  | gate => simp [Owns, learn, hl.1, hl.2, LockTarget.file]
  | scope s => simp [Owns, learn, hl.1, hl.2.1, LockTarget.file]

end LockMind

/-! ## The invariant -/

/-- What a thread of a process knows is so. -/
structure MindOk (dir : LockDir) (p : Nat) (l : LockMind) : Prop where
  owned : ∀ f, l.Owns f → dir.files.get? f = some (.held p)
  alive : ∀ f, l.Owns f → p ∉ dir.dead
  visible : ∀ s, l.scope = some s → s.Visible
  cleared : l.gate = true → ∀ f ∈ l.cleared, dir.files.get? f = none ∨ l.Owns f
  listed : l.gate = true → ∀ entries, l.listed = some entries →
    ∀ f, dir.files.get? f ≠ none → '/' ∉ f → f ∈ entries ∨ l.Owns f
  pending : l.gate = true → ∀ f q, l.pending = some (f, q) →
    dir.files.get? f = some (.held q) ∨ dir.files.get? f = none ∨ l.Owns f
  observed : l.gate = false → ∀ f q, l.pending = some (f, q) → f = gateFile ∧ q ∉ dir.dead
  judged : ∀ f, l.judged = some f → l.gate = true ∧ f ∈ l.cleared

/-- A thread may forget what it has just read. -/
theorem MindOk.forget {dir : LockDir} {p : Nat} {l : LockMind} (h : MindOk dir p l) :
    MindOk dir p ⟨l.gate, l.scope, none, none, l.cleared, l.listed⟩ where
  owned := h.owned
  alive := h.alive
  visible := h.visible
  cleared := h.cleared
  listed := h.listed
  pending _ _ _ hp := nomatch hp
  observed _ _ _ hp := nomatch hp
  judged _ hj := nomatch hj

/-- A thread may remember a file that is not there, or that is its own. -/
theorem MindOk.clear {dir : LockDir} {p : Nat} {l : LockMind} (h : MindOk dir p l) {f : Str}
    (hf : l.gate = true → dir.files.get? f = none ∨ l.Owns f) {judged : Option Str}
    (hjudged : ∀ f', judged = some f' → l.gate = true ∧ f' = f) :
    MindOk dir p ⟨l.gate, l.scope, none, judged, f :: l.cleared, l.listed⟩ where
  owned := h.owned
  alive := h.alive
  visible := h.visible
  cleared hgate := List.forall_mem_cons.mpr ⟨hf hgate, h.cleared hgate⟩
  listed := h.listed
  pending _ _ _ hp := nomatch hp
  observed _ _ _ hp := nomatch hp
  judged f' hj := ⟨(hjudged f' hj).1, (hjudged f' hj).2 ▸ List.mem_cons_self⟩

/-- Every lock file has one holder, and the tiers do not meet. -/
structure Exclusive (process : Nat → Nat) (dir : LockDir) (ls : List LockMind) : Prop where
  minds : ∀ (i : Nat) l, ls[i]? = some l → MindOk dir (process i) l
  owner : ∀ f c, dir.files.get? f = some c →
    ∃ (i : Nat) (l : LockMind), ls[i]? = some l ∧ l.Owns f ∧ c = .held (process i)
  unique : ∀ (i j : Nat) l l' f, ls[i]? = some l → ls[j]? = some l' → l.Owns f → l'.Owns f → i = j
  tiers : ∀ (i j : Nat) l l' n, ls[i]? = some l → ls[j]? = some l' →
    l.scope = some .global → l'.scope = some (.backup n) → False

namespace Exclusive

variable {process : Nat → Nat} {dir : LockDir} {ls : List LockMind} {i : Nat} {l l' : LockMind}

/-- Whoever is recorded in a file is alive. -/
theorem holder_alive (h : Exclusive process dir ls) {f : Str} {q : Nat}
    (hf : dir.files.get? f = some (.held q)) : q ∉ dir.dead := by
  obtain ⟨i, l, hi, hown, hq⟩ := h.owner f _ hf
  cases hq
  exact (h.minds i l hi).alive f hown

/-- Only the thread that holds the gate can rely on it. -/
theorem gate_unique (h : Exclusive process dir ls) (hi : ls[i]? = some l) (hl : l.gate = true)
    {j : Nat} (hj : ls[j]? = some l') (hne : j ≠ i) : l'.gate = false := by
  by_contra hgate
  rw [Bool.not_eq_false] at hgate
  exact hne (h.unique j i l' l gateFile hj hi (LockMind.owns_gate hgate) (LockMind.owns_gate hl))

/-- A step that leaves the directory as it is, and the locks of the thread too. -/
theorem relearn (h : Exclusive process dir ls) (hi : ls[i]? = some l) (hgate : l'.gate = l.gate)
    (hscope : l'.scope = l.scope) (hok : MindOk dir (process i) l') :
    Exclusive process dir (ls.set i l') := by
  have hlt := (List.getElem?_eq_some_iff.mp hi).1
  have hback : ∀ (j : Nat) m, (ls.set i l')[j]? = some m →
      ∃ m', ls[j]? = some m' ∧ m.gate = m'.gate ∧ m.scope = m'.scope :=
    forall_getElem?_set ⟨l, hi, hgate, hscope⟩ fun j m _ hj => ⟨m, hj, rfl, rfl⟩
  refine ⟨forall_getElem?_set hok fun j m _ => h.minds j m, ?_, ?_, ?_⟩
  · intro f c hf
    obtain ⟨j, m, hj, hown, hc⟩ := h.owner f c hf
    by_cases hji : j = i
    · subst hji
      rw [hi] at hj
      cases hj
      exact ⟨j, l', by simp [hlt], (LockMind.owns_congr hgate hscope f).mpr hown, hc⟩
    · exact ⟨j, m, by simp [Ne.symm hji, hj], hown, hc⟩
  · intro j k m m' f hj hk hm hm'
    obtain ⟨n, hn, hg, hs⟩ := hback j m hj
    obtain ⟨n', hn', hg', hs'⟩ := hback k m' hk
    exact h.unique j k n n' f hn hn' ((LockMind.owns_congr hg hs f).mp hm)
      ((LockMind.owns_congr hg' hs' f).mp hm')
  · intro j k m m' name hj hk hm hm'
    obtain ⟨n, hn, -, hs⟩ := hback j m hj
    obtain ⟨n', hn', -, hs'⟩ := hback k m' hk
    exact h.tiers j k n n' name hn hn' (hs ▸ hm) (hs' ▸ hm')

/-- A file is removed by the thread that holds its lock, or is not there. -/
theorem unlink (h : Exclusive process dir ls) (hi : ls[i]? = some l) {f : Str}
    (hf : l.Owns f ∨ dir.files.get? f = none) :
    Exclusive process { dir with files := dir.files.erase f }
      (ls.set i (l.learn ⟨.unlink f, ()⟩)) := by
  have hlt := (List.getElem?_eq_some_iff.mp hi).1
  have hl := h.minds i l hi
  have hother : ∀ (j : Nat) m, j ≠ i → ls[j]? = some m → ∀ f', m.Owns f' → f' ≠ f := by
    intro j m hne hj f' hown heq
    subst heq
    rcases hf with hf | hf
    · exact hne (h.unique j i m l f' hj hi hown hf)
    · rw [(h.minds j m hj).owned f' hown] at hf
      cases hf
  have hkeep : ∀ f', f' ≠ f → (dir.files.erase f).get? f' = dir.files.get? f' := by
    intro f' hne
    rw [SortedMap.get?_erase, if_neg hne]
  have hnone : ∀ f', dir.files.get? f' = none → (dir.files.erase f).get? f' = none := by
    intro f' hnone
    rw [SortedMap.get?_erase]
    split
    · rfl
    · exact hnone
  have hsome : ∀ f', (dir.files.erase f).get? f' ≠ none → f' ≠ f ∧ dir.files.get? f' ≠ none := by
    intro f' hf'
    rw [SortedMap.get?_erase] at hf'
    split at hf'
    · exact absurd rfl hf'
    · exact ⟨‹_›, hf'⟩
  refine ⟨forall_getElem?_set ?_ fun j m hne hj => ?_, ?_, ?_, ?_⟩
  · refine ⟨fun f' hown => ?_, fun f' hown => ?_, fun s hs => ?_, fun hgate f' hf' => ?_,
      fun hgate entries hentries f' hf' hslash => ?_, fun _ _ _ hp => (nomatch hp),
      fun _ _ _ hp => (nomatch hp), fun _ hj => (nomatch hj)⟩
    · obtain ⟨hown, hne⟩ := LockMind.owns_unlink.mp hown
      exact (hkeep f' hne).trans (hl.owned f' hown)
    · exact hl.alive f' (LockMind.owns_unlink.mp hown).1
    · exact hl.visible s (Option.filter_eq_some_iff.mp hs).1
    · have hg : l.gate = true := (Bool.and_eq_true_iff.mp hgate).1
      by_cases heq : f' = f
      · left
        show (dir.files.erase f).get? f' = none
        rw [SortedMap.get?_erase, if_pos heq]
      · rcases hl.cleared hg f' hf' with hc | hc
        · exact Or.inl (hnone f' hc)
        · exact Or.inr (LockMind.owns_unlink.mpr ⟨hc, heq⟩)
    · have hg : l.gate = true := (Bool.and_eq_true_iff.mp hgate).1
      obtain ⟨hne, hthere⟩ := hsome f' hf'
      rcases hl.listed hg entries hentries f' hthere hslash with hc | hc
      · exact Or.inl hc
      · exact Or.inr (LockMind.owns_unlink.mpr ⟨hc, hne⟩)
  · have hm := h.minds j m hj
    refine ⟨fun f' hown => ?_, hm.alive, hm.visible, fun hgate f' hf' => ?_,
      fun hgate entries hentries f' hf' hslash => ?_, fun hgate f' q hp => ?_, hm.observed,
      hm.judged⟩
    · exact (hkeep f' (hother j m hne hj f' hown)).trans (hm.owned f' hown)
    · exact (hm.cleared hgate f' hf').imp_left (hnone f')
    · exact hm.listed hgate entries hentries f' (hsome f' hf').2 hslash
    · by_cases heq : f' = f
      · right
        left
        show (dir.files.erase f).get? f' = none
        rw [SortedMap.get?_erase, if_pos heq]
      · have hk : (dir.files.erase f).get? f' = dir.files.get? f' := hkeep f' heq
        show (dir.files.erase f).get? f' = _ ∨ (dir.files.erase f).get? f' = none ∨ _
        rw [hk]
        exact hm.pending hgate f' q hp
  · intro f' c hc
    have hthere : (dir.files.erase f).get? f' ≠ none := by
      rw [show (dir.files.erase f).get? f' = some c from hc]
      exact Option.some_ne_none c
    obtain ⟨hne, -⟩ := hsome f' hthere
    obtain ⟨j, m, hj, hown, hcontent⟩ := h.owner f' c ((hkeep f' hne).symm.trans hc)
    by_cases hji : j = i
    · subst hji
      rw [hi] at hj
      cases hj
      exact ⟨j, _, by simp [hlt], LockMind.owns_unlink.mpr ⟨hown, hne⟩, hcontent⟩
    · exact ⟨j, m, by simp [Ne.symm hji, hj], hown, hcontent⟩
  · intro j k m m' f' hj hk hm hm'
    have hback : ∀ (j : Nat) m, (ls.set i (l.learn ⟨.unlink f, ()⟩))[j]? = some m →
        ∀ f', m.Owns f' → ∃ n, ls[j]? = some n ∧ n.Owns f' :=
      forall_getElem?_set (fun f' hown => ⟨l, hi, (LockMind.owns_unlink.mp hown).1⟩)
        fun j m _ hj f' hown => ⟨m, hj, hown⟩
    obtain ⟨n, hn, hown⟩ := hback j m hj f' hm
    obtain ⟨n', hn', hown'⟩ := hback k m' hk f' hm'
    exact h.unique j k n n' f' hn hn' hown hown'
  · intro j k m m' name hj hk hm hm'
    have hback : ∀ (j : Nat) m, (ls.set i (l.learn ⟨.unlink f, ()⟩))[j]? = some m →
        ∀ s, m.scope = some s → ∃ n, ls[j]? = some n ∧ n.scope = some s :=
      forall_getElem?_set (fun s hs => ⟨l, hi, (Option.filter_eq_some_iff.mp hs).1⟩)
        fun j m _ hj s hs => ⟨m, hj, hs⟩
    obtain ⟨n, hn, hs⟩ := hback j m hj _ hm
    obtain ⟨n', hn', hs'⟩ := hback k m' hk _ hm'
    exact h.tiers j k n n' name hn hn' hs hs'

/-- A scope is taken only if no lock of the other tier is held. -/
theorem no_conflict (h : Exclusive process dir ls) (hi : ls[i]? = some l) {s : LockScope}
    (hl : l.Permits (.link (.scope s))) (hfile : dir.files.get? s.file = none) {j : Nat}
    (hj : ls[j]? = some l') :
    (s = .global → ∀ n, l'.scope ≠ some (.backup n)) ∧
      ((∃ n, s = .backup n) → l'.scope ≠ some .global) := by
  obtain ⟨hgate, hscope, -, hchecked⟩ := hl
  have hmind := h.minds i l hi
  have hfree : ∀ s' : LockScope, ¬l.Owns s'.file := by
    intro s' hown
    rcases hown with hown | hown
    · exact absurd hown.2 s'.file_ne_gateFile
    · obtain ⟨s'', hs'', -⟩ := hown
      rw [hscope] at hs''
      cases hs''
  have hcleared : ∀ s' : LockScope, s'.file ∈ l.cleared → l'.scope ≠ some s' := by
    intro s' hmem hs'
    have hthere := (h.minds j l' hj).owned _ (LockMind.owns_scope hs')
    rcases hmind.cleared hgate _ hmem with hc | hc
    · rw [hthere] at hc
      cases hc
    · exact hfree s' hc
  constructor
  · intro hs n hn
    subst hs
    obtain ⟨entries, hentries, hall⟩ := hchecked
    have hthere := (h.minds j l' hj).owned _ (LockMind.owns_scope hn)
    have hvisible := (h.minds j l' hj).visible _ hn
    have hglobal : n ≠ "global".toList := by
      intro heq
      subst heq
      rw [show LockScope.global.file = (LockScope.backup "global".toList).file from rfl, hthere] at hfile
      cases hfile
    rcases hmind.listed hgate entries hentries _ (by rw [hthere]; exact Option.some_ne_none _)
      (LockScope.slash_notMem_file hvisible) with hmem | hown
    · refine hcleared _ (hall _ hmem ?_) hn
      rw [backupNameFromLockFile_backup hvisible.1 hglobal]
      rfl
    · exact hfree _ hown
  · intro hs
    obtain ⟨n, rfl⟩ := hs
    exact hcleared .global hchecked

/-- A file is linked where there is none. -/
theorem link (h : Exclusive process dir ls) (hi : ls[i]? = some l) {target : LockTarget}
    (hl : l.Permits (.link target)) (hen : process i ∉ dir.dead)
    (hfile : dir.files.get? target.file = none) :
    Exclusive process { dir with files := dir.files.insert target.file (.held (process i)) }
      (ls.set i (l.learn ⟨.link target, LinkReply.created⟩)) := by
  have hlt := (List.getElem?_eq_some_iff.mp hi).1
  have hmind := h.minds i l hi
  have hself : (dir.files.insert target.file (.held (process i))).get? target.file =
      some (.held (process i)) := by
    rw [SortedMap.get?_insert, if_pos rfl]
  have hkeep : ∀ f, f ≠ target.file →
      (dir.files.insert target.file (.held (process i))).get? f = dir.files.get? f := by
    intro f hne
    rw [SortedMap.get?_insert, if_neg hne]
  have hne : ∀ (j : Nat) m, ls[j]? = some m → ∀ f, m.Owns f → f ≠ target.file := by
    intro j m hj f hown heq
    subst heq
    rw [(h.minds j m hj).owned _ hown] at hfile
    cases hfile
  -- whoever links a file has the gate, now at the latest, and so nobody else has it
  have hgates : ∀ (j : Nat) m, j ≠ i → ls[j]? = some m → m.gate = false := by
    intro j m hji hj
    cases target with
    | scope s => exact h.gate_unique hi hl.1 hj hji
    | gate =>
      by_contra hgate
      rw [Bool.not_eq_false] at hgate
      exact hne j m hj gateFile (LockMind.owns_gate hgate) rfl
  refine ⟨forall_getElem?_set ?_ fun j m hji hj => ?_, ?_, ?_, ?_⟩
  · refine ⟨fun f hown => ?_, fun _ _ => hen, fun s hs => ?_, fun _ f hf => ?_,
      fun _ entries hentries f hf hslash => ?_, fun _ f q hp => ?_, fun _ f q hp => ?_,
      fun f hj => ?_⟩
    · rcases (LockMind.owns_link hl).mp hown with hown | rfl
      · exact (hkeep f (hne i l hi f hown)).trans (hmind.owned f hown)
      · exact hself
    · cases target with
      | gate => exact hmind.visible s hs
      | scope s' =>
        cases hs
        exact hl.2.2.1
    · rw [LockMind.owns_link hl]
      cases target with
      | gate => cases hf
      | scope s =>
        by_cases heq : f = s.file
        · exact Or.inr (Or.inr heq)
        · rcases hmind.cleared hl.1 f hf with hc | hc
          · exact Or.inl ((hkeep f heq).trans hc)
          · exact Or.inr (Or.inl hc)
    · rw [LockMind.owns_link hl]
      cases target with
      | gate => cases hentries
      | scope s =>
        by_cases heq : f = s.file
        · exact Or.inr (Or.inr heq)
        · have hthere : dir.files.get? f ≠ none := by
            rw [← hkeep f heq]
            exact hf
          exact (hmind.listed hl.1 entries hentries f hthere hslash).imp_right Or.inl
    · cases target <;> cases hp
    · cases target <;> cases hp
    · cases target <;> cases hj
  · have hm := h.minds j m hj
    have hgate := hgates j m hji hj
    have hno : m.gate ≠ true := by
      rw [hgate]
      decide
    refine ⟨fun f hown => ?_, hm.alive, hm.visible, fun hg => absurd hg hno, fun hg => absurd hg hno,
      fun hg => absurd hg hno, hm.observed, hm.judged⟩
    exact (hkeep f (hne j m hj f hown)).trans (hm.owned f hown)
  · intro f c hc
    by_cases heq : f = target.file
    · subst heq
      rw [show (dir.files.insert target.file (.held (process i))).get? target.file = some c from hc]
        at hself
      cases hself
      exact ⟨i, _, by simp [hlt], (LockMind.owns_link hl).mpr (Or.inr rfl), rfl⟩
    · obtain ⟨j, m, hj, hown, hcontent⟩ := h.owner f c ((hkeep f heq).symm.trans hc)
      by_cases hji : j = i
      · subst hji
        rw [hi] at hj
        cases hj
        exact ⟨j, _, by simp [hlt], (LockMind.owns_link hl).mpr (Or.inl hown), hcontent⟩
      · exact ⟨j, m, by simp [Ne.symm hji, hj], hown, hcontent⟩
  · have hback : ∀ (j : Nat) m, (ls.set i (l.learn ⟨.link target, LinkReply.created⟩))[j]? = some m →
        ∀ f, m.Owns f → (∃ n, ls[j]? = some n ∧ n.Owns f) ∨ j = i ∧ f = target.file := by
      refine forall_getElem?_set (fun f hown => ?_) fun j m _ hj f hown => Or.inl ⟨m, hj, hown⟩
      exact ((LockMind.owns_link hl).mp hown).imp (fun h => ⟨l, hi, h⟩) fun h => ⟨rfl, h⟩
    intro j k m m' f hj hk hm hm'
    rcases hback j m hj f hm with ⟨n, hn, hown⟩ | ⟨rfl, rfl⟩
    · rcases hback k m' hk f hm' with ⟨n', hn', hown'⟩ | ⟨-, rfl⟩
      · exact h.unique j k n n' f hn hn' hown hown'
      · exact absurd rfl (hne j n hn _ hown)
    · rcases hback k m' hk _ hm' with ⟨n', hn', hown'⟩ | ⟨rfl, -⟩
      · exact absurd rfl (hne k n' hn' _ hown')
      · rfl
  · have hback : ∀ (j : Nat) m, (ls.set i (l.learn ⟨.link target, LinkReply.created⟩))[j]? = some m →
        ∀ s, m.scope = some s → (∃ n, ls[j]? = some n ∧ n.scope = some s) ∨
          j = i ∧ target = .scope s := by
      refine forall_getElem?_set (fun s hs => ?_) fun j m _ hj s hs => Or.inl ⟨m, hj, hs⟩
      cases target with
      | gate => exact Or.inl ⟨l, hi, hs⟩
      | scope s' =>
        cases hs
        exact Or.inr ⟨rfl, rfl⟩
    intro j k m m' name hj hk hm hm'
    rcases hback j m hj _ hm with ⟨n, hn, hs⟩ | ⟨rfl, rfl⟩
    · rcases hback k m' hk _ hm' with ⟨n', hn', hs'⟩ | ⟨rfl, rfl⟩
      · exact h.tiers j k n n' name hn hn' hs hs'
      · exact (h.no_conflict hi hl hfile hn).2 ⟨name, rfl⟩ hs
    · rcases hback k m' hk _ hm' with ⟨n', hn', hs'⟩ | ⟨-, hs'⟩
      · exact (h.no_conflict hi hl hfile hn').1 rfl name hs'
      · cases hs'

/-- **What a permitted operation keeps.** -/
theorem call (h : Exclusive process dir ls) (hi : ls[i]? = some l) {c : LockCall}
    (hc : l.Permits c) (hen : process i ∉ dir.dead) :
    Exclusive process (LockDir.serve (process i) c dir).2
      (ls.set i (l.learn ⟨c, (LockDir.serve (process i) c dir).1⟩)) := by
  have hmind := h.minds i l hi
  cases c with
  | link target =>
    unfold LockDir.serve
    dsimp only
    cases hfile : dir.files.get? target.file with
    | none => exact h.link hi hc hen hfile
    | some content => exact h.relearn hi rfl rfl hmind.forget
  | unlink f =>
    refine h.unlink hi ?_
    rcases hc with hc | hc
    · exact Or.inl hc
    · obtain ⟨hgate, hmem⟩ := hmind.judged f hc.1
      exact (hmind.cleared hgate f hmem).symm
  | readDir =>
    refine h.relearn hi rfl rfl ?_
    refine { hmind.forget with listed := fun _ entries hentries f hf hslash => ?_ }
    cases hentries
    left
    rw [List.mem_filter]
    refine ⟨?_, by simpa using hslash⟩
    rw [SortedMap.mem_keys_iff]
    exact Option.ne_none_iff_exists'.mp hf
  | read f =>
    have hgate : l.gate = decide (f ≠ gateFile) := hc
    show Exclusive process dir (ls.set i (l.learn ⟨.read f, dir.files.get? f⟩))
    cases hread : dir.files.get? f with
    | none => exact h.relearn hi rfl rfl (hmind.clear (fun _ => Or.inl hread) fun _ hj => nomatch hj)
    | some content =>
      obtain ⟨j, m, hj, -, rfl⟩ := h.owner f content hread
      refine h.relearn hi rfl rfl { hmind.forget with
        pending := fun _ f' q hp => ?_, observed := fun hno f' q hp => ?_ }
      · cases hp
        exact Or.inl hread
      · cases hp
        refine ⟨?_, h.holder_alive hread⟩
        have hno : l.gate = false := hno
        rw [hgate, decide_eq_false_iff_not, not_not] at hno
        exact hno
  | holderIsLive q =>
    obtain ⟨f, hpending, -⟩ := hc
    show Exclusive process dir (ls.set i (l.learn ⟨.holderIsLive q, decide (q ∉ dir.dead)⟩))
    by_cases hdead : q ∈ dir.dead
    · -- a dead process is recorded in no file, and nobody outside the gate has read one
      have hgate : l.gate = true := by
        by_contra hno
        rw [Bool.not_eq_true] at hno
        exact (hmind.observed hno f q hpending).2 hdead
      have hf : dir.files.get? f = none ∨ l.Owns f := by
        rcases hmind.pending hgate f q hpending with hp | hp
        · exact absurd hdead (h.holder_alive hp)
        · exact hp
      have hlearn : l.learn ⟨.holderIsLive q, decide (q ∉ dir.dead)⟩ =
          ⟨l.gate, l.scope, none, some f, f :: l.cleared, l.listed⟩ := by
        simp [LockMind.learn, hdead, hpending]
      rw [hlearn]
      refine h.relearn hi rfl rfl (hmind.clear (fun _ => hf) fun f' hj => ?_)
      cases hj
      exact ⟨hgate, rfl⟩
    · have hlearn : l.learn ⟨.holderIsLive q, decide (q ∉ dir.dead)⟩ =
          ⟨l.gate, l.scope, none, none, l.cleared, l.listed⟩ := by
        simp [LockMind.learn, hdead]
      rw [hlearn]
      exact h.relearn hi rfl rfl hmind.forget

/-- A process that holds nothing ends, and nobody is about to ask whether it is alive. -/
theorem exit (h : Exclusive process dir ls) {p : Nat}
    (hfree : ∀ (i : Nat) l, ls[i]? = some l → process i = p → l.gate = false ∧ l.scope = none)
    (hunobserved : EndsUnobserved dir ls (.inr p)) :
    Exclusive process { dir with dead := p :: dir.dead } ls := by
  refine ⟨fun i l hi => ?_, h.owner, h.unique, h.tiers⟩
  have hmind := h.minds i l hi
  refine { hmind with
    owned := hmind.owned, alive := fun f hown => ?_, cleared := hmind.cleared,
    listed := hmind.listed, pending := hmind.pending, observed := fun hgate f q hp => ?_ }
  · rw [List.mem_cons, not_or]
    refine ⟨fun hp => ?_, hmind.alive f hown⟩
    obtain ⟨hgate, hscope⟩ := hfree i l hi hp
    rcases hown with hown | ⟨s, hs, -⟩
    · rw [hgate] at hown
      exact absurd hown.1 (by decide)
    · rw [hscope] at hs
      cases hs
  · obtain ⟨rfl, hq⟩ := hmind.observed hgate f q hp
    refine ⟨rfl, ?_⟩
    rw [List.mem_cons, not_or]
    refine ⟨fun heq => ?_, hq⟩
    subst heq
    exact hunobserved l (List.mem_of_getElem? hi) hp

/-- No two holders conflict. -/
theorem scopes_disjoint (h : Exclusive process dir ls) (hi : ls[i]? = some l) {j : Nat}
    (hj : ls[j]? = some l') (hne : i ≠ j) {a b : LockScope} (ha : l.scope = some a)
    (hb : l'.scope = some b) : ¬LockScope.Conflicts a b := by
  have hfiles : a.file ≠ b.file := by
    intro heq
    refine hne (h.unique i j l l' a.file hi hj (LockMind.owns_scope ha) ?_)
    rw [heq]
    exact LockMind.owns_scope hb
  intro hconflict
  cases a with
  | none => exact hconflict
  | global =>
    cases b with
    | none => exact hconflict
    | global => exact hfiles rfl
    | backup n => exact h.tiers i j l l' n hi hj ha hb
  | backup n =>
    cases b with
    | none => exact hconflict
    | global => exact h.tiers j i l' l n hj hi hb ha
    | backup n' =>
      obtain rfl : n = n' := hconflict
      exact hfiles rfl

end Exclusive

/-! ## Every run -/

section Runs

variable {process : Nat → Nat} {requests : List (List LockScope)}

theorem mem_scopeStart {t : Thread LockCall LockCall.Reply LockMind LockError (List Unit)}
    (ht : t ∈ (scopeStart requests).threads) :
    t.mind = LockMind.initial ∧ ∃ scopes ∈ requests, t.rest = scopeUser scopes := by
  obtain ⟨scopes, hscopes, rfl⟩ := List.mem_map.mp ht
  exact ⟨rfl, scopes, hscopes, rfl⟩

/-- Threads that hold nothing, and no files. -/
theorem exclusive_scopeStart :
    Exclusive process (scopeStart requests).shared (scopeStart requests).minds := by
  have hinitial : ∀ (i : Nat) l, (scopeStart requests).minds[i]? = some l → l = LockMind.initial := by
    intro i l hi
    obtain ⟨t, ht, rfl⟩ := List.mem_map.mp (List.mem_of_getElem? hi)
    exact (mem_scopeStart ht).1
  have hfree : ∀ f, ¬LockMind.initial.Owns f := by
    intro f hown
    rcases hown with hown | ⟨s, hs, -⟩
    · exact absurd hown.1 (by decide)
    · cases hs
  refine ⟨fun i l hi => ?_, fun f c hf => (nomatch hf), fun i j l l' f hi hj hl => ?_,
    fun i j l l' n hi hj hl => ?_⟩
  · rw [hinitial i l hi]
    exact ⟨fun f hown => absurd hown (hfree f), fun f hown => absurd hown (hfree f),
      fun s hs => (nomatch hs), fun hgate => (nomatch hgate), fun hgate => (nomatch hgate),
      fun hgate => (nomatch hgate), fun _ _ _ hp => (nomatch hp), fun _ hj => (nomatch hj)⟩
  · rw [hinitial i l hi] at hl
    exact absurd hl (hfree f)
  · rw [hinitial i l hi] at hl
    cases hl

/-- The threads of a process that may end hold nothing. -/
theorem holds_nothing_of_move {p : Nat} {dir dir' : LockDir} {ls : List LockMind}
    (h : (scopeMachine process).move p dir ls = some dir') :
    dir' = { dir with dead := p :: dir.dead } ∧
      ∀ (i : Nat) l, ls[i]? = some l → process i = p → l.gate = false ∧ l.scope = none := by
  have hmove : (if ls.zipIdx.all fun t => process t.2 ≠ p || (!t.1.gate && t.1.scope.isNone) then
      some { dir with dead := p :: dir.dead } else none) = some dir' := h
  split at hmove
  · rename_i hall
    refine ⟨(Option.some.inj hmove).symm, fun i l hi hp => ?_⟩
    have hmem : (l, i) ∈ ls.zipIdx := List.mem_zipIdx_iff_getElem?.mpr hi
    have hthread := List.all_eq_true.mp hall _ hmem
    simpa [hp] using hthread
  · cases hmove

/-- **The tiers exclude each other** in every run in which a process does not end while a thread
that has read its name in the gate file has yet to ask whether it is alive. -/
theorem scopes_exclude_each_other (hv : ∀ scopes ∈ requests, ∀ s ∈ scopes, s.Visible)
    {s : ScopeThreads} (hs : (scopeMachine process).Reaches EndsUnobserved (scopeStart requests) s) :
    MutuallyExclusive s := by
  have hinv : Exclusive process s.shared s.minds := by
    refine (hs.invariant (P := LockMind.Permits) (Q := fun l _ => l.Outside none)
      exclusive_scopeStart (fun t ht => ?_) (fun i c l ls dir h hi hc hen _ => ?_)
      fun p ls dir dir' h hok hmove => ?_).1
    · obtain ⟨hmind, scopes, hscopes, hrest⟩ := mem_scopeStart ht
      rw [hmind, hrest]
      exact obeys_scopeUser (hv scopes hscopes) ⟨rfl, rfl⟩
    · exact h.call hi hc (by simpa [scopeMachine] using hen)
    · obtain ⟨rfl, hfree⟩ := holds_nothing_of_move hmove
      exact h.exit hfree hok
  intro i j t t' a b hne hi hj ha hb
  have hminds : ∀ (k : Nat) t, s.threads[k]? = some t → s.minds[k]? = some t.mind := by
    intro k t ht
    rw [Threads.minds, List.getElem?_map, ht]
    rfl
  exact hinv.scopes_disjoint (hminds i t hi) (hminds j t' hj) hne ha hb

end Runs

/-- Two threads of two processes: the first takes the lock of its backup, and the second looks for
it and is refused the global lock. -/
theorem backup_excludes_global :
    ∃ s, (scopeMachine id).Reaches EndsUnobserved (scopeStart [[.backup "p"], [.global]]) s ∧
      s.minds.map LockMind.scope = [some (.backup "p"), none] ∧ MutuallyExclusive s := by
  have hrun : ((scopeMachine id).run ([0, 0, 0, 0, 1, 1, 1, 1, 1].map .inl)
      (scopeStart [[.backup "p"], [.global]])).map (fun s => s.minds.map LockMind.scope) =
        some [some (.backup "p"), none] := by
    decide +kernel
  obtain ⟨s, hs, hscopes⟩ := Option.map_eq_some_iff.mp hrun
  have hr : (scopeMachine id).Reaches EndsUnobserved (scopeStart [[.backup "p"], [.global]]) s := by
    refine Machine.reaches_of_run .refl (fun a ha shared ls => ?_) hs
    obtain ⟨i, -, rfl⟩ := List.mem_map.mp ha
    trivial
  refine ⟨s, hr, hscopes, scopes_exclude_each_other ?_ hr⟩
  intro scopes hscopes t ht
  simp only [List.mem_cons, List.not_mem_nil, or_false] at hscopes
  rcases hscopes with rfl | rfl <;> rw [List.mem_singleton] at ht <;> subst ht
  · exact ⟨by decide, by decide⟩
  · trivial

/-- **A process ends between two operations of another**: process 0 takes the gate, which process 2
reads, and finishes and ends; process 1 takes the gate and finds no global lock; process 2 learns
that process 0 is dead, removes the gate of process 1 and takes the global lock; and process 1 takes
the lock of its backup. -/
theorem ended_process_breaks_exclusion :
    ¬∀ process requests s, (scopeMachine process).Reaches (fun _ _ _ => True) (scopeStart requests) s →
      MutuallyExclusive s := by
  intro hall
  have hrun : ((scopeMachine id).run [.inl 0, .inl 2, .inl 2, .inl 0, .inl 0, .inl 0, .inl 0, .inr 0,
      .inl 1, .inl 1, .inl 2, .inl 2, .inl 2, .inl 2, .inl 2, .inl 1]
      (scopeStart [[.backup "p"], [.backup "q"], [.global]])).map (fun s => s.minds.map LockMind.scope) =
        some [none, some (.backup "q"), some .global] := by
    decide +kernel
  obtain ⟨s, hs, hscopes⟩ := Option.map_eq_some_iff.mp hrun
  have hr : (scopeMachine id).Reaches (fun _ _ _ => True) _ s :=
    Machine.reaches_of_run .refl (fun _ _ _ _ => trivial) hs
  have hget : ∀ (i : Nat) a, [none, some (.backup "q"), some .global][i]? = some (some a) →
      ∃ t, s.threads[i]? = some t ∧ t.mind.scope = some a := by
    intro i a hi
    rw [← hscopes, Threads.minds, List.map_map, List.getElem?_map] at hi
    exact Option.map_eq_some_iff.mp hi
  obtain ⟨t, ht, hq⟩ := hget 1 (.backup "q") rfl
  obtain ⟨t', ht', hg⟩ := hget 2 .global rfl
  exact hall id _ s hr 1 2 t t' _ _ (by decide) ht ht' hq hg trivial

end Chbackup
