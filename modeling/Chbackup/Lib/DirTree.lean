import Mathlib

/-!
# Directory trees

A directory is the list of its entries, in the order in which they are listed.  A walk meets the
files of a tree in depth-first order, each with the names of the directories above it; a pruned
walk does not enter the directories whose name a predicate selects.
-/

/-- An entry of a directory: a file with its data, or a directory. -/
inductive DirTree (N A : Type) where
  | file (name : N) (data : A)
  | dir (name : N) (entries : List (DirTree N A))

/-- A file as a walk meets it. -/
structure WalkedFile (N A : Type) where
  /-- The directories above the file, outermost first. -/
  dirs : List N
  name : N
  data : A

namespace DirTree

variable {N A : Type} {skip : N → Bool} {ts : List (DirTree N A)} {f : WalkedFile N A}

mutual

/-- The files at and below an entry. -/
def walk (above : List N) : DirTree N A → List (WalkedFile N A)
  | file n a => [⟨above, n, a⟩]
  | dir n ts => walkAll (above ++ [n]) ts

/-- The files at and below the entries of a directory. -/
def walkAll (above : List N) : List (DirTree N A) → List (WalkedFile N A)
  | [] => []
  | t :: ts => walk above t ++ walkAll above ts

end

mutual

/-- An entry without the selected directories. -/
def prune (skip : N → Bool) : DirTree N A → List (DirTree N A)
  | file n a => [file n a]
  | dir n ts => if skip n then [] else [dir n (pruneAll skip ts)]

/-- The entries of a directory without the selected directories. -/
def pruneAll (skip : N → Bool) : List (DirTree N A) → List (DirTree N A)
  | [] => []
  | t :: ts => prune skip t ++ pruneAll skip ts

end

mutual

/-- The names of the directories at which a pruned walk turned back. -/
def pruned (skip : N → Bool) : DirTree N A → List N
  | file _ _ => []
  | dir n ts => if skip n then [n] else prunedAll skip ts

/-- The names of the directories below a directory at which a pruned walk turned back. -/
def prunedAll (skip : N → Bool) : List (DirTree N A) → List N
  | [] => []
  | t :: ts => pruned skip t ++ prunedAll skip ts

end

/-- The files among the entries of a directory. -/
def topFiles : List (DirTree N A) → List (N × A)
  | [] => []
  | file n a :: ts => (n, a) :: topFiles ts
  | dir _ _ :: ts => topFiles ts

theorem walkAll_append (above : List N) (ts us : List (DirTree N A)) :
    walkAll above (ts ++ us) = walkAll above ts ++ walkAll above us := by
  induction ts with
  | nil => rfl
  | cons t ts ih => rw [List.cons_append, walkAll, walkAll, ih, List.append_assoc]

mutual

theorem prefix_of_mem_walk {above : List N} :
    ∀ {t : DirTree N A}, f ∈ walk above t → above <+: f.dirs
  | file n a, hf => by
    rw [walk, List.mem_singleton] at hf
    subst hf
    exact List.prefix_rfl
  | dir n ts, hf => by
    rw [walk] at hf
    exact (List.prefix_append above [n]).trans (prefix_of_mem_walkAll hf)

/-- Every file lies below the directory where the walk started. -/
theorem prefix_of_mem_walkAll {above : List N} :
    ∀ {ts : List (DirTree N A)}, f ∈ walkAll above ts → above <+: f.dirs
  | [], hf => absurd hf List.not_mem_nil
  | t :: ts, hf => by
    rw [walkAll, List.mem_append] at hf
    exact hf.elim prefix_of_mem_walk prefix_of_mem_walkAll

end

mutual

theorem walkAll_prune {above : List N} (h : ∀ d ∈ above, skip d = false) :
    ∀ t : DirTree N A,
      walkAll above (prune skip t) = (walk above t).filter fun f => f.dirs.all fun d => !skip d
  | file n a => by
    have hall : (above.all fun d => !skip d) = true := by
      rw [List.all_eq_true]
      exact fun d hd => by rw [h d hd]; rfl
    rw [prune, walkAll, walkAll, List.append_nil, walk, eq_comm, List.filter_eq_self]
    intro f hf
    rw [List.mem_singleton.mp hf]
    exact hall
  | dir n ts => by
    rw [prune, walk]
    by_cases hn : skip n = true
    · rw [if_pos hn, walkAll, eq_comm, List.filter_eq_nil_iff]
      intro f hf hall
      have hmem : n ∈ f.dirs := (prefix_of_mem_walkAll hf).subset (by simp)
      have := List.all_eq_true.mp hall n hmem
      rw [hn] at this
      exact Bool.false_ne_true this
    · rw [if_neg hn, walkAll, walkAll, List.append_nil, walk]
      refine walkAll_pruneAll (fun d hd => ?_) ts
      rcases List.mem_append.mp hd with hd | hd
      · exact h d hd
      · rw [List.mem_singleton.mp hd]
        exact Bool.not_eq_true _ ▸ hn

/-- **A pruned walk meets exactly the files below no selected directory, in the same order.** -/
theorem walkAll_pruneAll {above : List N} (h : ∀ d ∈ above, skip d = false) :
    ∀ ts : List (DirTree N A),
      walkAll above (pruneAll skip ts) =
        (walkAll above ts).filter fun f => f.dirs.all fun d => !skip d
  | [] => by rw [pruneAll, walkAll, List.filter_nil]
  | t :: ts => by
    rw [pruneAll, walkAll_append, walkAll, List.filter_append, walkAll_prune h t,
      walkAll_pruneAll h ts]

end

/-- The files a walk meets in no directory are those among the entries. -/
theorem mem_walkAll_nil_iff {n : N} {a : A} :
    (⟨[], n, a⟩ : WalkedFile N A) ∈ walkAll [] ts ↔ (n, a) ∈ topFiles ts := by
  induction ts with
  | nil => rw [walkAll, topFiles]; simp
  | cons t ts ih =>
    rw [walkAll, List.mem_append, ih]
    cases t with
    | file m b =>
      rw [walk, topFiles, List.mem_singleton, List.mem_cons, WalkedFile.mk.injEq, Prod.mk.injEq]
      simp
    | dir m us =>
      rw [walk, topFiles]
      refine ⟨fun h => h.resolve_left fun hw => ?_, Or.inr⟩
      simpa using prefix_of_mem_walkAll hw

end DirTree
