import Chbackup.Lib.Dependencies
import Chbackup.Restore.Order

/-!
# The order of the objects without data

`topological_sort` (`src/restore/topo.rs`) releases an object once everything it depends on has been
released.  What it never releases are the objects whose dependencies lead to a cycle, those on the cycle
and all that are downstream of one; they are appended by engine priority, whatever they depend on.

* `sorts_dependencies_iff`: the order breaks only cycles exactly if the engine priority happens to put
  the unreleased objects in the order of their dependencies.
-/

namespace Chbackup

open List (Before Topological Closed Reaches ReachesCycle)

variable {tables : SortedMap Str TableManifest} {keys : List Str}

/-! ## Releasing an object -/

/-- One edge from a released object. -/
def releaseEdge (st : SortedMap Str Nat × List Str) (neighbor : Str) : SortedMap Str Nat × List Str :=
  let degree := (st.1.get? neighbor).getD 0 - 1
  (st.1.insert neighbor degree, if degree = 0 then st.2 ++ [neighbor] else st.2)

theorem kahn_cons (fuel : Nat) (inDegree : SortedMap Str Nat) (node : Str) (queue : List Str) :
    kahn tables keys (fuel + 1) inDegree (node :: queue) =
      node :: kahn tables keys fuel
        ((dependents tables keys node).foldl releaseEdge (inDegree, [])).1
        (queue ++ ((dependents tables keys node).foldl releaseEdge (inDegree, [])).2) := rfl

/-- The edges lower the degrees, and what comes to zero is pushed, once. -/
theorem foldl_releaseEdge (l : List Str) (st : SortedMap Str Nat × List Str)
    (hcount : ∀ k, l.count k ≤ (st.1.get? k).getD 0) :
    (∀ k, ((l.foldl releaseEdge st).1.get? k).getD 0 = (st.1.get? k).getD 0 - l.count k) ∧
      ∃ pushed : List Str, (l.foldl releaseEdge st).2 = st.2 ++ pushed ∧ pushed.Nodup ∧
        ∀ k, k ∈ pushed ↔ k ∈ l ∧ (st.1.get? k).getD 0 = l.count k := by
  induction l generalizing st with
  | nil =>
    refine ⟨fun k => rfl, [], (List.append_nil _).symm, List.nodup_nil, fun k => ?_⟩
    exact ⟨fun h => absurd h List.not_mem_nil, fun h => absurd h.1 List.not_mem_nil⟩
  | cons y l ih =>
    have hy := hcount y
    rw [List.count_cons_self] at hy
    have hnext : ∀ k, ((releaseEdge st y).1.get? k).getD 0 =
        if k = y then (st.1.get? y).getD 0 - 1 else (st.1.get? k).getD 0 := by
      intro k
      rw [releaseEdge, SortedMap.get?_insert]
      split <;> rfl
    have hother : ∀ k, k ≠ y → (y :: l).count k = l.count k := fun k hk =>
      List.count_cons_of_ne (Ne.symm hk)
    obtain ⟨hdegree, pushed, hpushed, hnodup, hmem⟩ := ih (releaseEdge st y) (by
      intro k
      rw [hnext]
      split
      · subst k
        omega
      · rename_i hk
        rw [← hother k hk]
        exact hcount k)
    refine ⟨fun k => ?_, ?_⟩
    · show ((l.foldl releaseEdge (releaseEdge st y)).1.get? k).getD 0 = _
      rw [hdegree, hnext]
      split
      · subst k
        rw [List.count_cons_self]
        omega
      · rename_i hk
        rw [hother k hk]
    · show ∃ pushed : List Str, (l.foldl releaseEdge (releaseEdge st y)).2 = _ ∧ _
      rw [hpushed]
      by_cases hzero : (st.1.get? y).getD 0 - 1 = 0
      · have hlast : l.count y = 0 := by omega
        have hnot : y ∉ l := List.count_eq_zero.mp hlast
        refine ⟨y :: pushed, ?_, List.nodup_cons.mpr ⟨fun h => hnot ((hmem y).mp h).1, hnodup⟩,
          fun k => ?_⟩
        · rw [releaseEdge]
          dsimp only
          rw [if_pos hzero, List.append_assoc, List.singleton_append]
        · by_cases hk : k = y
          · subst k
            rw [List.count_cons_self]
            refine iff_of_true List.mem_cons_self ⟨List.mem_cons_self, ?_⟩
            omega
          · rw [List.mem_cons, List.mem_cons, hmem, hnext, if_neg hk, hother k hk]
            simp only [hk, false_or]
      · refine ⟨pushed, ?_, hnodup, fun k => ?_⟩
        · rw [releaseEdge]
          dsimp only
          rw [if_neg hzero]
        · rw [hmem, hnext]
          by_cases hk : k = y
          · subst k
            rw [if_pos rfl, List.count_cons_self]
            constructor
            · rintro ⟨-, h⟩
              exact ⟨List.mem_cons_self, by omega⟩
            · rintro ⟨-, h⟩
              exact ⟨List.count_pos_iff.mp (by omega), by omega⟩
          · rw [if_neg hk, List.mem_cons, hother k hk]
            simp only [hk, false_or]

/-! ## The edges -/

theorem count_flatMap_const {ks : List Str} (hks : ks.Nodup) (g : Str → List Str) (k : Str) :
    (ks.flatMap fun key => (g key).map fun _ => key).count k =
      if k ∈ ks then (g k).length else 0 := by
  induction ks with
  | nil => rfl
  | cons key ks ih =>
    obtain ⟨hnot, hks⟩ := List.nodup_cons.mp hks
    rw [List.flatMap_cons, List.count_append, ih hks, List.map_const', List.count_replicate]
    by_cases hk : key = k
    · subst hk
      rw [if_neg hnot, if_pos List.mem_cons_self]
      simp
    · have hmem : k ∈ key :: ks ↔ k ∈ ks := by
        rw [List.mem_cons]
        simp only [Ne.symm hk, false_or]
      rw [if_congr hmem rfl rfl]
      simp [hk]

/-- An object is a dependent once for each time it lists the node. -/
theorem count_dependents (hkeys : keys.Nodup) (node k : Str) :
    (dependents tables keys node).count k =
      if k ∈ keys then (dependenciesAmong tables keys k).count node else 0 := by
  rw [dependents, count_flatMap_const hkeys]
  refine if_congr Iff.rfl ?_ rfl
  rw [← List.countP_eq_length_filter, List.count]
  refine List.countP_congr fun x _ => ?_
  simp

theorem mem_dependents (hkeys : keys.Nodup) {node k : Str} :
    k ∈ dependents tables keys node ↔ k ∈ keys ∧ node ∈ dependenciesAmong tables keys k := by
  rw [← List.count_pos_iff, count_dependents hkeys]
  split
  · rename_i hk
    rw [List.count_pos_iff]
    simp only [hk, true_and]
  · rename_i hk
    simp only [hk, false_and, lt_irrefl]

/-- What is missing before and after one more object is released. -/
theorem length_missing {l done : List Str} {node : Str} (hnode : node ∉ done) :
    (l.filter (· ∉ done)).length = (l.filter (· ∉ done ++ [node])).length + l.count node := by
  induction l with
  | nil => rfl
  | cons x l ih =>
    rw [List.filter_cons, List.filter_cons, List.count_cons]
    by_cases hx : x = node
    · subst hx
      rw [if_pos (decide_eq_true hnode), if_neg (by simp), if_pos (beq_self_eq_true x),
        List.length_cons, ih]
      omega
    · have hcount : ¬(x == node) = true := fun h => hx (eq_of_beq h)
      by_cases hdone : x ∈ done
      · rw [if_neg (by simp [hdone]), if_neg (by simp [hdone]), if_neg hcount, ih]
        omega
      · rw [if_pos (decide_eq_true hdone), if_pos (by simp [hdone, hx]), if_neg hcount,
          List.length_cons, List.length_cons, ih]
        omega

theorem length_missing_eq_zero {l done : List Str} :
    (l.filter (· ∉ done)).length = 0 ↔ l ⊆ done := by
  rw [List.length_eq_zero_iff, List.filter_eq_nil_iff]
  simp only [decide_eq_true_eq, not_not]
  exact Iff.rfl

/-! ## Kahn's loop -/

/-- The loop with the objects that it has released and those that wait in the queue. -/
structure KahnInvariant (tables : SortedMap Str TableManifest) (keys done : List Str)
    (inDegree : SortedMap Str Nat) (queue : List Str) : Prop where
  nodup : (done ++ queue).Nodup
  subset : done ++ queue ⊆ keys
  order : Topological (dependenciesAmong tables keys) done
  degree : ∀ k ∈ keys, (inDegree.get? k).getD 0 =
    ((dependenciesAmong tables keys k).filter (· ∉ done)).length
  ready : ∀ k ∈ keys, k ∈ done ++ queue ↔ dependenciesAmong tables keys k ⊆ done

/-- **One object is released.** -/
theorem KahnInvariant.step {done queue : List Str} {node : Str} {inDegree : SortedMap Str Nat}
    (hkeys : keys.Nodup) (h : KahnInvariant tables keys done inDegree (node :: queue)) :
    KahnInvariant tables keys (done ++ [node])
      ((dependents tables keys node).foldl releaseEdge (inDegree, [])).1
      (queue ++ ((dependents tables keys node).foldl releaseEdge (inDegree, [])).2) := by
  have hnode : node ∈ keys := h.subset (List.mem_append_right _ List.mem_cons_self)
  have hnew : node ∉ done := fun hmem =>
    (List.nodup_append.mp h.nodup).2.2 node hmem node List.mem_cons_self rfl
  have hcount : ∀ k, (dependents tables keys node).count k ≤ (inDegree.get? k).getD 0 := by
    intro k
    rw [count_dependents hkeys]
    split
    · rename_i hk
      rw [h.degree k hk, length_missing hnew]
      omega
    · exact Nat.zero_le _
  obtain ⟨hdegree, pushed, hpushed, hnodup, hmem⟩ :=
    foldl_releaseEdge (dependents tables keys node) (inDegree, []) hcount
  rw [List.nil_append] at hpushed
  rw [hpushed]
  have hdegree' : ∀ k ∈ keys, (((dependents tables keys node).foldl releaseEdge (inDegree, [])).1.get?
      k).getD 0 = ((dependenciesAmong tables keys k).filter (· ∉ done ++ [node])).length := by
    intro k hk
    rw [hdegree, count_dependents hkeys, if_pos hk]
    dsimp only
    rw [h.degree k hk, length_missing hnew]
    omega
  -- what is pushed had this node as its last dependency
  have hready : ∀ k ∈ keys, k ∈ pushed ↔ node ∈ dependenciesAmong tables keys k ∧
      dependenciesAmong tables keys k ⊆ done ++ [node] := by
    intro k hk
    rw [hmem, mem_dependents hkeys, count_dependents hkeys, if_pos hk, ← length_missing_eq_zero]
    dsimp only
    rw [h.degree k hk, length_missing hnew]
    constructor
    · rintro ⟨⟨-, hdep⟩, heq⟩
      exact ⟨hdep, by omega⟩
    · rintro ⟨hdep, heq⟩
      exact ⟨⟨hk, hdep⟩, by omega⟩
  have hlist : done ++ [node] ++ (queue ++ pushed) = (done ++ node :: queue) ++ pushed := by simp
  have hpushedKeys : ∀ k ∈ pushed, k ∈ keys := fun k hk =>
    ((mem_dependents hkeys).mp ((hmem k).mp hk).1).1
  refine ⟨?_, ?_, ?_, hdegree', ?_⟩
  · rw [hlist, List.nodup_append]
    refine ⟨h.nodup, hnodup, fun k hk k' hk' heq => ?_⟩
    subst heq
    have hkk := hpushedKeys k hk'
    exact hnew ((h.ready k hkk).mp hk ((hready k hkk).mp hk').1)
  · rw [hlist]
    exact List.append_subset.mpr ⟨h.subset, hpushedKeys⟩
  · exact h.order.append_singleton
      ((h.ready node hnode).mp (List.mem_append_right _ List.mem_cons_self))
  · intro k hk
    rw [hlist, List.mem_append, h.ready k hk, hready k hk]
    constructor
    · rintro (hsub | ⟨-, hsub⟩)
      · exact List.Subset.trans hsub (List.subset_append_left _ _)
      · exact hsub
    · intro hsub
      by_cases hdep : node ∈ dependenciesAmong tables keys k
      · exact .inr ⟨hdep, hsub⟩
      · refine .inl fun x hx => ?_
        rcases List.mem_append.mp (hsub hx) with hdone | hnode'
        · exact hdone
        · exact absurd (List.mem_singleton.mp hnode' ▸ hx) hdep

/-- An empty queue ends the loop. -/
theorem KahnInvariant.finished {done : List Str} {inDegree : SortedMap Str Nat}
    (h : KahnInvariant tables keys done inDegree []) :
    done.Nodup ∧ done ⊆ keys ∧ Topological (dependenciesAmong tables keys) done ∧
      Closed (dependenciesAmong tables keys) keys done := by
  have hnodup := h.nodup
  have hsubset := h.subset
  have hready := h.ready
  rw [List.append_nil] at hnodup hsubset hready
  exact ⟨hnodup, hsubset, h.order, fun k hk => (hready k hk).mpr⟩

/-- **What the loop leaves**: a list in dependency order that has every object whose dependencies
it has. -/
theorem KahnInvariant.run {fuel : Nat} {done queue : List Str} {inDegree : SortedMap Str Nat}
    (hkeys : keys.Nodup) (h : KahnInvariant tables keys done inDegree queue)
    (hfuel : keys.length ≤ fuel + done.length) :
    (done ++ kahn tables keys fuel inDegree queue).Nodup ∧
      done ++ kahn tables keys fuel inDegree queue ⊆ keys ∧
        Topological (dependenciesAmong tables keys) (done ++ kahn tables keys fuel inDegree queue) ∧
          Closed (dependenciesAmong tables keys) keys (done ++ kahn tables keys fuel inDegree queue) := by
  induction fuel generalizing done queue inDegree with
  | zero =>
    have hqueue : queue = [] := by
      have hlen := h.nodup.length_le_of_subset h.subset
      rw [List.length_append] at hlen
      exact List.length_eq_zero_iff.mp (by omega)
    subst hqueue
    rw [kahn, List.append_nil]
    exact h.finished
  | succ fuel ih =>
    cases queue with
    | nil =>
      rw [kahn, List.append_nil]
      exact h.finished
    | cons node queue =>
      have hrest := ih (h.step hkeys) (by
        rw [List.length_append, List.length_singleton]
        omega)
      rw [kahn_cons]
      rw [List.append_assoc, List.singleton_append] at hrest
      exact hrest

/-! ## The whole order -/

/-- The degrees before the loop. -/
def initialDegrees (tables : SortedMap Str TableManifest) (keys : List Str) : SortedMap Str Nat :=
  keys.foldl (fun m key => m.insert key (dependenciesAmong tables keys key).length) SortedMap.empty

/-- The objects that the loop releases. -/
def released (tables : SortedMap Str TableManifest) (keys : List Str) : List Str :=
  kahn tables keys keys.length (initialDegrees tables keys)
    (sortByKey (tablePriority engineRestorePriority tables)
      (keys.filter fun key => ((initialDegrees tables keys).get? key).getD 0 = 0))

theorem get?_initialDegrees {k : Str} (hk : k ∈ keys) :
    ((initialDegrees tables keys).get? k).getD 0 = (dependenciesAmong tables keys k).length := by
  have hfold : ∀ (ks : List Str) (m : SortedMap Str Nat),
      (∀ x ∈ ks, x ∈ keys) → (k ∈ ks ∨ (m.get? k).getD 0 = (dependenciesAmong tables keys k).length) →
      ((ks.foldl (fun m key => m.insert key (dependenciesAmong tables keys key).length) m).get?
        k).getD 0 = (dependenciesAmong tables keys k).length := by
    intro ks
    induction ks with
    | nil =>
      rintro m - (hmem | heq)
      · exact absurd hmem List.not_mem_nil
      · exact heq
    | cons x ks ih =>
      intro m hks h
      refine ih _ (fun y hy => hks y (List.mem_cons_of_mem _ hy)) ?_
      by_cases hx : k = x
      · subst hx
        right
        rw [SortedMap.get?_insert, if_pos rfl]
        rfl
      · rcases h with hmem | heq
        · exact .inl ((List.mem_cons.mp hmem).resolve_left hx)
        · right
          rw [SortedMap.get?_insert, if_neg hx]
          exact heq
  exact hfold keys SortedMap.empty (fun _ h => h) (.inl hk)

theorem kahnInvariant_initial (hkeys : keys.Nodup) :
    KahnInvariant tables keys [] (initialDegrees tables keys)
      (sortByKey (tablePriority engineRestorePriority tables)
        (keys.filter fun key => ((initialDegrees tables keys).get? key).getD 0 = 0)) := by
  refine ⟨?_, fun k hk => ?_, List.topological_nil, fun k hk => ?_, fun k hk => ?_⟩
  · exact (List.mergeSort_perm _ _).nodup_iff.mpr (hkeys.filter _)
  · exact List.mem_of_mem_filter (mem_sortByKey.mp hk)
  · rw [get?_initialDegrees hk, List.filter_eq_self.mpr]
    exact fun x _ => decide_eq_true List.not_mem_nil
  · rw [List.nil_append, mem_sortByKey, List.mem_filter, decide_eq_true_eq, get?_initialDegrees hk,
      List.length_eq_zero_iff, List.subset_nil]
    exact and_iff_right hk

theorem mem_keys_of_dependency {a b : Str} (ha : a ∈ dependenciesAmong tables keys b) : a ∈ keys :=
  of_decide_eq_true (List.mem_filter.mp ha).2

/-- **The loop releases what reaches no cycle.** -/
theorem mem_released_iff (hkeys : keys.Nodup) {k : Str} :
    k ∈ released tables keys ↔ k ∈ keys ∧ ¬ReachesCycle (dependenciesAmong tables keys) k := by
  obtain ⟨hnodup, hsubset, horder, hclosed⟩ :=
    (@kahnInvariant_initial tables keys hkeys).run hkeys (Nat.le_add_right _ _)
  rw [List.nil_append] at hnodup hsubset horder hclosed
  constructor
  · exact fun hk => ⟨hsubset hk, horder.not_reachesCycle hnodup hk⟩
  · rintro ⟨hk, hno⟩
    by_contra hmiss
    exact hno (hclosed.reachesCycle (fun _ _ => mem_keys_of_dependency) hk hmiss)

/-- The order, if some object has dependencies. -/
theorem topologicalSort_eq (hkeys : keys.Nodup)
    (hdeps : (keys.any fun key => !(dependenciesOf tables key).isEmpty) = true) :
    topologicalSort tables keys = released tables keys ++
      sortByKey (tablePriority engineRestorePriority tables)
        (keys.filter fun key => key ∉ released tables keys) := by
  obtain ⟨hnodup, hsubset, -⟩ :=
    (@kahnInvariant_initial tables keys hkeys).run hkeys (Nat.le_add_right _ _)
  rw [List.nil_append] at hnodup hsubset
  rw [topologicalSort, if_pos hdeps]
  show (if (released tables keys).length < keys.length then _ else _) = _
  split
  · rfl
  · rename_i hlen
    -- all objects are released
    have hall : (released tables keys).Perm keys :=
      (hnodup.subperm hsubset).perm_of_length_le (not_lt.mp hlen)
    have hnone : (keys.filter fun key => key ∉ released tables keys) = [] := by
      rw [List.filter_eq_nil_iff]
      exact fun k hk => by simpa using hall.mem_iff.mpr hk
    show released tables keys = _
    rw [hnone, sortByKey, List.mergeSort_nil, List.append_nil]

/-- An order of the objects that breaks only cycles. -/
structure SortsDependencies (tables : SortedMap Str TableManifest) (keys result : List Str) : Prop where
  perm : result.Perm keys
  before : ∀ b ∈ keys, ∀ a ∈ dependenciesAmong tables keys b,
    ¬Reaches (dependenciesAmong tables keys) a b → Before result a b

/-- The engine priority puts one object before another; of equal priority, the first comes first. -/
def FirstByPriority (tables : SortedMap Str TableManifest) (keys : List Str) (a b : Str) : Prop :=
  tablePriority engineRestorePriority tables a < tablePriority engineRestorePriority tables b ∨
    tablePriority engineRestorePriority tables a = tablePriority engineRestorePriority tables b ∧
      Before keys a b

/-- Without dependencies there is nothing to respect. -/
theorem dependenciesAmong_eq_nil
    (hdeps : ¬(keys.any fun key => !(dependenciesOf tables key).isEmpty) = true) {b : Str}
    (hb : b ∈ keys) : dependenciesAmong tables keys b = [] := by
  have hempty : dependenciesOf tables b = [] := by
    by_contra hne
    refine hdeps (List.any_eq_true.mpr ⟨b, hb, ?_⟩)
    rw [Bool.not_eq_true', List.isEmpty_eq_false_iff]
    exact hne
  rw [dependenciesAmong, hempty, List.filter_nil]

section Sorted

variable (hkeys : keys.Nodup)

include hkeys

/-- Two objects that are not released are in the order of their priority. -/
theorem before_rest_iff {a b : Str} (ha : a ∈ keys) (hb : b ∈ keys) (hne : a ≠ b)
    (hna : a ∉ released tables keys) (hnb : b ∉ released tables keys) :
    Before (sortByKey (tablePriority engineRestorePriority tables)
      (keys.filter fun key => key ∉ released tables keys)) a b ↔ FirstByPriority tables keys a b := by
  have hpa : decide (a ∉ released tables keys) = true := decide_eq_true hna
  have hpb : decide (b ∉ released tables keys) = true := decide_eq_true hnb
  rw [sortByKey, List.before_mergeSort_iff (hkeys.filter _) (List.mem_filter.mpr ⟨ha, hpa⟩)
    (List.mem_filter.mpr ⟨hb, hpb⟩) hne,
    List.before_filter_iff (p := fun key => key ∉ released tables keys) hpa hpb]
  exact Iff.rfl

theorem topologicalSort_perm
    (hdeps : (keys.any fun key => !(dependenciesOf tables key).isEmpty) = true) :
    (topologicalSort tables keys).Perm keys := by
  obtain ⟨hnodup, -⟩ :=
    (@kahnInvariant_initial tables keys hkeys).run hkeys (Nat.le_add_right _ _)
  rw [List.nil_append] at hnodup
  rw [topologicalSort_eq hkeys hdeps]
  refine (List.perm_ext_iff_of_nodup ?_ hkeys).mpr fun k => ?_
  · refine List.nodup_append.mpr ⟨hnodup, ?_, fun k hk k' hk' heq => ?_⟩
    · exact (List.mergeSort_perm _ _).nodup_iff.mpr (hkeys.filter _)
    · subst heq
      exact of_decide_eq_true (List.mem_filter.mp (mem_sortByKey.mp hk')).2 hk
  · rw [List.mem_append, mem_sortByKey, List.mem_filter, decide_eq_true_eq]
    constructor
    · rintro (hk | hk)
      · exact ((mem_released_iff hkeys).mp hk).1
      · exact hk.1
    · intro hk
      by_cases hmem : k ∈ released tables keys
      · exact .inl hmem
      · exact .inr ⟨hk, hmem⟩

/-- What an order by dependencies asks of the engine priority. -/
theorem firstByPriority_of_sorts
    (h : SortsDependencies tables keys (topologicalSort tables keys)) {a b : Str} (hb : b ∈ keys)
    (ha : a ∈ dependenciesAmong tables keys b)
    (hno : ¬Reaches (dependenciesAmong tables keys) a b)
    (hcycle : ReachesCycle (dependenciesAmong tables keys) a) : FirstByPriority tables keys a b := by
  by_cases hdeps : (keys.any fun key => !(dependenciesOf tables key).isEmpty) = true
  · have hna : a ∉ released tables keys := fun hmem => ((mem_released_iff hkeys).mp hmem).2 hcycle
    have hnb : b ∉ released tables keys := fun hmem => ((mem_released_iff hkeys).mp hmem).2 <| by
      obtain ⟨c, hac, hcc⟩ := hcycle
      exact ⟨c, .head ha hac, hcc⟩
    have hne : a ≠ b := by
      rintro rfl
      exact hno .refl
    have hbefore := h.before b hb a ha hno
    rw [topologicalSort_eq hkeys hdeps] at hbefore
    exact (before_rest_iff hkeys (mem_keys_of_dependency ha) hb hne hna hnb).mp
      (List.before_of_append_left hbefore hna hnb)
  · rw [dependenciesAmong_eq_nil hdeps hb] at ha
    exact absurd ha List.not_mem_nil

theorem sorts_of_firstByPriority
    (h : ∀ b ∈ keys, ∀ a ∈ dependenciesAmong tables keys b,
      ¬Reaches (dependenciesAmong tables keys) a b →
        ReachesCycle (dependenciesAmong tables keys) a → FirstByPriority tables keys a b) :
    SortsDependencies tables keys (topologicalSort tables keys) := by
  by_cases hdeps : (keys.any fun key => !(dependenciesOf tables key).isEmpty) = true
  · obtain ⟨-, -, horder, -⟩ :=
      (@kahnInvariant_initial tables keys hkeys).run hkeys (Nat.le_add_right _ _)
    rw [List.nil_append] at horder
    refine ⟨topologicalSort_perm hkeys hdeps, fun b hb a ha hno => ?_⟩
    rw [topologicalSort_eq hkeys hdeps]
    have hrest : ∀ {k : Str}, k ∈ keys → k ∉ released tables keys →
        k ∈ sortByKey (tablePriority engineRestorePriority tables)
          (keys.filter fun key => key ∉ released tables keys) := fun hk hmiss =>
      mem_sortByKey.mpr (List.mem_filter.mpr ⟨hk, decide_eq_true hmiss⟩)
    by_cases hmb : b ∈ released tables keys
    · exact (horder.before hmb ha).append_right _
    by_cases hma : a ∈ released tables keys
    · exact List.before_append_of_mem hma (hrest hb hmb)
    have hne : a ≠ b := by
      rintro rfl
      exact hno .refl
    have hcycle : ReachesCycle (dependenciesAmong tables keys) a := by
      by_contra hfree
      exact hma ((mem_released_iff hkeys).mpr ⟨mem_keys_of_dependency ha, hfree⟩)
    exact ((before_rest_iff hkeys (mem_keys_of_dependency ha) hb hne hma hmb).mpr
      (h b hb a ha hno hcycle)).append_left _
  · refine ⟨?_, fun b hb a ha => ?_⟩
    · rw [topologicalSort, if_neg hdeps]
      exact List.mergeSort_perm _ _
    · rw [dependenciesAmong_eq_nil hdeps hb] at ha
      exact absurd ha List.not_mem_nil

end Sorted

/-- **`topological_sort` breaks only cycles** exactly if the engine priority puts the objects whose
dependencies lead to a cycle in the order of the dependencies that are not on a cycle. -/
theorem sorts_dependencies_iff (tables : SortedMap Str TableManifest) {keys : List Str}
    (hkeys : keys.Nodup) :
    SortsDependencies tables keys (topologicalSort tables keys) ↔
      ∀ b ∈ keys, ∀ a ∈ dependenciesAmong tables keys b,
        ¬Reaches (dependenciesAmong tables keys) a b →
          ReachesCycle (dependenciesAmong tables keys) a → FirstByPriority tables keys a b :=
  ⟨fun h _ hb _ ha hno hcycle => firstByPriority_of_sorts hkeys h hb ha hno hcycle,
    sorts_of_firstByPriority hkeys⟩

/-! ## A dictionary downstream of a cycle -/

/-- An object without data. -/
def ddlObject (engine : Str) (dependencies : List Str) : TableManifest :=
  { (default : TableManifest) with engine := engine, dependencies := dependencies }

/-- Two views that depend on each other, and a dictionary that depends on one of them. -/
def cyclicTables : SortedMap Str TableManifest :=
  (((SortedMap.empty : SortedMap Str TableManifest).insert "a" (ddlObject "View" ["c"])).insert "c"
    (ddlObject "View" ["a"])).insert "b" (ddlObject "Dictionary" ["a"])

theorem sorts_dependencies_iff_view :
    SortsDependencies cyclicTables ["a", "c"] (topologicalSort cyclicTables ["a", "c"]) ↔
      ∀ b ∈ (["a", "c"] : List Str), ∀ a ∈ dependenciesAmong cyclicTables ["a", "c"] b,
        ¬Reaches (dependenciesAmong cyclicTables ["a", "c"]) a b →
          ReachesCycle (dependenciesAmong cyclicTables ["a", "c"]) a →
            FirstByPriority cyclicTables ["a", "c"] a b :=
  sorts_dependencies_iff cyclicTables (by decide)

/-- The dictionary comes before the view that it depends on. -/
theorem dictionary_before_dependency :
    ¬∀ (tables : SortedMap Str TableManifest) (keys : List Str), keys.Nodup →
      SortsDependencies tables keys (topologicalSort tables keys) := by
  intro hall
  have hsorts := hall cyclicTables ["a", "c", "b"] (by decide)
  have hstep : ∀ x : Str, x = "a".toList ∨ x = "c".toList →
      ∀ y ∈ dependenciesAmong cyclicTables ["a", "c", "b"] x, y = "a".toList ∨ y = "c".toList := by
    rintro x (rfl | rfl) <;> decide
  have hreach : ∀ x, Reaches (dependenciesAmong cyclicTables ["a", "c", "b"]) "a" x →
      x = "a".toList ∨ x = "c".toList := by
    intro x hx
    induction hx with
    | refl => exact .inl rfl
    | tail _ hdep ih => exact hstep _ ih _ hdep
  have hno : ¬Reaches (dependenciesAmong cyclicTables ["a", "c", "b"]) "a" "b" := fun h =>
    absurd (hreach _ h) (by decide)
  have hcycle : ReachesCycle (dependenciesAmong cyclicTables ["a", "c", "b"]) "a" := by
    refine ⟨"a", .refl, .tail (.single ?_) (?_ : "a".toList ∈ dependenciesAmong _ _ "c".toList)⟩
    · decide
    · decide
  have hfirst := firstByPriority_of_sorts (by decide) hsorts (b := "b") (by decide) (by decide) hno hcycle
  rw [FirstByPriority] at hfirst
  revert hfirst
  decide

end Chbackup
