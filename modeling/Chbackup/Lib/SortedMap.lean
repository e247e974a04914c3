import Mathlib

/-!
# Finite maps kept in key order

A `SortedMap κ α` is a list of bindings in strictly increasing key order: the values of an
ordered tree map as its iterator shows them.  The order is a field, so two bindings of one key
cannot be built, and looking a key up is the same as finding its binding in the list.
-/

/-- A finite map from `κ` to `α`, listed in increasing order of the keys. -/
structure SortedMap (κ α : Type) [LinearOrder κ] where
  /-- The bindings, in increasing order of their keys. -/
  entries : List (κ × α)
  /-- The keys increase strictly, so each key is bound once. -/
  sorted : (entries.map Prod.fst).Pairwise (· < ·)

namespace SortedMap

variable {κ α β : Type} [LinearOrder κ]

instance [DecidableEq α] : DecidableEq (SortedMap κ α) := fun m m' =>
  decidable_of_iff (m.entries = m'.entries) ⟨fun h => by cases m; cases m'; cases h; rfl, fun h => by rw [h]⟩

instance : Membership (κ × α) (SortedMap κ α) := ⟨fun m b => b ∈ m.entries⟩

/-- The map with no bindings. -/
def empty : SortedMap κ α := ⟨[], List.Pairwise.nil⟩

instance : Inhabited (SortedMap κ α) := ⟨empty⟩

/-- The keys, in increasing order. -/
def keys (m : SortedMap κ α) : List κ := m.entries.map Prod.fst

/-- The values, in the order of their keys. -/
def values (m : SortedMap κ α) : List α := m.entries.map Prod.snd

/-- The value bound to a key. -/
def get? (m : SortedMap κ α) (k : κ) : Option α :=
  (m.entries.find? fun b => b.1 = k).map Prod.snd

/-- Put a binding in its place among sorted bindings, replacing the one of the same key. -/
def insertEntry (k : κ) (a : α) : List (κ × α) → List (κ × α)
  | [] => [(k, a)]
  | b :: es =>
    if k < b.1 then (k, a) :: b :: es
    else if k = b.1 then (k, a) :: es
    else b :: insertEntry k a es

theorem mem_map_fst_insertEntry {k x : κ} {a : α} {es : List (κ × α)} :
    x ∈ (insertEntry k a es).map Prod.fst ↔ x = k ∨ x ∈ es.map Prod.fst := by
  induction es with
  | nil => simp [insertEntry]
  | cons b es ih =>
    rw [insertEntry]
    split_ifs with h₁ h₂
    · simp
    · simp [h₂]
    · rw [List.map_cons, List.mem_cons, ih, List.map_cons, List.mem_cons]
      exact or_left_comm

theorem sorted_insertEntry {k : κ} {a : α} {es : List (κ × α)}
    (h : (es.map Prod.fst).Pairwise (· < ·)) :
    ((insertEntry k a es).map Prod.fst).Pairwise (· < ·) := by
  induction es with
  | nil => simp [insertEntry]
  | cons b es ih =>
    rw [List.map_cons, List.pairwise_cons] at h
    rw [insertEntry]
    split_ifs with h₁ h₂
    · rw [List.map_cons, List.map_cons, List.pairwise_cons, List.pairwise_cons]
      refine ⟨fun x hx => ?_, h⟩
      rcases List.mem_cons.mp hx with rfl | hx
      · exact h₁
      · exact h₁.trans (h.1 x hx)
    · subst h₂
      rw [List.map_cons, List.pairwise_cons]
      exact h
    · rw [List.map_cons, List.pairwise_cons]
      refine ⟨fun x hx => ?_, ih h.2⟩
      rcases mem_map_fst_insertEntry.mp hx with rfl | hx
      · exact lt_of_le_of_ne (not_lt.mp h₁) (Ne.symm h₂)
      · exact h.1 x hx

/-- The map with one binding added or replaced. -/
def insert (m : SortedMap κ α) (k : κ) (a : α) : SortedMap κ α :=
  ⟨insertEntry k a m.entries, sorted_insertEntry m.sorted⟩

/-- Rewrite every value, with its key at hand; the keys stay. -/
def mapValues (m : SortedMap κ α) (f : κ → α → β) : SortedMap κ β :=
  ⟨m.entries.map fun b => (b.1, f b.1 b.2), by
    rw [List.map_map]
    exact m.sorted⟩

/-- The bindings that satisfy a condition. -/
def filter (m : SortedMap κ α) (p : κ → α → Bool) : SortedMap κ α :=
  ⟨m.entries.filter fun b => p b.1 b.2, m.sorted.sublist (List.filter_sublist.map _)⟩

theorem nodup_keys (m : SortedMap κ α) : m.keys.Nodup :=
  m.sorted.imp fun h => ne_of_lt h

theorem mem_iff {m : SortedMap κ α} {b : κ × α} : b ∈ m ↔ b ∈ m.entries := Iff.rfl

/-- Two bindings of one key are one binding. -/
theorem eq_of_mem {m : SortedMap κ α} {k : κ} {a b : α} (ha : (k, a) ∈ m) (hb : (k, b) ∈ m) :
    a = b := by
  have h := List.inj_on_of_nodup_map m.nodup_keys ha hb rfl
  exact congrArg Prod.snd h

/-- **Looking up is finding the binding.** -/
theorem get?_eq_some_iff {m : SortedMap κ α} {k : κ} {a : α} :
    m.get? k = some a ↔ (k, a) ∈ m := by
  constructor
  · intro h
    obtain ⟨⟨k', a'⟩, hb, rfl⟩ := Option.map_eq_some_iff.mp h
    have hk : k' = k := by simpa using List.find?_some hb
    exact hk ▸ List.mem_of_find?_eq_some hb
  · intro h
    have hsome : (m.entries.find? fun b => b.1 = k).isSome := by
      rw [List.find?_isSome]
      exact ⟨(k, a), h, by simp⟩
    obtain ⟨⟨k', a'⟩, hb⟩ := Option.isSome_iff_exists.mp hsome
    have hk : k' = k := by simpa using List.find?_some hb
    have hmem : (k, a') ∈ m := hk ▸ List.mem_of_find?_eq_some hb
    rw [get?, hb, Option.map_some, eq_of_mem hmem h]

theorem mem_filter {m : SortedMap κ α} {p : κ → α → Bool} {b : κ × α} :
    b ∈ m.filter p ↔ b ∈ m ∧ p b.1 b.2 = true := List.mem_filter

theorem get?_eq_none_iff {m : SortedMap κ α} {k : κ} : m.get? k = none ↔ k ∉ m.keys := by
  rw [get?, Option.map_eq_none_iff, List.find?_eq_none, keys, List.mem_map]
  constructor
  · rintro h ⟨b, hb, rfl⟩
    exact h b hb (by simp)
  · intro h b hb hk
    exact h ⟨b, hb, by simpa using hk⟩

theorem mem_mapValues {m : SortedMap κ α} {f : κ → α → β} {k : κ} {b : β} :
    (k, b) ∈ m.mapValues f ↔ ∃ a, (k, a) ∈ m ∧ f k a = b := by
  rw [mem_iff, mapValues, List.mem_map]
  constructor
  · rintro ⟨⟨k', a⟩, hm, h⟩
    cases h
    exact ⟨a, hm, rfl⟩
  · rintro ⟨a, hm, rfl⟩
    exact ⟨(k, a), hm, rfl⟩

@[simp] theorem keys_mapValues (m : SortedMap κ α) (f : κ → α → β) :
    (m.mapValues f).keys = m.keys := by
  rw [keys, mapValues, List.map_map]
  rfl

@[simp] theorem get?_mapValues (m : SortedMap κ α) (f : κ → α → β) (k : κ) :
    (m.mapValues f).get? k = (m.get? k).map (f k) := by
  cases hk : m.get? k with
  | none =>
    rw [Option.map_none, get?_eq_none_iff, keys_mapValues]
    exact get?_eq_none_iff.mp hk
  | some a =>
    rw [Option.map_some, get?_eq_some_iff, mem_mapValues]
    exact ⟨a, get?_eq_some_iff.mp hk, rfl⟩

theorem mapValues_mapValues {γ : Type} (m : SortedMap κ α) (f : κ → α → β) (g : κ → β → γ) :
    (m.mapValues f).mapValues g = m.mapValues fun k a => g k (f k a) := by
  simp only [mapValues, List.map_map]
  rfl

theorem mapValues_congr {m : SortedMap κ α} {f g : κ → α → β}
    (h : ∀ k a, (k, a) ∈ m → f k a = g k a) : m.mapValues f = m.mapValues g := by
  simp only [mapValues, mk.injEq]
  exact List.map_congr_left fun b hb => by rw [h b.1 b.2 hb]

theorem find?_insertEntry (k x : κ) (a : α) (es : List (κ × α)) :
    ((insertEntry k a es).find? fun b => b.1 = x).map Prod.snd =
      if x = k then some a else (es.find? fun b => b.1 = x).map Prod.snd := by
  have hhead (es : List (κ × α)) : (((k, a) :: es).find? fun b => b.1 = x).map Prod.snd =
      if x = k then some a else (es.find? fun b => b.1 = x).map Prod.snd := by
    by_cases hx : x = k
    · rw [List.find?_cons_of_pos (by simp [hx]), if_pos hx, Option.map_some]
    · rw [List.find?_cons_of_neg (by simp [Ne.symm hx]), if_neg hx]
  induction es with
  | nil => exact hhead []
  | cons b es ih =>
    rw [insertEntry]
    by_cases h₁ : k < b.1
    · rw [if_pos h₁, hhead]
    by_cases h₂ : k = b.1
    · rw [if_neg h₁, if_pos h₂, hhead]
      by_cases hx : x = k
      · rw [if_pos hx, if_pos hx]
      · have hb : b.1 ≠ x := fun hb => hx (hb.symm.trans h₂.symm)
        rw [if_neg hx, if_neg hx, List.find?_cons_of_neg (by simpa using hb)]
    · rw [if_neg h₁, if_neg h₂]
      by_cases hb : b.1 = x
      · have hx : x ≠ k := fun hx => h₂ (hx.symm.trans hb.symm)
        rw [List.find?_cons_of_pos (by simpa using hb), if_neg hx,
          List.find?_cons_of_pos (by simpa using hb)]
      · rw [List.find?_cons_of_neg (by simpa using hb), ih,
          List.find?_cons_of_neg (by simpa using hb)]

@[simp] theorem get?_insert (m : SortedMap κ α) (k x : κ) (a : α) :
    (m.insert k a).get? x = if x = k then some a else m.get? x :=
  find?_insertEntry k x a m.entries

/-- The map without a key. -/
def erase (m : SortedMap κ α) (k : κ) : SortedMap κ α := m.filter fun x _ => x ≠ k

@[simp] theorem get?_erase (m : SortedMap κ α) (k x : κ) :
    (m.erase k).get? x = if x = k then none else m.get? x := by
  ext a
  rw [get?_eq_some_iff, erase, mem_filter]
  by_cases hx : x = k
  · simp [hx]
  · simp [hx, get?_eq_some_iff]

theorem mem_keys_iff {m : SortedMap κ α} {k : κ} : k ∈ m.keys ↔ ∃ a, m.get? k = some a := by
  rw [← not_iff_not, ← get?_eq_none_iff, Option.eq_none_iff_forall_ne_some]
  exact not_exists.symm

/-- Maps that look up alike are alike. -/
theorem ext_get? {m m' : SortedMap κ α} (h : ∀ k, m.get? k = m'.get? k) : m = m' := by
  have hmem : ∀ b, b ∈ m.entries ↔ b ∈ m'.entries := by
    rintro ⟨k, a⟩
    rw [← mem_iff, ← mem_iff, ← get?_eq_some_iff, ← get?_eq_some_iff, h k]
  have hsorted : ∀ m : SortedMap κ α, m.entries.Pairwise fun b b' => b.1 < b'.1 :=
    fun m => List.pairwise_map.mp m.sorted
  have hnodup : ∀ m : SortedMap κ α, m.entries.Nodup :=
    fun m => (hsorted m).imp fun h heq => absurd h (by rw [heq]; exact lt_irrefl _)
  have hperm : m.entries.Perm m'.entries :=
    (List.perm_ext_iff_of_nodup (hnodup m) (hnodup m')).mpr hmem
  have heq : m.entries = m'.entries :=
    hperm.eq_of_pairwise (fun a b _ _ hab hba => absurd (hab.trans hba) (lt_irrefl _))
      (hsorted m) (hsorted m')
  cases m
  cases m'
  cases heq
  rfl

/-- Inserting bindings one after another: the last one of a key wins. -/
theorem get?_foldl_insert (l : List (κ × α)) (m : SortedMap κ α) (k : κ) :
    (l.foldl (fun acc b => acc.insert b.1 b.2) m).get? k =
      ((l.reverse.find? fun b => b.1 = k).map Prod.snd).or (m.get? k) := by
  induction l generalizing m with
  | nil => simp
  | cons b l ih =>
    rw [List.foldl_cons, ih, get?_insert, List.reverse_cons, List.find?_append]
    by_cases hk : k = b.1
    · cases l.reverse.find? (fun b => b.1 = k) <;> simp [hk]
    · cases l.reverse.find? (fun b => b.1 = k) <;> simp [hk, Ne.symm hk]

/-- Inserting the same bindings twice is inserting them once. -/
theorem foldl_insert_idem (l : List (κ × α)) (m : SortedMap κ α) :
    l.foldl (fun acc b => acc.insert b.1 b.2) (l.foldl (fun acc b => acc.insert b.1 b.2) m) =
      l.foldl (fun acc b => acc.insert b.1 b.2) m := by
  refine ext_get? fun k => ?_
  rw [get?_foldl_insert, get?_foldl_insert]
  cases (l.reverse.find? fun b => b.1 = k).map Prod.snd <;> rfl

/-- Insert a binding unless the key is bound already; a better value replaces one that is not. -/
def insertPreferred (better : α → Bool) (m : SortedMap κ α) (k : κ) (a : α) : SortedMap κ α :=
  match m.get? k with
  | none => m.insert k a
  | some b => if better a && !better b then m.insert k a else m

/-- The first better value, or the first value at all. -/
def preferred (better : α → Bool) (l : List α) : Option α := (l.find? better).or l.head?

/-- **Inserting preferred bindings one after another leaves the preferred value of each key.** -/
theorem get?_foldl_insertPreferred (better : α → Bool) (l : List (κ × α)) (m : SortedMap κ α) (k : κ) :
    (l.foldl (fun acc b => acc.insertPreferred better b.1 b.2) m).get? k =
      preferred better ((m.get? k).toList ++ (l.filter fun b => b.1 = k).map Prod.snd) := by
  induction l generalizing m with
  | nil =>
    cases h : m.get? k with
    | none => simp [preferred, h]
    | some x => cases hx : better x <;> simp [preferred, h, hx]
  | cons b l ih =>
    rw [List.foldl_cons, ih]
    by_cases hk : b.1 = k
    · subst hk
      rw [List.filter_cons_of_pos (by simp), List.map_cons, insertPreferred]
      cases h : m.get? b.1 with
      | none => simp
      | some x =>
        dsimp only
        cases ha : better b.2 <;> cases hx : better x <;> simp [preferred, h, ha, hx]
    · have hget : (m.insertPreferred better b.1 b.2).get? k = m.get? k := by
        have hne : k ≠ b.1 := fun h => hk h.symm
        rw [insertPreferred]
        split
        · rw [get?_insert, if_neg hne]
        · split_ifs
          · rw [get?_insert, if_neg hne]
          · rfl
      rw [List.filter_cons_of_neg (by simpa using hk), hget]

theorem nodup_entries (m : SortedMap κ α) : m.entries.Nodup := m.nodup_keys.of_map

/-- The bindings of a map without a key, and the binding of that key. -/
theorem perm_entries_of_get? {m : SortedMap κ α} {k : κ} {a : α} (h : m.get? k = some a) :
    m.entries.Perm ((k, a) :: (m.erase k).entries) := by
  have hnot : (k, a) ∉ (m.erase k).entries := fun hm => by
    have := get?_eq_some_iff.mpr (mem_iff.mpr hm)
    rw [get?_erase, if_pos rfl] at this
    cases this
  rw [List.perm_ext_iff_of_nodup m.nodup_entries (List.nodup_cons.mpr ⟨hnot, nodup_entries _⟩)]
  rintro ⟨x, b⟩
  rw [List.mem_cons, ← mem_iff, ← mem_iff, ← get?_eq_some_iff, ← get?_eq_some_iff, get?_erase]
  by_cases hx : x = k
  · subst hx
    simp [h, eq_comm]
  · simp [hx]

theorem erase_insert (m : SortedMap κ α) (k : κ) (a : α) : (m.insert k a).erase k = m.erase k := by
  refine ext_get? fun x => ?_
  rw [get?_erase, get?_erase, get?_insert]
  split_ifs <;> rfl

theorem erase_eq_self {m : SortedMap κ α} {k : κ} (h : m.get? k = none) : m.erase k = m := by
  refine ext_get? fun x => ?_
  rw [get?_erase]
  split_ifs with hx
  · rw [hx, h]
  · rfl

/-- One more value at the end of the list of a key. -/
def push (m : SortedMap κ (List α)) (k : κ) (a : α) : SortedMap κ (List α) :=
  m.insert k ((m.get? k).getD [] ++ [a])

/-- Every value with its key, key by key. -/
def items (m : SortedMap κ (List α)) : List (κ × α) :=
  m.entries.flatMap fun b => b.2.map fun a => (b.1, a)

theorem mem_items {m : SortedMap κ (List α)} {k : κ} {a : α} :
    (k, a) ∈ m.items ↔ a ∈ (m.get? k).getD [] := by
  rw [items, List.mem_flatMap]
  constructor
  · rintro ⟨b, hb, hab⟩
    obtain ⟨x, hx, hxa⟩ := List.mem_map.mp hab
    cases hxa
    rw [get?_eq_some_iff.mpr hb]
    exact hx
  · intro ha
    cases hk : m.get? k with
    | none =>
      rw [hk] at ha
      exact absurd ha List.not_mem_nil
    | some l =>
      rw [hk] at ha
      exact ⟨(k, l), get?_eq_some_iff.mp hk, List.mem_map.mpr ⟨a, ha, rfl⟩⟩

theorem items_push_perm (m : SortedMap κ (List α)) (k : κ) (a : α) :
    (m.push k a).items.Perm (m.items ++ [(k, a)]) := by
  have hins : (m.push k a).get? k = some ((m.get? k).getD [] ++ [a]) := by
    rw [push, get?_insert, if_pos rfl]
  refine ((perm_entries_of_get? hins).flatMap_right _).trans ?_
  rw [List.flatMap_cons, List.map_append, push, erase_insert]
  cases hget : m.get? k with
  | none =>
    rw [erase_eq_self hget]
    exact List.perm_append_comm
  | some as =>
    have hm := (perm_entries_of_get? hget).flatMap_right fun b => b.2.map fun a => (b.1, a)
    rw [List.flatMap_cons] at hm
    refine List.Perm.trans ?_ (hm.append_right [(k, a)]).symm
    simp only [Option.getD_some, List.map_cons, List.map_nil, List.append_assoc]
    exact List.perm_append_comm.append_left _

/-- **Pushing values one after another keeps every one of them.** -/
theorem items_foldl_push_perm (l : List (κ × α)) (m : SortedMap κ (List α)) :
    (l.foldl (fun acc b => acc.push b.1 b.2) m).items.Perm (m.items ++ l) := by
  induction l generalizing m with
  | nil => rw [List.foldl_nil, List.append_nil]
  | cons b l ih =>
    rw [List.foldl_cons]
    refine (ih _).trans ?_
    refine ((items_push_perm m b.1 b.2).append_right l).trans ?_
    rw [List.append_assoc]
    exact List.Perm.refl _

/-- Only the entry of one key survives a filter that rejects what the others give. -/
theorem filter_flatMap_eq {γ : Type} {m : SortedMap κ α} {k : κ} {a : α} (hm : (k, a) ∈ m)
    (F : κ × α → List γ) (P : γ → Bool)
    (hne : ∀ b ∈ m, b.1 ≠ k → ∀ x ∈ F b, P x = false) :
    (m.entries.flatMap F).filter P = (F (k, a)).filter P := by
  obtain ⟨es, hs⟩ := m
  change (k, a) ∈ es at hm
  change ∀ b ∈ es, _ at hne
  change (es.flatMap F).filter P = _
  have hnone : ∀ l : List (κ × α), (∀ b ∈ l, b ∈ es ∧ b.1 ≠ k) → (l.flatMap F).filter P = [] := by
    intro l hl
    rw [List.filter_eq_nil_iff]
    intro x hx
    obtain ⟨b, hb, hxb⟩ := List.mem_flatMap.mp hx
    rw [hne b (hl b hb).1 (hl b hb).2 x hxb]
    simp
  obtain ⟨pre, post, rfl⟩ := List.append_of_mem hm
  rw [List.map_append, List.map_cons, List.pairwise_append, List.pairwise_cons] at hs
  obtain ⟨-, ⟨hpost, -⟩, hpre⟩ := hs
  rw [List.flatMap_append, List.flatMap_cons, List.filter_append, List.filter_append,
    hnone pre, hnone post, List.nil_append, List.append_nil]
  · intro b hb
    exact ⟨by simp [hb], (hpost b.1 (List.mem_map.mpr ⟨b, hb, rfl⟩)).ne'⟩
  · intro b hb
    exact ⟨by simp [hb],
      (hpre b.1 (List.mem_map.mpr ⟨b, hb, rfl⟩) k (List.mem_cons_self ..)).ne⟩

/-! ## Maps related key by key -/

/-- Two maps with the same keys, whose values are related key by key. -/
def Rel (R : κ → α → β → Prop) (m : SortedMap κ α) (m' : SortedMap κ β) : Prop :=
  List.Forall₂ (fun b b' => b.1 = b'.1 ∧ R b.1 b.2 b'.2) m.entries m'.entries

theorem rel_refl {R : κ → α → α → Prop} (m : SortedMap κ α)
    (h : ∀ k a, (k, a) ∈ m → R k a a) : Rel R m m :=
  List.forall₂_same.mpr fun b hb => ⟨rfl, h b.1 b.2 hb⟩

theorem Rel.symm {R : κ → α → β → Prop} {S : κ → β → α → Prop} {m : SortedMap κ α}
    {m' : SortedMap κ β} (h : Rel R m m') (hRS : ∀ k a b, R k a b → S k b a) : Rel S m' m := by
  refine List.Forall₂.flip (List.Forall₂.imp ?_ h)
  rintro ⟨k, a⟩ ⟨k', b⟩ ⟨rfl, hab⟩
  exact ⟨rfl, hRS _ _ _ hab⟩

theorem Rel.trans {R : κ → α → β → Prop} {γ : Type} {S : κ → β → γ → Prop}
    {T : κ → α → γ → Prop} {m : SortedMap κ α} {m' : SortedMap κ β} {m'' : SortedMap κ γ}
    (h : Rel R m m') (h' : Rel S m' m'') (hT : ∀ k a b c, R k a b → S k b c → T k a c) :
    Rel T m m'' := by
  obtain ⟨xs, _⟩ := m
  obtain ⟨ys, _⟩ := m'
  obtain ⟨zs, _⟩ := m''
  change List.Forall₂ _ xs ys at h
  change List.Forall₂ _ ys zs at h'
  change List.Forall₂ _ xs zs
  clear * - h h' hT
  induction h generalizing zs with
  | nil =>
    cases h'
    exact List.Forall₂.nil
  | cons hab _ ih =>
    cases h' with
    | cons hbc h' =>
      refine List.Forall₂.cons ⟨hab.1.trans hbc.1, hT _ _ _ _ hab.2 ?_⟩ (ih _ h')
      exact hab.1 ▸ hbc.2

/-- Related values that give permuted lists give permuted lists together. -/
theorem Rel.flatMap_perm {γ : Type} {R : κ → α → β → Prop} {m : SortedMap κ α}
    {m' : SortedMap κ β} {F : α → List γ} {G : β → List γ} (h : Rel R m m')
    (hFG : ∀ k a b, R k a b → (F a).Perm (G b)) :
    (m.values.flatMap F).Perm (m'.values.flatMap G) := by
  obtain ⟨xs, _⟩ := m
  obtain ⟨ys, _⟩ := m'
  change List.Forall₂ _ xs ys at h
  change ((xs.map Prod.snd).flatMap F).Perm ((ys.map Prod.snd).flatMap G)
  clear * - h hFG
  induction h with
  | nil => exact List.Perm.refl _
  | cons hab _ ih =>
    rw [List.map_cons, List.flatMap_cons, List.map_cons, List.flatMap_cons]
    exact (hFG _ _ _ hab.2).append ih

/-- A relation between what two rewritings make of one map. -/
theorem rel_mapValues {γ : Type} {R : κ → β → γ → Prop} {m : SortedMap κ α} {f : κ → α → β}
    {g : κ → α → γ} :
    Rel R (m.mapValues f) (m.mapValues g) ↔ ∀ k a, (k, a) ∈ m → R k (f k a) (g k a) := by
  rw [Rel, mapValues, mapValues, List.forall₂_map_left_iff, List.forall₂_map_right_iff,
    List.forall₂_same]
  exact ⟨fun h k a hm => (h (k, a) hm).2, fun h b hb => ⟨rfl, h b.1 b.2 hb⟩⟩

/-- A relation between a map and what a rewriting makes of it. -/
theorem rel_mapValues_right {R : κ → α → β → Prop} {m : SortedMap κ α} {f : κ → α → β} :
    Rel R m (m.mapValues f) ↔ ∀ k a, (k, a) ∈ m → R k a (f k a) := by
  rw [Rel, SortedMap.mapValues, List.forall₂_map_right_iff, List.forall₂_same]
  exact ⟨fun h k a hm => (h (k, a) hm).2, fun h b hb => ⟨rfl, h b.1 b.2 hb⟩⟩

end SortedMap
