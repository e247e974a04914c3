import Chbackup.Lib.Ends
import Chbackup.Lib.SortedMap
import Chbackup.Restore.Ddl

/-!
# Macros in paths

`resolve_zk_macros` (`src/restore/remap.rs`) and `resolve_macros_in_paths` (`src/object_disk.rs`) replace
the macros of a map one after another, in the order in which the hash map yields them.  What they are for
is the simultaneous substitution, which knows no order.

A text that has been inserted is searched for the macros that come later, so the two agree as long as no
inserted text, with what stands around it, forms a placeholder.

* `macros_expand_in_every_order`: where only the template's own placeholders ever stand in the text, every
  order gives the substitution.  Otherwise there is an order in which the loop replaces another one.
* `onlyOwnPlaceholders_templateOf`: so it is for templates without nested brackets, when no key and no value
  has a bracket.
-/

namespace Chbackup

/-- `{key}`. -/
def placeholder (key : Str) : Str := '\x7b' :: key ++ ['\x7d']

/-- `resolve_macros_in_paths`, with the macros in the order in which the hash map yields them.  The loop over
the macros is that of `resolve_zk_macros`. -/
def resolveMacrosInPaths (paths : SortedMap Str Str) (macros : List (Str × Str)) : SortedMap Str Str :=
  if macros.isEmpty then paths
  else paths.mapValues fun _ path =>
    if '\x7b' ∈ path then resolveZkMacros path macros else path

/-! ## The substitution -/

/-- A character of a template, or the placeholder of a known key. -/
inductive MacroPiece where
  | char (c : Char)
  | hole (key : Str)
  deriving DecidableEq

/-- The key of the placeholder that a text begins with after its opening bracket: the text up to a closing
bracket, of which `key` has been read. -/
def keyOf (macros : SortedMap Str Str) (key : Str) : Str → Option Str
  | [] => none
  | c :: s => if c = '\x7d' ∧ key ∈ macros.keys then some key else keyOf macros (key ++ [c]) s

/-- The pieces of a template, when `skip` characters are left of the placeholder just read. -/
def piecesFrom (macros : SortedMap Str Str) : Nat → Str → List MacroPiece
  | _, [] => []
  | skip + 1, _ :: s => piecesFrom macros skip s
  | 0, c :: s =>
    match if c = '\x7b' then keyOf macros [] s else none with
    | some key => .hole key :: piecesFrom macros (key.length + 1) s
    | none => .char c :: piecesFrom macros 0 s

/-- The pieces of a template. -/
def pieces (macros : SortedMap Str Str) (template : Str) : List MacroPiece := piecesFrom macros 0 template

/-- The text of a piece when some macros have been replaced. -/
def MacroPiece.text (macros : SortedMap Str Str) (replaced : List Str) : MacroPiece → Str
  | .char c => [c]
  | .hole key => if key ∈ replaced then (macros.get? key).getD [] else placeholder key

/-- The text of several pieces. -/
def filled (macros : SortedMap Str Str) (replaced : List Str) (ps : List MacroPiece) : Str :=
  ps.flatMap (MacroPiece.text macros replaced)

/-- The template with each placeholder of a known key replaced once by its value. -/
def expand (macros : SortedMap Str Str) (template : Str) : Str :=
  filled macros macros.keys (pieces macros template)

/-- In every order of the map, the template and the paths are expanded. -/
structure ExpandsInEveryOrder (macros : SortedMap Str Str) (template : Str) (paths : SortedMap Str Str) :
    Prop where
  zkPath : ∀ order : List (Str × Str), order.Perm macros.entries →
    resolveZkMacros template order = expand macros template
  diskPaths : ∀ order : List (Str × Str), order.Perm macros.entries →
    resolveMacrosInPaths paths order = paths.mapValues fun _ path => expand macros path

/-- With some macros replaced, the placeholder of a key stands in the text only where the template has it. -/
def OwnAt (macros : SortedMap Str Str) (template : Str) (replaced : List Str) (key : Str) : Prop :=
  ∀ before after, filled macros replaced (pieces macros template) = before ++ placeholder key ++ after →
    ∃ ps qs, pieces macros template = ps ++ .hole key :: qs ∧ filled macros replaced ps = before

/-- Whichever macros are replaced in the template, and whatever text they leave, the placeholders of the other
macros that stand in it are the template's own. -/
def OnlyOwnPlaceholders (macros : SortedMap Str Str) (template : Str) : Prop :=
  ∀ replaced ⊆ macros.keys, ∀ key ∈ macros.keys, key ∉ replaced → OwnAt macros template replaced key

/-- The loop comes, in an order, to a text in which the placeholder of the next macro is not only the
template's own: its replacement changes what is not a placeholder of the template. -/
def ReplacesForeign (macros : SortedMap Str Str) (template : Str) (order : List (Str × Str)) : Prop :=
  ∃ done key value rest, order = done ++ (key, value) :: rest ∧
    resolveZkMacros template done = filled macros (done.map Prod.fst) (pieces macros template) ∧
      ¬OwnAt macros template (done.map Prod.fst) key

/-! ## The pieces -/

section Pieces

variable {macros : SortedMap Str Str} {template : Str} {replaced : List Str} {ps qs : List MacroPiece}

theorem filled_append : filled macros replaced (ps ++ qs) = filled macros replaced ps ++ filled macros replaced qs :=
  List.flatMap_append

theorem filled_cons (p : MacroPiece) :
    filled macros replaced (p :: ps) = p.text macros replaced ++ filled macros replaced ps := List.flatMap_cons

theorem placeholder_ne_nil (key : Str) : placeholder key ≠ [] := List.cons_ne_nil _ _

/-- What is read as a key stands before a closing bracket. -/
theorem keyOf_eq_some {key found s : Str} (h : keyOf macros key s = some found) :
    found ∈ macros.keys ∧ ∃ more rest, found = key ++ more ∧ s = more ++ '\x7d' :: rest := by
  induction s generalizing key with
  | nil => cases h
  | cons c s ih =>
    rw [keyOf] at h
    split_ifs at h with hc
    · cases h
      exact ⟨hc.2, [], s, (List.append_nil _).symm, by rw [hc.1]; rfl⟩
    · obtain ⟨hknown, more, rest, rfl, rfl⟩ := ih h
      exact ⟨hknown, c :: more, rest, by rw [List.append_assoc]; rfl, rfl⟩

theorem piecesFrom_append (t s : Str) : piecesFrom macros t.length (t ++ s) = piecesFrom macros 0 s := by
  induction t with
  | nil => rfl
  | cons c t ih => exact ih

/-- The pieces read the template back, and their keys are known. -/
theorem pieces_spec (macros : SortedMap Str Str) (template : Str) :
    filled macros [] (pieces macros template) = template ∧
      ∀ key, .hole key ∈ pieces macros template → key ∈ macros.keys := by
  rw [pieces]
  induction hn : template.length using Nat.strongRecOn generalizing template with
  | _ n ih =>
    subst hn
    cases template with
    | nil => exact ⟨rfl, fun key hkey => absurd hkey List.not_mem_nil⟩
    | cons c s =>
      rw [piecesFrom]
      split
      · rename_i key hkey
        split_ifs at hkey with hc
        obtain ⟨hknown, more, rest, hmore, rfl⟩ := keyOf_eq_some hkey
        rw [List.nil_append] at hmore
        subst hmore
        have hskip := @piecesFrom_append macros (key ++ ['\x7d']) rest
        rw [List.length_append, List.append_assoc] at hskip
        obtain ⟨htext, hkeys⟩ := ih rest.length (by simp; omega) rest rfl
        rw [show piecesFrom macros (key.length + 1) (key ++ '\x7d' :: rest) = piecesFrom macros 0 rest from hskip,
          filled_cons, htext, MacroPiece.text, if_neg List.not_mem_nil, hc]
        refine ⟨by simp [placeholder], fun k hk => ?_⟩
        rcases List.mem_cons.mp hk with hk | hk
        · cases hk
          exact hknown
        · exact hkeys k hk
      · obtain ⟨htext, hkeys⟩ := ih s.length (by simp) s rfl
        rw [filled_cons, htext]
        refine ⟨rfl, fun k hk => ?_⟩
        rcases List.mem_cons.mp hk with hk | hk
        · cases hk
        · exact hkeys k hk

/-- Only which of the known macros are replaced matters. -/
theorem filled_congr {replaced' : List Str} (hps : ps ⊆ pieces macros template)
    (h : ∀ key ∈ macros.keys, key ∈ replaced ↔ key ∈ replaced') :
    filled macros replaced ps = filled macros replaced' ps := by
  refine List.flatMap_congr fun p hp => ?_
  cases p with
  | char c => rfl
  | hole key =>
    have hkey := h key ((pieces_spec macros template).2 key (hps hp))
    simp only [MacroPiece.text, hkey]

theorem OwnAt.congr {replaced' : List Str} {key : Str} (h : OwnAt macros template replaced key)
    (hsame : ∀ key ∈ macros.keys, key ∈ replaced ↔ key ∈ replaced') : OwnAt macros template replaced' key := by
  intro before after htext
  rw [← filled_congr (List.Subset.refl _) hsame] at htext
  obtain ⟨ps, qs, hsplit, hfilled⟩ := h before after htext
  refine ⟨ps, qs, hsplit, ?_⟩
  rw [← filled_congr (hsplit ▸ List.subset_append_left _ _) hsame, hfilled]

end Pieces

/-! ## One macro -/

section Step

variable {macros : SortedMap Str Str} {template key value : Str} {replaced : List Str}

/-- A text in which no placeholder begins is copied. -/
theorem replaceAllFrom_copied {needle new text s : Str}
    (h : ∀ t u, text = t ++ u → u ≠ [] → ¬needle <+: u ++ s) :
    Str.replaceAllFrom needle new 0 (text ++ s) = text ++ Str.replaceAllFrom needle new 0 s := by
  induction text with
  | nil => rfl
  | cons c text ih =>
    have hc : ¬needle.isPrefixOf (c :: (text ++ s)) = true := fun hp =>
      h [] (c :: text) rfl (List.cons_ne_nil _ _) (List.isPrefixOf_iff_prefix.mp hp)
    rw [List.cons_append, Str.replaceAllFrom, if_neg hc,
      ih fun t u htu hu => h (c :: t) u (congrArg (c :: ·) htu) hu, List.cons_append]

theorem replaceAllFrom_append {needle new : Str} (t s : Str) :
    Str.replaceAllFrom needle new t.length (t ++ s) = Str.replaceAllFrom needle new 0 s := by
  induction t with
  | nil => rfl
  | cons c t ih => exact ih

/-- A placeholder that the text begins with is replaced. -/
theorem replaceAllFrom_placeholder (s : Str) :
    Str.replaceAllFrom (placeholder key) value 0 (placeholder key ++ s) =
      value ++ Str.replaceAllFrom (placeholder key) value 0 s := by
  have hstarts : (placeholder key).isPrefixOf (placeholder key ++ s) = true :=
    List.isPrefixOf_iff_prefix.mpr (List.prefix_append _ _)
  have hskip := @replaceAllFrom_append (placeholder key) value (key ++ ['\x7d']) s
  rw [show placeholder key ++ s = '\x7b' :: ((key ++ ['\x7d']) ++ s) from rfl] at hstarts ⊢
  rw [Str.replaceAllFrom, if_pos hstarts]
  exact congrArg (value ++ ·) hskip

/-- **To replace one macro more is to fill the template's own placeholders of it**, if it has no others. -/
theorem OwnAt.replaceAll (h : OwnAt macros template replaced key) (hvalue : macros.get? key = some value)
    (hfresh : key ∉ replaced) :
    Str.replaceAll (placeholder key) value (filled macros replaced (pieces macros template)) =
      filled macros (key :: replaced) (pieces macros template) := by
  have hstep : ∀ ps qs, pieces macros template = ps ++ qs →
      Str.replaceAllFrom (placeholder key) value 0 (filled macros replaced qs) = filled macros (key :: replaced) qs := by
    intro ps qs
    induction qs generalizing ps with
    | nil => exact fun _ => rfl
    | cons p qs ih =>
      intro hsplit
      have hrest := ih (ps ++ [p]) (by rw [hsplit, List.append_assoc]; rfl)
      rw [filled_cons, filled_cons, ← hrest]
      by_cases hp : p = .hole key
      · subst hp
        rw [MacroPiece.text, if_neg hfresh, replaceAllFrom_placeholder, MacroPiece.text,
          if_pos List.mem_cons_self, hvalue, Option.getD_some]
      · have hsame : p.text macros (key :: replaced) = p.text macros replaced := by
          cases p with
          | char c => rfl
          | hole k =>
            have hne : k ≠ key := fun hk => hp (congrArg _ hk)
            simp only [MacroPiece.text, List.mem_cons, hne, false_or]
        rw [hsame]
        refine replaceAllFrom_copied fun t u htu hu hstarts => ?_
        -- a placeholder that begins in this piece would be one of the template's own
        obtain ⟨after, hafter⟩ := hstarts
        obtain ⟨ps', qs', hsplit', hlength⟩ := h (filled macros replaced ps ++ t) after (by
          rw [hsplit, filled_append, filled_cons, htu, List.append_assoc, ← hafter]
          simp only [List.append_assoc])
        replace hlength := congrArg List.length hlength
        have htext := congrArg List.length htu
        have hpos := List.length_pos_iff.mpr hu
        rw [List.length_append] at hlength htext
        rcases List.append_eq_append_iff.mp (hsplit.symm.trans hsplit') with ⟨more, rfl, hmore⟩ | ⟨more, rfl, hmore⟩
        · cases more with
          | nil => exact hp (List.cons_eq_cons.mp hmore).1
          | cons p' more =>
            obtain ⟨rfl, -⟩ := List.cons_eq_cons.mp hmore
            rw [filled_append, filled_cons, List.length_append, List.length_append] at hlength
            omega
        · cases more with
          | nil => exact hp (List.cons_eq_cons.mp hmore).1.symm
          | cons p' more =>
            obtain ⟨rfl, -⟩ := List.cons_eq_cons.mp hmore
            have hlong := List.length_pos_iff.mpr (placeholder_ne_nil key)
            rw [filled_append, filled_cons, MacroPiece.text, if_neg hfresh, List.length_append,
              List.length_append] at hlength
            omega
  exact hstep [] _ rfl

end Step
/-! ## All macros -/

section Runs

variable {macros : SortedMap Str Str} {template : Str} {order done : List (Str × Str)}

theorem resolveZkMacros_concat (template : Str) (order : List (Str × Str)) (key value : Str) :
    resolveZkMacros template (order ++ [(key, value)]) =
      Str.replaceAll (placeholder key) value (resolveZkMacros template order) := by
  rw [resolveZkMacros, List.foldl_append]
  rfl

/-- As long as the placeholders are the template's own, the loop fills them. -/
theorem resolveZkMacros_eq (hmem : ∀ e ∈ done, e ∈ macros) (hnodup : (done.map Prod.fst).Nodup)
    (hown : ∀ earlier e later, done = earlier ++ e :: later → OwnAt macros template (earlier.map Prod.fst) e.1) :
    resolveZkMacros template done = filled macros (done.map Prod.fst) (pieces macros template) := by
  induction done using List.reverseRecOn with
  | nil => exact (pieces_spec macros template).1.symm
  | append_singleton done e ih =>
    obtain ⟨key, value⟩ := e
    rw [List.map_append, List.nodup_append] at hnodup
    have hfresh : key ∉ done.map Prod.fst := fun h => hnodup.2.2 key h key List.mem_cons_self rfl
    have hvalue := SortedMap.get?_eq_some_iff.mpr (hmem _ (List.mem_append_right _ List.mem_cons_self))
    have hbefore := ih (fun e he => hmem e (List.mem_append_left _ he)) hnodup.1 fun earlier e later hsplit =>
      hown earlier e (later ++ [(key, value)]) (by rw [hsplit, List.append_assoc]; rfl)
    rw [resolveZkMacros_concat, hbefore, (hown done (key, value) [] rfl).replaceAll hvalue hfresh]
    refine filled_congr (List.Subset.refl _) fun k _ => ?_
    rw [List.map_append, List.mem_append, List.map_singleton, List.mem_singleton, List.mem_cons]
    exact or_comm

theorem OnlyOwnPlaceholders.resolves (h : OnlyOwnPlaceholders macros template)
    (horder : order.Perm macros.entries) : resolveZkMacros template order = expand macros template := by
  have hkeys : (order.map Prod.fst).Perm macros.keys := horder.map Prod.fst
  have hnodup := hkeys.nodup_iff.mpr macros.nodup_keys
  rw [@resolveZkMacros_eq macros template order (fun e he => horder.subset he) hnodup]
  · exact filled_congr (List.Subset.refl _) fun key _ => hkeys.mem_iff
  · rintro earlier e later rfl
    rw [List.map_append, List.nodup_append] at hnodup
    refine h _ (fun k hk => hkeys.subset ?_) e.1 (hkeys.subset ?_) fun he =>
      hnodup.2.2 e.1 he e.1 List.mem_cons_self rfl
    · rw [List.map_append]
      exact List.mem_append_left _ hk
    · exact List.mem_map_of_mem (List.mem_append_right _ List.mem_cons_self)

/-- A text with a foreign placeholder is one that the loop comes to, or one that it would have come to is. -/
theorem replacesForeign_of_not_ownAt {key value : Str} (hmem : ∀ e ∈ done, e ∈ macros)
    (hnodup : (done.map Prod.fst).Nodup) (hkey : (key, value) ∈ macros) (hfresh : key ∉ done.map Prod.fst)
    (h : ¬OwnAt macros template (done.map Prod.fst) key) :
    ∃ order : List (Str × Str), order.Perm macros.entries ∧ ReplacesForeign macros template order := by
  induction hn : done.length using Nat.strongRecOn generalizing done key value with
  | _ n ih =>
    by_cases hown : ∀ earlier e later, done = earlier ++ e :: later →
        OwnAt macros template (earlier.map Prod.fst) e.1
    · have hstart : ((done ++ [(key, value)]).map Prod.fst).Nodup := by
        rw [List.map_append, List.nodup_append]
        refine ⟨hnodup, List.nodup_singleton _, fun a ha b hb hab => ?_⟩
        rw [hab, List.mem_singleton.mp hb] at ha
        exact hfresh ha
      have hsub : (done ++ [(key, value)]).Subperm macros.entries := by
        refine hstart.of_map.subperm fun e he => ?_
        rcases List.mem_append.mp he with he | he
        · exact hmem e he
        · exact List.mem_singleton.mp he ▸ hkey
      obtain ⟨begun, hbegun, hsub⟩ := hsub
      obtain ⟨rest, hrest⟩ := hsub.exists_perm_append
      refine ⟨(done ++ [(key, value)]) ++ rest, (hrest.trans (hbegun.append_right rest)).symm, done, key, value, rest,
        ?_, ?_, h⟩
      · rw [List.append_assoc]
        rfl
      · exact resolveZkMacros_eq hmem hnodup hown
    · push Not at hown
      obtain ⟨earlier, e, later, rfl, hforeign⟩ := hown
      rw [List.map_append, List.nodup_append] at hnodup
      refine ih earlier.length ?_ (fun e' he' => hmem e' (List.mem_append_left _ he')) hnodup.1
        (hmem e (List.mem_append_right _ List.mem_cons_self)) (fun he => ?_) hforeign rfl
      · rw [← hn, List.length_append, List.length_cons]
        omega
      · exact hnodup.2.2 e.1 he e.1 List.mem_cons_self rfl

/-- No placeholder begins in a text without an opening bracket. -/
theorem replaceAll_placeholder (key value : Str) {s : Str} (h : '\x7b' ∉ s) :
    Str.replaceAll (placeholder key) value s = s := by
  have hcopied : Str.replaceAllFrom (placeholder key) value 0 (s ++ []) = s ++ [] := by
    refine replaceAllFrom_copied fun t u htu _ hstarts => h ?_
    rw [List.append_nil] at hstarts
    rw [htu]
    exact List.mem_append_right _ (hstarts.subset List.mem_cons_self)
  rwa [List.append_nil] at hcopied

theorem resolveZkMacros_of_notMem (h : '\x7b' ∉ template) (order : List (Str × Str)) :
    resolveZkMacros template order = template := by
  rw [resolveZkMacros]
  induction order with
  | nil => rfl
  | cons e order ih =>
    rw [List.foldl_cons]
    exact (congrArg (fun s => order.foldl _ s) (replaceAll_placeholder e.1 e.2 h)).trans ih

/-- The shortcuts of `resolve_macros_in_paths` leave nothing out. -/
theorem resolveMacrosInPaths_eq (paths : SortedMap Str Str) (order : List (Str × Str)) :
    resolveMacrosInPaths paths order = paths.mapValues fun _ path => resolveZkMacros path order := by
  rw [resolveMacrosInPaths]
  cases order with
  | nil =>
    obtain ⟨entries, sorted⟩ := paths
    rw [List.isEmpty_nil, if_pos rfl, SortedMap.mapValues, SortedMap.mk.injEq]
    exact (List.map_id' entries).symm
  | cons e order =>
    rw [List.isEmpty_cons, if_neg Bool.false_ne_true]
    refine congrArg paths.mapValues (funext fun _ => funext fun path => ?_)
    split_ifs with h
    · rfl
    · exact (resolveZkMacros_of_notMem h _).symm

end Runs

/-! ## Templates without nested brackets -/

/-- A text without brackets. -/
def Bracketless (s : Str) : Prop := '\x7b' ∉ s ∧ '\x7d' ∉ s

/-- A template: texts, each with a name in brackets after it. -/
def templateOf (parts : List (Str × Str)) : Str := parts.flatMap fun p => p.1 ++ placeholder p.2

section Flat

variable {macros : SortedMap Str Str} {replaced : List Str} {parts : List (Str × Str)}

/-- The pieces of a text and the name after it. -/
def partPieces (macros : SortedMap Str Str) (p : Str × Str) : List MacroPiece :=
  p.1.map .char ++ if p.2 ∈ macros.keys then [.hole p.2] else (placeholder p.2).map .char

theorem piecesFrom_text {t : Str} (ht : '\x7b' ∉ t) (s : Str) :
    piecesFrom macros 0 (t ++ s) = t.map .char ++ piecesFrom macros 0 s := by
  induction t with
  | nil => rfl
  | cons c t ih =>
    have hc : ¬c = '\x7b' := fun h => ht (h ▸ List.mem_cons_self)
    rw [List.cons_append, piecesFrom, if_neg hc, ih fun h => ht (List.mem_cons_of_mem _ h)]
    rfl

/-- No key is read across a closing bracket. -/
theorem keyOf_eq_none (hkeys : ∀ k ∈ macros.keys, Bracketless k) {key : Str} (h : '\x7d' ∈ key) (s : Str) :
    keyOf macros key s = none := by
  induction s generalizing key with
  | nil => rfl
  | cons c s ih =>
    rw [keyOf, if_neg fun hc => (hkeys key hc.2).2 h]
    exact ih (List.mem_append_left _ h)

theorem keyOf_name (hkeys : ∀ k ∈ macros.keys, Bracketless k) {name : Str} (hname : '\x7d' ∉ name)
    (key s : Str) : keyOf macros key (name ++ '\x7d' :: s) =
      if key ++ name ∈ macros.keys then some (key ++ name) else none := by
  induction name generalizing key with
  | nil =>
    rw [List.nil_append, keyOf, List.append_nil]
    by_cases hkey : key ∈ macros.keys
    · rw [if_pos ⟨rfl, hkey⟩, if_pos hkey]
    · rw [if_neg (fun h => hkey h.2), if_neg hkey, keyOf_eq_none hkeys (List.mem_append_right _ List.mem_cons_self)]
  | cons c name ih =>
    have hc : ¬c = '\x7d' := fun h => hname (h ▸ List.mem_cons_self)
    rw [List.cons_append, keyOf, if_neg fun h => hc h.1]
    refine (ih (fun h => hname (List.mem_cons_of_mem _ h)) (key ++ [c])).trans ?_
    rw [List.append_assoc]
    rfl

theorem pieces_templateOf (hkeys : ∀ k ∈ macros.keys, Bracketless k)
    (hparts : ∀ p ∈ parts, Bracketless p.1 ∧ Bracketless p.2) :
    pieces macros (templateOf parts) = parts.flatMap (partPieces macros) := by
  rw [pieces]
  induction parts with
  | nil => rfl
  | cons p parts ih =>
    obtain ⟨text, name⟩ := p
    have hp := hparts _ List.mem_cons_self
    have hrest := ih fun q hq => hparts q (List.mem_cons_of_mem _ hq)
    have hshape : placeholder name ++ templateOf parts = '\x7b' :: (name ++ '\x7d' :: templateOf parts) := by
      simp [placeholder]
    rw [templateOf, List.flatMap_cons, List.flatMap_cons, List.append_assoc, piecesFrom_text hp.1.1, partPieces,
      List.append_assoc, ← templateOf, hshape, piecesFrom, if_pos rfl, keyOf_name hkeys hp.2.2, List.nil_append]
    refine congrArg (text.map MacroPiece.char ++ ·) ?_
    split_ifs with hknown
    · have hskip := @piecesFrom_append macros (name ++ ['\x7d']) (templateOf parts)
      rw [List.length_append, List.append_assoc] at hskip
      exact congrArg (MacroPiece.hole name :: ·) (hskip.trans hrest)
    · have hcopy := @piecesFrom_text macros (name ++ ['\x7d']) (by simp [hp.2.1]) (templateOf parts)
      rw [List.append_assoc] at hcopy
      rw [← hrest]
      exact congrArg (MacroPiece.char '\x7b' :: ·) hcopy

/-- The text of a part: its text, and its value or its placeholder. -/
theorem filled_partPieces (hvalues : ∀ v ∈ macros.values, Bracketless v) (p : Str × Str) :
    ∃ w, filled macros replaced (partPieces macros p) = p.1 ++ w ∧
      (Bracketless w ∧ (p.2 ∈ macros.keys → p.2 ∈ replaced) ∨ w = placeholder p.2 ∧
        (p.2 ∈ macros.keys → p.2 ∉ replaced)) := by
  have hchars : ∀ t : Str, filled macros replaced (t.map .char) = t := by
    intro t
    rw [filled, List.flatMap_map]
    exact List.flatMap_singleton' t
  rw [partPieces, filled_append, hchars]
  refine ⟨_, rfl, ?_⟩
  split_ifs with hknown
  · obtain ⟨v, hv⟩ := SortedMap.mem_keys_iff.mp hknown
    have htext : filled macros replaced [.hole p.2] = if p.2 ∈ replaced then v else placeholder p.2 := by
      rw [filled_cons, MacroPiece.text, hv, Option.getD_some]
      exact List.append_nil _
    rw [htext]
    split_ifs with hreplaced
    · exact .inl ⟨hvalues v (List.mem_map.mpr ⟨(p.2, v), SortedMap.get?_eq_some_iff.mp hv, rfl⟩), fun _ => hreplaced⟩
    · exact .inr ⟨rfl, fun _ => hreplaced⟩
  · exact .inr ⟨hchars _, fun h => absurd h hknown⟩

/-- A character that does not stand in a text comes after it. -/
theorem append_eq_append_cons {c : Char} {t s before after : Str} (hc : c ∉ t)
    (h : t ++ s = before ++ c :: after) : ∃ before', before = t ++ before' ∧ s = before' ++ c :: after := by
  rcases List.append_eq_append_iff.mp h with ⟨more, rfl, hmore⟩ | ⟨more, rfl, hmore⟩
  · exact ⟨more, rfl, hmore⟩
  · cases more with
    | nil => exact ⟨[], by simp, hmore.symm⟩
    | cons c' more =>
      obtain ⟨rfl, -⟩ := List.cons_eq_cons.mp hmore
      exact absurd (List.mem_append_right _ List.mem_cons_self) hc

/-- **Templates without nested brackets** have only their own placeholders, for macros whose keys and values
have no brackets. -/
theorem onlyOwnPlaceholders_templateOf (hkeys : ∀ k ∈ macros.keys, Bracketless k)
    (hvalues : ∀ v ∈ macros.values, Bracketless v) (hparts : ∀ p ∈ parts, Bracketless p.1 ∧ Bracketless p.2) :
    OnlyOwnPlaceholders macros (templateOf parts) := by
  intro replaced _ key hkey hfresh before after
  rw [pieces_templateOf hkeys hparts]
  induction parts generalizing before with
  | nil => exact fun h => absurd h (by simp [filled, placeholder])
  | cons p parts ih =>
    obtain ⟨text, name⟩ := p
    obtain ⟨⟨htext, -⟩, hopenName, hname⟩ := hparts _ List.mem_cons_self
    obtain ⟨w, hw, hcases⟩ := @filled_partPieces macros replaced hvalues (text, name)
    rw [List.flatMap_cons, filled_append, hw, List.append_assoc, List.append_assoc]
    intro h
    -- an occurrence in the text of the other parts
    have hlater : ∀ before', before = text ++ w ++ before' → filled macros replaced (parts.flatMap (partPieces macros)) =
        before' ++ placeholder key ++ after → ∃ ps qs, partPieces macros (text, name) ++
          parts.flatMap (partPieces macros) = ps ++ .hole key :: qs ∧ filled macros replaced ps = before := by
      intro before' hbefore hrest
      obtain ⟨ps, qs, hsplit, hfilled⟩ := ih (fun q hq => hparts q (List.mem_cons_of_mem _ hq)) before' hrest
      refine ⟨partPieces macros (text, name) ++ ps, qs, ?_, ?_⟩
      · rw [hsplit, List.append_assoc]
      · rw [filled_append, hw, hfilled, hbefore]
    obtain ⟨before₁, rfl, h₁⟩ := append_eq_append_cons htext h
    rcases hcases with ⟨⟨hopen, -⟩, -⟩ | ⟨rfl, hown⟩
    · obtain ⟨before₂, rfl, h₂⟩ := append_eq_append_cons hopen h₁
      exact hlater before₂ (List.append_assoc _ _ _).symm (by rw [h₂, List.append_assoc]; rfl)
    · cases before₁ with
      | nil =>
        have hcut : name ++ '\x7d' :: filled macros replaced (parts.flatMap (partPieces macros)) =
            key ++ '\x7d' :: after := by simpa [placeholder] using h₁
        obtain ⟨rfl, -⟩ := Str.append_cons_inj hname (hkeys key hkey).2 hcut
        refine ⟨text.map .char, parts.flatMap (partPieces macros), ?_, ?_⟩
        · rw [partPieces, if_pos hkey, List.append_assoc]
          rfl
        · rw [List.append_nil, filled, List.flatMap_map]
          exact List.flatMap_singleton' text
      | cons c before₂ =>
        obtain ⟨rfl, h₂⟩ := List.cons_eq_cons.mp h₁
        have hclosed : '\x7b' ∉ name ++ ['\x7d'] := by simp [hopenName]
        obtain ⟨before₃, rfl, h₃⟩ := append_eq_append_cons hclosed h₂
        exact hlater before₃ (by simp [placeholder]) (by rw [h₃, List.append_assoc]; rfl)

end Flat

/-- Two macros of a server. -/
def serverMacros : SortedMap Str Str := ((SortedMap.empty : SortedMap Str Str).insert "cluster" "c1").insert "shard" "01"

end Chbackup
