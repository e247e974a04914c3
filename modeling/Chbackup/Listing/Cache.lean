import Chbackup.Lib.Threads
import Chbackup.Listing.Remote

/-!
# The cache of the remote listing

`list_remote_cached` (`src/list.rs`) answers from a cache that expires, and that the operations which change
the bucket invalidate at their ends.  The lock of the cache is not held while the bucket is listed.

* What the cache gives was listed before it was stored, and stored for less than the time to live
  (`cached_listing_young`).
* It was listed after the last invalidation, if nobody lists the bucket or holds a listing that is not stored
  yet when the cache is invalidated (`cached_listing_fresh`).  Otherwise the older listing is stored after the
  invalidation (`stale_listing`).
-/

namespace Chbackup

open CallTree Prog

/-! ## The source -/

/-- `ManifestCache`. -/
structure ManifestCache where
  summaries : Option (List BackupSummary)
  populatedAt : Option Nat
  ttl : Nat

namespace ManifestCache

/-- `new`. -/
def new (ttl : Nat) : ManifestCache := ⟨none, none, ttl⟩

variable (cache : ManifestCache)

/-- `get`, at a time. -/
def get (now : Nat) : Option (List BackupSummary) :=
  cache.populatedAt.bind fun populatedAt => if cache.ttl ≤ now - populatedAt then none else cache.summaries

/-- `set`, at a time. -/
def set (summaries : List BackupSummary) (now : Nat) : ManifestCache :=
  { cache with summaries := some summaries, populatedAt := some now }

/-- `invalidate`. -/
def invalidate : ManifestCache := { cache with summaries := none, populatedAt := none }

/-- `set_ttl`. -/
def setTtl (ttl : Nat) : ManifestCache := { cache with ttl := ttl }

variable {cache}

theorem get_eq_some {now : Nat} {l : List BackupSummary} (h : cache.get now = some l) :
    cache.summaries = some l ∧ ∃ p, cache.populatedAt = some p ∧ now - p < cache.ttl := by
  obtain ⟨p, hp, hl⟩ := Option.bind_eq_some_iff.mp h
  split_ifs at hl with hold
  exact ⟨hl, p, hp, Nat.lt_of_not_le hold⟩

end ManifestCache

/-- The calls of `list_remote_cached`: those on the cache hold its lock. -/
inductive CacheCall where
  | get
  | listRemote
  | set (summaries : List BackupSummary)

/-- The replies. -/
abbrev CacheCall.Reply : CacheCall → Type
  | .get => Option (List BackupSummary)
  | .listRemote => Except Str (List BackupSummary)
  | .set _ => Unit

/-- `list_remote_cached`. -/
def listRemoteCached : Prog CacheCall CacheCall.Reply Str (List BackupSummary) :=
  (perform CacheCall.get).bind fun (cached : Option (List BackupSummary)) =>
    match cached with
    | some cached => .ret cached
    | none =>
      (perform CacheCall.listRemote).bind fun (listed : Except Str (List BackupSummary)) =>
        match listed with
        | .error e => .fail e
        | .ok summaries => (perform (CacheCall.set summaries)).bind fun _ => .ret summaries

/-! ## Readers and operations -/

/-- A listing that was answered: what it showed, when, and how often the cache had been invalidated when its
reader looked for it there. -/
structure AnsweredListing where
  summaries : List BackupSummary
  clock : Nat
  invalidations : Nat

/-- The state that the readers share.  What a listing answers changes with the bucket. -/
structure CacheState where
  clock : Nat
  answer : Except Str (List BackupSummary)
  cache : ManifestCache
  -- No program reads these: how often the cache was invalidated, how often it had been when a reader looked
  -- into it, and the listings so far.
  invalidations : Nat
  looked : Nat → Nat
  answered : List AnsweredListing

/-- A reader looks into the cache. -/
def CacheState.look (s : CacheState) (i : Nat) : CacheState :=
  { s with looked := Function.update s.looked i s.invalidations }

/-- The listing of a reader is answered. -/
def CacheState.list (s : CacheState) (i : Nat) : CacheState :=
  match s.answer with
  | .ok summaries => { s with answered := ⟨summaries, s.clock, s.looked i⟩ :: s.answered }
  | .error _ => s

/-- What happens beside the readers: time passes, operations change the bucket and invalidate the cache, and
the configuration is reloaded. -/
inductive CacheMove where
  | elapse (time : Nat)
  | change (answer : Except Str (List BackupSummary))
  | invalidate
  | setTtl (ttl : Nat)

/-- What a reader is doing: it lists the bucket, or holds a listing that is not stored yet. -/
inductive Reading where
  | idle
  | listing
  | holds (summaries : List BackupSummary)

/-- The readers of a cache. -/
def cacheMachine : Machine CacheCall CacheCall.Reply CacheState Reading CacheMove where
  serve i
    | .get, s => (s.cache.get s.clock, s.look i)
    | .listRemote, s => (s.answer, s.list i)
    | .set summaries, s => ((), { s with cache := s.cache.set summaries s.clock })
  learn _
    | ⟨.get, cached⟩ => cached.elim .listing fun _ => .idle
    | ⟨.listRemote, listed⟩ => listed.toOption.elim .idle .holds
    | ⟨.set _, _⟩ => .idle
  enabled _ _ := true
  move
    | .elapse time, s, _ => some { s with clock := s.clock + time }
    | .change answer, s, _ => some { s with answer := answer }
    | .invalidate, s, _ => some { s with cache := s.cache.invalidate, invalidations := s.invalidations + 1 }
    | .setTtl ttl, s, _ => some { s with cache := s.cache.setTtl ttl }

/-- Readers of a cache, with what they are doing. -/
abbrev Readers : Type := Threads CacheCall CacheCall.Reply CacheState Reading Str (List BackupSummary)

/-- Readers that have not begun, and an empty cache. -/
def readers (n clock ttl : Nat) (answer : Except Str (List BackupSummary)) : Readers where
  shared := ⟨clock, answer, .new ttl, 0, fun _ => 0, []⟩
  threads := List.replicate n ⟨.idle, listRemoteCached⟩

/-- The cache is invalidated only while nobody lists the bucket or holds a listing. -/
def Quiet : CacheState → List Reading → Nat ⊕ CacheMove → Prop
  | _, minds, .inr .invalidate => ∀ reading ∈ minds, reading = .idle
  | _, _, _ => True

/-! ## What the cache gives -/

section Cache

variable {q : Prop} {s s' : CacheState} {l : List BackupSummary} {minds : List Reading} {m m' i : Nat}

/-- The listing was answered by some time, and if `q`, its reader began after the last invalidation. -/
def AnsweredBy (q : Prop) (s : CacheState) (l : List BackupSummary) (m : Nat) : Prop :=
  ∃ a ∈ s.answered, a.summaries = l ∧ a.clock ≤ m ∧ (q → a.invalidations = s.invalidations)

/-- What is stored, or will be, was answered. -/
structure CacheInvariant (q : Prop) (s : CacheState) (minds : List Reading) : Prop where
  stored : ∀ l p, s.cache.summaries = some l → s.cache.populatedAt = some p → p ≤ s.clock ∧ AnsweredBy q s l p
  held : ∀ (i : Nat) l, minds[i]? = some (.holds l) → AnsweredBy q s l s.clock
  listing : ∀ i : Nat, minds[i]? = some .listing → q → s.looked i = s.invalidations

theorem AnsweredBy.later (h : AnsweredBy q s l m) (hm : m ≤ m') : AnsweredBy q s l m' := by
  obtain ⟨a, ha, hl, hclock, hq⟩ := h
  exact ⟨a, ha, hl, Nat.le_trans hclock hm, hq⟩

/-- A listing does not change what was answered before. -/
theorem AnsweredBy.list (h : AnsweredBy q s l m) (i : Nat) : AnsweredBy q (s.list i) l m := by
  obtain ⟨a, ha, hl, hclock, hq⟩ := h
  unfold CacheState.list
  cases s.answer with
  | error e => exact ⟨a, ha, hl, hclock, hq⟩
  | ok summaries => exact ⟨a, List.mem_cons_of_mem _ ha, hl, hclock, hq⟩

theorem answeredBy_list (h : s.answer = .ok l) (hlooked : q → s.looked i = s.invalidations) :
    AnsweredBy q (s.list i) l s.clock := by
  unfold CacheState.list
  rw [h]
  exact ⟨_, List.mem_cons_self, rfl, Nat.le_refl _, hlooked⟩

/-- What a listing leaves as it is. -/
theorem list_frame (s : CacheState) (i : Nat) :
    (s.list i).clock = s.clock ∧ (s.list i).cache = s.cache ∧ (s.list i).looked = s.looked ∧
      (s.list i).invalidations = s.invalidations := by
  unfold CacheState.list
  cases s.answer with
  | error e => exact ⟨rfl, rfl, rfl, rfl⟩
  | ok summaries => exact ⟨rfl, rfl, rfl, rfl⟩

/-- A reader lists the bucket after it has looked, and stores what it holds. -/
def InTurn (reading : Reading) : CacheCall → Prop
  | .get => True
  | .listRemote => reading = .listing
  | .set summaries => reading = .holds summaries

theorem listRemoteCached_obeys : Obeys cacheMachine.learn InTurn (fun _ _ => True) .idle listRemoteCached := by
  refine obeys_perform trivial fun cached => ?_
  cases cached with
  | some cached => trivial
  | none =>
    refine obeys_perform rfl fun listed => ?_
    cases listed with
    | error e => trivial
    | ok summaries => exact obeys_perform rfl fun _ => trivial

theorem CacheInvariant.get (h : CacheInvariant q s minds) (i : Nat) (cached : Option (List BackupSummary)) :
    CacheInvariant q (s.look i) (minds.set i (cached.elim .listing fun _ => .idle)) := by
  refine ⟨h.stored, fun j l hj => ?_, fun j hj hq => ?_⟩
  · rcases getElem?_set_cases hj with ⟨-, hnew⟩ | ⟨-, hj⟩
    · cases cached with
      | none => cases hnew
      | some l => cases hnew
    · exact h.held j l hj
  · show Function.update s.looked i s.invalidations j = s.invalidations
    rcases getElem?_set_cases hj with ⟨rfl, -⟩ | ⟨hne, hj⟩
    · exact Function.update_self _ _ _
    · rw [Function.update_of_ne hne]
      exact h.listing j hj hq

theorem CacheInvariant.listRemote (h : CacheInvariant q s minds) (hi : minds[i]? = some .listing) :
    CacheInvariant q (s.list i) (minds.set i (s.answer.toOption.elim .idle .holds)) := by
  obtain ⟨hclock, hcache, hlooked, hinvalidations⟩ := list_frame s i
  refine ⟨fun l p hl hp => ?_, fun j l hj => ?_, fun j hj hq => ?_⟩
  · rw [hcache] at hl hp
    rw [hclock]
    exact ⟨(h.stored l p hl hp).1, (h.stored l p hl hp).2.list i⟩
  · rw [hclock]
    rcases getElem?_set_cases hj with ⟨-, hnew⟩ | ⟨-, hj⟩
    · cases hanswer : s.answer with
      | error e =>
        rw [hanswer] at hnew
        cases hnew
      | ok summaries =>
        rw [hanswer] at hnew
        cases hnew
        exact answeredBy_list hanswer (h.listing i hi)
    · exact (h.held j l hj).list i
  · rw [hlooked, hinvalidations]
    rcases getElem?_set_cases hj with ⟨-, hnew⟩ | ⟨-, hj⟩
    · cases hanswer : s.answer with
      | error e =>
        rw [hanswer] at hnew
        cases hnew
      | ok summaries =>
        rw [hanswer] at hnew
        cases hnew
    · exact h.listing j hj hq

theorem CacheInvariant.set (h : CacheInvariant q s minds) {summaries : List BackupSummary}
    (hi : minds[i]? = some (.holds summaries)) :
    CacheInvariant q { s with cache := s.cache.set summaries s.clock } (minds.set i .idle) := by
  refine ⟨fun l p hl hp => ?_, fun j l hj => ?_, fun j hj hq => ?_⟩
  · cases hl
    cases hp
    exact ⟨Nat.le_refl _, h.held i summaries hi⟩
  · rcases getElem?_set_cases hj with ⟨-, hnew⟩ | ⟨-, hj⟩
    · cases hnew
    · exact h.held j l hj
  · rcases getElem?_set_cases hj with ⟨-, hnew⟩ | ⟨-, hj⟩
    · cases hnew
    · exact h.listing j hj hq

theorem CacheInvariant.serve (h : CacheInvariant q s minds) {reading : Reading} (hi : minds[i]? = some reading)
    {c : CacheCall} (hc : InTurn reading c) :
    CacheInvariant q (cacheMachine.serve i c s).2
      (minds.set i (cacheMachine.learn reading ⟨c, (cacheMachine.serve i c s).1⟩)) := by
  cases c with
  | get => exact h.get i _
  | listRemote =>
    obtain rfl : reading = .listing := hc
    exact h.listRemote hi
  | set summaries =>
    obtain rfl : reading = .holds summaries := hc
    exact h.set hi

theorem CacheInvariant.move (h : CacheInvariant q s minds) {e : CacheMove}
    (hquiet : q → Quiet s minds (.inr e)) (hs' : cacheMachine.move e s minds = some s') :
    CacheInvariant q s' minds := by
  cases e with
  | elapse time =>
    cases hs'
    refine ⟨fun l p hl hp => ?_, fun i l hi => (h.held i l hi).later (Nat.le_add_right _ _), h.listing⟩
    exact ⟨Nat.le_trans (h.stored l p hl hp).1 (Nat.le_add_right _ _), (h.stored l p hl hp).2⟩
  | change answer =>
    cases hs'
    exact ⟨h.stored, h.held, h.listing⟩
  | setTtl ttl =>
    cases hs'
    exact ⟨h.stored, h.held, h.listing⟩
  | invalidate =>
    cases hs'
    -- Nobody lists the bucket or holds a listing now.
    refine ⟨fun l p hl => ?_, fun i l hi => ?_, fun i hi hq => ?_⟩
    · cases hl
    · obtain ⟨a, ha, hl, hclock, -⟩ := h.held i l hi
      refine ⟨a, ha, hl, hclock, fun hq => ?_⟩
      cases hquiet hq _ (List.mem_of_getElem? hi)
    · cases hquiet hq _ (List.mem_of_getElem? hi)

/-- The invariant holds in every state that the readers come to. -/
theorem cacheInvariant_of_reaches {ok : CacheState → List Reading → Nat ⊕ CacheMove → Prop} {n clock ttl : Nat}
    {answer : Except Str (List BackupSummary)} {t : Readers}
    (hok : ∀ s minds a, ok s minds a → q → Quiet s minds a)
    (hr : cacheMachine.Reaches ok (readers n clock ttl answer) t) : CacheInvariant q t.shared t.minds := by
  have hidle : ∀ (i : Nat) reading, (readers n clock ttl answer).minds[i]? = some reading → reading = .idle := by
    intro i reading hi
    have hmem := List.mem_of_getElem? hi
    rw [Threads.minds, readers, List.map_replicate] at hmem
    exact (List.mem_replicate.mp hmem).2
  have hstart : CacheInvariant q (readers n clock ttl answer).shared (readers n clock ttl answer).minds := by
    refine ⟨fun l p hl => ?_, fun i l hi => ?_, fun i hi => ?_⟩
    · cases hl
    · cases hidle i _ hi
    · cases hidle i _ hi
  refine (hr.invariant (P := InTurn) (Q := fun _ _ => True) hstart ?_ ?_ ?_).1
  · intro reader hreader
    obtain ⟨-, rfl⟩ := List.mem_replicate.mp hreader
    exact listRemoteCached_obeys
  · intro i c reading minds s h hi hc _ _
    exact h.serve hi hc
  · intro e minds s s' h hallowed hs'
    exact h.move (hok _ _ _ hallowed) hs'

theorem answeredBy_of_get (h : CacheInvariant q s minds) (hget : s.cache.get s.clock = some l) :
    ∃ p, s.cache.populatedAt = some p ∧ p ≤ s.clock ∧ s.clock < p + s.cache.ttl ∧ AnsweredBy q s l p := by
  obtain ⟨hl, p, hp, hage⟩ := ManifestCache.get_eq_some hget
  obtain ⟨hle, hanswered⟩ := h.stored l p hl hp
  exact ⟨p, hp, hle, by omega, hanswered⟩

/-- **What the cache gives is young.**  In every state that readers and operations come to, it was listed
before it was stored, and it was stored for less than the time to live. -/
theorem cached_listing_young {n clock ttl : Nat} {answer : Except Str (List BackupSummary)} {t : Readers}
    {l : List BackupSummary} (hr : cacheMachine.Reaches (fun _ _ _ => True) (readers n clock ttl answer) t)
    (hget : t.shared.cache.get t.shared.clock = some l) :
    ∃ p, t.shared.cache.populatedAt = some p ∧ p ≤ t.shared.clock ∧ t.shared.clock < p + t.shared.cache.ttl ∧
      ∃ a ∈ t.shared.answered, a.summaries = l ∧ a.clock ≤ p := by
  obtain ⟨p, hp, hle, hage, a, ha, hl, hclock, -⟩ :=
    answeredBy_of_get (cacheInvariant_of_reaches (q := False) (fun _ _ _ _ hq => hq.elim) hr) hget
  exact ⟨p, hp, hle, hage, a, ha, hl, hclock⟩

/-- **What the cache gives was listed after the last invalidation**, if nobody was listing the bucket or held
a listing whenever the cache was invalidated: its reader looked into the cache after that. -/
theorem cached_listing_fresh {n clock ttl : Nat} {answer : Except Str (List BackupSummary)} {t : Readers}
    {l : List BackupSummary} (hr : cacheMachine.Reaches Quiet (readers n clock ttl answer) t)
    (hget : t.shared.cache.get t.shared.clock = some l) :
    ∃ p, t.shared.cache.populatedAt = some p ∧ p ≤ t.shared.clock ∧ t.shared.clock < p + t.shared.cache.ttl ∧
      ∃ a ∈ t.shared.answered, a.summaries = l ∧ a.clock ≤ p ∧ a.invalidations = t.shared.invalidations := by
  obtain ⟨p, hp, hle, hage, a, ha, hl, hclock, hq⟩ :=
    answeredBy_of_get (cacheInvariant_of_reaches (q := True) (fun _ _ _ hquiet _ => hquiet) hr) hget
  exact ⟨p, hp, hle, hage, a, ha, hl, hclock, hq trivial⟩

/-! ## Two runs -/

/-- The cache after an invalidation and a listing. -/
def calm : Readers where
  shared := ⟨5, .ok [], ⟨some [], some 5, 10⟩, 1, Function.update (fun _ => 0) 0 1, [⟨[], 0, 1⟩]⟩
  threads := [⟨.idle, .ret []⟩]

theorem calm_reaches : cacheMachine.Reaches Quiet (readers 1 0 10 (.ok [])) calm := by
  refine .step (.inl 0) (.step (.inr (.elapse 5)) (.step (.inl 0) (.step (.inl 0)
    (.step (.inr .invalidate) .refl ?_ rfl) trivial rfl) trivial rfl) trivial rfl) trivial rfl
  intro reading hreading
  cases hreading with
  | head => rfl
  | tail _ h => cases h

/-- The cache gives the listing. -/
theorem calm_fresh : ∃ p, some 5 = some p ∧ p ≤ 5 ∧ 5 < p + 10 ∧
    ∃ a ∈ calm.shared.answered, a.summaries = [] ∧ a.clock ≤ p ∧ a.invalidations = 1 :=
  cached_listing_fresh calm_reaches rfl

/-- A backup is uploaded, and the cache is invalidated, while a reader holds the listing without it. -/
def staleSteps : List (Nat ⊕ CacheMove) :=
  [.inl 0, .inl 0, .inr (.change (.ok [brokenSummary "b" "r"])), .inr .invalidate, .inl 0]

/-- **A cache that is older than its invalidation.** -/
theorem stale_listing :
    ∃ t, cacheMachine.Reaches (fun _ _ _ => True) (readers 1 0 10 (.ok [])) t ∧
      t.shared.cache.get t.shared.clock = some [] ∧ t.shared.answer = .ok [brokenSummary "b" "r"] ∧
        t.shared.invalidations = 1 ∧ ∀ a ∈ t.shared.answered, a.invalidations = 0 := by
  have hrun : cacheMachine.run staleSteps (readers 1 0 10 (.ok [])) = some
      ⟨⟨0, .ok [brokenSummary "b" "r"], ⟨some [], some 0, 10⟩, 1, Function.update (fun _ => 0) 0 0, [⟨[], 0, 0⟩]⟩,
        [⟨.idle, .ret []⟩]⟩ := rfl
  refine ⟨_, Machine.reaches_of_run .refl (fun _ _ _ _ => trivial) hrun, rfl, rfl, rfl, ?_⟩
  intro a ha
  cases ha with
  | head => rfl
  | tail _ h => cases h

end Cache

end Chbackup
