import Chbackup.Locks.Acquire

/-!
# Taking over a lock

Live processes take and drop one lock, each as often as it likes.  The lock file may have been
left behind by a process that died, or be unreadable.  Looking at a file and removing it are two
operations, and a file is removed by its name: a process that has judged the file that was left
behind removes whatever lies in its place by then, the lock of a live process included.
-/

namespace Chbackup

open CallTree Prog

/-- The file that lies in the place of the lock at first: none, that of a dead process, or one that
does not parse. -/
inductive LeftBehind where
  | absent
  | stale
  | corrupt
  deriving DecidableEq

/-- What a process knows of the lock: whether it holds it, the holder it has just read, and whether
it has just judged the file to be removable. -/
structure TakeoverMind where
  holds : Bool
  pending : Option Nat
  judged : Bool
  deriving DecidableEq

/-- What a process learns from an operation. -/
def TakeoverMind.learn (l : TakeoverMind) : LockEvent → TakeoverMind
  | ⟨.link _, (r : LinkReply)⟩ => ⟨l.holds || r = .created, none, false⟩
  | ⟨.read _, (r : Option LockContent)⟩ =>
    match r with
    | some (.held holder) => ⟨l.holds, some holder, false⟩
    | some .corrupt => ⟨l.holds, none, true⟩
    | none => ⟨l.holds, none, false⟩
  | ⟨.holderIsLive _, (r : Bool)⟩ => ⟨l.holds, none, !r⟩
  | ⟨.unlink _, _⟩ => ⟨false, none, false⟩
  | ⟨.readDir, _⟩ => ⟨l.holds, none, false⟩

/-- Live processes: thread `i` is process `i + 1`, and process 0 is dead. -/
def takeoverMachine : Machine LockCall LockCall.Reply LockDir TakeoverMind Empty where
  serve i := LockDir.serve (i + 1)
  learn := TakeoverMind.learn
  enabled i dir := i + 1 ∉ dir.dead
  move e := nomatch e

/-- Take and drop a lock a number of times; an attempt that fails is given up. -/
def lockUser (target : LockTarget) (rounds : Nat) : LockProg (List Unit) :=
  forEach (List.replicate rounds ()) fun _ =>
    (acquire target).attempt.bind fun (taken : Except LockError Unit) =>
      match taken with
      | .ok _ => release target
      | .error _ => .ret ()

/-- The threads of a takeover. -/
abbrev TakeoverThreads : Type :=
  Threads LockCall LockCall.Reply LockDir TakeoverMind LockError (List Unit)

/-- The files at first. -/
def LeftBehind.files (target : LockTarget) : LeftBehind → SortedMap Str LockContent
  | .absent => SortedMap.empty
  | .stale => SortedMap.empty.insert target.file (.held 0)
  | .corrupt => SortedMap.empty.insert target.file .corrupt

/-- Processes that take the lock once or more. -/
def takeoverStart (target : LockTarget) (left : LeftBehind) (rounds : List Nat) : TakeoverThreads where
  shared := ⟨left.files target, [0]⟩
  threads := rounds.map fun n => ⟨⟨false, none, false⟩, lockUser target (n + 1)⟩

/-- Thread `i` holds the lock. -/
def HoldsLock (s : TakeoverThreads) (i : Nat) : Prop :=
  ∃ t, s.threads[i]? = some t ∧ t.mind.holds = true

/-- Thread `i` is about to remove the lock file. -/
def RemovesLock (s : TakeoverThreads) (target : LockTarget) (i : Nat) : Prop :=
  ∃ l k, s.threads[i]? = some ⟨l, .call (.unlink target.file) k⟩

/-- In every state reached, at most one process holds the lock, and only a holder is about to
remove its file while there is one. -/
def NeverSteals (target : LockTarget) (left : LeftBehind) (rounds : List Nat) : Prop :=
  ∀ s, takeoverMachine.Reaches (fun _ _ _ => True) (takeoverStart target left rounds) s →
    (∀ i j, HoldsLock s i → HoldsLock s j → i = j) ∧
      ∀ i j, RemovesLock s target i → HoldsLock s j → i = j

/-! ## The discipline of `acquire` -/

/-- The operations a process may make. -/
def TakeoverMind.Permits (target : LockTarget) (l : TakeoverMind) : LockCall → Prop
  | .link t => t = target ∧ l.holds = false
  | .read file => file = target.file
  | .holderIsLive holder => l.pending = some holder
  | .unlink file => file = target.file ∧ (l.holds = true ∨ l.judged = true)
  | .readDir => False

section Obeys

variable {target : LockTarget} {l : TakeoverMind}

theorem obeys_inspectLockFile (hl : l.holds = false) :
    Obeys TakeoverMind.learn (TakeoverMind.Permits target)
      (fun l (r : Except LockError ExistingLock) => l.holds = false ∧
        ((r = .ok .stale ∨ r = .ok .unreadable) → l.judged = true)) l
      (inspectLockFile target.file) := by
  refine obeys_perform rfl fun content => ?_
  match content with
  | none => exact ⟨hl, fun h => by rcases h with h | h <;> cases h⟩
  | some .corrupt => exact ⟨hl, fun _ => rfl⟩
  | some (.held holder) =>
    refine obeys_perform rfl fun live => ?_
    cases live with
    | true => exact ⟨hl, fun h => by rcases h with h | h <;> cases h⟩
    | false => exact ⟨hl, fun _ => rfl⟩

theorem obeys_acquireLoop (attempts corruptReads : Nat) (hl : l.holds = false) :
    Obeys TakeoverMind.learn (TakeoverMind.Permits target)
      (fun l (r : Except LockError Unit) => l.holds = r.isOk) l
      (acquireLoop target attempts corruptReads) := by
  induction attempts generalizing l corruptReads with
  | zero => exact hl
  | succ attempts ih =>
    refine obeys_perform ⟨rfl, hl⟩ fun reply => ?_
    cases reply with
    | created => exact Bool.or_true _
    | failed e => simp [Obeys, TakeoverMind.learn, hl, Except.isOk, Except.toBool]
    | alreadyExists =>
      have hlearn : (l.learn ⟨.link target, LinkReply.alreadyExists⟩).holds = false := by
        simp [TakeoverMind.learn, hl]
      refine (obeys_inspectLockFile hlearn).bind (fun l' existing hexisting => ?_)
        fun l' e he => he.1
      obtain ⟨hl', hjudged⟩ := hexisting
      cases existing with
      | live holder => exact hl'
      | gone => exact ih _ hl'
      | stale => exact obeys_perform ⟨rfl, Or.inr (hjudged (Or.inl rfl))⟩ fun _ => ih _ rfl
      | unreadable =>
        rw [onExisting]
        split
        · exact ih _ hl'
        · exact obeys_perform ⟨rfl, Or.inr (hjudged (Or.inr rfl))⟩ fun _ => ih _ rfl

theorem obeys_lockUser (rounds : Nat) (hl : l.holds = false) :
    Obeys TakeoverMind.learn (TakeoverMind.Permits target) (fun l _ => l.holds = false) l
      (lockUser target rounds) := by
  refine obeys_forEach (fun _ _ l hl => ?_) hl
  refine (obeys_acquireLoop _ _ hl).attempt.bind (fun l' taken htaken => ?_) fun l' e he => ?_
  · obtain ⟨x, hx, hholds⟩ := htaken
    cases hx
    cases taken with
    | ok => exact obeys_perform ⟨rfl, Or.inl hholds⟩ fun _ => rfl
    | error e => exact hholds
  · obtain ⟨x, hx, -⟩ := he
    cases hx

end Obeys

/-! ## Without a file left behind -/

/-- The lock file is that of its holder, and nobody has reason to remove it. -/
structure OneHolder (target : LockTarget) (dir : LockDir) (ls : List TakeoverMind) : Prop where
  dead : dir.dead = [0]
  own : ∀ (i : Nat) (l : TakeoverMind), ls[i]? = some l → l.holds = true → dir.files.get? target.file = some (.held (i + 1))
  live : ∀ c, dir.files.get? target.file = some c → ∃ i, c = .held (i + 1)
  pending : ∀ (i : Nat) (l : TakeoverMind), ls[i]? = some l → ∀ holder, l.pending = some holder → holder ≠ 0
  judged : ∀ (i : Nat) (l : TakeoverMind), ls[i]? = some l → l.judged = false

namespace OneHolder

variable {target : LockTarget} {dir : LockDir} {ls : List TakeoverMind} {i : Nat} {l : TakeoverMind}

/-- An operation that leaves the files alone, and after which the process holds what it held. -/
theorem learn (h : OneHolder target dir ls) (hi : ls[i]? = some l) {x : TakeoverMind}
    (hholds : x.holds = l.holds) (hpending : ∀ holder, x.pending = some holder → holder ≠ 0)
    (hjudged : x.judged = false) : OneHolder target dir (ls.set i x) where
  dead := h.dead
  own := forall_getElem?_set (fun hx => h.own i l hi (hholds ▸ hx)) fun j l' _ => h.own j l'
  live := h.live
  pending := forall_getElem?_set hpending fun j l' _ => h.pending j l'
  judged := forall_getElem?_set hjudged fun j l' _ => h.judged j l'

theorem unique (h : OneHolder target dir ls) {j : Nat} {l' : TakeoverMind} (hi : ls[i]? = some l)
    (hj : ls[j]? = some l') (hl : l.holds = true) (hl' : l'.holds = true) : i = j := by
  have heq := (h.own i l hi hl).symm.trans (h.own j l' hj hl')
  simpa using heq

theorem call {c : LockCall} (h : OneHolder target dir ls) (hi : ls[i]? = some l)
    (hc : l.Permits target c) :
    OneHolder target (LockDir.serve (i + 1) c dir).2
      (ls.set i (l.learn ⟨c, (LockDir.serve (i + 1) c dir).1⟩)) := by
  cases c with
  | readDir => exact hc.elim
  | read file =>
    refine h.learn hi ?_ ?_ ?_
    · simp only [LockDir.serve, TakeoverMind.learn]
      split <;> rfl
    · intro holder hholder
      simp only [LockDir.serve, TakeoverMind.learn, show file = target.file from hc] at hholder
      split at hholder
      · rename_i q hread
        obtain ⟨j, hj⟩ := h.live _ hread
        cases hj
        cases hholder
        exact Nat.succ_ne_zero j
      · cases hholder
      · cases hholder
    · simp only [LockDir.serve, TakeoverMind.learn, show file = target.file from hc]
      split
      · rfl
      · rename_i hread
        obtain ⟨j, hj⟩ := h.live _ hread
        cases hj
      · rfl
  | holderIsLive holder =>
    refine h.learn hi rfl (fun _ hp => nomatch hp) ?_
    have hne := h.pending i l hi holder hc
    simp [LockDir.serve, TakeoverMind.learn, h.dead, hne]
  | link t =>
    obtain ⟨rfl, hl⟩ := hc
    unfold LockDir.serve
    dsimp only
    cases hfile : dir.files.get? t.file with
    | some c =>
      refine h.learn hi ?_ (fun _ hp => nomatch hp) rfl
      simp [TakeoverMind.learn, hl]
    | none =>
      -- nobody holds the lock, so the process is the only one that does now
      have hnone : ∀ (j : Nat) (l' : TakeoverMind), ls[j]? = some l' → l'.holds ≠ true := by
        intro j l' hj hl'
        have := h.own j l' hj hl'
        rw [hfile] at this
        cases this
      refine ⟨h.dead, ?_, ?_, ?_, ?_⟩
      · refine forall_getElem?_set (fun _ => by simp) fun j l' _ hj hl' => ?_
        exact absurd hl' (hnone j l' hj)
      · intro c hc
        exact ⟨i, by simpa using hc.symm⟩
      · exact forall_getElem?_set (fun _ hp => nomatch hp) fun j l' _ => h.pending j l'
      · exact forall_getElem?_set rfl fun j l' _ => h.judged j l'
  | unlink file =>
    obtain ⟨rfl, hown⟩ := hc
    have hl : l.holds = true := hown.resolve_right fun hj => by simp [h.judged i l hi] at hj
    refine ⟨h.dead, ?_, ?_, ?_, ?_⟩
    · refine forall_getElem?_set (fun hx => nomatch hx) fun j l' hne hj hl' => ?_
      exact absurd (h.unique hj hi hl' hl) hne
    · intro c hc
      simp [LockDir.serve] at hc
    · exact forall_getElem?_set (fun _ hp => nomatch hp) fun j l' _ => h.pending j l'
    · exact forall_getElem?_set rfl fun j l' _ => h.judged j l'

end OneHolder

theorem mem_takeoverStart {target : LockTarget} {left : LeftBehind} {rounds : List Nat}
    {t : Thread LockCall LockCall.Reply TakeoverMind LockError (List Unit)}
    (ht : t ∈ (takeoverStart target left rounds).threads) :
    t.mind = ⟨false, none, false⟩ ∧ ∃ n, t.rest = lockUser target n := by
  obtain ⟨n, -, rfl⟩ := List.mem_map.mp ht
  exact ⟨rfl, _, rfl⟩

/-- **Where nothing was left behind, no lock is stolen.** -/
theorem neverSteals_of_absent (target : LockTarget) (rounds : List Nat) :
    NeverSteals target .absent rounds := by
  intro s hs
  have hstart : ∀ (i : Nat) (l : TakeoverMind), (takeoverStart target .absent rounds).minds[i]? = some l →
      l = ⟨false, none, false⟩ := by
    intro i l hi
    obtain ⟨t, ht, rfl⟩ := List.mem_map.mp (List.mem_of_getElem? hi)
    exact (mem_takeoverStart ht).1
  obtain ⟨hinv, hobeys⟩ := hs.invariant (P := TakeoverMind.Permits target)
    (Q := fun l _ => l.holds = false) (I := OneHolder target)
    ⟨rfl, fun i l hi hl => by simp [hstart i l hi] at hl, fun c hc => (nomatch hc),
      fun i l hi holder hp => by simp [hstart i l hi] at hp, fun i l hi => by rw [hstart i l hi]⟩
    (fun t ht => by
      obtain ⟨hmind, n, hrest⟩ := mem_takeoverStart ht
      rw [hrest]
      exact obeys_lockUser n (by rw [hmind]))
    (fun i c l ls dir h hi hc _ _ => h.call hi hc) (fun e => nomatch e)
  have hminds : ∀ (i : Nat) t, s.threads[i]? = some t → s.minds[i]? = some t.mind := by
    intro i t ht
    rw [Threads.minds, List.getElem?_map, ht]
    rfl
  constructor
  · intro i j hi hj
    obtain ⟨t, ht, hl⟩ := hi
    obtain ⟨t', ht', hl'⟩ := hj
    exact hinv.unique (hminds i t ht) (hminds j t' ht') hl hl'
  · intro i j hi hj
    obtain ⟨l, k, ht⟩ := hi
    obtain ⟨t', ht', hl'⟩ := hj
    have hmind := hminds i _ ht
    have hpermits : l.Permits target (.unlink target.file) :=
      (hobeys _ (List.mem_of_getElem? ht)).1
    have hl : l.holds = true := hpermits.2.resolve_right fun hjudged => by
      simp [hinv.judged i l hmind] at hjudged
    exact hinv.unique hmind (hminds j t' ht') hl hl'

/-! ## With a file left behind -/

section Steals

variable {target : LockTarget} {s₀ s : TakeoverThreads} {i : Nat} {l : TakeoverMind}
  {K : Except LockError Unit → LockProg (List Unit)}

/-- The states that processes can reach. -/
abbrev Leads (s₀ s : TakeoverThreads) : Prop := takeoverMachine.Reaches (fun _ _ _ => True) s₀ s

/-- The thread is trying to take the lock. -/
abbrev Trying (target : LockTarget) (K : Except LockError Unit → LockProg (List Unit))
    (attempts corruptReads : Nat) : LockProg (List Unit) :=
  (acquireLoop target attempts corruptReads).attempt.bind K

/-- The thread is about to remove the file, after which it tries again. -/
abbrev Removing (target : LockTarget) (K : Except LockError Unit → LockProg (List Unit))
    (attempts corruptReads : Nat) : LockProg (List Unit) :=
  .call (.unlink target.file) fun _ => Trying target K attempts corruptReads

theorem enabled_of_dead (h : s.shared.dead = [0]) : takeoverMachine.enabled i s.shared = true := by
  simp [takeoverMachine, h]

/-- Nothing but thread `i` has moved. -/
def OnlyMoved (i : Nat) (s s' : TakeoverThreads) : Prop :=
  s'.shared.dead = s.shared.dead ∧ ∀ j, j ≠ i → s'.threads[j]? = s.threads[j]?

theorem OnlyMoved.trans {s s' s'' : TakeoverThreads} (h : OnlyMoved i s s')
    (h' : OnlyMoved i s' s'') : OnlyMoved i s s'' :=
  ⟨h'.1.trans h.1, fun j hj => (h'.2 j hj).trans (h.2 j hj)⟩

/-- A process finds the lock taken and reads the file. -/
theorem reads_lock {attempts corruptReads : Nat} {content : LockContent} (hr : Leads s₀ s)
    (hdead : s.shared.dead = [0]) (hfile : s.shared.files.get? target.file = some content)
    (hl : l.holds = false)
    (hi : s.threads[i]? = some ⟨l, Trying target K (attempts + 1) corruptReads⟩) :
    ∃ s' k, Leads s₀ s' ∧ OnlyMoved i s s' ∧ s'.shared = s.shared ∧
      inspectLockFile target.file = .call (.read target.file) k ∧
      s'.threads[i]? = some ⟨TakeoverMind.learn ⟨false, none, false⟩ ⟨.read target.file, some content⟩,
        ((k (some content)).bind (onExisting target corruptReads fun reads =>
          acquireLoop target attempts reads)).attempt.bind K⟩ := by
  obtain ⟨s₁, hr₁, hs₁, hi₁, hj₁⟩ := hr.call hi (enabled_of_dead hdead) trivial
    (show takeoverMachine.serve i (.link target) s.shared = (.alreadyExists, s.shared) by
      simp [takeoverMachine, LockDir.serve, hfile])
  obtain ⟨s₂, hr₂, hs₂, hi₂, hj₂⟩ := hr₁.call hi₁ (enabled_of_dead (by rw [hs₁, hdead])) trivial
    (show takeoverMachine.serve i (.read target.file) s₁.shared = (some content, s.shared) by
      simp [takeoverMachine, LockDir.serve, hs₁, hfile])
  refine ⟨s₂, _, hr₂, ⟨by rw [hs₂], fun j hj => (hj₂ j hj).trans (hj₁ j hj)⟩, hs₂, rfl, ?_⟩
  rw [hi₂]
  have hmind : takeoverMachine.learn l ⟨.link target, LinkReply.alreadyExists⟩ =
      ⟨false, none, false⟩ := by
    simp [takeoverMachine, TakeoverMind.learn, hl]
  rw [hmind]
  rfl

/-- A process judges the lock of a dead process to be removable. -/
theorem judges_stale (attempts : Nat) (hr : Leads s₀ s) (hdead : s.shared.dead = [0])
    (hfile : s.shared.files.get? target.file = some (.held 0)) (hl : l.holds = false)
    (hi : s.threads[i]? = some ⟨l, Trying target K (attempts + 1) 0⟩) :
    ∃ s' l', Leads s₀ s' ∧ OnlyMoved i s s' ∧ s'.shared = s.shared ∧
      s'.threads[i]? = some ⟨l', Removing target K attempts 0⟩ := by
  obtain ⟨s₁, k, hr₁, hm₁, hs₁, hk, hi₁⟩ := reads_lock hr hdead hfile hl hi
  cases hk
  obtain ⟨s₂, hr₂, hs₂, hi₂, hj₂⟩ := hr₁.call hi₁ (enabled_of_dead (by rw [hs₁, hdead])) trivial
    (show takeoverMachine.serve i (.holderIsLive 0) s₁.shared = (false, s.shared) by
      simp [takeoverMachine, LockDir.serve, hs₁, hdead])
  exact ⟨s₂, _, hr₂, hm₁.trans ⟨by rw [hs₂, hs₁], hj₂⟩, hs₂, hi₂⟩

/-- A process judges an unreadable lock to be removable, after reading it often enough. -/
theorem judges_corrupt (more attempts : Nat) {corruptReads : Nat} (hr : Leads s₀ s)
    (hdead : s.shared.dead = [0]) (hfile : s.shared.files.get? target.file = some .corrupt)
    (hl : l.holds = false) (hmore : corruptReads + more = corruptLockMaxReads)
    (hi : s.threads[i]? = some ⟨l, Trying target K (attempts + more + 1) corruptReads⟩) :
    ∃ s' l', Leads s₀ s' ∧ OnlyMoved i s s' ∧ s'.shared = s.shared ∧
      s'.threads[i]? = some ⟨l', Removing target K attempts corruptLockMaxReads⟩ := by
  induction more generalizing s l corruptReads with
  | zero =>
    obtain ⟨s₁, k, hr₁, hm₁, hs₁, hk, hi₁⟩ := reads_lock hr hdead hfile hl hi
    cases hk
    obtain rfl : corruptReads = corruptLockMaxReads := hmore
    exact ⟨s₁, _, hr₁, hm₁, hs₁, hi₁⟩
  | succ more ih =>
    obtain ⟨s₁, k, hr₁, hm₁, hs₁, hk, hi₁⟩ := reads_lock hr hdead hfile hl hi
    cases hk
    have hlt : corruptReads < corruptLockMaxReads := by omega
    have hagain : onExisting target corruptReads (fun reads =>
        acquireLoop target (attempts + more + 1) reads) .unreadable =
          acquireLoop target (attempts + more + 1) (corruptReads + 1) := if_pos hlt
    change s₁.threads[i]? = some ⟨_, ((onExisting target corruptReads (fun reads =>
      acquireLoop target (attempts + more + 1) reads) .unreadable).attempt.bind K)⟩ at hi₁
    rw [hagain] at hi₁
    obtain ⟨s₂, l', hr₂, hm₂, hs₂, hi₂⟩ := ih hr₁ (by rw [hs₁, hdead]) (by rw [hs₁, hfile]) rfl
      (by omega) hi₁
    exact ⟨s₂, l', hr₂, hm₁.trans hm₂, hs₂.trans hs₁, hi₂⟩

/-- A process that has made its judgement removes what lies there and takes the lock. -/
theorem takes_over {attempts corruptReads : Nat} (hr : Leads s₀ s) (hdead : s.shared.dead = [0])
    (hi : s.threads[i]? = some ⟨l, Removing target K (attempts + 1) corruptReads⟩) :
    ∃ s', Leads s₀ s' ∧ OnlyMoved i s s' ∧ HoldsLock s' i := by
  obtain ⟨s₁, hr₁, hs₁, hi₁, hj₁⟩ := hr.call hi (enabled_of_dead hdead) trivial rfl
  have hfree : s₁.shared.files.get? target.file = none := by
    rw [hs₁]
    exact (SortedMap.get?_erase _ _ _).trans (if_pos rfl)
  have hdead₁ : s₁.shared.dead = [0] := by
    rw [hs₁]
    exact hdead
  obtain ⟨s₂, hr₂, hs₂, hi₂, hj₂⟩ := hr₁.call hi₁ (enabled_of_dead hdead₁) trivial
    (show takeoverMachine.serve i (.link target) s₁.shared = (.created, { s₁.shared with
      files := s₁.shared.files.insert target.file (.held (i + 1)) }) by
      simp [takeoverMachine, LockDir.serve, hfree])
  refine ⟨s₂, hr₂, ⟨?_, fun j hj => (hj₂ j hj).trans (hj₁ j hj)⟩, _, hi₂, rfl⟩
  rw [hs₂, hdead, ← hdead₁]

/-- Any process can come to the point where it removes the file that was left behind. -/
theorem judges_left {left : LeftBehind} (hleft : left ≠ .absent) (hr : Leads s₀ s)
    (hshared : s.shared = ⟨left.files target, [0]⟩) (hl : l.holds = false)
    (hi : s.threads[i]? = some ⟨l, Trying target K acquireMaxAttempts 0⟩) :
    ∃ s' l' attempts corruptReads, Leads s₀ s' ∧ OnlyMoved i s s' ∧ s'.shared = s.shared ∧
      s'.threads[i]? = some ⟨l', Removing target K (attempts + 1) corruptReads⟩ := by
  have hdead : s.shared.dead = [0] := by rw [hshared]
  cases left with
  | absent => exact absurd rfl hleft
  | stale =>
    obtain ⟨s', l', hr', hm, hs, hi'⟩ := judges_stale 5 hr hdead
      (by rw [hshared]; simp [LeftBehind.files]) hl hi
    exact ⟨s', l', 4, 0, hr', hm, hs, hi'⟩
  | corrupt =>
    obtain ⟨s', l', hr', hm, hs, hi'⟩ := judges_corrupt 3 2 hr hdead
      (by rw [hshared]; simp [LeftBehind.files]) hl rfl hi
    exact ⟨s', l', 1, _, hr', hm, hs, hi'⟩

end Steals

/-- A process that takes the lock once or more begins by trying to take it. -/
theorem lockUser_succ (target : LockTarget) (n : Nat) :
    ∃ K, lockUser target (n + 1) = Trying target K acquireMaxAttempts 0 := by
  rw [lockUser, List.replicate_succ, forEach, bind_assoc]
  exact ⟨_, rfl⟩

/-- **Where a file was left behind, two processes can come to hold the lock.** -/
theorem steals_of_left {target : LockTarget} {left : LeftBehind} (hleft : left ≠ .absent)
    (n₀ n₁ : Nat) (rounds : List Nat) : ¬NeverSteals target left (n₀ :: n₁ :: rounds) := by
  intro h
  have hmoved : ∀ {i : Nat} {s s' : TakeoverThreads}, OnlyMoved i s s' → s.shared.dead = [0] →
      s'.shared.dead = [0] := fun hm hd => hm.1.trans hd
  have hr₀ : Leads (takeoverStart target left (n₀ :: n₁ :: rounds))
      (takeoverStart target left (n₀ :: n₁ :: rounds)) := .refl
  obtain ⟨K₀, hK₀⟩ := lockUser_succ target n₀
  obtain ⟨K₁, hK₁⟩ := lockUser_succ target n₁
  -- both look at the file that was left behind
  obtain ⟨s₁, l₁, a₁, c₁, hr₁, hm₁, hs₁, hi₁⟩ := judges_left (i := 0) (K := K₀) hleft hr₀ rfl rfl
    (by rw [← hK₀]; rfl)
  obtain ⟨s₂, l₂, a₂, c₂, hr₂, hm₂, hs₂, hi₂⟩ := judges_left (i := 1) (K := K₁) hleft hr₁ hs₁ rfl
    ((hm₁.2 1 (by decide)).trans (by rw [← hK₁]; rfl))
  -- then both take it over
  have hd₂ : s₂.shared.dead = [0] := hmoved hm₂ (hmoved hm₁ rfl)
  obtain ⟨s₃, hr₃, hm₃, hh₃⟩ := takes_over (i := 0) hr₂ hd₂ ((hm₂.2 0 (by decide)).trans hi₁)
  obtain ⟨s₄, hr₄, hm₄, hh₄⟩ := takes_over (i := 1) hr₃ (hmoved hm₃ hd₂)
    ((hm₃.2 1 (by decide)).trans hi₂)
  obtain ⟨t, ht, hholds⟩ := hh₃
  exact absurd ((h s₄ hr₄).1 0 1 ⟨t, (hm₄.2 0 (by decide)).trans ht, hholds⟩ hh₄) (by decide)

/-- The number of threads does not change. -/
theorem length_threads {s₀ s : TakeoverThreads} (h : Leads s₀ s) :
    s.threads.length = s₀.threads.length := by
  induction h with
  | refl => rfl
  | step a _ _ hs ih =>
    cases a with
    | inl i =>
      obtain ⟨l, c, k, -, -, rfl⟩ := Machine.step_inl_eq_some hs
      rw [List.length_set, ih]
    | inr e => exact nomatch e

/-- A lone process steals from nobody. -/
theorem neverSteals_of_lone {target : LockTarget} {left : LeftBehind} {rounds : List Nat}
    (h : rounds.length ≤ 1) : NeverSteals target left rounds := by
  intro s hs
  have hlength : s.threads.length ≤ 1 := by
    rw [length_threads hs]
    simpa [takeoverStart] using h
  have hzero : ∀ (i : Nat) t, s.threads[i]? = some t → i = 0 := by
    intro i t ht
    have hlt := (List.getElem?_eq_some_iff.mp ht).1
    omega
  constructor
  · intro i j hi hj
    obtain ⟨t, ht, -⟩ := hi
    obtain ⟨t', ht', -⟩ := hj
    rw [hzero i t ht, hzero j t' ht']
  · intro i j hi hj
    obtain ⟨l, k, ht⟩ := hi
    obtain ⟨t', ht', -⟩ := hj
    rw [hzero i _ ht, hzero j t' ht']

/-- **Exactly when no lock is stolen**: nothing was left behind, or there is one process. -/
theorem takeover_never_steals_iff (target : LockTarget) (left : LeftBehind) (rounds : List Nat) :
    NeverSteals target left rounds ↔ left = .absent ∨ rounds.length ≤ 1 := by
  constructor
  · intro h
    by_contra hne
    rw [not_or] at hne
    match rounds, hne, h with
    | [], hne, _ => exact hne.2 (Nat.zero_le 1)
    | [n], hne, _ => exact hne.2 (Nat.le_refl 1)
    | n₀ :: n₁ :: rounds, hne, h => exact steals_of_left hne.1 n₀ n₁ rounds h
  · intro h
    rcases h with rfl | h
    · exact neverSteals_of_absent target rounds
    · exact neverSteals_of_lone h

/-- **Two processes and the lock of a dead one**: both come to hold it. -/
theorem stale_lock_is_taken_twice : ¬NeverSteals .gate .stale [0, 0] :=
  steals_of_left (by decide) 0 0 []

end Chbackup
