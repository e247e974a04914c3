import Chbackup.Deferred.Orderly

/-!
# Every deferred freeze stays discoverable

As long as a table is held, it is listed in the record of its backup, and the record says when it was
frozen and for how long.  This holds after every call of every thread, whatever fails and whenever
threads are stopped, also while uploads go on that have lost their locks: what a thread writes lists
everything that it cannot rule out to be frozen, and tables are only ever released.

The exception is a new freeze under an old name.  What a thread has read before is then no longer true,
so nobody may be at work on a backup without a lock that covers it while the backup is created
(`onlyLockedWork`).
-/

namespace Chbackup

open CallTree Prog

/-- Every table that is held is listed in the record of its backup, and every record has the terms of
its publication. -/
structure DeferredWorld.Discoverable (w : DeferredWorld) : Prop where
  listed : ∀ b info, (b, info) ∈ w.held →
    ∃ r, w.backups.get? b = some (.holds r) ∧ r.backupName = b ∧ info ∈ r.retained
  dated : ∀ b r, w.backups.get? b = some (.holds r) → w.terms.get? b = some r.terms

/-- What a thread knows is so. -/
structure DeferredWorld.Confirms (w : DeferredWorld) (c : Custody) : Prop where
  remaining : ∀ info, (c.backup, info) ∈ w.held → info ∈ c.remaining
  terms : ∀ t, c.terms = some t → w.terms.get? c.backup = some t

/-- While a backup is created, nobody is at work on it without a lock that covers it. -/
def onlyLockedWork (w : DeferredWorld) (ls : List DeferredMind) : Nat ⊕ DeferredMove → Bool
  | .inl i =>
    ls[i]?.all fun l => l.creating.all fun b =>
      ls.zipIdx.all fun x => x.2 = i || w.isOver x.2 x.1.me || x.1.custody.all (·.backup ≠ b) ||
        w.locks.any fun y => y.2 = x.2 && y.1.covers b
  | .inr _ => true

/-- The freezes are discoverable, and what the threads know is so. -/
structure Listed (ts : List DeferredThread) (w : DeferredWorld) (ls : List DeferredMind) : Prop
    extends Orderly ts w ls, w.Discoverable where
  knows : ∀ (j : Nat) (l : DeferredMind) (c : Custody), ls[j]? = some l → w.isOver j l.me = false →
    l.custody = some c → w.Confirms c

section Calls

variable {w w' : DeferredWorld} {i : Nat} {l : DeferredMind} {b : Str} {c : Custody}

theorem DeferredWorld.Confirms.mono (h : w.Confirms c) (hheld : w'.held ⊆ w.held)
    (hterms : w'.terms = w.terms) : w'.Confirms c where
  remaining info hinfo := h.remaining info (hheld hinfo)
  terms t ht := by
    rw [hterms]
    exact h.terms t ht

/-- Only a first record adds to what is held. -/
theorem DeferredWorld.held_serve {c : DeferredCall} (hc : ∀ b r, c ≠ .publish true b r) :
    (serve i c w).2.held ⊆ w.held ∧ (serve i c w).2.terms = w.terms := by
  have hself : w.held ⊆ w.held ∧ w.terms = w.terms := ⟨fun _ h => h, rfl⟩
  have hreleased : ∀ info, (w.released info).held ⊆ w.held ∧ (w.released info).terms = w.terms :=
    fun info => ⟨List.filter_sublist.subset, rfl⟩
  cases c with
  | publish first b r =>
    cases first with
    | true => exact absurd rfl (hc b r)
    | false =>
      rw [serve]
      split_ifs
      · exact hself
      · exact hself
  | removeRecord b =>
    rw [serve]
    split_ifs
    · exact hself
    · exact hself
  | unfreeze b info =>
    rw [serve]
    cases w.fault with
    | none => exact hreleased info
    | refused => exact hself
    | lost => exact hreleased info
  | createDir b =>
    rw [serve]
    split_ifs
    · exact hself
    · exact hself
  | removeDir b =>
    rw [serve]
    split_ifs
    · exact hself
    · cases w.fault with
      | none => exact hself
      | refused => exact hself
      | lost => exact hself
  | acquire command scope =>
    rw [serve]
    split_ifs
    · exact hself
    · exact hself
  | _ => exact hself

theorem DeferredWorld.Discoverable.notHeld (h : w.Discoverable)
    (hfile : ∀ r, w.backups.get? b ≠ some (.holds r)) (info : FreezeInfo) : (b, info) ∉ w.held := by
  intro hinfo
  obtain ⟨r, hr, -⟩ := h.listed b info hinfo
  exact hfile r hr

/-- Nothing is held of a backup without a record. -/
theorem DeferredWorld.Discoverable.confirms_absent (h : w.Discoverable)
    (hfile : ∀ r, w.backups.get? b ≠ some (.holds r)) : w.Confirms ⟨b, [], none⟩ where
  remaining info hinfo := absurd hinfo (h.notHeld hfile info)
  terms t ht := by cases ht

/-- A record lists all that is held. -/
theorem DeferredWorld.Discoverable.confirms_record (h : w.Discoverable) {r : DeferredFreezeRecord}
    (hr : w.backups.get? b = some (.holds r)) : w.Confirms ⟨b, r.retained, some r.terms⟩ where
  remaining info hinfo := by
    obtain ⟨r', hr', -, hmem⟩ := h.listed b info hinfo
    rw [hr] at hr'
    cases hr'
    exact hmem
  terms t ht := by
    cases ht
    exact h.dated b r hr

/-- A file takes the place of another that lists nothing more that is held. -/
theorem DeferredWorld.Discoverable.replace (h : w.Discoverable) (hheld : w'.held ⊆ w.held)
    (hterms : w'.terms = w.terms)
    (hother : ∀ b', b' ≠ b → w'.backups.get? b' = w.backups.get? b')
    (hlisted : ∀ info, (b, info) ∈ w.held →
      ∃ r, w'.backups.get? b = some (.holds r) ∧ r.backupName = b ∧ info ∈ r.retained)
    (hdated : ∀ r, w'.backups.get? b = some (.holds r) → w.terms.get? b = some r.terms) :
    w'.Discoverable where
  listed b' info hinfo := by
    by_cases hb : b' = b
    · subst hb
      exact hlisted info (hheld hinfo)
    · rw [hother b' hb]
      exact h.listed b' info (hheld hinfo)
  dated b' r hr := by
    rw [hterms]
    by_cases hb : b' = b
    · subst hb
      exact hdated r hr
    · rw [hother b' hb] at hr
      exact h.dated b' r hr

/-- Where nothing is held, the record may go. -/
theorem DeferredWorld.Discoverable.vacate (h : w.Discoverable) (hheld : w'.held = w.held)
    (hterms : w'.terms = w.terms) (hother : ∀ b', b' ≠ b → w'.backups.get? b' = w.backups.get? b')
    (hnone : ∀ info, (b, info) ∉ w.held) (hfile : ∀ r, w'.backups.get? b ≠ some (.holds r)) :
    w'.Discoverable :=
  h.replace (b := b) (fun _ hx => hheld ▸ hx) hterms hother (fun info hinfo => absurd hinfo (hnone info))
    fun r hr => absurd hr (hfile r)

theorem get?_insert_ne {m : SortedMap Str (StateFile DeferredFreezeRecord)} {b' : Str}
    {x : StateFile DeferredFreezeRecord} (hb : b' ≠ b) : (m.insert b x).get? b' = m.get? b' := by
  rw [SortedMap.get?_insert, if_neg hb]

/-- A first record lists all that is held of its backup. -/
theorem DeferredWorld.Discoverable.write_first (h : w.Discoverable) {r : DeferredFreezeRecord}
    (hname : r.backupName = b) : (w.write true b r).Discoverable where
  listed b' info hinfo := by
    rcases List.mem_append.mp hinfo with hinfo | hinfo
    · obtain ⟨hinfo, hne⟩ := List.mem_filter.mp hinfo
      obtain ⟨r', hr', hname', hmem⟩ := h.listed b' info hinfo
      refine ⟨r', ?_, hname', hmem⟩
      exact (get?_insert_ne (of_decide_eq_true hne)).trans hr'
    · obtain ⟨info', hmem, heq⟩ := List.mem_map.mp hinfo
      cases heq
      exact ⟨r, by simp [write], hname, hmem⟩
  dated b' r' hr' := by
    simp only [write, SortedMap.get?_insert] at hr'
    simp only [write, if_true, SortedMap.get?_insert]
    split_ifs at hr' ⊢ with hb
    · cases hr'
      rfl
    · exact h.dated b' r' hr'

theorem DeferredWorld.confirms_write_first {r : DeferredFreezeRecord} :
    (w.write true b r).Confirms ⟨b, r.retained, some r.terms⟩ where
  remaining info hinfo := by
    rcases List.mem_append.mp hinfo with hinfo | hinfo
    · exact absurd rfl (of_decide_eq_true (List.mem_filter.mp hinfo).2)
    · obtain ⟨info', hmem, heq⟩ := List.mem_map.mp hinfo
      cases heq
      exact hmem
  terms t ht := by
    cases ht
    simp [write]

/-- What is known of another backup stays so. -/
theorem DeferredWorld.Confirms.write_first (h : w.Confirms c) (hne : c.backup ≠ b)
    {r : DeferredFreezeRecord} : (w.write true b r).Confirms c where
  remaining info hinfo := by
    rcases List.mem_append.mp hinfo with hinfo | hinfo
    · exact h.remaining info (List.mem_filter.mp hinfo).1
    · obtain ⟨info', -, heq⟩ := List.mem_map.mp hinfo
      exact absurd (Prod.ext_iff.mp heq).1.symm hne
  terms t ht := by
    simp only [write, if_true, SortedMap.get?_insert, if_neg hne]
    exact h.terms t ht

/-- Releasing a table leaves what is held of the others. -/
theorem DeferredWorld.Confirms.released (h : w.Confirms c) (info : FreezeInfo) :
    (w.released info).Confirms { c with remaining := c.remaining.filter (· ≠ info) } where
  remaining info' hinfo := by
    obtain ⟨hinfo, hne⟩ := List.mem_filter.mp hinfo
    exact List.mem_filter.mpr ⟨h.remaining info' hinfo, hne⟩
  terms := h.terms

/-- The freezes stay discoverable in a call of a thread that knows what is so. -/
theorem DeferredWorld.Discoverable.serve (h : w.Discoverable) {call : DeferredCall} (hduty : l.Duty call)
    (hknows : ∀ c, l.custody = some c → w.Confirms c) : (serve i call w).2.Discoverable := by
  have hnone : ∀ {b t}, l.custody = some ⟨b, [], t⟩ → ∀ info, (b, info) ∉ w.held :=
    fun hc info hinfo => absurd ((hknows _ hc).remaining info hinfo) List.not_mem_nil
  have hreleased : ∀ info, (w.released info).Discoverable :=
    fun info => ⟨fun b info' hinfo => h.listed b info' (List.mem_filter.mp hinfo).1, h.dated⟩
  cases call with
  | publish first b r =>
    rw [DeferredWorld.serve]
    split_ifs
    · cases first with
      | true => exact h.write_first hduty.2.2.1
      | false =>
        obtain ⟨-, hname, remaining, hc, hsub⟩ := hduty
        have hconfirms := hknows _ hc
        show (w.write false b r).Discoverable
        refine h.replace (b := b) (fun _ hx => hx) rfl (fun b' hb => get?_insert_ne hb)
          (fun info hinfo => ⟨r, ?_, hname, hsub (hconfirms.remaining info hinfo)⟩) fun r' hr' => ?_
        · simp [write]
        · simp only [write, SortedMap.get?_insert, if_pos] at hr'
          cases hr'
          exact hconfirms.terms _ rfl
    · exact h
  | removeRecord b =>
    rw [DeferredWorld.serve]
    split_ifs
    · obtain ⟨t, hc⟩ := hduty
      refine h.vacate (b := b) rfl rfl (fun b' hb => get?_insert_ne hb) (hnone hc) fun r hr => ?_
      simp at hr
    · exact h
  | unfreeze b info =>
    rw [DeferredWorld.serve]
    cases w.fault with
    | none => exact hreleased info
    | refused => exact h
    | lost => exact hreleased info
  | createDir b =>
    rw [DeferredWorld.serve]
    split_ifs with hdir
    · refine h.vacate (b := b) rfl rfl (fun b' hb => get?_insert_ne hb) (h.notHeld fun r hr => ?_) fun r hr => ?_
      · rw [hdir.2] at hr
        cases hr
      · simp at hr
    · exact h
  | removeDir b =>
    obtain ⟨t, hc⟩ := hduty
    rw [DeferredWorld.serve]
    split_ifs
    · exact h
    · cases w.fault with
      | none =>
        refine h.vacate (b := b) rfl rfl (fun b' hb => ?_) (hnone hc) fun r hr => ?_
        · simp [hb]
        · simp at hr
      | refused => exact h
      | lost =>
        refine h.vacate (b := b) rfl rfl (fun b' hb => get?_insert_ne hb) (hnone hc) fun r hr => ?_
        simp at hr
  | acquire command scope =>
    rw [DeferredWorld.serve]
    split_ifs
    · exact ⟨h.listed, h.dated⟩
    · exact h
  | release scope => exact ⟨h.listed, h.dated⟩
  | _ => exact h

/-- What a thread learns is so. -/
theorem DeferredWorld.Discoverable.learn (h : w.Discoverable) {call : DeferredCall} (hduty : l.Duty call)
    (hknows : ∀ c, l.custody = some c → w.Confirms c)
    (hc : (l.learn ⟨call, (DeferredWorld.serve i call w).1⟩).custody = some c) :
    (DeferredWorld.serve i call w).2.Confirms c := by
  have hsame : ∀ {c}, (∀ b r, call ≠ .publish true b r) → l.custody = some c →
      (DeferredWorld.serve i call w).2.Confirms c := fun hcall hc =>
    (hknows _ hc).mono (held_serve hcall).1 (held_serve hcall).2
  have habsent : ∀ {b c}, (∀ r, w.backups.get? b ≠ some (.holds r)) → l.learnAbsent b = some c → w.Confirms c := by
    intro b c hfile hc
    rw [DeferredMind.learnAbsent] at hc
    split_ifs at hc
    cases hc
    exact h.confirms_absent hfile
  cases call with
  | recordExists b =>
    by_cases hfile : w.file b = .absent
    · have hreply : (DeferredWorld.serve i (.recordExists b) w).1 = false := by
        simp [DeferredWorld.serve, hfile]
      rw [hreply] at hc
      refine habsent (fun r hr => ?_) hc
      rw [file, hr] at hfile
      cases hfile
    · have hreply : (DeferredWorld.serve i (.recordExists b) w).1 = true := by
        simp [DeferredWorld.serve, hfile]
      rw [hreply] at hc
      exact hknows c hc
  | loadRecord b =>
    rw [DeferredWorld.serve] at hc ⊢
    split_ifs at hc with hfault
    · cases hfile : w.file b with
      | absent =>
        rw [hfile] at hc
        refine habsent (fun r hr => ?_) hc
        rw [file, hr] at hfile
        cases hfile
      | unreadable e =>
        rw [hfile] at hc
        cases hc
      | holds r =>
        rw [hfile] at hc
        have hr : w.backups.get? b = some (.holds r) := by
          rw [file] at hfile
          cases hget : w.backups.get? b with
          | none =>
            rw [hget] at hfile
            cases hfile
          | some x =>
            rw [hget] at hfile
            exact congrArg some hfile
        simp only [DeferredMind.learn, loadStateFile] at hc
        split_ifs at hc
        cases hc
        exact h.confirms_record hr
    · cases hc
  | publish first b r =>
    cases first with
    | true =>
      rw [DeferredWorld.serve] at hc ⊢
      split_ifs at hc ⊢
      · cases hc
        exact confirms_write_first
      · cases hc
    | false =>
      refine hsame (fun _ _ h => (by cases h)) ?_
      rw [DeferredWorld.serve] at hc
      split_ifs at hc
      · exact hc
      · exact hc
  | unfreeze b info =>
    rw [DeferredWorld.serve] at hc ⊢
    cases hfault : w.fault with
    | none =>
      rw [hfault] at hc
      obtain ⟨c', hc', rfl⟩ := Option.map_eq_some_iff.mp hc
      exact (hknows c' hc').released info
    | refused =>
      rw [hfault] at hc
      exact hknows c hc
    | lost =>
      rw [hfault] at hc
      exact (hknows c hc).mono List.filter_sublist.subset rfl
  | createDir b =>
    rw [DeferredWorld.serve] at hc ⊢
    split_ifs at hc ⊢ with hdir
    · cases hc
      have hconfirms : w.Confirms ⟨b, [], none⟩ := by
        refine h.confirms_absent fun r hr => ?_
        rw [hdir.2] at hr
        cases hr
      exact hconfirms.mono (fun _ hx => hx) rfl
    · cases hc
  | startToken pid =>
    refine hsame (fun _ _ h => (by cases h)) ?_
    rwa [(DeferredMind.sameLocks_startToken _ _).2] at hc
  | dirExists b => cases hc
  | removeDir b => cases hc
  | lockActive b => cases hc
  | acquire command scope => cases hc
  | release scope => cases hc
  | removeRecord b => exact hsame (fun _ _ h => (by cases h)) hc
  | _ => exact hknows c hc

end Calls

namespace Listed

variable {ts : List DeferredThread} {w : DeferredWorld} {ls : List DeferredMind} {i : Nat} {l : DeferredMind}

/-- A call of a thread. -/
theorem call (h : Listed ts w ls) (hi : ls[i]? = some l) {c : DeferredCall} (hduty : l.Duty c)
    (hover : w.isOver i l.me = false) (hok : onlyLockedWork w ls (.inl i) = true) :
    Listed ts (DeferredWorld.serve i c w).2 (ls.set i (l.learn ⟨c, (DeferredWorld.serve i c w).1⟩)) where
  toOrderly := h.toOrderly.call hi c
  toDiscoverable := h.toDiscoverable.serve hduty fun c' hc' => h.knows i l c' hi hover hc'
  knows j l' c' hj hover' hc' := by
    have hown : ∀ c', l.custody = some c' → w.Confirms c' := fun c' hc' => h.knows i l c' hi hover hc'
    rw [DeferredWorld.isOver_serve] at hover'
    rcases getElem?_set_cases hj with ⟨rfl, rfl⟩ | ⟨hne, hmind⟩
    · exact h.toDiscoverable.learn hduty hown hc'
    · have hconfirms := h.knows j l' c' hmind hover' hc'
      by_cases hfirst : ∃ b r, c = .publish true b r
      · obtain ⟨b, r, rfl⟩ := hfirst
        obtain ⟨hup, ⟨x, hx, hcovers, -⟩, -, hcreating, -⟩ := hduty
        -- nobody else knows anything of a backup that is published for the first time
        have hother : c'.backup ≠ b := by
          rintro rfl
          have hlock := h.holds i l hi hover hup x hx
          rw [onlyLockedWork, hi, Option.all_some, hcreating, Option.all_some] at hok
          have hthread := List.all_eq_true.mp hok (l', j) (List.mem_zipIdx_iff_getElem?.mpr hmind)
          simp only [hover', hc', hne, Option.all_some, decide_false, ne_eq, not_true_eq_false, Bool.false_or,
            List.any_eq_true, Bool.and_eq_true, decide_eq_true_eq] at hthread
          obtain ⟨⟨scope, j'⟩, hmem, rfl, hcovers'⟩ := hthread
          exact hne (h.unique hmem hlock hcovers' hcovers)
        rw [DeferredWorld.serve]
        split_ifs
        · exact hconfirms.write_first hother
        · exact hconfirms
      · have hc : ∀ b r, c ≠ .publish true b r := fun b r h => hfirst ⟨b, r, h⟩
        exact hconfirms.mono (DeferredWorld.held_serve hc).1 (DeferredWorld.held_serve hc).2

/-- A move. -/
theorem move (h : Listed ts w ls) {e : DeferredMove} {w' : DeferredWorld} (hw : w.move ls e = some w') :
    Listed ts w' ls := by
  obtain ⟨hbackups, hheld, hterms, -, hover⟩ := DeferredWorld.same_move hw
  refine { toOrderly := h.toOrderly.move hw, listed := ?_, dated := ?_, knows := fun j l c hj hj' hc => ?_ }
  · rw [hheld, hbackups]
    exact h.listed
  · rw [hterms, hbackups]
    exact h.dated
  · exact (h.knows j l c hj (hover j _ hj') hc).mono (fun _ hx => hheld ▸ hx) hterms

end Listed

/-- The invariant holds of every run in which nobody works on a backup without its lock while that is
created. -/
theorem listed_of_reaches {ts : List DeferredThread} {w : DeferredWorld} {s : DeferredThreads}
    (hlocks : w.locks = []) (hw : w.Discoverable)
    (hr : (deferredMachine ts).Reaches (fun w ls a => onlyLockedWork w ls a = true) (deferredStart ts w) s) :
    Listed ts s.shared s.minds := by
  have hstart : Listed ts w (deferredStart ts w).minds := by
    refine { toOrderly := orderly_start ts hlocks, toDiscoverable := hw, knows := fun j l c hj _ hc => ?_ }
    simp only [Threads.minds, deferredStart, List.map_map, List.getElem?_map, Option.map_eq_some_iff] at hj
    obtain ⟨t, -, rfl⟩ := hj
    cases hc
  refine (hr.invariant (P := DeferredMind.Duty) (Q := fun _ _ => True) (I := Listed ts) hstart ?_ ?_ ?_).1
  · intro t ht
    obtain ⟨t', -, rfl⟩ := List.mem_map.mp ht
    exact obeys_program t'
  · intro i c l ls shared hI hi hduty hen hok
    obtain ⟨t, ht, hme, -⟩ := hI.mine i l hi
    have hover : shared.isOver i l.me = false := by
      simp only [deferredMachine, ht, Bool.and_eq_true, Bool.not_eq_true'] at hen
      rw [hme]
      exact hen.1
    exact hI.call hi hduty hover hok
  · intro e ls shared shared' hI _ hmove
    exact hI.move hmove

/-- **Every freeze stays discoverable.**  In any run in which nobody works on a backup without its lock
while that is created, every table that is held is listed in the record that lies in the directory of
its backup and names it, and the record has the terms under which the table was frozen. -/
theorem discoverable_of_reaches {ts : List DeferredThread} {w : DeferredWorld} {s : DeferredThreads}
    (hlocks : w.locks = []) (hw : w.Discoverable)
    (hr : (deferredMachine ts).Reaches (fun w ls a => onlyLockedWork w ls a = true) (deferredStart ts w) s) :
    s.shared.Discoverable :=
  (listed_of_reaches hlocks hw hr).toDiscoverable

/-- A table on an object disk. -/
def diskTable : FreezeInfo := ⟨"db", "t", "chbackup_a_db_t"⟩

/-- A backup is created by one process, and uploaded by another. -/
def createAndUpload : List DeferredThread :=
  [⟨⟨1, some "1000", Nat.one_pos⟩, .create "a" ["a"] ⟨[diskTable], [], 10⟩⟩,
    ⟨⟨2, some "2000", Nat.two_pos⟩, .upload "a" false⟩]

/-- Nothing has been frozen, and both processes run. -/
def quietWorld : DeferredWorld where
  backups := .empty
  locks := []
  clock := 5
  procs pid := if pid = 1 then some (some "1000") else if pid = 2 then some (some "2000") else none
  gone := []
  stopped := []
  fault := .none
  held := []
  terms := .empty

theorem discoverable_quietWorld : quietWorld.Discoverable where
  listed _ _ hinfo := absurd hinfo List.not_mem_nil
  dated _ _ hr := by cases hr

/-- The backup is created, and its upload loses its lock while it copies. -/
theorem detached_upload_discoverable :
    ∃ s, (deferredMachine createAndUpload).Reaches (fun w ls a => onlyLockedWork w ls a = true)
        (deferredStart createAndUpload quietWorld) s ∧
      s.shared.held = [("a".toList, diskTable)] ∧ s.shared.locks = [] ∧ s.shared.Discoverable := by
  have hrun : ((deferredMachine createAndUpload).runWhere (fun w ls a => onlyLockedWork w ls a = true)
      (List.replicate 11 (.inl 0) ++ List.replicate 7 (.inl 1) ++ [.inr (.detach 1)])
      (deferredStart createAndUpload quietWorld)).map (fun s => (s.shared.held, s.shared.locks)) =
        some ([("a".toList, diskTable)], []) := by
    decide +kernel
  obtain ⟨s, hs, heq⟩ := Option.map_eq_some_iff.mp hrun
  obtain ⟨hheld, hlocks⟩ := Prod.ext_iff.mp heq
  have hr := Machine.reaches_of_runWhere .refl hs
  exact ⟨s, hr, hheld, hlocks, discoverable_of_reaches rfl discoverable_quietWorld hr⟩

end Chbackup
