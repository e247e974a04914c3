import Chbackup.Download.Disk
import Chbackup.Keys.Uploaded

/-!
# Complete downloads

What the attempts to download a backup leave on the local disk.  An attempt verifies the parts that it
fetches; of the parts that it skips it knows only that their keys were recorded once, perhaps when
another backup of the same name was in the bucket.

* `downloads_complete_iff`: the attempts of a run that return leave complete backups, if and only if the
  parts that they skip are in place when they begin.
-/

namespace Chbackup

open CallTree

/-! ## One attempt -/

/-- The parts that a manifest lists. -/
def listedParts (m : BackupManifest) : List ManifestPart :=
  m.tables.entries.flatMap fun t => t.2.parts.entries.flatMap fun d => d.2.map fun p => (t.1, d.1, p)

/-- The parts that an attempt fetches. -/
def fetchedParts (m : BackupManifest) (completedKeys : List Str) : List ManifestPart :=
  (plannedParts m).filter fun x => x.2.2.backupKey ≠ [] && x.2.2.backupKey ∉ completedKeys

section Attempt

variable (env : DownloadEnv) (m : BackupManifest)

/-- The place of a listed part. -/
def DownloadEnv.partPlace (x : ManifestPart) : Place := env.placeOf m x.1 x.2.1 x.2.2.name

/-- The part is where the download puts it. -/
def InPlace (dirs : Place → Option PartDir) (x : ManifestPart) : Prop :=
  GoodDir x.2.2 (m.isS3Part x) (dirs (env.partPlace m x))

/-- **The download is complete.** -/
def CompleteDownload (dirs : Place → Option PartDir) : Prop := ∀ x ∈ listedParts m, InPlace env m dirs x

/-- The keys that an attempt takes as downloaded. -/
def recordedKeys (file : StateFile DownloadState) : List Str :=
  if env.useResume then env.completedKeys (loadStateFile file) else []

/-- The parts that an attempt will not fetch are in place: those whose keys the state file records,
those without a key, and those of metadata-only tables. -/
def RecordsFit (s : DownloadDisk) : Prop :=
  ∀ x ∈ listedParts m, x ∉ fetchedParts m (recordedKeys env s.stateFile) → InPlace env m s.dirs x

/-- What an upload publishes: tables with their database, unique part names, and under the key of a
part the archive of its directory. -/
structure PublishedByUpload (archives : Str → Option Archive) : Prop where
  dotted : ∀ t ∈ m.tables.entries, '.' ∈ t.1
  unique : PartNamesUnique m
  archived : ∀ x ∈ plannedParts m, m.isS3Part x = false →
    ∀ a, archives x.2.2.backupKey = some a → a.dirName = x.2.2.name

end Attempt

section Proofs

variable {env : DownloadEnv} {remote : RemoteBackup} {m : BackupManifest} {s : DownloadDisk}
  {completedKeys : List Str} {x y : ManifestPart}

open DownloadEnv World

theorem mem_listedParts {t d : Str} {p : PartInfo} : (t, d, p) ∈ listedParts m ↔
    ∃ tm parts, (t, tm) ∈ m.tables ∧ (d, parts) ∈ tm.parts ∧ p ∈ parts := by
  simp only [listedParts, List.mem_flatMap, List.mem_map, Prod.exists, SortedMap.mem_iff]
  constructor
  · rintro ⟨t', tm, htm, d', parts, hd, p', hp, heq⟩
    cases heq
    exact ⟨tm, parts, htm, hd, hp⟩
  · rintro ⟨tm, parts, htm, hd, hp⟩
    exact ⟨t, tm, htm, d, parts, hd, p, hp, rfl⟩

theorem mem_listedParts_of_mem_fetchedParts (h : x ∈ fetchedParts m completedKeys) :
    x ∈ listedParts m := by
  obtain ⟨t, d, p⟩ := x
  obtain ⟨parts, ⟨tm, htm, -, hd⟩, hp⟩ := mem_plannedParts.mp (List.mem_of_mem_filter h)
  exact mem_listedParts.mpr ⟨tm, parts, htm, hd, hp⟩

theorem splitTableKey_inj {t t' : Str} (ht : '.' ∈ t) (ht' : '.' ∈ t')
    (h : splitTableKey t = splitTableKey t') : t = t' := by
  have hcut : ∀ k : Str, '.' ∈ k → k = (splitTableKey k).1 ++ '.' :: (splitTableKey k).2 := by
    intro k hk
    rw [splitTableKey]
    cases hsplit : Str.splitOnce '.' k with
    | none => exact absurd hk (Str.splitOnce_eq_none_iff.mp hsplit)
    | some pair => exact (Str.splitOnce_eq_some_iff.mp hsplit).1
  rw [hcut t ht, hcut t' ht', h]

/-- **Different parts have different places.** -/
theorem partPlace_injective (halnum : Alphanumeric env.isAlphanumeric)
    (hdotted : ∀ t ∈ m.tables.entries, '.' ∈ t.1) (hunique : PartNamesUnique m)
    (hx : x ∈ listedParts m) (hy : y ∈ listedParts m) (h : env.partPlace m x = env.partPlace m y) :
    x = y := by
  obtain ⟨t, d, p⟩ := x
  obtain ⟨t', d', p'⟩ := y
  obtain ⟨tm, parts, htm, hd, hp⟩ := mem_listedParts.mp hx
  obtain ⟨tm', parts', htm', hd', hp'⟩ := mem_listedParts.mp hy
  injection h with _ hdb htable hname
  have hsplit : splitTableKey t = splitTableKey t' :=
    Prod.ext (encodePathComponent_injective halnum hdb) (encodePathComponent_injective halnum htable)
  obtain rfl := splitTableKey_inj (hdotted _ (SortedMap.mem_iff.mp htm))
    (hdotted _ (SortedMap.mem_iff.mp htm')) hsplit
  obtain rfl : tm = tm' := SortedMap.eq_of_mem htm htm'
  obtain ⟨rfl, rfl⟩ := hunique.eq_of_name_eq htm hd hp hd' hp' hname
  rfl

/-- The tasks of the fetched parts. -/
def downloadItem (m : BackupManifest) (x : ManifestPart) : DownloadWorkItem :=
  ⟨x.1, x.2.1, x.2.2, m.isS3Part x⟩

theorem downloadWorkItems_eq :
    downloadWorkItems m completedKeys = (fetchedParts m completedKeys).map (downloadItem m) := rfl

/-- The calls of a program that do not concern a place. -/
abbrev Elsewhere (remote : RemoteBackup) (place : Place) {ε α : Type} (p : DownloadProg ε α) : Prop :=
  Within (fun c => concerns remote place c = false) (fun _ => True) p

section Elsewhere

variable {place : Place}

theorem elsewhere_callOrFail {c : DownloadCall} {α : Type} {f : c.Reply → Except Str α}
    (h : concerns remote place c = false) : Elsewhere remote place (callOrFail c f) := by
  refine within_perform h fun r => ?_
  cases f r with
  | ok a => exact within_ret trivial
  | error e => exact within_fail e

theorem elsewhere_record {part : PartInfo} : Elsewhere remote place (env.record part) := by
  rw [record]
  split_ifs
  · exact within_perform rfl fun _ => within_ret trivial
  · exact within_ret trivial

theorem elsewhere_downloadTries {place' : Place} {part : PartInfo} {format : Str} (hne : place' ≠ place)
    (harchive : ∀ a, remote.archives part.backupKey = some a → a.dirName = place'.partName)
    (attempts : Nat) (lastError : Option Str) :
    Elsewhere remote place (env.downloadTries place' part format attempts lastError) := by
  have hunpack : seenAt remote (.unpack place' part.backupKey format) = some place' :=
    seenAt_unpack harchive
  have hother : some place' ≠ some place := fun h => hne (Option.some.inj h)
  have hread : concerns remote place (.readChecksums place') = false := decide_eq_false hother
  have hremove : concerns remote place (.removePart place') = false := decide_eq_false hother
  induction attempts generalizing lastError with
  | zero => exact within_fail _
  | succ attempts ih =>
    rw [downloadTries]
    refine (elsewhere_callOrFail rfl).bind fun _ _ => ?_
    refine within_perform (decide_eq_false (hunpack ▸ hother)) fun unpacked => ?_
    refine within_perform rfl fun _ => ?_
    cases unpacked.1 with
    | error e => exact within_fail e
    | ok _ =>
      change Elsewhere remote place (if part.checksumCrc64 = 0 then env.record part else _)
      split_ifs
      · exact elsewhere_record
      · refine (elsewhere_callOrFail hread).bind fun found _ => ?_
        cases found with
        | none => exact within_perform hremove fun _ => ih _
        | some actual =>
          dsimp only
          split_ifs
          · exact elsewhere_record
          · exact within_perform hremove fun _ => ih _

theorem elsewhere_downloadLocalPart {item : DownloadWorkItem}
    (hne : env.placeOf m item.tableKey item.diskName item.part.name ≠ place)
    (harchive : ∀ a, remote.archives item.part.backupKey = some a → a.dirName = item.part.name) :
    Elsewhere remote place (env.downloadLocalPart m item) := by
  have hlink : ∀ existing, concerns remote place
      (.hardlink existing (env.placeOf m item.tableKey item.diskName item.part.name)) = false :=
    fun existing => decide_eq_false fun h => hne (Option.some.inj h)
  rw [downloadLocalPart]
  refine (elsewhere_callOrFail rfl).bind fun _ _ => ?_
  have hdedup : Elsewhere remote place
      (env.dedupPart m item (env.placeOf m item.tableKey item.diskName item.part.name)) := by
    rw [dedupPart]
    split_ifs
    · split
      · exact within_perform (hlink _) fun _ => within_ret trivial
      · exact within_ret trivial
    · exact within_ret trivial
  refine hdedup.bind fun linked _ => ?_
  split
  · exact elsewhere_record
  · exact elsewhere_downloadTries hne harchive _ _

theorem elsewhere_downloadS3Part {item : DownloadWorkItem}
    (hne : env.placeOf m item.tableKey item.diskName item.part.name ≠ place) :
    Elsewhere remote place (env.downloadS3Part m item) := by
  have hother : ∀ c, seenAt remote c =
      some (env.placeOf m item.tableKey item.diskName item.part.name) → concerns remote place c = false :=
    fun c hc => decide_eq_false fun h => hne (Option.some.inj (hc.symm.trans h))
  rw [downloadS3Part]
  refine (elsewhere_callOrFail rfl).bind fun objects _ => ?_
  refine (elsewhere_callOrFail (hother _ rfl)).bind fun _ _ => ?_
  have hfiles : ∀ object ∈ objects, Elsewhere remote place (env.downloadMetadata
      (env.placeOf m item.tableKey item.diskName item.part.name) item.part object) := by
    intro object _
    rw [downloadMetadata]
    dsimp only
    split_ifs
    · exact within_ret trivial
    · exact (elsewhere_callOrFail rfl).bind fun _ _ => within_ret trivial
    · exact (elsewhere_callOrFail rfl).bind fun _ _ => elsewhere_callOrFail (hother _ rfl)
  exact (within_forEach hfiles).bind fun _ _ => elsewhere_record

/-- A task that can be cancelled makes the calls of its program, and asks. -/
theorem elsewhere_cancellable {p : DownloadProg Empty (Except Str Unit)} (h : Elsewhere remote place p) :
    Elsewhere remote place (cancellable p) := by
  induction p with
  | ret a => exact within_ret trivial
  | fail e => exact within_fail e
  | call c k ih =>
    refine within_call rfl fun cancelled => ?_
    split
    · exact within_ret trivial
    · exact within_call h.of_call.1 fun r => ih r (h.of_call.2 r)

/-- **The task of a part concerns no other place.** -/
theorem elsewhere_partTask (hne : env.partPlace m x ≠ place)
    (harchive : m.isS3Part x = false →
      ∀ a, remote.archives x.2.2.backupKey = some a → a.dirName = x.2.2.name) :
    Elsewhere remote place (env.partTask m (downloadItem m x)) := by
  have hprogram : Elsewhere remote place (if (downloadItem m x).isS3DiskPart = true then
      env.downloadS3Part m (downloadItem m x) else env.downloadLocalPart m (downloadItem m x)) := by
    split
    · exact elsewhere_downloadS3Part hne
    · rename_i hs3
      exact elsewhere_downloadLocalPart hne (harchive (Bool.not_eq_true _ ▸ hs3))
  exact elsewhere_cancellable (hprogram.attempt.imp fun _ _ => trivial)

end Elsewhere

/-! ## All parts -/

/-- Lists that say which binding they come from. -/
theorem nodup_flatMap_entries {κ α β : Type} [LinearOrder κ] {b : SortedMap κ α} {f : κ × α → List β}
    (tag : β → κ) (hf : ∀ e ∈ b.entries, (f e).Nodup) (htag : ∀ e ∈ b.entries, ∀ y ∈ f e, tag y = e.1) :
    (b.entries.flatMap f).Nodup := by
  refine List.nodup_flatMap.mpr ⟨hf, ?_⟩
  have hkeys : b.entries.Pairwise fun e e' => e.1 ≠ e'.1 := List.pairwise_map.mp b.nodup_keys
  refine hkeys.imp_of_mem fun he he' hne y hy hy' => hne ?_
  exact (htag _ he y hy).symm.trans (htag _ he' y hy')

theorem nodup_plannedParts (hunique : PartNamesUnique m) : (plannedParts m).Nodup := by
  refine nodup_flatMap_entries Prod.fst (fun t ht => ?_) fun t ht y hy => ?_
  · split_ifs
    · exact List.nodup_nil
    · refine nodup_flatMap_entries (fun y => y.2.1) (fun d hd => ?_) fun d hd y hy => ?_
      · have hnames := hunique t ht
        rw [List.map_flatMap, List.nodup_flatMap] at hnames
        exact (hnames.1 d hd).of_map.map fun p p' h => (Prod.mk.inj (Prod.mk.inj h).2).2
      · obtain ⟨p, -, rfl⟩ := List.mem_map.mp hy
        rfl
  · split_ifs at hy
    · exact absurd hy List.not_mem_nil
    · obtain ⟨d, -, hd⟩ := List.mem_flatMap.mp hy
      obtain ⟨p, -, rfl⟩ := List.mem_map.mp hd
      rfl

/-- A task that ended well without a cancellation leaves its part in place. -/
theorem goodDir_of_ranAlone {t : List DownloadEvent} {dir : Option PartDir}
    (hrun : RanAlone (concerns remote (env.partPlace m x)) t (env.partTask m (downloadItem m x)) (.ok ()))
    (harchive : m.isS3Part x = false →
      ∀ a, remote.archives x.2.2.backupKey = some a → a.dirName = x.2.2.name)
    (hpolls : ∀ r, (⟨.isCancelled, r⟩ : DownloadEvent) ∈ t → r = false)
    (hlegal : (placeWorld env remote (env.partPlace m x)).Legal dir t) :
    GoodDir x.2.2 (m.isS3Part x) ((placeWorld env remote (env.partPlace m x)).after dir t) := by
  obtain ⟨u, hu, hmem, heq⟩ := hrun
  obtain ⟨u', hu', heq'⟩ := runs_of_cancellable hu fun r hr => hpolls r (hmem _ hr)
  rw [← heq' _ rfl] at heq
  have hleave : ∀ t, ((placeWorld env remote (env.partPlace m x)).Legal dir
      (ofCalls (concerns remote (env.partPlace m x)) t) ↔
        (placeWorld env remote (env.partPlace m x)).Legal dir t) ∧ _ = _ :=
    fun t => legal_ofCalls_iff (placeWorld_of_not_concerns (env.partPlace m x))
  have hlegal' := (hleave u').1.mp (heq ▸ (hleave t).1.mpr hlegal)
  rw [← (hleave t).2, heq, (hleave u').2]
  rcases hu'.of_attempt with ⟨a, -, hran⟩ | ⟨e, he, -⟩ | ⟨he, -⟩
  · cases hs3 : m.isS3Part x with
    | true =>
      rw [if_pos (show (downloadItem m x).isS3DiskPart = true from hs3)] at hran
      exact ensures_downloadS3Part rfl u' a hran hlegal'
    | false =>
      rw [if_neg (show ¬(downloadItem m x).isS3DiskPart = true by simp [downloadItem, hs3])] at hran
      exact ensures_downloadLocalPart rfl (harchive hs3) u' a hran hlegal'
  · cases he
  · cases he

theorem cancelled_next (ev : DownloadEvent) : s.cancelled = true →
    ((diskWorld env remote).next s ev).cancelled = true := by
  have hfiles : s.cancelled = true → (filesAfter s ev).cancelled = true := by
    intro h
    obtain ⟨c, r⟩ := ev
    cases c with
    | saveState path state => cases r <;> exact h
    | recordKey path key =>
      rw [filesAfter]
      split <;> exact h
    | saveManifest path m => cases r <;> exact h
    | deleteState path => cases r <;> exact h
    | isCancelled => simp [filesAfter, h]
    | _ => exact h
  dsimp only [diskWorld]
  split <;> exact hfiles

/-- A command that is not cancelled in the end never was. -/
theorem not_cancelled_of_after {t : List DownloadEvent}
    (h : ((diskWorld env remote).after s t).cancelled = false) :
    s.cancelled = false ∧ ∀ r, (⟨.isCancelled, r⟩ : DownloadEvent) ∈ t → r = false := by
  induction t generalizing s with
  | nil => exact ⟨h, fun r hr => absurd hr List.not_mem_nil⟩
  | cons ev t ih =>
    obtain ⟨hnext, hpolls⟩ := ih h
    have hs : s.cancelled = false := by
      by_contra hs
      rw [cancelled_next ev (by simpa using hs)] at hnext
      cases hnext
    refine ⟨hs, fun r hr => ?_⟩
    rcases List.mem_cons.mp hr with rfl | hr
    · have hboth : (s.cancelled || r) = false := hnext
      rw [hs, Bool.false_or] at hboth
      exact hboth
    · exact hpolls r hr

theorem joinResults_eq_ok {results : List (Except Str Unit)} {i : Nat} {a : Except Str Unit}
    (h : joinResults results = .ok ()) (ha : results[i]? = some a) : a = .ok () := by
  induction results generalizing i with
  | nil => cases ha
  | cons b results ih =>
    cases b with
    | error e => cases h
    | ok b =>
      cases i with
      | zero =>
        cases ha
        rfl
      | succ i => exact ih h ha

/-- **Joined tasks leave the fetched parts in place and the others as they were.** -/
theorem ensures_downloadParts (halnum : Alphanumeric env.isAlphanumeric)
    (hpub : PublishedByUpload m remote.archives) :
    (diskWorld env remote).Ensures s (env.downloadParts m completedKeys) fun _ s' =>
      ∀ x ∈ listedParts m, (x ∈ fetchedParts m completedKeys → InPlace env m s'.dirs x) ∧
        (x ∉ fetchedParts m completedKeys →
          s'.dirs (env.partPlace m x) = s.dirs (env.partPlace m x)) := by
  have hinj : ∀ x ∈ listedParts m, ∀ y ∈ listedParts m,
      env.partPlace m x = env.partPlace m y → x = y := fun x hx y hy h =>
    partPlace_injective halnum hpub.dotted hpub.unique hx hy h
  have harchive : ∀ y ∈ fetchedParts m completedKeys, m.isS3Part y = false →
      ∀ a, remote.archives y.2.2.backupKey = some a → a.dirName = y.2.2.name := fun y hy =>
    hpub.archived y (List.mem_of_mem_filter hy)
  rw [downloadParts]
  refine Ensures.bind (Ensures.imp (Q := fun _ s' => s'.dirs = s.dirs) ?_ fun _ s₁ hs₁ => ?_)
  · split_ifs
    · exact ensures_call fun _ _ => ensures_ret rfl
    · exact ensures_ret rfl
  refine Ensures.bind fun t results hrun hlegal => ?_
  refine Ensures.bind (ensures_ofExcept fun _ hok => ensures_perform fun cancelled hcancelled => ?_)
  split_ifs with hc
  · exact ensures_fail _
  refine ensures_ret fun x hx => ?_
  have hnot : ((diskWorld env remote).after s₁ t).cancelled = false := by
    by_contra h
    exact hc (hcancelled.1 (by simpa using h))
  obtain ⟨-, hpolls⟩ := not_cancelled_of_after hnot
  obtain ⟨hplace, hafter⟩ := hlegal.project (placeWorld_of_diskWorld (env.partPlace m x))
  change (_ → GoodDir _ _ (((diskWorld env remote).after s₁ t).dirs (env.partPlace m x))) ∧
    (_ → ((diskWorld env remote).after s₁ t).dirs (env.partPlace m x) = _)
  rw [hafter]
  rw [downloadWorkItems_eq, List.map_map] at hrun
  constructor
  · intro hfetched
    obtain ⟨i, hi⟩ := List.getElem?_of_mem hfetched
    have htask : ((fetchedParts m completedKeys).map (env.partTask m ∘ downloadItem m))[i]? =
        some (env.partTask m (downloadItem m x)) := by
      rw [List.getElem?_map, hi]
      rfl
    have honly : OnlyTask (concerns remote (env.partPlace m x)) i
        ((fetchedParts m completedKeys).map (env.partTask m ∘ downloadItem m)) := by
      intro j q hj hq
      rw [List.getElem?_map, Option.map_eq_some_iff] at hq
      obtain ⟨y, hy, rfl⟩ := hq
      have hymem := List.mem_of_getElem? hy
      refine elsewhere_partTask (fun heq => hj ?_) (harchive y hymem)
      obtain rfl := hinj y (mem_listedParts_of_mem_fetchedParts hymem) x hx heq
      have hnodup : (fetchedParts m completedKeys).Nodup := (nodup_plannedParts hpub.unique).filter _
      exact (List.getElem?_inj (List.getElem?_eq_some_iff.mp hy).1 hnodup).mp (hy.trans hi.symm)
    obtain ⟨a, ha, halone⟩ := hrun.own_of_par htask honly
    obtain rfl := joinResults_eq_ok hok ha
    exact goodDir_of_ranAlone halone (harchive x hfetched) hpolls hplace
  · intro hskipped
    have htasks : List.Forall₂ (fun (_ : ManifestPart) => Within
        (fun c => concerns remote (env.partPlace m x) c = false) fun (_ : Except Str Unit) => True)
        (fetchedParts m completedKeys)
        ((fetchedParts m completedKeys).map (env.partTask m ∘ downloadItem m)) := by
      refine List.forall₂_map_right_iff.mpr (List.forall₂_same.mpr fun y hy => ?_)
      refine elsewhere_partTask (fun heq => hskipped ?_) (harchive y hy)
      rw [← hinj y (mem_listedParts_of_mem_fetchedParts hy) x hx heq]
      exact hy
    have helse : Elsewhere remote (env.partPlace m x) (Prog.par env.schedule
        ((fetchedParts m completedKeys).map (env.partTask m ∘ downloadItem m)) : DownloadProg Str _) :=
      (within_par htasks).imp fun _ _ => trivial
    rw [← (legal_ofCalls_iff (placeWorld_of_not_concerns (env.partPlace m x))).2,
      ofCalls_eq_nil helse hrun, after_nil, hs₁]

/-! ## The other calls -/

/-- A call that neither sees a place nor a file leaves the disk as it is. -/
theorem ensures_callOrFail_same {c : DownloadCall} {α : Type} {f : c.Reply → Except Str α}
    (hnext : ∀ r, (diskWorld env remote).next s ⟨c, r⟩ = s) :
    (diskWorld env remote).Ensures s (callOrFail c f) fun _ s' => s' = s :=
  ensures_callOrFail fun r _ _ _ => hnext r

theorem ensures_checkSpace :
    (diskWorld env remote).Ensures s (env.checkSpace m) fun _ s' => s' = s := by
  rw [checkSpace]
  refine Ensures.bind ((ensures_forEach (I := fun s' => s' = s) rfl ?_).imp fun _ s' hs' => ensures_ret hs')
  rintro d - s' rfl
  split_ifs
  · exact ensures_ret rfl
  · exact ensures_callOrFail_same fun _ => rfl

theorem ensures_downloadSimpleDirectory {dir : Str} :
    (diskWorld env remote).Ensures s (env.downloadSimpleDirectory dir) fun _ s' => s' = s := by
  rw [downloadSimpleDirectory]
  refine Ensures.bind ((ensures_callOrFail_same fun _ => rfl).imp fun objects s₁ hs₁ => ?_)
  subst hs₁
  split_ifs
  · exact ensures_ret rfl
  refine Ensures.bind ((ensures_callOrFail_same fun _ => rfl).imp fun _ s₂ hs₂ => ?_)
  subst hs₂
  refine Ensures.bind ((ensures_forEach (I := fun s' => s' = s₂) rfl ?_).imp fun _ s' hs' => ensures_ret hs')
  rintro object - s' rfl
  generalize env.retriesOnFailure + 1 = attempts
  induction attempts with
  | zero => exact ensures_fail _
  | succ attempts ih =>
    rw [downloadSimpleFile]
    refine ensures_perform fun fetched _ => ?_
    cases fetched with
    | ok _ => exact ensures_callOrFail_same fun _ => rfl
    | error e =>
      dsimp only
      split_ifs
      · exact ensures_fail e
      · exact ih

theorem ensures_finishDownload {rbac : Bool} :
    (diskWorld env remote).Ensures s (env.finishDownload m rbac) fun _ s' =>
      s'.dirs = s.dirs ∧ s'.manifest = some m := by
  have hrbac : (diskWorld env remote).Ensures s
      (if rbac = true then env.downloadSimpleDirectory "access" else .ret ()) fun _ s' => s' = s := by
    split_ifs
    · exact ensures_downloadSimpleDirectory
    · exact ensures_ret rfl
  rw [finishDownload]
  refine Ensures.bind (hrbac.imp fun _ s₁ hs₁ => ?_)
  subst hs₁
  refine Ensures.bind (ensures_downloadSimpleDirectory.imp fun _ s₂ hs₂ => ?_)
  subst hs₂
  refine Ensures.bind ((ensures_forEach (I := fun s' => s' = s₂) rfl ?_).imp fun _ s₃ hs₃ => ?_)
  · rintro table - s' rfl
    rw [saveTableMetadata]
    refine Ensures.bind ((ensures_callOrFail_same fun _ => rfl).imp fun _ s₄ hs₄ => ?_)
    subst hs₄
    exact ensures_callOrFail_same fun _ => rfl
  subst hs₃
  refine Ensures.bind (ensures_callOrFail fun r _ hr _ => ?_)
  cases r with
  | error e => cases hr
  | ok _ =>
    split_ifs
    · refine ensures_perform fun removed _ => ensures_ret ?_
      cases removed <;> exact ⟨rfl, rfl⟩
    · exact ensures_ret ⟨rfl, rfl⟩

/-- **What an attempt that returns leaves behind.** -/
theorem ensures_download (halnum : Alphanumeric env.isAlphanumeric)
    (hpub : ∀ fetched, remote.manifest = some fetched → PublishedByUpload fetched.1 remote.archives) :
    (diskWorld env remote).Ensures s env.download fun _ s' =>
      ∃ m rbac, remote.manifest = some (m, rbac) ∧ s'.manifest = some m ∧
        (CompleteDownload env m s'.dirs ↔ RecordsFit env m s) := by
  rw [download]
  refine Ensures.bind (ensures_callOrFail fun r fetched hfetched hallows => ?_)
  have hmanifest : remote.manifest = some fetched := hallows.1 fetched hfetched
  obtain ⟨m, rbac⟩ := fetched
  change (diskWorld env remote).Ensures s (env.downloadBackup m rbac) _
  rw [downloadBackup]
  refine Ensures.bind (ensures_checkSpace.imp fun _ s₁ hs₁ => ?_)
  subst hs₁
  refine Ensures.bind ((ensures_callOrFail_same fun _ => rfl).imp fun _ s₂ hs₂ => ?_)
  subst hs₂
  have hload : (diskWorld env remote).Ensures s₂ env.loadCompletedKeys fun keys s' =>
      keys = recordedKeys env s₂.stateFile ∧ s' = s₂ := by
    rw [loadCompletedKeys, recordedKeys]
    split_ifs
    · refine ensures_perform fun loaded hloaded => ensures_ret ⟨?_, rfl⟩
      rw [show loaded = loadStateFile s₂.stateFile from hloaded.1]
    · exact ensures_ret ⟨rfl, rfl⟩
  refine Ensures.bind (hload.imp fun keys s₃ hkeys => ?_)
  obtain ⟨rfl, rfl⟩ := hkeys
  have hmap : (diskWorld env remote).Ensures s₃ (env.saveDiskMap m) fun _ s' => s'.dirs = s₃.dirs := by
    rw [saveDiskMap]
    split_ifs
    · exact ensures_ret rfl
    · refine ensures_perform fun saved _ => ensures_ret ?_
      cases saved <;> rfl
  refine Ensures.bind (hmap.imp fun _ s₄ hs₄ => ?_)
  refine Ensures.bind ((ensures_downloadParts halnum (hpub _ hmanifest)).imp fun _ s₅ hparts => ?_)
  refine Ensures.bind (ensures_finishDownload.imp fun _ s₆ hs₆ => ensures_ret ?_)
  refine ⟨m, rbac, hmanifest, hs₆.2, fun hcomplete x hx hskipped => ?_, fun hfit x hx => ?_⟩
  · have hdir := (hparts x hx).2 hskipped
    have hgood := hcomplete x hx
    rw [InPlace, hs₆.1, hdir, hs₄] at hgood
    exact hgood
  · rw [InPlace, hs₆.1]
    by_cases hfetched : x ∈ fetchedParts m (recordedKeys env s₃.stateFile)
    · exact (hparts x hx).1 hfetched
    · rw [(hparts x hx).2 hfetched, hs₄]
      exact hfit x hx hfetched

end Proofs

/-! ## Runs of attempts -/

/-- One attempt: its options and host, what the bucket holds meanwhile, the disk before it, its calls
and how it ends.  A process that dies has made some of its calls. -/
structure DownloadAttempt where
  env : DownloadEnv
  remote : RemoteBackup
  before : DownloadDisk
  trace : List DownloadEvent
  ended : End Str Str

namespace DownloadAttempt

variable (a : DownloadAttempt)

/-- The disk when a new process begins. -/
def start : DownloadDisk := { a.before with shared := none, cancelled := false }

def after : DownloadDisk := (diskWorld a.env a.remote).after a.start a.trace

/-- An attempt at a backup that an upload has published, or at none. -/
structure Possible : Prop where
  alphanumeric : Alphanumeric a.env.isAlphanumeric
  published : ∀ fetched, a.remote.manifest = some fetched →
    PublishedByUpload fetched.1 a.remote.archives
  runs : Runs a.env.download a.trace a.ended
  legal : (diskWorld a.env a.remote).Legal a.start a.trace

/-- **If the attempt returns, the backup it has saved is complete.** -/
def Complete : Prop := ∀ path, a.ended = .returned path →
  ∃ m, a.after.manifest = some m ∧ CompleteDownload a.env m a.after.dirs

/-- If the attempt returns, the parts that it skips were in place before. -/
def SkipsOnlyPresent : Prop := ∀ path, a.ended = .returned path →
  ∀ fetched, a.remote.manifest = some fetched → RecordsFit a.env fetched.1 a.before

theorem Possible.complete_iff {a : DownloadAttempt} (h : a.Possible) :
    a.Complete ↔ a.SkipsOnlyPresent := by
  have hreturned : ∀ path, a.ended = .returned path → ∃ m rbac, a.remote.manifest = some (m, rbac) ∧
      a.after.manifest = some m ∧ (CompleteDownload a.env m a.after.dirs ↔ RecordsFit a.env m a.before) :=
    fun path hpath => ensures_download h.alphanumeric h.published a.trace path (hpath ▸ h.runs) h.legal
  constructor
  · intro hcomplete path hpath fetched hfetched
    obtain ⟨m, rbac, hremote, hsaved, hiff⟩ := hreturned path hpath
    obtain ⟨m', hm', hdirs⟩ := hcomplete path hpath
    rw [hsaved] at hm'
    cases hm'
    rw [hremote] at hfetched
    cases hfetched
    exact hiff.mp hdirs
  · intro hskips path hpath
    obtain ⟨m, rbac, hremote, hsaved, hiff⟩ := hreturned path hpath
    exact ⟨m, hsaved, hiff.mpr (hskips path hpath _ hremote)⟩

end DownloadAttempt

/-- A run: attempts at the backups of one name, one after the other.  What the bucket holds may change
between them. -/
inductive DownloadRun (name : Str) (initial : DownloadDisk) : List DownloadAttempt → DownloadDisk → Prop
  | start : DownloadRun name initial [] initial
  | attempt {attempts : List DownloadAttempt} {a : DownloadAttempt} :
    DownloadRun name initial attempts a.before → a.env.backupName = name → a.Possible →
      DownloadRun name initial (attempts ++ [a]) a.after

/-- In a run, every attempt that returns has saved a complete backup, exactly if every attempt that
returns skips only parts that are in place. -/
theorem downloads_complete_iff (name : Str) (initial : DownloadDisk) {attempts : List DownloadAttempt}
    {s : DownloadDisk} (h : DownloadRun name initial attempts s) :
    (∀ a ∈ attempts, a.Complete) ↔ ∀ a ∈ attempts, a.SkipsOnlyPresent := by
  induction h with
  | start => simp only [List.not_mem_nil, false_imp_iff, implies_true]
  | attempt _ _ hpossible ih =>
    simp only [List.forall_mem_append, List.forall_mem_singleton, ih, hpossible.complete_iff]

/-! ## A backup that is made again -/

section Again

/-- The answers of a host on which everything succeeds, or on which the manifest cannot be saved. -/
def honestReply (env : DownloadEnv) (remote : RemoteBackup) (diskFull : Bool) :
    (c : DownloadCall) → DownloadDisk → c.Reply
  | .fetchManifest _, _ => match remote.manifest with
    | some fetched => .ok fetched
    | none => .error "not found"
  | .preflight _ _, _ | .createDirs _, _ | .fetchObject _, _ | .writeFile _, _
  | .createPartDir _, _ => .ok ()
  | .loadState _, s => loadStateFile s.stateFile
  | .saveState _ _, _ | .recordKey _ _, _ | .deleteState _, _ => true
  | .shareState _, _ | .removeTmp _, _ => ()
  | .isCancelled, s => s.cancelled
  | .listObjects _, _ => .ok []
  | .writeMetadata place _, s => (.ok (), some ((s.dirs place).getD ⟨none⟩))
  | .hardlink existing _, _ => (.ok (), some ⟨env.crcAt existing⟩)
  | .fetchArchive _ _, _ => .ok 0
  | .unpack place key _, s => match remote.archives key with
    | some a => (.ok (), some ⟨a.checksums.or
        ((s.dirs { place with partName := a.dirName }).bind PartDir.checksums)⟩)
    | none => (.error "no archive", none)
  | .readChecksums place, s => .ok ((s.dirs place).bind PartDir.checksums)
  | .removePart _, _ => none
  | .saveManifest _ _, _ => if diskFull then .error "no space left on device" else .ok ()

variable {env : DownloadEnv} {remote : RemoteBackup} {diskFull : Bool}

theorem allows_honestReply (c : DownloadCall) (s : DownloadDisk) :
    (diskWorld env remote).allows s ⟨c, honestReply env remote diskFull c s⟩ := by
  cases c with
  | fetchManifest key =>
    refine ⟨fun fetched hfetched => ?_, fun place hplace => by cases hplace⟩
    rw [honestReply] at hfetched
    split at hfetched
    · cases hfetched
      assumption
    · cases hfetched
  | isCancelled => exact ⟨fun h => h, fun place hplace => by cases hplace⟩
  | loadState path => exact ⟨rfl, fun place hplace => by cases hplace⟩
  | writeMetadata place file => exact ⟨trivial, fun _ _ => Option.some_ne_none _⟩
  | hardlink existing place => exact ⟨trivial, fun _ _ _ => rfl⟩
  | unpack place key format =>
    refine ⟨trivial, fun place' hplace hok => ?_⟩
    rw [seenAt] at hplace
    rw [honestReply] at hok ⊢
    cases ha : remote.archives key with
    | none =>
      rw [ha] at hok
      cases hok
    | some a =>
      rw [ha] at hplace
      cases hplace
      exact ⟨a, rfl, rfl⟩
  | readChecksums place =>
    refine ⟨trivial, fun place' hplace found hfound => ?_⟩
    cases hplace
    cases hfound
    rfl
  | _ => exact ⟨trivial, fun _ _ => trivial⟩

def honestServe (env : DownloadEnv) (remote : RemoteBackup) (diskFull : Bool) (c : DownloadCall)
    (s : DownloadDisk) : c.Reply × DownloadDisk :=
  (honestReply env remote diskFull c s,
    (diskWorld env remote).next s ⟨c, honestReply env remote diskFull c s⟩)

/-- The attempt on such a host. -/
def honestAttempt (env : DownloadEnv) (remote : RemoteBackup) (diskFull : Bool) (before : DownloadDisk) :
    DownloadAttempt :=
  let start : DownloadDisk := { before with shared := none, cancelled := false }
  { env, remote, before
    trace := execTrace (honestServe env remote diskFull) env.download start
    ended := End.ofExcept (exec (honestServe env remote diskFull) env.download start).1 }

theorem legal_honestAttempt (before : DownloadDisk) :
    (diskWorld env remote).Legal (honestAttempt env remote diskFull before).start
        (honestAttempt env remote diskFull before).trace ∧
      (honestAttempt env remote diskFull before).after =
        (exec (honestServe env remote diskFull) env.download
          (honestAttempt env remote diskFull before).start).2 := by
  have hserve : ∀ c s, (diskWorld env remote).allows (id s) ⟨c, (honestServe env remote diskFull c s).1⟩ ∧
      (diskWorld env remote).next (id s) ⟨c, (honestServe env remote diskFull c s).1⟩ =
        id (honestServe env remote diskFull c s).2 := fun c s => ⟨allows_honestReply c s, rfl⟩
  exact World.legal_execTrace hserve env.download _

theorem possible_honestAttempt (before : DownloadDisk) (halnum : Alphanumeric env.isAlphanumeric)
    (hpub : ∀ fetched, remote.manifest = some fetched → PublishedByUpload fetched.1 remote.archives) :
    (honestAttempt env remote diskFull before).Possible where
  alphanumeric := halnum
  published := hpub
  runs := runs_execTrace _ _ _
  legal := (legal_honestAttempt before).1

end Again

/-- A download that can be resumed, on a host with one disk. -/
def plainDownload : DownloadEnv where
  dataPath := "/data"
  backupName := "b"
  resume := true
  useResumableState := true
  hardlinkExistsFiles := false
  retriesOnFailure := 0
  s3Prefix := []
  isAlphanumeric := Char.isAlphanum
  host := ⟨fun _ => true, fun _ => none⟩
  readDir := fun _ => []
  crcAt := fun _ => none
  schedule := []

/-- A part with a checksum. -/
def checkedPart (crc : Nat) : PartInfo :=
  { PartInfo.new "all_1_1_0" 0 crc with backupKey := "b/data/db/t/all_1_1_0.tar.lz4" }

/-- A backup of one table with one part. -/
def checkedManifest (crc : Nat) : BackupManifest :=
  { (default : BackupManifest) with
    name := "b"
    tables := SortedMap.empty.insert "db.t"
      { (default : TableManifest) with
        parts := (SortedMap.empty : SortedMap Str (List PartInfo)).insert "default" [checkedPart crc] } }

/-- The backup with its archive. -/
def checkedBackup (crc : Nat) : RemoteBackup where
  manifest := some (checkedManifest crc, false)
  archives key := if key = "b/data/db/t/all_1_1_0.tar.lz4" then some ⟨"all_1_1_0", some crc⟩ else none

theorem published_checkedBackup (crc : Nat) : ∀ fetched, (checkedBackup crc).manifest = some fetched →
    PublishedByUpload fetched.1 (checkedBackup crc).archives := by
  rintro fetched hfetched
  cases hfetched
  refine ⟨?_, ?_, ?_⟩
  · intro t ht
    cases List.mem_singleton.mp ht
    exact List.mem_of_elem_eq_true rfl
  · intro t ht
    cases List.mem_singleton.mp ht
    exact List.nodup_singleton _
  · intro x hx _ a ha
    cases List.mem_singleton.mp hx
    cases ha
    rfl

theorem alphanumeric_plainDownload : Alphanumeric plainDownload.isAlphanumeric :=
  ⟨by decide, by decide⟩

/-- An empty disk. -/
def emptyDisk : DownloadDisk := ⟨.absent, fun _ => none, none, none, false⟩

/-- The disk after an attempt that downloads the part and cannot save the manifest. -/
def partialDisk : DownloadDisk := (honestAttempt plainDownload (checkedBackup 1) true emptyDisk).after

/-- It is downloaded and recorded. -/
theorem partialDisk_eq : (honestAttempt plainDownload (checkedBackup 1) true emptyDisk).after.dirs
    (plainDownload.placeOf (checkedManifest 1) "db.t" "default" "all_1_1_0") = some ⟨some 1⟩ := by
  rw [(legal_honestAttempt emptyDisk).2]
  rfl

/-- The next attempt, resumed, skips the part and completes the download. -/
theorem downloads_complete_resumed :
    ∃ m, (honestAttempt plainDownload (checkedBackup 1) false partialDisk).after.manifest = some m ∧
      CompleteDownload plainDownload m (honestAttempt plainDownload (checkedBackup 1) false partialDisk).after.dirs := by
  have hrun : DownloadRun "b" emptyDisk
      (([] ++ [honestAttempt plainDownload (checkedBackup 1) true emptyDisk]) ++
        [honestAttempt plainDownload (checkedBackup 1) false partialDisk]) _ :=
    .attempt (.attempt .start rfl
      (possible_honestAttempt _ alphanumeric_plainDownload (published_checkedBackup 1))) rfl
      (possible_honestAttempt _ alphanumeric_plainDownload (published_checkedBackup 1))
  have hended : (honestAttempt plainDownload (checkedBackup 1) false partialDisk).ended =
      .returned plainDownload.backupDir := by rfl
  refine (downloads_complete_iff "b" emptyDisk hrun).mpr (fun a ha path _ fetched hfetched x hx hskipped => ?_) _
    (List.mem_append_right _ List.mem_cons_self) _ hended
  rcases List.mem_append.mp ha with ha | ha
  · cases List.mem_singleton.mp ha
    cases hfetched
    cases List.mem_singleton.mp hx
    exact absurd hskipped (by decide +kernel)
  · cases List.mem_singleton.mp ha
    cases hfetched
    cases List.mem_singleton.mp hx
    exact ⟨_, partialDisk_eq, fun _ _ => rfl⟩

/-- The part is downloaded and recorded, and the manifest cannot be saved; the backup is made again with
another part of the same name; the next attempt, resumed, keeps the part that is there. -/
theorem remade_backup_incomplete :
    ¬∀ (name : Str) (initial : DownloadDisk) (attempts : List DownloadAttempt) (s : DownloadDisk),
      DownloadRun name initial attempts s → ∀ a ∈ attempts, a.Complete := by
  intro h
  have hrun : DownloadRun "b" emptyDisk
      (([] ++ [honestAttempt plainDownload (checkedBackup 1) true emptyDisk]) ++
        [honestAttempt plainDownload (checkedBackup 2) false partialDisk]) _ :=
    .attempt (.attempt .start rfl
      (possible_honestAttempt _ alphanumeric_plainDownload (published_checkedBackup 1))) rfl
      (possible_honestAttempt _ alphanumeric_plainDownload (published_checkedBackup 2))
  have hended : (honestAttempt plainDownload (checkedBackup 2) false partialDisk).ended =
      .returned plainDownload.backupDir := by rfl
  obtain ⟨m, hm, hcomplete⟩ := h _ _ _ _ hrun _ (List.mem_append_right _ List.mem_cons_self) _ hended
  have hsaved : (honestAttempt plainDownload (checkedBackup 2) false partialDisk).after.manifest =
      (checkedBackup 2).manifest.map Prod.fst := by
    rw [(legal_honestAttempt partialDisk).2, partialDisk, (legal_honestAttempt emptyDisk).2]
    rfl
  rw [hsaved] at hm
  cases hm
  obtain ⟨d, hd, hcrc⟩ := hcomplete (("db.t" : Str), ("default" : Str), checkedPart 2) List.mem_cons_self
  have hold : (honestAttempt plainDownload (checkedBackup 2) false partialDisk).after.dirs
      (plainDownload.placeOf (checkedManifest 2) "db.t" "default" "all_1_1_0") = some ⟨some 1⟩ := by
    rw [(legal_honestAttempt partialDisk).2, partialDisk, (legal_honestAttempt emptyDisk).2]
    rfl
  have hsame : some (⟨some 1⟩ : PartDir) = some d := hold.symm.trans hd
  cases hsame
  exact absurd (hcrc rfl (by decide)) (by decide)

end Chbackup
