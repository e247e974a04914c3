import Chbackup.Download.Program
import Chbackup.Lib.Ensures
import Chbackup.Lib.Projection

/-!
# The disk of a download

What the calls of a download do to the local disk, and what the download of one part leaves at its
place: a directory with the recorded checksum, whether it was linked from another backup or unpacked
from its archive, at the first attempt or at a later one.  The place of a part is a world of its own,
which the calls about other places do not change.
-/

namespace Chbackup

open CallTree

/-- An archive in the bucket: the directory that it holds, with its checksums. -/
structure Archive where
  dirName : Str
  checksums : Option Nat
  deriving DecidableEq

/-- What the bucket holds under the name of the backup, and under the keys of its parts. -/
structure RemoteBackup where
  manifest : Option (BackupManifest × Bool)
  archives : Str → Option Archive

/-- The local disk, and the state of the process that downloads. -/
structure DownloadDisk where
  stateFile : StateFile DownloadState
  dirs : Place → Option PartDir
  manifest : Option BackupManifest
  shared : Option DownloadState
  cancelled : Bool

section World

variable (env : DownloadEnv) (remote : RemoteBackup)

/-- The place whose directory a call reads or changes. -/
def seenAt : DownloadCall → Option Place
  | .createPartDir place | .writeMetadata place _ | .hardlink _ place | .readChecksums place
  | .removePart place => some place
  | .unpack place key _ =>
    some { place with partName := ((remote.archives key).map Archive.dirName).getD place.partName }
  | _ => none

/-- The directory after an event at its place. -/
def dirAfter (dir : Option PartDir) : DownloadEvent → Option PartDir
  | ⟨.createPartDir _, .ok _⟩ => some (dir.getD ⟨none⟩)
  | ⟨.writeMetadata _ _, r⟩ => r.2
  | ⟨.hardlink _ _, r⟩ => r.2
  | ⟨.unpack _ _ _, r⟩ => r.2
  | ⟨.removePart _, r⟩ => r
  | _ => dir

/-- The reply agrees with the directory at its place.  An archive that was unpacked whole has replaced
the checksums, if it has any; a metadata file is written into the directory of its part. -/
def Accords (dir : Option PartDir) : DownloadEvent → Prop
  | ⟨.writeMetadata _ _, r⟩ => r.2 ≠ none
  | ⟨.hardlink existing _, r⟩ => r.1 = .ok () → r.2 = some ⟨env.crcAt existing⟩
  | ⟨.unpack _ key _, r⟩ => r.1 = .ok () →
    ∃ a, remote.archives key = some a ∧ r.2 = some ⟨a.checksums.or (dir.bind PartDir.checksums)⟩
  | ⟨.readChecksums _, r⟩ => ∀ found, r = .ok found → found = dir.bind PartDir.checksums
  | _ => True

/-- The reply agrees with the bucket and with the state of the process. -/
def AccordsOtherwise (s : DownloadDisk) : DownloadEvent → Prop
  | ⟨.fetchManifest _, r⟩ => ∀ fetched, r = .ok fetched → remote.manifest = some fetched
  | ⟨.loadState _, r⟩ => r = loadStateFile s.stateFile
  | ⟨.isCancelled, r⟩ => s.cancelled = true → r = true
  | _ => True

/-- What an event does besides the directories of parts. -/
def filesAfter (s : DownloadDisk) : DownloadEvent → DownloadDisk
  | ⟨.saveState _ state, saved⟩ => if saved = true then { s with stateFile := .holds state } else s
  | ⟨.shareState state, _⟩ => { s with shared := some state }
  | ⟨.recordKey _ key, saved⟩ =>
    match s.shared with
    | some state =>
      let state := { state with completedKeys := key :: state.completedKeys }
      { s with
        shared := some state
        stateFile := if saved = true then .holds state else s.stateFile }
    | none => s
  | ⟨.isCancelled, cancelled⟩ => { s with cancelled := s.cancelled || cancelled }
  | ⟨.saveManifest _ m, .ok _⟩ => { s with manifest := some m }
  | ⟨.deleteState _, removed⟩ => if removed = true then { s with stateFile := .absent } else s
  | _ => s

/-- The world of one attempt. -/
def diskWorld : World DownloadCall DownloadCall.Reply DownloadDisk where
  allows s ev := AccordsOtherwise remote s ev ∧
    ∀ place, seenAt remote ev.1 = some place → Accords env remote (s.dirs place) ev
  next s ev :=
    match seenAt remote ev.1 with
    | some place =>
      { filesAfter s ev with dirs := Function.update s.dirs place (dirAfter (s.dirs place) ev) }
    | none => filesAfter s ev

/-- The world of one place. -/
def placeWorld (place : Place) : World DownloadCall DownloadCall.Reply (Option PartDir) where
  allows dir ev := seenAt remote ev.1 = some place → Accords env remote dir ev
  next dir ev := if seenAt remote ev.1 = some place then dirAfter dir ev else dir

/-- The calls that concern a place. -/
def concerns (place : Place) (c : DownloadCall) : Bool := seenAt remote c = some place

variable {env remote} {s : DownloadDisk} {ev : DownloadEvent} {place : Place}

theorem dirs_filesAfter : (filesAfter s ev).dirs = s.dirs := by
  obtain ⟨c, r⟩ := ev
  cases c with
  | saveState path state =>
    cases r <;> rfl
  | recordKey path key =>
    rw [filesAfter]
    split <;> rfl
  | saveManifest path m =>
    cases r <;> rfl
  | deleteState path =>
    cases r <;> rfl
  | _ => rfl

/-- A place sees its own part of the world. -/
theorem placeWorld_of_diskWorld (place : Place) (s : DownloadDisk) (ev : DownloadEvent)
    (h : (diskWorld env remote).allows s ev) :
    (placeWorld env remote place).allows (s.dirs place) ev ∧
      ((diskWorld env remote).next s ev).dirs place =
        (placeWorld env remote place).next (s.dirs place) ev := by
  refine ⟨h.2 place, ?_⟩
  dsimp only [diskWorld, placeWorld]
  cases hseen : seenAt remote ev.1 with
  | none =>
    rw [if_neg (Option.some_ne_none place).symm]
    dsimp only
    rw [dirs_filesAfter]
  | some place' =>
    by_cases hplace : place' = place
    · subst hplace
      rw [if_pos rfl]
      exact Function.update_self _ _ _
    · rw [if_neg fun heq => hplace (Option.some.inj heq)]
      exact Function.update_of_ne (Ne.symm hplace) _ _

theorem placeWorld_of_not_concerns (place : Place) (dir : Option PartDir) (ev : DownloadEvent)
    (h : concerns remote place ev.1 = false) :
    (placeWorld env remote place).allows dir ev ∧ (placeWorld env remote place).next dir ev = dir := by
  have hne : seenAt remote ev.1 ≠ some place := of_decide_eq_false h
  exact ⟨fun heq => absurd heq hne, if_neg hne⟩

end World

/-! ## One part -/

/-- The directory of a part is there, with the recorded checksum if the part has one and is not on an
S3 disk. -/
def GoodDir (part : PartInfo) (isS3 : Bool) (dir : Option PartDir) : Prop :=
  ∃ d, dir = some d ∧
    (isS3 = false → part.checksumCrc64 ≠ 0 → d.checksums = some part.checksumCrc64)

section Part

variable {env : DownloadEnv} {remote : RemoteBackup} {m : BackupManifest} {place : Place}
  {part : PartInfo} {dir : Option PartDir} {isS3 : Bool}

open DownloadEnv World

theorem ensures_callOrFail {c : DownloadCall} {α : Type} {f : c.Reply → Except Str α}
    {σ : Type} {w : World DownloadCall DownloadCall.Reply σ} {s : σ} {Q : α → σ → Prop}
    (h : ∀ r a, f r = .ok a → w.allows s ⟨c, r⟩ → Q a (w.next s ⟨c, r⟩)) :
    w.Ensures s (callOrFail c f) Q :=
  ensures_perform fun r hr => ensures_ofExcept fun a ha => h r a ha hr

theorem next_placeWorld {ev : DownloadEvent} (h : seenAt remote ev.1 = some place) :
    (placeWorld env remote place).next dir ev = dirAfter dir ev := if_pos h

/-- A part of another backup that is found has the expected checksum. -/
theorem crcAt_of_findExistingPart {tableKey partName diskName existing : Str} {crc : Nat}
    (h : env.findExistingPart m tableKey partName crc diskName = some existing) :
    env.crcAt existing = some crc := by
  rw [findExistingPart] at h
  split_ifs at h
  have hcrc := List.find?_some h
  exact of_decide_eq_true hcrc

theorem ensures_record (h : GoodDir part isS3 dir) :
    (placeWorld env remote place).Ensures dir (env.record part) fun _ d => GoodDir part isS3 d := by
  rw [record]
  split_ifs
  · exact ensures_perform fun r _ => ensures_ret h
  · exact ensures_ret h

/-- An archive of a part is unpacked at its place. -/
theorem seenAt_unpack {format : Str}
    (harchive : ∀ a, remote.archives part.backupKey = some a → a.dirName = place.partName) :
    seenAt remote (.unpack place part.backupKey format) = some place := by
  rw [seenAt]
  cases ha : remote.archives part.backupKey with
  | none => rfl
  | some a => rw [Option.map_some, Option.getD_some, harchive a ha]

/-- **The attempts to download an archive end with a good directory.** -/
theorem ensures_downloadTries {format : Str}
    (harchive : ∀ a, remote.archives part.backupKey = some a → a.dirName = place.partName)
    (attempts : Nat) (lastError : Option Str) (dir : Option PartDir) :
    (placeWorld env remote place).Ensures dir (env.downloadTries place part format attempts lastError)
      fun _ d => GoodDir part isS3 d := by
  have hunpack : seenAt remote (.unpack place part.backupKey format) = some place :=
    seenAt_unpack harchive
  induction attempts generalizing lastError dir with
  | zero => exact ensures_fail _
  | succ attempts ih =>
    rw [downloadTries]
    refine Ensures.bind (ensures_callOrFail fun _ _ _ _ => ensures_perform fun unpacked hunpacked => ?_)
    refine ensures_perform fun _ _ => Ensures.bind (ensures_ofExcept fun _ hok => ?_)
    obtain ⟨a, -, hleft⟩ := hunpacked hunpack hok
    have hdir : (placeWorld env remote place).next dir ⟨.unpack place part.backupKey format, unpacked⟩ =
        some ⟨a.checksums.or (dir.bind PartDir.checksums)⟩ := (next_placeWorld hunpack).trans hleft
    -- streaming the archive and removing it do not concern the directory
    change (placeWorld env remote place).Ensures ((placeWorld env remote place).next dir
      ⟨.unpack place part.backupKey format, unpacked⟩) _ _
    rw [hdir]
    split_ifs with hcrc
    · exact ensures_record ⟨_, rfl, fun _ hne => absurd hcrc hne⟩
    · refine Ensures.bind (ensures_callOrFail fun found actual hfound hread => ?_)
      have hsame := hread rfl actual hfound
      rw [next_placeWorld rfl]
      cases actual with
      | none => exact ensures_perform fun _ _ => ih _ _
      | some actual =>
        dsimp only
        split_ifs with heq
        · exact ensures_record ⟨_, rfl, fun _ _ => hsame.symm.trans (congrArg some heq)⟩
        · exact ensures_perform fun _ _ => ih _ _

theorem ensures_downloadLocalPart {item : DownloadWorkItem}
    (hplace : place = env.placeOf m item.tableKey item.diskName item.part.name)
    (harchive : ∀ a, remote.archives item.part.backupKey = some a → a.dirName = item.part.name) :
    (placeWorld env remote place).Ensures dir (env.downloadLocalPart m item)
      fun _ d => GoodDir item.part isS3 d := by
  have hname : place.partName = item.part.name := by rw [hplace, placeOf]
  have htries : ∀ attempts lastError dir, (placeWorld env remote place).Ensures dir
      (env.downloadTries place item.part m.dataFormat attempts lastError)
      fun _ d => GoodDir item.part isS3 d :=
    ensures_downloadTries fun a ha => (harchive a ha).trans hname.symm
  rw [downloadLocalPart]
  rw [← hplace]
  refine Ensures.bind (ensures_callOrFail fun _ _ _ _ => Ensures.bind ?_)
  change (placeWorld env remote place).Ensures dir _ _
  generalize (if item.part.checksumCrc64 ≠ 0 then env.retriesOnFailure + 1 else 1) = attempts
  have hfresh : ∀ d, (placeWorld env remote place).Ensures d
      (if false = true then env.record item.part
        else env.downloadTries place item.part m.dataFormat attempts none)
      fun _ d => GoodDir item.part isS3 d := by
    intro d
    rw [if_neg Bool.false_ne_true]
    exact htries _ _ _
  rw [dedupPart]
  split_ifs with hlink
  · cases hfound : env.findExistingPart m item.tableKey item.part.name item.part.checksumCrc64
        item.diskName with
    | none => exact ensures_ret (hfresh _)
    | some existing =>
      refine ensures_perform fun r hr => ensures_ret ?_
      cases hr1 : r.1 with
      | error e => exact hfresh _
      | ok a =>
        have hleft := hr rfl hr1
        rw [next_placeWorld rfl, Except.toBool, if_pos rfl]
        refine ensures_record ⟨_, hleft, fun _ _ => ?_⟩
        exact crcAt_of_findExistingPart hfound
  · exact ensures_ret (hfresh _)

/-- **An S3-disk part that returns has its directory.** -/
theorem ensures_downloadS3Part {item : DownloadWorkItem}
    (hplace : place = env.placeOf m item.tableKey item.diskName item.part.name) :
    (placeWorld env remote place).Ensures dir (env.downloadS3Part m item)
      fun _ d => GoodDir item.part true d := by
  rw [downloadS3Part]
  rw [← hplace]
  refine Ensures.bind (ensures_callOrFail fun _ objects _ _ => Ensures.bind (ensures_callOrFail fun r _ hr _ => ?_))
  change (placeWorld env remote place).Ensures
    ((placeWorld env remote place).next dir ⟨.createPartDir place, r⟩) _ _
  have hgood : GoodDir item.part true
      ((placeWorld env remote place).next dir ⟨.createPartDir place, r⟩) := by
    rw [next_placeWorld rfl]
    cases r with
    | ok a => exact ⟨_, rfl, fun h => absurd h (by decide)⟩
    | error e => cases hr
  refine Ensures.bind ((ensures_forEach hgood fun object _ d hd => ?_).imp fun _ d hd => ensures_record hd)
  rw [downloadMetadata]
  dsimp only
  split_ifs with hname hsafe
  · exact ensures_ret hd
  · exact Ensures.bind (ensures_callOrFail fun _ _ _ _ => ensures_ret hd)
  · refine Ensures.bind (ensures_callOrFail fun _ _ _ _ => ensures_callOrFail fun r _ _ hr => ?_)
    have hleft : r.2 ≠ none := hr rfl
    rw [next_placeWorld rfl]
    obtain ⟨d', hd'⟩ := Option.ne_none_iff_exists'.mp hleft
    exact ⟨d', hd', fun h => absurd h (by decide)⟩

/-- A task that is not cancelled runs its program. -/
theorem runs_of_cancellable {p : DownloadProg Empty (Except Str Unit)} {u : List DownloadEvent}
    {a : Except Str Unit} (h : Runs (cancellable p) u (.returned a))
    (hpolls : ∀ r, (⟨.isCancelled, r⟩ : DownloadEvent) ∈ u → r = false) :
    ∃ u', Runs p u' (.returned a) ∧
      ∀ K : DownloadCall → Bool, K .isCancelled = false → ofCalls K u' = ofCalls K u := by
  induction p generalizing u with
  | ret b => exact ⟨u, h, fun _ _ => rfl⟩
  | fail e => exact e.elim
  | call c k ih =>
    cases h with
    | @call _ _ t _ r h =>
      have hr : r = false := hpolls r List.mem_cons_self
      subst hr
      simp only [Bool.false_eq_true, if_false] at h
      cases h with
      | @call _ _ t _ r h =>
        obtain ⟨u', hu', heq⟩ := ih r h fun r' hr' =>
          hpolls r' (List.mem_cons_of_mem _ (List.mem_cons_of_mem _ hr'))
        refine ⟨⟨c, r⟩ :: u', Runs.call r hu', fun K hK => ?_⟩
        have hpoll : ofCalls K ((⟨.isCancelled, false⟩ : DownloadEvent) :: ⟨c, r⟩ :: t) =
            ofCalls K (⟨c, r⟩ :: t) := List.filter_cons_of_neg (by simp [hK])
        rw [hpoll, ofCalls_cons, heq K hK, ← ofCalls_cons]

end Part

end Chbackup
