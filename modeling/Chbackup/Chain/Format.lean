import Chbackup.Chain.Resolvable

/-!
# The compression of carried archives

An upload records its compression once, in the manifest, and a download uncompresses every archive
of the manifest with it.  An archive that is carried was made by an earlier upload, perhaps with
another compression.  The extension of a key says with which.

* `formats_agree`: every archive is uncompressed as it was compressed, if every upload finds its
  own extension on the keys of the archives that it does not write.
-/

namespace Chbackup

/-! ## `download` -/

/-- A part to download. -/
structure DownloadWorkItem where
  tableKey : Str
  diskName : Str
  part : PartInfo
  isS3DiskPart : Bool
  deriving DecidableEq

/-- The work items of a download: parts without a key and parts that were downloaded before are left
out, and so are metadata-only tables. -/
def downloadWorkItems (m : BackupManifest) (completedKeys : List Str) : List DownloadWorkItem :=
  ((plannedParts m).filter fun x =>
    x.2.2.backupKey ≠ [] && x.2.2.backupKey ∉ completedKeys).map fun x =>
      ⟨x.1, x.2.1, x.2.2, m.diskIsS3 x.2.1 && x.2.2.s3Objects.isSome⟩

/-- The archives that a download uncompresses, with the `data_format` it passes along.  Of an
S3-disk part only the metadata files are downloaded. -/
def decompressions (m : BackupManifest) (completedKeys : List Str) : List (Str × Str) :=
  ((downloadWorkItems m completedKeys).filter fun i => !i.isS3DiskPart).map fun i =>
    (i.part.backupKey, m.dataFormat)

/-- Every archive is uncompressed with the format it was compressed with. -/
def FormatsAgree (s : Site) : Prop :=
  ∀ n m, s.published.get? n = some m → ∀ completedKeys, ∀ a ∈ decompressions m completedKeys,
    ∀ o, s.object? a.1 = some o → o.format = some a.2

/-- The archives that an upload leaves as they are have the extension of its compression. -/
def KeepsExtension (isAlphanumeric : Char → Bool) (s : Site) : SiteCommand → Prop
  | .create _ => True
  | .upload u =>
    ∀ m prepared, s.localManifest u.env.backupName = some m →
      prepareManifest (u.envAt isAlphanumeric s) m = .ok prepared →
        ∀ x ∈ plannedParts prepared,
          needsUpload (u.envAt isAlphanumeric s) prepared
            (acceptedKeys (u.envAt isAlphanumeric s) (s.world u.env.backupName).stateFile)
            x.1 x.2.1 x.2.2 = false →
          (prepared.diskIsS3 x.2.1 && x.2.2.s3Objects.isSome) = false → x.2.2.backupKey ≠ [] →
            archiveExtension u.env.dataFormat <:+ x.2.2.backupKey

/-! ## Extensions -/

/-- One text does not end in two extensions. -/
theorem format_eq_of_extension {f g key : Str} (hf : f ∈ compressionFormats)
    (hg : g ∈ compressionFormats) (hfk : archiveExtension f <:+ key)
    (hgk : archiveExtension g <:+ key) : f = g := by
  have hsuffix : archiveExtension f <:+ archiveExtension g ∨ archiveExtension g <:+ archiveExtension f :=
    List.suffix_or_suffix_of_suffix hfk hgk
  have hall : ∀ f ∈ compressionFormats, ∀ g ∈ compressionFormats,
      archiveExtension f <:+ archiveExtension g ∨ archiveExtension g <:+ archiveExtension f → f = g := by
    decide +kernel
  exact hall f hf g hg hsuffix

/-- An archive is not a directory. -/
theorem not_slash_of_extension {f key : Str} (hf : f ∈ compressionFormats)
    (hfk : archiveExtension f <:+ key) : ¬['/'] <:+ key := by
  intro hslash
  have hsuffix : archiveExtension f <:+ ['/'] ∨ ['/'] <:+ archiveExtension f :=
    List.suffix_or_suffix_of_suffix hfk hslash
  have hall : ∀ f ∈ compressionFormats,
      ¬(archiveExtension f <:+ ['/'] ∨ ['/'] <:+ archiveExtension f) := by
    decide +kernel
  exact hall f hf hsuffix

/-! ## The invariant -/

/-- The key of a stored object says what it is. -/
def StoredPart.Named (o : StoredPart) : Prop :=
  (∃ f ∈ compressionFormats, o.format = some f ∧ archiveExtension f <:+ o.key) ∨
    o.format = none ∧ ['/'] <:+ o.key

/-- The archives of a manifest have its extension. -/
def BackupManifest.HasExtension (m : BackupManifest) : Prop :=
  m.dataFormat ∈ compressionFormats ∧
    ∀ x ∈ plannedParts m, (m.diskIsS3 x.2.1 && x.2.2.s3Objects.isSome) = false →
      x.2.2.backupKey ≠ [] → archiveExtension m.dataFormat <:+ x.2.2.backupKey

/-- What is stored is named after what it is, and published archives after their manifest. -/
structure WellNamed (s : Site) : Prop where
  written : ∀ o ∈ s.written, o.Named
  published : ∀ n m, s.published.get? n = some m → m.HasExtension

theorem s3KeyForPart_extension (env : UploadEnv) (t n : Str) :
    archiveExtension env.dataFormat <:+ env.s3KeyForPart t n := List.suffix_append _ _

/-- What a completed task has written is named after what it is. -/
theorem named_stored (env : UploadEnv) (hformat : env.dataFormat ∈ compressionFormats)
    {fate : UploadFate} {w : UploadWorld} {i : WorkItem} (h : i ∈ completedItems env fate w) :
    (i.stored env).Named := by
  obtain ⟨m, prepared, items, -, -, hplan, hi⟩ := mem_completedItems h
  obtain ⟨⟨t, d, p⟩, -, hplanned⟩ := (mem_planUpload hplan).1 i hi
  obtain ⟨-, hkey, harchive⟩ := planPart_item hplanned
  cases hkind : (prepared.diskIsS3 d && p.s3Objects.isSome) with
  | true =>
    rw [hkind, Bool.not_true] at harchive
    refine Or.inr ⟨?_, ?_⟩
    · simp [WorkItem.stored, harchive]
    · show ['/'] <:+ i.key env
      rw [hkey, partKey, if_pos hkind, UploadEnv.metadataKey]
      exact List.suffix_append _ _
  | false =>
    rw [hkind, Bool.not_false] at harchive
    refine Or.inl ⟨env.dataFormat, hformat, ?_, ?_⟩
    · simp [WorkItem.stored, harchive]
    · show archiveExtension env.dataFormat <:+ i.key env
      rw [hkey, partKey, hkind, if_neg Bool.false_ne_true]
      exact s3KeyForPart_extension env t p.name

/-- What an attempt publishes has its extension, if what it leaves as it is has it. -/
theorem hasExtension_merged {env : UploadEnv} {prepared : BackupManifest} {completedKeys : List Str}
    {items : List WorkItem} (hformat : env.dataFormat ∈ compressionFormats)
    (hplan : planUpload env prepared completedKeys = .ok items)
    (hkept : ∀ x ∈ plannedParts prepared,
      needsUpload env prepared completedKeys x.1 x.2.1 x.2.2 = false →
      (prepared.diskIsS3 x.2.1 && x.2.2.s3Objects.isSome) = false → x.2.2.backupKey ≠ [] →
        archiveExtension env.dataFormat <:+ x.2.2.backupKey) :
    (sealManifest env (mergeResults env items prepared)).HasExtension := by
  refine ⟨hformat, fun x hx hkind hkey => ?_⟩
  obtain ⟨t, d, p⟩ := x
  obtain ⟨parts, hd, hp⟩ := mem_plannedParts.mp hx
  obtain ⟨parts', p', hd', hp', rfl⟩ := onDisk_merged hplan hd hp
  have hx' : (t, d, p') ∈ plannedParts prepared := mem_plannedParts.mpr ⟨parts', hd', hp'⟩
  show archiveExtension env.dataFormat <:+ (mergedPart env prepared completedKeys t d p').backupKey
  have hkind : (prepared.diskIsS3 d &&
    (mergedPart env prepared completedKeys t d p').s3Objects.isSome) = false := hkind
  have hkey : (mergedPart env prepared completedKeys t d p').backupKey ≠ [] := hkey
  by_cases hneed : needsUpload env prepared completedKeys t d p' = true
  · rw [mergedPart, if_pos hneed] at hkind ⊢
    by_cases hs3 : (prepared.diskIsS3 d && p'.s3Objects.isSome) = true
    · -- an uploaded S3-disk part has its objects still
      rw [uploadedPart_of_s3 hs3, (Bool.and_eq_true_iff.mp hs3).1] at hkind
      cases hkind
    · rw [uploadedPart_of_archive hs3]
      exact s3KeyForPart_extension env t p'.name
  · rw [mergedPart, if_neg hneed] at hkind hkey ⊢
    rw [Bool.not_eq_true] at hneed
    exact hkept (t, d, p') hx' hneed hkind hkey

theorem wellNamed_fresh : WellNamed Site.fresh where
  written _ ho := absurd ho List.not_mem_nil
  published _ _ h := nomatch h

namespace WellNamed

variable {isAlphanumeric : Char → Bool} {s : Site}

/-- `create` stores and publishes nothing. -/
theorem create (h : WellNamed s) (c : CreateCommand) : WellNamed (c.run s) := by
  have hsame : (c.run s).written = s.written ∧ (c.run s).published = s.published := by
    unfold CreateCommand.run
    split
    · exact ⟨rfl, rfl⟩
    · split
      · exact ⟨rfl, rfl⟩
      · exact ⟨rfl, rfl⟩
      · split <;> exact ⟨rfl, rfl⟩
  refine ⟨?_, ?_⟩
  · rw [hsame.1]
    exact h.written
  · rw [hsame.2]
    exact h.published

/-- **`upload` keeps the names.** -/
theorem upload (h : WellNamed s) (u : UploadCommand)
    (hok : KeepsExtension isAlphanumeric s (.upload u)) : WellNamed (u.run isAlphanumeric s) := by
  refine ⟨fun o ho => ?_, fun n m hm => ?_⟩
  · rcases List.mem_append.mp ho with ho | ho
    · exact h.written o ho
    · obtain ⟨i, hi, rfl⟩ := List.mem_map.mp ho
      exact named_stored (u.envAt isAlphanumeric s) u.format_valid hi
  · rcases UploadCommand.published_run hm with ⟨-, hm⟩ | hm
    · cases hlocal : s.localManifest u.env.backupName with
      | none =>
        obtain ⟨hsame, -⟩ := @uploadAttempt_none (u.envAt isAlphanumeric s) u.fate
          (s.world u.env.backupName) hlocal
        rw [hsame] at hm
        exact h.published _ m hm
      | some m₁ =>
        obtain ⟨hpub, -⟩ := @uploadAttempt_manifests (u.envAt isAlphanumeric s) u.fate
          (s.world u.env.backupName) m₁ hlocal
        rcases hpub with hpub | ⟨m', hm', hpub⟩
        · rw [hpub] at hm
          exact h.published _ m hm
        · rw [hm'] at hm
          cases hm
          obtain ⟨prepared, items, hprepared, hplan, -, rfl⟩ := hpub
          exact hasExtension_merged u.format_valid hplan (hok m₁ prepared hlocal hprepared)
    · exact h.published n m hm

theorem formatsAgree (h : WellNamed s) : FormatsAgree s := by
  intro n m hm completedKeys a ha o ho
  obtain ⟨i, hi, rfl⟩ := List.mem_map.mp ha
  obtain ⟨hi, harchive⟩ := List.mem_filter.mp hi
  obtain ⟨x, hx, rfl⟩ := List.mem_map.mp hi
  obtain ⟨hx, hkey⟩ := List.mem_filter.mp hx
  obtain ⟨hformat, hext⟩ := h.published n m hm
  have hkind : (m.diskIsS3 x.2.1 && x.2.2.s3Objects.isSome) = false := by
    simpa only [Bool.not_eq_true'] using harchive
  have hne : x.2.2.backupKey ≠ [] := by
    have hand := (Bool.and_eq_true_iff.mp hkey).1
    simpa using hand
  have hsuffix := hext x hx hkind hne
  have hmem : o ∈ s.written := List.mem_reverse.mp (List.mem_of_find?_eq_some ho)
  have hok : o.key = x.2.2.backupKey := by simpa using List.find?_some ho
  rw [← hok] at hsuffix
  rcases h.written o hmem with ⟨f, hf, hof, hfk⟩ | ⟨-, hslash⟩
  · rw [hof, format_eq_of_extension hf hformat hfk hsuffix]
  · exact absurd hslash (not_slash_of_extension hformat hsuffix)

end WellNamed

/-- **Every archive is uncompressed as it was compressed** in every run whose uploads find their own
extension on the archives that they leave as they are. -/
theorem formats_agree (isAlphanumeric : Char → Bool) {s : Site}
    (hs : SiteReached isAlphanumeric (KeepsExtension isAlphanumeric) s) : FormatsAgree s := by
  have hinv : WellNamed s := by
    induction hs with
    | fresh => exact wellNamed_fresh
    | step c _ hok ih =>
      cases c with
      | create c => exact ih.create c
      | upload u => exact ih.upload u hok
  exact hinv.formatsAgree

/-- A base that is uploaded with `lz4`, and an incremental backup. -/
def compressedChain (format : Str) (h : format ∈ compressionFormats) : List SiteCommand :=
  [.create (createOne "full" full_valid none), .upload (uploadOne "full" "lz4" lz4_valid true),
    .create (createOne "incr" incr_valid (some "full")), .upload (uploadOne "incr" format h false)]

/-- What a download passes along for the archives of the incremental backup, and what they were
compressed with. -/
def downloadedFormats (s : Site) : Option (List (Str × Option Str)) :=
  (s.published.get? "incr".toList).map fun m =>
    (decompressions m []).map fun a => (a.2, (s.object? a.1).bind StoredPart.format)

/-- **One compression throughout**: the archive that is carried is uncompressed as it was
compressed. -/
theorem same_compression_agrees :
    downloadedFormats (Site.after (compressedChain "lz4" lz4_valid)) =
        some [("lz4".toList, some "lz4".toList)] ∧
      FormatsAgree (Site.after (compressedChain "lz4" lz4_valid)) := by
  refine ⟨by decide +kernel, formats_agree Char.isAlphanum ?_⟩
  -- the condition of an upload, evaluated
  have hkeeps : ∀ (commands : List SiteCommand) (u : UploadCommand),
      (∀ m ∈ (Site.after commands).localManifest u.env.backupName,
        ∀ prepared ∈ (prepareManifest (u.envAt Char.isAlphanum (Site.after commands)) m).toOption,
          ∀ x ∈ plannedParts prepared,
            needsUpload (u.envAt Char.isAlphanum (Site.after commands)) prepared
              (acceptedKeys (u.envAt Char.isAlphanum (Site.after commands))
                ((Site.after commands).world u.env.backupName).stateFile) x.1 x.2.1 x.2.2 = false →
            (prepared.diskIsS3 x.2.1 && x.2.2.s3Objects.isSome) = false → x.2.2.backupKey ≠ [] →
              archiveExtension u.env.dataFormat <:+ x.2.2.backupKey) →
        KeepsExtension Char.isAlphanum (Site.after commands) (.upload u) := by
    intro commands u h m prepared hm hprepared
    refine h m hm prepared ?_
    rw [hprepared]
    rfl
  simp only [Site.after, compressedChain, List.foldl_cons, List.foldl_nil] at hkeeps ⊢
  refine .step _ (.step _ (.step _ (.step _ .fresh trivial) ?_) trivial) ?_
  · exact hkeeps [.create (createOne "full" full_valid none)] _ (by decide +kernel)
  · exact hkeeps [.create (createOne "full" full_valid none),
      .upload (uploadOne "full" "lz4" lz4_valid true),
      .create (createOne "incr" incr_valid (some "full"))] _ (by decide +kernel)

/-- **The compression changes**: the archive that is carried was compressed with `lz4`, and the
download uncompresses it with `zstd`. -/
theorem changed_compression_disagrees :
    ¬∀ s, SiteReached Char.isAlphanum (fun _ _ => True) s → FormatsAgree s := by
  intro hall
  have hformats : downloadedFormats (Site.after (compressedChain "zstd" (by decide))) =
      some [("zstd".toList, some "lz4".toList)] := by
    decide +kernel
  have hreached : SiteReached Char.isAlphanum (fun _ _ => True)
      (Site.after (compressedChain "zstd" (by decide))) := by
    simp only [Site.after, compressedChain, List.foldl_cons, List.foldl_nil]
    exact .step _ (.step _ (.step _ (.step _ .fresh trivial) trivial) trivial) trivial
  obtain ⟨m, hm, hlist⟩ := Option.map_eq_some_iff.mp hformats
  have hmem : ("zstd".toList, some "lz4".toList) ∈ (decompressions m []).map fun a =>
      (a.2, ((Site.after (compressedChain "zstd" (by decide))).object? a.1).bind
        StoredPart.format) := by
    rw [hlist]
    exact List.mem_singleton_self _
  obtain ⟨a, ha, heq⟩ := List.mem_map.mp hmem
  obtain ⟨hdata, hstored⟩ := Prod.ext_iff.mp heq
  obtain ⟨o, ho, hformat⟩ := Option.bind_eq_some_iff.mp hstored
  have hagree := hall _ hreached _ m hm [] a ha o ho
  rw [hformat, show a.2 = "zstd".toList from hdata] at hagree
  exact absurd hagree (by decide)

end Chbackup
