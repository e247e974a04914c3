import Chbackup.Chain.Commands

/-!
# Carried references

A part that is carried takes the key that the base records for it.  A base that was read from the
bucket records a key for every part; a local base records one only for the parts that it carried
itself, until it is uploaded.  So a chain of local bases can be published without the data of the
parts that its first member has not uploaded.

* `Traceable`: what holds of a site, given what was collected for each backup.
* `carried_parts_resolve`: every published part resolves, if every command that leaves a part to
  an earlier one finds a key for it.
-/

namespace Chbackup

/-! ## The property -/

/-- Under the key of a part lies an object that was made of such a part. -/
def Resolves (s : Site) (t d : Str) (p : PartInfo) : Prop :=
  p.backupKey ≠ [] ∧ ∃ o, s.object? p.backupKey = some o ∧ o.origin = p.origin t d

/-- Every part of every published manifest resolves. -/
def AllResolve (s : Site) : Prop :=
  ∀ n m, s.published.get? n = some m → ∀ t mo d parts, m.OnDisk t mo d parts →
    ∀ p ∈ parts, Resolves s t d p

/-! ## The condition -/

section Condition

variable (isAlphanumeric : Char → Bool)

/-- No two parts of a backup are given the same key, whatever the compression. -/
def KeysApart (name : Str) (m : BackupManifest) : Prop :=
  ∀ env env' : UploadEnv, env.backupName = name → env'.backupName = name →
    env.isAlphanumeric = isAlphanumeric → env'.isAlphanumeric = isAlphanumeric →
    ∀ t mo d parts t' mo' d' parts', m.OnDisk t mo d parts → m.OnDisk t' mo' d' parts' →
      ∀ p ∈ parts, ∀ p' ∈ parts', partKey env m t d p = partKey env' m t' d' p' →
        p.origin t d = p'.origin t' d'

/-- A part that a command leaves to an earlier one has a key: a part that `create` finds in a local
base, and a part that `upload` takes as completed. -/
def FindsKeys (s : Site) : SiteCommand → Prop
  | .create c =>
    KeysApart isAlphanumeric c.name c.manifest ∧
      (c.remoteBase s = none → ∀ base, c.diffFrom.bind s.localManifest = some base →
        ∀ t mo d parts, c.manifest.OnDisk t mo d parts → ∀ p ∈ parts, ∀ q,
          baseLookup base t d p.name = some q → p.checksumCrc64 = q.checksumCrc64 → q.backupKey ≠ [])
  | .upload u =>
    ∀ m prepared, s.localManifest u.env.backupName = some m →
      prepareManifest (u.envAt isAlphanumeric s) m = .ok prepared →
        ∀ x ∈ plannedParts prepared, x.2.2.isCarried = false →
          partKey (u.envAt isAlphanumeric s) prepared x.1 x.2.1 x.2.2 ∈
            acceptedKeys (u.envAt isAlphanumeric s) (s.world u.env.backupName).stateFile →
          x.2.2.backupKey ≠ []

end Condition

/-! ## Parts that can be traced -/

/-- Something made of the origin was written under the key. -/
def WrittenFrom (written : List StoredPart) (key : Str) (origin : PartOrigin) : Prop :=
  ∃ o ∈ written, o.key = key ∧ o.origin = origin

/-- A part of a local manifest: it was collected, it has a key if it is carried, and something was
written under the key if it has one. -/
structure PartTraced (written : List StoredPart) (m₀ : BackupManifest) (t d : Str) (p : PartInfo) :
    Prop where
  collected : ∃ mo parts p₀, m₀.OnDisk t mo d parts ∧ p₀ ∈ parts ∧ p₀.origin t d = p.origin t d ∧
    (p.isCarried = false → p₀.s3Objects.isSome = p.s3Objects.isSome)
  carried : p.isCarried = true → p.backupKey ≠ []
  stored : p.backupKey ≠ [] → WrittenFrom written p.backupKey (p.origin t d)

/-- A local manifest, compared with what was collected for it. -/
structure LocalTraced (written : List StoredPart) (m₀ m : BackupManifest) : Prop where
  diskTypes : m.diskTypes = m₀.diskTypes
  metadataOnly : ∀ t d parts, m.OnDisk t true d parts → parts = []
  parts : ∀ t mo d parts, m.OnDisk t mo d parts → ∀ p ∈ parts, PartTraced written m₀ t d p

/-- Every part of a published manifest has a key that was written. -/
def PublishedTraced (written : List StoredPart) (m : BackupManifest) : Prop :=
  ∀ t mo d parts, m.OnDisk t mo d parts → ∀ p ∈ parts,
    p.backupKey ≠ [] ∧ WrittenFrom written p.backupKey (p.origin t d)

section Parts

variable {written written' : List StoredPart} {m₀ m : BackupManifest} {t d : Str} {p : PartInfo}

theorem WrittenFrom.mono {key : Str} {origin : PartOrigin} (hsub : written ⊆ written')
    (h : WrittenFrom written key origin) : WrittenFrom written' key origin := by
  obtain ⟨o, ho, hkey, horigin⟩ := h
  exact ⟨o, hsub ho, hkey, horigin⟩

theorem PartTraced.mono (hsub : written ⊆ written') (h : PartTraced written m₀ t d p) :
    PartTraced written' m₀ t d p :=
  ⟨h.collected, h.carried, fun hkey => (h.stored hkey).mono hsub⟩

theorem LocalTraced.mono (hsub : written ⊆ written') (h : LocalTraced written m₀ m) :
    LocalTraced written' m₀ m :=
  ⟨h.diskTypes, h.metadataOnly, fun t mo d parts hd p hp =>
    (h.parts t mo d parts hd p hp).mono hsub⟩

theorem PublishedTraced.mono (hsub : written ⊆ written') (h : PublishedTraced written m) :
    PublishedTraced written' m := by
  intro t mo d parts hd p hp
  obtain ⟨hkey, hw⟩ := h t mo d parts hd p hp
  exact ⟨hkey, hw.mono hsub⟩

/-- What the lookup finds is a part of the base. -/
theorem baseLookup_onDisk {base : BackupManifest} {n : Str} {q : PartInfo}
    (h : baseLookup base t d n = some q) :
    ∃ mo parts, base.OnDisk t mo d parts ∧ q ∈ parts ∧ q.name = n := by
  obtain ⟨table, htable, h⟩ := Option.bind_eq_some_iff.mp h
  obtain ⟨parts, hparts, h⟩ := Option.bind_eq_some_iff.mp h
  refine ⟨table.metadataOnly, parts, ⟨table, SortedMap.get?_eq_some_iff.mp htable, rfl,
    SortedMap.get?_eq_some_iff.mp hparts⟩, ?_, ?_⟩
  · exact List.mem_reverse.mp (List.mem_of_find?_eq_some h)
  · simpa using List.find?_some h

/-- The diff keeps a part that can be traced, if the base has a key for what it carries. -/
theorem PartTraced.diff {base : BackupManifest} (h : PartTraced written m₀ t d p)
    (hbase : ∀ q, baseLookup base t d p.name = some q → p.checksumCrc64 = q.checksumCrc64 →
      q.backupKey ≠ [] ∧ WrittenFrom written q.backupKey (q.origin t d)) :
    PartTraced written m₀ t d (diffPart base t d p) := by
  unfold diffPart
  cases hlookup : baseLookup base t d p.name with
  | none => exact h
  | some q =>
    dsimp only
    split
    · rename_i hcrc
      obtain ⟨hkey, hw⟩ := hbase q hlookup hcrc
      obtain ⟨-, -, -, -, hname⟩ := baseLookup_onDisk hlookup
      have horigin : q.origin t d = p.origin t d := by
        rw [PartInfo.origin, PartInfo.origin, hname, hcrc]
      have hcarried : carriedPrefix.isPrefixOf (carriedPrefix ++ base.name) = true :=
        List.isPrefixOf_iff_prefix.mpr (List.prefix_append _ _)
      obtain ⟨mo, parts, p₀, hd, hp₀, heq, -⟩ := h.collected
      refine ⟨⟨mo, parts, p₀, hd, hp₀, heq, fun hno => ?_⟩, fun _ => hkey, fun _ => ?_⟩
      · rw [PartInfo.isCarried, hcarried] at hno
        cases hno
      · rw [horigin] at hw
        exact hw
    · exact h

end Parts

/-! ## Manifests that can be traced -/

section Manifests

variable {written : List StoredPart} {m₀ m base : BackupManifest}

/-- What was collected can be traced. -/
theorem CreateCommand.traced (c : CreateCommand) : LocalTraced written c.manifest c.manifest where
  diskTypes := rfl
  metadataOnly := c.collected.metadataOnly
  parts t mo d parts hd p hp := by
    obtain ⟨table, ht, hmo, hparts⟩ := hd
    obtain ⟨hkey, hcarried⟩ := c.collected.new p
      (BackupManifest.mem_allParts.mpr ⟨t, table, d, parts, ht, hparts, hp⟩)
    refine ⟨⟨mo, parts, p, ⟨table, ht, hmo, hparts⟩, hp, rfl, fun _ => rfl⟩, fun hc => ?_,
      fun hne => absurd hkey hne⟩
    rw [hcarried] at hc
    cases hc

/-- The diff keeps a manifest that can be traced, if the base has a key for what it carries. -/
theorem LocalTraced.diff (h : LocalTraced written m₀ m)
    (hbase : ∀ t mo d parts, m.OnDisk t mo d parts → ∀ p ∈ parts, ∀ q,
      baseLookup base t d p.name = some q → p.checksumCrc64 = q.checksumCrc64 →
        q.backupKey ≠ [] ∧ WrittenFrom written q.backupKey (q.origin t d)) :
    LocalTraced written m₀ (diffParts m base) := by
  have hmap : diffParts m base = m.mapParts fun t _ d parts => parts.map (diffPart base t d) := rfl
  rw [hmap]
  refine ⟨h.diskTypes, fun t d parts hd => ?_, fun t mo d parts hd p hp => ?_⟩
  · obtain ⟨parts', hd', rfl⟩ := BackupManifest.onDisk_mapParts.mp hd
    rw [h.metadataOnly t d parts' hd']
    rfl
  · obtain ⟨parts', hd', rfl⟩ := BackupManifest.onDisk_mapParts.mp hd
    obtain ⟨q, hq, rfl⟩ := List.mem_map.mp hp
    exact (h.parts t mo d parts' hd' q hq).diff (hbase t mo d parts' hd' q hq)

/-- A published base has a key for everything. -/
theorem PublishedTraced.lookup (h : PublishedTraced written base) {t d n : Str} {q : PartInfo}
    (hq : baseLookup base t d n = some q) :
    q.backupKey ≠ [] ∧ WrittenFrom written q.backupKey (q.origin t d) := by
  obtain ⟨mo, parts, hd, hmem, -⟩ := baseLookup_onDisk hq
  exact h t mo d parts hd q hmem

/-- A local base has written whatever it has a key for. -/
theorem LocalTraced.lookup (h : LocalTraced written m₀ base) {t d n : Str} {q : PartInfo}
    (hq : baseLookup base t d n = some q) (hkey : q.backupKey ≠ []) :
    WrittenFrom written q.backupKey (q.origin t d) := by
  obtain ⟨mo, parts, hd, hmem, -⟩ := baseLookup_onDisk hq
  exact (h.parts t mo d parts hd q hmem).stored hkey

end Manifests

/-! ## Keys -/

section Keys

variable {env : UploadEnv} {m m' : BackupManifest} {t d : Str}

/-- The key of a part begins with the name of its backup. -/
theorem backupName_prefix_partKey (p : PartInfo) :
    env.backupName ++ ['/'] <+: partKey env m t d p := by
  have hpre : env.backupName ++ ['/'] <+: env.tableDataKey t := by
    refine ⟨"data/".toList ++ encodePathComponent env.isAlphanumeric (splitTableKey t).1 ++ "/" ++
      encodePathComponent env.isAlphanumeric (splitTableKey t).2 ++ "/", ?_⟩
    simp only [UploadEnv.tableDataKey, List.append_assoc]
    rfl
  unfold partKey
  split
  · refine hpre.trans ?_
    rw [UploadEnv.metadataKey, List.append_assoc, List.append_assoc, List.append_assoc]
    exact List.prefix_append _ _
  · refine hpre.trans ?_
    rw [UploadEnv.s3KeyForPart, List.append_assoc]
    exact List.prefix_append _ _

/-- The key depends on the types of the disks, the name, and whether there are objects. -/
theorem partKey_congr {p p' : PartInfo} (htypes : m.diskTypes = m'.diskTypes)
    (hname : p.name = p'.name) (hs3 : p.s3Objects.isSome = p'.s3Objects.isSome) :
    partKey env m t d p = partKey env m' t d p' := by
  rw [partKey, partKey, diskIsS3_congr htypes, hname, hs3]

end Keys

/-! ## The invariant -/

/-- What holds of a site, given what was collected for each of its backups. -/
structure Traceable (isAlphanumeric : Char → Bool) (collected : Str → Option BackupManifest)
    (s : Site) : Prop where
  directories : ∀ n, s.directories.get? n = none → collected n = none
  apart : ∀ n m₀, collected n = some m₀ → '/' ∉ n ∧ KeysApart isAlphanumeric n m₀
  locals : ∀ n m, s.localManifest n = some m →
    ∃ m₀, collected n = some m₀ ∧ LocalTraced s.written m₀ m
  published : ∀ n m, s.published.get? n = some m → PublishedTraced s.written m
  written : ∀ o ∈ s.written, ∃ (env : UploadEnv) (m₀ : BackupManifest) (t : Str) (mo : Bool)
    (d : Str) (parts : List PartInfo) (p : PartInfo), collected env.backupName = some m₀ ∧
      env.isAlphanumeric = isAlphanumeric ∧ m₀.OnDisk t mo d parts ∧ p ∈ parts ∧
      o.key = partKey env m₀ t d p ∧ o.origin = p.origin t d

namespace Traceable

variable {isAlphanumeric : Char → Bool} {collected : Str → Option BackupManifest} {s : Site}

/-- What lies under one key was made of one part. -/
theorem origin_unique (h : Traceable isAlphanumeric collected s) {o o' : StoredPart}
    (ho : o ∈ s.written) (ho' : o' ∈ s.written) (hkey : o.key = o'.key) : o.origin = o'.origin := by
  obtain ⟨env, m₀, t, mo, d, parts, p, hc, hal, hd, hp, hk, horigin⟩ := h.written o ho
  obtain ⟨env', m₀', t', mo', d', parts', p', hc', hal', hd', hp', hk', horigin'⟩ := h.written o' ho'
  have hname : env.backupName = env'.backupName := by
    refine Str.append_cons_prefix_inj (h.apart _ _ hc).1 (h.apart _ _ hc').1
      (s := o.key) ?_ ?_
    · rw [hk]
      exact backupName_prefix_partKey p
    · rw [hkey, hk']
      exact backupName_prefix_partKey p'
  rw [hname, hc'] at hc
  cases hc
  have hapart := (h.apart _ _ hc').2 env env' hname rfl hal hal' t mo d parts t' mo' d' parts'
    hd hd' p hp p' hp' (by rw [← hk, ← hk', hkey])
  rw [horigin, horigin', hapart]

/-- A part whose key was written resolves. -/
theorem resolves (h : Traceable isAlphanumeric collected s) {t d : Str} {p : PartInfo}
    (hkey : p.backupKey ≠ []) (hw : WrittenFrom s.written p.backupKey (p.origin t d)) :
    Resolves s t d p := by
  obtain ⟨o, ho, hok, horigin⟩ := hw
  refine ⟨hkey, ?_⟩
  cases hfind : s.object? p.backupKey with
  | none =>
    have hnone := List.find?_eq_none.mp hfind o (List.mem_reverse.mpr ho)
    exact absurd (decide_eq_true hok) hnone
  | some o' =>
    have ho' : o' ∈ s.written := List.mem_reverse.mp (List.mem_of_find?_eq_some hfind)
    have hok' : o'.key = p.backupKey := by simpa using List.find?_some hfind
    exact ⟨o', rfl, (h.origin_unique ho' ho (hok'.trans hok.symm)).trans horigin⟩

theorem allResolve (h : Traceable isAlphanumeric collected s) : AllResolve s := by
  intro n m hm t mo d parts hd p hp
  obtain ⟨hkey, hw⟩ := h.published n m hm t mo d parts hd p hp
  exact h.resolves hkey hw

/-- A directory without a manifest. -/
theorem create_broken (h : Traceable isAlphanumeric collected s) (name : Str) :
    Traceable isAlphanumeric collected
      { s with directories := s.directories.insert name none } := by
  refine ⟨fun n hn => ?_, h.apart, fun n m hm => ?_, h.published, h.written⟩
  · rw [SortedMap.get?_insert] at hn
    split at hn
    · cases hn
    · exact h.directories n hn
  · rw [Site.localManifest, SortedMap.get?_insert] at hm
    split at hm
    · cases hm
    · exact h.locals n m hm

/-- A new manifest that can be traced. -/
theorem create_manifest (h : Traceable isAlphanumeric collected s) {name : Str}
    {m₀ m : BackupManifest} (hnew : s.directories.get? name = none) (hname : '/' ∉ name)
    (hapart : KeysApart isAlphanumeric name m₀) (hm : LocalTraced s.written m₀ m) :
    Traceable isAlphanumeric (Function.update collected name (some m₀))
      { s with directories := s.directories.insert name (some m) } := by
  have hnone := h.directories name hnew
  have hold : ∀ n m', collected n = some m' →
      Function.update collected name (some m₀) n = some m' := by
    intro n m' hn
    rw [Function.update_of_ne, hn]
    intro heq
    rw [heq, hnone] at hn
    cases hn
  refine ⟨fun n hn => ?_, fun n m' hn => ?_, fun n m' hn => ?_, h.published, fun o ho => ?_⟩
  · rw [SortedMap.get?_insert] at hn
    split at hn
    · cases hn
    · rename_i hne
      rw [Function.update_of_ne hne]
      exact h.directories n hn
  · by_cases heq : n = name
    · subst heq
      rw [Function.update_self] at hn
      cases hn
      exact ⟨hname, hapart⟩
    · rw [Function.update_of_ne heq] at hn
      exact h.apart n m' hn
  · rw [Site.localManifest, SortedMap.get?_insert] at hn
    split at hn
    · rename_i heq
      cases hn
      rw [heq]
      exact ⟨m₀, Function.update_self .., hm⟩
    · obtain ⟨m₁, hm₁, htraced⟩ := h.locals n m' hn
      exact ⟨m₁, hold n m₁ hm₁, htraced⟩
  · obtain ⟨env, m₁, t, mo, d, parts, p, hc, hrest⟩ := h.written o ho
    exact ⟨env, m₁, t, mo, d, parts, p, hold _ _ hc, hrest⟩

/-- **`create` keeps a site traceable.** -/
theorem create (h : Traceable isAlphanumeric collected s) (c : CreateCommand)
    (hok : FindsKeys isAlphanumeric s (.create c)) :
    ∃ collected', Traceable isAlphanumeric collected' (c.run s) := by
  obtain ⟨hapart, hbase⟩ := hok
  have hfresh : LocalTraced s.written c.manifest c.manifest := c.traced
  unfold CreateCommand.run
  split
  · exact ⟨collected, h⟩
  · rename_i hdir
    have hnew : s.directories.get? c.name = none := Option.not_isSome_iff_eq_none.mp hdir
    split
    · exact ⟨collected, h.create_broken c.name⟩
    · exact ⟨collected, h⟩
    · split
      · exact ⟨collected, h.create_broken c.name⟩
      · rename_i base heff
        refine ⟨_, h.create_manifest hnew c.name_valid hapart ?_⟩
        unfold CreateCommand.effectiveBase at heff
        cases hremote : c.remoteBase s with
        | some remote =>
          rw [hremote] at heff
          cases heff
          -- the remote base was published
          obtain ⟨n, -, hn⟩ := Option.bind_eq_some_iff.mp hremote
          split at hn
          · exact hfresh.diff fun t mo d parts _ p _ q hq _ => (h.published n remote hn).lookup hq
          · cases hn
        | none =>
          rw [hremote] at heff
          cases hdiff : c.diffFrom with
          | none =>
            rw [hdiff] at heff
            cases heff
            exact hfresh
          | some n =>
            rw [hdiff] at heff
            dsimp only at heff
            cases hlocal : s.localManifest n with
            | none =>
              rw [hlocal] at heff
              cases heff
            | some b =>
              rw [hlocal] at heff
              cases heff
              obtain ⟨m₁, -, htraced⟩ := h.locals n b hlocal
              refine hfresh.diff fun t mo d parts hd p hp q hq hcrc => ?_
              have hkey := hbase hremote b (by rw [hdiff]; exact hlocal) t mo d parts hd p hp q hq hcrc
              exact ⟨hkey, htraced.lookup hq hkey⟩

/-- The manifest an attempt works on can be traced. -/
theorem prepared (h : Traceable isAlphanumeric collected s) {u : UploadCommand}
    {m₀ m prepared : BackupManifest} (hm : LocalTraced s.written m₀ m)
    (hp : prepareManifest (u.envAt isAlphanumeric s) m = .ok prepared) :
    LocalTraced s.written m₀ prepared := by
  have hlive : LocalTraced s.written m₀ (overrideDiskPaths (u.envAt isAlphanumeric s) m) :=
    ⟨hm.diskTypes, hm.metadataOnly, hm.parts⟩
  unfold prepareManifest at hp
  split at hp
  · cases hp
    exact hlive
  · rename_i base hbase
    cases hread : (u.envAt isAlphanumeric s).baseManifest with
    | error e =>
      rw [hread] at hp
      cases hp
    | ok b =>
      rw [hread] at hp
      cases hp
      have hpublished : s.published.get? base = some b := by
        have hdiff : u.env.diffFromRemote = some base := hbase
        simp only [UploadCommand.envAt, hdiff, Option.bind_some] at hread
        split at hread
        · cases hread
          assumption
        · cases hread
        · cases hread
      exact hlive.diff fun t mo d parts _ p _ q hq _ => (h.published base b hpublished).lookup hq

end Traceable

section Uploaded

variable {env : UploadEnv} {written : List StoredPart} {m₀ prepared : BackupManifest}
  {completedKeys : List Str} {items : List WorkItem}

/-- A part after the merge: it is traced, and has a key unless it was taken as completed without
one. -/
theorem PartTraced.merged (env : UploadEnv) (prepared : BackupManifest) (completedKeys : List Str)
    {t d : Str} {p : PartInfo} (h : PartTraced written m₀ t d p)
    (hitem : needsUpload env prepared completedKeys t d p = true →
      WrittenFrom written (partKey env prepared t d p) (p.origin t d)) :
    PartTraced written m₀ t d (mergedPart env prepared completedKeys t d p) ∧
      ((p.isCarried = false → partKey env prepared t d p ∈ completedKeys → p.backupKey ≠ []) →
        (mergedPart env prepared completedKeys t d p).backupKey ≠ []) := by
  by_cases hneed : needsUpload env prepared completedKeys t d p = true
  · rw [mergedPart, if_pos hneed]
    have hcarried : p.isCarried = false := by
      rw [needsUpload, Bool.and_eq_true, Bool.not_eq_true'] at hneed
      exact hneed.1
    have horigin : (uploadedPart env prepared t d p).origin t d = p.origin t d := by
      rw [PartInfo.origin, PartInfo.origin, uploadedPart_name, uploadedPart_checksumCrc64]
    have hkey := @uploadedPart_backupKey env prepared t d p
    refine ⟨⟨?_, fun hc => ?_, fun _ => ?_⟩, fun _ => ?_⟩
    · obtain ⟨mo, parts, p₀, hd, hp₀, heq, hs3⟩ := h.collected
      refine ⟨mo, parts, p₀, hd, hp₀, heq.trans horigin.symm, fun _ => ?_⟩
      rw [hs3 hcarried]
      by_cases hkind : (prepared.diskIsS3 d && p.s3Objects.isSome) = true
      · rw [uploadedPart_of_s3 hkind]
        exact (Bool.and_eq_true_iff.mp hkind).2
      · rw [uploadedPart_of_archive hkind]
    · rw [uploadedPart_isCarried] at hc
      cases hc
    · rw [hkey, horigin]
      exact hitem hneed
    · rw [hkey]
      exact partKey_ne_nil prepared t d p
  · rw [mergedPart, if_neg hneed]
    refine ⟨h, fun hskip => ?_⟩
    cases hcarried : p.isCarried with
    | true => exact h.carried hcarried
    | false =>
      refine hskip hcarried ?_
      rw [needsUpload, hcarried, Bool.not_false, Bool.true_and, decide_eq_true_iff, not_not] at hneed
      exact hneed

/-- The manifest that an attempt publishes and saves. -/
theorem LocalTraced.merged (h : LocalTraced written m₀ prepared)
    (hplan : planUpload env prepared completedKeys = .ok items)
    (hitems : ∀ i ∈ items, i.stored env ∈ written) :
    LocalTraced written m₀ (sealManifest env (mergeResults env items prepared)) ∧
      ((∀ x ∈ plannedParts prepared, x.2.2.isCarried = false →
          partKey env prepared x.1 x.2.1 x.2.2 ∈ completedKeys → x.2.2.backupKey ≠ []) →
        PublishedTraced written (sealManifest env (mergeResults env items prepared))) := by
  -- every part is a merged part, and only those of tables with data are there
  have hpart : ∀ t mo d parts, (sealManifest env (mergeResults env items prepared)).OnDisk t mo d parts →
      ∀ p ∈ parts, mo = false ∧ ∃ parts' p', prepared.OnDisk t mo d parts' ∧ p' ∈ parts' ∧
        p = mergedPart env prepared completedKeys t d p' := by
    intro t mo d parts hd p hp
    obtain ⟨parts', p', hd', hp', heq⟩ := onDisk_merged hplan hd hp
    cases mo with
    | true =>
      rw [h.metadataOnly t d parts' hd'] at hp'
      cases hp'
    | false => exact ⟨rfl, parts', p', hd', hp', heq⟩
  have hmerged : ∀ t d parts' p', prepared.OnDisk t false d parts' → p' ∈ parts' → _ :=
    fun t d parts' p' hd' hp' =>
      (h.parts t false d parts' hd' p' hp').merged env prepared completedKeys fun hneed => by
        obtain ⟨i, hi, hplanned⟩ := (mem_planUpload hplan).2 (t, d, p')
          (mem_plannedParts.mpr ⟨parts', hd', hp'⟩) hneed
        obtain ⟨⟨ht, hdisk, hp⟩, hkey, -⟩ := planPart_item hplanned
        refine ⟨i.stored env, hitems i hi, hkey, ?_⟩
        show i.part.origin i.tableKey i.diskName = p'.origin t d
        rw [ht, hdisk, hp]
  constructor
  · refine ⟨h.diskTypes, fun t d parts hd => ?_, fun t mo d parts hd p hp => ?_⟩
    · refine List.eq_nil_iff_forall_not_mem.mpr fun p hp => ?_
      cases (hpart t true d parts hd p hp).1
    · obtain ⟨rfl, parts', p', hd', hp', rfl⟩ := hpart t mo d parts hd p hp
      exact (hmerged t d parts' p' hd' hp').1
  · intro hskip t mo d parts hd p hp
    obtain ⟨rfl, parts', p', hd', hp', rfl⟩ := hpart t mo d parts hd p hp
    obtain ⟨htraced, hkey⟩ := hmerged t d parts' p' hd' hp'
    have hne := hkey (hskip (t, d, p') (mem_plannedParts.mpr ⟨parts', hd', hp'⟩))
    exact ⟨hne, htraced.stored hne⟩

end Uploaded

namespace Traceable

variable {isAlphanumeric : Char → Bool} {collected : Str → Option BackupManifest} {s : Site}

/-- What the completed tasks of an attempt have written was collected. -/
theorem stored_collected (h : Traceable isAlphanumeric collected s) {u : UploadCommand}
    {i : WorkItem}
    (hi : i ∈ completedItems (u.envAt isAlphanumeric s) u.fate (s.world u.env.backupName)) :
    ∃ (env : UploadEnv) (m₀ : BackupManifest) (t : Str) (mo : Bool) (d : Str)
      (parts : List PartInfo) (p : PartInfo), collected env.backupName = some m₀ ∧
      env.isAlphanumeric = isAlphanumeric ∧ m₀.OnDisk t mo d parts ∧ p ∈ parts ∧
      (i.stored (u.envAt isAlphanumeric s)).key = partKey env m₀ t d p ∧
      (i.stored (u.envAt isAlphanumeric s)).origin = p.origin t d := by
  obtain ⟨m, prepared, items, hm, hprepared, hplan, hmem⟩ := mem_completedItems hi
  obtain ⟨m₀, hc, hlocal⟩ := h.locals _ m hm
  have htraced := h.prepared hlocal hprepared
  obtain ⟨⟨t, d, p⟩, hx, hplanned⟩ := (mem_planUpload hplan).1 i hmem
  obtain ⟨⟨ht, hdisk, hp⟩, hkey, -⟩ := planPart_item hplanned
  obtain ⟨parts, hd, hpmem⟩ := mem_plannedParts.mp hx
  have hcarried : p.isCarried = false := by
    cases planPart_planned hplanned with
    | item _ hcarried => exact hcarried
  obtain ⟨mo, parts₀, p₀, hd₀, hp₀, horigin, hs3⟩ :=
    (htraced.parts t false d parts hd p hpmem).collected
  refine ⟨u.envAt isAlphanumeric s, m₀, t, mo, d, parts₀, p₀, hc, rfl, hd₀, hp₀, ?_, ?_⟩
  · refine hkey.trans (partKey_congr htraced.diskTypes ?_ (hs3 hcarried).symm)
    exact (congrArg PartOrigin.partName horigin).symm
  · show i.part.origin i.tableKey i.diskName = p₀.origin t d
    rw [ht, hdisk, hp, horigin]

/-- **`upload` keeps a site traceable.** -/
theorem upload (h : Traceable isAlphanumeric collected s) (u : UploadCommand)
    (hok : FindsKeys isAlphanumeric s (.upload u)) :
    Traceable isAlphanumeric collected (u.run isAlphanumeric s) := by
  set env := u.envAt isAlphanumeric s with henv
  set name := u.env.backupName with hname
  set w := (uploadAttempt env u.fate (s.world name)).2 with hw
  set new := (completedItems env u.fate (s.world name)).map (WorkItem.stored env) with hnew
  have hsub : s.written ⊆ s.written ++ new := List.subset_append_left _ _
  -- the manifests that the command leaves behind can be traced
  have hmanifests : (∀ m', w.localManifest = some m' →
        ∃ m₀, collected name = some m₀ ∧ LocalTraced (s.written ++ new) m₀ m') ∧
      ∀ m', w.published = some m' → PublishedTraced (s.written ++ new) m' := by
    cases hlocal : s.localManifest name with
    | none =>
      obtain ⟨hsame, -⟩ := @uploadAttempt_none env u.fate (s.world name) hlocal
      rw [← hw] at hsame
      refine ⟨fun m' hm' => ?_, fun m' hm' => ?_⟩
      · rw [hsame] at hm'
        rw [show (s.world name).localManifest = none from hlocal] at hm'
        cases hm'
      · rw [hsame] at hm'
        exact (h.published name m' hm').mono hsub
    | some m =>
      obtain ⟨m₀, hc, htraced⟩ := h.locals name m hlocal
      have hcompleted : ∀ m', Completed env u.fate (s.world name) m m' →
          LocalTraced (s.written ++ new) m₀ m' ∧ PublishedTraced (s.written ++ new) m' := by
        intro m' hm'
        obtain ⟨prepared, items, hprepared, hplan, hitems, rfl⟩ := hm'
        obtain ⟨hl, hp⟩ := ((h.prepared htraced hprepared).mono hsub).merged hplan
          fun i hi => List.mem_append_right _ (List.mem_map_of_mem (hitems i hi))
        exact ⟨hl, hp (hok m prepared hlocal hprepared)⟩
      obtain ⟨hpub, hloc⟩ := @uploadAttempt_manifests env u.fate (s.world name) m hlocal
      rw [← hw] at hpub hloc
      refine ⟨fun m' hm' => ⟨m₀, hc, ?_⟩, fun m' hm' => ?_⟩
      · rcases hloc with hloc | ⟨m₁, hm₁, hloc⟩
        · rw [hloc] at hm'
          cases hm'
          exact htraced.mono hsub
        · rw [hm₁] at hm'
          cases hm'
          rcases hloc with hloc | hloc
          · exact (h.prepared htraced hloc).mono hsub
          · exact (hcompleted _ hloc).1
      · rcases hpub with hpub | ⟨m₁, hm₁, hpub⟩
        · rw [hpub] at hm'
          exact (h.published name m' hm').mono hsub
        · rw [hm₁] at hm'
          cases hm'
          exact (hcompleted _ hpub).2
  obtain ⟨hlocals, hpublished⟩ := hmanifests
  refine ⟨fun n hn => h.directories n (UploadCommand.directories_run hn), h.apart, fun n m hm => ?_,
    fun n m hm => ?_, fun o ho => ?_⟩
  · rcases UploadCommand.localManifest_run hm with ⟨rfl, hattempt⟩ | hm
    · exact hlocals m hattempt
    · obtain ⟨m₀, hc, htraced⟩ := h.locals n m hm
      exact ⟨m₀, hc, htraced.mono hsub⟩
  · rcases UploadCommand.published_run hm with ⟨-, hm⟩ | hm
    · exact hpublished m hm
    · exact (h.published n m hm).mono hsub
  · rcases List.mem_append.mp ho with ho | ho
    · exact h.written o ho
    · obtain ⟨i, hi, rfl⟩ := List.mem_map.mp ho
      exact h.stored_collected hi

end Traceable

/-! ## Every run -/

theorem traceable_fresh (isAlphanumeric : Char → Bool) :
    Traceable isAlphanumeric (fun _ => none) Site.fresh where
  directories _ _ := rfl
  apart _ _ h := nomatch h
  locals _ _ h := nomatch h
  published _ _ h := nomatch h
  written _ ho := absurd ho List.not_mem_nil

/-- **Carried references resolve** in every run whose commands find a key for whatever they leave to
an earlier command. -/
theorem carried_parts_resolve (isAlphanumeric : Char → Bool) {s : Site}
    (hs : SiteReached isAlphanumeric (FindsKeys isAlphanumeric) s) : AllResolve s := by
  have hinv : ∃ collected, Traceable isAlphanumeric collected s := by
    induction hs with
    | fresh => exact ⟨_, traceable_fresh isAlphanumeric⟩
    | step c _ hok ih =>
      obtain ⟨collected, h⟩ := ih
      cases c with
      | create c => exact h.create c hok
      | upload u => exact ⟨collected, h.upload u hok⟩
  obtain ⟨collected, h⟩ := hinv
  exact h.allResolve

/-! ## A base that was not uploaded -/

/-- One part of one table. -/
def onePartManifest : BackupManifest :=
  { (default : BackupManifest) with
    tables := ⟨[("d.t".toList,
      { (default : TableManifest) with
        engine := "MergeTree"
        parts := ⟨[("default".toList, [PartInfo.new "all_1_1_0" 10 1])], by simp⟩ })], by simp⟩ }

theorem onDisk_onePartManifest {name t d : Str} {mo : Bool} {parts : List PartInfo}
    (h : { onePartManifest with name := name }.OnDisk t mo d parts) :
    t = "d.t".toList ∧ mo = false ∧ d = "default".toList ∧
      parts = [PartInfo.new "all_1_1_0" 10 1] := by
  obtain ⟨table, ht, rfl, hd⟩ := h
  obtain ⟨rfl, rfl⟩ := Prod.ext_iff.mp (List.mem_singleton.mp ht)
  obtain ⟨rfl, rfl⟩ := Prod.ext_iff.mp (List.mem_singleton.mp hd)
  exact ⟨rfl, rfl, rfl, rfl⟩

/-- The part as `create` collects it. -/
def onePartCollected : CollectedBackup where
  manifest := onePartManifest
  new := by decide +kernel
  metadataOnly t d parts h := nomatch (@onDisk_onePartManifest onePartManifest.name t d true parts h).2.1

theorem full_valid : '/' ∉ "full".toList := by decide

theorem incr_valid : '/' ∉ "incr".toList := by decide

theorem lz4_valid : "lz4".toList ∈ compressionFormats := by decide

/-- `create`, with a local base or without. -/
def createOne (name : Str) (h : '/' ∉ name) (diffFrom : Option Str) : CreateCommand where
  name := name
  name_valid := h
  collected := onePartCollected
  diffFrom := diffFrom
  diffFromRemote := none
  remoteReadable := true
  failure := none

/-- `upload` without a base, in which the tasks at some positions complete. -/
def uploadOne (name format : Str) (h : format ∈ compressionFormats) (done : Bool) : UploadCommand where
  env := { plainUpload with backupName := name, dataFormat := format, useResume := false }
  format_valid := h
  baseError := none
  fate := taskFate (if done then [(0, .done true)] else []) (by cases done <;> decide)

/-- Commands one after the other. -/
def Site.after (commands : List SiteCommand) : Site :=
  commands.foldl (fun s c => c.run Char.isAlphanum s) Site.fresh

/-- An incremental backup, uploaded, whose base may have been uploaded too. -/
def incrementalChain (base : List SiteCommand) : List SiteCommand :=
  .create (createOne "full" full_valid none) :: base ++
    [.create (createOne "incr" incr_valid (some "full")),
      .upload (uploadOne "incr" "lz4" lz4_valid false)]

theorem keysApart_onePartManifest (name : Str) :
    KeysApart Char.isAlphanum name { onePartManifest with name := name } := by
  intro env env' _ _ _ _ t mo d parts t' mo' d' parts' hd hd' p hp p' hp' _
  obtain ⟨rfl, -, rfl, rfl⟩ := onDisk_onePartManifest hd
  obtain ⟨rfl, -, rfl, rfl⟩ := onDisk_onePartManifest hd'
  rw [List.mem_singleton.mp hp, List.mem_singleton.mp hp']

/-- An upload that does not resume takes nothing as completed. -/
theorem findsKeys_uploadOne (s : Site) (name format : Str) (h : format ∈ compressionFormats)
    (done : Bool) : FindsKeys Char.isAlphanum s (.upload (uploadOne name format h done)) :=
  fun _ _ _ _ _ _ _ hk => absurd hk List.not_mem_nil

/-- **The base is uploaded first**, and the part that is carried from it resolves. -/
theorem uploaded_base_resolves :
    ((Site.after (incrementalChain [.upload (uploadOne "full" "lz4" lz4_valid true)])).published.get?
        "incr".toList).map (fun m => m.allParts.map PartInfo.isCarried) = some [true] ∧
      AllResolve (Site.after
        (incrementalChain [.upload (uploadOne "full" "lz4" lz4_valid true)])) := by
  refine ⟨by decide +kernel, carried_parts_resolve Char.isAlphanum ?_⟩
  simp only [Site.after, incrementalChain, List.cons_append, List.nil_append, List.foldl_cons,
    List.foldl_nil]
  refine .step _ (.step _ (.step _ (.step _ .fresh ?_) ?_) ?_) ?_
  · exact ⟨keysApart_onePartManifest _, fun _ base hbase => nomatch hbase⟩
  · exact findsKeys_uploadOne _ _ _ _ _
  · refine ⟨keysApart_onePartManifest _, fun _ base hbase t mo d parts _ p _ q hq _ => ?_⟩
    have hkeys : ∀ m ∈ (Site.after [.create (createOne "full" full_valid none),
        .upload (uploadOne "full" "lz4" lz4_valid true)]).localManifest "full".toList,
        ∀ q ∈ m.allParts, q.backupKey ≠ [] := by
      decide +kernel
    obtain ⟨mo', parts', ⟨table, ht, -, hparts⟩, hmem, -⟩ := baseLookup_onDisk hq
    exact hkeys base hbase q (BackupManifest.mem_allParts.mpr ⟨_, _, _, _, ht, hparts, hmem⟩)
  · exact findsKeys_uploadOne _ _ _ _ _

/-- **The base is not uploaded**: the incremental backup is published without a key for the part
that it carries. -/
theorem local_base_dangles :
    ¬∀ s, SiteReached Char.isAlphanum (fun _ _ => True) s → AllResolve s := by
  intro hall
  have hkeys : ((Site.after (incrementalChain [])).published.get? "incr".toList).map
      (fun m => m.allParts.map PartInfo.backupKey) = some [[]] := by
    decide +kernel
  obtain ⟨m, hm, hempty⟩ := Option.map_eq_some_iff.mp hkeys
  have hmem : ([] : Str) ∈ m.allParts.map PartInfo.backupKey := by
    rw [hempty]
    exact List.mem_singleton_self _
  obtain ⟨p, hp, hkey⟩ := List.mem_map.mp hmem
  obtain ⟨t, table, d, parts, ht, hd, hmem⟩ := BackupManifest.mem_allParts.mp hp
  have hreached : SiteReached Char.isAlphanum (fun _ _ => True) (Site.after (incrementalChain [])) := by
    simp only [Site.after, incrementalChain, List.cons_append, List.nil_append, List.foldl_cons,
      List.foldl_nil]
    exact .step _ (.step _ (.step _ .fresh trivial) trivial) trivial
  exact (hall _ hreached _ m hm t _ d parts ⟨table, ht, rfl, hd⟩ p hmem).1 hkey

end Chbackup
