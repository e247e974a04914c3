import Chbackup.Lib.Ends
import Chbackup.Upload.Plan

/-!
# Endpoint URLs

How the endpoint of an S3 disk becomes a bucket and a prefix: `endpoint_url_to_s3_uri`
(`src/clickhouse/client.rs`) guesses from the host whether the bucket is in the host or in the path,
and `parse_s3_uri` (`src/storage/s3.rs`) cuts the result.

A URL names the bucket in its path (`pathStyleUrl`) or in its host (`virtualHostedUrl`).  The guess
is right for a path on an AWS host.  It is wrong for a bucket in the host when the first label of the
bucket is `s3` or has at most three letters, or when the bucket contains `.s3`; and for a path on a
host that contains `.s3` in the middle.
-/

namespace Chbackup

/-- The part of a host name before its first dot. -/
def firstLabel (host : Str) : Str := ((Str.splitOnce '.' host).map Prod.fst).getD host

/-- Where the name of the service begins in a host that carries a bucket. -/
def serviceMark : Str := ['.', 's', '3']

/-- The domain of AWS in a host name. -/
def awsDomain : Str := ".amazonaws.com".toList

/-- The beginning of an S3 URI. -/
def s3Scheme : Str := "s3://".toList

/-- The first test of `endpoint_url_to_s3_uri`: the bucket is in the path. -/
def isPathStyleHost (host : Str) : Bool :=
  List.isPrefixOf "s3.".toList host ||
    Str.contains awsDomain host &&
      !(firstLabel host ≠ "s3".toList && 3 < (Str.utf8 (firstLabel host)).length)

/-- The URI of the bucket that a path begins with. -/
def pathToS3Uri (path : Str) : Str :=
  match Str.splitOnce '/' path with
  | some (bucket, pre) =>
    if pre = [] then s3Scheme ++ bucket ++ ['/'] else s3Scheme ++ bucket ++ '/' :: pre
  | none => s3Scheme ++ path.trimEnd '/' ++ ['/']

/-- `endpoint_url_to_s3_uri`. -/
def endpointUrlToS3Uri (endpoint : Str) : Str :=
  let withoutScheme := ((Str.stripPrefix? "https://" endpoint).or
    (Str.stripPrefix? "http://" endpoint)).getD endpoint
  match Str.splitOnce '/' withoutScheme with
  | none => endpoint
  | some (host, path) =>
    if isPathStyleHost host then pathToS3Uri path
    else
      match Str.cut serviceMark host with
      | some (bucket, _) =>
        if path = [] then s3Scheme ++ bucket ++ ['/'] else s3Scheme ++ bucket ++ '/' :: path
      | none => pathToS3Uri path

/-! ## URLs of a bucket and a prefix -/

/-- The scheme of a URL. -/
def urlScheme (secure : Bool) : Str := if secure then "https://".toList else "http://".toList

/-- The URL with the bucket in the path. -/
def pathStyleUrl (secure : Bool) (host bucket pre : Str) : Str :=
  urlScheme secure ++ (host ++ '/' :: (bucket ++ '/' :: pre))

/-- The host of the service in a region. -/
def regionHost (region : Str) : Str := "s3.".toList ++ region ++ awsDomain

/-- The URL with the bucket in the host. -/
def virtualHostedUrl (secure : Bool) (bucket region pre : Str) : Str :=
  urlScheme secure ++ ((bucket ++ '.' :: regionHost region) ++ '/' :: pre)

/-- What S3 admits in the name of a bucket. -/
def IsBucketChar (c : Char) : Prop := c.isLower = true ∨ c.isDigit = true ∨ c = '.' ∨ c = '-'

instance (c : Char) : Decidable (IsBucketChar c) := inferInstanceAs (Decidable (_ ∨ _ ∨ _ ∨ _))

/-- The name of a bucket. -/
def IsBucketName (bucket : Str) : Prop :=
  3 ≤ bucket.length ∧ bucket.length ≤ 63 ∧ ∀ c ∈ bucket, IsBucketChar c

theorem isBucketName_iff {bucket : Str} :
    (3 ≤ bucket.length ∧ bucket.length ≤ 63 ∧ bucket.all fun c => decide (IsBucketChar c)) ↔
      IsBucketName bucket := by
  rw [IsBucketName, List.all_eq_true]
  simp only [decide_eq_true_eq]

instance (bucket : Str) : Decidable (IsBucketName bucket) := decidable_of_iff _ isBucketName_iff

/-- A URL is read as the bucket and the prefix. -/
def ReadsAs (url bucket pre : Str) : Prop :=
  parseS3Uri (endpointUrlToS3Uri url) = (bucket, pre.trimEnd '/')

instance (url bucket pre : Str) : Decidable (ReadsAs url bucket pre) :=
  inferInstanceAs (Decidable (_ = _))

/-- The three URLs of a bucket and a prefix are read as them. -/
structure EndpointsRead (secure : Bool) (bucket region host pre : Str) : Prop where
  awsPath : ReadsAs (pathStyleUrl secure (regionHost region) bucket pre) bucket pre
  awsHost : ReadsAs (virtualHostedUrl secure bucket region pre) bucket pre
  otherPath : ReadsAs (pathStyleUrl secure host bucket pre) bucket pre

/-- A bucket that is recognised in a host. -/
def RecognisedInHost (bucket : Str) : Prop :=
  firstLabel bucket ≠ "s3".toList ∧ 3 < (firstLabel bucket).length ∧ ¬serviceMark <:+: bucket

/-- A host that is not taken to carry a bucket. -/
def CarriesNoBucket (host : Str) : Prop := isPathStyleHost host = true ∨ ¬serviceMark <:+: host

/-! ## Cutting texts -/

theorem trimEnd_append_slash {b : Str} (hb : '/' ∉ b) (pre : Str) :
    (b ++ '/' :: pre).trimEnd '/' =
      if pre.trimEnd '/' = [] then b else b ++ '/' :: pre.trimEnd '/' := by
  have hb' : b.trimEnd '/' = b := by
    refine Str.trimEnd_eq_self fun hsuffix => hb ?_
    exact hsuffix.subset (List.mem_singleton_self _)
  induction pre using List.reverseRecOn with
  | nil =>
    rw [Str.trimEnd, List.reverse_append]
    show ((b.reverse).dropWhile (· = '/')).reverse = b
    exact hb'
  | append_singleton pre c ih =>
    by_cases hc : c = '/'
    · subst hc
      rw [Str.trimEnd_append_self, ← ih, ← Str.trimEnd_append_self '/' (b ++ '/' :: pre)]
      congr 1
      simp
    · have hkeep : ∀ t : Str, (t ++ [c]).trimEnd '/' = t ++ [c] := by
        intro t
        refine Str.trimEnd_eq_self fun hsuffix => hc ?_
        obtain ⟨rest, hrest⟩ := hsuffix
        exact (List.append_inj_right' hrest rfl |> List.singleton_inj.mp).symm
      have hassoc : b ++ '/' :: (pre ++ [c]) = (b ++ '/' :: pre) ++ [c] := by simp
      rw [hkeep, if_neg (by simp), hassoc, hkeep, ← hassoc]

/-- A URI is read back. -/
theorem parseS3Uri_append {bucket : Str} (hb : '/' ∉ bucket) (pre : Str) :
    parseS3Uri (s3Scheme ++ bucket ++ '/' :: pre) = (bucket, pre.trimEnd '/') := by
  have hscheme : Str.stripPrefix? "s3://" (s3Scheme ++ bucket ++ '/' :: pre) =
      some (bucket ++ '/' :: pre) := by
    rw [List.append_assoc]
    show (if s3Scheme.isPrefixOf (s3Scheme ++ (bucket ++ '/' :: pre)) = true then
      some ((s3Scheme ++ (bucket ++ '/' :: pre)).drop s3Scheme.length) else none) = _
    rw [if_pos (List.isPrefixOf_iff_prefix.mpr (List.prefix_append _ _)), List.drop_left]
  rw [parseS3Uri, hscheme, Option.some_or]
  dsimp only
  rw [trimEnd_append_slash hb]
  split_ifs with hnil
  · rw [Str.splitOnce_eq_none_iff.mpr hb, hnil]
    rfl
  · rw [Str.splitOnce_eq_some_iff.mpr ⟨rfl, hb⟩]
    rfl

theorem cut_append_of_some {needle s t a b : Str} (h : Str.cut needle s = some (a, b))
    (hne : needle ≠ []) : Str.cut needle (s ++ t) = some (a, b ++ t) := by
  induction s generalizing a with
  | nil =>
    rw [Str.cut, if_neg hne] at h
    exact absurd h (Option.some_ne_none _).symm
  | cons c s ih =>
    rw [Str.cut] at h
    show Str.cut needle (c :: (s ++ t)) = some (a, b ++ t)
    rw [Str.cut]
    by_cases hp : needle.isPrefixOf (c :: s) = true
    · rw [if_pos hp] at h
      obtain ⟨rfl, rfl⟩ := Prod.mk.inj (Option.some.inj h)
      have hpre := List.isPrefixOf_iff_prefix.mp hp
      have hlong : needle.isPrefixOf (c :: (s ++ t)) = true :=
        List.isPrefixOf_iff_prefix.mpr (hpre.trans ⟨t, rfl⟩)
      rw [if_pos hlong, ← List.cons_append, List.drop_append_of_le_length hpre.length_le]
    · rw [if_neg hp] at h
      obtain ⟨⟨a', b'⟩, h', hab⟩ := Option.map_eq_some_iff.mp h
      obtain ⟨rfl, rfl⟩ := Prod.mk.inj hab
      -- the first occurrence in `s` is long enough to be seen from `c` on
      have hlen : needle.length ≤ (c :: s).length := by
        rw [Str.cut_eq_some h', List.length_cons, List.length_append, List.length_append]
        omega
      have hno : ¬needle.isPrefixOf (c :: (s ++ t)) = true := fun hp' =>
        hp (List.isPrefixOf_iff_prefix.mpr (List.prefix_of_prefix_length_le
          (List.isPrefixOf_iff_prefix.mp hp') (List.prefix_append (c :: s) t) hlen))
      rw [if_neg hno, ih h']
      rfl

/-- The mark of the service is found where it is put. -/
theorem cut_serviceMark {bucket : Str} (hb : ¬serviceMark <:+: bucket) (t : Str) :
    Str.cut serviceMark (bucket ++ (serviceMark ++ '.' :: t)) = some (bucket, '.' :: t) := by
  induction bucket with
  | nil => rfl
  | cons c s ih =>
    have hs : ¬serviceMark <:+: s := fun h => hb (h.trans (List.suffix_cons c s).isInfix)
    have hno : ¬serviceMark.isPrefixOf (c :: (s ++ (serviceMark ++ '.' :: t))) = true := by
      intro hp
      obtain ⟨rest, hrest⟩ := List.isPrefixOf_iff_prefix.mp hp
      rcases s with _ | ⟨x, _ | ⟨y, s⟩⟩
      · simp [serviceMark] at hrest
      · simp [serviceMark] at hrest
      · simp only [serviceMark, List.cons_append, List.nil_append, List.cons.injEq] at hrest
        obtain ⟨rfl, rfl, rfl, -⟩ := hrest
        exact hb ⟨[], s, rfl⟩
    show Str.cut serviceMark (c :: (s ++ (serviceMark ++ '.' :: t))) = some (c :: s, '.' :: t)
    rw [Str.cut, if_neg hno, ih hs]
    rfl

/-! ## The branches of the guess -/

theorem parse_pathToS3Uri {bucket : Str} (hb : '/' ∉ bucket) (pre : Str) :
    parseS3Uri (pathToS3Uri (bucket ++ '/' :: pre)) = (bucket, pre.trimEnd '/') := by
  have hcut : Str.splitOnce '/' (bucket ++ '/' :: pre) = some (bucket, pre) :=
    Str.splitOnce_eq_some_iff.mpr ⟨rfl, hb⟩
  rw [pathToS3Uri, hcut]
  dsimp only
  split_ifs with hnil
  · rw [hnil]
    exact parseS3Uri_append hb []
  · exact parseS3Uri_append hb pre

/-- The bucket of a path is shorter than the path. -/
theorem parse_pathToS3Uri_ne {bucket : Str} (hb : bucket ≠ []) (pre : Str) :
    parseS3Uri (pathToS3Uri pre) ≠ (bucket, pre.trimEnd '/') := by
  intro heq
  cases hcut : Str.splitOnce '/' pre with
  | some parts =>
    obtain ⟨hpre, hfirst⟩ := Str.splitOnce_eq_some_iff.mp (hcut.trans rfl)
    rw [hpre, parse_pathToS3Uri hfirst, trimEnd_append_slash hfirst] at heq
    obtain ⟨hbucket, hrest⟩ := Prod.mk.inj heq
    rw [hbucket] at hrest
    split_ifs at hrest with hnil
    · exact hb (hrest.symm.trans hnil)
    · have hlen := congrArg List.length hrest
      rw [List.length_append, List.length_cons] at hlen
      omega
  | none =>
    have hno : '/' ∉ pre := Str.splitOnce_eq_none_iff.mp hcut
    have htrim : pre.trimEnd '/' = pre :=
      Str.trimEnd_eq_self fun hsuffix => hno (hsuffix.subset (List.mem_singleton_self _))
    rw [pathToS3Uri, hcut] at heq
    dsimp only at heq
    rw [htrim, parseS3Uri_append hno []] at heq
    obtain ⟨hbucket, hrest⟩ := Prod.mk.inj heq
    exact hb (hbucket.symm.trans hrest.symm)

section Url

variable {secure : Bool} {host path : Str}

/-- The host and the path of a URL. -/
theorem splitOnce_url (hhost : '/' ∉ host) :
    Str.splitOnce '/' (((Str.stripPrefix? "https://" (urlScheme secure ++ (host ++ '/' :: path))).or
      (Str.stripPrefix? "http://" (urlScheme secure ++ (host ++ '/' :: path)))).getD
        (urlScheme secure ++ (host ++ '/' :: path))) = some (host, path) := by
  refine Str.splitOnce_eq_some_iff.mpr ⟨?_, hhost⟩
  cases secure <;> rfl

theorem endpointUrlToS3Uri_of_pathStyle (hhost : '/' ∉ host) (hstyle : isPathStyleHost host = true) :
    endpointUrlToS3Uri (urlScheme secure ++ (host ++ '/' :: path)) = pathToS3Uri path := by
  unfold endpointUrlToS3Uri
  dsimp only
  rw [splitOnce_url hhost]
  dsimp only
  rw [if_pos hstyle]

theorem endpointUrlToS3Uri_of_noMark (hhost : '/' ∉ host) (hmark : ¬serviceMark <:+: host) :
    endpointUrlToS3Uri (urlScheme secure ++ (host ++ '/' :: path)) = pathToS3Uri path := by
  unfold endpointUrlToS3Uri
  dsimp only
  rw [splitOnce_url hhost]
  dsimp only
  rw [Str.cut_eq_none hmark]
  dsimp only
  rw [ite_self]

/-- A bucket that is taken from the host. -/
theorem parse_endpointUrlToS3Uri_of_cut {bucket rest : Str} (hhost : '/' ∉ host)
    (hstyle : isPathStyleHost host ≠ true) (hcut : Str.cut serviceMark host = some (bucket, rest)) :
    parseS3Uri (endpointUrlToS3Uri (urlScheme secure ++ (host ++ '/' :: path))) =
      (bucket, path.trimEnd '/') := by
  have hbucket : '/' ∉ bucket := by
    intro hmem
    rw [Str.cut_eq_some hcut] at hhost
    exact hhost (List.mem_append_left _ (List.mem_append_left _ hmem))
  unfold endpointUrlToS3Uri
  dsimp only
  rw [splitOnce_url hhost]
  dsimp only
  rw [if_neg hstyle, hcut]
  dsimp only
  split_ifs with hnil
  · rw [hnil]
    exact parseS3Uri_append hbucket []
  · exact parseS3Uri_append hbucket path

end Url

/-! ## The two styles -/

section Style

variable {bucket : Str} (secure : Bool) (pre : Str)

/-- A URL with the bucket in its path is read unless its host is taken to carry a bucket. -/
theorem readsAs_pathStyleUrl_iff {host : Str} (hhost : '/' ∉ host) (hb : '/' ∉ bucket)
    (hne : bucket ≠ []) :
    ReadsAs (pathStyleUrl secure host bucket pre) bucket pre ↔ CarriesNoBucket host := by
  rw [ReadsAs, pathStyleUrl]
  constructor
  · intro hread
    by_contra hcarries
    obtain ⟨hstyle, hmark⟩ := not_or.mp hcarries
    obtain ⟨⟨first, rest⟩, hcut⟩ :=
      Option.isSome_iff_exists.mp (Str.contains_iff.mpr (not_not.mp hmark))
    rw [parse_endpointUrlToS3Uri_of_cut hhost hstyle hcut, trimEnd_append_slash hb] at hread
    have hpre := (Prod.mk.inj hread).2
    split_ifs at hpre with hnil
    · exact hne (hpre.trans hnil)
    · have hlen := congrArg List.length hpre
      rw [List.length_append, List.length_cons] at hlen
      omega
  · rintro (hstyle | hmark)
    · rw [endpointUrlToS3Uri_of_pathStyle hhost hstyle]
      exact parse_pathToS3Uri hb pre
    · rw [endpointUrlToS3Uri_of_noMark hhost hmark]
      exact parse_pathToS3Uri hb pre

end Style

/-! ## The bucket in the host -/

theorem IsBucketChar.utf8_length {c : Char} (hc : IsBucketChar c) :
    (String.utf8EncodeChar c).length = 1 := by
  rw [String.length_utf8EncodeChar, Char.utf8Size_eq_one_iff]
  rcases hc with h | h | rfl | rfl
  · rw [Char.isLower, Bool.and_eq_true, decide_eq_true_eq, decide_eq_true_eq] at h
    exact UInt32.le_trans h.2 (by decide)
  · rw [Char.isDigit, Bool.and_eq_true, decide_eq_true_eq, decide_eq_true_eq] at h
    exact UInt32.le_trans h.2 (by decide)
  · decide
  · decide

theorem slash_not_mem_of_bucketChars {s : Str} (hs : ∀ c ∈ s, IsBucketChar c) : '/' ∉ s :=
  fun hmem => absurd (hs '/' hmem) (by decide)

/-- The length of a label of a bucket is the number of its bytes. -/
theorem utf8_length_of_bucketChars {s : Str} (hs : ∀ c ∈ s, IsBucketChar c) :
    (Str.utf8 s).length = s.length := by
  induction s with
  | nil => rfl
  | cons c s ih =>
    have hc := (hs c List.mem_cons_self).utf8_length
    have htail := ih fun x hx => hs x (List.mem_cons_of_mem c hx)
    rw [Str.utf8, List.flatMap_cons, List.length_append, hc, List.length_cons, Nat.add_comm]
    rw [Str.utf8] at htail
    rw [htail]

theorem firstLabel_subset (host : Str) : firstLabel host ⊆ host := by
  intro c hc
  rw [firstLabel] at hc
  cases hcut : Str.splitOnce '.' host with
  | none =>
    rw [hcut] at hc
    exact hc
  | some parts =>
    rw [hcut] at hc
    rw [(Str.splitOnce_eq_some_iff.mp (hcut.trans rfl)).1]
    exact List.mem_append_left _ hc

theorem firstLabel_append_dot {a : Str} (ha : '.' ∉ a) (t : Str) :
    firstLabel (a ++ '.' :: t) = a := by
  rw [firstLabel, Str.splitOnce_eq_some_iff.mpr ⟨rfl, ha⟩]
  rfl

/-- A label is not changed by what follows a dot. -/
theorem firstLabel_append (bucket t : Str) :
    firstLabel (bucket ++ '.' :: t) = firstLabel bucket := by
  cases hcut : Str.splitOnce '.' bucket with
  | none =>
    rw [firstLabel_append_dot (Str.splitOnce_eq_none_iff.mp hcut), firstLabel, hcut]
    rfl
  | some parts =>
    obtain ⟨hparts, hfirst⟩ := Str.splitOnce_eq_some_iff.mp (hcut.trans rfl)
    rw [hparts, List.append_assoc, List.cons_append, firstLabel_append_dot hfirst,
      firstLabel_append_dot hfirst]

/-- A host of AWS is taken to carry its bucket in the path if its first label is `s3` or is
short. -/
theorem isPathStyleHost_aws_iff {host : Str} (haws : awsDomain <:+: host) :
    isPathStyleHost host = true ↔
      firstLabel host = "s3".toList ∨ (Str.utf8 (firstLabel host)).length ≤ 3 := by
  have hservice : List.isPrefixOf "s3.".toList host = true → firstLabel host = "s3".toList := by
    intro hstart
    obtain ⟨rest, rfl⟩ := List.isPrefixOf_iff_prefix.mp hstart
    exact firstLabel_append_dot (a := "s3".toList) (by decide) rest
  have hcontains : Str.contains awsDomain host = true := Str.contains_iff.mpr haws
  rw [isPathStyleHost, hcontains, Bool.true_and, Bool.or_eq_true, Bool.not_eq_true',
    Bool.and_eq_false_iff, decide_eq_false_iff_not, decide_eq_false_iff_not, not_not, not_lt]
  constructor
  · rintro (hstart | hlabel)
    · exact .inl (hservice hstart)
    · exact hlabel
  · exact .inr

section VirtualHost

variable {bucket : Str} (region : Str)

theorem virtualHost_eq :
    bucket ++ '.' :: regionHost region =
      bucket ++ (serviceMark ++ '.' :: (region ++ awsDomain)) := by
  rw [regionHost, List.append_assoc]
  rfl

theorem awsDomain_infix_virtualHost : awsDomain <:+: bucket ++ '.' :: regionHost region :=
  ⟨bucket ++ '.' :: ("s3.".toList ++ region), [], by rw [regionHost]; simp⟩

/-- A URL with the bucket in its host is read if the bucket is recognised. -/
theorem readsAs_virtualHostedUrl_iff (secure : Bool) (pre : Str) (hbucket : IsBucketName bucket)
    (hregion : '/' ∉ region) :
    ReadsAs (virtualHostedUrl secure bucket region pre) bucket pre ↔ RecognisedInHost bucket := by
  obtain ⟨hlong, -, hchars⟩ := hbucket
  have hne : bucket ≠ [] := by
    rintro rfl
    exact absurd hlong (by decide)
  have hhost : '/' ∉ bucket ++ '.' :: regionHost region := by
    intro hmem
    rw [virtualHost_eq] at hmem
    rcases List.mem_append.mp hmem with hmem | hmem
    · exact slash_not_mem_of_bucketChars hchars hmem
    · rcases List.mem_append.mp hmem with hmem | hmem
      · exact absurd hmem (by decide)
      · rcases List.mem_append.mp (List.mem_of_ne_of_mem (by decide) hmem) with hmem | hmem
        · exact hregion hmem
        · exact absurd hmem (by decide)
  have hlabel : (Str.utf8 (firstLabel bucket)).length = (firstLabel bucket).length :=
    utf8_length_of_bucketChars fun c hc => hchars c (firstLabel_subset bucket hc)
  have hstyle := isPathStyleHost_aws_iff (@awsDomain_infix_virtualHost bucket region)
  rw [firstLabel_append, hlabel] at hstyle
  rw [ReadsAs, virtualHostedUrl]
  by_cases hpath : isPathStyleHost (bucket ++ '.' :: regionHost region) = true
  · -- the first component of the prefix is taken for the bucket
    rw [endpointUrlToS3Uri_of_pathStyle hhost hpath]
    refine iff_of_false (parse_pathToS3Uri_ne hne pre) ?_
    rintro ⟨hservice, hlength, -⟩
    rcases hstyle.mp hpath with h | h
    · exact hservice h
    · omega
  · have hname : firstLabel bucket ≠ "s3".toList ∧ 3 < (firstLabel bucket).length := by
      obtain ⟨hservice, hlength⟩ := not_or.mp (mt hstyle.mpr hpath)
      exact ⟨hservice, not_le.mp hlength⟩
    by_cases hmark : serviceMark <:+: bucket
    · obtain ⟨⟨first, rest⟩, hcut⟩ := Option.isSome_iff_exists.mp (Str.contains_iff.mpr hmark)
      have hhostCut := cut_append_of_some (t := '.' :: regionHost region) hcut (by decide)
      rw [parse_endpointUrlToS3Uri_of_cut hhost hpath hhostCut]
      refine iff_of_false (fun hread => ?_) fun hrec => hrec.2.2 hmark
      -- the mark inside the name ends the bucket too early
      have hlen := congrArg List.length (Str.cut_eq_some hcut)
      rw [(Prod.mk.inj hread).1, List.length_append, List.length_append] at hlen
      have hthree : serviceMark.length = 3 := rfl
      omega
    · have hhostCut := cut_serviceMark hmark (region ++ awsDomain)
      rw [← virtualHost_eq] at hhostCut
      rw [parse_endpointUrlToS3Uri_of_cut hhost hpath hhostCut]
      exact iff_of_true rfl ⟨hname.1, hname.2, hmark⟩

end VirtualHost

/-- The host of the service carries no bucket. -/
theorem carriesNoBucket_regionHost (region : Str) : CarriesNoBucket (regionHost region) := by
  refine .inl ?_
  rw [isPathStyleHost, regionHost, Bool.or_eq_true]
  exact .inl (List.isPrefixOf_iff_prefix.mpr ⟨region ++ awsDomain, (List.append_assoc _ _ _).symm⟩)

/-- The three URLs of a bucket and a prefix are read as them if and only if the bucket is recognised
in a host and the other host is not taken to carry a bucket. -/
theorem endpoints_read_iff (secure : Bool) (bucket region host pre : Str)
    (hbucket : IsBucketName bucket) (hregion : '/' ∉ region) (hhost : '/' ∉ host) :
    EndpointsRead secure bucket region host pre ↔
      RecognisedInHost bucket ∧ CarriesNoBucket host := by
  have hb : '/' ∉ bucket := slash_not_mem_of_bucketChars hbucket.2.2
  have hne : bucket ≠ [] := by
    rintro rfl
    exact absurd hbucket.1 (by decide)
  have hservice : '/' ∉ regionHost region := by
    intro hmem
    rcases List.mem_append.mp hmem with hmem | hmem
    · rcases List.mem_append.mp hmem with hmem | hmem
      · exact absurd hmem (by decide)
      · exact hregion hmem
    · exact absurd hmem (by decide)
  have hhosted := readsAs_virtualHostedUrl_iff region secure pre hbucket hregion
  have hother := readsAs_pathStyleUrl_iff secure pre hhost hb hne
  have haws := (readsAs_pathStyleUrl_iff secure pre hservice hb hne).mpr
    (carriesNoBucket_regionHost region)
  constructor
  · intro hread
    exact ⟨hhosted.mp hread.awsHost, hother.mp hread.otherPath⟩
  · rintro ⟨hrec, hcarries⟩
    exact ⟨haws, hhosted.mpr hrec, hother.mpr hcarries⟩

/-- A bucket of one long label and a store of its own. -/
theorem endpoints_read_iff_minio :
    EndpointsRead true ['d', 'a', 't', 'a'] ['e', 'u', '-', '1'] ['m', 'i', 'n', 'i', 'o', ':', '9']
        ['x', '/', '1', '/'] ↔
      RecognisedInHost ['d', 'a', 't', 'a'] ∧
        CarriesNoBucket ['m', 'i', 'n', 'i', 'o', ':', '9'] :=
  endpoints_read_iff true _ _ _ _ (by decide) (by decide) (by decide)

/-- The bucket of three letters in the host is missed: the first component of the prefix becomes the
bucket. -/
theorem short_bucket_is_missed :
    ¬∀ (secure : Bool) (bucket region host pre : Str), IsBucketName bucket → '/' ∉ region →
      '/' ∉ host → ¬awsDomain <:+: host → EndpointsRead secure bucket region host pre := by
  intro hall
  have hread := (hall true ['a', 'b', 'c'] ['e', 'u', '-', '1'] ['m', 'i', 'n', 'i', 'o', ':', '9']
    ['x', '/', '1'] (by decide) (by decide) (by decide) (by decide)).awsHost
  exact absurd hread (by decide)

end Chbackup
