import Chbackup.Storage.Copy

/-!
# What a copy stores

A copy stores the bytes of its source, whichever way it takes: in one request, as ranges that the service
copies, or through the client (`copy_stores_source`).  Until then the destination is what it was, also where
the copy fails or dies; no part of an object is ever visible, and no other object changes.

The invariant is that of the destination.  While an upload is open the parts that are listed so far hold the
beginning of the source, whatever else happens.
-/

namespace Chbackup

open CallTree Prog World

/-! ## Requests and objects -/

namespace S3State

variable {s s' : S3State}

/-- The requests that write an object. -/
def writes : S3Request → Bool
  | .copyObject _ _ _ _ => true
  | .completeMultipartUpload _ _ _ _ => true
  | .putObject _ _ _ _ => true
  | _ => false

@[simp] theorem elapse_uploads (time : Nat) : (s.elapse time).uploads = s.uploads := rfl

@[simp] theorem setUpload_objects (uploadId : Str) (u : Option OpenUpload) : (s.setUpload uploadId u).objects = s.objects := rfl

@[simp] theorem setUpload_uploads (uploadId : Str) (u : Option OpenUpload) :
    (s.setUpload uploadId u).uploads uploadId = u := Function.update_self _ _ _

@[simp] theorem store_objects_self (a : S3Address) (o : S3StoredObject) : (s.store a o).objects a = some o :=
  Function.update_self _ _ _

theorem store_objects_of_ne {a b : S3Address} (h : b ≠ a) (o : S3StoredObject) : (s.store a o).objects b = s.objects b :=
  Function.update_of_ne h _ _

theorem addPart?_objects {a : S3Address} {uploadId : Str} {partNumber : Int} {eTag : Option Str} {bytes : List UInt8}
    (h : s.addPart? a uploadId partNumber eTag bytes = some s') : s'.objects = s.objects := by
  obtain ⟨u, -, hu⟩ := Option.map_eq_some_iff.mp h
  cases eTag with
  | none => rw [← hu]
  | some eTag => rw [← hu, setUpload_objects]

theorem effect?_objects {request : S3Request} (hw : writes request = false) {v : Option request.Value}
    (h : s.effect? request v = some s') : s'.objects = s.objects := by
  cases request with
  | copyObject => cases hw
  | completeMultipartUpload => cases hw
  | putObject => cases hw
  | headObject => exact congrArg objects (Option.some.inj h).symm
  | getObject => exact congrArg objects (Option.some.inj h).symm
  | createMultipartUpload =>
    rw [effect?] at h
    split at h
    · split_ifs at h
      rw [← Option.some.inj h, setUpload_objects]
    · rw [← Option.some.inj h]
  | uploadPartCopy =>
    obtain ⟨o, -, ho⟩ := Option.bind_eq_some_iff.mp h
    split_ifs at ho
    exact addPart?_objects ho
  | uploadPart => exact addPart?_objects h
  | abortMultipartUpload =>
    obtain ⟨u, -, hu⟩ := Option.map_eq_some_iff.mp h
    rw [← hu, setUpload_objects]

/-- What every effect of a request brings about, the request brings about, whether it succeeds or not. -/
theorem served_of_effect {Q : S3State → Prop} {request : S3Request} {r : Served request.Value}
    (helapse : ∀ s time, Q s → Q (s.elapse time)) (hs : Q s)
    (h : ∀ v s', s.effect? request v = some s' → Q s') : Q (s.served request r) := by
  refine helapse _ _ ?_
  split_ifs
  · cases heffect : s.effect? request r.answer.value? with
    | none => exact hs
    | some s' => exact h _ _ heffect
  · exact hs

/-- A request that succeeds has its effect. -/
theorem served_of_ok {request : S3Request} {r : Served request.Value} (h : s.Answers request r) {a : request.Value}
    (ha : r.answer = .ok a) :
    ∃ s', s.effect? request (some a) = some s' ∧ s.served request r = s'.elapse r.elapsed ∧ s.Shows request a := by
  obtain ⟨htook, heffect, hshows⟩ := h a ha
  obtain ⟨s', hs'⟩ := Option.isSome_iff_exists.mp heffect
  refine ⟨s', hs', ?_, hshows⟩
  have hvalue : r.answer.value? = some a := by
    rw [ha]
    rfl
  rw [served, if_pos htook, hvalue, hs']
  rfl

theorem source?_copySourceHeader {sourceBucket : Str} (h : '/' ∉ sourceBucket) (sourceKey : Str) :
    s.source? (copySourceHeader sourceBucket sourceKey) = s.objects (s3Address sourceBucket sourceKey) := by
  rw [source?, copySourceAddress_copySourceHeader h]
  rfl

end S3State

/-- A request under its deadline, in any world. -/
theorem meets_sendOrFail {σ : Type} {w : World CopyCall CopyCall.Reply σ} {I : σ → Prop} {P : σ → CopyCall → Prop} {s : σ}
    {op bucket key context : Str} {deadline : Option Nat} (request : S3Request) {A : request.Value → σ → Prop}
    {E : Str → σ → Prop} (hs : I s) (hP : P s (.send deadline request))
    (hkeep : ∀ r, w.allows s ⟨.send deadline request, r⟩ → I (w.next s ⟨.send deadline request, r⟩))
    (hok : ∀ r a, w.allows s ⟨.send deadline request, r⟩ → r.answer = .ok a → A a (w.next s ⟨.send deadline request, r⟩))
    (herror : ∀ r text, w.allows s ⟨.send deadline request, r⟩ → r.answer = .error text →
      E (withContext context text) (w.next s ⟨.send deadline request, r⟩))
    (htime : ∀ r figures, w.allows s ⟨.send deadline request, r⟩ → r.answer = .timedOut figures →
      E (timeoutError op bucket key figures) (w.next s ⟨.send deadline request, r⟩)) :
    w.Meets I P A E s (sendOrFail op bucket key context deadline request) := by
  refine meets_perform hs hP fun r hr => ?_
  cases hanswer : r.answer with
  | ok a => exact meets_ret (hkeep r hr) (hok r a hr hanswer)
  | error text => exact meets_fail (hkeep r hr) (herror r text hr hanswer)
  | timedOut figures => exact meets_fail (hkeep r hr) (htime r figures hr hanswer)

/-! ## Parts -/

theorem assemble_storePart {part : UploadedPart} {parts : List UploadedPart} {listed : List (Int × Str)}
    (h : part.partNumber ∉ listed.map Prod.fst) : assemble (storePart part parts) listed = assemble parts listed := by
  induction listed with
  | nil => rfl
  | cons x listed ih =>
    obtain ⟨hne, hnot⟩ := not_or.mp (mt List.mem_cons.mpr h)
    have hfind : (storePart part parts).find? (fun p => p.partNumber = x.1 ∧ p.eTag = x.2) =
        parts.find? fun p => p.partNumber = x.1 ∧ p.eTag = x.2 := by
      rw [storePart, List.find?_cons_of_neg (by simp [hne]), List.find?_filter]
      congr 1
      funext p
      by_cases hp : p.partNumber = x.1
      · simp [hp, Ne.symm hne]
      · simp [hp]
    rw [assemble, assemble, hfind, ih hnot]

theorem assemble_append {parts : List UploadedPart} {listed more : List (Int × Str)} {bytes bytes' : List UInt8}
    (h : assemble parts listed = some bytes) (h' : assemble parts more = some bytes') :
    assemble parts (listed ++ more) = some (bytes ++ bytes') := by
  induction listed generalizing bytes with
  | nil =>
    rw [← Option.some.inj h]
    exact h'
  | cons x listed ih =>
    obtain ⟨p, hp, hrest⟩ := Option.bind_eq_some_iff.mp h
    obtain ⟨b, hb, rfl⟩ := Option.map_eq_some_iff.mp hrest
    rw [List.cons_append, assemble, hp, Option.bind_some, ih hb, Option.map_some, List.append_assoc]

/-- An open upload whose listed parts hold some bytes. -/
def Building (a : S3Address) (options : ObjectOptions) (uploadId : Str) (listed : List (Int × Str))
    (bytes : List UInt8) (s : S3State) : Prop :=
  ∃ u, s.uploads uploadId = some u ∧ u.address = a ∧ u.options = options ∧ assemble u.parts listed = some bytes

section Building

variable {a : S3Address} {options : ObjectOptions} {uploadId : Str} {listed : List (Int × Str)} {bytes : List UInt8}
  {s s' : S3State}

theorem uploadAt?_eq_some_iff {u : OpenUpload} :
    s.uploadAt? a uploadId = some u ↔ s.uploads uploadId = some u ∧ u.address = a := by
  rw [S3State.uploadAt?, Option.filter_eq_some_iff, decide_eq_true_eq]

/-- A part with a new number is added. -/
theorem Building.addPart (h : Building a options uploadId listed bytes s) {partNumber : Int} {eTag : Str}
    {body : List UInt8} (hnew : partNumber ∉ listed.map Prod.fst)
    (hs' : s.addPart? a uploadId partNumber (some eTag) body = some s') :
    Building a options uploadId (listed ++ [(partNumber, eTag)]) (bytes ++ body) s' := by
  obtain ⟨u, hu, haddress, hoptions, hassemble⟩ := h
  obtain ⟨u', hu', rfl⟩ := Option.map_eq_some_iff.mp hs'
  obtain rfl : u = u' := Option.some.inj (hu.symm.trans (uploadAt?_eq_some_iff.mp hu').1)
  refine ⟨_, S3State.setUpload_uploads _ _, haddress, hoptions, assemble_append ?_ ?_⟩
  · rw [← hassemble]
    exact @assemble_storePart ⟨partNumber, eTag, body⟩ u.parts listed hnew
  · simp [assemble, storePart]

/-- The upload is completed. -/
theorem Building.complete (h : Building a options uploadId listed bytes s) {bucket key : Str} (ha : s3Address bucket key = a)
    {v : Option Unit} (hs' : s.effect? (.completeMultipartUpload bucket key uploadId listed) v = some s') :
    s'.objects = (s.store a ⟨bytes, options⟩).objects := by
  obtain ⟨u, hu, -, hoptions, hassemble⟩ := h
  obtain ⟨u', hu', hstore⟩ := Option.bind_eq_some_iff.mp hs'
  obtain ⟨bytes', hbytes', rfl⟩ := Option.map_eq_some_iff.mp hstore
  rw [ha] at hu'
  obtain rfl : u = u' := Option.some.inj (hu.symm.trans (uploadAt?_eq_some_iff.mp hu').1)
  rw [hassemble] at hbytes'
  obtain rfl := Option.some.inj hbytes'
  rw [S3State.setUpload_objects, ha, hoptions]

end Building

/-! ## The destination -/

/-- The destination has the bytes of the source. -/
def HasCopy (s₀ : S3State) (src dest : S3Address) (options : ObjectOptions) (s : S3State) : Prop :=
  ∃ o, s₀.objects src = some o ∧ s.objects dest = some ⟨o.bytes, options⟩

/-- At every moment of a copy: no other object has changed, and the destination is what it was or a copy. -/
structure CopyInvariant (s₀ : S3State) (src dest : S3Address) (options : ObjectOptions) (s : S3State) : Prop where
  elsewhere : ∀ a, a ≠ dest → s.objects a = s₀.objects a
  atDest : s.objects dest = s₀.objects dest ∨ HasCopy s₀ src dest options s

section Invariant

variable {s₀ s s' : S3State} {src dest : S3Address} {options : ObjectOptions}

theorem CopyInvariant.of_objects (h : CopyInvariant s₀ src dest options s) (heq : s'.objects = s.objects) :
    CopyInvariant s₀ src dest options s' := by
  refine ⟨fun a ha => ?_, ?_⟩
  · rw [heq]
    exact h.elsewhere a ha
  · rw [HasCopy, heq]
    exact h.atDest

/-- The source keeps its bytes, even if it is the destination. -/
theorem CopyInvariant.source (h : CopyInvariant s₀ src dest options s) {o : S3StoredObject}
    (ho : s.objects src = some o) : ∃ o₀, s₀.objects src = some o₀ ∧ o₀.bytes = o.bytes := by
  by_cases heq : src = dest
  · subst heq
    rcases h.atDest with hsame | ⟨o₀, ho₀, hcopy⟩
    · exact ⟨o, by rw [← hsame, ho], rfl⟩
    · rw [ho] at hcopy
      exact ⟨o₀, ho₀, by rw [Option.some.inj hcopy]⟩
  · exact ⟨o, by rw [← h.elsewhere src heq, ho], rfl⟩

/-- The bytes of the source are stored. -/
theorem CopyInvariant.store (h : CopyInvariant s₀ src dest options s) {o₀ : S3StoredObject}
    (ho₀ : s₀.objects src = some o₀) (heq : s'.objects = (s.store dest ⟨o₀.bytes, options⟩).objects) :
    CopyInvariant s₀ src dest options s' ∧ HasCopy s₀ src dest options s' := by
  have hcopy : HasCopy s₀ src dest options s' := by
    refine ⟨o₀, ho₀, ?_⟩
    rw [heq, S3State.store_objects_self]
  refine ⟨⟨fun a ha => ?_, .inr hcopy⟩, hcopy⟩
  rw [heq, S3State.store_objects_of_ne ha]
  exact h.elsewhere a ha

end Invariant

/-! ## The programs -/

/-- What follows the outcome of an upload, in any world. -/
theorem meets_abortOnError {σ : Type} {w : World CopyCall CopyCall.Reply σ} {I : σ → Prop} {P : σ → CopyCall → Prop}
    {A : Unit → σ → Prop} {E F : Str → σ → Prop} {s : σ} {abort upload : CopyProg Unit} (hupload : w.Meets I P A E s upload)
    (habort : ∀ e s', I s' → E e s' → w.Meets I P (fun _ s'' => F e s'') (fun _ s'' => F e s'') s' abort) :
    w.Meets I P A F s (S3Client.abortOnError abort upload) := by
  refine hupload.attempt.bind fun outcome s' hs' houtcome => ?_
  cases outcome with
  | ok a => exact meets_ret hs' (houtcome.1 () rfl)
  | error e =>
    refine (habort e s' hs' (houtcome.2 e rfl)).attempt.bind fun outcome' s'' hs'' hF => meets_fail hs'' ?_
    cases outcome' with
    | ok a => exact hF.1 a rfl
    | error e' => exact hF.2 e' rfl

/-- A program keeps the invariant of a copy, and its value satisfies `A`. -/
abbrev Copying {α : Type} (s₀ : S3State) (src dest : S3Address) (options : ObjectOptions) (A : α → S3State → Prop)
    (s : S3State) (p : CopyProg α) : Prop :=
  s3World.Meets (CopyInvariant s₀ src dest options) (fun _ _ => True) A (fun _ _ => True) s p

section Requests

variable {s₀ s : S3State} {src dest : S3Address} {options : ObjectOptions} {op bucket key context : Str}
  {deadline : Option Nat}

theorem copying_sendOrFail {request : S3Request} {A : request.Value → S3State → Prop}
    (hs : CopyInvariant s₀ src dest options s)
    (heffect : ∀ v s', s.effect? request v = some s' → CopyInvariant s₀ src dest options s')
    (hok : ∀ a s', s.effect? request (some a) = some s' → s.Shows request a → ∀ time, A a (s'.elapse time)) :
    Copying s₀ src dest options A s (sendOrFail op bucket key context deadline request) := by
  refine meets_sendOrFail request hs trivial ?_ ?_ (fun _ _ _ _ => trivial) fun _ _ _ _ => trivial
  · intro r _
    exact S3State.served_of_effect (Q := CopyInvariant s₀ src dest options) (fun _ _ h => h.of_objects rfl) hs heffect
  · intro r a hr ha
    obtain ⟨s', hs', heq, hshows⟩ := S3State.served_of_ok hr.2 ha
    show A a (s.served request r)
    rw [heq]
    exact hok a s' hs' hshows _

/-- A request that writes no object keeps the invariant. -/
theorem copying_sendOrFail_of_not_writes {request : S3Request} {A : request.Value → S3State → Prop}
    (hs : CopyInvariant s₀ src dest options s) (hw : S3State.writes request = false)
    (hok : ∀ a s', s.effect? request (some a) = some s' → s.Shows request a → ∀ time, A a (s'.elapse time)) :
    Copying s₀ src dest options A s (sendOrFail op bucket key context deadline request) :=
  copying_sendOrFail hs (fun _ _ h => hs.of_objects (S3State.effect?_objects hw h)) hok

theorem copying_complete {uploadId : Str} {listed : List (Int × Str)} {o₀ : S3StoredObject} {b k : Str}
    (hs : CopyInvariant s₀ src dest options s) (hdest : s3Address b k = dest) (ho₀ : s₀.objects src = some o₀)
    (hbuilding : Building dest options uploadId listed o₀.bytes s) :
    Copying s₀ src dest options (fun _ s' => HasCopy s₀ src dest options s') s
      (sendOrFail op bucket key context deadline (.completeMultipartUpload b k uploadId listed)) := by
  refine copying_sendOrFail hs (fun v s' h => ?_) fun a s' h _ time => ?_
  · exact (hs.store ho₀ (hbuilding.complete hdest h)).1
  · exact (hs.store ho₀ (hbuilding.complete hdest h)).2

theorem copying_remainingBudget (hs : CopyInvariant s₀ src dest options s) (objectDeadline : Option Nat) :
    Copying s₀ src dest options (fun _ s' => s' = s) s (remainingBudget objectDeadline) := by
  unfold remainingBudget
  cases objectDeadline with
  | none => exact meets_ret hs rfl
  | some d =>
    refine meets_perform hs trivial fun now _ => ?_
    split_ifs
    · exact meets_fail hs trivial
    · exact meets_ret hs rfl

theorem copying_abort {b k uploadId : Str} (hs : CopyInvariant s₀ src dest options s) :
    Copying s₀ src dest options (fun _ _ => True) s
      ((perform (CopyCall.send (some cleanupTimeout) (.abortMultipartUpload b k uploadId))).bind fun _ => .ret ()) := by
  refine meets_perform hs trivial fun r _ => meets_ret ?_ trivial
  exact S3State.served_of_effect (Q := CopyInvariant s₀ src dest options) (fun _ _ h => h.of_objects rfl) hs
    fun _ _ h => hs.of_objects (S3State.effect?_objects (by rfl) h)

end Requests

/-- Where a copy goes. -/
def S3Client.destAddress (c : S3Client) (destKey : Str) : S3Address := s3Address c.bucket (fullKey c.keyPrefix destKey)

section Copy

variable {c : S3Client} {sourceBucket sourceKey destKey : Str} {s₀ s : S3State} {src dest : S3Address} {o₀ : S3StoredObject}

/-- The bytes of a source that a round copies. -/
def pieceBytes (bytes : List UInt8) (chunkSize i : Nat) : List UInt8 :=
  (bytes.drop (Tiles.piece bytes.length chunkSize i).1).take
    ((Tiles.piece bytes.length chunkSize i).2 - (Tiles.piece bytes.length chunkSize i).1)

/-- All rounds copy all bytes. -/
theorem flatMap_pieceBytes {chunkSize : Nat} (hchunk : 0 < chunkSize) (bytes : List UInt8) :
    (List.range (Tiles.divCeil bytes.length chunkSize)).flatMap (pieceBytes bytes chunkSize) = bytes := by
  have hgroups := Groups.flatten_groups hchunk bytes
  rw [Groups.groups_eq_map_pieces hchunk, Tiles.pieces, List.map_map] at hgroups
  rw [List.flatMap_def]
  exact hgroups

/-- **A round copies the next piece.** -/
theorem copying_copyPartsRound {uploadId : Str} {chunkSize partCount i : Nat} {objectDeadline : Option Nat}
    {listed : List (Int × Str)} {bytes : List UInt8} (hsrc : s3Address sourceBucket sourceKey = src)
    (hbucket : '/' ∉ sourceBucket) (hdest : c.destAddress destKey = dest)
    (hs : CopyInvariant s₀ src dest c.objectOptions s) (ho₀ : s₀.objects src = some o₀)
    (hpart : copyPart o₀.bytes.length chunkSize i = some ⟨(i : Int) + 1, Tiles.piece o₀.bytes.length chunkSize i⟩)
    (hnew : (i : Int) + 1 ∉ listed.map Prod.fst)
    (hbuilding : Building dest c.objectOptions uploadId listed bytes s) :
    Copying s₀ src dest c.objectOptions
      (fun b s' => b.1 = (i : Int) + 1 ∧
        Building dest c.objectOptions uploadId (listed ++ [b]) (bytes ++ pieceBytes o₀.bytes chunkSize i) s') s
      (c.copyPartsRound (fullKey c.keyPrefix destKey) uploadId (copySourceHeader sourceBucket sourceKey)
        o₀.bytes.length chunkSize partCount objectDeadline i) := by
  rw [S3Client.copyPartsRound, hpart]
  refine ((copying_remainingBudget hs objectDeadline).mapError fun _ _ _ _ => trivial).bind fun remaining s' hs' heq => ?_
  subst heq
  refine (copying_sendOrFail_of_not_writes (A := fun eTag s'' => ∀ e, eTag = some e →
    Building dest c.objectOptions uploadId (listed ++ [((i : Int) + 1, e)]) (bytes ++ pieceBytes o₀.bytes chunkSize i) s'')
    hs' (by rfl) ?_).bind fun eTag s'' hs'' hbuilding' => ?_
  · rintro eTag s'' heffect - time e rfl
    rw [S3State.effect?, S3State.source?_copySourceHeader hbucket, hsrc] at heffect
    obtain ⟨o, ho, hpart'⟩ := Option.bind_eq_some_iff.mp heffect
    obtain ⟨o₁, ho₁, hbytes⟩ := hs'.source ho
    rw [ho₀] at ho₁
    obtain rfl := Option.some.inj ho₁
    split_ifs at hpart'
    rw [← hbytes] at hpart'
    have haddress : s3Address c.bucket (fullKey c.keyPrefix destKey) = dest := hdest
    rw [haddress] at hpart'
    have hadded := hbuilding.addPart hnew hpart'
    exact hadded
  · cases eTag with
    | none => exact meets_fail hs'' trivial
    | some e => exact meets_ret hs'' ⟨rfl, hbuilding' e rfl⟩

theorem copying_copyAndComplete {uploadId : Str} {chunkSize : Nat} {objectDeadline : Option Nat}
    (hsrc : s3Address sourceBucket sourceKey = src) (hbucket : '/' ∉ sourceBucket)
    (hdest : c.destAddress destKey = dest) (hs : CopyInvariant s₀ src dest c.objectOptions s)
    (ho₀ : s₀.objects src = some o₀) (hsize : o₀.bytes.length ≤ s3MaxObjectSize)
    (hmin : s3MinPartSize ≤ chunkSize) (hmax : chunkSize ≤ copyObjectMaxSize)
    (hbuilding : Building dest c.objectOptions uploadId [] [] s) :
    Copying s₀ src dest c.objectOptions (fun _ s' => HasCopy s₀ src dest c.objectOptions s') s
      (c.copyAndComplete (fullKey c.keyPrefix destKey) uploadId (copySourceHeader sourceBucket sourceKey)
        o₀.bytes.length chunkSize (Tiles.divCeil o₀.bytes.length chunkSize) objectDeadline) := by
  have hpos : 0 < chunkSize := Nat.lt_of_lt_of_le (by decide) hmin
  have hparts : Copying s₀ src dest c.objectOptions
      (fun listed s' => listed.map Prod.fst =
          (List.range (Tiles.divCeil o₀.bytes.length chunkSize)).map (fun i : Nat => (i : Int) + 1) ∧
        Building dest c.objectOptions uploadId listed
          ((List.range (Tiles.divCeil o₀.bytes.length chunkSize)).flatMap (pieceBytes o₀.bytes chunkSize)) s') s
      (c.copyParts (fullKey c.keyPrefix destKey) uploadId (copySourceHeader sourceBucket sourceKey)
        o₀.bytes.length chunkSize (Tiles.divCeil o₀.bytes.length chunkSize) objectDeadline) := by
    refine meets_forEach (J := fun done listed s' => listed.map Prod.fst = done.map (fun i : Nat => (i : Int) + 1) ∧
      Building dest c.objectOptions uploadId listed (done.flatMap (pieceBytes o₀.bytes chunkSize)) s')
      hs ⟨rfl, hbuilding⟩ ?_
    rintro done i rest listed s' hrange hs' ⟨hnumbers, hbuilding'⟩
    have hmem : i ∈ List.range (Tiles.divCeil o₀.bytes.length chunkSize) := by
      rw [hrange]
      simp
    have hnot : i ∉ done := by
      have hnodup := List.nodup_range (n := Tiles.divCeil o₀.bytes.length chunkSize)
      rw [hrange] at hnodup
      exact fun h => (List.disjoint_of_nodup_append hnodup) h List.mem_cons_self
    have hnew : (i : Int) + 1 ∉ listed.map Prod.fst := by
      rw [hnumbers, List.mem_map]
      rintro ⟨j, hj, heq⟩
      obtain rfl : j = i := by omega
      exact hnot hj
    refine (copying_copyPartsRound hsrc hbucket hdest hs' ho₀
      (copyPart_eq hsize hmin hmax (List.mem_range.mp hmem)) hnew hbuilding').imp ?_ fun _ _ _ _ => trivial
    rintro b s'' - ⟨hb, hbuilding''⟩
    refine ⟨?_, ?_⟩
    · simp [hnumbers, hb]
    · rw [List.flatMap_append, List.flatMap_singleton]
      exact hbuilding''
  refine hparts.bind fun listed s' hs' hlisted => ?_
  rw [flatMap_pieceBytes hpos] at hlisted
  refine (copying_remainingBudget hs' objectDeadline).bind fun deadline s'' hs'' heq => ?_
  subst heq
  exact copying_complete hs'' hdest ho₀ hlisted.2

theorem copying_copyObjectMultipart (hsrc : s3Address sourceBucket sourceKey = src) (hbucket : '/' ∉ sourceBucket)
    (hdest : c.destAddress destKey = dest) (hs : CopyInvariant s₀ src dest c.objectOptions s)
    (ho₀ : s₀.objects src = some o₀) (hsize : o₀.bytes.length ≤ s3MaxObjectSize) :
    Copying s₀ src dest c.objectOptions (fun _ s' => HasCopy s₀ src dest c.objectOptions s') s
      (c.copyObjectMultipart sourceBucket sourceKey destKey o₀.bytes.length) := by
  have hsize64 : o₀.bytes.length < 2 ^ 64 := Nat.lt_of_le_of_lt hsize (by decide)
  obtain ⟨hmin, hmax⟩ := chunkSizeOf_bounds o₀.bytes.length c.chunkSize c.maxPartsCount
  have hpos : 0 < chunkSizeOf o₀.bytes.length c.chunkSize c.maxPartsCount := Nat.lt_of_lt_of_le (by decide) hmin
  have hdeadline : Copying s₀ src dest c.objectOptions (fun _ s' => s' = s) s (c.objectDeadline o₀.bytes.length) := by
    rw [S3Client.objectDeadline]
    split
    · exact meets_ret hs rfl
    · exact meets_perform hs trivial fun now _ => meets_ret hs rfl
  refine hdeadline.bind fun deadline s' hs' heq => ?_
  subst heq
  refine (copying_sendOrFail_of_not_writes (A := fun uploadId s'' => ∀ id, uploadId = some id →
    Building dest c.objectOptions id [] [] s'') hs' (by rfl) ?_).bind fun uploadId s'' hs'' hbuilding => ?_
  · rintro uploadId s'' heffect - time id rfl
    rw [S3State.effect?] at heffect
    simp only [Option.join_some] at heffect
    split_ifs at heffect
    rw [← Option.some.inj heffect]
    exact ⟨_, S3State.setUpload_uploads _ _, hdest, rfl, rfl⟩
  · cases uploadId with
    | none => exact meets_fail hs'' trivial
    | some id =>
      dsimp only
      rw [calculateChunkSize_eq hsize64]
      dsimp only
      rw [divCeilU64_eq hsize64 hpos]
      exact meets_abortOnError (copying_copyAndComplete hsrc hbucket hdest hs'' ho₀ hsize hmin hmax (hbuilding id rfl))
        fun e s''' hs''' _ => copying_abort hs'''

theorem copying_copyObjectSingle (hsrc : s3Address sourceBucket sourceKey = src) (hbucket : '/' ∉ sourceBucket)
    (hdest : c.destAddress destKey = dest) (hs : CopyInvariant s₀ src dest c.objectOptions s) (size : Option Nat) :
    Copying s₀ src dest c.objectOptions (fun _ s' => HasCopy s₀ src dest c.objectOptions s') s
      (c.copyObjectSingle sourceBucket sourceKey destKey size) := by
  have hstores : ∀ v s', s.effect? (.copyObject c.bucket (fullKey c.keyPrefix destKey)
      (copySourceHeader sourceBucket sourceKey) c.objectOptions) v = some s' →
        CopyInvariant s₀ src dest c.objectOptions s' ∧ HasCopy s₀ src dest c.objectOptions s' := by
    intro v s' heffect
    rw [S3State.effect?, S3State.source?_copySourceHeader hbucket, hsrc] at heffect
    obtain ⟨o, ho, hstore⟩ := Option.bind_eq_some_iff.mp heffect
    obtain ⟨o₁, ho₁, hbytes⟩ := hs.source ho
    split_ifs at hstore
    have haddress : s3Address c.bucket (fullKey c.keyPrefix destKey) = dest := hdest
    refine hs.store ho₁ ?_
    rw [← Option.some.inj hstore, haddress, hbytes]
  exact copying_sendOrFail hs (fun v s' h => (hstores v s' h).1) fun a s' h _ time => (hstores (some a) s' h).2

theorem copying_copyObject (hsrc : s3Address sourceBucket sourceKey = src) (hbucket : '/' ∉ sourceBucket)
    (hdest : c.destAddress destKey = dest) (hsize : ∀ o, s₀.objects src = some o → o.bytes.length ≤ s3MaxObjectSize)
    (hs : CopyInvariant s₀ src dest c.objectOptions s) :
    Copying s₀ src dest c.objectOptions (fun _ s' => HasCopy s₀ src dest c.objectOptions s') s
      (c.copyObject sourceBucket sourceKey destKey) := by
  refine meets_perform hs trivial fun r hr => ?_
  have hs' : CopyInvariant s₀ src dest c.objectOptions (s.served (.headObject sourceBucket sourceKey) r) :=
    S3State.served_of_effect (Q := CopyInvariant s₀ src dest c.objectOptions) (fun _ _ h => h.of_objects rfl) hs
      fun _ _ h => hs.of_objects (S3State.effect?_objects (by rfl) h)
  cases hanswer : r.answer with
  | timedOut figures => exact meets_fail hs' trivial
  | error text => exact copying_copyObjectSingle hsrc hbucket hdest hs' none
  | ok contentLength =>
    dsimp only
    split_ifs with hlarge
    · obtain ⟨-, -, o, ho, hlength⟩ := hr.2 contentLength hanswer
      rw [hsrc] at ho
      obtain ⟨o₁, ho₁, hbytes⟩ := hs.source ho
      cases contentLength with
      | none => exact absurd hlarge (by decide)
      | some n =>
        have hn : ((some n : Option Int).getD 0).toNat = o₁.bytes.length := by
          rw [(hlength n rfl).1, hbytes]
          rfl
        rw [hn]
        exact copying_copyObjectMultipart hsrc hbucket hdest hs' ho₁ (hsize o₁ ho₁)
    · exact copying_copyObjectSingle hsrc hbucket hdest hs' _

end Copy

/-! ## Through the client -/

/-- Where a streaming copy stands: what was read is uploaded or in the buffer. -/
structure Streaming (dest : S3Address) (options : ObjectOptions) (uploadId : Str) (bytes : List UInt8)
    (st : S3Client.StreamingCopy) (s : S3State) : Prop where
  building : ∃ done, Building dest options uploadId st.completedParts done s ∧ done ++ st.buffer = bytes
  earlier : ∀ n ∈ st.completedParts.map Prod.fst, n < st.partNumber

theorem Streaming.addPart {dest : S3Address} {options : ObjectOptions} {uploadId : Str} {bytes body rest : List UInt8}
    {st : S3Client.StreamingCopy} {s s' : S3State} {eTag : Str} (h : Streaming dest options uploadId bytes st s)
    (hbuffer : body ++ rest = st.buffer)
    (hs' : s.addPart? dest uploadId st.partNumber (some eTag) body = some s') :
    Streaming dest options uploadId bytes ⟨rest, st.partNumber + 1, st.completedParts ++ [(st.partNumber, eTag)]⟩ s' := by
  obtain ⟨done, hbuilding, hdone⟩ := h.building
  have hnew : st.partNumber ∉ st.completedParts.map Prod.fst := fun hmem => Int.lt_irrefl _ (h.earlier _ hmem)
  refine ⟨⟨done ++ body, hbuilding.addPart hnew hs', ?_⟩, fun n hn => ?_⟩
  · rw [List.append_assoc, hbuffer, hdone]
  · rw [List.map_append, List.mem_append] at hn
    rcases hn with hn | hn
    · have hlt := h.earlier n hn
      show n < st.partNumber + 1
      omega
    · rw [List.map_singleton, List.mem_singleton] at hn
      subst hn
      show st.partNumber < st.partNumber + 1
      omega

theorem received_of_collectBody {items : List (Except Str (List UInt8))} {bytes : List UInt8}
    (h : S3Client.collectBody items = .ok bytes) :
    (∀ item ∈ items, item.toOption.isSome) ∧ S3State.received items = bytes := by
  induction items generalizing bytes with
  | nil =>
    cases h
    exact ⟨fun item hitem => absurd hitem List.not_mem_nil, rfl⟩
  | cons item items ih =>
    cases item with
    | error e => cases h
    | ok first =>
      rw [S3Client.collectBody] at h
      cases hrest : S3Client.collectBody items with
      | error e =>
        rw [hrest] at h
        cases h
      | ok rest =>
        rw [hrest] at h
        cases h
        obtain ⟨hall, hreceived⟩ := ih hrest
        refine ⟨fun item hitem => ?_, by rw [S3State.received, hreceived]⟩
        rcases List.mem_cons.mp hitem with rfl | hitem
        · rfl
        · exact hall item hitem

section Streaming

variable {c : S3Client} {sourceBucket sourceKey destKey uploadId : Str} {s₀ s : S3State} {src dest : S3Address}
  {bytes : List UInt8} {st : S3Client.StreamingCopy}

theorem copying_uploadPart {rest body : List UInt8} {f : Str → Str} (hdest : c.destAddress destKey = dest)
    (hs : CopyInvariant s₀ src dest c.objectOptions s) (h : Streaming dest c.objectOptions uploadId bytes st s)
    (hbuffer : body ++ rest = st.buffer) :
    Copying s₀ src dest c.objectOptions
      (fun eTag s' => Streaming dest c.objectOptions uploadId bytes
        ⟨rest, st.partNumber + 1, st.completedParts ++ [(st.partNumber, eTag)]⟩ s') s
      ((c.uploadPart destKey uploadId st.partNumber body).mapError f) := by
  refine Meets.mapError (E := fun _ _ => True) ?_ fun _ _ _ _ => trivial
  refine (copying_sendOrFail_of_not_writes (A := fun eTag s' => ∀ e, eTag = some e →
    Streaming dest c.objectOptions uploadId bytes
      ⟨rest, st.partNumber + 1, st.completedParts ++ [(st.partNumber, e)]⟩ s') hs (by rfl) ?_).bind fun eTag s' hs' hadded => ?_
  · rintro eTag s' heffect - time e rfl
    have haddress : s3Address c.bucket (fullKey c.keyPrefix destKey) = dest := hdest
    rw [S3State.effect?, haddress] at heffect
    obtain ⟨hbuilding, hearlier⟩ := h.addPart hbuffer heffect
    exact ⟨hbuilding, hearlier⟩
  · cases eTag with
    | none => exact meets_fail hs' trivial
    | some e => exact meets_ret hs' (hadded e rfl)

theorem copying_uploadFullChunks {chunkSize : Nat} (hchunk : 0 < chunkSize) (hdest : c.destAddress destKey = dest)
    (hs : CopyInvariant s₀ src dest c.objectOptions s) (h : Streaming dest c.objectOptions uploadId bytes st s) :
    Copying s₀ src dest c.objectOptions (fun st' s' => Streaming dest c.objectOptions uploadId bytes st' s') s
      (c.uploadFullChunks sourceBucket sourceKey destKey uploadId hchunk st) := by
  induction hn : st.buffer.length using Nat.strongRecOn generalizing st s with
  | _ n ih =>
    rw [S3Client.uploadFullChunks]
    split_ifs with hfull
    · refine (copying_uploadPart hdest hs h (List.take_append_drop chunkSize st.buffer)).bind
        fun eTag s' hs' h' => ih _ ?_ hs' h' rfl
      rw [List.length_drop]
      omega
    · exact meets_ret hs h

theorem copying_uploadBody {chunkSize : Nat} (hchunk : 0 < chunkSize) (hdest : c.destAddress destKey = dest)
    (items : List (Except Str (List UInt8))) (hs : CopyInvariant s₀ src dest c.objectOptions s)
    (h : Streaming dest c.objectOptions uploadId bytes st s) :
    Copying s₀ src dest c.objectOptions
      (fun st' s' => (∀ item ∈ items, item.toOption.isSome) ∧
        Streaming dest c.objectOptions uploadId (bytes ++ S3State.received items) st' s') s
      (c.uploadBody sourceBucket sourceKey destKey uploadId hchunk st items) := by
  induction items generalizing st s bytes with
  | nil =>
    refine meets_ret hs ⟨fun item hitem => absurd hitem List.not_mem_nil, ?_⟩
    rwa [S3State.received, List.append_nil]
  | cons item items ih =>
    cases item with
    | error e => exact meets_fail hs trivial
    | ok more =>
      have hmore : Streaming dest c.objectOptions uploadId (bytes ++ more) { st with buffer := st.buffer ++ more } s := by
        obtain ⟨done, hbuilding, hdone⟩ := h.building
        refine ⟨⟨done, hbuilding, ?_⟩, h.earlier⟩
        rw [← hdone, List.append_assoc]
      refine (copying_uploadFullChunks hchunk hdest hs hmore).bind fun st' s' hs' h' => ?_
      refine (ih hs' h').imp ?_ fun _ _ _ _ => trivial
      rintro st'' s'' - ⟨hall, h''⟩
      rw [List.append_assoc] at h''
      refine ⟨fun item hitem => ?_, h''⟩
      rcases List.mem_cons.mp hitem with rfl | hitem
      · rfl
      · exact hall item hitem

theorem copying_uploadRest (hdest : c.destAddress destKey = dest) (hs : CopyInvariant s₀ src dest c.objectOptions s)
    (h : Streaming dest c.objectOptions uploadId bytes st s) :
    Copying s₀ src dest c.objectOptions (fun parts s' => Building dest c.objectOptions uploadId parts bytes s') s
      (c.uploadRest sourceBucket sourceKey destKey uploadId st) := by
  rw [S3Client.uploadRest]
  split_ifs with hempty
  · obtain ⟨done, hbuilding, hdone⟩ := h.building
    rw [hempty, List.append_nil] at hdone
    subst hdone
    exact meets_ret hs hbuilding
  · refine (copying_uploadPart hdest hs h (List.append_nil st.buffer)).bind fun eTag s' hs' h' => meets_ret hs' ?_
    obtain ⟨done, hbuilding, hdone⟩ := h'.building
    rw [List.append_nil] at hdone
    subst hdone
    exact hbuilding

theorem copying_copyObjectStreaming (hsrc : s3Address sourceBucket sourceKey = src)
    (hdest : c.destAddress destKey = dest) (hs : CopyInvariant s₀ src dest c.objectOptions s) :
    Copying s₀ src dest c.objectOptions (fun _ s' => HasCopy s₀ src dest c.objectOptions s') s
      (c.copyObjectStreaming sourceBucket sourceKey destKey) := by
  refine (copying_sendOrFail_of_not_writes
    (A := fun (getResp : S3Request.Value (.getObject sourceBucket sourceKey)) _ => ∃ o, s₀.objects src = some o ∧
      ((∀ item ∈ getResp.2, item.toOption.isSome) → S3State.received getResp.2 = o.bytes)) hs (by rfl) ?_).bind
        fun getResp s' hs' hbody => ?_
  · rintro getResp s' - hshows time
    obtain ⟨o, ho, -, -, hwhole⟩ := hshows
    rw [hsrc] at ho
    obtain ⟨o₁, ho₁, hbytes⟩ := hs.source ho
    exact ⟨o₁, ho₁, fun hall => (hwhole hall).trans hbytes.symm⟩
  · obtain ⟨o, ho, hwhole⟩ := hbody
    dsimp only
    split_ifs
    · split
      · exact meets_fail hs' trivial
      · rename_i bytes hcollect
        obtain ⟨hall, hreceived⟩ := received_of_collectBody hcollect
        have hbytes : o.bytes = bytes := (hwhole hall).symm.trans hreceived
        subst hbytes
        refine Meets.mapError (E := fun _ _ => True) ?_ fun _ _ _ _ => trivial
        have hstores : ∀ v s'', s'.effect? (.putObject c.bucket (fullKey c.keyPrefix destKey) o.bytes c.objectOptions) v =
            some s'' → CopyInvariant s₀ src dest c.objectOptions s'' ∧ HasCopy s₀ src dest c.objectOptions s'' := by
          intro v s'' heffect
          have haddress : s3Address c.bucket (fullKey c.keyPrefix destKey) = dest := hdest
          rw [S3State.effect?, haddress] at heffect
          refine hs'.store ho ?_
          rw [← Option.some.inj heffect]
        exact copying_sendOrFail hs' (fun v s'' h => (hstores v s'' h).1) fun a s'' h _ time => (hstores (some a) s'' h).2
    · split
      · exact meets_fail hs' trivial
      · refine Meets.bind (A := fun id s'' => Building dest c.objectOptions id [] [] s'') ?_ fun id s'' hs'' hbuilding => ?_
        · refine (copying_sendOrFail_of_not_writes (A := fun uploadId s'' => ∀ id, uploadId = some id →
            Building dest c.objectOptions id [] [] s'') hs' (by rfl) ?_).bind fun uploadId s'' hs'' hbuilding => ?_
          · rintro uploadId s'' heffect - time id rfl
            rw [S3State.effect?] at heffect
            simp only [Option.join_some] at heffect
            split_ifs at heffect
            rw [← Option.some.inj heffect]
            exact ⟨_, S3State.setUpload_uploads _ _, hdest, rfl, rfl⟩
          · cases uploadId with
            | none => exact meets_fail hs'' trivial
            | some id => exact meets_ret hs'' (hbuilding id rfl)
        · refine meets_abortOnError (E := fun _ _ => True) ?_ fun e s''' hs''' _ => ?_
          · have hstart : Streaming dest c.objectOptions id [] ⟨[], 1, []⟩ s'' :=
              ⟨⟨[], hbuilding, rfl⟩, fun n hn => absurd hn List.not_mem_nil⟩
            refine (copying_uploadBody _ hdest _ hs'' hstart).bind fun st s''' hs''' hst => ?_
            obtain ⟨hall, hst⟩ := hst
            rw [List.nil_append, hwhole hall] at hst
            refine (copying_uploadRest hdest hs''' hst).bind fun parts s4 hs4 hparts => ?_
            exact (copying_complete hs4 hdest ho hparts).mapError fun _ _ _ _ => trivial
          · exact copying_sendOrFail_of_not_writes hs''' (by rfl) fun _ _ _ _ _ => trivial

end Streaming

/-! ## All attempts -/

section Attempts

variable {c : S3Client} {sourceBucket sourceKey destKey : Str} {s₀ s : S3State} {src dest : S3Address}

theorem copying_copyAttempts (hsrc : s3Address sourceBucket sourceKey = src) (hbucket : '/' ∉ sourceBucket)
    (hdest : c.destAddress destKey = dest) (hsize : ∀ o, s₀.objects src = some o → o.bytes.length ≤ s3MaxObjectSize)
    (allowStreaming : Bool) (attempts : Nat) (delays : List Nat) (hs : CopyInvariant s₀ src dest c.objectOptions s) :
    Copying s₀ src dest c.objectOptions (fun _ s' => HasCopy s₀ src dest c.objectOptions s') s
      (c.copyAttempts sourceBucket sourceKey destKey allowStreaming attempts delays) := by
  induction delays generalizing s with
  | nil => exact meets_fail hs trivial
  | cons delayMs rest ih =>
    refine (copying_copyObject hsrc hbucket hdest hsize hs).attempt.bind fun outcome s' hs' houtcome => ?_
    cases outcome with
    | ok a => exact meets_ret hs' (houtcome.1 a rfl)
    | error e =>
      dsimp only
      split_ifs
      · exact meets_fail hs' trivial
      · refine meets_perform hs' trivial fun actualDelay _ => meets_perform hs' trivial fun time _ => ih ?_
        exact hs'.of_objects rfl
      · exact copying_copyObjectStreaming hsrc hdest hs'
      · exact meets_fail hs' trivial

/-- **A copy stores the bytes of its source, or leaves the destination as it was.**  At every moment of every
run no other object has changed, and the destination is what it was or has all bytes of the source and the
options of the client.  It has them when the copy succeeds. -/
theorem copy_stores_source (c : S3Client) (sourceBucket sourceKey destKey : Str) (allowStreaming : Bool) {s : S3State}
    {t : List CopyEvent} {e : End Str Unit} (hbucket : '/' ∉ sourceBucket)
    (hsize : ∀ o, s.objects (s3Address sourceBucket sourceKey) = some o → o.bytes.length ≤ s3MaxObjectSize)
    (hrun : Runs (c.copyObjectWithRetryJitter sourceBucket sourceKey destKey allowStreaming) t e)
    (hlegal : s3World.Legal s t) :
    CopyInvariant s (s3Address sourceBucket sourceKey) (c.destAddress destKey) c.objectOptions (s3World.after s t) ∧
      (e = .returned () →
        HasCopy s (s3Address sourceBucket sourceKey) (c.destAddress destKey) c.objectOptions (s3World.after s t)) := by
  have hstart : CopyInvariant s (s3Address sourceBucket sourceKey) (c.destAddress destKey) c.objectOptions s :=
    ⟨fun _ _ => rfl, .inl rfl⟩
  obtain ⟨hinvariant, hend, -⟩ :=
    (copying_copyAttempts rfl hbucket rfl hsize allowStreaming _ S3Client.backoffMs hstart).runs hrun hlegal
  refine ⟨hinvariant, ?_⟩
  rintro rfl
  exact hend

end Attempts

/-! ## A copy in one request -/

/-- A client without deadlines. -/
def plainClient : S3Client := ⟨"b", [], [], [], [], [], ⟨0, 0⟩, 0, 10000⟩

/-- One object of three bytes. -/
def bucketOfOne : S3State where
  clock := 0
  objects a := if a = s3Address "a" "k" then some ⟨[1, 2, 3], plainClient.objectOptions⟩ else none
  uploads _ := none

/-- The object is looked at and copied. -/
def oneCopy : List CopyEvent :=
  [⟨.send none (.headObject "a" "k"), ⟨.ok (some 3), 5, true⟩⟩,
    ⟨.send none (.copyObject "b" "k" (copySourceHeader "a" "k") plainClient.objectOptions), ⟨.ok (), 7, true⟩⟩]

theorem oneCopy_runs : Runs (plainClient.copyObjectWithRetryJitter "a" "k" "k" false) oneCopy (.returned ()) :=
  .call _ (.call _ (.ret ()))

theorem source_bucketOfOne {s : S3State} (h : s.objects = bucketOfOne.objects) :
    s.source? (copySourceHeader "a" "k") = some ⟨[1, 2, 3], plainClient.objectOptions⟩ := by
  rw [S3State.source?_copySourceHeader (by decide), h]
  rfl

theorem oneCopy_legal : s3World.Legal bucketOfOne oneCopy := by
  refine ⟨⟨⟨fun d hd => ?_, fun figures h => ?_⟩, fun a ha => ?_⟩, ⟨⟨fun d hd => ?_, fun figures h => ?_⟩, fun a ha => ?_⟩, trivial⟩
  · cases hd
  · cases h
  · cases ha
    exact ⟨rfl, rfl, _, rfl, fun n hn => by cases hn; decide⟩
  · cases hd
  · cases h
  · refine ⟨rfl, ?_, trivial⟩
    rw [S3State.effect?, source_bucketOfOne (s := s3World.next bucketOfOne _) rfl]
    rfl

/-- The object is stored under the other key. -/
theorem oneCopy_stores :
    HasCopy bucketOfOne (s3Address "a" "k") (plainClient.destAddress "k") plainClient.objectOptions
      (s3World.after bucketOfOne oneCopy) := by
  refine (copy_stores_source plainClient "a" "k" "k" false (by decide) (fun o ho => ?_) oneCopy_runs oneCopy_legal).2 rfl
  cases ho
  decide

end Chbackup
