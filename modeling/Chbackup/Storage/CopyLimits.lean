import Chbackup.Storage.CopyStores

/-!
# What a copy may use

* A multipart copy takes no longer than the budget of its object, and if it fails, no longer than the
  abort after that (`multipart_within_budget`).
* An upload is left open only if its abort was refused (`uploads_settled`).
-/

namespace Chbackup

open CallTree Prog World

/-! ## Time -/

section Time

theorem S3State.addPart?_clock {s s' : S3State} {a : S3Address} {uploadId : Str} {partNumber : Int}
    {eTag : Option Str} {bytes : List UInt8} (h : s.addPart? a uploadId partNumber eTag bytes = some s') :
    s'.clock = s.clock := by
  obtain ⟨u, -, hu⟩ := Option.map_eq_some_iff.mp h
  cases eTag with
  | none => rw [← hu]
  | some eTag =>
    rw [← hu]
    rfl

/-- Time passes only as long as a request takes. -/
theorem S3State.effect?_clock {s s' : S3State} {request : S3Request} {v : Option request.Value}
    (h : s.effect? request v = some s') : s'.clock = s.clock := by
  cases request with
  | copyObject =>
    obtain ⟨o, -, ho⟩ := Option.bind_eq_some_iff.mp h
    split_ifs at ho
    rw [← Option.some.inj ho]
    rfl
  | completeMultipartUpload =>
    obtain ⟨u, -, hu⟩ := Option.bind_eq_some_iff.mp h
    obtain ⟨bytes, -, hstore⟩ := Option.map_eq_some_iff.mp hu
    rw [← hstore]
    rfl
  | putObject =>
    rw [← Option.some.inj h]
    rfl
  | headObject => exact congrArg S3State.clock (Option.some.inj h).symm
  | getObject => exact congrArg S3State.clock (Option.some.inj h).symm
  | createMultipartUpload =>
    rw [effect?] at h
    split at h
    · split_ifs at h
      rw [← Option.some.inj h]
      rfl
    · rw [← Option.some.inj h]
  | uploadPartCopy =>
    obtain ⟨o, -, ho⟩ := Option.bind_eq_some_iff.mp h
    split_ifs at ho
    exact addPart?_clock ho
  | uploadPart => exact addPart?_clock h
  | abortMultipartUpload =>
    obtain ⟨u, -, hu⟩ := Option.map_eq_some_iff.mp h
    rw [← hu]
    rfl

theorem S3State.served_clock (s : S3State) (request : S3Request) (r : Served request.Value) :
    (s.served request r).clock = s.clock + r.elapsed := by
  show (if r.tookEffect = true then (s.effect? request r.answer.value?).getD s else s).clock + r.elapsed = _
  split_ifs
  · cases heffect : s.effect? request r.answer.value? with
    | none => rfl
    | some s' => rw [Option.getD_some, effect?_clock heffect]
  · rfl

variable {c : S3Client} {sourceBucket sourceKey destKey uploadId : Str} {s : S3State} {limit last : Nat}

/-- A program keeps the last moment, and ends by a limit. -/
abbrev Timed {α : Type} (limit last : Nat) (s : S3State) (p : CopyProg α) : Prop :=
  s3World.Meets (fun s' => s'.clock ≤ last) (fun _ _ => True) (fun _ s' => s'.clock ≤ limit) (fun _ s' => s'.clock ≤ limit)
    s p

/-- A request that may take as long as there is time ends by the limit. -/
theorem timed_sendOrFail {op bucket key context : Str} {d : Nat} {request : S3Request} (hlast : limit ≤ last)
    (h : s.clock + d ≤ limit) : Timed limit last s (sendOrFail op bucket key context (some d) request) := by
  have hclock : ∀ r, s3World.allows s ⟨.send (some d) request, r⟩ →
      (s3World.next s ⟨.send (some d) request, r⟩).clock ≤ limit := by
    intro r hr
    have helapsed := hr.1.1 d rfl
    show (s.served request r).clock ≤ limit
    rw [S3State.served_clock]
    omega
  refine meets_sendOrFail request (by omega) trivial ?_ ?_ ?_ ?_
  · exact fun r hr => Nat.le_trans (hclock r hr) hlast
  · exact fun r a hr _ => hclock r hr
  · exact fun r text hr _ => hclock r hr
  · exact fun r figures hr _ => hclock r hr

/-- What remains is what remains of the budget. -/
theorem timed_remainingBudget (hs : s.clock ≤ last) (hl : s.clock ≤ limit) :
    s3World.Meets (fun s' => s'.clock ≤ last) (fun _ _ => True)
      (fun left s' => ∃ l, left = some l ∧ s'.clock + l = limit) (fun _ s' => s'.clock ≤ limit) s
      (remainingBudget (some limit)) := by
  refine meets_perform hs trivial fun now hnow => ?_
  obtain rfl : now = s.clock := hnow
  split_ifs
  · exact meets_fail hs hl
  · refine meets_ret hs ⟨_, rfl, ?_⟩
    show s.clock + (limit - s.clock) = limit
    omega

theorem timed_copyPartsRound {fullDestKey header : Str} {sourceSize chunkSize partCount i d₀ : Nat}
    (hon : s3Deadline .copy (some sourceSize) c.timeouts = some d₀) (hlast : limit ≤ last) (hl : s.clock ≤ limit) :
    Timed limit last s
      (c.copyPartsRound fullDestKey uploadId header sourceSize chunkSize partCount (some limit) i) := by
  unfold S3Client.copyPartsRound
  split
  · exact meets_fail (Nat.le_trans hl hlast) hl
  · rename_i part _
    refine ((timed_remainingBudget (Nat.le_trans hl hlast) hl).mapError fun _ _ _ h => h).bind fun left s' hs' hleft => ?_
    obtain ⟨l, rfl, hl'⟩ := hleft
    have hpart : ∃ d, s3Deadline .copy (some (part.range.2 - part.range.1)) c.timeouts = some d := by
      unfold s3Deadline at hon ⊢
      split_ifs at hon ⊢
      · exact ⟨_, rfl⟩
      · exact ⟨_, rfl⟩
    obtain ⟨d, hd⟩ := hpart
    rw [hd]
    have hbound : s'.clock + min d l ≤ limit := by omega
    refine (timed_sendOrFail hlast hbound).bind fun eTag s'' hs'' h'' => ?_
    cases eTag with
    | none => exact meets_fail hs'' h''
    | some e => exact meets_ret hs'' h''

/-- The parts and the completion end by the limit. -/
theorem timed_copyAndComplete {fullDestKey header : Str} {sourceSize chunkSize partCount d₀ : Nat}
    (hon : s3Deadline .copy (some sourceSize) c.timeouts = some d₀) (hlast : limit ≤ last) (hl : s.clock ≤ limit) :
    Timed limit last s
      (c.copyAndComplete fullDestKey uploadId header sourceSize chunkSize partCount (some limit)) := by
  refine (meets_forEach (J := fun _ _ (s' : S3State) => s'.clock ≤ limit) (Nat.le_trans hl hlast) hl
    fun done i rest listed s' _ _ h' => timed_copyPartsRound hon hlast h').bind fun listed s' hs' hl' => ?_
  refine (timed_remainingBudget hs' hl').bind fun left s'' hs'' hleft => ?_
  obtain ⟨l, rfl, hl''⟩ := hleft
  exact timed_sendOrFail hlast (Nat.le_of_eq hl'')

/-- The deadline of a bodyless request is within the budget of any object. -/
theorem metadata_le_budget {t : S3Timeouts} (hsecs : t.requestTimeoutSecs < 2 ^ 64) {size : Option Nat} {budget : Nat}
    (h : s3Deadline .copy size t = some budget) : ∃ d, s3Deadline .metadata none t = some d ∧ d ≤ budget := by
  have hbase : durationFromSecs t.requestTimeoutSecs ≤ durationMax := by
    unfold durationMax durationFromSecs
    omega
  unfold s3Deadline at h ⊢
  split_ifs at h ⊢
  · refine ⟨_, rfl, ?_⟩
    rw [← Option.some.inj h]
  · refine ⟨_, rfl, ?_⟩
    rw [← Option.some.inj h]
    omega

/-- **A multipart copy stays within the budget of its object.**  The requests for its parts have deadlines
of their own; but it succeeds within the budget that is computed once, or fails by then and has the fixed
time of a cleanup for its abort. -/
theorem multipart_within_budget (c : S3Client) (sourceBucket sourceKey destKey : Str) {sourceSize budget : Nat}
    {s : S3State} {t : List CopyEvent} {e : End Str Unit} (hsecs : c.timeouts.requestTimeoutSecs < 2 ^ 64)
    (hbudget : s3Deadline .copy (some sourceSize) c.timeouts = some budget)
    (hrun : Runs (c.copyObjectMultipart sourceBucket sourceKey destKey sourceSize) t e) (hlegal : s3World.Legal s t) :
    (s3World.after s t).clock ≤ s.clock + budget + cleanupTimeout ∧
      (e = .returned () → (s3World.after s t).clock ≤ s.clock + budget) := by
  obtain ⟨d, hd, hle⟩ := metadata_le_budget hsecs hbudget
  have hmeets : s3World.Meets (fun s' => s'.clock ≤ s.clock + budget + cleanupTimeout) (fun _ _ => True)
      (fun _ s' => s'.clock ≤ s.clock + budget) (fun _ _ => True) s
      (c.copyObjectMultipart sourceBucket sourceKey destKey sourceSize) := by
    have hstart : s.clock ≤ s.clock + budget + cleanupTimeout := by omega
    rw [S3Client.copyObjectMultipart, S3Client.objectDeadline, hbudget]
    refine meets_perform hstart trivial fun now hnow => ?_
    obtain rfl : now = s.clock := hnow
    dsimp only [ret_bind]
    rw [hd]
    refine Meets.bind (Meets.imp (timed_sendOrFail (Nat.le_add_right _ cleanupTimeout) (Nat.add_le_add_left hle s.clock))
      (fun _ _ _ h => h) fun _ _ _ _ => trivial) fun uploadId s' hs' hl' => ?_
    cases uploadId with
    | none => exact meets_fail hs' trivial
    | some id =>
      dsimp only
      split
      · exact meets_fail hs' trivial
      · split
        · exact meets_fail hs' trivial
        · refine meets_abortOnError (timed_copyAndComplete hbudget (by omega) hl') fun e s'' hs'' hl'' => ?_
          refine meets_perform hs'' trivial fun r hr => meets_ret ?_ trivial
          have helapsed := hr.1.1 _ rfl
          show (s''.served _ r).clock ≤ _
          rw [S3State.served_clock]
          omega
  obtain ⟨hlast, hend, -⟩ := hmeets.runs hrun hlegal
  refine ⟨hlast, ?_⟩
  rintro rfl
  exact hend

/-! ## A copy that runs out of time -/

/-- A client that waits one second for every request. -/
def hastyClient : S3Client := ⟨"b", [], [], [], [], [], ⟨1, 0⟩, 0, 10000⟩

/-- The upload takes all of the budget to create, and its abort is not answered. -/
def lateCopy : List CopyEvent :=
  [⟨.now, (0 : Nat)⟩,
    ⟨.send (some 1000000000) (.createMultipartUpload "b" "k" hastyClient.objectOptions),
      ⟨.ok (some "u"), 1000000000, true⟩⟩,
    ⟨.now, (1000000000 : Nat)⟩,
    ⟨.send (some cleanupTimeout) (.abortMultipartUpload "b" "k" "u"), ⟨.timedOut "", cleanupTimeout, false⟩⟩]

theorem lateCopy_runs :
    Runs (hastyClient.copyObjectMultipart "a" "k" "k" 3) lateCopy
      (.failed "after 0/1 parts of k: S3 request timed out: multipart copy exceeded its whole-object budget") :=
  .call _ (.call _ (.call _ (.call _ (.fail _))))

theorem lateCopy_legal : s3World.Legal bucketOfOne lateCopy := by
  refine ⟨rfl, ⟨⟨fun d hd => ?_, fun figures h => ?_⟩, fun a ha => ?_⟩, rfl,
    ⟨⟨fun d hd => ?_, fun figures h => ?_⟩, fun a ha => ?_⟩, trivial⟩
  · rw [← Option.some.inj hd]
  · cases h
  · cases ha
    exact ⟨rfl, rfl, trivial⟩
  · rw [← Option.some.inj hd]
  · rfl
  · cases ha

/-- The copy fails when its budget and the time of a cleanup have passed. -/
theorem lateCopy_within_budget :
    (s3World.after bucketOfOne lateCopy).clock ≤ bucketOfOne.clock + 1000000000 + cleanupTimeout :=
  (multipart_within_budget hastyClient "a" "k" "k" (by decide) rfl lateCopy_runs lateCopy_legal).1

end Time

/-! ## Parts -/

/-- The requests that store a part. -/
def StoresPart : S3Request → Prop
  | .uploadPartCopy _ _ _ _ _ _ => True
  | .uploadPart _ _ _ _ _ => True
  | _ => False

section Parts

/-- The requests for parts keep `K`, and an error leaves `E`. -/
structure PartsKeep {σ : Type} (w : World CopyCall CopyCall.Reply σ) (I : σ → Prop) (P : σ → CopyCall → Prop)
    (K : σ → Prop) (E : Str → σ → Prop) : Prop where
  here : ∀ {s}, K s → I s
  error : ∀ {s} e, K s → E e s
  context : ∀ {s e} context, E e s → E (withContext context e) s
  now : ∀ {s}, K s → P s .now ∧ ∀ time, w.allows s ⟨.now, time⟩ → K (w.next s ⟨.now, time⟩)
  send : ∀ {s} request op bucket key context deadline, StoresPart request → K s →
    w.Meets I P (fun _ s' => K s') E s (sendOrFail op bucket key context deadline request)

/-- A program keeps `K`, and its error leaves `E`. -/
abbrev Keeping {σ α : Type} (w : World CopyCall CopyCall.Reply σ) (I : σ → Prop) (P : σ → CopyCall → Prop)
    (K : σ → Prop) (E : Str → σ → Prop) (s : σ) (p : CopyProg α) : Prop :=
  w.Meets I P (fun _ s' => K s') E s p

variable {σ : Type} {w : World CopyCall CopyCall.Reply σ} {I : σ → Prop} {P : σ → CopyCall → Prop} {K : σ → Prop}
  {E : Str → σ → Prop} {c : S3Client} {sourceBucket sourceKey destKey uploadId : Str} {s : σ}
  (h : PartsKeep w I P K E)

include h

theorem PartsKeep.meets_ret {α : Type} (hs : K s) (a : α) : Keeping w I P K E s (.ret a : CopyProg α) :=
  World.meets_ret (h.here hs) hs

theorem PartsKeep.meets_fail {α : Type} (hs : K s) (e : Str) : Keeping w I P K E s (.fail e : CopyProg α) :=
  World.meets_fail (h.here hs) (h.error e hs)

theorem PartsKeep.meets_context {α : Type} {p : CopyProg α} (hp : Keeping w I P K E s p) (context : Str) :
    Keeping w I P K E s (p.mapError (withContext context)) :=
  hp.mapError fun _ _ _ he => h.context context he

theorem PartsKeep.meets_objectDeadline (hs : K s) (sourceSize : Nat) :
    Keeping w I P K E s (c.objectDeadline sourceSize) := by
  unfold S3Client.objectDeadline
  split
  · exact h.meets_ret hs _
  · obtain ⟨hcall, hnow⟩ := h.now hs
    exact meets_perform (h.here hs) hcall fun now hallows => h.meets_ret (hnow now hallows) _

theorem PartsKeep.meets_remainingBudget (hs : K s) (objectDeadline : Option Nat) :
    Keeping w I P K E s (remainingBudget objectDeadline) := by
  cases objectDeadline with
  | none => exact h.meets_ret hs none
  | some deadline =>
    obtain ⟨hcall, hnow⟩ := h.now hs
    refine meets_perform (h.here hs) hcall fun now hallows => ?_
    split_ifs
    · exact h.meets_fail (hnow now hallows) _
    · exact h.meets_ret (hnow now hallows) _

theorem PartsKeep.meets_copyParts {fullDestKey header : Str} {sourceSize chunkSize partCount : Nat}
    {objectDeadline : Option Nat} (hs : K s) :
    Keeping w I P K E s (c.copyParts fullDestKey uploadId header sourceSize chunkSize partCount objectDeadline) := by
  refine meets_forEach (J := fun _ _ s' => K s') (h.here hs) hs fun done i rest listed s' _ _ hs' => ?_
  unfold S3Client.copyPartsRound
  split
  · exact h.meets_fail hs' _
  · refine (h.meets_context (h.meets_remainingBudget hs' objectDeadline) _).bind fun remaining s'' _ hs'' => ?_
    refine (h.send (.uploadPartCopy _ _ _ _ _ _) _ _ _ _ _ trivial hs'').bind fun eTag s3 _ hs3 => ?_
    cases eTag with
    | none => exact h.meets_fail hs3 _
    | some e => exact h.meets_ret hs3 _

theorem PartsKeep.meets_uploadPart (partNumber : Int) (body : List UInt8) (hs : K s) :
    Keeping w I P K E s (c.uploadPart destKey uploadId partNumber body) := by
  refine (h.send (.uploadPart _ _ _ _ _) _ _ _ _ _ trivial hs).bind fun eTag s' _ hs' => ?_
  cases eTag with
  | none => exact h.meets_fail hs' _
  | some e => exact h.meets_ret hs' _

theorem PartsKeep.meets_uploadFullChunks {chunkSize : Nat} (hchunk : 0 < chunkSize) (st : S3Client.StreamingCopy)
    (hs : K s) : Keeping w I P K E s (c.uploadFullChunks sourceBucket sourceKey destKey uploadId hchunk st) := by
  induction hn : st.buffer.length using Nat.strongRecOn generalizing st s with
  | _ n ih =>
    rw [S3Client.uploadFullChunks]
    split_ifs with hfull
    · refine (h.meets_context (h.meets_uploadPart _ _ hs) _).bind fun eTag s' _ hs' => ih _ ?_ _ hs' rfl
      rw [List.length_drop]
      omega
    · exact h.meets_ret hs st

theorem PartsKeep.meets_uploadBody {chunkSize : Nat} (hchunk : 0 < chunkSize) (items : List (Except Str (List UInt8)))
    {st : S3Client.StreamingCopy} (hs : K s) :
    Keeping w I P K E s (c.uploadBody sourceBucket sourceKey destKey uploadId hchunk st items) := by
  induction items generalizing st s with
  | nil => exact h.meets_ret hs st
  | cons item items ih =>
    cases item with
    | error e => exact h.meets_fail hs _
    | ok bytes => exact (h.meets_uploadFullChunks hchunk _ hs).bind fun st' s' _ hs' => ih hs'

theorem PartsKeep.meets_uploadRest (st : S3Client.StreamingCopy) (hs : K s) :
    Keeping w I P K E s (c.uploadRest sourceBucket sourceKey destKey uploadId st) := by
  unfold S3Client.uploadRest
  split_ifs
  · exact h.meets_ret hs _
  · refine (h.meets_context (h.meets_uploadPart _ _ hs) _).bind fun eTag s' _ hs' => ?_
    exact h.meets_ret hs' _

end Parts

/-! ## Uploads -/

/-- The abort of the upload was asked for, and was not answered with success. -/
def AbortRefused (h : List CopyEvent) (uploadId : Str) : Prop :=
  ∃ deadline bucket key r,
    (⟨.send deadline (.abortMultipartUpload bucket key uploadId), r⟩ : CopyEvent) ∈ h ∧ ∀ a, r.answer ≠ .ok a

/-- Every upload that is open was open before, or its abort was refused, or is excepted. -/
def SettledBut (s₀ : S3State) (except : Str → Prop) (x : S3State × List CopyEvent) : Prop :=
  ∀ uploadId, (x.1.uploads uploadId).isSome → (s₀.uploads uploadId).isSome ∨ AbortRefused x.2 uploadId ∨ except uploadId

/-- No exception. -/
abbrev AllSettled (s₀ : S3State) (x : S3State × List CopyEvent) : Prop := SettledBut s₀ (fun _ => False) x

section Uploads

variable {c : S3Client} {sourceBucket sourceKey destKey uploadId : Str} {s₀ : S3State}
  {x : S3State × List CopyEvent} {except : Str → Prop}

/-- The calls that do not open an upload. -/
def OpensNoUpload : CopyCall → Prop
  | .send _ (.createMultipartUpload _ _ _) => False
  | _ => True

theorem opensNoUpload_of_storesPart {request : S3Request} (hpart : StoresPart request) (deadline : Option Nat) :
    OpensNoUpload (.send deadline request) := by
  cases request with
  | createMultipartUpload => exact hpart.elim
  | _ => trivial

theorem isSome_setUpload_none {s : S3State} {uploadId id : Str}
    (h : ((s.setUpload uploadId none).uploads id).isSome) : id ≠ uploadId ∧ (s.uploads id).isSome := by
  have hne : id ≠ uploadId := by
    rintro rfl
    rw [S3State.setUpload_uploads] at h
    cases h
  refine ⟨hne, ?_⟩
  have hsame : (s.setUpload uploadId none).uploads id = s.uploads id := Function.update_of_ne hne _ _
  rwa [hsame] at h

theorem isSome_addPart? {s s' : S3State} {a : S3Address} {uploadId id : Str} {partNumber : Int} {eTag : Option Str}
    {bytes : List UInt8} (h : s.addPart? a uploadId partNumber eTag bytes = some s') (hid : (s'.uploads id).isSome) :
    (s.uploads id).isSome := by
  obtain ⟨u, hu, rfl⟩ := Option.map_eq_some_iff.mp h
  cases eTag with
  | none => exact hid
  | some eTag =>
    by_cases hne : id = uploadId
    · subst hne
      rw [(uploadAt?_eq_some_iff.mp hu).1]
      rfl
    · have hsame : (s.setUpload uploadId (some { u with parts := storePart ⟨partNumber, eTag, bytes⟩ u.parts })).uploads id =
          s.uploads id := Function.update_of_ne hne _ _
      rwa [← hsame]

theorem isSome_of_effect? {s s' : S3State} {deadline : Option Nat} {request : S3Request} {v : Option request.Value}
    (hopens : OpensNoUpload (.send deadline request)) (h : s.effect? request v = some s') {id : Str}
    (hid : (s'.uploads id).isSome) : (s.uploads id).isSome := by
  cases request with
  | createMultipartUpload => exact hopens.elim
  | copyObject =>
    obtain ⟨o, -, ho⟩ := Option.bind_eq_some_iff.mp h
    split_ifs at ho
    rw [← Option.some.inj ho] at hid
    exact hid
  | completeMultipartUpload =>
    obtain ⟨u, -, hu⟩ := Option.bind_eq_some_iff.mp h
    obtain ⟨bytes, -, rfl⟩ := Option.map_eq_some_iff.mp hu
    exact (isSome_setUpload_none hid).2
  | putObject =>
    rw [← Option.some.inj h] at hid
    exact hid
  | headObject =>
    rw [← Option.some.inj h] at hid
    exact hid
  | getObject =>
    rw [← Option.some.inj h] at hid
    exact hid
  | uploadPartCopy =>
    obtain ⟨o, -, ho⟩ := Option.bind_eq_some_iff.mp h
    split_ifs at ho
    exact isSome_addPart? ho hid
  | uploadPart => exact isSome_addPart? h hid
  | abortMultipartUpload =>
    obtain ⟨u, -, rfl⟩ := Option.map_eq_some_iff.mp h
    exact (isSome_setUpload_none hid).2

theorem isSome_of_next {s : S3State} {call : CopyCall} {r : call.Reply} (hopens : OpensNoUpload call) {id : Str}
    (hid : ((s3World.next s ⟨call, r⟩).uploads id).isSome) : (s.uploads id).isSome := by
  cases call with
  | now => exact hid
  | sleep ms => exact hid
  | applyJitter ms => exact hid
  | send deadline request =>
    refine S3State.served_of_effect (Q := fun s' => (s'.uploads id).isSome → (s.uploads id).isSome) (fun _ _ h => h)
      (fun h => h) (fun v s' heffect hid' => isSome_of_effect? hopens heffect hid') hid

/-- The history only grows. -/
theorem SettledBut.next (hx : SettledBut s₀ except x) {call : CopyCall} {r : call.Reply} (hopens : OpensNoUpload call) :
    SettledBut s₀ except (s3World.recording.next x ⟨call, r⟩) := by
  intro id hid
  rcases hx id (isSome_of_next hopens hid) with hold | ⟨deadline, bucket, key, r', hmem, hanswer⟩ | hexcept
  · exact .inl hold
  · exact .inr (.inl ⟨deadline, bucket, key, r', List.mem_append_left _ hmem, hanswer⟩)
  · exact .inr (.inr hexcept)

/-- A request that opens no upload leaves none. -/
theorem settled_sendOrFail {op bucket key context : Str} {deadline : Option Nat} {request : S3Request}
    (hopens : OpensNoUpload (.send deadline request)) (hx : SettledBut s₀ except x) :
    s3World.recording.Meets (fun _ => True) (fun _ _ => True) (fun _ x' => SettledBut s₀ except x')
      (fun _ x' => SettledBut s₀ except x') x (sendOrFail op bucket key context deadline request) :=
  meets_sendOrFail request trivial trivial (fun _ _ => trivial) (fun _ _ _ _ => hx.next hopens)
    (fun _ _ _ _ => hx.next hopens) fun _ _ _ _ => hx.next hopens

/-- No request for a part opens an upload. -/
theorem partsKeep_settledBut (s₀ : S3State) (except : Str → Prop) :
    PartsKeep s3World.recording (fun _ => True) (fun _ _ => True) (SettledBut s₀ except)
      (fun _ => SettledBut s₀ except) where
  here _ := trivial
  error _ hx := hx
  context _ hx := hx
  now hx := ⟨trivial, fun _ _ => hx.next trivial⟩
  send _ _ _ _ _ deadline hpart hx := settled_sendOrFail (opensNoUpload_of_storesPart hpart deadline) hx

/-- A request opens the upload that it returns. -/
theorem settled_create {op bucket key context b k : Str} {deadline : Option Nat} {options : ObjectOptions}
    (hx : AllSettled s₀ x) :
    s3World.recording.Meets (fun _ => True) (fun _ _ => True)
      (fun v x' => SettledBut s₀ (fun id => v = some id) x') (fun _ x' => AllSettled s₀ x') x
      (sendOrFail op bucket key context deadline (.createMultipartUpload b k options)) := by
  have hstep : ∀ r : Served (Option Str), ∀ id, ((x.1.served (.createMultipartUpload b k options) r).uploads id).isSome →
      (x.1.uploads id).isSome ∨ r.answer = .ok (some id) := by
    intro r id
    rw [S3State.served, S3State.elapse_uploads]
    split_ifs
    · rw [S3State.effect?]
      cases hanswer : r.answer with
      | error text => exact .inl
      | timedOut figures => exact .inl
      | ok v =>
        cases v with
        | none => exact .inl
        | some opened =>
          show ((if _ then _ else none : Option S3State).getD _ |>.uploads id).isSome → _
          split_ifs
          · intro hid
            by_cases hne : id = opened
            · exact .inr (by rw [hne])
            · have hsame : (x.1.setUpload opened (some ⟨s3Address b k, options, []⟩)).uploads id = x.1.uploads id :=
                Function.update_of_ne hne _ _
              rw [Option.getD_some, hsame] at hid
              exact .inl hid
          · exact .inl
    · exact .inl
  have hgrow : ∀ r id, AbortRefused x.2 id →
      AbortRefused (s3World.recording.next x ⟨.send deadline (.createMultipartUpload b k options), r⟩).2 id := by
    rintro r id ⟨d, b', k', r', hmem, hanswer⟩
    exact ⟨d, b', k', r', List.mem_append_left _ hmem, hanswer⟩
  have hall : ∀ r id, ((s3World.recording.next x ⟨.send deadline (.createMultipartUpload b k options), r⟩).1.uploads id).isSome →
      (s₀.uploads id).isSome ∨
        AbortRefused (s3World.recording.next x ⟨.send deadline (.createMultipartUpload b k options), r⟩).2 id ∨
          r.answer = .ok (some id) := by
    intro r id hid
    rcases hstep r id hid with hid | hid
    · rcases hx id hid with hold | hrefused | hfalse
      · exact .inl hold
      · exact .inr (.inl (hgrow r id hrefused))
      · exact hfalse.elim
    · exact .inr (.inr hid)
  have hfailed : ∀ r, (∀ v, r.answer ≠ .ok v) →
      AllSettled s₀ (s3World.recording.next x ⟨.send deadline (.createMultipartUpload b k options), r⟩) := by
    intro r hne id hid
    rcases hall r id hid with hold | hrefused | hok
    · exact .inl hold
    · exact .inr (.inl hrefused)
    · exact absurd hok (hne _)
  refine meets_sendOrFail (.createMultipartUpload b k options) trivial trivial (fun _ _ => trivial) ?_ ?_ ?_
  · intro r v _ hv id hid
    rcases hall r id hid with hold | hrefused | hok
    · exact .inl hold
    · exact .inr (.inl hrefused)
    · rw [hv] at hok
      cases hok
      exact .inr (.inr rfl)
  · intro r text _ htext
    exact hfailed r fun v hv => by
      rw [htext] at hv
      cases hv
  · intro r figures _ hfigures
    exact hfailed r fun v hv => by
      rw [hfigures] at hv
      cases hv

/-- A completed upload is not open any more. -/
theorem settled_complete {op bucket key context b k : Str} {deadline : Option Nat} {listed : List (Int × Str)}
    (hx : SettledBut s₀ (fun id => uploadId = id) x) :
    s3World.recording.Meets (fun _ => True) (fun _ _ => True) (fun _ x' => AllSettled s₀ x')
      (fun _ x' => SettledBut s₀ (fun id => uploadId = id) x') x
      (sendOrFail op bucket key context deadline (.completeMultipartUpload b k uploadId listed)) := by
  refine meets_sendOrFail (.completeMultipartUpload b k uploadId listed) trivial trivial (fun _ _ => trivial) ?_
    (fun _ _ _ _ => hx.next trivial) fun _ _ _ _ => hx.next trivial
  intro r a hr ha id hid
  rcases hx.next (r := r) (by exact trivial) id hid with hold | hrefused | rfl
  · exact .inl hold
  · exact .inr (.inl hrefused)
  · obtain ⟨s', hs', heq, -⟩ := S3State.served_of_ok hr.2 ha
    obtain ⟨u, -, hu⟩ := Option.bind_eq_some_iff.mp hs'
    obtain ⟨bytes, -, rfl⟩ := Option.map_eq_some_iff.mp hu
    have hserved : ((x.1.served (.completeMultipartUpload b k uploadId listed) r).uploads uploadId).isSome := hid
    rw [heq] at hserved
    exact absurd rfl (isSome_setUpload_none hserved).1

/-- An abort closes the upload, or is refused. -/
theorem settled_abort {b k : Str} {deadline : Option Nat} (hx : SettledBut s₀ (fun id => uploadId = id) x)
    (r : Served Unit) (hr : s3World.allows x.1 ⟨.send deadline (.abortMultipartUpload b k uploadId), r⟩) :
    AllSettled s₀ (s3World.recording.next x ⟨.send deadline (.abortMultipartUpload b k uploadId), r⟩) := by
  have hnext : SettledBut s₀ (fun id => uploadId = id)
      (s3World.recording.next x ⟨.send deadline (.abortMultipartUpload b k uploadId), r⟩) := hx.next trivial
  intro id hid
  rcases hnext id hid with hold | hrefused | rfl
  · exact .inl hold
  · exact .inr (.inl hrefused)
  · by_cases hok : ∃ a, r.answer = .ok a
    · obtain ⟨a, ha⟩ := hok
      obtain ⟨s', hs', heq, -⟩ := S3State.served_of_ok hr.2 ha
      obtain ⟨u, -, rfl⟩ := Option.map_eq_some_iff.mp hs'
      have hserved : ((x.1.served (.abortMultipartUpload b k uploadId) r).uploads uploadId).isSome := hid
      rw [heq] at hserved
      exact absurd rfl (isSome_setUpload_none hserved).1
    · refine .inr (.inl ⟨deadline, b, k, r, List.mem_append_right _ List.mem_cons_self, fun a ha => hok ⟨a, ha⟩⟩)

/-- A program leaves no upload behind. -/
abbrev Tidy (s₀ : S3State) (x : S3State × List CopyEvent) (p : CopyProg Unit) : Prop :=
  s3World.recording.Meets (fun _ => True) (fun _ _ => True) (fun _ x' => AllSettled s₀ x') (fun _ x' => AllSettled s₀ x') x p

theorem tidy_copyObjectMultipart {sourceSize : Nat} (hsize : sourceSize < 2 ^ 64) (hx : AllSettled s₀ x) :
    Tidy s₀ x (c.copyObjectMultipart sourceBucket sourceKey destKey sourceSize) := by
  have hpos : 0 < chunkSizeOf sourceSize c.chunkSize c.maxPartsCount :=
    Nat.lt_of_lt_of_le (by decide) (chunkSizeOf_bounds _ _ _).1
  refine ((partsKeep_settledBut s₀ _).meets_objectDeadline hx sourceSize).bind fun deadline x' _ hx' => ?_
  refine (settled_create hx').bind fun v x'' _ hx'' => ?_
  cases v with
  | none => exact meets_fail trivial fun id hid => (hx'' id hid).imp_right (Or.imp_right fun h => by cases h)
  | some id =>
    dsimp only
    rw [calculateChunkSize_eq hsize]
    dsimp only
    rw [divCeilU64_eq hsize hpos]
    have hopen : SettledBut s₀ (fun id' => id = id') x'' :=
      fun id' hid => (hx'' id' hid).imp_right (Or.imp_right Option.some.inj)
    refine meets_abortOnError (E := fun _ x3 => SettledBut s₀ (fun id' => id = id') x3) ?_ fun e x3 _ hx3 => ?_
    · have hkeep := partsKeep_settledBut s₀ fun id' => id = id'
      refine (hkeep.meets_copyParts hopen).bind fun listed x3 _ hx3 => ?_
      exact (hkeep.meets_remainingBudget hx3 deadline).bind fun d x4 _ hx4 => settled_complete hx4
    · exact meets_perform trivial trivial fun r hr => meets_ret trivial (settled_abort hx3 r hr)

theorem tidy_copyObject (hx : AllSettled s₀ x) : Tidy s₀ x (c.copyObject sourceBucket sourceKey destKey) := by
  have hsingle : ∀ size x', AllSettled s₀ x' → Tidy s₀ x' (c.copyObjectSingle sourceBucket sourceKey destKey size) :=
    fun size x' hx' => settled_sendOrFail (by exact trivial) hx'
  refine meets_perform trivial trivial fun r hr => ?_
  have hx' : AllSettled s₀ (s3World.recording.next x _) := hx.next (r := r) (by exact trivial)
  cases hanswer : r.answer with
  | timedOut figures => exact meets_fail trivial hx'
  | error text => exact hsingle none _ hx'
  | ok contentLength =>
    dsimp only
    split_ifs
    · refine tidy_copyObjectMultipart ?_ hx'
      obtain ⟨-, -, o, -, hlength⟩ := hr.2 contentLength hanswer
      cases contentLength with
      | none => exact Nat.two_pow_pos 64
      | some n =>
        obtain ⟨-, hn⟩ := hlength n rfl
        show n.toNat < 2 ^ 64
        omega
    · exact hsingle _ _ hx'

theorem tidy_copyObjectStreaming (hx : AllSettled s₀ x) :
    Tidy s₀ x (c.copyObjectStreaming sourceBucket sourceKey destKey) := by
  refine (settled_sendOrFail (by exact trivial) hx).bind fun getResp x' _ hx' => ?_
  dsimp only
  split_ifs
  · split
    · exact meets_fail trivial hx'
    · exact (settled_sendOrFail (by exact trivial) hx').mapError fun _ _ _ h => h
  · split
    · exact meets_fail trivial hx'
    · refine Meets.bind (A := fun id x'' => SettledBut s₀ (fun id' => id = id') x'') ?_ fun id x'' _ hx'' => ?_
      · refine (settled_create hx').bind fun v x'' _ hx'' => ?_
        cases v with
        | none => exact meets_fail trivial fun id hid => (hx'' id hid).imp_right (Or.imp_right fun h => by cases h)
        | some id => exact meets_ret trivial fun id' hid => (hx'' id' hid).imp_right (Or.imp_right Option.some.inj)
      · refine meets_abortOnError (E := fun _ x3 => SettledBut s₀ (fun id' => id = id') x3) ?_ fun e x3 _ hx3 => ?_
        · have hkeep := partsKeep_settledBut s₀ fun id' => id = id'
          refine (hkeep.meets_uploadBody _ _ hx'').bind fun st x3 _ hx3 => ?_
          refine (hkeep.meets_uploadRest st hx3).bind fun parts x4 _ hx4 => ?_
          exact (settled_complete hx4).mapError fun _ _ _ h => h
        · refine meets_sendOrFail (.abortMultipartUpload c.bucket (fullKey c.keyPrefix destKey) id) trivial trivial
            (fun _ _ => trivial) ?_ ?_ ?_
          · exact fun r _ hr _ => settled_abort hx3 r hr
          · exact fun r _ hr _ => settled_abort hx3 r hr
          · exact fun r _ hr _ => settled_abort hx3 r hr

theorem tidy_copyAttempts (allowStreaming : Bool) (attempts : Nat) (delays : List Nat) (hx : AllSettled s₀ x) :
    Tidy s₀ x (c.copyAttempts sourceBucket sourceKey destKey allowStreaming attempts delays) := by
  induction delays generalizing x with
  | nil => exact meets_fail trivial hx
  | cons delayMs rest ih =>
    refine (tidy_copyObject hx).attempt.bind fun outcome x' _ houtcome => ?_
    cases outcome with
    | ok a => exact meets_ret trivial (houtcome.1 a rfl)
    | error e =>
      have hx' := houtcome.2 e rfl
      dsimp only
      split_ifs
      · exact meets_fail trivial hx'
      · refine meets_perform trivial trivial fun d _ => meets_perform trivial trivial fun time _ => ih ?_
        exact (hx'.next (by exact trivial)).next (by exact trivial)
      · exact tidy_copyObjectStreaming hx'
      · exact meets_fail trivial hx'

/-- **A copy leaves no upload open unless its abort was refused.**  Whatever fails, every upload that the
service has reported to the copy is completed, or an abort is asked for. -/
theorem uploads_settled (c : S3Client) (sourceBucket sourceKey destKey : Str) (allowStreaming : Bool) {s : S3State}
    {t : List CopyEvent} {e : End Str Unit}
    (hrun : Runs (c.copyObjectWithRetryJitter sourceBucket sourceKey destKey allowStreaming) t e)
    (hlegal : s3World.Legal s t) (hend : e ≠ .cut) :
    ∀ uploadId, ((s3World.after s t).uploads uploadId).isSome →
      (s.uploads uploadId).isSome ∨ AbortRefused t uploadId := by
  have hstart : AllSettled s (s, []) := fun _ h => .inl h
  have htidy : Tidy s (s, []) (c.copyObjectWithRetryJitter sourceBucket sourceKey destKey allowStreaming) :=
    tidy_copyAttempts allowStreaming _ S3Client.backoffMs hstart
  obtain ⟨-, hends, -⟩ := htidy.runs hrun (recording_legal s3World [] hlegal)
  rw [recording_after, List.nil_append] at hends
  intro uploadId hid
  have hsettled : AllSettled s (s3World.after s t, t) := by
    cases e with
    | cut => exact absurd rfl hend
    | returned a => exact hends
    | failed e => exact hends
  rcases hsettled uploadId hid with hold | hrefused | hfalse
  · exact .inl hold
  · exact .inr hrefused
  · exact hfalse.elim

/-! ## A copy that is abandoned -/

/-- A client that copies in parts of five gibibytes. -/
def wholeClient : S3Client := ⟨"b", [], [], [], [], [], ⟨0, 0⟩, 5368709120, 10000⟩

/-- One object that is too large for a single request. -/
def bucketOfMany : S3State where
  clock := 0
  objects a := if a = s3Address "a" "k" then some ⟨List.replicate 5368709121 0, wholeClient.objectOptions⟩ else none
  uploads _ := none

/-- The object disappears while it is copied, and the abort is refused. -/
def abandonedCopy : List CopyEvent :=
  [⟨.send none (.headObject "a" "k"), ⟨.ok (some 5368709121), 1, true⟩⟩,
    ⟨.send none (.createMultipartUpload "b" "k" wholeClient.objectOptions), ⟨.ok (some "u"), 1, true⟩⟩,
    ⟨.send none (.uploadPartCopy "b" "k" "u" 1 (copySourceHeader "a" "k") (0, 5368709120)),
      ⟨.error "NoSuchKey", 1, false⟩⟩,
    ⟨.send (some cleanupTimeout) (.abortMultipartUpload "b" "k" "u"), ⟨.error "AccessDenied", 1, false⟩⟩]

theorem abandonedCopy_runs :
    ∃ e, Runs (wholeClient.copyObjectWithRetryJitter "a" "k" "k" false) abandonedCopy (.failed e) := by
  apply Exists.intro
  exact .call _ (.call _ (.call _ (.call _ (.fail _))))

theorem abandonedCopy_legal : s3World.Legal bucketOfMany abandonedCopy := by
  refine ⟨⟨⟨fun d hd => ?_, fun figures h => ?_⟩, fun a ha => ?_⟩, ⟨⟨fun d hd => ?_, fun figures h => ?_⟩, fun a ha => ?_⟩,
    ⟨⟨fun d hd => ?_, fun figures h => ?_⟩, fun a ha => ?_⟩, ⟨⟨fun d hd => ?_, fun figures h => ?_⟩, fun a ha => ?_⟩,
    trivial⟩
  · cases hd
  · cases h
  · cases ha
    refine ⟨rfl, rfl, _, rfl, fun n hn => ?_⟩
    cases hn
    refine ⟨?_, by decide⟩
    rw [List.length_replicate]
    rfl
  · cases hd
  · cases h
  · cases ha
    exact ⟨rfl, rfl, trivial⟩
  · cases hd
  · cases h
  · cases ha
  · rw [← Option.some.inj hd]
    show 1 ≤ cleanupTimeout
    decide
  · cases h
  · cases ha

/-- The upload stays open, because its abort was refused. -/
theorem abandonedCopy_refused : AbortRefused abandonedCopy "u" := by
  obtain ⟨e, hrun⟩ := abandonedCopy_runs
  rcases uploads_settled wholeClient "a" "k" "k" false hrun abandonedCopy_legal (fun h => by cases h) "u" rfl with h | h
  · cases h
  · exact h

end Uploads

end Chbackup
