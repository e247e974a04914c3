import Chbackup.Storage.CopyLimits

/-!
# What a copy asks for

A copy is attempted at most three times, and downloads the object only after that.  The service may say that
a key or a bucket does not exist; then nothing but the abort of an upload is asked for
(`copy_attempts_limited`).  This needs the texts of the errors, which keep what the service says through
every context that is added.
-/

namespace Chbackup

open CallTree Prog World

/-! ## What is asked for -/

/-- An attempt begins. -/
def isHead : CopyEvent → Bool
  | ⟨.send _ (.headObject _ _), _⟩ => true
  | _ => false

/-- The object is downloaded. -/
def isGet : CopyEvent → Bool
  | ⟨.send _ (.getObject _ _), _⟩ => true
  | _ => false

/-- The service says that a key or a bucket does not exist.  What it says when the source is looked at does
not count, nor what it says to an abort. -/
def SaysMissing : CopyEvent → Prop
  | ⟨.send _ (.headObject _ _), _⟩ => False
  | ⟨.send _ (.abortMultipartUpload _ _ _), _⟩ => False
  | ⟨.send _ _, r⟩ => ∃ text, r.answer = .error text ∧ isMissingSourceError text = true
  | _ => False

/-- The abort of an upload. -/
def IsAbort : CopyCall → Prop
  | .send _ (.abortMultipartUpload _ _ _) => True
  | _ => False

/-- The requests of a copy between its beginning and its end. -/
def IsInner : S3Request → Prop
  | .headObject _ _ => False
  | .getObject _ _ => False
  | .abortMultipartUpload _ _ _ => False
  | _ => True

section Attempts

/-- A history: nothing was said to be missing, and so many attempts and downloads were made. -/
structure Steady (attempts downloads : Nat) (x : Unit × List CopyEvent) : Prop where
  found : ∀ ev ∈ x.2, ¬SaysMissing ev
  heads : x.2.countP isHead = attempts
  gets : x.2.countP isGet = downloads

/-- A history that has ended in an error, which tells if something was missing. -/
structure Stopped (attempts downloads : Nat) (e : Str) (x : Unit × List CopyEvent) : Prop where
  tells : (∃ ev ∈ x.2, SaysMissing ev) → isMissingSourceError e = true
  heads : x.2.countP isHead = attempts
  gets : x.2.countP isGet = downloads

/-- How many attempts and downloads there may be. -/
structure Fits (limit : Nat) (allowStreaming : Bool) (attempts downloads : Nat) : Prop where
  attempts_le : attempts ≤ limit
  downloads_le : downloads ≤ 1
  last : 0 < downloads → allowStreaming = true ∧ attempts = limit

/-- After something is missing there are only aborts. -/
def MayCall (x : Unit × List CopyEvent) (call : CopyCall) : Prop := (∃ ev ∈ x.2, SaysMissing ev) → IsAbort call

variable {c : S3Client} {sourceBucket sourceKey destKey uploadId : Str} {limit attempts downloads : Nat}
  {allowStreaming : Bool} {x : Unit × List CopyEvent}

theorem Steady.stopped (h : Steady attempts downloads x) (e : Str) : Stopped attempts downloads e x :=
  ⟨fun ⟨ev, hev, hmissing⟩ => absurd hmissing (h.found ev hev), h.heads, h.gets⟩

theorem Stopped.steady {e : Str} (h : Stopped attempts downloads e x) (he : ¬isMissingSourceError e = true) :
    Steady attempts downloads x :=
  ⟨fun ev hev hmissing => he (h.tells ⟨ev, hev, hmissing⟩), h.heads, h.gets⟩

theorem Steady.mayCall (h : Steady attempts downloads x) (call : CopyCall) : MayCall x call :=
  fun ⟨ev, hev, hmissing⟩ => absurd hmissing (h.found ev hev)

theorem contains_withContext {needle e : Str} (context : Str) (h : Str.contains needle e = true) :
    Str.contains needle (withContext context e) = true := by
  rw [Str.contains_iff] at h ⊢
  exact h.trans ⟨context ++ (": " : Str), [], List.append_nil _⟩

/-- A context does not hide that something is missing. -/
theorem isMissingSourceError_withContext {e : Str} (context : Str) (h : isMissingSourceError e = true) :
    isMissingSourceError (withContext context e) = true := by
  rw [isMissingSourceError, Bool.or_eq_true] at h ⊢
  exact h.imp (contains_withContext context) (contains_withContext context)

theorem Stopped.withContext {e : Str} (h : Stopped attempts downloads e x) (context : Str) :
    Stopped attempts downloads (withContext context e) x :=
  ⟨fun hmissing => isMissingSourceError_withContext context (h.tells hmissing), h.heads, h.gets⟩

/-- An event is counted, and says of nothing that it is missing. -/
theorem Steady.next (h : Steady attempts downloads x) (ev : CopyEvent) (hev : ¬SaysMissing ev) :
    Steady (attempts + (isHead ev).toNat) (downloads + (isGet ev).toNat) (anyWorld.recording.next x ev) := by
  refine ⟨fun ev' hev' => ?_, ?_, ?_⟩
  · rcases (mem_recording_next anyWorld).mp hev' with hev' | rfl
    · exact h.found ev' hev'
    · exact hev
  · rw [countP_recording_next, h.heads]
  · rw [countP_recording_next, h.gets]

/-- An event is counted, and the error tells of what it says. -/
theorem Stopped.next {e : Str} (h : Stopped attempts downloads e x) (ev : CopyEvent)
    (hev : SaysMissing ev → isMissingSourceError e = true) :
    Stopped (attempts + (isHead ev).toNat) (downloads + (isGet ev).toNat) e (anyWorld.recording.next x ev) := by
  refine ⟨?_, ?_, ?_⟩
  · rintro ⟨ev', hev', hmissing⟩
    rcases (mem_recording_next anyWorld).mp hev' with hev' | rfl
    · exact h.tells ⟨ev', hev', hmissing⟩
    · exact hev hmissing
  · rw [countP_recording_next, h.heads]
  · rw [countP_recording_next, h.gets]

/-- A program makes no attempt and no download, and its error tells if something was missing. -/
abbrev Polite {α : Type} (limit : Nat) (allowStreaming : Bool) (attempts downloads : Nat) (x : Unit × List CopyEvent)
    (p : CopyProg α) : Prop :=
  anyWorld.recording.Meets (fun x' => Fits limit allowStreaming (x'.2.countP isHead) (x'.2.countP isGet)) MayCall
    (fun _ x' => Steady attempts downloads x') (fun e x' => Stopped attempts downloads e x') x p

theorem Fits.here (hfits : Fits limit allowStreaming attempts downloads) (h : Steady attempts downloads x) :
    Fits limit allowStreaming (x.2.countP isHead) (x.2.countP isGet) := by
  rw [h.heads, h.gets]
  exact hfits

theorem Stopped.fits {e : Str} (h : Stopped attempts downloads e x)
    (hfits : Fits limit allowStreaming attempts downloads) :
    Fits limit allowStreaming (x.2.countP isHead) (x.2.countP isGet) := by
  rw [h.heads, h.gets]
  exact hfits

theorem isHead_inner {request : S3Request} (hinner : IsInner request) (deadline : Option Nat) (r : Served request.Value) :
    isHead ⟨.send deadline request, r⟩ = false ∧ isGet ⟨.send deadline request, r⟩ = false := by
  cases request with
  | headObject => exact hinner.elim
  | getObject => exact hinner.elim
  | _ => exact ⟨rfl, rfl⟩

theorem saysMissing_inner {request : S3Request} {deadline : Option Nat} {r : Served request.Value}
    (h : SaysMissing ⟨.send deadline request, r⟩) : ∃ text, r.answer = .error text ∧ isMissingSourceError text = true := by
  cases request with
  | headObject => exact h.elim
  | abortMultipartUpload => exact h.elim
  | _ => exact h

/-- A request is polite: its error has the text of the service. -/
theorem polite_sendOrFail {op bucket key context : Str} {deadline : Option Nat} {request : S3Request}
    (hinner : IsInner request) (hfits : Fits limit allowStreaming attempts downloads)
    (h : Steady attempts downloads x) :
    Polite limit allowStreaming attempts downloads x (sendOrFail op bucket key context deadline request) := by
  have hcounts := isHead_inner hinner deadline
  have hsteady : ∀ r, (∀ text, r.answer ≠ .error text) →
      Steady attempts downloads (anyWorld.recording.next x ⟨.send deadline request, r⟩) := by
    intro r hr
    have hnext := h.next ⟨.send deadline request, r⟩ fun hmissing => by
      obtain ⟨text, htext, -⟩ := saysMissing_inner hmissing
      exact hr text htext
    rwa [(hcounts r).1, (hcounts r).2] at hnext
  have hstopped : ∀ r e, (∀ text, r.answer = .error text → isMissingSourceError text = true →
      isMissingSourceError e = true) →
        Stopped attempts downloads e (anyWorld.recording.next x ⟨.send deadline request, r⟩) := by
    intro r e he
    have hnext := (h.stopped e).next ⟨.send deadline request, r⟩ fun hmissing => by
      obtain ⟨text, htext, hcontains⟩ := saysMissing_inner hmissing
      exact he text htext hcontains
    rwa [(hcounts r).1, (hcounts r).2] at hnext
  refine meets_sendOrFail request (hfits.here h) (h.mayCall _) ?_ ?_ ?_ ?_
  · intro r _
    rw [countP_recording_next, countP_recording_next, h.heads, h.gets, (hcounts r).1, (hcounts r).2]
    exact hfits
  · intro r a _ ha
    refine hsteady r fun text htext => ?_
    rw [ha] at htext
    cases htext
  · intro r text _ htext
    refine hstopped r _ fun text' htext' hcontains => ?_
    rw [htext] at htext'
    cases htext'
    exact isMissingSourceError_withContext context hcontains
  · intro r figures _ hfigures
    refine (hsteady r fun text htext => ?_).stopped _
    rw [hfigures] at htext
    cases htext

theorem isInner_of_storesPart {request : S3Request} (hpart : StoresPart request) : IsInner request := by
  cases request with
  | uploadPartCopy => trivial
  | uploadPart => trivial
  | _ => exact hpart.elim

/-- The requests for parts are polite. -/
theorem partsKeep_steady (hfits : Fits limit allowStreaming attempts downloads) :
    PartsKeep anyWorld.recording (fun x' => Fits limit allowStreaming (x'.2.countP isHead) (x'.2.countP isGet)) MayCall
      (Steady attempts downloads) (Stopped attempts downloads) where
  here h := hfits.here h
  error e h := h.stopped e
  context context h := h.withContext context
  now h := ⟨h.mayCall _, fun time _ => h.next ⟨.now, time⟩ fun hmissing => hmissing⟩
  send _ _ _ _ _ _ hpart h := polite_sendOrFail (isInner_of_storesPart hpart) hfits h

theorem stopped_abort {e : Str} {deadline : Option Nat} {b k : Str} (h : Stopped attempts downloads e x) (r : Served Unit) :
    Stopped attempts downloads e (anyWorld.recording.next x ⟨.send deadline (.abortMultipartUpload b k uploadId), r⟩) :=
  h.next ⟨.send deadline (.abortMultipartUpload b k uploadId), r⟩ fun hmissing => False.elim hmissing

theorem polite_copyAndComplete {fullDestKey header : Str} {sourceSize chunkSize partCount : Nat}
    {objectDeadline : Option Nat} (hfits : Fits limit allowStreaming attempts downloads) (h : Steady attempts downloads x) :
    Polite limit allowStreaming attempts downloads x
      (c.copyAndComplete fullDestKey uploadId header sourceSize chunkSize partCount objectDeadline) := by
  refine ((partsKeep_steady hfits).meets_copyParts h).bind fun listed x' _ h' => ?_
  refine ((partsKeep_steady hfits).meets_remainingBudget h' objectDeadline).bind fun d x'' _ h'' => ?_
  exact polite_sendOrFail (by exact trivial) hfits h''

theorem polite_copyObjectMultipart {sourceSize : Nat} (hfits : Fits limit allowStreaming attempts downloads)
    (h : Steady attempts downloads x) :
    Polite limit allowStreaming attempts downloads x
      (c.copyObjectMultipart sourceBucket sourceKey destKey sourceSize) := by
  have hkeep := partsKeep_steady hfits
  refine (hkeep.meets_objectDeadline h sourceSize).bind fun deadline x' _ h' => ?_
  refine (polite_sendOrFail (by exact trivial) hfits h').bind fun v x'' _ h'' => ?_
  cases v with
  | none => exact hkeep.meets_fail h'' _
  | some id =>
    dsimp only
    split
    · exact hkeep.meets_fail h'' _
    · split
      · exact hkeep.meets_fail h'' _
      · refine meets_abortOnError (polite_copyAndComplete hfits h'') fun e x3 hx3 h3 => ?_
        refine meets_perform hx3 (fun _ => trivial) fun r _ => ?_
        exact meets_ret ((stopped_abort h3 r).fits hfits) (stopped_abort h3 r)

theorem polite_uploadAndComplete {chunkSize : Nat} (hchunk : 0 < chunkSize) (body : List (Except Str (List UInt8)))
    (hfits : Fits limit allowStreaming attempts downloads) (h : Steady attempts downloads x) :
    Polite limit allowStreaming attempts downloads x
      (c.uploadAndComplete sourceBucket sourceKey destKey uploadId hchunk body) := by
  have hkeep := partsKeep_steady hfits
  refine (hkeep.meets_uploadBody hchunk body h).bind fun st x' _ h' => ?_
  refine (hkeep.meets_uploadRest st h').bind fun parts x'' _ h'' => ?_
  exact hkeep.meets_context (polite_sendOrFail (by exact trivial) hfits h'') _

/-- After the download. -/
theorem polite_copyObjectStreaming (h : Steady limit 0 x) (hallow : allowStreaming = true) :
    anyWorld.recording.Meets (fun x' => Fits limit allowStreaming (x'.2.countP isHead) (x'.2.countP isGet)) MayCall
      (fun _ _ => True) (fun _ _ => True) x (c.copyObjectStreaming sourceBucket sourceKey destKey) := by
  have hbefore : Fits limit allowStreaming limit 0 := ⟨Nat.le_refl _, Nat.zero_le _, fun h => absurd h (Nat.lt_irrefl 0)⟩
  have hfits : Fits limit allowStreaming limit 1 := ⟨Nat.le_refl _, Nat.le_refl _, fun _ => ⟨hallow, rfl⟩⟩
  have hkeep := partsKeep_steady hfits
  have hmoment : ∀ r, Fits limit allowStreaming
      ((anyWorld.recording.next x ⟨.send none (.getObject sourceBucket sourceKey), r⟩).2.countP isHead)
      ((anyWorld.recording.next x ⟨.send none (.getObject sourceBucket sourceKey), r⟩).2.countP isGet) := by
    intro r
    rw [countP_recording_next, countP_recording_next, h.heads, h.gets]
    exact hfits
  refine Meets.bind (meets_sendOrFail (.getObject sourceBucket sourceKey) (A := fun _ x' => Steady limit 1 x')
    (hbefore.here h) (h.mayCall _) (fun r _ => hmoment r) ?_ (fun _ _ _ _ => trivial) fun _ _ _ _ => trivial)
      fun getResp x' hx' h' => ?_
  · intro r a _ ha
    refine h.next ⟨.send none (.getObject sourceBucket sourceKey), r⟩ ?_
    rintro ⟨text, htext, -⟩
    rw [ha] at htext
    cases htext
  · have hend : ∀ {p : CopyProg Unit}, Polite limit allowStreaming limit 1 x' p →
        anyWorld.recording.Meets (fun x' => Fits limit allowStreaming (x'.2.countP isHead) (x'.2.countP isGet)) MayCall
          (fun _ _ => True) (fun _ _ => True) x' p :=
      fun hp => hp.imp (fun _ _ _ _ => trivial) fun _ _ _ _ => trivial
    dsimp only
    split_ifs
    · split
      · exact hend (hkeep.meets_fail h' _)
      · exact hend (hkeep.meets_context (polite_sendOrFail (by exact trivial) hfits h') _)
    · split
      · exact hend (hkeep.meets_fail h' _)
      · refine hend (Meets.bind (A := fun _ x'' => Steady limit 1 x'') ?_ fun id x'' _ h'' => ?_)
        · refine (polite_sendOrFail (by exact trivial) hfits h').bind fun v x'' _ h'' => ?_
          cases v with
          | none => exact hkeep.meets_fail h'' _
          | some id => exact hkeep.meets_ret h'' _
        · refine meets_abortOnError (polite_uploadAndComplete _ _ hfits h'') fun e x3 hx3 h3 => ?_
          exact meets_sendOrFail (.abortMultipartUpload c.bucket (fullKey c.keyPrefix destKey) id) hx3 (fun _ => trivial)
            (fun r _ => (stopped_abort h3 r).fits hfits) (fun r _ _ _ => stopped_abort h3 r)
            (fun r _ _ _ => stopped_abort h3 r) fun r _ _ _ => stopped_abort h3 r

/-- An attempt looks at the source once. -/
theorem polite_copyObject (hfits : Fits limit allowStreaming (attempts + 1) 0) (h : Steady attempts 0 x) :
    anyWorld.recording.Meets (fun x' => Fits limit allowStreaming (x'.2.countP isHead) (x'.2.countP isGet)) MayCall
      (fun _ x' => Steady (attempts + 1) 0 x') (fun e x' => Stopped (attempts + 1) 0 e x') x
      (c.copyObject sourceBucket sourceKey destKey) := by
  have hbefore : Fits limit allowStreaming attempts 0 :=
    ⟨Nat.le_of_succ_le hfits.attempts_le, hfits.downloads_le, fun h => absurd h (Nat.lt_irrefl 0)⟩
  refine meets_perform (hbefore.here h) (h.mayCall _) fun r _ => ?_
  have h' : Steady (attempts + 1) 0 (anyWorld.recording.next x
      ⟨.send (s3Deadline .metadata none c.timeouts) (.headObject sourceBucket sourceKey), r⟩) :=
    h.next ⟨.send _ (.headObject _ _), r⟩ fun hmissing => hmissing
  cases hanswer : r.answer with
  | timedOut figures => exact (partsKeep_steady hfits).meets_fail h' _
  | error text => exact polite_sendOrFail (by exact trivial) hfits h'
  | ok contentLength =>
    dsimp only
    split_ifs
    · exact polite_copyObjectMultipart hfits h'
    · exact polite_sendOrFail (by exact trivial) hfits h'

theorem polite_copyAttempts {n : Nat} (delays : List Nat) (hlimit : attempts + delays.length = limit)
    (h : Steady attempts 0 x) :
    anyWorld.recording.Meets (fun x' => Fits limit allowStreaming (x'.2.countP isHead) (x'.2.countP isGet)) MayCall
      (fun _ _ => True) (fun _ _ => True) x
      (c.copyAttempts sourceBucket sourceKey destKey allowStreaming n delays) := by
  have hzero : ∀ {k}, k ≤ limit → Fits limit allowStreaming k 0 :=
    fun hk => ⟨hk, Nat.zero_le _, fun h => absurd h (Nat.lt_irrefl 0)⟩
  induction delays generalizing attempts x with
  | nil => exact meets_fail ((hzero (by rw [← hlimit]; exact Nat.le_add_right _ _)).here h) trivial
  | cons delayMs rest ih =>
    rw [List.length_cons] at hlimit
    have hfits := hzero (k := attempts + 1) (by omega)
    refine (polite_copyObject hfits h).attempt.bind fun outcome x' hx' houtcome => ?_
    cases outcome with
    | ok a => exact meets_ret hx' trivial
    | error e =>
      have hstopped := houtcome.2 e rfl
      dsimp only
      split_ifs with hmissing hrest
      · exact meets_fail hx' trivial
      · have h' := hstopped.steady hmissing
        refine meets_perform hx' (h'.mayCall _) fun d _ => ?_
        have h'' : Steady (attempts + 1) 0 (anyWorld.recording.next x' ⟨.applyJitter delayMs, d⟩) :=
          h'.next ⟨.applyJitter delayMs, d⟩ fun hmissing => hmissing
        refine meets_perform (hfits.here h'') (h''.mayCall _) fun time _ => ?_
        have h3 : Steady (attempts + 1) 0 (anyWorld.recording.next _ ⟨.sleep d, time⟩) :=
          h''.next ⟨.sleep d, time⟩ fun hmissing => hmissing
        exact ih (by omega) h3
      · rename_i hallow
        have hnil : rest = [] := Decidable.not_not.mp hrest
        subst hnil
        have hlast : attempts + 1 = limit := hlimit
        subst hlast
        exact polite_copyObjectStreaming (hstopped.steady hmissing) hallow
      · exact meets_fail hx' trivial

/-- **A copy makes at most three attempts, and gives up on what is missing.**  It downloads the object at most
once, after the third attempt and only if that is allowed.  Once the service has said that a key or a bucket
does not exist, nothing but the abort of an upload is asked for. -/
theorem copy_attempts_limited (c : S3Client) (sourceBucket sourceKey destKey : Str) (allowStreaming : Bool)
    {t : List CopyEvent} {e : End Str Unit}
    (hrun : Runs (c.copyObjectWithRetryJitter sourceBucket sourceKey destKey allowStreaming) t e) :
    Fits 3 allowStreaming (t.countP isHead) (t.countP isGet) ∧
      ∀ t₁ ev t₂, t = t₁ ++ ev :: t₂ → SaysMissing ev → ∀ ev' ∈ t₂, IsAbort ev'.1 := by
  have hstart : Steady 0 0 ((), ([] : List CopyEvent)) := ⟨fun ev hev => absurd hev List.not_mem_nil, rfl, rfl⟩
  have hmeets : anyWorld.recording.Meets
      (fun x' => Fits 3 allowStreaming (x'.2.countP isHead) (x'.2.countP isGet)) MayCall (fun _ _ => True)
      (fun _ _ => True) ((), []) (c.copyObjectWithRetryJitter sourceBucket sourceKey destKey allowStreaming) :=
    polite_copyAttempts S3Client.backoffMs rfl hstart
  obtain ⟨hfits, -, hcalls⟩ := hmeets.runs hrun (recording_legal anyWorld [] (legal_anyWorld t))
  rw [recording_after, List.nil_append] at hfits
  refine ⟨hfits, fun t₁ ev t₂ ht hmissing ev' hev' => ?_⟩
  obtain ⟨u, v, rfl⟩ := List.append_of_mem hev'
  have hcall := hcalls (t₁ ++ ev :: u) ev'.1 ev'.2 v (by rw [ht, List.append_assoc]; rfl)
  rw [recording_after, List.nil_append] at hcall
  exact hcall ⟨ev, List.mem_append_right _ List.mem_cons_self, hmissing⟩

/-- After the service has said that the object is missing there is only the abort. -/
theorem abandonedCopy_limited : Fits 3 false 1 0 ∧ ∀ ev ∈ abandonedCopy.drop 3, IsAbort ev.1 := by
  obtain ⟨e, hrun⟩ := abandonedCopy_runs
  obtain ⟨hfits, habort⟩ := copy_attempts_limited wholeClient "a" "k" "k" false hrun
  exact ⟨hfits, habort (abandonedCopy.take 2) _ _ rfl ⟨"NoSuchKey", rfl, by decide⟩⟩

end Attempts

end Chbackup
