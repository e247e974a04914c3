import Chbackup.Keys.Encoding
import Chbackup.Keys.Objects
import Chbackup.Lib.Contracts
import Chbackup.Upload.Stream

/-!
# Requests to S3

The requests that a copy of an object makes, their deadlines, and the service that answers them
(`src/storage/s3.rs`).

The service keeps objects and open multipart uploads.  A request may fail, or run into its deadline, and
may have taken effect all the same; a request that succeeds has taken effect.  Time passes in the requests
and while the client sleeps, and a request with a deadline ends by then.  Times are in nanoseconds.

A request names an object that it copies in the header of its source, with the key percent-encoded.  The
service decodes it, and finds the object (`copySourceAddress_copySourceHeader`).
-/

namespace Chbackup

open CallTree Prog

/-! ## Deadlines -/

/-- `S3OpClass`. -/
inductive S3OpClass where
  | metadata
  | copy

/-- `S3Timeouts`. -/
structure S3Timeouts where
  requestTimeoutSecs : Nat
  copyMinBytesPerSecond : Nat

/-- `Duration::from_secs`. -/
def durationFromSecs (secs : Nat) : Nat := secs * 1000000000

/-- `Duration::MAX`. -/
def durationMax : Nat := durationFromSecs (2 ^ 64 - 1) + 999999999

/-- `CLEANUP_TIMEOUT`. -/
def cleanupTimeout : Nat := durationFromSecs 30

/-- `s3_deadline`. -/
def s3Deadline (opClass : S3OpClass) (bytes : Option Nat) (t : S3Timeouts) : Option Nat :=
  if t.requestTimeoutSecs = 0 then none
  else
    let base := durationFromSecs t.requestTimeoutSecs
    match opClass with
    | .metadata => some base
    | .copy =>
      if t.copyMinBytesPerSecond = 0 then some base
      else
        let allowanceSecs := bytes.getD copyObjectMaxSize / t.copyMinBytesPerSecond
        some (min (base + durationFromSecs allowanceSecs) durationMax)

/-! ## Requests -/

/-- What `apply_s3_object_options!` sets on a request. -/
structure ObjectOptions where
  storageClass : Option Str
  serverSideEncryption : Option Str
  ssekmsKeyId : Option Str
  acl : Option Str
  deriving DecidableEq

/-- The requests. -/
inductive S3Request where
  | headObject (bucket key : Str)
  | copyObject (bucket key copySource : Str) (options : ObjectOptions)
  | createMultipartUpload (bucket key : Str) (options : ObjectOptions)
  /-- The range of the bytes is half-open. -/
  | uploadPartCopy (bucket key uploadId : Str) (partNumber : Int) (copySource : Str) (range : Nat × Nat)
  | uploadPart (bucket key uploadId : Str) (partNumber : Int) (body : List UInt8)
  | completeMultipartUpload (bucket key uploadId : Str) (parts : List (Int × Str))
  | abortMultipartUpload (bucket key uploadId : Str)
  | getObject (bucket key : Str)
  | putObject (bucket key : Str) (body : List UInt8) (options : ObjectOptions)
  deriving DecidableEq

/-- What is read of a successful answer: a content length, an upload, an ETag, or a body, which comes in
pieces and may break off with an error. -/
abbrev S3Request.Value : S3Request → Type
  | .headObject _ _ => Option Int
  | .copyObject _ _ _ _ => Unit
  | .createMultipartUpload _ _ _ => Option Str
  | .uploadPartCopy _ _ _ _ _ _ => Option Str
  | .uploadPart _ _ _ _ _ => Option Str
  | .completeMultipartUpload _ _ _ _ => Unit
  | .abortMultipartUpload _ _ _ => Unit
  | .getObject _ _ => Option Int × List (Except Str (List UInt8))
  | .putObject _ _ _ _ => Unit

/-- The answer to a request.  The message about a deadline says how much time has passed. -/
inductive Answer (α : Type) where
  | ok (a : α)
  | error (text : Str)
  | timedOut (figures : Str)

/-- The value of an answer. -/
def Answer.value? {α : Type} : Answer α → Option α
  | .ok a => some a
  | _ => none

/-- An answer with what it does not tell: how long the request took, and whether it has taken effect. -/
structure Served (α : Type) where
  answer : Answer α
  elapsed : Nat
  tookEffect : Bool

/-- The calls of a copy. -/
inductive CopyCall where
  | now
  | sleep (ms : Nat)
  | applyJitter (baseDelayMs : Nat)
  | send (deadline : Option Nat) (request : S3Request)

/-- The replies: the time, the time that passed, a delay, an answer. -/
abbrev CopyCall.Reply : CopyCall → Type
  | .now => Nat
  | .sleep _ => Nat
  | .applyJitter _ => Nat
  | .send _ request => Served request.Value

/-- A program of requests.  It fails with the text of its error. -/
abbrev CopyProg (α : Type) : Type := Prog CopyCall CopyCall.Reply Str α

/-- A call with its reply. -/
abbrev CopyEvent : Type := Event CopyCall CopyCall.Reply

/-! ## The source of a copy -/

/-- The bytes of a key that stand for themselves in a header. -/
def isUnreservedByte (byte : UInt8) : Bool :=
  let n := byte.toNat
  (65 ≤ n && n ≤ 90) || (97 ≤ n && n ≤ 122) || (48 ≤ n && n ≤ 57) || n = 45 || n = 95 || n = 46 || n = 126 || n = 47

/-- `percent_encode_s3_key`. -/
def percentEncodeS3Key (key : Str) : Str :=
  (Str.utf8 key).flatMap fun byte =>
    if isUnreservedByte byte then [Char.ofNat byte.toNat] else '%' :: Str.hex true 2 byte.toNat

/-- The header that names the source of a copy. -/
def copySourceHeader (sourceBucket sourceKey : Str) : Str := sourceBucket ++ '/' :: percentEncodeS3Key sourceKey

/-- Where an object is: its bucket, and the bytes of its key. -/
abbrev S3Address : Type := Str × List UInt8

def s3Address (bucket key : Str) : S3Address := (bucket, Str.utf8 key)

/-- The object that a header names. -/
def copySourceAddress? (header : Str) : Option S3Address :=
  (Str.splitOnce '/' header).map fun p => (p.1, percentDecode p.2)

theorem percentDecode_percentEncodeS3Key (key : Str) : percentDecode (percentEncodeS3Key key) = Str.utf8 key := by
  have hunreserved : ∀ n : Fin 256, isUnreservedByte (UInt8.ofNat n) = true →
      Char.ofNat n ≠ '%' ∧ String.utf8EncodeChar (Char.ofNat n) = [UInt8.ofNat n] := by decide +kernel
  rw [percentEncodeS3Key]
  induction Str.utf8 key with
  | nil => rfl
  | cons byte bytes ih =>
    rw [List.flatMap_cons]
    split_ifs with hbyte
    · have hself := hunreserved ⟨byte.toNat, byte.toNat_lt⟩
      dsimp only at hself
      rw [UInt8.ofNat_toNat] at hself
      obtain ⟨hne, hencode⟩ := hself hbyte
      rw [List.singleton_append, percentDecode_of_ne hne, ih, hencode, List.singleton_append]
    · have hdecode := percentDecode_bytes [byte]
      rw [List.flatMap_singleton] at hdecode
      rw [hdecode, ih, List.singleton_append]

/-- **The service finds the object that the header was written for.** -/
theorem copySourceAddress_copySourceHeader {sourceBucket : Str} (h : '/' ∉ sourceBucket) (sourceKey : Str) :
    copySourceAddress? (copySourceHeader sourceBucket sourceKey) = some (s3Address sourceBucket sourceKey) := by
  have hcut : Str.splitOnce '/' (copySourceHeader sourceBucket sourceKey) =
      some (sourceBucket, percentEncodeS3Key sourceKey) := Str.splitOnce_eq_some_iff.mpr ⟨rfl, h⟩
  rw [copySourceAddress?, hcut, Option.map_some, percentDecode_percentEncodeS3Key]
  rfl

/-! ## The service -/

/-- An object. -/
structure S3StoredObject where
  bytes : List UInt8
  options : ObjectOptions
  deriving DecidableEq

/-- A multipart upload that is neither completed nor aborted. -/
structure OpenUpload where
  address : S3Address
  options : ObjectOptions
  parts : List UploadedPart

/-- The part replaces the one that had its number. -/
def storePart (part : UploadedPart) (parts : List UploadedPart) : List UploadedPart :=
  part :: parts.filter (·.partNumber ≠ part.partNumber)

/-- The bytes of the parts that a request lists, if they all are there. -/
def assemble (parts : List UploadedPart) : List (Int × Str) → Option (List UInt8)
  | [] => some []
  | (partNumber, eTag) :: listed =>
    (parts.find? fun p => p.partNumber = partNumber ∧ p.eTag = eTag).bind fun p =>
      (assemble parts listed).map (p.bytes ++ ·)

/-- The time, the objects, and the open uploads. -/
structure S3State where
  clock : Nat
  objects : S3Address → Option S3StoredObject
  uploads : Str → Option OpenUpload

namespace S3State

variable (s : S3State)

def elapse (time : Nat) : S3State := { s with clock := s.clock + time }

def store (a : S3Address) (o : S3StoredObject) : S3State := { s with objects := Function.update s.objects a (some o) }

def setUpload (uploadId : Str) (u : Option OpenUpload) : S3State :=
  { s with uploads := Function.update s.uploads uploadId u }

/-- The open upload that a request names. -/
def uploadAt? (a : S3Address) (uploadId : Str) : Option OpenUpload :=
  (s.uploads uploadId).filter (·.address = a)

/-- The object that a header names. -/
def source? (header : Str) : Option S3StoredObject := (copySourceAddress? header).bind s.objects

/-- A part is uploaded.  A part whose ETag is not reported cannot be listed, and is left out. -/
def addPart? (a : S3Address) (uploadId : Str) (partNumber : Int) (eTag : Option Str) (bytes : List UInt8) :
    Option S3State :=
  (s.uploadAt? a uploadId).map fun u =>
    match eTag with
    | some eTag => s.setUpload uploadId (some { u with parts := storePart ⟨partNumber, eTag, bytes⟩ u.parts })
    | none => s

/-- What a request does with the answer that it gets; nothing if the service refuses it. -/
def effect? : (request : S3Request) → Option request.Value → Option S3State
  | .copyObject bucket key header options, _ =>
    (s.source? header).bind fun o =>
      if o.bytes.length ≤ copyObjectMaxSize then some (s.store (s3Address bucket key) ⟨o.bytes, options⟩) else none
  | .createMultipartUpload bucket key options, answer =>
    match answer.join with
    | some uploadId =>
      if (s.uploads uploadId).isNone then some (s.setUpload uploadId (some ⟨s3Address bucket key, options, []⟩))
      else none
    | none => some s
  | .uploadPartCopy bucket key uploadId partNumber header range, answer =>
    (s.source? header).bind fun o =>
      if range.1 < range.2 ∧ range.2 ≤ o.bytes.length then
        s.addPart? (s3Address bucket key) uploadId partNumber answer.join ((o.bytes.drop range.1).take (range.2 - range.1))
      else none
  | .uploadPart bucket key uploadId partNumber body, answer =>
    s.addPart? (s3Address bucket key) uploadId partNumber answer.join body
  | .completeMultipartUpload bucket key uploadId parts, _ =>
    (s.uploadAt? (s3Address bucket key) uploadId).bind fun u =>
      (assemble u.parts parts).map fun bytes =>
        (s.store (s3Address bucket key) ⟨bytes, u.options⟩).setUpload uploadId none
  | .abortMultipartUpload bucket key uploadId, _ =>
    (s.uploadAt? (s3Address bucket key) uploadId).map fun _ => s.setUpload uploadId none
  | .putObject bucket key body options, _ => some (s.store (s3Address bucket key) ⟨body, options⟩)
  | .headObject _ _, _ => some s
  | .getObject _ _, _ => some s

/-- What comes of a body before it breaks off. -/
def received : List (Except Str (List UInt8)) → List UInt8
  | [] => []
  | .error _ :: _ => []
  | .ok bytes :: items => bytes ++ received items

/-- A content length, if there is one, is a number of 64 bits with a sign, and tells the length. -/
def IsLength (contentLength : Option Int) (bytes : List UInt8) : Prop :=
  ∀ n, contentLength = some n → n = bytes.length ∧ n < 2 ^ 63

/-- What a successful answer tells of an object. -/
def Shows : (request : S3Request) → request.Value → Prop
  | .headObject bucket key, contentLength =>
    ∃ o, s.objects (s3Address bucket key) = some o ∧ IsLength contentLength o.bytes
  | .getObject bucket key, (contentLength, body) =>
    ∃ o, s.objects (s3Address bucket key) = some o ∧ IsLength contentLength o.bytes ∧ received body <+: o.bytes ∧
      ((∀ item ∈ body, item.toOption.isSome) → received body = o.bytes)
  | .copyObject _ _ _ _, _ => True
  | .createMultipartUpload _ _ _, _ => True
  | .uploadPartCopy _ _ _ _ _ _, _ => True
  | .uploadPart _ _ _ _ _, _ => True
  | .completeMultipartUpload _ _ _ _, _ => True
  | .abortMultipartUpload _ _ _, _ => True
  | .putObject _ _ _ _, _ => True

/-- The request ends by its deadline, and only a request that has one runs into it. -/
def InTime {α : Type} (deadline : Option Nat) (r : Served α) : Prop :=
  (∀ d, deadline = some d → r.elapsed ≤ d) ∧ ∀ figures, r.answer = .timedOut figures → deadline = some r.elapsed

/-- A request that succeeds is one that the service does not refuse. -/
def Answers (request : S3Request) (r : Served request.Value) : Prop :=
  ∀ a, r.answer = .ok a → r.tookEffect = true ∧ (s.effect? request (some a)).isSome ∧ s.Shows request a

/-- The state after a request. -/
def served (request : S3Request) (r : Served request.Value) : S3State :=
  (if r.tookEffect then (s.effect? request r.answer.value?).getD s else s).elapse r.elapsed

end S3State

/-- S3, and the clock. -/
def s3World : World CopyCall CopyCall.Reply S3State where
  allows s
    | ⟨.now, time⟩ => time = s.clock
    | ⟨.sleep ms, time⟩ => ms * 1000000 ≤ time
    | ⟨.applyJitter _, _⟩ => True
    | ⟨.send deadline request, r⟩ => S3State.InTime deadline r ∧ s.Answers request r
  next s
    | ⟨.now, _⟩ => s
    | ⟨.sleep _, time⟩ => s.elapse time
    | ⟨.applyJitter _, _⟩ => s
    | ⟨.send _ request, r⟩ => s.served request r

end Chbackup
