import Chbackup.ObjectDisk
import Chbackup.Storage.Requests

/-!
# Copying an object

`copy_object_with_retry_jitter` (`src/storage/s3.rs`) and what it calls: a single request for a small
object or one of unknown size, a multipart upload of ranges for a large one, three attempts with a delay
between them, and at last a download and an upload.

A body is received at once, where the code receives its pieces between the uploads of the parts.
-/

namespace Chbackup

open CallTree Prog

/-- `S3Client`, with what its requests read. -/
structure S3Client where
  bucket : Str
  keyPrefix : Str
  storageClass : Str
  sse : Str
  sseKmsKeyId : Str
  acl : Str
  timeouts : S3Timeouts
  chunkSize : Nat
  maxPartsCount : Nat

/-! ## Errors -/

/-- `TIMEOUT_ERR_PREFIX`. -/
def timeoutErrPrefix : Str := "S3 request timed out"

/-- The error of `with_deadline`. -/
def timeoutError (op bucket key figures : Str) : Str :=
  timeoutErrPrefix ++ (": " : Str) ++ op ++ (" on " : Str) ++ bucket ++ ("/" : Str) ++ key ++ (" " : Str) ++ figures ++
    (". Raise s3.request_timeout or s3.copy_min_bytes_per_second, or set s3.request_timeout: 0s to disable deadlines." : Str)

/-- `is_missing_source_error`. -/
def isMissingSourceError (msg : Str) : Bool := Str.contains "NoSuchKey" msg || Str.contains "NoSuchBucket" msg

/-- `with_context`. -/
def withContext (context e : Str) : Str := context ++ (": " : Str) ++ e

/-- A request under its deadline, and the context of an error that the service reports. -/
def sendOrFail (op bucket key context : Str) (deadline : Option Nat) (request : S3Request) : CopyProg request.Value :=
  (perform (CopyCall.send deadline request)).bind fun (r : Served request.Value) =>
    match r.answer with
    | .ok a => .ret a
    | .error text => .fail (withContext context text)
    | .timedOut figures => .fail (timeoutError op bucket key figures)

/-- `remaining_budget`. -/
def remainingBudget (objectDeadline : Option Nat) : CopyProg (Option Nat) :=
  match objectDeadline with
  | none => .ret none
  | some deadline =>
    (perform CopyCall.now).bind fun (now : Nat) =>
      if deadline - now = 0 then
        .fail (timeoutErrPrefix ++ (": multipart copy exceeded its whole-object budget" : Str))
      else .ret (some (deadline - now))

namespace S3Client

variable (c : S3Client)

/-- `apply_s3_object_options!`. -/
def objectOptions : ObjectOptions where
  storageClass := if c.storageClass = [] then none else some c.storageClass
  serverSideEncryption :=
    if c.sse = ("aws:kms" : Str) then some "aws:kms" else if c.sse = ("AES256" : Str) then some "AES256" else none
  ssekmsKeyId := if c.sse = ("aws:kms" : Str) ∧ c.sseKmsKeyId ≠ [] then some c.sseKmsKeyId else none
  acl := if c.acl = [] then none else some c.acl

/-! ## Multipart uploads -/

section Multipart

variable (key : Str)

/-- `create_multipart_upload`. -/
def createMultipartUpload : CopyProg Str :=
  let fullKey := fullKey c.keyPrefix key
  (sendOrFail "CreateMultipartUpload" c.bucket fullKey ("Failed to create multipart upload for: " ++ fullKey)
    (s3Deadline .metadata none c.timeouts) (.createMultipartUpload c.bucket fullKey c.objectOptions)).bind
      fun (uploadId : Option Str) =>
        match uploadId with
        | some uploadId => .ret uploadId
        | none => .fail ("No upload_id returned for multipart upload: " ++ fullKey)

/-- `upload_part`. -/
def uploadPart (uploadId : Str) (partNumber : Int) (body : List UInt8) : CopyProg Str :=
  let fullKey := fullKey c.keyPrefix key
  let part := (toString partNumber).toList
  (sendOrFail "UploadPart" c.bucket fullKey
    ("Failed to upload part " ++ part ++ (" for " : Str) ++ fullKey ++ (": upload_id=" : Str) ++ uploadId) none
    (.uploadPart c.bucket fullKey uploadId partNumber body)).bind
      fun (eTag : Option Str) =>
        match eTag with
        | some eTag => .ret eTag
        | none =>
          .fail ("No ETag returned for part " ++ part ++ (" of " : Str) ++ fullKey ++ (": upload_id=" : Str) ++ uploadId)

/-- `complete_multipart_upload`. -/
def completeMultipartUpload (uploadId : Str) (parts : List (Int × Str)) : CopyProg Unit :=
  let fullKey := fullKey c.keyPrefix key
  sendOrFail "CompleteMultipartUpload" c.bucket fullKey
    ("Failed to complete multipart upload for " ++ fullKey ++ (": upload_id=" : Str) ++ uploadId)
    (s3Deadline .copy none c.timeouts) (.completeMultipartUpload c.bucket fullKey uploadId parts)

/-- `abort_multipart_upload`. -/
def abortMultipartUpload (uploadId : Str) : CopyProg Unit :=
  let fullKey := fullKey c.keyPrefix key
  sendOrFail "AbortMultipartUpload" c.bucket fullKey
    ("Failed to abort multipart upload for " ++ fullKey ++ (": upload_id=" : Str) ++ uploadId) (some cleanupTimeout)
    (.abortMultipartUpload c.bucket fullKey uploadId)

/-- `put_object`. -/
def putObject (body : List UInt8) : CopyProg Unit :=
  let fullKey := fullKey c.keyPrefix key
  sendOrFail "PutObject" c.bucket fullKey ("Failed to upload object: " ++ fullKey) none
    (.putObject c.bucket fullKey body c.objectOptions)

end Multipart

/-! ## Copies by the service -/

section Copy

variable (sourceBucket sourceKey destKey : Str)

/-- `abort_upload_best_effort`. -/
def abortUploadBestEffort (fullDestKey uploadId : Str) : CopyProg Unit :=
  (perform (CopyCall.send (some cleanupTimeout) (.abortMultipartUpload c.bucket fullDestKey uploadId))).bind fun _ =>
    .ret ()

/-- A round of `copy_parts`. -/
def copyPartsRound (fullDestKey uploadId header : Str) (sourceSize chunkSize partCount : Nat)
    (objectDeadline : Option Nat) (partIdx : Nat) : CopyProg (Int × Str) :=
  match copyPart sourceSize chunkSize partIdx with
  | none => .fail "arithmetic overflow"
  | some part =>
    let partNumber := (toString part.partNumber).toList
    let rangeLen := part.range.2 - part.range.1
    ((remainingBudget objectDeadline).mapError (withContext
      ("after " ++ decimal partIdx ++ ("/" : Str) ++ decimal partCount ++ (" parts of " : Str) ++ fullDestKey))).bind
        fun remaining =>
          let partDeadline :=
            (s3Deadline .copy (some rangeLen) c.timeouts).map fun d => (remaining.map fun left => min d left).getD d
          (sendOrFail "UploadPartCopy" c.bucket fullDestKey
            ("Multipart copy: upload_part_copy failed for part " ++ partNumber ++ (" (range bytes=" : Str) ++
              decimal part.range.1 ++ ("-" : Str) ++ decimal (part.range.2 - 1) ++ (")" : Str))
            partDeadline (.uploadPartCopy c.bucket fullDestKey uploadId part.partNumber header part.range)).bind
              fun (eTag : Option Str) =>
                match eTag with
                | some eTag => .ret (part.partNumber, eTag)
                | none => .fail ("Missing ETag in UploadPartCopy response for part " ++ partNumber)

/-- `copy_parts`. -/
def copyParts (fullDestKey uploadId header : Str) (sourceSize chunkSize partCount : Nat)
    (objectDeadline : Option Nat) : CopyProg (List (Int × Str)) :=
  forEach (List.range partCount)
    (c.copyPartsRound fullDestKey uploadId header sourceSize chunkSize partCount objectDeadline)

/-- The copy and the completion of an upload, in `copy_object_multipart`. -/
def copyAndComplete (fullDestKey uploadId header : Str) (sourceSize chunkSize partCount : Nat)
    (objectDeadline : Option Nat) : CopyProg Unit :=
  (c.copyParts fullDestKey uploadId header sourceSize chunkSize partCount objectDeadline).bind fun completedParts =>
    (remainingBudget objectDeadline).bind fun completeDeadline =>
      sendOrFail "CompleteMultipartUpload" c.bucket fullDestKey
        ("Multipart copy: failed to complete upload for " ++ fullDestKey) completeDeadline
        (.completeMultipartUpload c.bucket fullDestKey uploadId completedParts)

/-- What follows the outcome of an upload: an upload that has failed is aborted. -/
def abortOnError (abort : CopyProg Unit) (upload : CopyProg Unit) : CopyProg Unit :=
  upload.attempt.bind fun (outcome : Except Str Unit) =>
    match outcome with
    | .ok () => .ret ()
    | .error e => abort.attempt.bind fun (_ : Except Str Unit) => .fail e

/-- The deadline of the whole object, from the time at which it is computed. -/
def objectDeadline (sourceSize : Nat) : CopyProg (Option Nat) :=
  match s3Deadline .copy (some sourceSize) c.timeouts with
  | none => .ret none
  | some d => (perform CopyCall.now).bind fun (now : Nat) => .ret (some (now + d))

/-- `copy_object_multipart`. -/
def copyObjectMultipart (sourceSize : Nat) : CopyProg Unit :=
  let fullDestKey := fullKey c.keyPrefix destKey
  (c.objectDeadline sourceSize).bind fun deadline =>
    (sendOrFail "CreateMultipartUpload" c.bucket fullDestKey
      ("Multipart copy: failed to create multipart upload for " ++ fullDestKey) (s3Deadline .metadata none c.timeouts)
      (.createMultipartUpload c.bucket fullDestKey c.objectOptions)).bind fun (uploadId : Option Str) =>
        match uploadId with
        | none => .fail ("Multipart copy: no upload_id returned for " ++ fullDestKey)
        | some uploadId =>
          match calculateChunkSize sourceSize c.chunkSize c.maxPartsCount with
          | none => .fail "arithmetic overflow"
          | some chunkSize =>
            match divCeilU64 sourceSize chunkSize with
            | none => .fail "arithmetic overflow"
            | some partCount =>
              abortOnError (c.abortUploadBestEffort fullDestKey uploadId)
                (c.copyAndComplete fullDestKey uploadId (copySourceHeader sourceBucket sourceKey) sourceSize chunkSize
                  partCount deadline)

/-- The single request of `copy_object`. -/
def copyObjectSingle (sourceSize : Option Nat) : CopyProg Unit :=
  let fullDestKey := fullKey c.keyPrefix destKey
  let header := copySourceHeader sourceBucket sourceKey
  sendOrFail "CopyObject" c.bucket fullDestKey
    ("CopyObject failed: " ++ header ++ (" -> " : Str) ++ c.bucket ++ ("/" : Str) ++ fullDestKey)
    (s3Deadline .copy sourceSize c.timeouts) (.copyObject c.bucket fullDestKey header c.objectOptions)

/-- `copy_object`. -/
def copyObject : CopyProg Unit :=
  (perform (CopyCall.send (s3Deadline .metadata none c.timeouts) (.headObject sourceBucket sourceKey))).bind
    fun (head : Served (Option Int)) =>
      match head.answer with
      | .timedOut figures => .fail (timeoutError "HeadObject" sourceBucket sourceKey figures)
      | .ok contentLength =>
        let size := (contentLength.getD 0).toNat
        if copyObjectMaxSize < size then c.copyObjectMultipart sourceBucket sourceKey destKey size
        else c.copyObjectSingle sourceBucket sourceKey destKey (some size)
      -- An object that is not found, or must not be read, may still be copied.
      | .error _ => c.copyObjectSingle sourceBucket sourceKey destKey none

/-! ## Copies by the client -/

/-- What the loop over a body has: the bytes that are not uploaded yet, the next part number, and the parts. -/
structure StreamingCopy where
  buffer : List UInt8
  partNumber : Int
  completedParts : List (Int × Str)

/-- The inner loop: the full chunks of the buffer are uploaded. -/
def uploadFullChunks (uploadId : Str) {chunkSize : Nat} (hchunk : 0 < chunkSize) (st : StreamingCopy) :
    CopyProg StreamingCopy :=
  if chunkSize ≤ st.buffer.length then
    ((c.uploadPart destKey uploadId st.partNumber (st.buffer.take chunkSize)).mapError (withContext
      ("Streaming copy: upload_part " ++ (toString st.partNumber).toList ++ (" failed for " : Str) ++ sourceBucket ++
        ("/" : Str) ++ sourceKey))).bind fun eTag =>
          uploadFullChunks uploadId hchunk
            ⟨st.buffer.drop chunkSize, st.partNumber + 1, st.completedParts ++ [(st.partNumber, eTag)]⟩
  else .ret st
termination_by st.buffer.length
decreasing_by
  rw [List.length_drop]
  omega

/-- The loop over a body. -/
def uploadBody (uploadId : Str) {chunkSize : Nat} (hchunk : 0 < chunkSize) :
    StreamingCopy → List (Except Str (List UInt8)) → CopyProg StreamingCopy
  | st, [] => .ret st
  | _, .error e :: _ =>
    .fail (withContext ("Streaming copy: error reading body of " ++ sourceBucket ++ ("/" : Str) ++ sourceKey) e)
  | st, .ok bytes :: items =>
    (c.uploadFullChunks sourceBucket sourceKey destKey uploadId hchunk { st with buffer := st.buffer ++ bytes }).bind
      fun st => uploadBody uploadId hchunk st items

/-- The last part, with what is left. -/
def uploadRest (uploadId : Str) (st : StreamingCopy) : CopyProg (List (Int × Str)) :=
  if st.buffer = [] then .ret st.completedParts
  else
    ((c.uploadPart destKey uploadId st.partNumber st.buffer).mapError (withContext
      ("Streaming copy: final upload_part failed for " ++ sourceBucket ++ ("/" : Str) ++ sourceKey))).bind fun eTag =>
        .ret (st.completedParts ++ [(st.partNumber, eTag)])

/-- The upload of a body in parts, up to its completion. -/
def uploadAndComplete (uploadId : Str) {chunkSize : Nat} (hchunk : 0 < chunkSize)
    (body : List (Except Str (List UInt8))) : CopyProg Unit :=
  (c.uploadBody sourceBucket sourceKey destKey uploadId hchunk ⟨[], 1, []⟩ body).bind fun st =>
    (c.uploadRest sourceBucket sourceKey destKey uploadId st).bind fun completedParts =>
      (c.completeMultipartUpload destKey uploadId completedParts).mapError (withContext
        ("Streaming copy: complete_multipart_upload failed for dest " ++ fullKey c.keyPrefix destKey))

/-- The body as a whole, or the error that it breaks off with. -/
def collectBody : List (Except Str (List UInt8)) → Except Str (List UInt8)
  | [] => .ok []
  | .error e :: _ => .error e
  | .ok bytes :: items => (collectBody items).map (bytes ++ ·)

/-- `STREAMING_COPY_THRESHOLD`. -/
def streamingCopyThreshold : Nat := 32 * 1024 * 1024

/-- `copy_object_streaming`. -/
def copyObjectStreaming : CopyProg Unit :=
  let fullDestKey := fullKey c.keyPrefix destKey
  (sendOrFail "GetObject" sourceBucket sourceKey
    ("Streaming copy: failed to download " ++ sourceBucket ++ ("/" : Str) ++ sourceKey) none
    (.getObject sourceBucket sourceKey)).bind fun (getResp : Option Int × List (Except Str (List UInt8))) =>
      let contentLength := (getResp.1.getD 0).toNat
      if contentLength ≤ streamingCopyThreshold then
        match collectBody getResp.2 with
        | .error e =>
          .fail (withContext ("Streaming copy: failed to read body of " ++ sourceBucket ++ ("/" : Str) ++ sourceKey) e)
        | .ok bytes =>
          (c.putObject destKey bytes).mapError (withContext
            ("Streaming copy: failed to upload to " ++ c.bucket ++ ("/" : Str) ++ fullDestKey))
      else
        match calculateChunkSize contentLength 0 10000 with
        | none => .fail "arithmetic overflow"
        | some chunkSize =>
          have hchunk : 0 < max chunkSize s3MinPartSize := Nat.lt_of_lt_of_le (by decide) (Nat.le_max_right _ _)
          (c.createMultipartUpload destKey).bind fun uploadId =>
            abortOnError (c.abortMultipartUpload destKey uploadId)
              (c.uploadAndComplete sourceBucket sourceKey destKey uploadId hchunk getResp.2)

/-! ## Attempts -/

/-- The loop over the delays.  `attempts` is the number of all of them. -/
def copyAttempts (allowStreaming : Bool) (attempts : Nat) : List Nat → CopyProg Unit
  | [] => .fail "retry loop should have returned"
  | delayMs :: rest =>
    (c.copyObject sourceBucket sourceKey destKey).attempt.bind fun (outcome : Except Str Unit) =>
      match outcome with
      | .ok () => .ret ()
      | .error e =>
        if isMissingSourceError e then
          .fail (withContext ("CopyObject source object does not exist: " ++ sourceBucket ++ ("/" : Str) ++ sourceKey ++
            (" (not retried -- a missing object is permanent)" : Str)) e)
        else if rest ≠ [] then
          (perform (CopyCall.applyJitter delayMs)).bind fun (actualDelay : Nat) =>
            (perform (CopyCall.sleep actualDelay)).bind fun _ => copyAttempts allowStreaming attempts rest
        else if allowStreaming then c.copyObjectStreaming sourceBucket sourceKey destKey
        else
          .fail (withContext ("CopyObject failed after " ++ decimal attempts ++
            (" attempts (streaming fallback disabled): " : Str) ++ sourceBucket ++ ("/" : Str) ++ sourceKey) e)

/-- The delays between the attempts, in milliseconds. -/
def backoffMs : List Nat := [100, 400, 1600]

/-- `copy_object_with_retry_jitter`. -/
def copyObjectWithRetryJitter (allowStreaming : Bool) : CopyProg Unit :=
  c.copyAttempts sourceBucket sourceKey destKey allowStreaming backoffMs.length backoffMs

end Copy

end S3Client

end Chbackup
