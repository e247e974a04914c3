import Chbackup.Lib.Groups
import Chbackup.Storage.Multipart

/-!
# Streaming a compressed part

A large part is compressed by a thread of its own, which sends chunks of one size to the loop that
uploads them (`src/upload/stream.rs`, `src/upload/mod.rs`).  A smaller part is compressed as a whole
first.  Both write the same tar through the same encoder.

An encoder is taken as it is seen from outside: what it writes to the writer below, and when it flushes
it, for each call that it receives.  The thread may stop after any number of its steps, with an error or
with a panic; what the encoder still writes then, or while it is dropped, is left open.
-/

namespace Chbackup

/-- What reaches a writer. -/
inductive WriteOp where
  | write (bytes : List UInt8)
  | flush
  deriving DecidableEq

/-- All that is written. -/
def written (ops : List WriteOp) : List UInt8 :=
  ops.flatMap fun op =>
    match op with
    | .write bytes => bytes
    | .flush => []

/-! ## Chunks -/

/-- `MIN_MULTIPART_CHUNK`. -/
def minMultipartChunk : Nat := 5 * 1024 * 1024

/-- `ChunkedWriter`, with the chunks that it has sent.  Its buffer is never full. -/
structure ChunkedWriter (chunkSize : Nat) where
  buffer : List UInt8
  sent : List (List UInt8)
  hasRoom : buffer.length < chunkSize

namespace ChunkedWriter

variable {chunkSize : Nat}

/-- `ChunkedWriter::new`. -/
def new (h : 0 < chunkSize) : ChunkedWriter chunkSize := ⟨[], [], h⟩

/-- `send_buffer`; also what `flush` and `drop` do. -/
def sendBuffer (w : ChunkedWriter chunkSize) : ChunkedWriter chunkSize :=
  if w.buffer = [] then w else ⟨[], w.sent ++ [w.buffer], Nat.lt_of_le_of_lt (Nat.zero_le _) w.hasRoom⟩

/-- `write`. -/
def write (w : ChunkedWriter chunkSize) (buf : List UInt8) : ChunkedWriter chunkSize :=
  if buf = [] then w
  else
    let toCopy := min (chunkSize - w.buffer.length) buf.length
    let buffer := w.buffer ++ buf.take toCopy
    if h : buffer.length < chunkSize then write ⟨buffer, w.sent, h⟩ (buf.drop toCopy)
    else write ⟨[], w.sent ++ [buffer], Nat.lt_of_le_of_lt (Nat.zero_le _) w.hasRoom⟩ (buf.drop toCopy)
termination_by buf.length
decreasing_by
  all_goals
    have hroom := w.hasRoom
    have hpos : 0 < buf.length := List.length_pos_iff.mpr ‹_›
    simp only [List.length_drop]
    omega

/-- A call of the writer. -/
def apply (w : ChunkedWriter chunkSize) : WriteOp → ChunkedWriter chunkSize
  | .write bytes => w.write bytes
  | .flush => w.sendBuffer

/-- Several calls. -/
def run (w : ChunkedWriter chunkSize) (ops : List WriteOp) : ChunkedWriter chunkSize := ops.foldl apply w

end ChunkedWriter

/-- The chunks of a thread that makes these calls and drops the writer. -/
def chunksOf {chunkSize : Nat} (h : 0 < chunkSize) (ops : List WriteOp) : List (List UInt8) :=
  ((ChunkedWriter.new h).run ops).sendBuffer.sent

/-- What is written between two flushes. -/
def segments (cur : List UInt8) : List WriteOp → List (List UInt8)
  | [] => [cur]
  | .write bytes :: ops => segments (cur ++ bytes) ops
  | .flush :: ops => cur :: segments [] ops

/-! ## Encoders -/

/-- What an encoder does to the writer below it. -/
structure Encoder where
  State : Type
  start : State
  write : State → List UInt8 → State × List WriteOp
  flush : State → State × List WriteOp
  finish : State → List WriteOp

/-- A call of an encoder. -/
inductive EncoderCall where
  | write (bytes : List UInt8)
  | flush
  | finish

/-- What several calls do. -/
def Encoder.ops (e : Encoder) : e.State → List EncoderCall → List WriteOp
  | _, [] => []
  | s, .write bytes :: calls => (e.write s bytes).2 ++ e.ops (e.write s bytes).1 calls
  | s, .flush :: calls => (e.flush s).2 ++ e.ops (e.flush s).1 calls
  | s, .finish :: calls => e.finish s ++ e.ops s calls

/-- No encoder: the tar is written as it is. -/
def plainEncoder : Encoder where
  State := Unit
  start := ()
  write _ bytes := ((), [.write bytes])
  flush _ := ((), [.flush])
  finish _ := []

/-- The encoders, by their levels. -/
structure Encoders where
  lz4 : Encoder
  zstd : Nat → Encoder
  gzip : Nat → Encoder

/-- The encoder of a format, and whether it is flushed before it is finished. -/
def Encoders.of (enc : Encoders) (dataFormat : Str) (compressionLevel : Nat) : Option (Encoder × Bool) :=
  if dataFormat = "lz4" then some (enc.lz4, false)
  else if dataFormat = "zstd" then some (enc.zstd (min compressionLevel 22), false)
  else if dataFormat = "gzip" then some (enc.gzip compressionLevel, true)
  else if dataFormat = "none" then some (plainEncoder, false)
  else none

/-- The calls that write an archive: the tar, and the end of the encoder. -/
def archiveCalls (flushes : Bool) (tar : List (List UInt8)) : List EncoderCall :=
  tar.map .write ++ (if flushes then [.flush, .finish] else [.finish])

/-- `compress_part`. -/
def compressPart (enc : Encoders) (dataFormat : Str) (compressionLevel : Nat) (tar : List (List UInt8)) :
    Except Str (List UInt8) :=
  match enc.of dataFormat compressionLevel with
  | some (e, flushes) => .ok (written (e.ops e.start (archiveCalls flushes tar)))
  | none => .error ("Unknown compression format: " ++ dataFormat)

/-! ## The thread -/

/-- How the compressing thread comes to its end: after all its calls, or after some of them, with what
it still wrote in the call that it stopped in and while it dropped the encoder. -/
inductive ThreadEnd where
  | finished
  | failed (done : Nat) (torn : List WriteOp) (e : Str)
  | panicked (done : Nat) (torn : List WriteOp)

/-- What the thread has done to its writer. -/
def ThreadEnd.ops (e : Encoder) (calls : List EncoderCall) : ThreadEnd → List WriteOp
  | .finished => e.ops e.start calls ++ [.flush]
  | .failed done torn _ => e.ops e.start (calls.take done) ++ torn
  | .panicked done torn => e.ops e.start (calls.take done) ++ torn

/-- The error that the thread sends after its chunks. -/
def ThreadEnd.error : ThreadEnd → Option Str
  | .failed _ _ e => some e
  | _ => none

/-- `compress_part_streaming`: what is received from the channel until it is closed. -/
def compressPartStreaming (enc : Encoders) (dataFormat : Str) (compressionLevel chunkSize : Nat)
    (tar : List (List UInt8)) (threadEnd : ThreadEnd) : Except Str (List (Except Str (List UInt8))) :=
  if h : minMultipartChunk ≤ chunkSize then
    match enc.of dataFormat compressionLevel with
    | some (e, flushes) =>
      .ok ((chunksOf (Nat.lt_of_lt_of_le (by decide) h) (threadEnd.ops e (archiveCalls flushes tar))).map .ok ++
        threadEnd.error.toList.map .error)
    | none => .ok [.error ("Unknown compression format: " ++ dataFormat)]
  else .error "chunk_size must be at least MIN_MULTIPART_CHUNK"

/-! ## The upload -/

/-- A part of a multipart upload. -/
structure UploadedPart where
  partNumber : Int
  eTag : Str
  bytes : List UInt8
  deriving DecidableEq

section Upload

variable (enc : Encoders) (uploadPart : Int → List UInt8 → Except Str Str)

/-- The loop over what is received, from a part number on. -/
def uploadChunks (partNumber : Int) : List (Except Str (List UInt8)) → Except Str (List UploadedPart)
  | [] => .ok []
  | .error e :: _ => .error e
  | .ok bytes :: items =>
    (uploadPart partNumber bytes).bind fun eTag =>
      (uploadChunks (partNumber + 1) items).bind fun parts => .ok (⟨partNumber, eTag, bytes⟩ :: parts)

/-- The streaming branch of the upload of a part: the parts of the upload that is completed. -/
def uploadStreaming (dataFormat : Str) (compressionLevel chunkSize : Nat) (tar : List (List UInt8))
    (threadEnd : ThreadEnd) : Except Str (List UploadedPart) :=
  (compressPartStreaming enc dataFormat compressionLevel (max chunkSize minMultipartChunk) tar threadEnd).bind
    fun items =>
      (uploadChunks uploadPart 1 items).bind fun parts =>
        if parts = [] then .error "Streaming compression produced zero chunks" else .ok parts

/-- The buffered loop over the slices of the compressed bytes. -/
def uploadSlices (compressed : List UInt8) : List PlannedPart → Except Str (List UploadedPart)
  | [] => .ok []
  | p :: plan =>
    let chunkData := (compressed.drop p.range.1).take (p.range.2 - p.range.1)
    (uploadPart p.partNumber chunkData).bind fun eTag =>
      (uploadSlices compressed plan).bind fun parts => .ok (⟨p.partNumber, eTag, chunkData⟩ :: parts)

/-- `MULTIPART_THRESHOLD`. -/
def multipartThreshold : Nat := 32 * 1024 * 1024

/-- `should_use_multipart`. -/
def shouldUseMultipart (compressedSize : Nat) : Bool := multipartThreshold < compressedSize

/-- What is stored for a part. -/
inductive StoredArchive where
  | object (bytes : List UInt8)
  | multipart (parts : List UploadedPart)

/-- The bytes of the object that S3 makes of it. -/
def StoredArchive.bytes : StoredArchive → List UInt8
  | .object bytes => bytes
  | .multipart parts => parts.flatMap UploadedPart.bytes

/-- The upload of a part, by its size: streamed, in slices, or as one object. -/
def uploadArchive (putObject : List UInt8 → Except Str Unit) (dataFormat : Str)
    (compressionLevel streamingUploadThreshold s3ChunkSize s3MaxPartsCount size : Nat)
    (tar : List (List UInt8)) (threadEnd : ThreadEnd) : Except Str StoredArchive :=
  if 0 < streamingUploadThreshold ∧ streamingUploadThreshold < size then
    match calculateChunkSize size s3ChunkSize s3MaxPartsCount with
    | some chunkSize =>
      (uploadStreaming enc uploadPart dataFormat compressionLevel chunkSize tar threadEnd).bind fun parts =>
        .ok (.multipart parts)
    | none => .error "overflow"
  else
    (compressPart enc dataFormat compressionLevel tar).bind fun compressed =>
      if shouldUseMultipart compressed.length then
        match bufferedMultipart compressed.length s3ChunkSize s3MaxPartsCount with
        | some plan => (uploadSlices uploadPart compressed plan).bind fun parts => .ok (.multipart parts)
        | none => .error "overflow"
      else (putObject compressed).bind fun _ => .ok (.object compressed)

end Upload

/-! ## What the chunks are -/

section Chunks

variable {chunkSize : Nat}

/-- A write sends what is full, and keeps the rest. -/
theorem ChunkedWriter.write_eq (w : ChunkedWriter chunkSize) (buf : List UInt8) :
    (w.write buf).sent = w.sent ++ Groups.full chunkSize (w.buffer ++ buf) ∧
      (w.write buf).buffer = Groups.rest chunkSize (w.buffer ++ buf) := by
  have hpos : 0 < chunkSize := Nat.lt_of_le_of_lt (Nat.zero_le _) w.hasRoom
  fun_induction ChunkedWriter.write w buf with
  | case1 w =>
    rw [List.append_nil, Groups.full_of_lt w.hasRoom, Groups.rest_of_lt w.hasRoom, List.append_nil]
    exact ⟨rfl, rfl⟩
  | case2 w buf hne toCopy buffer h ih =>
    obtain ⟨hsent, hbuffer⟩ := ih
    have hall : buffer ++ buf.drop toCopy = w.buffer ++ buf := by
      rw [List.append_assoc, List.take_append_drop]
    rw [hall] at hsent hbuffer
    exact ⟨hsent, hbuffer⟩
  | case3 w buf hne toCopy buffer h ih =>
    obtain ⟨hsent, hbuffer⟩ := ih
    have hroom := w.hasRoom
    have hcopied : (buf.take toCopy).length = toCopy := by
      rw [List.length_take]
      omega
    have hlength : buffer.length = chunkSize := by
      have happend : buffer.length = w.buffer.length + toCopy := by
        rw [List.length_append, hcopied]
      omega
    have hall : w.buffer ++ buf = buffer ++ buf.drop toCopy := by
      rw [List.append_assoc, List.take_append_drop]
    have hle : chunkSize ≤ (w.buffer ++ buf).length := by
      rw [hall, List.length_append]
      omega
    have htake : (w.buffer ++ buf).take chunkSize = buffer := by
      rw [hall, ← hlength, List.take_left]
    have hdrop : (w.buffer ++ buf).drop chunkSize = buf.drop toCopy := by
      rw [hall, ← hlength, List.drop_left]
    rw [hsent, hbuffer, List.nil_append, Groups.full_of_le hpos hle, Groups.rest_of_le hpos hle, htake, hdrop,
      List.append_assoc]
    exact ⟨rfl, rfl⟩

theorem ChunkedWriter.sendBuffer_eq (w : ChunkedWriter chunkSize) :
    w.sendBuffer.sent = w.sent ++ (if w.buffer = [] then [] else [w.buffer]) ∧ w.sendBuffer.buffer = [] := by
  rw [sendBuffer]
  split_ifs with h
  · exact ⟨(List.append_nil _).symm, h⟩
  · exact ⟨rfl, rfl⟩

/-- Where the writer stands in a segment. -/
theorem ChunkedWriter.run_sendBuffer (w : ChunkedWriter chunkSize) (done : List (List UInt8)) (cur : List UInt8)
    (hsent : w.sent = done ++ Groups.full chunkSize cur) (hbuffer : w.buffer = Groups.rest chunkSize cur)
    (ops : List WriteOp) :
    (w.run ops).sendBuffer.sent = done ++ (segments cur ops).flatMap (Groups.groups chunkSize) := by
  have hpos : 0 < chunkSize := Nat.lt_of_le_of_lt (Nat.zero_le _) w.hasRoom
  induction ops generalizing w done cur with
  | nil =>
    rw [run, List.foldl_nil, (sendBuffer_eq w).1, hsent, hbuffer, List.append_assoc]
    simp [segments, Groups.groups]
  | cons op ops ih =>
    rw [run, List.foldl_cons]
    cases op with
    | write bytes =>
      obtain ⟨hs, hb⟩ := w.write_eq bytes
      obtain ⟨hfull, hrest⟩ := Groups.full_append hpos cur bytes
      refine ih (w.write bytes) done (cur ++ bytes) ?_ ?_
      · rw [hs, hsent, hbuffer, hfull, List.append_assoc]
      · rw [hb, hbuffer, hrest]
    | flush =>
      obtain ⟨hs, hb⟩ := w.sendBuffer_eq
      have h := ih w.sendBuffer (done ++ Groups.groups chunkSize cur) [] ?_ ?_
      · rw [segments, List.flatMap_cons, ← List.append_assoc]
        exact h
      · rw [hs, hsent, hbuffer, Groups.groups, Groups.full_nil, List.append_nil, List.append_assoc]
      · rw [hb, Groups.rest_nil]

/-- **The chunks are the groups of what is written between two flushes.** -/
theorem chunksOf_eq (h : 0 < chunkSize) (ops : List WriteOp) :
    chunksOf h ops = (segments [] ops).flatMap (Groups.groups chunkSize) := by
  refine (ChunkedWriter.run_sendBuffer (.new h) [] [] ?_ ?_ ops).trans (List.nil_append _)
  · rw [Groups.full_nil]
    rfl
  · rw [Groups.rest_nil]
    rfl

theorem flatten_segments (cur : List UInt8) (ops : List WriteOp) : (segments cur ops).flatten = cur ++ written ops := by
  induction ops generalizing cur with
  | nil => simp [segments, written]
  | cons op ops ih =>
    cases op with
    | write bytes => rw [segments, ih, List.append_assoc, written, written, List.flatMap_cons]
    | flush => rw [segments, List.flatten_cons, ih, List.nil_append, written, written, List.flatMap_cons, List.nil_append]

/-- Nothing is lost, and nothing is added. -/
theorem flatten_chunksOf (h : 0 < chunkSize) (ops : List WriteOp) : (chunksOf h ops).flatten = written ops := by
  have hgroups : ∀ xss : List (List UInt8), (xss.flatMap (Groups.groups chunkSize)).flatten = xss.flatten := by
    intro xss
    induction xss with
    | nil => rfl
    | cons xs xss ih => rw [List.flatMap_cons, List.flatten_append, ih, Groups.flatten_groups h, List.flatten_cons]
  rw [chunksOf_eq, hgroups, flatten_segments, List.nil_append]

end Chunks

/-! ## What is stored -/

/-- Two computations in a row succeed exactly if both do. -/
theorem except_bind_eq_ok_iff {α β : Type} {x : Except Str α} {f : α → Except Str β} {b : β} :
    x.bind f = .ok b ↔ ∃ a, x = .ok a ∧ f a = .ok b := by
  cases x with
  | error e =>
    constructor
    · rintro ⟨⟩
    · rintro ⟨a, ⟨⟩, -⟩
  | ok a =>
    constructor
    · exact fun h => ⟨a, rfl, h⟩
    · rintro ⟨a', ⟨⟩, h⟩
      exact h

section Stored

variable {enc : Encoders} {uploadPart : Int → List UInt8 → Except Str Str} {parts : List UploadedPart}

/-- The parts of a completed upload: all chunks, numbered from the first on, with the tags that S3 gave them. -/
structure PartsOf (uploadPart : Int → List UInt8 → Except Str Str) (first : Int) (chunks : List (List UInt8))
    (parts : List UploadedPart) : Prop where
  bytes : parts.map UploadedPart.bytes = chunks
  numbers : parts.map UploadedPart.partNumber = (List.range parts.length).map fun i : Nat => first + i
  tags : ∀ p ∈ parts, uploadPart p.partNumber p.bytes = .ok p.eTag

theorem PartsOf.nil {first : Int} : PartsOf uploadPart first [] [] := ⟨rfl, rfl, fun _ hp => absurd hp List.not_mem_nil⟩

theorem partsOf_cons_iff {first : Int} {chunk : List UInt8} {chunks : List (List UInt8)} {p : UploadedPart} :
    PartsOf uploadPart first (chunk :: chunks) (p :: parts) ↔
      p.bytes = chunk ∧ p.partNumber = first ∧ uploadPart first chunk = .ok p.eTag ∧
        PartsOf uploadPart (first + 1) chunks parts := by
  have hnumbers : (List.range (p :: parts).length).map (fun i : Nat => first + i) =
      first :: (List.range parts.length).map fun i : Nat => first + 1 + i := by
    rw [List.length_cons, List.range_succ_eq_map, List.map_cons, List.map_map]
    congr 1
    · simp
    · refine List.map_congr_left fun i _ => ?_
      simp only [Function.comp_apply]
      push_cast
      omega
  constructor
  · rintro ⟨hbytes, hnum, htags⟩
    rw [hnumbers] at hnum
    obtain ⟨hb, hbytes⟩ := List.cons_eq_cons.mp hbytes
    obtain ⟨hn, hnum⟩ := List.cons_eq_cons.mp hnum
    have htag := htags p List.mem_cons_self
    rw [hb, hn] at htag
    exact ⟨hb, hn, htag, hbytes, hnum, fun q hq => htags q (List.mem_cons_of_mem _ hq)⟩
  · rintro ⟨hb, hn, htag, hbytes, hnum, htags⟩
    refine ⟨?_, ?_, List.forall_mem_cons.mpr ⟨?_, htags⟩⟩
    · rw [List.map_cons, hb, hbytes]
    · rw [hnumbers, List.map_cons, hn, hnum]
    · rw [hb, hn]
      exact htag

/-- The loop comes to its end exactly if every item is a chunk that could be uploaded. -/
theorem uploadChunks_eq_ok_iff {first : Int} {items : List (Except Str (List UInt8))} :
    uploadChunks uploadPart first items = .ok parts ↔
      ∃ chunks : List (List UInt8), items = chunks.map .ok ∧ PartsOf uploadPart first chunks parts := by
  induction items generalizing first parts with
  | nil =>
    constructor
    · rintro ⟨⟩
      exact ⟨[], rfl, .nil⟩
    · rintro ⟨chunks, hchunks, hbytes, -⟩
      obtain rfl := List.map_eq_nil_iff.mp hchunks.symm
      obtain rfl := List.map_eq_nil_iff.mp hbytes
      rfl
  | cons item items ih =>
    cases item with
    | error e =>
      constructor
      · rintro ⟨⟩
      · rintro ⟨chunks, hchunks, -⟩
        cases chunks with
        | nil => cases hchunks
        | cons chunk chunks => cases (List.cons_eq_cons.mp hchunks).1
    | ok bytes =>
      rw [uploadChunks]
      constructor
      · intro h
        obtain ⟨eTag, htag, h⟩ := except_bind_eq_ok_iff.mp h
        obtain ⟨rest, hrest, h⟩ := except_bind_eq_ok_iff.mp h
        cases h
        obtain ⟨chunks, rfl, hparts⟩ := ih.mp hrest
        exact ⟨bytes :: chunks, rfl, partsOf_cons_iff.mpr ⟨rfl, rfl, htag, hparts⟩⟩
      · rintro ⟨chunks, hchunks, hparts⟩
        cases chunks with
        | nil => cases hchunks
        | cons chunk chunks =>
          obtain ⟨hchunk, rfl⟩ := List.cons_eq_cons.mp hchunks
          cases hchunk
          cases parts with
          | nil => cases hparts.bytes
          | cons p parts =>
            obtain ⟨hb, hn, htag, hparts⟩ := partsOf_cons_iff.mp hparts
            rw [htag]
            refine except_bind_eq_ok_iff.mpr ⟨_, rfl, except_bind_eq_ok_iff.mpr ⟨parts, ih.mpr ⟨chunks, rfl, hparts⟩, ?_⟩⟩
            obtain ⟨number, tag, b⟩ := p
            cases hb
            cases hn
            rfl

/-- No chunk is uploaded exactly if the thread has written nothing. -/
theorem chunksOf_eq_nil_iff {c : Nat} (hc : 0 < c) (ops : List WriteOp) : chunksOf hc ops = [] ↔ written ops = [] := by
  constructor
  · intro h
    rw [← flatten_chunksOf hc, h, List.flatten_nil]
  · intro h
    refine List.eq_nil_iff_forall_not_mem.mpr fun chunk hchunk => ?_
    have hnil : chunk = [] := by
      rw [← flatten_chunksOf hc] at h
      exact List.flatten_eq_nil_iff.mp h chunk hchunk
    rw [chunksOf_eq] at hchunk
    obtain ⟨xs, -, hmem⟩ := List.mem_flatMap.mp hchunk
    exact Groups.nil_notMem_groups hc (hnil ▸ hmem)

theorem minMultipartChunk_le (chunkSize : Nat) : minMultipartChunk ≤ max chunkSize minMultipartChunk := le_max_right _ _

theorem chunk_pos (chunkSize : Nat) : 0 < max chunkSize minMultipartChunk :=
  Nat.lt_of_lt_of_le (by decide) (minMultipartChunk_le chunkSize)

/-- The parts of a streamed upload that has succeeded. -/
theorem partsOf_of_uploadStreaming {dataFormat : Str} {compressionLevel chunkSize : Nat} {tar : List (List UInt8)}
    {threadEnd : ThreadEnd}
    (h : uploadStreaming enc uploadPart dataFormat compressionLevel chunkSize tar threadEnd = .ok parts) :
    ∃ e flushes, enc.of dataFormat compressionLevel = some (e, flushes) ∧ threadEnd.error = none ∧
      written (threadEnd.ops e (archiveCalls flushes tar)) ≠ [] ∧
      PartsOf uploadPart 1 ((segments [] (threadEnd.ops e (archiveCalls flushes tar))).flatMap
        (Groups.groups (max chunkSize minMultipartChunk))) parts := by
  have hpos := chunk_pos chunkSize
  rw [uploadStreaming, compressPartStreaming, dif_pos (minMultipartChunk_le chunkSize)] at h
  cases hof : enc.of dataFormat compressionLevel with
  | none =>
    rw [hof] at h
    cases h
  | some x =>
    obtain ⟨e, flushes⟩ := x
    rw [hof] at h
    replace h : (uploadChunks uploadPart 1 _).bind _ = _ := h
    obtain ⟨parts', hparts, h⟩ := except_bind_eq_ok_iff.mp h
    split_ifs at h with hnil
    cases h
    obtain ⟨chunks, hitems, hof'⟩ := uploadChunks_eq_ok_iff.mp hparts
    cases herror : threadEnd.error with
    | some e' =>
      rw [herror] at hitems
      have hmem : Except.error e' ∈ chunks.map (Except.ok : List UInt8 → Except Str (List UInt8)) := by
        rw [← hitems]
        simp
      obtain ⟨chunk, -, hbad⟩ := List.mem_map.mp hmem
      cases hbad
    | none =>
      rw [herror, Option.toList_none, List.map_nil, List.append_nil] at hitems
      have hchunks := List.map_injective_iff.mpr (fun a b hab => Except.ok.inj hab) hitems
      subst hchunks
      simp only [← chunksOf_eq hpos]
      refine ⟨e, flushes, rfl, trivial, fun hwritten => ?_, hof'⟩
      have hbytes := hof'.bytes
      rw [(chunksOf_eq_nil_iff hpos _).mpr hwritten] at hbytes
      exact hnil (List.map_eq_nil_iff.mp hbytes)

/-- A streamed upload succeeds when each of its parts does. -/
theorem uploadStreaming_of_partsOf {dataFormat : Str} {compressionLevel chunkSize : Nat} {tar : List (List UInt8)}
    {threadEnd : ThreadEnd} {e : Encoder} {flushes : Bool}
    (hof : enc.of dataFormat compressionLevel = some (e, flushes)) (herror : threadEnd.error = none)
    (hwritten : written (threadEnd.ops e (archiveCalls flushes tar)) ≠ [])
    (hparts : PartsOf uploadPart 1 ((segments [] (threadEnd.ops e (archiveCalls flushes tar))).flatMap
      (Groups.groups (max chunkSize minMultipartChunk))) parts) :
    uploadStreaming enc uploadPart dataFormat compressionLevel chunkSize tar threadEnd = .ok parts := by
  have hpos := chunk_pos chunkSize
  rw [uploadStreaming, compressPartStreaming, dif_pos (minMultipartChunk_le chunkSize), hof]
  show (uploadChunks uploadPart 1 _).bind _ = _
  refine except_bind_eq_ok_iff.mpr ⟨parts, uploadChunks_eq_ok_iff.mpr ⟨_, ?_, hparts⟩, if_neg fun hnil => ?_⟩
  · rw [herror, Option.toList_none, List.map_nil, List.append_nil, ← chunksOf_eq hpos]
  · have hbytes := hparts.bytes
    rw [hnil, ← chunksOf_eq hpos] at hbytes
    exact hwritten ((chunksOf_eq_nil_iff hpos _).mp hbytes.symm)

/-- **When a streamed upload is completed, and what it stores.**  The format is known, the thread sent no
error, the tags are those of all its chunks, and there are some.  A thread that stops without an error, as
in a panic, is not told from one that has come to its end. -/
theorem uploadStreaming_eq_ok_iff {dataFormat : Str} {compressionLevel chunkSize : Nat} {tar : List (List UInt8)}
    {threadEnd : ThreadEnd} :
    uploadStreaming enc uploadPart dataFormat compressionLevel chunkSize tar threadEnd = .ok parts ↔
      ∃ e flushes, enc.of dataFormat compressionLevel = some (e, flushes) ∧ threadEnd.error = none ∧
        written (threadEnd.ops e (archiveCalls flushes tar)) ≠ [] ∧
        PartsOf uploadPart 1 ((segments [] (threadEnd.ops e (archiveCalls flushes tar))).flatMap
          (Groups.groups (max chunkSize minMultipartChunk))) parts := by
  refine ⟨partsOf_of_uploadStreaming, ?_⟩
  rintro ⟨e, flushes, hof, herror, hwritten, hparts⟩
  exact uploadStreaming_of_partsOf hof herror hwritten hparts

theorem written_append (ops ops' : List WriteOp) : written (ops ++ ops') = written ops ++ written ops' :=
  List.flatMap_append

theorem PartsOf.flatMap_bytes {first : Int} {chunks : List (List UInt8)} (h : PartsOf uploadPart first chunks parts) :
    parts.flatMap UploadedPart.bytes = chunks.flatten := by
  rw [← h.bytes, List.flatMap_def]

/-- A streamed archive is what the thread has written. -/
theorem flatMap_bytes_of_uploadStreaming {dataFormat : Str} {compressionLevel chunkSize : Nat}
    {tar : List (List UInt8)} {threadEnd : ThreadEnd}
    (h : uploadStreaming enc uploadPart dataFormat compressionLevel chunkSize tar threadEnd = .ok parts) :
    ∃ e flushes, enc.of dataFormat compressionLevel = some (e, flushes) ∧
      parts.flatMap UploadedPart.bytes = written (threadEnd.ops e (archiveCalls flushes tar)) := by
  obtain ⟨e, flushes, hof, -, -, hparts⟩ := partsOf_of_uploadStreaming h
  have hpos := chunk_pos chunkSize
  refine ⟨e, flushes, hof, ?_⟩
  rw [hparts.flatMap_bytes, ← chunksOf_eq hpos, flatten_chunksOf hpos]

/-- The slices are those of the plan. -/
theorem map_bytes_of_uploadSlices {compressed : List UInt8} {plan : List PlannedPart}
    (h : uploadSlices uploadPart compressed plan = .ok parts) :
    parts.map UploadedPart.bytes = (plan.map PlannedPart.range).map fun r => (compressed.drop r.1).take (r.2 - r.1) := by
  induction plan generalizing parts with
  | nil =>
    cases h
    rfl
  | cons p plan ih =>
    obtain ⟨eTag, -, h⟩ := except_bind_eq_ok_iff.mp h
    obtain ⟨rest, hrest, h⟩ := except_bind_eq_ok_iff.mp h
    cases h
    rw [List.map_cons, ih hrest]
    rfl

/-- **However a part is uploaded, the object is the archive that `compress_part` makes.** -/
theorem uploadArchive_stores {putObject : List UInt8 → Except Str Unit} {dataFormat : Str}
    {compressionLevel streamingUploadThreshold s3ChunkSize s3MaxPartsCount size : Nat} {tar : List (List UInt8)}
    {stored : StoredArchive}
    (hsize : ∀ archive, compressPart enc dataFormat compressionLevel tar = .ok archive → archive.length ≤ s3MaxObjectSize)
    (h : uploadArchive enc uploadPart putObject dataFormat compressionLevel streamingUploadThreshold s3ChunkSize
      s3MaxPartsCount size tar .finished = .ok stored) :
    compressPart enc dataFormat compressionLevel tar = .ok stored.bytes := by
  rw [uploadArchive] at h
  split_ifs at h with hstream
  · split at h
    · rename_i chunkSize hchunk
      obtain ⟨parts, hparts, h⟩ := except_bind_eq_ok_iff.mp h
      cases h
      obtain ⟨e, flushes, hof, hbytes⟩ := flatMap_bytes_of_uploadStreaming hparts
      rw [StoredArchive.bytes, hbytes, compressPart, hof, ThreadEnd.ops, written_append]
      exact congrArg Except.ok (List.append_nil _).symm
    · cases h
  · obtain ⟨compressed, hcompressed, h⟩ := except_bind_eq_ok_iff.mp h
    rw [hcompressed]
    split_ifs at h with hmultipart
    · have hplan : bufferedMultipart compressed.length s3ChunkSize s3MaxPartsCount = _ :=
        (multipart_eq_planOf (hsize compressed hcompressed)).1
      obtain ⟨hmin, -⟩ := chunkSizeOf_bounds compressed.length s3ChunkSize s3MaxPartsCount
      have hpos := Nat.lt_of_lt_of_le (by decide : 0 < s3MinPartSize) hmin
      rw [hplan] at h
      obtain ⟨parts, hparts, h⟩ := except_bind_eq_ok_iff.mp h
      cases h
      rw [StoredArchive.bytes, List.flatMap_def, map_bytes_of_uploadSlices hparts, map_range_planOf,
        ← Groups.groups_eq_map_pieces hpos, Groups.flatten_groups hpos]
    · obtain ⟨-, -, h⟩ := except_bind_eq_ok_iff.mp h
      cases h
      rfl

/-! ## The sizes of the parts -/

/-- The encoder flushes the writer below only when it is flushed itself, if it ever is. -/
structure Encoder.FlushesOnlyWhenTold (e : Encoder) (flushes : Bool) : Prop where
  write : ∀ s bytes, .flush ∉ (e.write s bytes).2
  finish : ∀ s, .flush ∉ e.finish s
  flush : flushes = true → ∀ s, ∃ ops, (e.flush s).2 = ops ++ [.flush] ∧ .flush ∉ ops

theorem segments_of_notMem {ops : List WriteOp} (h : .flush ∉ ops) (cur : List UInt8) (ops' : List WriteOp) :
    segments cur (ops ++ ops') = segments (cur ++ written ops) ops' := by
  induction ops generalizing cur with
  | nil => simp [written]
  | cons op ops ih =>
    cases op with
    | write bytes =>
      rw [List.cons_append, segments, ih (fun hmem => h (List.mem_cons_of_mem _ hmem)), written, written,
        List.flatMap_cons, List.append_assoc]
    | flush => exact absurd List.mem_cons_self h

/-- The state of an encoder after it has been written to, and what it has written. -/
def Encoder.writeAll (e : Encoder) : e.State → List (List UInt8) → e.State × List WriteOp
  | s, [] => (s, [])
  | s, bytes :: tar =>
    ((e.writeAll (e.write s bytes).1 tar).1, (e.write s bytes).2 ++ (e.writeAll (e.write s bytes).1 tar).2)

theorem Encoder.ops_map_write (e : Encoder) (s : e.State) (tar : List (List UInt8)) (calls : List EncoderCall) :
    e.ops s (tar.map .write ++ calls) = (e.writeAll s tar).2 ++ e.ops (e.writeAll s tar).1 calls := by
  induction tar generalizing s with
  | nil => rfl
  | cons bytes tar ih => rw [List.map_cons, List.cons_append, Encoder.ops, ih, writeAll, List.append_assoc]

theorem Encoder.FlushesOnlyWhenTold.writeAll {e : Encoder} {flushes : Bool} (h : e.FlushesOnlyWhenTold flushes)
    (s : e.State) (tar : List (List UInt8)) : .flush ∉ (e.writeAll s tar).2 := by
  induction tar generalizing s with
  | nil => exact List.not_mem_nil
  | cons bytes tar ih =>
    intro hmem
    rcases List.mem_append.mp hmem with hmem | hmem
    · exact h.write s bytes hmem
    · exact ih _ hmem

/-- What is written before the encoder is flushed, and what after. -/
def Encoder.beforeFlush (e : Encoder) (tar : List (List UInt8)) : List UInt8 :=
  written ((e.writeAll e.start tar).2 ++ (e.flush (e.writeAll e.start tar).1).2)

def Encoder.afterFlush (e : Encoder) (tar : List (List UInt8)) : List UInt8 :=
  written (e.finish (e.flush (e.writeAll e.start tar).1).1)

/-- An archive without a flush in it is one segment. -/
theorem segments_archive {e : Encoder} (h : e.FlushesOnlyWhenTold false) (tar : List (List UInt8)) :
    segments [] (ThreadEnd.finished.ops e (archiveCalls false tar)) =
      [written (e.ops e.start (archiveCalls false tar)), []] := by
  rw [ThreadEnd.ops, archiveCalls, if_neg Bool.false_ne_true, e.ops_map_write]
  have hfinish : e.ops (e.writeAll e.start tar).1 [.finish] = e.finish (e.writeAll e.start tar).1 := List.append_nil _
  have hall : .flush ∉ (e.writeAll e.start tar).2 ++ e.finish (e.writeAll e.start tar).1 := by
    intro hmem
    rcases List.mem_append.mp hmem with hmem | hmem
    · exact h.writeAll _ _ hmem
    · exact h.finish _ hmem
  rw [hfinish, segments_of_notMem hall]
  rfl

/-- An archive of an encoder that is flushed once is two segments. -/
theorem segments_archive_flushed {e : Encoder} (h : e.FlushesOnlyWhenTold true) (tar : List (List UInt8)) :
    segments [] (ThreadEnd.finished.ops e (archiveCalls true tar)) = [e.beforeFlush tar, e.afterFlush tar, []] := by
  obtain ⟨ops, hops, hnot⟩ := h.flush rfl (e.writeAll e.start tar).1
  have hcalls : e.ops (e.writeAll e.start tar).1 [.flush, .finish] =
      (ops ++ [.flush]) ++ e.finish (e.flush (e.writeAll e.start tar).1).1 := by
    rw [Encoder.ops, hops, Encoder.ops, Encoder.ops, List.append_nil]
  rw [ThreadEnd.ops, archiveCalls, if_pos rfl, e.ops_map_write, hcalls, Encoder.beforeFlush, hops, Encoder.afterFlush]
  simp only [List.append_assoc]
  rw [segments_of_notMem (h.writeAll _ _), segments_of_notMem hnot, List.singleton_append, segments,
    segments_of_notMem (h.finish _)]
  simp [segments, written]

/-- All groups but the last of two segments are large enough exactly if the first segment leaves nothing
over, or enough, or is followed by nothing. -/
theorem forall_groups_append_iff {c least : Nat} (hc : 0 < c) (hle : least ≤ c) (xs ys : List UInt8) :
    (∀ m ∈ (Groups.groups c xs ++ Groups.groups c ys).dropLast, least ≤ m.length) ↔
      ys = [] ∨ xs.length % c = 0 ∨ least ≤ xs.length % c := by
  by_cases hys : ys = []
  · subst hys
    have hnil : Groups.groups c ([] : List UInt8) = [] := by simp [Groups.groups]
    rw [hnil, List.append_nil]
    refine ⟨fun _ => .inl rfl, fun _ m hm => ?_⟩
    rwa [Groups.length_of_mem_dropLast_groups hm]
  · have hne : Groups.groups c ys ≠ [] := fun h => hys (Groups.groups_eq_nil h hc)
    have hlast : ∀ m ∈ (Groups.groups c ys).dropLast, least ≤ m.length := by
      intro m hm
      rwa [Groups.length_of_mem_dropLast_groups hm]
    have hfull : ∀ m ∈ Groups.full c xs, least ≤ m.length := by
      intro m hm
      rwa [Groups.length_of_mem_full hm]
    rw [List.dropLast_append_of_ne_nil hne, List.forall_mem_append, and_iff_left hlast, Groups.groups,
      List.forall_mem_append, and_iff_right hfull, or_iff_right hys, ← Groups.length_rest, List.length_eq_zero_iff]
    split_ifs with hrest
    · simp [hrest]
    · simp [hrest]

/-- **When S3 accepts the parts of a streamed archive.**  Without a flush in the archive all parts but the
last are full.  With one, the archive is cut there once more, and what is left over before the cut must be
as large as a part has to be, unless nothing follows. -/
theorem streamed_parts_accepted_iff {dataFormat : Str} {compressionLevel chunkSize : Nat} {tar : List (List UInt8)}
    {e : Encoder} {flushes : Bool} (hof : enc.of dataFormat compressionLevel = some (e, flushes))
    (he : e.FlushesOnlyWhenTold flushes)
    (h : uploadStreaming enc uploadPart dataFormat compressionLevel chunkSize tar .finished = .ok parts) :
    (∀ p ∈ parts.dropLast, s3MinPartSize ≤ p.bytes.length) ↔
      flushes = false ∨ e.afterFlush tar = [] ∨ (e.beforeFlush tar).length % max chunkSize minMultipartChunk = 0 ∨
        s3MinPartSize ≤ (e.beforeFlush tar).length % max chunkSize minMultipartChunk := by
  obtain ⟨e', flushes', hof', -, -, hparts⟩ := partsOf_of_uploadStreaming h
  rw [hof] at hof'
  cases hof'
  have hle : s3MinPartSize ≤ max chunkSize minMultipartChunk := le_max_right _ _
  have hpos := chunk_pos chunkSize
  have hnil : Groups.groups (max chunkSize minMultipartChunk) ([] : List UInt8) = [] := by simp [Groups.groups]
  have hsizes : (∀ p ∈ parts.dropLast, s3MinPartSize ≤ p.bytes.length) ↔
      ∀ m ∈ (parts.map UploadedPart.bytes).dropLast, s3MinPartSize ≤ m.length := by
    rw [← List.map_dropLast, List.forall_mem_map]
  rw [hsizes, hparts.bytes]
  cases flushes with
  | false =>
    rw [segments_archive he, List.flatMap_cons, List.flatMap_cons, List.flatMap_nil, List.append_nil,
      forall_groups_append_iff hpos hle]
    simp
  | true =>
    rw [segments_archive_flushed he, List.flatMap_cons, List.flatMap_cons, List.flatMap_cons, List.flatMap_nil, hnil,
      List.append_nil, List.append_nil, forall_groups_append_iff hpos hle]
    simp

/-- An encoder that keeps the tar until it is flushed, and ends with a trailer. -/
def keepingEncoder : Encoder where
  State := List UInt8
  start := []
  write kept bytes := (kept ++ bytes, [])
  flush kept := ([], [.write kept, .flush])
  finish kept := [.write (kept ++ [3, 0])]

/-- It stands for every format. -/
def keepingEncoders : Encoders := ⟨keepingEncoder, fun _ => keepingEncoder, fun _ => keepingEncoder⟩

theorem flushesOnlyWhenTold_keeping : keepingEncoder.FlushesOnlyWhenTold true where
  write _ _ := List.not_mem_nil
  finish _ h := by cases List.mem_singleton.mp h
  flush _ kept := ⟨[.write kept], rfl, fun h => by cases List.mem_singleton.mp h⟩

/-- What is uploaded of a tar that is one piece: the piece up to the flush, and the trailer after it. -/
def keptParts (bytes : List UInt8) : List UploadedPart := [⟨1, "t", bytes⟩, ⟨2, "t", [3, 0]⟩]

theorem groups_of_length_le {c : Nat} {bytes : List UInt8} (hne : bytes ≠ []) (hle : bytes.length ≤ c) :
    Groups.groups c bytes = [bytes] := by
  have hpos := Nat.lt_of_lt_of_le (List.length_pos_iff.mpr hne) hle
  rcases Nat.lt_or_eq_of_le hle with hlt | rfl
  · rw [Groups.groups, Groups.full_of_lt hlt, Groups.rest_of_lt hlt, if_neg hne, List.nil_append]
  · rw [Groups.groups, Groups.full_of_le hpos (Nat.le_refl _), Groups.rest_of_le hpos (Nat.le_refl _), List.take_length,
      List.drop_length, Groups.full_nil, Groups.rest_nil, if_pos rfl, List.append_nil]

theorem beforeFlush_keeping (bytes : List UInt8) : keepingEncoder.beforeFlush [bytes] = bytes :=
  (List.append_nil _).trans (List.nil_append _)

theorem uploadStreaming_kept {chunkSize : Nat} {bytes : List UInt8} (hne : bytes ≠ [])
    (hle : bytes.length ≤ max chunkSize minMultipartChunk) :
    uploadStreaming keepingEncoders (fun _ _ => .ok "t") "gzip" 6 chunkSize [bytes] .finished =
      .ok (keptParts bytes) := by
  have hafter : keepingEncoder.afterFlush [bytes] = [3, 0] := rfl
  have htrailer : [3, 0].length ≤ max chunkSize minMultipartChunk :=
    Nat.le_trans (by decide) (minMultipartChunk_le chunkSize)
  have hnil : Groups.groups (max chunkSize minMultipartChunk) ([] : List UInt8) = [] := by simp [Groups.groups]
  have hof : keepingEncoders.of "gzip" 6 = some (keepingEncoder, true) := rfl
  refine uploadStreaming_of_partsOf hof rfl ?_ ⟨?_, rfl, fun p hp => ?_⟩
  · intro h
    have hmem : (3 : UInt8) ∈ written (ThreadEnd.finished.ops keepingEncoder (archiveCalls true [bytes])) :=
      List.mem_flatMap.mpr ⟨.write [3, 0], by simp [ThreadEnd.ops, archiveCalls, Encoder.ops, keepingEncoder], by simp⟩
    rw [h] at hmem
    exact List.not_mem_nil hmem
  · rw [segments_archive_flushed flushesOnlyWhenTold_keeping, beforeFlush_keeping, hafter, List.flatMap_cons, List.flatMap_cons,
      List.flatMap_cons, List.flatMap_nil, groups_of_length_le hne hle,
      groups_of_length_le (List.cons_ne_nil _ _) htrailer, hnil]
    rfl
  · rcases List.mem_pair.mp hp with rfl | rfl
    · rfl
    · rfl

/-- A full chunk before the flush is accepted, and two bytes are not. -/
theorem streamed_gzip_accepted :
    (∀ p ∈ (keptParts (List.replicate minMultipartChunk 0)).dropLast, s3MinPartSize ≤ p.bytes.length) ∧
      ¬ ∀ p ∈ (keptParts [1, 2]).dropLast, s3MinPartSize ≤ p.bytes.length := by
  have hof : keepingEncoders.of "gzip" 6 = some (keepingEncoder, true) := rfl
  have hlength : (List.replicate minMultipartChunk (0 : UInt8)).length = minMultipartChunk := List.length_replicate
  have hne : List.replicate minMultipartChunk (0 : UInt8) ≠ [] := by
    rw [← List.length_pos_iff, hlength]
    decide
  have hfull : uploadStreaming keepingEncoders (fun _ _ => .ok "t") "gzip" 6 0 [List.replicate minMultipartChunk 0]
      .finished = .ok (keptParts (List.replicate minMultipartChunk 0)) :=
    uploadStreaming_kept hne (hlength.trans_le (minMultipartChunk_le 0))
  have hsmall : uploadStreaming keepingEncoders (fun _ _ => .ok "t") "gzip" 6 0 [[1, 2]] .finished =
      .ok (keptParts [1, 2]) :=
    uploadStreaming_kept (List.cons_ne_nil _ _) (by decide)
  constructor
  · refine (streamed_parts_accepted_iff hof flushesOnlyWhenTold_keeping hfull).mpr (.inr (.inr (.inl ?_)))
    rw [beforeFlush_keeping, hlength]
    decide
  · intro h
    have hcases := (streamed_parts_accepted_iff hof flushesOnlyWhenTold_keeping hsmall).mp h
    rw [beforeFlush_keeping] at hcases
    revert hcases
    decide

/-- Two bytes and a trailer are streamed in two parts. -/
theorem uploaded_gzip_stores :
    compressPart keepingEncoders "gzip" 6 [[1, 2]] = .ok (StoredArchive.multipart (keptParts [1, 2])).bytes := by
  have hchunk : calculateChunkSize 2 0 10000 = some minMultipartChunk := by decide
  have h : uploadArchive keepingEncoders (fun _ _ => .ok "t") (fun _ => .ok ()) "gzip" 6 1 0 10000 2 [[1, 2]]
      .finished = .ok (.multipart (keptParts [1, 2])) := by
    rw [uploadArchive, if_pos (by decide), hchunk]
    exact congrArg (Except.bind · _) (uploadStreaming_kept (List.cons_ne_nil _ _) (by decide))
  exact uploadArchive_stores (fun archive h => by cases h; decide) h

end Stored

end Chbackup
