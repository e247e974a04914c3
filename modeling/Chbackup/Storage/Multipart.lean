import Chbackup.Lib.Tiles
import Chbackup.Lib.Text

/-!
# Multipart plans

How an object is cut for a multipart upload or a multipart copy: `calculate_chunk_size` and
`copy_parts` (`src/storage/s3.rs`) and the buffered upload loop (`src/upload/mod.rs`).  Every
machine operation is checked: it gives nothing where the value does not fit its type, and a size
(`usize`) has 64 bits.  What S3 answers is left out; a plan is what is sent when every request
succeeds.
-/

namespace Chbackup

/-! ## Machine arithmetic -/

/-- A value of an unsigned type of 64 bits. -/
def checkedU64 (n : Nat) : Option Nat := if n < 2 ^ 64 then some n else none

/-- A difference of unsigned values. -/
def checkedSub (a b : Nat) : Option Nat := if b ≤ a then some (a - b) else none

/-- A value of type `i32`. -/
def checkedI32 (n : Int) : Option Int := if -2 ^ 31 ≤ n ∧ n < 2 ^ 31 then some n else none

/-- The cast to `i32`, which keeps the lower 32 bits. -/
def asI32 (n : Nat) : Int :=
  let low : Nat := n % 4294967296
  if low < 2147483648 then low else (low : Int) - 4294967296

/-- `u64::div_ceil`. -/
def divCeilU64 (n d : Nat) : Option Nat :=
  if 0 < n % d then checkedU64 (n / d + 1) else some (n / d)

theorem checkedU64_eq {n : Nat} (h : n < 2 ^ 64) : checkedU64 n = some n := by
  rw [checkedU64, if_pos h]

theorem checkedSub_eq {a b : Nat} (h : b ≤ a) : checkedSub a b = some (a - b) := by
  rw [checkedSub, if_pos h]

theorem asI32_eq {n : Nat} (h : n < 2147483648) : asI32 n = n := by
  have hlow : n % 4294967296 = n := Nat.mod_eq_of_lt (by omega)
  rw [asI32, hlow, if_pos h]

theorem divCeilU64_eq {n d : Nat} (h : n < 2 ^ 64) (hd : 0 < d) :
    divCeilU64 n d = some (Tiles.divCeil n d) := by
  have hle : Tiles.divCeil n d ≤ n :=
    (Tiles.divCeil_le_iff hd n).mpr (Nat.le_mul_of_pos_right n hd)
  rw [divCeilU64, Tiles.divCeil] at *
  split_ifs at * with hr
  · exact checkedU64_eq (by omega)
  · rfl

/-! ## The chunk size -/

/-- `S3_MIN_PART_SIZE`. -/
def s3MinPartSize : Nat := 5 * 1024 * 1024

/-- `COPY_OBJECT_MAX_SIZE`. -/
def copyObjectMaxSize : Nat := 5368709120

/-- `calculate_chunk_size`. -/
def calculateChunkSize (dataLen configChunkSize maxPartsCount : Nat) : Option Nat := do
  let chunk ←
    if 0 < configChunkSize then some configChunkSize
    else divCeilU64 dataLen (max maxPartsCount 1)
  let chunk := max chunk s3MinPartSize
  if copyObjectMaxSize < chunk then return copyObjectMaxSize
  return chunk

/-! ## The plans -/

/-- A part of the multipart plan: its number and the half-open range of its bytes. -/
structure PlannedPart where
  partNumber : Int
  range : Nat × Nat
  deriving DecidableEq

/-- One round of the loop of `copy_parts`.  The range header names the last byte. -/
def copyPart (sourceSize chunkSize partIdx : Nat) : Option PlannedPart := do
  let start ← checkedU64 (partIdx * chunkSize)
  let next ← checkedU64 (partIdx + 1)
  let after ← checkedU64 (next * chunkSize)
  let last ← checkedSub after 1
  let sourceLast ← checkedSub sourceSize 1
  let finish := min last sourceLast
  let partNumber := asI32 next
  let span ← checkedSub finish start
  let rangeLen ← checkedU64 (span + 1)
  return ⟨partNumber, (start, start + rangeLen)⟩

/-- `copy_object_multipart` and `copy_parts`. -/
def copyObjectMultipart (sourceSize configChunkSize maxPartsCount : Nat) :
    Option (List PlannedPart) := do
  let chunkSize ← calculateChunkSize sourceSize configChunkSize maxPartsCount
  let partCount ← divCeilU64 sourceSize chunkSize
  (List.range partCount).mapM (copyPart sourceSize chunkSize)

/-- The starts `(0..stop).step_by(step)`. -/
def stepBy (stop step : Nat) : List Nat := (List.range (Tiles.divCeil stop step)).map (· * step)

/-- One round of the buffered upload loop.  The slice is taken of the compressed bytes. -/
def bufferedPart (len chunkSize : Nat) (chunk : Nat × Nat) : Option PlannedPart := do
  let (chunkStart, idx) := chunk
  let partNumber ← checkedI32 (asI32 idx + 1)
  let after ← checkedU64 (chunkStart + chunkSize)
  let chunkEnd := min after len
  if chunkStart ≤ chunkEnd ∧ chunkEnd ≤ len then return ⟨partNumber, (chunkStart, chunkEnd)⟩
  none

/-- The buffered multipart loop of the upload. -/
def bufferedMultipart (len configChunkSize maxPartsCount : Nat) : Option (List PlannedPart) := do
  let chunkSize ← calculateChunkSize len configChunkSize maxPartsCount
  (stepBy len chunkSize).zipIdx.mapM (bufferedPart len chunkSize)

/-! ## What S3 accepts -/

/-- The limit on the number of parts. -/
def s3MaxParts : Nat := 10000

/-- A plan for an object of the given length that S3 accepts. -/
structure Acceptable (len : Nat) (plan : List PlannedPart) : Prop where
  consecutive : Tiles.Fill 0 len (plan.map PlannedPart.range)
  disjoint : plan.Pairwise fun p q => Disjoint (Set.Ico p.range.1 p.range.2) (Set.Ico q.range.1 q.range.2)
  covers : ∀ i, i < len ↔ ∃ p ∈ plan, p.range.1 ≤ i ∧ i < p.range.2
  atMost : ∀ p ∈ plan, p.range.2 - p.range.1 ≤ copyObjectMaxSize
  atLeast : ∀ p ∈ plan.dropLast, s3MinPartSize ≤ p.range.2 - p.range.1
  count : plan.length ≤ s3MaxParts
  numbers : plan.map PlannedPart.partNumber = (List.range plan.length).map fun i : Nat => (i : Int) + 1

/-- The plan both paths make for a chunk size. -/
def planOf (len chunkSize : Nat) : List PlannedPart :=
  (List.range (Tiles.divCeil len chunkSize)).map fun i : Nat =>
    ⟨(i : Int) + 1, Tiles.piece len chunkSize i⟩

/-- A configured chunk size as the two limits leave it. -/
def clampChunkSize (configChunkSize : Nat) : Nat :=
  min (max configChunkSize s3MinPartSize) copyObjectMaxSize

/-- The chunk size for a length: the configured one, or an even share of the parts. -/
def chunkSizeOf (len configChunkSize maxPartsCount : Nat) : Nat :=
  if 0 < configChunkSize then clampChunkSize configChunkSize
  else clampChunkSize (Tiles.divCeil len (max maxPartsCount 1))

section Plan

variable {len configChunkSize maxPartsCount : Nat}

theorem clampChunkSize_bounds (n : Nat) :
    s3MinPartSize ≤ clampChunkSize n ∧ clampChunkSize n ≤ copyObjectMaxSize := by
  have hle : s3MinPartSize ≤ copyObjectMaxSize := by decide
  rw [clampChunkSize]
  omega

theorem chunkSizeOf_bounds (len configChunkSize maxPartsCount : Nat) :
    s3MinPartSize ≤ chunkSizeOf len configChunkSize maxPartsCount ∧
      chunkSizeOf len configChunkSize maxPartsCount ≤ copyObjectMaxSize := by
  rw [chunkSizeOf]
  split_ifs
  · exact clampChunkSize_bounds _
  · exact clampChunkSize_bounds _

theorem calculateChunkSize_eq (hlen : len < 2 ^ 64) :
    calculateChunkSize len configChunkSize maxPartsCount =
      some (chunkSizeOf len configChunkSize maxPartsCount) := by
  have hclamp : ∀ n : Nat, (if copyObjectMaxSize < max n s3MinPartSize then some copyObjectMaxSize
      else some (max n s3MinPartSize)) = some (clampChunkSize n) := by
    intro n
    rw [clampChunkSize]
    split_ifs with h
    · rw [Nat.min_eq_right (Nat.le_of_lt h)]
    · rw [Nat.min_eq_left (Nat.le_of_not_lt h)]
  rw [calculateChunkSize, chunkSizeOf]
  split_ifs with hconfig
  · exact hclamp configChunkSize
  · rw [divCeilU64_eq hlen (by omega)]
    exact hclamp _

theorem mapM_eq_some {α β : Type} {g : α → Option β} {h : α → β} {xs : List α}
    (hg : ∀ x ∈ xs, g x = some (h x)) : xs.mapM g = some (xs.map h) := by
  induction xs with
  | nil => rfl
  | cons x xs ih =>
    rw [List.mapM_cons, hg x List.mem_cons_self, ih fun y hy => hg y (List.mem_cons_of_mem _ hy)]
    rfl

/-- The largest object S3 stores. -/
def s3MaxObjectSize : Nat := 5 * 1024 ^ 4

/-- What the rounds of both loops compute with: no product or sum of theirs is large. -/
theorem round_bounds {chunkSize i : Nat} (hlen : len ≤ s3MaxObjectSize)
    (hmin : s3MinPartSize ≤ chunkSize) (hmax : chunkSize ≤ copyObjectMaxSize)
    (hi : i < Tiles.divCeil len chunkSize) :
    i * chunkSize < len ∧ i < 2 ^ 20 ∧ i * chunkSize + chunkSize < 2 ^ 44 := by
  have hmin' : 5 * 2 ^ 20 ≤ chunkSize := hmin
  have hmax' : chunkSize ≤ 5 * 2 ^ 30 := hmax
  have hlen' : len ≤ 5 * 2 ^ 40 := hlen
  have hlt : i * chunkSize < len := (Tiles.lt_divCeil_iff (by omega) i).mp hi
  have hmul : i * (5 * 2 ^ 20) ≤ i * chunkSize := Nat.mul_le_mul_left i hmin'
  refine ⟨hlt, by omega, by omega⟩

theorem copyPart_eq {chunkSize i : Nat} (hlen : len ≤ s3MaxObjectSize)
    (hmin : s3MinPartSize ≤ chunkSize) (hmax : chunkSize ≤ copyObjectMaxSize)
    (hi : i < Tiles.divCeil len chunkSize) :
    copyPart len chunkSize i = some ⟨(i : Int) + 1, Tiles.piece len chunkSize i⟩ := by
  obtain ⟨hlt, hsmall, hsum⟩ := round_bounds hlen hmin hmax hi
  have hpos : 0 < chunkSize := Nat.lt_of_lt_of_le (by decide) hmin
  have hnext : (i + 1) * chunkSize = i * chunkSize + chunkSize := Nat.succ_mul i chunkSize
  rw [copyPart, checkedU64_eq (by omega), Option.bind_eq_bind, Option.bind_some,
    checkedU64_eq (by omega), Option.bind_some, hnext,
    checkedU64_eq (by omega), Option.bind_some, checkedSub_eq (by omega), Option.bind_some,
    checkedSub_eq (by omega), Option.bind_some]
  dsimp only
  rw [checkedSub_eq (by omega), Option.bind_some, checkedU64_eq (by omega), Option.bind_some,
    asI32_eq (by omega)]
  have hstop : i * chunkSize + (min (i * chunkSize + chunkSize - 1) (len - 1) - i * chunkSize + 1) =
      min (i * chunkSize + chunkSize) len := by omega
  rw [Tiles.piece, hnext, hstop]
  push_cast
  rfl

theorem bufferedPart_eq {chunkSize i : Nat} (hlen : len ≤ s3MaxObjectSize)
    (hmin : s3MinPartSize ≤ chunkSize) (hmax : chunkSize ≤ copyObjectMaxSize)
    (hi : i < Tiles.divCeil len chunkSize) :
    bufferedPart len chunkSize (i * chunkSize, i) =
      some ⟨(i : Int) + 1, Tiles.piece len chunkSize i⟩ := by
  obtain ⟨hlt, hsmall, hsum⟩ := round_bounds hlen hmin hmax hi
  have hnext : (i + 1) * chunkSize = i * chunkSize + chunkSize := Nat.succ_mul i chunkSize
  have hnumber : checkedI32 ((i : Int) + 1) = some ((i : Int) + 1) := if_pos (by omega)
  rw [bufferedPart, asI32_eq (by omega), hnumber, Option.bind_eq_bind, Option.bind_some,
    checkedU64_eq (by omega), Option.bind_eq_bind, Option.bind_some]
  dsimp only
  rw [if_pos (by omega), Tiles.piece, hnext]
  rfl

theorem bufferedPart_of_mem_stepBy {chunkSize : Nat} (hlen : len ≤ s3MaxObjectSize)
    (hmin : s3MinPartSize ≤ chunkSize) (hmax : chunkSize ≤ copyObjectMaxSize) :
    ∀ x ∈ (stepBy len chunkSize).zipIdx, bufferedPart len chunkSize x =
      some (((fun i : Nat => ⟨(i : Int) + 1, Tiles.piece len chunkSize i⟩) ∘ Prod.snd) x) := by
  rintro ⟨chunkStart, i⟩ hx
  rw [List.mem_zipIdx_iff_getElem?, stepBy, List.getElem?_map, Option.map_eq_some_iff] at hx
  obtain ⟨j, hj, hstart⟩ := hx
  dsimp only at hj hstart
  obtain ⟨hi, hget⟩ := List.getElem?_eq_some_iff.mp hj
  rw [List.getElem_range] at hget
  rw [List.length_range] at hi
  rw [← hstart, ← hget]
  exact bufferedPart_eq hlen hmin hmax hi

/-- **Both paths make the plan of equal chunks.** -/
theorem multipart_eq_planOf (hlen : len ≤ s3MaxObjectSize) :
    bufferedMultipart len configChunkSize maxPartsCount =
        some (planOf len (chunkSizeOf len configChunkSize maxPartsCount)) ∧
      copyObjectMultipart len configChunkSize maxPartsCount =
        some (planOf len (chunkSizeOf len configChunkSize maxPartsCount)) := by
  have hlen64 : len < 2 ^ 64 := Nat.lt_of_le_of_lt hlen (by decide)
  obtain ⟨hmin, hmax⟩ := chunkSizeOf_bounds len configChunkSize maxPartsCount
  have hpos : 0 < chunkSizeOf len configChunkSize maxPartsCount := Nat.lt_of_lt_of_le (by decide) hmin
  constructor
  · rw [bufferedMultipart, calculateChunkSize_eq hlen64, Option.bind_eq_bind, Option.bind_some,
      mapM_eq_some (bufferedPart_of_mem_stepBy hlen hmin hmax), ← List.map_map (f := Prod.snd),
      List.zipIdx_map_snd, stepBy, List.length_map, List.length_range, ← List.range_eq_range']
    rfl
  · rw [copyObjectMultipart, calculateChunkSize_eq hlen64, Option.bind_eq_bind, Option.bind_some,
      divCeilU64_eq hlen64 hpos, Option.bind_some]
    exact mapM_eq_some fun i hi => copyPart_eq hlen hmin hmax (List.mem_range.mp hi)

theorem map_range_planOf (len chunkSize : Nat) :
    (planOf len chunkSize).map PlannedPart.range = Tiles.pieces len chunkSize := by
  rw [planOf, List.map_map]
  rfl

/-- A plan of equal chunks is accepted unless it has too many of them. -/
theorem acceptable_planOf_iff {chunkSize : Nat} (hlen : 0 < len) (hmin : s3MinPartSize ≤ chunkSize)
    (hmax : chunkSize ≤ copyObjectMaxSize) :
    Acceptable len (planOf len chunkSize) ↔ len ≤ s3MaxParts * chunkSize := by
  have hpos : 0 < chunkSize := Nat.lt_of_lt_of_le (by decide) hmin
  have hlength : (planOf len chunkSize).length = Tiles.divCeil len chunkSize := by
    rw [planOf, List.length_map, List.length_range]
  rw [← Tiles.divCeil_le_iff hpos, ← hlength]
  refine ⟨fun h => h.count, fun hcount => ?_⟩
  have hfill : Tiles.Fill 0 len ((planOf len chunkSize).map PlannedPart.range) := by
    rw [map_range_planOf]
    exact Tiles.fill_pieces hpos hlen
  refine ⟨hfill, ?_, fun i => ?_, fun p hp => ?_, fun p hp => ?_, hcount, ?_⟩
  · have hdisjoint := hfill.pairwise_disjoint
    rwa [List.pairwise_map] at hdisjoint
  · have hcovers := hfill.covers i
    simp only [List.mem_map, exists_exists_and_eq_and] at hcovers
    rw [← hcovers]
    omega
  · have hmem : p.range ∈ Tiles.pieces len chunkSize := by
      rw [← map_range_planOf]
      exact List.mem_map_of_mem hp
    exact Nat.le_trans (Tiles.size_le_of_mem_pieces hmem) hmax
  · have hmem : p.range ∈ (Tiles.pieces len chunkSize).dropLast := by
      rw [← map_range_planOf, ← List.map_dropLast]
      exact List.mem_map_of_mem hp
    rw [Tiles.size_eq_of_mem_dropLast hpos hmem]
    exact hmin
  · rw [hlength, planOf, List.map_map]
    rfl

/-- Without a configured chunk size there are never too many chunks. -/
theorem auto_chunks_fit (hlen : len ≤ s3MaxObjectSize) (hparts : maxPartsCount ≤ s3MaxParts) :
    len ≤ s3MaxParts * chunkSizeOf len 0 maxPartsCount := by
  rw [chunkSizeOf, if_neg (Nat.lt_irrefl 0), clampChunkSize]
  have hshare : len ≤ Tiles.divCeil len (max maxPartsCount 1) * max maxPartsCount 1 :=
    Tiles.le_divCeil_mul len (by omega)
  have hmax : max maxPartsCount 1 ≤ s3MaxParts := max_le hparts (by decide)
  have hfit : len ≤ s3MaxParts * Tiles.divCeil len (max maxPartsCount 1) := by
    rw [Nat.mul_comm]
    exact Nat.le_trans hshare (Nat.mul_le_mul_left _ hmax)
  have hlarge : s3MaxObjectSize ≤ s3MaxParts * copyObjectMaxSize := by decide
  rcases le_total (max (Tiles.divCeil len (max maxPartsCount 1)) s3MinPartSize) copyObjectMaxSize with h | h
  · rw [Nat.min_eq_left h]
    exact Nat.le_trans hfit (Nat.mul_le_mul_left _ (le_max_left _ _))
  · rw [Nat.min_eq_right h]
    exact Nat.le_trans hlen hlarge

end Plan

/-- **A multipart plan is acceptable to S3 unless the configured chunk size needs too many parts.** -/
theorem multipart_acceptable_iff (len configChunkSize maxPartsCount : Nat) (hpos : 1 ≤ len)
    (hlen : len ≤ s3MaxObjectSize) (hconfig : configChunkSize < 2 ^ 64)
    (hparts : 1 ≤ maxPartsCount ∧ maxPartsCount ≤ 10000) :
    ((∃ plan, bufferedMultipart len configChunkSize maxPartsCount = some plan ∧ Acceptable len plan) ∧
        ∃ plan, copyObjectMultipart len configChunkSize maxPartsCount = some plan ∧
          Acceptable len plan) ↔
      (configChunkSize = 0 ∨ len ≤ 10000 * clampChunkSize configChunkSize) := by
  obtain ⟨hbuffered, hcopy⟩ := @multipart_eq_planOf len configChunkSize maxPartsCount hlen
  obtain ⟨hmin, hmax⟩ := chunkSizeOf_bounds len configChunkSize maxPartsCount
  rw [hbuffered, hcopy]
  simp only [Option.some.injEq, exists_eq_left', and_self]
  rw [acceptable_planOf_iff hpos hmin hmax]
  by_cases hzero : configChunkSize = 0
  · subst hzero
    exact ⟨fun _ => Or.inl rfl, fun _ => auto_chunks_fit hlen hparts.2⟩
  · rw [chunkSizeOf, if_pos (Nat.pos_of_ne_zero hzero)]
    exact ⟨Or.inr, fun h => h.resolve_left hzero⟩

/-- An object of 6.5 GB is copied in chunks of 512 MiB. -/
theorem multipart_acceptable_incident :
    ((∃ plan, bufferedMultipart 6500000000 536870912 10000 = some plan ∧ Acceptable 6500000000 plan) ∧
        ∃ plan, copyObjectMultipart 6500000000 536870912 10000 = some plan ∧
          Acceptable 6500000000 plan) := by
  refine (multipart_acceptable_iff 6500000000 536870912 10000 (by decide) (by decide) (by decide)
    ⟨by decide, by decide⟩).mpr (Or.inr ?_)
  decide

/-- With a chunk size of 5 MiB an object of one byte more than 10000 chunks is cut into 10001. -/
theorem configured_chunks_exceed_limit :
    (¬∃ plan, bufferedMultipart 52428800001 5242880 10000 = some plan ∧ Acceptable 52428800001 plan) ∧
      ¬∃ plan, copyObjectMultipart 52428800001 5242880 10000 = some plan ∧
        Acceptable 52428800001 plan := by
  have hsize : chunkSizeOf 52428800001 5242880 10000 = 5242880 := by decide
  obtain ⟨hbuffered, hcopy⟩ := @multipart_eq_planOf 52428800001 5242880 10000 (by decide)
  have hnot : ¬Acceptable 52428800001 (planOf 52428800001 5242880) := by
    rw [acceptable_planOf_iff (by decide) (by decide) (by decide)]
    decide
  rw [hbuffered, hcopy, hsize]
  simp only [Option.some.injEq, exists_eq_left']
  exact ⟨hnot, hnot⟩

end Chbackup
