import Chbackup.Storage.CopyStores

/-!
# Uploads that are tried again

`retry_with_backoff` runs an operation until it succeeds, at most `max_retries + 1` times, and waits between
two attempts for a time that doubles.  An object that is uploaded so is at every moment what it was or what is
uploaded (`put_retried`): an attempt that fails may still have stored the object, and the next one stores the
same.
-/

namespace Chbackup

open CallTree Prog World

/-! ## The source -/

/-- `RetryConfig`. -/
structure RetryConfig where
  maxRetries : Nat
  baseDelaySecs : Nat

/-- `saturating_mul` of two numbers of 64 bits. -/
def saturatingMulU64 (a b : Nat) : Nat := min (a * b) (2 ^ 64 - 1)

/-- The delay after an attempt, in milliseconds. -/
def RetryConfig.delayMs (retry : RetryConfig) (attempt : Nat) : Nat :=
  saturatingMulU64 (saturatingMulU64 retry.baseDelaySecs 1000) (min (2 ^ attempt) (2 ^ 64 - 1))

section Retry

variable {α : Type} (retry : RetryConfig) (opName contextMsg : Str) (f : CopyProg α) (totalAttempts : Nat)

/-- The loop over the attempts, of which so many are left. -/
def retryFrom : Nat → CopyProg α
  | 0 => .fail "retry loop should have returned"
  | left + 1 =>
    let attempt := totalAttempts - (left + 1)
    f.attempt.bind fun (outcome : Except Str α) =>
      match outcome with
      | .ok val => .ret val
      | .error e =>
        if attempt < totalAttempts - 1 then
          (perform (CopyCall.applyJitter (retry.delayMs attempt))).bind fun (actualDelay : Nat) =>
            (perform (CopyCall.sleep actualDelay)).bind fun _ => retryFrom left
        else
          .fail (withContext
            (opName ++ (" failed after " : Str) ++ decimal totalAttempts ++ (" attempts: " : Str) ++ contextMsg) e)

/-- `retry_with_backoff`. -/
def retryWithBackoff : CopyProg α :=
  let totalAttempts := retry.maxRetries + 1
  if 2 ^ 32 ≤ totalAttempts then .fail "arithmetic overflow"
  else retryFrom retry opName contextMsg f totalAttempts totalAttempts

end Retry

/-- `put_object_with_retry`. -/
def S3Client.putObjectWithRetry (c : S3Client) (key : Str) (body : List UInt8) (retry : RetryConfig) : CopyProg Unit :=
  retryWithBackoff retry "PutObject" (fullKey c.keyPrefix key) (c.putObject key body)

/-! ## The attempts -/

/-- An object is uploaded. -/
def isPut : CopyEvent → Bool
  | ⟨.send _ (.putObject _ _ _ _), _⟩ => true
  | _ => false

/-- At every moment of an upload: no other object has changed, and the object is what it was or the new one. -/
structure PutInvariant (s₀ : S3State) (dest : S3Address) (o : S3StoredObject) (s : S3State) : Prop where
  elsewhere : ∀ a, a ≠ dest → s.objects a = s₀.objects a
  atDest : s.objects dest = s₀.objects dest ∨ s.objects dest = some o

/-- The delay that is asked for belongs to the last attempt. -/
def DelayFits (retry : RetryConfig) (x : S3State × List CopyEvent) : CopyCall → Prop
  | .applyJitter ms => ms = retry.delayMs (x.2.countP isPut - 1)
  | _ => True

section Put

variable {retry : RetryConfig} {c : S3Client} {key : Str} {body : List UInt8} {s₀ : S3State} {dest : S3Address}
  {o : S3StoredObject} {total n : Nat} {x : S3State × List CopyEvent}

/-- So many attempts were made. -/
structure AfterPuts (s₀ : S3State) (dest : S3Address) (o : S3StoredObject) (n : Nat) (x : S3State × List CopyEvent) : Prop where
  invariant : PutInvariant s₀ dest o x.1
  puts : x.2.countP isPut = n

/-- At every moment of the attempts. -/
def UploadMoment (s₀ : S3State) (dest : S3Address) (o : S3StoredObject) (total : Nat) (x : S3State × List CopyEvent) : Prop :=
  PutInvariant s₀ dest o x.1 ∧ x.2.countP isPut ≤ total

theorem AfterPuts.moment (h : AfterPuts s₀ dest o n x) (hn : n ≤ total) : UploadMoment s₀ dest o total x :=
  ⟨h.invariant, Nat.le_trans (Nat.le_of_eq h.puts) hn⟩

/-- Waiting is no attempt. -/
theorem AfterPuts.next (h : AfterPuts s₀ dest o n x) {ev : CopyEvent} (hput : isPut ev = false)
    (hobjects : (s3World.next x.1 ev).objects = x.1.objects) : AfterPuts s₀ dest o n (s3World.recording.next x ev) := by
  refine ⟨⟨fun a ha => ?_, ?_⟩, ?_⟩
  · show (s3World.next x.1 ev).objects a = s₀.objects a
    rw [hobjects]
    exact h.invariant.elsewhere a ha
  · show (s3World.next x.1 ev).objects dest = s₀.objects dest ∨ (s3World.next x.1 ev).objects dest = some o
    rw [hobjects]
    exact h.invariant.atDest
  · rw [countP_recording_next, h.puts, hput]
    rfl

/-- An attempt stores the object, or leaves what is there. -/
theorem afterPuts_putObject (hdest : c.destAddress key = dest) (ho : o = ⟨body, c.objectOptions⟩) (hn : n + 1 ≤ total)
    (h : AfterPuts s₀ dest o n x) :
    s3World.recording.Meets (UploadMoment s₀ dest o total) (DelayFits retry)
      (fun _ x' => AfterPuts s₀ dest o (n + 1) x' ∧ x'.1.objects dest = some o) (fun _ x' => AfterPuts s₀ dest o (n + 1) x') x
      (c.putObject key body) := by
  have heffect : ∀ (v : Option Unit) s', x.1.effect? (.putObject c.bucket (fullKey c.keyPrefix key) body c.objectOptions) v =
      some s' → PutInvariant s₀ dest o s' ∧ s'.objects dest = some o := by
    intro v s' hs'
    have hstore : x.1.store dest o = s' := by
      rw [← hdest, ho]
      exact Option.some.inj hs'
    have hstored : s'.objects dest = some o := by rw [← hstore, S3State.store_objects_self]
    refine ⟨⟨fun a ha => ?_, .inr hstored⟩, hstored⟩
    rw [← hstore, S3State.store_objects_of_ne ha]
    exact h.invariant.elsewhere a ha
  have hafter : ∀ r : Served Unit, AfterPuts s₀ dest o (n + 1)
      (s3World.recording.next x ⟨.send none (.putObject c.bucket (fullKey c.keyPrefix key) body c.objectOptions), r⟩) := by
    intro r
    refine ⟨?_, ?_⟩
    · show PutInvariant s₀ dest o
        (x.1.served (.putObject c.bucket (fullKey c.keyPrefix key) body c.objectOptions) r)
      exact S3State.served_of_effect (fun _ _ hs => ⟨hs.elsewhere, hs.atDest⟩) h.invariant
        fun v s' hs' => (heffect v s' hs').1
    · rw [countP_recording_next, h.puts]
      rfl
  refine meets_sendOrFail (.putObject c.bucket (fullKey c.keyPrefix key) body c.objectOptions)
    (h.moment (Nat.le_of_succ_le hn)) trivial (fun r _ => (hafter r).moment hn) ?_ (fun r _ _ _ => hafter r)
    fun r _ _ _ => hafter r
  intro r a hr ha
  refine ⟨hafter r, ?_⟩
  obtain ⟨s', hs', heq, -⟩ := S3State.served_of_ok hr.2 ha
  show (x.1.served _ r).objects dest = some o
  rw [heq]
  exact (heffect _ s' hs').2

theorem afterPuts_retryFrom {opName contextMsg : Str} (hdest : c.destAddress key = dest) (ho : o = ⟨body, c.objectOptions⟩)
    {left : Nat} (hleft : n + left = total) (hpos : 0 < left) (h : AfterPuts s₀ dest o n x) :
    s3World.recording.Meets (UploadMoment s₀ dest o total) (DelayFits retry) (fun _ x' => x'.1.objects dest = some o)
      (fun _ x' => x'.2.countP isPut = total) x
      (retryFrom retry opName contextMsg (c.putObject key body) total left) := by
  induction left generalizing n x with
  | zero => exact absurd hpos (Nat.lt_irrefl 0)
  | succ left ih =>
    have hn : n + 1 ≤ total := by omega
    refine (afterPuts_putObject hdest ho hn h).attempt.bind fun outcome x' hx' houtcome => ?_
    cases outcome with
    | ok a => exact meets_ret hx' (houtcome.1 a rfl).2
    | error e =>
      have h' := houtcome.2 e rfl
      have hattempt : total - (left + 1) = n := by omega
      dsimp only
      rw [hattempt]
      split_ifs with hmore
      · refine meets_perform hx' ?_ fun d _ => ?_
        · show retry.delayMs n = retry.delayMs (x'.2.countP isPut - 1)
          rw [h'.puts, Nat.add_sub_cancel]
        · have h'' : AfterPuts s₀ dest o (n + 1) (s3World.recording.next x' ⟨.applyJitter (retry.delayMs n), d⟩) :=
            h'.next rfl rfl
          refine meets_perform (h''.moment hn) trivial fun time _ => ?_
          have h3 : AfterPuts s₀ dest o (n + 1) (s3World.recording.next _ ⟨.sleep d, time⟩) := h''.next rfl rfl
          exact ih (by omega) (by omega) h3
      · refine meets_fail hx' ?_
        rw [h'.puts]
        omega

/-- A sum that overflows ends the upload before its first attempt. -/
theorem no_attempt_of_overflow {t : List CopyEvent} {e : End Str Unit} (hmax : 2 ^ 32 ≤ retry.maxRetries + 1)
    (hrun : Runs (c.putObjectWithRetry key body retry) t e) : t = [] ∧ e ≠ .returned () := by
  rw [S3Client.putObjectWithRetry, retryWithBackoff, if_pos hmax] at hrun
  cases hrun with
  | fail => exact ⟨rfl, fun h => by cases h⟩
  | cut => exact ⟨rfl, fun h => by cases h⟩

/-- **An upload that is tried again.**  At every moment no other object has changed, and the object is what it
was or the new one; it is the new one when the upload succeeds.  There are at most `max_retries + 1` attempts,
and the upload fails only after all of them, unless their number overflows.  The delay after an attempt is the
one of its number. -/
theorem put_retried (c : S3Client) (key : Str) (body : List UInt8) (retry : RetryConfig) {s : S3State}
    {t : List CopyEvent} {e : End Str Unit} (hrun : Runs (c.putObjectWithRetry key body retry) t e)
    (hlegal : s3World.Legal s t) :
    PutInvariant s (c.destAddress key) ⟨body, c.objectOptions⟩ (s3World.after s t) ∧
      t.countP isPut ≤ retry.maxRetries + 1 ∧
      (e = .returned () → (s3World.after s t).objects (c.destAddress key) = some ⟨body, c.objectOptions⟩) ∧
      (∀ text, e = .failed text → retry.maxRetries + 1 < 2 ^ 32 → t.countP isPut = retry.maxRetries + 1) ∧
      ∀ t₁ ms d t₂, t = t₁ ++ ⟨.applyJitter ms, d⟩ :: t₂ → ms = retry.delayMs (t₁.countP isPut - 1) := by
  have hsame : PutInvariant s (c.destAddress key) ⟨body, c.objectOptions⟩ s := ⟨fun _ _ => rfl, .inl rfl⟩
  rcases Nat.lt_or_ge (retry.maxRetries + 1) (2 ^ 32) with hmax | hmax
  · have hstart : AfterPuts s (c.destAddress key) ⟨body, c.objectOptions⟩ 0 (s, []) := ⟨hsame, rfl⟩
    rw [S3Client.putObjectWithRetry, retryWithBackoff, if_neg (Nat.not_le.mpr hmax)] at hrun
    obtain ⟨hmoment, hend, hcalls⟩ := (afterPuts_retryFrom rfl rfl (Nat.zero_add _) (Nat.succ_pos _) hstart).runs hrun
      (recording_legal s3World [] hlegal)
    rw [recording_after, List.nil_append] at hmoment hend
    refine ⟨hmoment.1, hmoment.2, ?_, ?_, fun t₁ ms d t₂ ht => ?_⟩
    · rintro rfl
      exact hend
    · rintro text rfl -
      exact hend
    · have hcall := hcalls t₁ (.applyJitter ms) d t₂ ht
      rw [recording_after, List.nil_append] at hcall
      exact hcall
  · obtain ⟨rfl, hreturned⟩ := no_attempt_of_overflow hmax hrun
    refine ⟨hsame, Nat.zero_le _, fun he => absurd he hreturned, fun _ _ hlt => absurd hmax (Nat.not_le.mpr hlt),
      fun t₁ ms d t₂ ht => ?_⟩
    exact absurd ht.symm (List.append_ne_nil_of_right_ne_nil t₁ (List.cons_ne_nil _ _))

/-! ## An upload that is tried twice -/

/-- The first attempt fails, although it has stored the object. -/
def retriedPut : List CopyEvent :=
  [⟨.send none (.putObject "b" "k" [7] plainClient.objectOptions), ⟨.error "SlowDown", 1, true⟩⟩,
    ⟨.applyJitter 1000, (1200 : Nat)⟩,
    ⟨.sleep 1200, (1200000000 : Nat)⟩,
    ⟨.send none (.putObject "b" "k" [7] plainClient.objectOptions), ⟨.ok (), 1, true⟩⟩]

theorem retriedPut_runs : Runs (plainClient.putObjectWithRetry "k" [7] ⟨1, 1⟩) retriedPut (.returned ()) :=
  .call _ (.call _ (.call _ (.call _ (.ret ()))))

theorem retriedPut_legal : s3World.Legal bucketOfOne retriedPut := by
  refine ⟨⟨⟨fun d hd => ?_, fun figures h => ?_⟩, fun a ha => ?_⟩, trivial, Nat.le_refl _,
    ⟨⟨fun d hd => ?_, fun figures h => ?_⟩, fun a ha => ?_⟩, trivial⟩
  · cases hd
  · cases h
  · cases ha
  · cases hd
  · cases h
  · exact ⟨rfl, rfl, trivial⟩

/-- The object is stored. -/
theorem retriedPut_stored :
    (s3World.after bucketOfOne retriedPut).objects (plainClient.destAddress "k") =
      some ⟨[7], plainClient.objectOptions⟩ :=
  (put_retried plainClient "k" [7] ⟨1, 1⟩ retriedPut_runs retriedPut_legal).2.2.1 rfl

end Put

end Chbackup
