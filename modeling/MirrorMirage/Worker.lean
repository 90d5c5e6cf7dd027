import MirrorMirage.Config
import MirrorMirage.Providers.Base

/-!
# What the queue worker makes of a purge

The part of `_queue_worker` between the end of `provider.purge` and the call
that writes the row back, and `exponential_backoff` of `queue.py`.
-/

namespace MirrorMirage.Worker

open MirrorMirage.Providers

/-- `exponential_backoff(attempts, initial=.., ceiling=..)` with its two
exceptions: `ValueError`, and `OverflowError` when the power of two is too
large for a float. -/
def exponentialBackoff (attempts : ℕ) (initial ceiling : ℚ) :
    Except String ℚ :=
  if attempts < 1 then .error "attempts must be >= 1"
  else if 1024 ≤ attempts - 1 then .error "int too large to convert to float"
  else .ok (min (initial * 2 ^ (attempts - 1)) ceiling)

/-- The call that the worker writes the row back with. -/
inductive Settlement where
  | markDone
  | reschedule (attempts : ℕ) (backoff : ℚ)
  | markFailed (message : String)
  deriving DecidableEq, Repr

/-- The result of a purge, whose exceptions are caught. -/
def caught : Except String PurgeResult → PurgeResult
  | .ok result => result
  | .error error => ⟨false, true, "provider raised: " ++ error⟩

/-- The branches of the worker; an error ends it. -/
def settle (retry : RetryConfig) (attempt : ℕ) (result : PurgeResult) :
    Except String Settlement :=
  if result.ok then .ok .markDone
  else if result.retryable ∧ (attempt : ℤ) < retry.maxAttempts then
    (exponentialBackoff attempt retry.initialBackoffSeconds
      retry.maxBackoffSeconds).map (.reschedule attempt)
  else .ok (.markFailed result.message)

/-- The worker takes the branch of a retry. -/
def Retried (retry : RetryConfig) (attempt : ℕ) (result : PurgeResult) : Prop :=
  result.ok = false ∧ result.retryable = true ∧
    (attempt : ℤ) < retry.maxAttempts

section Branches

variable {retry : RetryConfig} {attempt : ℕ} {result : PurgeResult}

theorem settle_markDone_iff :
    settle retry attempt result = .ok .markDone ↔ result.ok = true := by
  unfold settle
  split
  · simp [*]
  · rename_i hok
    refine iff_of_false ?_ hok
    split
    · cases exponentialBackoff attempt retry.initialBackoffSeconds
        retry.maxBackoffSeconds <;> simp [Except.map]
    · simp

theorem exponentialBackoff_ok {initial ceiling backoff : ℚ}
    (hbackoff : exponentialBackoff attempt initial ceiling = .ok backoff) :
    backoff = min (initial * 2 ^ (attempt - 1)) ceiling := by
  unfold exponentialBackoff at hbackoff
  split at hbackoff
  · cases hbackoff
  · split at hbackoff <;> cases hbackoff
    rfl

theorem settle_reschedule {number : ℕ} {backoff : ℚ}
    (hsettle : settle retry attempt result =
      .ok (.reschedule number backoff)) :
    number = attempt ∧ (attempt : ℤ) < retry.maxAttempts ∧
      backoff = min (retry.initialBackoffSeconds * 2 ^ (attempt - 1))
        retry.maxBackoffSeconds := by
  unfold settle at hsettle
  split at hsettle
  · cases hsettle
  · split at hsettle
    · rename_i hretry
      cases hcase : exponentialBackoff attempt retry.initialBackoffSeconds
        retry.maxBackoffSeconds with
      | error error => simp [hcase, Except.map] at hsettle
      | ok found =>
          simp only [hcase, Except.map, Except.ok.injEq,
            Settlement.reschedule.injEq] at hsettle
          obtain ⟨rfl, rfl⟩ := hsettle
          exact ⟨rfl, hretry.2, exponentialBackoff_ok hcase⟩
    · cases hsettle

theorem settle_markFailed {message : String}
    (hsettle : settle retry attempt result = .ok (.markFailed message)) :
    result.ok = false ∧
      (result.retryable = true → retry.maxAttempts ≤ attempt) := by
  unfold settle at hsettle
  split at hsettle
  · cases hsettle
  · rename_i hok
    split at hsettle
    · cases hcase : exponentialBackoff attempt retry.initialBackoffSeconds
        retry.maxBackoffSeconds <;> simp [hcase, Except.map] at hsettle
    · rename_i hretry
      exact ⟨by simpa using hok, fun hretryable =>
        not_lt.mp fun hlt => hretry ⟨hretryable, hlt⟩⟩

theorem settle_of_terminal (hverdict : result.verdict = .terminal) :
    settle retry attempt result = .ok (.markFailed result.message) := by
  simp [settle, verdict_eq_terminal.mp hverdict]

theorem settle_of_retryable (hverdict : result.verdict = .retryable) :
    settle retry attempt result =
      if (attempt : ℤ) < retry.maxAttempts then
        (exponentialBackoff attempt retry.initialBackoffSeconds
          retry.maxBackoffSeconds).map (.reschedule attempt)
      else .ok (.markFailed result.message) := by
  simp [settle, verdict_eq_retryable.mp hverdict]

theorem retried_iff {settlement : Settlement}
    (hsettle : settle retry attempt result = .ok settlement) :
    Retried retry attempt result ↔
      ∃ backoff, settlement = .reschedule attempt backoff := by
  constructor
  · intro hretried
    cases settlement with
    | markDone =>
        have hok := settle_markDone_iff.mp hsettle
        simp [hretried.1] at hok
    | reschedule attempts backoff =>
        obtain ⟨rfl, -⟩ := settle_reschedule hsettle
        exact ⟨backoff, rfl⟩
    | markFailed message =>
        have hlast := (settle_markFailed hsettle).2 hretried.2.1
        exact absurd hretried.2.2 hlast.not_gt
  · rintro ⟨backoff, rfl⟩
    unfold settle at hsettle
    split at hsettle
    · cases hsettle
    · rename_i hok
      split at hsettle
      · exact ⟨by simpa using hok, ‹_›⟩
      · cases hsettle

theorem settle_ok_iff (hattempt : 1 ≤ attempt) :
    (∃ settlement, settle retry attempt result = .ok settlement) ↔
      (Retried retry attempt result → attempt ≤ 1024) := by
  unfold settle Retried
  split
  · simp [*]
  · rename_i hok
    split
    · rename_i hretry
      have hbackoff : (∃ settlement,
          (exponentialBackoff attempt retry.initialBackoffSeconds
            retry.maxBackoffSeconds).map (Settlement.reschedule attempt) =
              .ok settlement) ↔ attempt ≤ 1024 := by
        rw [exponentialBackoff, if_neg (by omega)]
        split <;> simp [Except.map] <;> omega
      simp [hbackoff, hok, hretry]
    · rename_i hretry
      simpa using fun _ hretryable hlt => absurd ⟨hretryable, hlt⟩ hretry

end Branches

end MirrorMirage.Worker
