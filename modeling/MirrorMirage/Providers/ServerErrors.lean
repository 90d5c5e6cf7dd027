import MirrorMirage.Providers.Transient

/-!
# Server errors of CloudFront

`docs/cdn-providers.md` has CloudFront errors retried by their code and, where
the status is 5xx, by their status.  The provider looks at the code only, so a
5xx whose code is in no list is terminal (`server_errors_are_retried_iff`).
-/

namespace MirrorMirage.Providers.CloudFront

open MirrorMirage.UrlParse MirrorMirage.Worker

/-- What the response of a `ClientError` says: its `HTTPStatusCode`, and its
`Error.Code` if it has one. -/
structure ErrorResponse where
  httpStatusCode : ℕ
  code : Option String
  deriving DecidableEq, Repr

/-- `e.response.get("Error", {}).get("Code", "")`. -/
def ErrorResponse.codeText (response : ErrorResponse) : String :=
  response.code.getD ""

/-- The call in the thread raises the `ClientError` that prints as `error`. -/
def ErrorResponse.ending (response : ErrorResponse) (error : String) :
    Ending :=
  .clientError response.httpStatusCode response.codeText error

/-- `create_invalidation` is called for the batch and raises. -/
def Raised (tables : Tables) (response : ErrorResponse) (error : String)
    (urls : List String) : Prop :=
  ∃ batch, (batch, (response.ending error).outcome) ∈
    invalidations tables (response.ending error).outcome urls

def ErrorResponse.isServerError (response : ErrorResponse) : Bool :=
  500 ≤ response.httpStatusCode && response.httpStatusCode < 600

def ErrorResponse.isListed (response : ErrorResponse) : Bool :=
  response.codeText ∈ retryableCodes

/-- The worker does not give up on the result before the last attempt. -/
def Lasting (result : PurgeResult) : Prop :=
  ∀ (retry : RetryConfig) (attempt : ℕ), (attempt : ℤ) < retry.maxAttempts →
    ∀ message, settle retry attempt result ≠ .ok (.markFailed message)

/-- The classification of the documents. -/
def Classified (response : ErrorResponse) (result : PurgeResult) : Prop :=
  if response.isServerError ∨ response.isListed then
    result.verdict = .retryable ∧ Lasting result
  else result.verdict = .terminal

/-! ## The classification -/

section Classification

variable {tables : Tables} {response : ErrorResponse} {error : String}
variable {urls : List String} {result : PurgeResult}

/-- A purge judges the exception by its code. -/
theorem purge_of_raised (hraised : Raised tables response error urls) :
    purge tables (response.ending error).outcome urls =
      .ok ⟨false, response.isListed, response.codeText ++ ": " ++ error⟩ := by
  obtain ⟨batch, hbatch⟩ := hraised
  unfold invalidations at hbatch
  unfold purge
  split at hbatch
  · cases hbatch
  · rename_i hurls
    rw [if_neg hurls]
    split at hbatch
    · cases hbatch
    · rfl

theorem lasting_of_retryable (hverdict : result.verdict = .retryable) :
    Lasting result := by
  intro retry attempt hattempt message hsettle
  have hlast := (settle_markFailed hsettle).2 (verdict_eq_retryable.mp hverdict).2
  exact absurd hattempt hlast.not_gt

/-- For every batch and every `ClientError` of its invalidation: the purge and
the worker do with it what the documents say if and only if a 5xx has a code
that is listed. -/
theorem server_errors_are_retried_iff
    (hraised : Raised tables response error urls) :
    (∃ result, purge tables (response.ending error).outcome urls =
        .ok result ∧ Classified response result) ↔
      (response.isServerError → response.isListed) := by
  rw [purge_of_raised hraised]
  simp only [Except.ok.injEq, exists_eq_left']
  unfold Classified
  by_cases hlisted : response.isListed = true
  · have hverdict : (PurgeResult.mk false response.isListed
        (response.codeText ++ ": " ++ error)).verdict = .retryable :=
      verdict_eq_retryable.mpr ⟨rfl, hlisted⟩
    rw [if_pos (.inr hlisted)]
    exact iff_of_true ⟨hverdict, lasting_of_retryable hverdict⟩
      fun _ => hlisted
  · have hverdict : (PurgeResult.mk false response.isListed
        (response.codeText ++ ": " ++ error)).verdict = .terminal :=
      verdict_eq_terminal.mpr ⟨rfl, by simpa using hlisted⟩
    rw [hverdict]
    by_cases hserver : response.isServerError = true <;>
      simp [hserver, hlisted]

/-- A 503 whose code is listed, and a 403 whose code is not. -/
theorem server_errors_are_retried_iff_sample :
    (∃ result, purge asciiTables
        ((⟨503, some "ServiceUnavailable"⟩ : ErrorResponse).ending "e").outcome
          ["https://a/x"] = .ok result ∧
        Classified ⟨503, some "ServiceUnavailable"⟩ result) ∧
      ∃ result, purge asciiTables
        ((⟨403, some "AccessDenied"⟩ : ErrorResponse).ending "e").outcome
          ["https://a/x"] = .ok result ∧
        Classified ⟨403, some "AccessDenied"⟩ result := by
  have hbatch : paths asciiTables ["https://a/x"] = some ⟨1, ["/x"]⟩ := by
    decide +kernel
  have hraised : ∀ response, Raised asciiTables response "e" ["https://a/x"] :=
    fun response => ⟨⟨1, ["/x"]⟩, by simp [invalidations, hbatch]⟩
  exact ⟨(server_errors_are_retried_iff (hraised _)).mpr (by decide),
    (server_errors_are_retried_iff (hraised _)).mpr (by decide)⟩

/-- A 502 whose code is not listed drops the batch at the first attempt. -/
theorem bad_gateway_is_terminal :
    ¬ ∀ (tables : Tables) (response : ErrorResponse) (error : String)
        (urls : List String), Raised tables response error urls →
      ∃ result, purge tables (response.ending error).outcome urls =
        .ok result ∧ Classified response result := by
  intro hclaim
  have hbatch : paths asciiTables ["https://a/x"] = some ⟨1, ["/x"]⟩ := by
    decide +kernel
  obtain ⟨result, hpurge, hclassified⟩ := hclaim asciiTables
    ⟨502, some "502"⟩ "Bad Gateway" ["https://a/x"]
    ⟨⟨1, ["/x"]⟩, by simp [invalidations, hbatch]⟩
  have hterminal : purge asciiTables
      ((⟨502, some "502"⟩ : ErrorResponse).ending "Bad Gateway").outcome
        ["https://a/x"] = .ok ⟨false, false, "502: Bad Gateway"⟩ := by
    decide +kernel
  rw [hterminal, Except.ok.injEq] at hpurge
  subst hpurge
  rw [Classified, if_pos (.inl (by decide))] at hclassified
  cases hclassified.1

end Classification

end MirrorMirage.Providers.CloudFront
