import MirrorMirage.Providers.CloudFront
import MirrorMirage.Providers.Fastly
import MirrorMirage.Providers.Gcp
import MirrorMirage.Worker

/-!
# A job is done only when all of it was purged

The worker's branches joined to the three providers: what an attempt has asked
the CDN for, and what the CDN made of it, decides what becomes of the row.
-/

namespace MirrorMirage.Providers

open MirrorMirage.UrlParse MirrorMirage.Worker

/-- One attempt at a job: the provider of its CDN, and how the calls that it
makes end. -/
inductive Attempt where
  | fastly (provider : Fastly.Provider) (cache : Option (List String))
      (calls : Fastly.Calls)
  | gcp (calls : Gcp.Calls)
  | cloudFront (outcome : CloudFront.CallOutcome)

/-- `provider.purge(urls)`; `none` says that some call has not ended. -/
def Attempt.purge (tables : Tables) (urls : List String) :
    Attempt → Option (Except String PurgeResult)
  | .fastly provider cache calls =>
      Fastly.purge tables provider cache calls urls
  | .gcp calls => Gcp.purge tables calls urls
  | .cloudFront outcome => some (CloudFront.purge tables outcome urls)

/-- Every URL was accepted by the CDN in this attempt. -/
def Attempt.Accepted (tables : Tables) (urls : List String) : Attempt → Prop
  | .fastly provider cache calls =>
      Fastly.Accepted tables provider cache calls urls
  | .gcp calls => Gcp.Accepted tables calls urls
  | .cloudFront outcome => CloudFront.Accepted tables outcome urls

/-- The verdicts of the calls that a provider makes one by one for its URLs;
CloudFront makes none. -/
def Attempt.verdicts (tables : Tables) (urls : List String) :
    Attempt → List Verdict
  | .fastly provider cache calls =>
      (Fastly.posts tables provider cache calls urls).map fun post =>
        (readReply Fastly.retryableStatus post.2).verdict
  | .gcp calls =>
      (Gcp.attempts tables calls urls).map fun attempt =>
        (Gcp.readCall attempt.2).verdict
  | .cloudFront _ => []

section Attempts

variable {tables : Tables} {urls : List String} {attempt : Attempt}
variable {result : PurgeResult}

theorem Attempt.accepted_of_ok (hurls : urls ≠ [])
    (hpurge : attempt.purge tables urls = some (.ok result))
    (hok : result.ok = true) : attempt.Accepted tables urls := by
  cases attempt with
  | fastly provider cache calls =>
      exact Fastly.accepted_of_ok hurls hpurge hok
  | gcp calls => exact Gcp.accepted_of_ok hurls hpurge hok
  | cloudFront outcome =>
      exact CloudFront.accepted_of_ok hurls (Option.some.inj hpurge) hok

/-- Once there is a call, the result is the summary of the calls. -/
theorem Attempt.verdict_eq (hurls : urls ≠ [])
    (hpurge : attempt.purge tables urls = some (.ok result))
    (hcalled : attempt.verdicts tables urls ≠ []) :
    result.verdict =
      if .terminal ∈ attempt.verdicts tables urls then .terminal
      else if .retryable ∈ attempt.verdicts tables urls then .retryable
      else .accepted := by
  cases attempt with
  | fastly provider cache calls =>
      cases htargets : Fastly.targets tables provider cache calls urls with
      | error error =>
          simp [verdicts, Fastly.posts, htargets] at hcalled
      | ok found =>
          cases found with
          | error early =>
              simp [verdicts, Fastly.posts, htargets] at hcalled
          | ok found =>
              rw [(Fastly.purge_summary hurls htargets hpurge).1,
                summarize_verdict, List.map_map]
              rfl
  | gcp calls =>
      rw [(Gcp.purge_summary hurls hpurge).1, summarize_verdict, List.map_map]
      rfl
  | cloudFront outcome => exact absurd rfl hcalled

end Attempts

/-- For a job with at least one URL and an attempt whose calls have ended in
any way and order.  The worker marks the row as done only if every URL was
accepted.  When some call that Fastly or GCP made for a URL has failed, the
result is terminal if and only if some call failed terminally; then the row
becomes failed, and else the worker reschedules it while attempts are left. -/
theorem job_done_only_if_purged {tables : Tables} {retry : RetryConfig}
    {urls : List String} (hurls : urls ≠ []) {attempt : Attempt}
    {outcome : Except String PurgeResult}
    (hpurge : attempt.purge tables urls = some outcome) (number : ℕ) :
    (settle retry number (caught outcome) = .ok .markDone →
      attempt.Accepted tables urls) ∧
    ∀ result, outcome = .ok result →
      (∃ verdict ∈ attempt.verdicts tables urls, verdict ≠ .accepted) →
        result.ok = false ∧
        (result.retryable = false ↔
          .terminal ∈ attempt.verdicts tables urls) ∧
        (.terminal ∈ attempt.verdicts tables urls →
          settle retry number result = .ok (.markFailed result.message)) ∧
        (.terminal ∉ attempt.verdicts tables urls →
          settle retry number result =
            if (number : ℤ) < retry.maxAttempts then
              (exponentialBackoff number retry.initialBackoffSeconds
                retry.maxBackoffSeconds).map (.reschedule number)
            else .ok (.markFailed result.message)) := by
  constructor
  · intro hdone
    rw [settle_markDone_iff] at hdone
    cases outcome with
    | error error => cases hdone
    | ok result => exact Attempt.accepted_of_ok hurls hpurge hdone
  · rintro result rfl ⟨verdict, hmem, hfailed⟩
    have hverdict := Attempt.verdict_eq hurls hpurge
      (List.ne_nil_of_mem hmem)
    by_cases hterminal : Verdict.terminal ∈ attempt.verdicts tables urls
    · rw [if_pos hterminal] at hverdict
      have hfields := verdict_eq_terminal.mp hverdict
      exact ⟨hfields.1, iff_of_true hfields.2 hterminal,
        fun _ => settle_of_terminal hverdict, absurd hterminal⟩
    · have hretryable : Verdict.retryable ∈ attempt.verdicts tables urls := by
        cases verdict with
        | accepted => exact absurd rfl hfailed
        | retryable => exact hmem
        | terminal => exact absurd hmem hterminal
      rw [if_neg hterminal, if_pos hretryable] at hverdict
      have hfields := verdict_eq_retryable.mp hverdict
      exact ⟨hfields.1, iff_of_false (by simp [hfields.2]) hterminal,
        fun hmem => absurd hmem hterminal,
        fun _ => settle_of_retryable hverdict⟩

/-- Two GCP calls, the second of which ends first and finds no token. -/
theorem job_done_only_if_purged_sample :
    let urls := ["https://a/x", "https://a/y"]
    let attempt : Attempt := .gcp ⟨fun place =>
      if place = 0 then .post (.status 200) else .auth "no key", [1, 0]⟩
    ∃ result, attempt.purge asciiTables urls = some (.ok result) ∧
      settle {} 1 result = .ok (.markFailed "auth: no key") := by
  intro urls attempt
  have hpurge : attempt.purge asciiTables urls =
      some (.ok ⟨false, false, "auth: no key"⟩) := by decide +kernel
  have hterminal : Verdict.terminal ∈ attempt.verdicts asciiTables urls := by
    decide +kernel
  refine ⟨_, hpurge, ?_⟩
  exact ((job_done_only_if_purged (by decide) hpurge 1).2 _ rfl
    ⟨.terminal, hterminal, by decide⟩).2.2.1 hterminal

end MirrorMirage.Providers
