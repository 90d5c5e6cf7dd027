import Mathlib.Data.List.Basic

/-!
# What the providers share

`providers/base.py`, and the two pieces of code that the Fastly and the GCP
provider have in common: the reading of a response and the summary of a batch.
-/

namespace MirrorMirage.Providers

/-- Outcome of a single `CdnProvider.purge` call. -/
structure PurgeResult where
  ok : Bool
  retryable : Bool
  message : String := ""
  deriving DecidableEq, Repr

/-- What becomes of a request: a response status, or `httpx.HTTPError`. -/
inductive Reply where
  | status (code : ℕ)
  | transport (error : String)
  deriving DecidableEq, Repr

def isSuccess (code : ℕ) : Bool := 200 ≤ code && code < 300

def Reply.isSuccess : Reply → Bool
  | .status code => Providers.isSuccess code
  | .transport _ => false

/-- What a single call amounts to. -/
inductive Verdict where
  | accepted
  | retryable
  | terminal
  deriving DecidableEq, Repr

def PurgeResult.verdict (result : PurgeResult) : Verdict :=
  if result.ok then .accepted
  else if result.retryable then .retryable
  else .terminal

section Verdicts

variable {result : PurgeResult}

theorem verdict_eq_accepted : result.verdict = .accepted ↔ result.ok = true := by
  unfold PurgeResult.verdict
  split <;> simp_all
  split <;> simp

theorem verdict_eq_retryable : result.verdict = .retryable ↔
    result.ok = false ∧ result.retryable = true := by
  unfold PurgeResult.verdict
  split <;> simp_all

theorem verdict_eq_terminal : result.verdict = .terminal ↔
    result.ok = false ∧ result.retryable = false := by
  unfold PurgeResult.verdict
  split <;> simp_all

end Verdicts

/-- The tail of `_purge_one`: the result for a reply, where `retryableStatus`
is `_RETRYABLE_STATUS`. -/
def readReply (retryableStatus : List ℕ) : Reply → PurgeResult
  | .transport error => ⟨false, true, "transport: " ++ error⟩
  | .status code =>
      if isSuccess code then ⟨true, false, "ok"⟩
      else if code ∈ retryableStatus then
        ⟨false, true, "HTTP " ++ toString code⟩
      else ⟨false, false, "HTTP " ++ toString code⟩

/-- The tail of `purge`: a terminal failure decides, then a retryable one. -/
def summarize (results : List PurgeResult) : PurgeResult :=
  let terminal := results.filter fun result => !result.ok && !result.retryable
  let retryable := results.filter fun result => !result.ok && result.retryable
  if terminal ≠ [] then
    ⟨false, false, String.intercalate "; " (terminal.map (·.message))⟩
  else if retryable ≠ [] then
    ⟨false, true, String.intercalate "; " (retryable.map (·.message))⟩
  else ⟨true, false, "ok"⟩

theorem readReply_verdict_eq_accepted {retryableStatus : List ℕ}
    {reply : Reply} :
    (readReply retryableStatus reply).verdict = .accepted ↔
      reply.isSuccess := by
  cases reply with
  | transport error => simp [readReply, PurgeResult.verdict, Reply.isSuccess]
  | status code =>
      simp only [readReply, Reply.isSuccess, PurgeResult.verdict]
      split <;> simp_all
      split <;> simp_all

/-- The verdict of a batch is the worst verdict in it. -/
theorem summarize_verdict (results : List PurgeResult) :
    (summarize results).verdict =
      if .terminal ∈ results.map PurgeResult.verdict then .terminal
      else if .retryable ∈ results.map PurgeResult.verdict then .retryable
      else .accepted := by
  have hterminal : (results.filter fun result =>
      !result.ok && !result.retryable) ≠ [] ↔
        .terminal ∈ results.map PurgeResult.verdict := by
    rw [ne_eq, List.filter_eq_nil_iff, List.mem_map]
    push Not
    refine exists_congr fun result => and_congr_right fun _ => ?_
    cases hok : result.ok <;> cases hretry : result.retryable <;>
      simp [PurgeResult.verdict, hok, hretry]
  have hretryable : (results.filter fun result =>
      !result.ok && result.retryable) ≠ [] ↔
        .retryable ∈ results.map PurgeResult.verdict := by
    rw [ne_eq, List.filter_eq_nil_iff, List.mem_map]
    push Not
    refine exists_congr fun result => and_congr_right fun _ => ?_
    cases hok : result.ok <;> cases hretry : result.retryable <;>
      simp [PurgeResult.verdict, hok, hretry]
  simp only [summarize, hterminal, hretryable]
  split
  · rfl
  · split <;> rfl

/-- A batch is accepted only if every call in it is. -/
theorem summarize_accepted_iff (results : List PurgeResult) :
    (summarize results).verdict = .accepted ↔
      ∀ result ∈ results, result.verdict = .accepted := by
  rw [summarize_verdict]
  have hcases : ∀ verdict : Verdict, verdict = .accepted ↔
      verdict ≠ .terminal ∧ verdict ≠ .retryable := by
    intro verdict
    cases verdict <;> simp
  by_cases hterminal : Verdict.terminal ∈ results.map PurgeResult.verdict
  · rw [if_pos hterminal]
    obtain ⟨result, hresult, hverdict⟩ := List.mem_map.mp hterminal
    refine iff_of_false (by simp) fun h => ?_
    rw [h result hresult] at hverdict
    cases hverdict
  · by_cases hretryable : Verdict.retryable ∈ results.map PurgeResult.verdict
    · rw [if_neg hterminal, if_pos hretryable]
      obtain ⟨result, hresult, hverdict⟩ := List.mem_map.mp hretryable
      refine iff_of_false (by simp) fun h => ?_
      rw [h result hresult] at hverdict
      cases hverdict
    · simp only [hterminal, hretryable, if_false, true_iff]
      intro result hresult
      rw [hcases]
      exact ⟨fun h => hterminal (h ▸ List.mem_map_of_mem hresult),
        fun h => hretryable (h ▸ List.mem_map_of_mem hresult)⟩

end MirrorMirage.Providers
