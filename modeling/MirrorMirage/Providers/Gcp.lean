import MirrorMirage.Core.Gather
import MirrorMirage.Providers.Base
import MirrorMirage.Stdlib.UrlParse

/-!
# The GCP provider

`providers/gcp.py`: one `invalidateCache` POST for each URL, once there is a
token.  When the limiter and the semaphore let a task through has no bearing
on what it does then; `Providers.GcpQuota` is about that.
-/

namespace MirrorMirage.Providers.Gcp

open MirrorMirage.Gather MirrorMirage.UrlParse

def retryableStatus : List ℕ := [408, 425, 429, 500, 502, 503, 504]

/-- The body of an `invalidateCache` request. -/
structure Body where
  path : String
  host : String
  deriving DecidableEq, Repr

/-- `parsed.path or "/"`. -/
def pathOr (parsed : ParseResult) : String :=
  if parsed.path = [] then "/" else String.ofList parsed.path

/-- The body for a URL; `none` is the `ValueError` of `urlparse`. -/
def body (tables : Tables) (url : String) : Option Body :=
  (urlparse tables url.toList).map fun parsed =>
    ⟨pathOr parsed, String.ofList (hostname tables parsed)⟩

/-- What becomes of a task: `_get_token` raises, or the POST is replied to. -/
inductive CallReply where
  | auth (error : String)
  | post (reply : Reply)
  deriving DecidableEq, Repr

def CallReply.isSuccess : CallReply → Bool
  | .auth _ => false
  | .post reply => reply.isSuccess

def readCall : CallReply → PurgeResult
  | .auth error => ⟨false, false, "auth: " ++ error⟩
  | .post reply => readReply retryableStatus reply

/-- How the calls of one attempt go, and the order in which its tasks end. -/
structure Calls where
  reply : ℕ → CallReply
  order : List ℕ

/-- `_purge_one` past the limiter and the semaphore. -/
def purgeOne (tables : Tables) (reply : CallReply) (url : String) :
    Except String PurgeResult :=
  perform (body tables) readCall
    (fun url => urlparseError tables url.toList) reply url

/-- `purge`; `none` says that some call has not ended. -/
def purge (tables : Tables) (calls : Calls) (urls : List String) :
    Option (Except String PurgeResult) :=
  if urls = [] then some (.ok ⟨true, false, "empty"⟩)
  else
    (gather (urls.mapIdx fun place url =>
      purgeOne tables (calls.reply place) url) calls.order).map
        (·.map summarize)

/-- What the tasks asked for, with what became of it; without a token there is
no POST. -/
def attempts (tables : Tables) (calls : Calls) (urls : List String) :
    List (Body × CallReply) :=
  requests (body tables) calls.reply urls

theorem readCall_verdict_eq_accepted {reply : CallReply} :
    (readCall reply).verdict = .accepted ↔ reply.isSuccess := by
  cases reply with
  | auth error =>
      simp [readCall, PurgeResult.verdict, CallReply.isSuccess]
  | post reply => exact readReply_verdict_eq_accepted

section Attempt

variable {tables : Tables} {calls : Calls} {urls : List String}
variable {result : PurgeResult}

/-- `purge` returns once its calls have ended. -/
theorem purge_isSome (hended : ∀ place < urls.length, place ∈ calls.order) :
    (purge tables calls urls).isSome := by
  unfold purge
  split
  · rfl
  · rw [Option.isSome_map]
    exact gather_isSome (by simpa using hended)

theorem purge_summary (hurls : urls ≠ [])
    (hpurge : purge tables calls urls = some (.ok result)) :
    result = summarize ((attempts tables calls urls).map fun attempt =>
      readCall attempt.2) ∧
    ∀ url ∈ urls, ∃ attempt ∈ attempts tables calls urls,
      body tables url = some attempt.1 := by
  simp only [purge, if_neg hurls] at hpurge
  obtain ⟨gathered, hgathered, hresult⟩ := Option.map_eq_some_iff.mp hpurge
  cases gathered with
  | error error => cases hresult
  | ok results =>
      cases hresult
      obtain ⟨hresults, hsent⟩ := requests_of_results (gather_ok hgathered)
      exact ⟨by rw [attempts, ← hresults], hsent⟩

/-- A POST for every URL came back with 2xx. -/
def Accepted (tables : Tables) (calls : Calls) (urls : List String) : Prop :=
  ∀ url ∈ urls, ∃ sent reply, (sent, .post reply) ∈ attempts tables calls urls ∧
    body tables url = some sent ∧ reply.isSuccess

theorem accepted_of_ok (hurls : urls ≠ [])
    (hpurge : purge tables calls urls = some (.ok result))
    (hok : result.ok = true) : Accepted tables calls urls := by
  obtain ⟨hsummary, hsent⟩ := purge_summary hurls hpurge
  have hverdict := verdict_eq_accepted.mpr hok
  rw [hsummary, summarize_accepted_iff] at hverdict
  intro url hurl
  obtain ⟨⟨sent, reply⟩, hattempt, hbody⟩ := hsent url hurl
  have hsuccess : reply.isSuccess := readCall_verdict_eq_accepted.mp
    (hverdict _ (List.mem_map_of_mem hattempt))
  cases reply with
  | auth error => cases hsuccess
  | post reply => exact ⟨sent, reply, hattempt, hbody, hsuccess⟩

end Attempt

end MirrorMirage.Providers.Gcp
