import MirrorMirage.Providers.Accepted

/-!
# Transient failures

`docs/cdn-providers.md` and `docs/architecture.md` say which failures of an
exchange are worth another attempt.  The providers agree with them but for the
failures that are `misjudged`: one of these fails the job for good
(`transient_failures_are_retried_iff`).
-/

namespace MirrorMirage.Providers

open MirrorMirage.Gather MirrorMirage.UrlParse MirrorMirage.Worker

/-! ## Failures -/

/-- The remote exchanges of the providers. -/
inductive Exchange where
  | service
  | domains
  | purge
  | token
  | invalidateCache
  | createInvalidation
  deriving DecidableEq, Repr

inductive Cause where
  | transport
  | status (code : ℕ)
  /-- A `ClientError` of boto3: the status of the response and its code. -/
  | apiError (status : ℕ) (code : String)
  /-- Everything else, such as a body that cannot be decoded. -/
  | other
  deriving DecidableEq, Repr

structure Failure where
  exchange : Exchange
  cause : Cause
  deriving DecidableEq, Repr

/-- "CDN 5xx or 429: retryable." -/
def isBusy (code : ℕ) : Bool := code = 429 || 500 ≤ code && code < 600

/-- "Retryable status codes" of Fastly, next to these. -/
def documentedStatus (exchange : Exchange) (code : ℕ) : Bool :=
  isBusy code ||
    match exchange with
    | .service | .domains | .purge =>
        code ∈ [408, 425, 429, 500, 502, 503, 504]
    | _ => false

/-- "Retryable errors" of CloudFront. -/
def documentedCodes : List String :=
  ["Throttling", "ThrottlingException", "RequestLimitExceeded",
    "ServiceUnavailable", "TooManyInvalidationsInProgress"]

/-- A failure that the documents call retryable. -/
def Failure.transient (failure : Failure) : Bool :=
  match failure.cause with
  | .transport => true
  | .status code => documentedStatus failure.exchange code
  | .apiError status code => isBusy status || code ∈ documentedCodes
  | .other => false

/-- A failure that a provider takes for a terminal one all the same: of the
token, whatever it is, and with a status or a code that is in no list. -/
def Failure.misjudged (failure : Failure) : Bool :=
  match failure.exchange, failure.cause with
  | .token, _ => true
  | .invalidateCache, .status code => code ∉ Gcp.retryableStatus
  | _, .status code => code ∉ Fastly.retryableStatus
  | _, .apiError _ code => code ∉ CloudFront.retryableCodes
  | _, _ => false

def Failure.verdict (failure : Failure) : Verdict :=
  if failure.misjudged then .terminal else .retryable

def Reply.failure (exchange : Exchange) : Reply → Option Failure
  | .transport _ => some ⟨exchange, .transport⟩
  | .status code =>
      if Providers.isSuccess code then none else some ⟨exchange, .status code⟩

/-- What one call comes to. -/
def verdictOf (failure : Option Failure) : Verdict :=
  failure.elim .accepted Failure.verdict

/-! ## Fastly -/

namespace Fastly

/-- The body of a GET, or what has failed. -/
def Answer.met {Body : Type} (exchange : Exchange) :
    Answer Body → Except Failure Body
  | .transport _ => .error ⟨exchange, .transport⟩
  | .response code body =>
      if isSuccess code then body.mapError fun _ => ⟨exchange, .other⟩
      else .error ⟨exchange, .status code⟩

/-- What fails in the discovery. -/
def discovered (provider : Provider) (cache : Option (List String))
    (calls : Calls) : Except Failure Unit :=
  if provider.purgeAllServiceDomains ∧ cache = none then
    match calls.service.met .service with
    | .error failure => .error failure
    | .ok versions =>
        match activeVersion versions with
        | none => .error ⟨.service, .other⟩
        | some version =>
            ((calls.domains version).met .domains).map fun _ => ()
  else .ok ()

/-- What fails in an attempt; a URL that cannot be parsed fails as well. -/
def failures (tables : Tables) (provider : Provider)
    (cache : Option (List String)) (calls : Calls) (urls : List String) :
    List Failure :=
  if urls = [] then []
  else
    match discovered provider cache calls with
    | .error failure => [failure]
    | .ok () =>
        match targets tables provider cache calls urls with
        | .ok (.ok found) =>
            (found.filter fun url => (purgeEndpoint tables url).isNone).map
                (fun _ => ⟨.purge, .other⟩) ++
              (posts tables provider cache calls urls).filterMap fun post =>
                post.2.failure .purge
        | _ => [⟨.purge, .other⟩]

end Fastly

/-! ## GCP -/

namespace Gcp

/-- How `creds.refresh` ends. -/
inductive Refresh where
  | refreshed
  | unreachable (error : String)
  | status (code : ℕ) (error : String)
  | refused (error : String)
  deriving DecidableEq, Repr

def Refresh.error : Refresh → Option String
  | .refreshed => none
  | .unreachable error | .status _ error | .refused error => some error

/-- What `_get_token` finds: whether the service account file can be read, or
has been, whether there is a token that has not expired, how a refresh would
end, and whether the token is a string then. -/
structure TokenCall where
  file : Except String Unit
  fresh : Bool
  refresh : Refresh
  isString : Bool

/-- `_get_token`. -/
def getToken (call : TokenCall) : Except String Unit :=
  match call.file with
  | .error error => .error error
  | .ok () =>
      match if call.fresh then none else call.refresh.error with
      | some error => .error error
      | none =>
          if call.isString then .ok ()
          else .error "GCP credential refresh produced no string token"

/-- What a task finds. -/
structure Task where
  token : TokenCall
  reply : Reply

def Task.call (task : Task) : CallReply :=
  match getToken task.token with
  | .error error => .auth error
  | .ok () => .post task.reply

def Refresh.failure : Refresh → Option Failure
  | .refreshed => none
  | .unreachable _ => some ⟨.token, .transport⟩
  | .status code _ => some ⟨.token, .status code⟩
  | .refused _ => some ⟨.token, .other⟩

def TokenCall.failure (call : TokenCall) : Option Failure :=
  match call.file with
  | .error _ => some ⟨.token, .other⟩
  | .ok () =>
      match if call.fresh then none else call.refresh.failure with
      | some failure => some failure
      | none => if call.isString then none else some ⟨.token, .other⟩

def Task.failure (task : Task) : Option Failure :=
  match task.token.failure with
  | some failure => some failure
  | none => task.reply.failure .invalidateCache

/-- What fails in an attempt; a URL that cannot be parsed fails as well. -/
def failures (tables : Tables) (tasks : ℕ → Task) (urls : List String) :
    List Failure :=
  (urls.filter fun url => (body tables url).isNone).map
      (fun _ => ⟨.invalidateCache, .other⟩) ++
    (requests (body tables) tasks urls).filterMap fun sent => sent.2.failure

end Gcp

/-! ## CloudFront -/

namespace CloudFront

/-- How the call in the thread ends, with the status of an error response; the
exceptions of a connection that fails may be those of botocore or not. -/
inductive Ending where
  | returned
  | credentialsError (error : String)
  | clientError (status : ℕ) (code error : String)
  | connection (wrapped : Bool) (error : String)
  | botoCoreError (error : String)
  | otherError (error : String)
  deriving DecidableEq, Repr

def Ending.outcome : Ending → CallOutcome
  | .returned => .returned
  | .credentialsError error => .credentialsError error
  | .clientError _ code error => .clientError code error
  | .connection wrapped error =>
      if wrapped then .botoCoreError error else .otherError error
  | .botoCoreError error => .botoCoreError error
  | .otherError error => .otherError error

def Ending.failure : Ending → Option Failure
  | .returned => none
  | .connection _ _ => some ⟨.createInvalidation, .transport⟩
  | .clientError status code _ =>
      some ⟨.createInvalidation, .apiError status code⟩
  | .credentialsError _ | .botoCoreError _ | .otherError _ =>
      some ⟨.createInvalidation, .other⟩

/-- What fails in an attempt; a URL that cannot be parsed fails as well. -/
def failures (tables : Tables) (ending : Ending) (urls : List String) :
    List Failure :=
  if urls = [] then []
  else
    match paths tables urls with
    | none => [⟨.createInvalidation, .other⟩]
    | some _ => ending.failure.toList

end CloudFront

/-! ## Attempts -/

/-- One attempt at a job, down to what its exchanges meet. -/
inductive Trial where
  | fastly (provider : Fastly.Provider) (cache : Option (List String))
      (calls : Fastly.Calls)
  | gcp (tasks : ℕ → Gcp.Task) (order : List ℕ)
  | cloudFront (ending : CloudFront.Ending)

def Trial.attempt : Trial → Attempt
  | .fastly provider cache calls => .fastly provider cache calls
  | .gcp tasks order => .gcp ⟨fun place => (tasks place).call, order⟩
  | .cloudFront ending => .cloudFront ending.outcome

/-- The failures that an attempt meets. -/
def Trial.failures (tables : Tables) (urls : List String) :
    Trial → List Failure
  | .fastly provider cache calls =>
      Fastly.failures tables provider cache calls urls
  | .gcp tasks _ => Gcp.failures tables tasks urls
  | .cloudFront ending => CloudFront.failures tables ending urls

/-- The outcome asks for another attempt, and the worker sees to it. -/
def Spared (retry : RetryConfig) (number : ℕ)
    (outcome : Except String PurgeResult) : Prop :=
  (∀ result, outcome = .ok result →
    result.ok = false ∧ result.retryable = true) ∧
  ((number : ℤ) < retry.maxAttempts → ∃ backoff,
    settle retry number (caught outcome) = .ok (.reschedule number backoff))

/-! ## What becomes of a failure -/

section Verdicts

variable {tables : Tables} {urls : List String} {failure : Failure}
variable {outcome : Except String PurgeResult}

theorem verdict_ne_accepted : failure.verdict ≠ .accepted := by
  unfold Failure.verdict
  split <;> simp

theorem verdict_eq_terminal_iff :
    failure.verdict = .terminal ↔ failure.misjudged := by
  unfold Failure.verdict
  split <;> simp_all

/-- The verdicts of calls, and with them the verdict of the batch, are read
off the failures. -/
theorem summarize_failures {Sent : Type*} {sent : List Sent}
    {read : Sent → PurgeResult} {met : Sent → Option Failure}
    (hread : ∀ one ∈ sent, (read one).verdict = verdictOf (met one))
    (hfailed : sent.filterMap met ≠ []) :
    (summarize (sent.map read)).verdict ≠ .accepted ∧
      ((summarize (sent.map read)).verdict = .terminal ↔
        ∃ failure ∈ sent.filterMap met, failure.misjudged) := by
  have hterminal : .terminal ∈ (sent.map read).map PurgeResult.verdict ↔
      ∃ failure ∈ sent.filterMap met, failure.misjudged := by
    simp only [List.mem_map, List.mem_filterMap, exists_exists_and_eq_and]
    constructor
    · rintro ⟨one, hone, hverdict⟩
      rw [hread one hone] at hverdict
      cases hmet : met one with
      | none => simp [verdictOf, hmet] at hverdict
      | some failure =>
          rw [hmet] at hverdict
          exact ⟨failure, ⟨one, hone, hmet⟩, verdict_eq_terminal_iff.mp hverdict⟩
    · rintro ⟨failure, ⟨one, hone, hmet⟩, hmisjudged⟩
      refine ⟨one, hone, ?_⟩
      rw [hread one hone, hmet]
      exact verdict_eq_terminal_iff.mpr hmisjudged
  constructor
  · obtain ⟨failure, hfailure⟩ := List.exists_mem_of_ne_nil _ hfailed
    obtain ⟨one, hone, hmet⟩ := List.mem_filterMap.mp hfailure
    intro haccepted
    rw [summarize_accepted_iff] at haccepted
    have hverdict := haccepted _ (List.mem_map_of_mem hone)
    rw [hread one hone, hmet] at hverdict
    exact verdict_ne_accepted hverdict
  · rw [summarize_verdict, ← hterminal]
    split
    · exact iff_of_true rfl ‹_›
    · split <;> exact iff_of_false (by simp) ‹_›

/-- What a purge that meets these failures ends with. -/
def Judged (failures : List Failure) (outcome : Except String PurgeResult) :
    Prop :=
  ∃ result, outcome = .ok result ∧ result.verdict ≠ .accepted ∧
    (result.verdict = .terminal ↔ ∃ failure ∈ failures, failure.misjudged)

theorem judged_singleton {result : PurgeResult}
    (hverdict : result.verdict = failure.verdict) :
    Judged [failure] (.ok result) := by
  refine ⟨result, rfl, hverdict ▸ verdict_ne_accepted, ?_⟩
  rw [hverdict, verdict_eq_terminal_iff]
  simp

/-- The reply to a POST, for a provider's list of statuses. -/
theorem readReply_verdict {exchange : Exchange} {codes : List ℕ}
    (htransport : (Failure.mk exchange .transport).misjudged = false)
    (hstatus : ∀ code, (Failure.mk exchange (.status code)).misjudged =
      decide (code ∉ codes)) (reply : Reply) :
    (readReply codes reply).verdict = verdictOf (reply.failure exchange) := by
  cases reply with
  | transport error =>
      simp [readReply, Reply.failure, verdictOf, Failure.verdict, htransport,
        PurgeResult.verdict]
  | status code =>
      by_cases hsuccess : isSuccess code
      · simp [readReply, Reply.failure, verdictOf, hsuccess,
          PurgeResult.verdict]
      · by_cases hcode : code ∈ codes <;>
          simp [readReply, Reply.failure, verdictOf, hsuccess, hcode, hstatus,
            Failure.verdict, PurgeResult.verdict]

/-- All URLs can be parsed when nothing but transient failures is met. -/
theorem parsed_of_transient {Request : Type*}
    {request : String → Option Request} {exchange : Exchange}
    {rest : List Failure}
    (htransient : ∀ failure ∈ (urls.filter fun url =>
      (request url).isNone).map (fun _ => ⟨exchange, .other⟩) ++ rest,
        failure.transient) :
    (urls.filter fun url => (request url).isNone) = [] ∧
      ∀ url ∈ urls, request url ≠ none := by
  have hparsed : ∀ url ∈ urls, request url ≠ none := by
    intro url hurl hnone
    have hother := htransient ⟨exchange, .other⟩ (List.mem_append_left _
      (List.mem_map.mpr ⟨url, List.mem_filter.mpr ⟨hurl, by simp [hnone]⟩,
        rfl⟩))
    cases hother
  refine ⟨List.filter_eq_nil_iff.mpr fun url hurl => ?_, hparsed⟩
  simpa using hparsed url hurl

end Verdicts

/-! ## The three providers -/

namespace Fastly

variable {tables : Tables} {provider : Provider}
variable {cache : Option (List String)} {calls : Calls} {urls : List String}
variable {outcome : Except String PurgeResult} {failure : Failure}

theorem Answer.met_ok {Body : Type} {answer : Answer Body} {body : Body}
    {exchange : Exchange} (hmet : answer.met exchange = .ok body) :
    readAnswer answer = .ok (.ok body) := by
  cases answer with
  | transport error => cases hmet
  | response code found =>
      simp only [met] at hmet
      split at hmet
      · cases found <;> cases hmet
        simp [readAnswer, *, Except.map]
      · cases hmet

theorem Answer.met_error {Body : Type} {answer : Answer Body}
    {exchange : Exchange} (hmet : answer.met exchange = .error failure)
    (htransport : (Failure.mk exchange .transport).misjudged = false)
    (hstatus : ∀ code, (Failure.mk exchange (.status code)).misjudged =
      decide (code ∉ retryableStatus))
    (htransient : failure.transient) :
    ∃ result, readAnswer answer = .ok (.error result) ∧
      result.verdict = failure.verdict := by
  cases answer with
  | transport error =>
      cases hmet
      exact ⟨_, rfl, by simp [Failure.verdict, htransport, PurgeResult.verdict]⟩
  | response code found =>
      simp only [met] at hmet
      split at hmet
      · cases found <;> cases hmet
        cases htransient
      · cases hmet
        refine ⟨_, by simp only [readAnswer, if_neg ‹_›]; rfl, ?_⟩
        by_cases hcode : code ∈ retryableStatus <;>
          simp [hcode, hstatus, Failure.verdict, PurgeResult.verdict]

theorem ensureDomains_of_discovered (tables : Tables)
    (hall : provider.purgeAllServiceDomains ∧ cache = none)
    (hdiscovered : discovered provider cache calls = .error failure)
    (htransient : failure.transient) :
    ∃ result, ensureDomains tables provider cache calls = .ok (.error result) ∧
      result.verdict = failure.verdict := by
  simp only [discovered, if_pos hall] at hdiscovered
  simp only [ensureDomains, hall.2]
  cases hservice : calls.service.met .service with
  | error first =>
      simp only [hservice, Except.error.injEq] at hdiscovered
      subst hdiscovered
      obtain ⟨result, hread, hverdict⟩ :=
        Answer.met_error hservice rfl (fun _ => rfl) htransient
      exact ⟨result, by rw [hread], hverdict⟩
  | ok versions =>
      simp only [hservice] at hdiscovered
      rw [Answer.met_ok hservice]
      cases hversion : activeVersion versions with
      | none =>
          simp only [hversion, Except.error.injEq] at hdiscovered
          subst hdiscovered
          cases htransient
      | some version =>
          simp only [hversion] at hdiscovered
          cases hdomains : (calls.domains version).met .domains with
          | error second =>
              simp only [hdomains, Except.map, Except.error.injEq]
                at hdiscovered
              subst hdiscovered
              obtain ⟨result, hread, hverdict⟩ :=
                Answer.met_error hdomains rfl (fun _ => rfl) htransient
              exact ⟨result, by simp only [hversion, hread], hverdict⟩
          | ok names => simp [hdomains, Except.map] at hdiscovered

theorem judged (hpurge : purge tables provider cache calls urls = some outcome)
    (hfailed : failures tables provider cache calls urls ≠ [])
    (htransient : ∀ failure ∈ failures tables provider cache calls urls,
      failure.transient) :
    Judged (failures tables provider cache calls urls) outcome := by
  by_cases hurls : urls = []
  · simp [failures, hurls] at hfailed
  simp only [failures, if_neg hurls] at hfailed htransient ⊢
  cases hdiscovered : discovered provider cache calls with
  | error failure =>
      simp only [hdiscovered] at htransient ⊢
      have hall : provider.purgeAllServiceDomains ∧ cache = none := by
        by_contra hall
        simp [discovered, hall] at hdiscovered
      obtain ⟨result, hensure, hverdict⟩ :=
        ensureDomains_of_discovered tables hall hdiscovered
          (htransient _ (List.mem_singleton_self _))
      simp only [purge, if_neg hurls, targets, hall.1, if_true, hensure,
        Option.some.injEq] at hpurge
      subst hpurge
      exact judged_singleton hverdict
  | ok =>
      simp only [hdiscovered] at hfailed htransient ⊢
      cases htargets : targets tables provider cache calls urls with
      | error error =>
          simp only [htargets] at htransient
          cases htransient _ (List.mem_singleton_self _)
      | ok found =>
          cases found with
          | error early =>
              simp only [htargets] at htransient
              cases htransient _ (List.mem_singleton_self _)
          | ok found =>
              simp only [htargets] at hfailed htransient ⊢
              obtain ⟨hnone, hparsed⟩ := parsed_of_transient htransient
              rw [hnone, List.map_nil, List.nil_append] at hfailed ⊢
              have hgathered := hpurge
              simp only [purge, if_neg hurls, htargets] at hgathered
              obtain ⟨gathered, hgather, hsummary⟩ :=
                Option.map_eq_some_iff.mp hgathered
              obtain ⟨results, rfl⟩ := ok_of_requests hparsed hgather
              subst hsummary
              obtain ⟨hresult, -⟩ := purge_summary hurls htargets hpurge
              obtain ⟨haccepted, hterminal⟩ := summarize_failures
                (fun post _ => readReply_verdict rfl (fun _ => rfl) post.2)
                hfailed
              rw [← hresult] at haccepted hterminal
              exact ⟨_, rfl, haccepted, hterminal⟩

end Fastly

namespace Gcp

variable {tables : Tables} {tasks : ℕ → Task} {order : List ℕ}
variable {urls : List String} {outcome : Except String PurgeResult}

/-- Without a failure there is a token. -/
theorem getToken_of_failure {call : TokenCall} (hnone : call.failure = none) :
    getToken call = .ok () := by
  obtain ⟨file, fresh, refresh, isString⟩ := call
  cases file with
  | error error => cases hnone
  | ok =>
      cases fresh <;> cases refresh <;> cases isString <;>
        first | rfl | cases hnone

/-- A failure of the token, whatever it is, is terminal. -/
theorem getToken_error {call : TokenCall} {failure : Failure}
    (hfailure : call.failure = some failure) :
    failure.exchange = .token ∧ ∃ error, getToken call = .error error := by
  obtain ⟨file, fresh, refresh, isString⟩ := call
  cases file with
  | error error =>
      cases hfailure
      exact ⟨rfl, error, rfl⟩
  | ok =>
      cases fresh <;> cases refresh <;> cases isString <;> cases hfailure <;>
        exact ⟨rfl, _, rfl⟩

theorem call_verdict (task : Task) :
    (readCall task.call).verdict = verdictOf task.failure := by
  unfold Task.call Task.failure
  cases htoken : task.token.failure with
  | none =>
      rw [getToken_of_failure htoken]
      exact readReply_verdict rfl (fun _ => rfl) task.reply
  | some failure =>
      obtain ⟨hexchange, error, herror⟩ := getToken_error htoken
      rw [herror]
      simp [readCall, PurgeResult.verdict, verdictOf, Failure.verdict,
        Failure.misjudged, hexchange]

theorem judged
    (hpurge : purge tables ⟨fun place => (tasks place).call, order⟩ urls =
      some outcome)
    (hfailed : failures tables tasks urls ≠ [])
    (htransient : ∀ failure ∈ failures tables tasks urls, failure.transient) :
    Judged (failures tables tasks urls) outcome := by
  by_cases hurls : urls = []
  · simp [failures, hurls, requests] at hfailed
  obtain ⟨hnone, hparsed⟩ := parsed_of_transient htransient
  simp only [failures, hnone, List.map_nil, List.nil_append] at hfailed ⊢
  have hgathered := hpurge
  simp only [purge, if_neg hurls] at hgathered
  obtain ⟨gathered, hgather, hsummary⟩ := Option.map_eq_some_iff.mp hgathered
  obtain ⟨results, rfl⟩ := ok_of_requests hparsed hgather
  subst hsummary
  obtain ⟨hresult, -⟩ := purge_summary hurls hpurge
  simp only [attempts, requests_map Task.call tasks, List.map_map] at hresult
  obtain ⟨haccepted, hterminal⟩ := summarize_failures
    (fun sent _ => call_verdict sent.2) hfailed
  refine ⟨_, rfl, ?_, ?_⟩ <;> rw [hresult]
  · exact haccepted
  · exact hterminal

end Gcp

namespace CloudFront

variable {tables : Tables} {ending : Ending} {urls : List String}
variable {outcome : Except String PurgeResult}

theorem judged (hpurge : purge tables ending.outcome urls = outcome)
    (hfailed : failures tables ending urls ≠ [])
    (htransient : ∀ failure ∈ failures tables ending urls, failure.transient) :
    Judged (failures tables ending urls) outcome := by
  subst hpurge
  by_cases hurls : urls = []
  · simp [failures, hurls] at hfailed
  simp only [failures, purge, if_neg hurls] at hfailed htransient ⊢
  cases hpaths : paths tables urls with
  | none =>
      simp only [hpaths] at htransient
      cases htransient _ (List.mem_singleton_self _)
  | some batch =>
      simp only [hpaths] at hfailed htransient ⊢
      cases ending with
      | returned => exact absurd rfl hfailed
      | credentialsError error | botoCoreError error | otherError error =>
          cases htransient _ (List.mem_singleton_self _)
      | connection wrapped error =>
          cases wrapped <;> exact judged_singleton rfl
      | clientError status code error =>
          refine judged_singleton ?_
          by_cases hcode : code ∈ retryableCodes <;>
            simp [Ending.outcome, readCall, hcode, PurgeResult.verdict,
              Failure.verdict, Failure.misjudged]

end CloudFront

theorem Trial.judged {tables : Tables} {urls : List String} {trial : Trial}
    {outcome : Except String PurgeResult}
    (hpurge : trial.attempt.purge tables urls = some outcome)
    (hfailed : trial.failures tables urls ≠ [])
    (htransient : ∀ failure ∈ trial.failures tables urls, failure.transient) :
    Judged (trial.failures tables urls) outcome := by
  cases trial with
  | fastly provider cache calls =>
      exact Fastly.judged hpurge hfailed htransient
  | gcp tasks order => exact Gcp.judged hpurge hfailed htransient
  | cloudFront ending =>
      exact CloudFront.judged (Option.some.inj hpurge) hfailed htransient

/-- Whatever the provider and wherever the failures occur: when an attempt
meets failures and all of them are transient, its outcome asks for another
attempt, which the worker schedules while there are attempts left, if and only
if no failure is misjudged and the backoff can be computed. -/
theorem transient_failures_are_retried_iff {tables : Tables}
    {retry : RetryConfig} {urls : List String} {trial : Trial}
    {outcome : Except String PurgeResult} {number : ℕ}
    (hpurge : trial.attempt.purge tables urls = some outcome)
    (hfailed : trial.failures tables urls ≠ [])
    (htransient : ∀ failure ∈ trial.failures tables urls, failure.transient)
    (hnumber : 1 ≤ number) :
    Spared retry number outcome ↔
      (∀ failure ∈ trial.failures tables urls, ¬ failure.misjudged) ∧
        ((number : ℤ) < retry.maxAttempts → number ≤ 1024) := by
  obtain ⟨result, rfl, haccepted, hterminal⟩ :=
    Trial.judged hpurge hfailed htransient
  have hretryable : (result.ok = false ∧ result.retryable = true) ↔
      ∀ failure ∈ trial.failures tables urls, ¬ failure.misjudged := by
    rw [← verdict_eq_retryable]
    have hcases : result.verdict = .retryable ↔
        result.verdict ≠ .terminal := by
      cases hverdict : result.verdict <;> simp_all
    rw [hcases, ne_eq, hterminal]
    push Not
    rfl
  rw [← hretryable]
  constructor
  · rintro ⟨hresult, hreschedule⟩
    refine ⟨hresult result rfl, fun hlt => ?_⟩
    obtain ⟨backoff, hsettle⟩ := hreschedule hlt
    exact (settle_ok_iff hnumber).mp ⟨_, hsettle⟩
      ((retried_iff hsettle).mpr ⟨backoff, rfl⟩)
  · rintro ⟨hresult, hnumber'⟩
    refine ⟨?_, fun hlt => ?_⟩
    · rintro _ ⟨⟩
      exact hresult
    · obtain ⟨settlement, hsettle⟩ :=
        (settle_ok_iff hnumber).mpr fun _ => hnumber' hlt
      obtain ⟨backoff, rfl⟩ :=
        (retried_iff hsettle).mp ⟨hresult.1, hresult.2, hlt⟩
      exact ⟨backoff, hsettle⟩

/-- Two GCP calls with a token at hand, one of which is answered with 503. -/
theorem transient_failures_are_retried_iff_sample :
    let urls := ["https://a/x", "https://a/y"]
    let trial : Trial := .gcp (fun place =>
      ⟨⟨.ok (), true, .refreshed, true⟩,
        .status (if place = 0 then 503 else 200)⟩) [1, 0]
    trial.attempt.purge asciiTables urls =
        some (.ok ⟨false, true, "HTTP 503"⟩) ∧
      (Spared {} 1 (.ok ⟨false, true, "HTTP 503"⟩) ↔
        (∀ failure ∈ trial.failures asciiTables urls, ¬ failure.misjudged) ∧
          ((1 : ℕ) < (8 : ℤ) → 1 ≤ 1024)) := by
  intro urls trial
  have hpurge : trial.attempt.purge asciiTables urls =
      some (.ok ⟨false, true, "HTTP 503"⟩) := by decide +kernel
  exact ⟨hpurge, transient_failures_are_retried_iff hpurge
    (by decide +kernel) (by decide +kernel) le_rfl⟩

/-- The token endpoint of GCP cannot be reached, and the job has failed. -/
theorem unreachable_token_is_terminal :
    ¬ ∀ (tables : Tables) (retry : RetryConfig) (urls : List String)
        (trial : Trial) (outcome : Except String PurgeResult) (number : ℕ),
      trial.attempt.purge tables urls = some outcome →
        trial.failures tables urls ≠ [] →
          (∀ failure ∈ trial.failures tables urls, failure.transient) →
            1 ≤ number → Spared retry number outcome := by
  intro hclaim
  have hspared := hclaim asciiTables {} ["https://a/x"]
    (.gcp (fun _ => ⟨⟨.ok (), false, .unreachable "no route", true⟩,
      .status 200⟩) [0]) (.ok ⟨false, false, "auth: no route"⟩) 1
    (by decide +kernel) (by decide +kernel) (by decide +kernel) le_rfl
  have hretryable := (hspared.1 _ rfl).2
  cases hretryable

end MirrorMirage.Providers
