import MirrorMirage.Core.Gather
import MirrorMirage.Providers.Base
import MirrorMirage.Stdlib.Repr
import MirrorMirage.Stdlib.UrlParse

/-!
# The Fastly provider

`providers/fastly.py`: one POST for each URL, after an expansion across the
domains of the service if that is asked for.
-/

namespace MirrorMirage.Providers.Fastly

open MirrorMirage.Gather MirrorMirage.UrlParse
open MirrorMirage.Stdlib (reprText)

def fastlyApiBase : String := "https://api.fastly.com"

def retryableStatus : List ℕ := [408, 425, 429, 500, 502, 503, 504]

/-- `_purge_endpoint`; `none` is the `ValueError` of `urlparse`. -/
def purgeEndpoint (tables : Tables) (url : String) : Option String :=
  (urlparse tables url.toList).map fun parsed =>
    fastlyApiBase ++ "/purge/" ++
      String.ofList (parsed.netloc ++ parsed.path ++ marked '?' parsed.query)

/-- What one URL is expanded to. -/
def variants (tables : Tables) (domains : List String) (url : String) :
    Option (List String) :=
  if domains = [] then some [url]
  else
    (urlparse tables url.toList).map fun parsed =>
      (String.ofList parsed.netloc :: domains).map fun host =>
        String.ofList (urlunparse { parsed with netloc := host.toList })

/-- The body of the inner loop; `seen` is the set of what is in `expanded`. -/
def keepNew (expanded : List String) (replaced : String) : List String :=
  if replaced ∈ expanded then expanded else expanded ++ [replaced]

/-- The loop of `_expand_urls_across_domains` from a given `expanded`. -/
def expandFrom (tables : Tables) (domains : List String) :
    List String → List String → Option (List String)
  | expanded, [] => some expanded
  | expanded, url :: rest =>
      match variants tables domains url with
      | none => none
      | some found => expandFrom tables domains (found.foldl keepNew expanded)
          rest

def expandUrlsAcrossDomains (tables : Tables) (urls domains : List String) :
    Option (List String) :=
  if domains = [] then some urls else expandFrom tables domains [] urls

structure Provider where
  serviceId : String
  purgeAllServiceDomains : Bool := false
  deriving DecidableEq, Repr

/-- The answer to a GET, whose body may fail to decode. -/
inductive Answer (Body : Type) where
  | transport (error : String)
  | response (code : ℕ) (body : Except String Body)

structure Version where
  active : Bool
  number : Option ℤ
  deriving DecidableEq, Repr

/-- How the calls of one attempt go: the two GETs of the discovery, the POST
of each task, and the order in which the tasks end. -/
structure Calls where
  service : Answer (List Version)
  domains : ℤ → Answer (List (Option String))
  reply : ℕ → Reply
  order : List ℕ

/-- A GET of the discovery: its body, or the result that `purge` returns. -/
def readAnswer {Body : Type} : Answer Body →
    Except String (Except PurgeResult Body)
  | .transport error => .ok (.error ⟨false, true, "transport: " ++ error⟩)
  | .response code body =>
      if isSuccess code then body.map .ok
      else .ok (.error ⟨false, code ∈ retryableStatus,
        "domain discovery: HTTP " ++ toString code⟩)

/-- `v.get("number")` of the first active version. -/
def activeVersion (versions : List Version) : Option ℤ :=
  (versions.find? (·.active)).bind (·.number)

/-- The result for a service without an active version. -/
def noActiveVersion (tables : Tables) (provider : Provider) : PurgeResult :=
  ⟨false, false, "domain discovery: service " ++
    reprText tables.isPrintable provider.serviceId ++ " has no active version"⟩

/-- `_ensure_domains` on the cached domains; an outer error is an exception,
an inner one a result to return.  A discovery that succeeds fills the cache. -/
def ensureDomains (tables : Tables) (provider : Provider)
    (cache : Option (List String)) (calls : Calls) :
    Except String (Except PurgeResult (List String)) :=
  match cache with
  | some domains => .ok (.ok domains)
  | none =>
      match readAnswer calls.service with
      | .error error => .error error
      | .ok (.error result) => .ok (.error result)
      | .ok (.ok versions) =>
          match activeVersion versions with
          | none => .ok (.error (noActiveVersion tables provider))
          | some version =>
              match readAnswer (calls.domains version) with
              | .error error => .error error
              | .ok (.error result) => .ok (.error result)
              | .ok (.ok names) => .ok (.ok names.reduceOption)

/-- The URLs that `purge` calls `_purge_one` on. -/
def targets (tables : Tables) (provider : Provider)
    (cache : Option (List String)) (calls : Calls) (urls : List String) :
    Except String (Except PurgeResult (List String)) :=
  if provider.purgeAllServiceDomains then
    match ensureDomains tables provider cache calls with
    | .error error => .error error
    | .ok (.error result) => .ok (.error result)
    | .ok (.ok domains) =>
        match expandUrlsAcrossDomains tables urls domains with
        | none => .error (firstError tables urls)
        | some expanded => .ok (.ok expanded)
  else .ok (.ok urls)

/-- `_purge_one`, whose POST gets `reply`. -/
def purgeOne (tables : Tables) (reply : Reply) (url : String) :
    Except String PurgeResult :=
  perform (purgeEndpoint tables) (readReply retryableStatus)
    (fun url => urlparseError tables url.toList) reply url

/-- `purge`; `none` says that some call has not ended. -/
def purge (tables : Tables) (provider : Provider)
    (cache : Option (List String)) (calls : Calls) (urls : List String) :
    Option (Except String PurgeResult) :=
  if urls = [] then some (.ok ⟨true, false, "empty"⟩)
  else
    match targets tables provider cache calls urls with
    | .error error => some (.error error)
    | .ok (.error result) => some (.ok result)
    | .ok (.ok found) =>
        (gather (found.mapIdx fun place url =>
          purgeOne tables (calls.reply place) url) calls.order).map
            (·.map summarize)

/-- The POST requests of an attempt, with their replies. -/
def posts (tables : Tables) (provider : Provider)
    (cache : Option (List String)) (calls : Calls) (urls : List String) :
    List (String × Reply) :=
  match targets tables provider cache calls urls with
  | .ok (.ok found) => requests (purgeEndpoint tables) calls.reply found
  | _ => []

/-! ## The expansion -/

theorem mem_foldl_keepNew {found expanded : List String} {url : String} :
    url ∈ found.foldl keepNew expanded ↔ url ∈ expanded ∨ url ∈ found := by
  induction found generalizing expanded with
  | nil => simp
  | cons replaced rest ih =>
      rw [List.foldl_cons, ih, keepNew]
      split
      · rename_i hseen
        constructor
        · rintro (hmem | hmem)
          · exact .inl hmem
          · exact .inr (.tail _ hmem)
        · rintro (hmem | hmem)
          · exact .inl hmem
          · rcases List.mem_cons.mp hmem with rfl | hmem
            · exact .inl hseen
            · exact .inr hmem
      · simp [or_assoc]

theorem nodup_foldl_keepNew {found expanded : List String}
    (hexpanded : expanded.Nodup) : (found.foldl keepNew expanded).Nodup := by
  induction found generalizing expanded with
  | nil => exact hexpanded
  | cons replaced rest ih =>
      rw [List.foldl_cons, keepNew]
      split
      · exact ih hexpanded
      · rename_i hnew
        refine ih (List.nodup_append.mpr ⟨hexpanded, by simp, ?_⟩)
        rintro old hold _ hreplaced rfl
        exact hnew (List.mem_singleton.mp hreplaced ▸ hold)

/-- The loop fails at no URL, and collects the variants of all of them, each
once. -/
theorem expandFrom_spec {tables : Tables}
    {domains expanded urls result : List String}
    (hexpand : expandFrom tables domains expanded urls = some result) :
    (expanded.Nodup → result.Nodup) ∧
      (∀ url ∈ urls, ∃ found, variants tables domains url = some found) ∧
      ∀ text, text ∈ result ↔ text ∈ expanded ∨
        ∃ url ∈ urls, ∃ found, variants tables domains url = some found ∧
          text ∈ found := by
  induction urls generalizing expanded with
  | nil =>
      simp only [expandFrom, Option.some.injEq] at hexpand
      subst hexpand
      simp
  | cons url rest ih =>
      simp only [expandFrom] at hexpand
      split at hexpand
      · cases hexpand
      · rename_i found hfound
        obtain ⟨hnodup, hvariants, hmem⟩ := ih hexpand
        refine ⟨fun hexpanded => hnodup (nodup_foldl_keepNew hexpanded),
          List.forall_mem_cons.mpr ⟨⟨found, hfound⟩, hvariants⟩,
          fun text => ?_⟩
        rw [hmem, mem_foldl_keepNew, or_assoc]
        simp [hfound]

theorem exists_expandFrom {tables : Tables} {domains urls : List String}
    (hvariants : ∀ url ∈ urls, ∃ found, variants tables domains url = some found)
    (expanded : List String) :
    ∃ result, expandFrom tables domains expanded urls = some result := by
  induction urls generalizing expanded with
  | nil => exact ⟨expanded, rfl⟩
  | cons url rest ih =>
      obtain ⟨⟨found, hfound⟩, hrest⟩ := List.forall_mem_cons.mp hvariants
      simpa [expandFrom, hfound] using ih hrest _

/-- Every variant of every URL is among the expanded URLs. -/
theorem mem_expandUrls {tables : Tables} {urls domains expanded : List String}
    (hexpand : expandUrlsAcrossDomains tables urls domains = some expanded)
    {url : String} (hurl : url ∈ urls) :
    ∃ found, variants tables domains url = some found ∧
      ∀ variant ∈ found, variant ∈ expanded := by
  unfold expandUrlsAcrossDomains at hexpand
  split at hexpand
  · rename_i hdomains
    cases hexpand
    exact ⟨[url], by simp [variants, hdomains], by simpa using hurl⟩
  · obtain ⟨-, hvariants, hmem⟩ := expandFrom_spec hexpand
    obtain ⟨found, hfound⟩ := hvariants url hurl
    exact ⟨found, hfound, fun variant hvariant =>
      (hmem variant).mpr (.inr ⟨url, hurl, found, hfound, hvariant⟩)⟩

/-! ## What a result says about the calls -/

section Attempt

variable {tables : Tables} {provider : Provider}
variable {cache : Option (List String)} {calls : Calls}
variable {urls found : List String} {result : PurgeResult}

/-- `purge` returns once its calls have ended. -/
theorem purge_isSome (hended : ∀ found,
      targets tables provider cache calls urls = .ok (.ok found) →
        ∀ place < found.length, place ∈ calls.order) :
    (purge tables provider cache calls urls).isSome := by
  unfold purge
  split
  · rfl
  · split
    · rfl
    · rfl
    · rename_i found hfound
      rw [Option.isSome_map]
      exact gather_isSome (by simpa using hended found hfound)

/-- Once the targets are known, the result is the summary of the replies, and
every target has its POST. -/
theorem purge_summary (hurls : urls ≠ [])
    (htargets : targets tables provider cache calls urls = .ok (.ok found))
    (hpurge : purge tables provider cache calls urls = some (.ok result)) :
    result = summarize ((posts tables provider cache calls urls).map fun post =>
      readReply retryableStatus post.2) ∧
    ∀ url ∈ found, ∃ post ∈ posts tables provider cache calls urls,
      purgeEndpoint tables url = some post.1 := by
  simp only [purge, if_neg hurls, htargets] at hpurge
  obtain ⟨gathered, hgathered, hresult⟩ := Option.map_eq_some_iff.mp hpurge
  cases gathered with
  | error error => cases hresult
  | ok results =>
      cases hresult
      obtain ⟨hresults, hsent⟩ := requests_of_results (gather_ok hgathered)
      simp only [posts, htargets]
      exact ⟨by rw [hresults], hsent⟩

/-- A discovery that comes to nothing never says that the batch is done. -/
theorem ensureDomains_error (tables : Tables) (provider : Provider)
    {cache : Option (List String)} {calls : Calls}
    (hensure : ensureDomains tables provider cache calls = .ok (.error result)) :
    result.ok = false := by
  have hread : ∀ {Body : Type} {answer : Answer Body},
      readAnswer answer = .ok (.error result) → result.ok = false := by
    intro Body answer hanswer
    cases answer with
    | transport error =>
        cases hanswer
        rfl
    | response code body =>
        simp only [readAnswer] at hanswer
        split at hanswer
        · cases body <;> cases hanswer
        · cases hanswer
          rfl
  unfold ensureDomains at hensure
  split at hensure
  · cases hensure
  · split at hensure
    · cases hensure
    · cases hensure
      exact hread ‹_›
    · split at hensure
      · cases hensure
        rfl
      · split at hensure
        · cases hensure
        · cases hensure
          exact hread ‹_›
        · cases hensure

theorem targets_error
    (htargets : targets tables provider cache calls urls =
      .ok (.error result)) : result.ok = false := by
  unfold targets at htargets
  split at htargets
  · split at htargets
    · cases htargets
    · cases htargets
      exact ensureDomains_error tables provider ‹_›
    · split at htargets <;> cases htargets
  · cases htargets

/-- The domains that the URLs of an attempt are expanded across. -/
def domainsOf (tables : Tables) (provider : Provider)
    (cache : Option (List String)) (calls : Calls) :
    Except String (Except PurgeResult (List String)) :=
  if provider.purgeAllServiceDomains then
    ensureDomains tables provider cache calls
  else .ok (.ok [])

/-- Every variant of every URL was accepted: its POST came back with 2xx. -/
def Accepted (tables : Tables) (provider : Provider)
    (cache : Option (List String)) (calls : Calls) (urls : List String) :
    Prop :=
  ∃ domains, domainsOf tables provider cache calls = .ok (.ok domains) ∧
    ∀ url ∈ urls, ∃ found, variants tables domains url = some found ∧
      ∀ variant ∈ found, ∃ post ∈ posts tables provider cache calls urls,
        purgeEndpoint tables variant = some post.1 ∧ post.2.isSuccess

theorem accepted_of_ok (hurls : urls ≠ [])
    (hpurge : purge tables provider cache calls urls = some (.ok result))
    (hok : result.ok = true) : Accepted tables provider cache calls urls := by
  have hverdict := verdict_eq_accepted.mpr hok
  cases htargets : targets tables provider cache calls urls with
  | error error => simp [purge, hurls, htargets] at hpurge
  | ok found =>
      cases found with
      | error early =>
          have hearly : early = result := by
            simpa [purge, hurls, htargets] using hpurge
          simp [← hearly, targets_error htargets] at hok
      | ok found =>
          obtain ⟨hsummary, hsent⟩ := purge_summary hurls htargets hpurge
          rw [hsummary, summarize_accepted_iff] at hverdict
          have hposted : ∀ variant ∈ found,
              ∃ post ∈ posts tables provider cache calls urls,
                purgeEndpoint tables variant = some post.1 ∧
                  post.2.isSuccess := by
            intro variant hvariant
            obtain ⟨post, hpost, hendpoint⟩ := hsent variant hvariant
            exact ⟨post, hpost, hendpoint,
              readReply_verdict_eq_accepted.mp
                (hverdict _ (List.mem_map_of_mem hpost))⟩
          unfold targets at htargets
          unfold Accepted domainsOf
          split at htargets
          · rename_i hall
            rw [if_pos hall]
            split at htargets
            · cases htargets
            · cases htargets
            · rename_i domains hdomains
              refine ⟨domains, hdomains, fun url hurl => ?_⟩
              split at htargets
              · cases htargets
              · rename_i hexpand
                cases htargets
                obtain ⟨mine, hmine, hincluded⟩ := mem_expandUrls hexpand hurl
                exact ⟨mine, hmine, fun variant hvariant =>
                  hposted variant (hincluded variant hvariant)⟩
          · rename_i hall
            cases htargets
            rw [if_neg hall]
            refine ⟨[], rfl, fun url hurl => ⟨[url], by simp [variants], ?_⟩⟩
            simpa using hposted url hurl

end Attempt

end MirrorMirage.Providers.Fastly
