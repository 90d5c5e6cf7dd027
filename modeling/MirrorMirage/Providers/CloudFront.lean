import Mathlib.Data.Finset.Sort
import Mathlib.Data.String.Basic
import MirrorMirage.Providers.Base
import MirrorMirage.Stdlib.UrlParse

/-!
# The CloudFront provider

`providers/cloudfront.py`: one `create_invalidation` for the set of paths.
-/

namespace MirrorMirage.Providers.CloudFront

open MirrorMirage.UrlParse

def retryableCodes : List String :=
  ["Throttling", "ThrottlingException", "RequestLimitExceeded",
    "TooManyRequestsException", "ServiceUnavailable",
    "ServiceUnavailableException", "TooManyInvalidationsInProgress",
    "InternalFailure", "InternalServerError"]

/-- How the call in the thread ends. -/
inductive CallOutcome where
  | returned
  | credentialsError (error : String)
  | clientError (code error : String)
  | botoCoreError (error : String)
  | otherError (error : String)
  deriving DecidableEq, Repr

/-- The `Paths` of an invalidation batch. -/
structure Paths where
  quantity : ℕ
  items : List String
  deriving DecidableEq, Repr

/-- `urlparse(u).path or "/"`; `none` is a `ValueError`. -/
def pathOf (tables : Tables) (url : String) : Option String :=
  (urlparse tables url.toList).map fun parsed =>
    if parsed.path = [] then "/" else String.ofList parsed.path

/-- The sorted set of the paths. -/
def paths (tables : Tables) (urls : List String) : Option Paths :=
  (urls.mapM (pathOf tables)).map fun found =>
    let items := found.toFinset.sort (· ≤ ·)
    ⟨items.length, items⟩

def readCall : CallOutcome → PurgeResult
  | .returned => ⟨true, false, "ok"⟩
  | .credentialsError error => ⟨false, false, "auth: " ++ error⟩
  | .clientError code error =>
      ⟨false, code ∈ retryableCodes, code ++ ": " ++ error⟩
  | .botoCoreError error => ⟨false, true, "botocore: " ++ error⟩
  | .otherError error => ⟨false, true, "transport: " ++ error⟩

/-- `purge`, whose call in the thread ends with `outcome`. -/
def purge (tables : Tables) (outcome : CallOutcome) (urls : List String) :
    Except String PurgeResult :=
  if urls = [] then .ok ⟨true, false, "empty"⟩
  else
    match paths tables urls with
    | none => .error (firstError tables urls)
    | some _ => .ok (readCall outcome)

/-- The `create_invalidation` calls of an attempt. -/
def invalidations (tables : Tables) (outcome : CallOutcome)
    (urls : List String) : List (Paths × CallOutcome) :=
  if urls = [] then [] else
    match paths tables urls with
    | none => []
    | some batch => [(batch, outcome)]

/-- One invalidation returned normally, and it lists the path of every URL
once. -/
def Accepted (tables : Tables) (outcome : CallOutcome) (urls : List String) :
    Prop :=
  ∃ batch, (batch, CallOutcome.returned) ∈ invalidations tables outcome urls ∧
    batch.quantity = batch.items.length ∧
    ∀ url ∈ urls, ∃ path, pathOf tables url = some path ∧
      batch.items.count path = 1

theorem mapM_pathOf {tables : Tables} {urls found : List String}
    (hfound : urls.mapM (pathOf tables) = some found) :
    ∀ url ∈ urls, ∃ path ∈ found, pathOf tables url = some path := by
  induction urls generalizing found with
  | nil => simp
  | cons url rest ih =>
      rw [List.mapM_cons] at hfound
      obtain ⟨path, hpath, hfound⟩ := Option.bind_eq_some_iff.mp hfound
      obtain ⟨later, hlater, hfound⟩ := Option.bind_eq_some_iff.mp hfound
      cases hfound
      intro other hother
      rcases List.mem_cons.mp hother with rfl | hother
      · exact ⟨path, .head _, hpath⟩
      · obtain ⟨mine, hmine, heq⟩ := ih hlater other hother
        exact ⟨mine, .tail _ hmine, heq⟩

theorem accepted_of_ok {tables : Tables} {outcome : CallOutcome}
    {urls : List String} {result : PurgeResult} (hurls : urls ≠ [])
    (hpurge : purge tables outcome urls = .ok result)
    (hok : result.ok = true) : Accepted tables outcome urls := by
  simp only [purge, if_neg hurls] at hpurge
  split at hpurge
  · cases hpurge
  · rename_i batch hbatch
    cases hpurge
    have houtcome : outcome = .returned := by
      cases outcome <;> first | rfl | cases hok
    subst houtcome
    refine ⟨batch, by simp [invalidations, hurls, hbatch], ?_⟩
    obtain ⟨found, hfound, rfl⟩ := Option.map_eq_some_iff.mp hbatch
    refine ⟨rfl, fun url hurl => ?_⟩
    obtain ⟨path, hpath, hurlPath⟩ := mapM_pathOf hfound url hurl
    refine ⟨path, hurlPath, ?_⟩
    change (found.toFinset.sort (· ≤ ·)).count path = 1
    refine List.count_eq_one_of_mem (Finset.sort_nodup _ _) ?_
    exact (Finset.mem_sort _).mpr (List.mem_toFinset.mpr hpath)

end MirrorMirage.Providers.CloudFront
