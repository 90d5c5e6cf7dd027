import Mathlib.Logic.Function.Basic
import MirrorMirage.Core.Run
import MirrorMirage.Providers.Fastly

/-!
# Concurrent calls of one Fastly provider

`purge` calls with `purge_all_service_domains` that share `_domains` and its
lock.  Each call waits for the lock, finds the domains or asks for them with
two GETs under the lock, and expands its URLs.  Between a GET and its reply, and
while a call waits for the lock, the other calls go on; an exception may end a
call at any await.  The tasks of the `gather` send one POST for each URL in any
order; when they end has no bearing on the domains and is left out.
-/

namespace MirrorMirage.Providers.Fastly.Discovery

open Function (update)
open MirrorMirage.Run MirrorMirage.UrlParse

/-- Where a `purge` call is. -/
inductive Point where
  | absent
  | locking (urls : List String)
  | service (urls : List String)
  | domains (urls : List String) (version : ℤ)
  | posting (rest : List String)
  | done
  deriving DecidableEq, Repr

/-- The call is between the lock and its release. -/
def Point.isDiscovering : Point → Bool
  | .service _ | .domains _ _ => true
  | _ => false

structure State where
  cache : Option (List String)
  lock : Option ℕ
  point : ℕ → Point

/-- A new provider. -/
def init : State where
  cache := none
  lock := none
  point := fun _ => .absent

inductive Obs where
  | called (call : ℕ) (urls : List String)
  /-- The GET of the service has been sent. -/
  | getService (call : ℕ)
  | gotService (call : ℕ) (answer : Answer (List Version))
  /-- The GET of the domains of a version has been sent. -/
  | getDomains (call : ℕ) (version : ℤ)
  | gotDomains (call : ℕ) (answer : Answer (List (Option String)))
  /-- The tasks for these URLs have been created. -/
  | expanded (call : ℕ) (targets : List String)
  | posted (call : ℕ) (url : String)
  /-- The call returns or raises without a task. -/
  | ended (call : ℕ) (outcome : Except String PurgeResult)

inductive Action where
  | purge (call : ℕ) (urls : List String)
  /-- The call gets the lock. -/
  | acquire (call : ℕ)
  | serviceReply (call : ℕ) (answer : Answer (List Version))
  | domainsReply (call : ℕ) (answer : Answer (List (Option String)))
  /-- What the call awaits raises something else than `httpx.HTTPError`. -/
  | raise (call : ℕ) (error : String)
  /-- The task at this place among the remaining ones sends its POST. -/
  | post (call place : ℕ)

def State.goto (s : State) (call : ℕ) (point : Point) : State :=
  { s with point := update s.point call point }

/-- A call that is over without a task. -/
def State.finish (s : State) (call : ℕ) (outcome : Except String PurgeResult) :
    State × List Obs :=
  (s.goto call .done, [.ended call outcome])

def State.release (s : State) : State := { s with lock := none }

/-- `purge` from the domains to its `gather`. -/
def State.expand (tables : Tables) (s : State) (call : ℕ)
    (urls domains : List String) : State × List Obs :=
  match expandUrlsAcrossDomains tables urls domains with
  | none => s.finish call (.error (firstError tables urls))
  | some targets => (s.goto call (.posting targets), [.expanded call targets])

/-- Observations before those of a step. -/
def note (event : Obs) (next : State × List Obs) : Option (State × List Obs) :=
  some (next.1, event :: next.2)

def step (tables : Tables) (provider : Provider) (s : State) :
    Action → Option (State × List Obs)
  | .purge call urls =>
      if s.point call = .absent then
        if urls = [] then
          note (.called call urls) (s.finish call (.ok ⟨true, false, "empty"⟩))
        else note (.called call urls) (s.goto call (.locking urls), [])
      else none
  | .acquire call =>
      match s.point call with
      | .locking urls =>
          if s.lock = none then
            match s.cache with
            | some domains => some (s.expand tables call urls domains)
            | none =>
                some ({ s.goto call (.service urls) with lock := some call },
                  [.getService call])
          else none
      | _ => none
  | .serviceReply call answer =>
      match s.point call with
      | .service urls =>
          match readAnswer answer with
          | .error error =>
              note (.gotService call answer)
                (s.release.finish call (.error error))
          | .ok (.error result) =>
              note (.gotService call answer)
                (s.release.finish call (.ok result))
          | .ok (.ok versions) =>
              match activeVersion versions with
              | none =>
                  note (.gotService call answer)
                    (s.release.finish call
                      (.ok (noActiveVersion tables provider)))
              | some version =>
                  note (.gotService call answer)
                    (s.goto call (.domains urls version),
                      [.getDomains call version])
      | _ => none
  | .domainsReply call answer =>
      match s.point call with
      | .domains urls _ =>
          match readAnswer answer with
          | .error error =>
              note (.gotDomains call answer)
                (s.release.finish call (.error error))
          | .ok (.error result) =>
              note (.gotDomains call answer)
                (s.release.finish call (.ok result))
          | .ok (.ok names) =>
              note (.gotDomains call answer)
                ({ s.release with cache := some names.reduceOption }.expand
                  tables call urls names.reduceOption)
      | _ => none
  | .raise call error =>
      match s.point call with
      | .locking _ => some (s.finish call (.error error))
      | .service _ | .domains _ _ =>
          some (s.release.finish call (.error error))
      | _ => none
  | .post call place =>
      match s.point call with
      | .posting rest =>
          match rest[place]? with
          | none => none
          | some url =>
              some (s.goto call (.posting (rest.eraseIdx place)),
                if purgeEndpoint tables url = none then []
                else [.posted call url])
      | _ => none

/-! ## What one step can do -/

/-- The call that an observation is about. -/
def Obs.call : Obs → ℕ
  | .called call _ | .getService call | .gotService call _
  | .getDomains call _ | .gotDomains call _ | .expanded call _
  | .posted call _ | .ended call _ => call

/-- A POST, or the tasks for it. -/
def Obs.isSent : Obs → Bool
  | .expanded _ _ | .posted _ _ => true
  | _ => false

def Obs.isGet : Obs → Bool
  | .getService _ | .getDomains _ _ => true
  | _ => false

/-- The accepted actions, with their guards, next states and observations. -/
inductive Move (tables : Tables) (s : State) (call : ℕ) :
    State → List Obs → Prop where
  | enter {urls : List String} (hpoint : s.point call = .absent)
      (hurls : urls ≠ []) :
      Move tables s call (s.goto call (.locking urls)) [.called call urls]
  | empty (hpoint : s.point call = .absent)
      {outcome : Except String PurgeResult} :
      Move tables s call (s.goto call .done)
        [.called call [], .ended call outcome]
  | hit {urls names targets : List String}
      (hpoint : s.point call = .locking urls) (hcache : s.cache = some names)
      (hexpand : expandUrlsAcrossDomains tables urls names = some targets) :
      Move tables s call (s.goto call (.posting targets))
        [.expanded call targets]
  | leave {urls : List String} {outcome : Except String PurgeResult}
      (hpoint : s.point call = .locking urls) :
      Move tables s call (s.goto call .done) [.ended call outcome]
  | begin {urls : List String} (hpoint : s.point call = .locking urls)
      (hlock : s.lock = none) (hcache : s.cache = none) :
      Move tables s call { s.goto call (.service urls) with lock := some call }
        [.getService call]
  | list {urls : List String} {code : ℕ} {versions : List Version}
      {version : ℤ} (hpoint : s.point call = .service urls)
      (hok : isSuccess code) (hversion : activeVersion versions = some version) :
      Move tables s call (s.goto call (.domains urls version))
        [.gotService call (.response code (.ok versions)),
          .getDomains call version]
  | fill {urls targets : List String} {version : ℤ} {code : ℕ}
      {names : List (Option String)}
      (hpoint : s.point call = .domains urls version) (hok : isSuccess code)
      (hexpand : expandUrlsAcrossDomains tables urls names.reduceOption =
        some targets) :
      Move tables s call
        ({ s.release with cache := some names.reduceOption }.goto call
          (.posting targets))
        [.gotDomains call (.response code (.ok names)), .expanded call targets]
  | fillOnly {urls : List String} {version : ℤ} {code : ℕ}
      {names : List (Option String)} {outcome : Except String PurgeResult}
      (hpoint : s.point call = .domains urls version) (hok : isSuccess code) :
      Move tables s call
        ({ s.release with cache := some names.reduceOption }.goto call .done)
        [.gotDomains call (.response code (.ok names)), .ended call outcome]
  | quit {out : List Obs} (hpoint : (s.point call).isDiscovering)
      (hcall : ∀ event ∈ out, event.call = call)
      (hsilent : ∀ event ∈ out, ¬ event.isSent ∧ ¬ event.isGet) :
      Move tables s call (s.release.goto call .done) out
  | post {rest : List String} {place : ℕ} {url : String}
      (hpoint : s.point call = .posting rest)
      (hurl : rest[place]? = some url) :
      Move tables s call (s.goto call (.posting (rest.eraseIdx place)))
        [.posted call url]
  | skip {rest : List String} {place : ℕ}
      (hpoint : s.point call = .posting rest) :
      Move tables s call (s.goto call (.posting (rest.eraseIdx place))) []

section Step

variable {tables : Tables} {provider : Provider} {s after : State}
variable {action : Action} {out : List Obs}

theorem readAnswer_ok {Body : Type} {answer : Answer Body} {body : Body}
    (hread : readAnswer answer = .ok (.ok body)) :
    ∃ code, isSuccess code ∧ answer = .response code (.ok body) := by
  cases answer with
  | transport error => cases hread
  | response code found =>
      simp only [readAnswer] at hread
      split at hread
      · cases found <;> cases hread
        exact ⟨code, ‹_›, rfl⟩
      · cases hread

theorem move_of_step
    (hstep : step tables provider s action = some (after, out)) :
    ∃ call, Move tables s call after out := by
  cases action with
  | purge call urls =>
      simp only [step] at hstep
      split at hstep
      · split at hstep <;> cases hstep
        · subst urls
          exact ⟨call, .empty ‹_›⟩
        · exact ⟨call, .enter ‹_› ‹_›⟩
      · cases hstep
  | acquire call =>
      simp only [step] at hstep
      split at hstep
      · split at hstep
        · split at hstep
          · simp only [State.expand] at hstep
            split at hstep <;> cases hstep
            · exact ⟨call, .leave ‹_›⟩
            · exact ⟨call, .hit ‹_› ‹_› ‹_›⟩
          · cases hstep
            exact ⟨call, .begin ‹_› ‹_› ‹_›⟩
        · cases hstep
      · cases hstep
  | serviceReply call answer =>
      simp only [step] at hstep
      split at hstep
      · rename_i urls hpoint
        have hquit : ∀ outcome, Move tables s call (s.release.goto call .done)
            [.gotService call answer, .ended call outcome] :=
          fun outcome => .quit (by rw [hpoint]; rfl) (by simp [Obs.call])
            (by simp [Obs.isSent, Obs.isGet])
        split at hstep
        · cases hstep
          exact ⟨call, hquit _⟩
        · cases hstep
          exact ⟨call, hquit _⟩
        · rename_i versions hread
          split at hstep
          · cases hstep
            exact ⟨call, hquit _⟩
          · rename_i version hversion
            cases hstep
            obtain ⟨code, hok, rfl⟩ := readAnswer_ok hread
            exact ⟨call, .list hpoint hok hversion⟩
      · cases hstep
  | domainsReply call answer =>
      simp only [step] at hstep
      split at hstep
      · rename_i urls version hpoint
        have hquit : ∀ outcome, Move tables s call (s.release.goto call .done)
            [.gotDomains call answer, .ended call outcome] :=
          fun outcome => .quit (by rw [hpoint]; rfl) (by simp [Obs.call])
            (by simp [Obs.isSent, Obs.isGet])
        split at hstep
        · cases hstep
          exact ⟨call, hquit _⟩
        · cases hstep
          exact ⟨call, hquit _⟩
        · rename_i names hread
          obtain ⟨code, hok, rfl⟩ := readAnswer_ok hread
          simp only [State.expand] at hstep
          split at hstep <;> cases hstep
          · exact ⟨call, .fillOnly hpoint hok⟩
          · exact ⟨call, .fill hpoint hok ‹_›⟩
      · cases hstep
  | raise call error =>
      simp only [step] at hstep
      split at hstep
      · cases hstep
        exact ⟨call, .leave ‹_›⟩
      · rename_i hpoint
        cases hstep
        exact ⟨call, .quit (by rw [hpoint]; rfl) (by simp [Obs.call])
          (by simp [Obs.isSent, Obs.isGet])⟩
      · rename_i hpoint
        cases hstep
        exact ⟨call, .quit (by rw [hpoint]; rfl) (by simp [Obs.call])
          (by simp [Obs.isSent, Obs.isGet])⟩
      · cases hstep
  | post call place =>
      simp only [step] at hstep
      split at hstep
      · split at hstep
        · cases hstep
        · split at hstep <;> cases hstep
          · exact ⟨call, .skip ‹_›⟩
          · exact ⟨call, .post ‹_› ‹_›⟩
      · cases hstep

end Step

/-! ## The course of a call -/

/-- Both GETs of the call came back with 2xx: the first asked for the first
active version, the second for its domains, which have these names. -/
def Discovered (trace : List Obs) (call : ℕ) (names : List String) : Prop :=
  ∃ code versions version code' found,
    isSuccess code ∧ activeVersion versions = some version ∧ isSuccess code' ∧
    names = found.reduceOption ∧
    .gotService call (.response code (.ok versions)) ∈ trace ∧
    .getDomains call version ∈ trace ∧
    .gotDomains call (.response code' (.ok found)) ∈ trace

/-- What has been observed of a call by each of its points, and what the lock
and the cache have to be there. -/
inductive Course (tables : Tables) (s : State) (call : ℕ) :
    List Obs → Point → Prop where
  | absent : Course tables s call [] .absent
  | locking {urls : List String} :
      Course tables s call [.called call urls] (.locking urls)
  | service {urls : List String} (hlock : s.lock = some call)
      (hcache : s.cache = none) :
      Course tables s call [.called call urls, .getService call]
        (.service urls)
  | domains {urls : List String} {code : ℕ} {versions : List Version}
      {version : ℤ} (hlock : s.lock = some call) (hcache : s.cache = none)
      (hok : isSuccess code) (hversion : activeVersion versions = some version) :
      Course tables s call
        [.called call urls, .getService call,
          .gotService call (.response code (.ok versions)),
          .getDomains call version] (.domains urls version)
  | posting {before : List Obs} {urls names targets posts rest : List String}
      (hcalled : .called call urls ∈ before)
      (hsilent : ∀ event ∈ before, ¬ event.isSent)
      (hended : ∀ outcome, .ended call outcome ∉ before)
      (hcache : s.cache = some names)
      (hexpand : expandUrlsAcrossDomains tables urls names = some targets)
      (hposts : ∀ url ∈ posts, url ∈ targets)
      (hrest : ∀ url ∈ rest, url ∈ targets) :
      Course tables s call
        (before ++ .expanded call targets :: posts.map (.posted call))
        (.posting rest)
  | done {before : List Obs} (hsilent : ∀ event ∈ before, ¬ event.isSent) :
      Course tables s call before .done

/-- What has been observed of a call. -/
def heard (call : ℕ) (trace : List Obs) : List Obs :=
  trace.filter fun event => event.call = call

structure Orderly (tables : Tables) (trace : List Obs) (s : State) : Prop where
  courses : ∀ call, Course tables s call (heard call trace) (s.point call)
  discovered : ∀ names, s.cache = some names →
    ∃ call, Discovered trace call names

section Orderly

variable {tables : Tables} {provider : Provider} {s after : State}
variable {trace out : List Obs} {call other : ℕ} {point : Point}

theorem orderly_init : Orderly tables [] init where
  courses := fun _ => .absent
  discovered := by simp [init]

theorem mem_heard {event : Obs} (hevent : event.call = call) :
    event ∈ heard call trace ↔ event ∈ trace := by
  simp [heard, hevent]

theorem heard_append_own (hcall : ∀ event ∈ out, event.call = call) :
    heard call (trace ++ out) = heard call trace ++ out := by
  have hout : out.filter (fun event => event.call = call) = out :=
    List.filter_eq_self.mpr (by simpa using hcall)
  rw [heard, List.filter_append, hout, heard]

theorem heard_append_other (hcall : ∀ event ∈ out, event.call = call)
    (hother : other ≠ call) : heard other (trace ++ out) = heard other trace := by
  have hout : out.filter (fun event => event.call = other) = [] := by
    refine List.filter_eq_nil_iff.mpr fun event hevent => ?_
    simp [hcall event hevent, Ne.symm hother]
  rw [heard, List.filter_append, hout, List.append_nil, heard]

/-- The lock and the cache may change as long as the call does not mind. -/
theorem Course.frame {past : List Obs} (h : Course tables s call past point)
    (hlock : s.lock = some call → after.lock = s.lock ∧ after.cache = s.cache)
    (hcache : s.cache ≠ none → after.cache = s.cache) :
    Course tables after call past point := by
  cases h with
  | absent => exact .absent
  | locking => exact .locking
  | service hheld hnone =>
      obtain ⟨hlock', hcache'⟩ := hlock hheld
      exact .service (hlock'.trans hheld) (hcache'.trans hnone)
  | domains hheld hnone hok hversion =>
      obtain ⟨hlock', hcache'⟩ := hlock hheld
      exact .domains (hlock'.trans hheld) (hcache'.trans hnone) hok hversion
  | posting hcalled hsilent hended hnames hexpand hposts hrest =>
      exact .posting hcalled hsilent hended
        ((hcache (by simp [hnames])).trans hnames) hexpand hposts hrest
  | done hsilent => exact .done hsilent

/-- A call in its discovery has the lock, and there are no domains yet. -/
theorem Orderly.discovering (h : Orderly tables trace s)
    (hpoint : (s.point call).isDiscovering) :
    s.lock = some call ∧ s.cache = none := by
  have hcourse := h.courses call
  generalize heard call trace = past at hcourse
  generalize s.point call = point at hpoint hcourse
  cases hcourse with
  | service hlock hcache | domains hlock hcache => exact ⟨hlock, hcache⟩
  | _ => cases hpoint

theorem Move.call_eq (hmove : Move tables s call after out) :
    ∀ event ∈ out, event.call = call := by
  cases hmove with
  | quit hpoint hcall => exact hcall
  | _ => simp [Obs.call]

/-- A move is one of its call, and changes the lock and the cache in its
discovery only. -/
theorem Orderly.frame (h : Orderly tables trace s)
    (hmove : Move tables s call after out) (hother : other ≠ call) :
    after.point other = s.point other ∧
      (s.lock = some other → after.lock = s.lock ∧ after.cache = s.cache) ∧
      (s.cache ≠ none → after.cache = s.cache) := by
  cases hmove with
  | begin hpoint hlock hcache =>
      exact ⟨by simp [State.goto, hother], by simp [hlock], fun _ => rfl⟩
  | fill hpoint | fillOnly hpoint =>
      have hdiscovering : (s.point call).isDiscovering := by rw [hpoint]; rfl
      obtain ⟨hlock, hcache⟩ := h.discovering hdiscovering
      refine ⟨by simp [State.goto, State.release, hother], ?_, ?_⟩
      · simp [hlock, Ne.symm hother]
      · simp [hcache]
  | quit hpoint =>
      obtain ⟨hlock, hcache⟩ := h.discovering hpoint
      refine ⟨by simp [State.goto, State.release, hother], ?_, fun _ => rfl⟩
      simp [hlock, Ne.symm hother]
  | _ => exact ⟨by simp [State.goto, hother], fun _ => ⟨rfl, rfl⟩, fun _ => rfl⟩

@[simp] theorem goto_point_self : (s.goto call point).point call = point := by
  simp [State.goto]

/-- A call comes to its tasks. -/
theorem Course.expand {before : List Obs} {urls names targets : List String}
    (hcalled : .called call urls ∈ before)
    (hsilent : ∀ event ∈ before, ¬ event.isSent)
    (hended : ∀ outcome, .ended call outcome ∉ before)
    (hcache : s.cache = some names)
    (hexpand : expandUrlsAcrossDomains tables urls names = some targets) :
    Course tables s call (before ++ [.expanded call targets])
      (.posting targets) := by
  have hposting : Course tables s call
      (before ++ .expanded call targets :: [].map (.posted call))
      (.posting targets) :=
    .posting hcalled hsilent hended hcache hexpand (by simp)
      fun _ hurl => hurl
  exact hposting

theorem Course.unsent {past : List Obs}
    (h : Course tables s call past point) (hpoint : point.isDiscovering) :
    ∀ event ∈ past, ¬ event.isSent := by
  cases h with
  | service | domains => simp [Obs.isSent]
  | _ => cases hpoint

/-- The course of the call that moves. -/
theorem Course.move {past : List Obs}
    (h : Course tables s call past (s.point call))
    (hmove : Move tables s call after out) :
    Course tables after call (past ++ out) (after.point call) := by
  cases hmove with
  | enter hpoint hurls =>
      rw [hpoint] at h
      cases h
      rw [goto_point_self]
      exact .locking
  | empty hpoint =>
      rw [hpoint] at h
      cases h
      rw [goto_point_self]
      exact .done (by simp [Obs.isSent])
  | hit hpoint hcache hexpand =>
      rw [hpoint] at h
      cases h
      rw [goto_point_self]
      exact .expand (List.mem_singleton_self _) (by simp [Obs.isSent]) (by simp)
        hcache hexpand
  | leave hpoint =>
      rw [hpoint] at h
      cases h
      rw [goto_point_self]
      exact .done (by simp [Obs.isSent])
  | begin hpoint hlock hcache =>
      rw [hpoint] at h
      cases h
      simp only [goto_point_self]
      exact .service rfl hcache
  | list hpoint hok hversion =>
      rw [hpoint] at h
      cases h with
      | service hlock hcache =>
          rw [goto_point_self]
          exact .domains hlock hcache hok hversion
  | @fill urls targets version code names hpoint hok hexpand =>
      rw [hpoint] at h
      cases h with
      | domains =>
          rw [goto_point_self]
          rw [List.append_cons]
          exact .expand (by simp) (by simp [Obs.isSent]) (by simp) rfl hexpand
  | fillOnly hpoint hok =>
      rw [hpoint] at h
      cases h
      rw [goto_point_self]
      exact .done (by simp [Obs.isSent])
  | quit hpoint hcall hsilent =>
      rw [goto_point_self]
      refine .done fun event hevent => ?_
      rcases List.mem_append.mp hevent with hevent | hevent
      · exact h.unsent hpoint event hevent
      · exact (hsilent event hevent).1
  | @post rest place url hpoint hurl =>
      rw [hpoint] at h
      cases h with
      | @posting before urls names targets posts rest hcalled hsilent hended
          hcache hexpand hposts hrest =>
          rw [goto_point_self, List.append_assoc, List.cons_append,
            ← List.map_singleton, ← List.map_append]
          refine .posting hcalled hsilent hended hcache hexpand ?_ ?_
          · intro other hother
            rcases List.mem_append.mp hother with hother | hother
            · exact hposts other hother
            · obtain rfl := List.mem_singleton.mp hother
              exact hrest _ (List.mem_of_getElem? hurl)
          · exact fun other hother => hrest other (List.mem_of_mem_eraseIdx hother)
  | skip hpoint =>
      rw [hpoint] at h
      cases h with
      | posting hcalled hsilent hended hcache hexpand hposts hrest =>
          rw [goto_point_self, List.append_nil]
          exact .posting hcalled hsilent hended hcache hexpand hposts
            fun other hother => hrest other (List.mem_of_mem_eraseIdx hother)

theorem Discovered.append {names : List String}
    (h : Discovered trace call names) : Discovered (trace ++ out) call names := by
  obtain ⟨code, versions, version, code', found, hok, hversion, hok', heq,
    hservice, hget, hdomains⟩ := h
  exact ⟨code, versions, version, code', found, hok, hversion, hok', heq,
    List.mem_append_left _ hservice, List.mem_append_left _ hget,
    List.mem_append_left _ hdomains⟩

/-- The reply to the second GET fills the cache with what it lists. -/
theorem Orderly.filled (h : Orderly tables trace s) {urls : List String}
    {version : ℤ} {code : ℕ} {found : List (Option String)}
    (hpoint : s.point call = .domains urls version) (hok : isSuccess code)
    (hout : .gotDomains call (.response code (.ok found)) ∈ out) :
    Discovered (trace ++ out) call found.reduceOption := by
  have hcourse := h.courses call
  have hmem : ∀ event ∈ heard call trace, event ∈ trace ++ out :=
    fun event hevent => List.mem_append_left _ (List.mem_of_mem_filter hevent)
  generalize heard call trace = past at hcourse hmem
  rw [hpoint] at hcourse
  cases hcourse with
  | domains hlock hcache hservice hversion =>
      exact ⟨_, _, version, code, found, hservice, hversion, hok, rfl,
        hmem _ (by simp), hmem _ (by simp), List.mem_append_right _ hout⟩

theorem Orderly.move (h : Orderly tables trace s)
    (hmove : Move tables s call after out) :
    Orderly tables (trace ++ out) after where
  courses := by
    intro other
    by_cases hother : other = call
    · subst hother
      rw [heard_append_own hmove.call_eq]
      exact (h.courses other).move hmove
    · obtain ⟨hpoint, hlock, hcache⟩ := h.frame hmove hother
      rw [heard_append_other hmove.call_eq hother, hpoint]
      exact (h.courses other).frame hlock hcache
  discovered := by
    intro names hnames
    have hold : s.cache = some names →
        ∃ call, Discovered (trace ++ out) call names := by
      intro hcache
      obtain ⟨call, hcall⟩ := h.discovered names hcache
      exact ⟨call, hcall.append⟩
    cases hmove with
    | fill hpoint hok | fillOnly hpoint hok =>
        cases hnames
        exact ⟨call, h.filled hpoint hok (List.mem_cons_self ..)⟩
    | _ => exact hold hnames

theorem orderly_of_reaches
    (hrun : Reaches (step tables provider) (fun _ _ => True) init trace s) :
    Orderly tables trace s :=
  hrun.invariant (fun trace s => Orderly tables trace s) orderly_init
    fun h _ hstep =>
      let ⟨_, hmove⟩ := move_of_step hstep
      h.move hmove

end Orderly

/-- The names are those that `_ensure_domains` finds when it runs alone with
the same replies. -/
theorem Discovered.ensureDomains_eq {trace : List Obs} {call : ℕ}
    {names : List String} (h : Discovered trace call names)
    (tables : Tables) (provider : Provider) {calls : Calls}
    (hservice : ∀ answer, .gotService call answer ∈ trace →
      calls.service = answer)
    (hdomains : ∀ version answer, .getDomains call version ∈ trace →
      .gotDomains call answer ∈ trace → calls.domains version = answer) :
    ensureDomains tables provider none calls = .ok (.ok names) := by
  obtain ⟨code, versions, version, code', found, hok, hversion, hok', rfl,
    hanswer, hget, hanswer'⟩ := h
  simp [ensureDomains, hservice _ hanswer, hdomains _ _ hget hanswer',
    readAnswer, hok, hok', hversion, Except.map]

/-! ## Runs -/

section Runs

variable {tables : Tables} {provider : Provider} {s after : State}
variable {trace out : List Obs} {action : Action} {call : ℕ}

/-- A step leaves the cache alone, or fills it from the reply to a second
GET. -/
theorem cache_of_step (hrun : Orderly tables trace s)
    (hstep : step tables provider s action = some (after, out)) :
    after.cache = s.cache ∨ (s.cache = none ∧ ∃ call names,
      after.cache = some names ∧ Discovered (trace ++ out) call names) := by
  obtain ⟨call, hmove⟩ := move_of_step hstep
  cases hmove with
  | fill hpoint hok | fillOnly hpoint hok =>
      have hdiscovering : (s.point call).isDiscovering := by rw [hpoint]; rfl
      exact .inr ⟨(hrun.discovering hdiscovering).2, call, _, rfl,
        hrun.filled hpoint hok (List.mem_cons_self ..)⟩
  | _ => exact .inl rfl

/-- With domains in the cache, no step asks for any. -/
theorem no_get_of_step (hrun : Orderly tables trace s)
    (hcache : s.cache ≠ none)
    (hstep : step tables provider s action = some (after, out)) :
    ∀ event ∈ out, ¬ event.isGet := by
  obtain ⟨call, hmove⟩ := move_of_step hstep
  cases hmove with
  | begin hpoint hlock hnone => exact absurd hnone hcache
  | list hpoint =>
      have hdiscovering : (s.point call).isDiscovering := by rw [hpoint]; rfl
      exact absurd (hrun.discovering hdiscovering).2 hcache
  | quit hpoint hcall hsilent => exact fun event hevent => (hsilent event hevent).2
  | _ => simp [Obs.isGet]

/-- Once the cache is filled it stays as it is, and no GET is sent. -/
theorem cache_stays (hrun : Orderly tables trace s) {names : List String}
    (hcache : s.cache = some names) {later : List Obs} {s' : State}
    (hlater : Reaches (step tables provider) (fun _ _ => True) s later s') :
    s'.cache = some names ∧ ∀ event ∈ later, ¬ event.isGet := by
  have hinv : Orderly tables (trace ++ later) s' ∧ s'.cache = some names ∧
      ∀ event ∈ later, ¬ event.isGet := by
    refine hlater.invariant (fun later s' => Orderly tables (trace ++ later) s' ∧
      s'.cache = some names ∧ ∀ event ∈ later, ¬ event.isGet)
      ⟨by simpa using hrun, hcache, by simp⟩ ?_
    rintro later s' action after out ⟨horderly, hnames, hno⟩ - hstep
    obtain ⟨call, hmove⟩ := move_of_step hstep
    refine ⟨by simpa using horderly.move hmove, ?_, ?_⟩
    · rcases cache_of_step horderly hstep with heq | ⟨hnone, -⟩
      · rw [heq, hnames]
      · simp [hnames] at hnone
    · intro event hevent
      rcases List.mem_append.mp hevent with hevent | hevent
      · exact hno event hevent
      · exact no_get_of_step horderly (by simp [hnames]) hstep event hevent
  exact hinv.2

/-- The tasks of a call are those for the cached domains. -/
theorem Orderly.sent (h : Orderly tables trace s) {targets : List String}
    (hmem : .expanded call targets ∈ trace) :
    ∃ urls names, .called call urls ∈ trace ∧ s.cache = some names ∧
      expandUrlsAcrossDomains tables urls names = some targets := by
  have hcourse := h.courses call
  have hheard : .expanded call targets ∈ heard call trace :=
    (mem_heard rfl).mpr hmem
  have hback : ∀ event ∈ heard call trace, event ∈ trace :=
    fun event hevent => List.mem_of_mem_filter hevent
  generalize heard call trace = past at hcourse hheard hback
  generalize s.point call = point at hcourse
  cases hcourse with
  | @posting before urls names found posts rest hcalled hsilent hended hcache
      hexpand =>
      refine ⟨urls, names, hback _ (List.mem_append_left _ hcalled), hcache, ?_⟩
      rcases List.mem_append.mp hheard with hmem | hmem
      · exact absurd rfl (hsilent _ hmem)
      · obtain rfl : targets = found := by simpa using hmem
        exact hexpand
  | done hsilent => exact absurd rfl (hsilent _ hheard)
  | _ => simp at hheard

theorem Orderly.posted (h : Orderly tables trace s) {url : String}
    (hmem : .posted call url ∈ trace) :
    (∃ targets, .expanded call targets ∈ trace ∧ url ∈ targets) ∧
      ∀ outcome, .ended call outcome ∉ trace := by
  have hcourse := h.courses call
  have hheard : .posted call url ∈ heard call trace := (mem_heard rfl).mpr hmem
  have hback : ∀ {event}, event.call = call →
      (event ∈ heard call trace ↔ event ∈ trace) := mem_heard
  generalize heard call trace = past at hcourse hheard hback
  generalize s.point call = point at hcourse
  cases hcourse with
  | @posting before urls names found posts rest hcalled hsilent hended hcache
      hexpand hposts =>
      constructor
      · refine ⟨found, (hback rfl).mp (by simp), ?_⟩
        rcases List.mem_append.mp hheard with hmem | hmem
        · exact absurd rfl (hsilent _ hmem)
        · exact hposts url (by simpa using hmem)
      · intro outcome houtcome
        have hmem := (hback rfl).mpr houtcome
        rcases List.mem_append.mp hmem with hmem | hmem
        · exact hended outcome hmem
        · simp at hmem
  | done hsilent => exact absurd rfl (hsilent _ hheard)
  | _ => simp at hheard

/-- For all interleavings of `purge` calls on one provider and all outcomes of
its GETs.  At most one discovery is in progress.  The cache is filled once, by
a call both of whose GETs came back with 2xx, with the names of the domain
reply for the first active version; from then on it stays, and no GET is sent.
A call has POSTs for its URLs expanded across the cached domains only, and a
call that ends in another way has none. -/
theorem discovery_is_all_or_nothing
    (hrun : Reaches (step tables provider) (fun _ _ => True) init trace s) :
    (∀ call other, (s.point call).isDiscovering →
      (s.point other).isDiscovering → call = other) ∧
    (∀ names, s.cache = some names → ∃ call, Discovered trace call names) ∧
    (∀ action after out, step tables provider s action = some (after, out) →
      after.cache = s.cache ∨ (s.cache = none ∧ ∃ call names,
        after.cache = some names ∧ Discovered (trace ++ out) call names)) ∧
    (∀ names later s', s.cache = some names →
      Reaches (step tables provider) (fun _ _ => True) s later s' →
        s'.cache = some names ∧ ∀ event ∈ later, ¬ event.isGet) ∧
    (∀ call targets, .expanded call targets ∈ trace →
      ∃ urls names, .called call urls ∈ trace ∧ s.cache = some names ∧
        expandUrlsAcrossDomains tables urls names = some targets) ∧
    (∀ call url, .posted call url ∈ trace →
      (∃ targets, .expanded call targets ∈ trace ∧ url ∈ targets) ∧
        ∀ outcome, .ended call outcome ∉ trace) := by
  have horderly := orderly_of_reaches hrun
  refine ⟨?_, horderly.discovered, fun action after out hstep =>
    cache_of_step horderly hstep, fun names later s' hcache hlater =>
      cache_stays horderly hcache hlater, fun call targets hmem =>
        horderly.sent hmem, fun call url hmem => horderly.posted hmem⟩
  intro call other hcall hother
  have hlock := (horderly.discovering hcall).1
  rw [(horderly.discovering hother).1] at hlock
  exact (Option.some.inj hlock).symm

end Runs

/-- Two calls at once: one waits for the lock while the other asks, and then
expands with the same domains. -/
theorem discovery_is_all_or_nothing_sample :
    ∃ trace s, Reaches (step asciiTables ⟨"svc", true⟩) (fun _ _ => True) init
        trace s ∧ s.cache = some ["b"] ∧
      (∃ call, Discovered trace call ["b"]) ∧
      ∀ action after out, step asciiTables ⟨"svc", true⟩ s action =
        some (after, out) → ∀ event ∈ out, ¬ event.isGet := by
  obtain ⟨trace, s, hrun, hcache⟩ := exists_reaches_of_execute
    (step asciiTables ⟨"svc", true⟩) init (fun _ _ => True) (·.1.cache)
    (some ["b"])
    [.purge 0 ["https://a/x"], .purge 1 ["https://a/y"], .acquire 0,
      .serviceReply 0 (.response 200 (.ok [⟨false, some 1⟩, ⟨true, some 2⟩])),
      .domainsReply 0 (.response 200 (.ok [some "b", none])), .acquire 1,
      .post 1 1, .post 0 0]
    (by decide +kernel)
  obtain ⟨-, hnames, -, hlater, -⟩ := discovery_is_all_or_nothing hrun
  refine ⟨trace, s, hrun, hcache, hnames _ hcache, ?_⟩
  intro action after out hstep
  exact (hlater _ out after hcache (by
    simpa using Reaches.refl.snoc trivial hstep)).2

end MirrorMirage.Providers.Fastly.Discovery
