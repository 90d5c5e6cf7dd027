import Mathlib.Algebra.Order.BigOperators.Group.Finset
import Mathlib.Algebra.Order.Ring.Rat
import MirrorMirage.Core.Run
import MirrorMirage.Providers.Gcp

/-!
# The tasks of the GCP provider

`_purge_one` of `providers/gcp.py` as a machine of tasks, one for each URL of
each `purge` call: the limiter admits the task, then it waits for the
semaphore, parses its URL, waits for the token, and only then sends its POST.
`Move` lists what a step can do, and `Pooled` says where the permits of the
semaphore are.  No `purge` call is cancelled.
-/

namespace MirrorMirage.Providers.GcpQuota

open Finset (range)
open Function (update)
open MirrorMirage.Run
open MirrorMirage.UrlParse (Tables)

/-- What a provider is created with; production has a window of 60 seconds. -/
structure Quota where
  quotaPerMinute : ℕ
  concurrency : ℕ := 10
  windowSeconds : ℚ := 60

/-- The outcome of one pass through the loop of `acquire`; a limiter without
capacity raises `IndexError`. -/
inductive Pass where
  | admitted
  | wait (seconds : ℚ)
  | raised
  deriving DecidableEq, Repr

/-- The body of `acquire` under its lock, and the deque it leaves. -/
def acquire (quota : Quota) (now : ℚ) (calls : List ℚ) : Pass × List ℚ :=
  let calls := calls.dropWhile (· ≤ now - quota.windowSeconds)
  if calls.length < quota.quotaPerMinute then (.admitted, calls ++ [now])
  else
    match calls with
    | [] => (.raised, [])
    | oldest :: _ =>
        (.wait (max 0 (oldest + quota.windowSeconds - now)), calls)

/-- A limiter with a quota does not raise. -/
theorem acquire_ne_raised {quota : Quota} (hquota : 0 < quota.quotaPerMinute)
    (now : ℚ) (calls : List ℚ) : (acquire quota now calls).1 ≠ .raised := by
  unfold acquire
  dsimp only
  generalize calls.dropWhile (· ≤ now - quota.windowSeconds) = kept
  cases kept with
  | nil => simp [hquota]
  | cons oldest rest => split <;> simp

/-- The history of admissions after a pass. -/
def Pass.record (now : ℚ) (admissions : List ℚ) : Pass → List ℚ
  | .admitted => admissions ++ [now]
  | _ => admissions

/-- Where a `_purge_one` task is, with its URL and then with the body of its
request. -/
inductive Point where
  | absent
  | limiter (url : String)
  | sleeping (url : String) (deadline : ℚ)
  | semaphore (url : String)
  | token (body : Gcp.Body)
  | posting
  | done
  deriving DecidableEq, Repr

/-- A POST request. -/
structure Sent where
  body : Gcp.Body
  time : ℚ
  deriving DecidableEq, Repr

/-- The requests `sent` are recorded for the statements only; the tasks below
`spawned` exist. -/
structure State where
  now : ℚ
  spawned : ℕ
  calls : List ℚ
  permits : ℕ
  point : ℕ → Point
  sent : List Sent

def init (quota : Quota) (now : ℚ) : State where
  now := now
  spawned := 0
  calls := []
  permits := quota.concurrency
  point := fun _ => .absent
  sent := []

inductive Action where
  /-- The clock advances. -/
  | tick (time : ℚ)
  /-- `purge(urls)` starts its `_purge_one` tasks. -/
  | purge (urls : List String)
  /-- A task passes through the limiter, for the first time or after a sleep,
  which may end at any moment. -/
  | acquire (task : ℕ)
  /-- A task gets a permit and parses its URL. -/
  | enterSemaphore (task : ℕ)
  /-- The token is there, and the request is sent. -/
  | token (task : ℕ)
  /-- `_get_token` raises. -/
  | tokenError (task : ℕ)
  /-- The response or a transport error arrives. -/
  | response (task : ℕ)
  deriving DecidableEq, Repr

def State.goto (s : State) (task : ℕ) (point : Point) : State :=
  { s with point := update s.point task point }

/-- A `_purge_one` task for each URL. -/
def State.spawn (s : State) (urls : List String) : State :=
  { s with
    spawned := s.spawned + urls.length
    point := fun task =>
      if task < s.spawned then s.point task
      else (urls[task - s.spawned]?).elim (s.point task) .limiter }

/-- A task after its pass through the limiter. -/
def afterAcquire (s : State) (task : ℕ) (url : String) (calls : List ℚ) :
    Pass → State
  | .admitted => { s.goto task (.semaphore url) with calls := calls }
  | .wait seconds =>
      { s.goto task (.sleeping url (s.now + seconds)) with calls := calls }
  | .raised => { s.goto task .done with calls := calls }

/-- The URL of a task that has the limiter before it. -/
def Point.entering : Point → Option String
  | .limiter url | .sleeping url _ => some url
  | _ => none

section Machine

variable (quota : Quota) (tables : Tables)

/-- A task that gets its permit and cannot parse its URL raises `ValueError`
and gives the permit back, with no await in between. -/
def step (s : State) : Action → Option (State × List Empty)
  | .tick time => if s.now ≤ time then some ({ s with now := time }, [])
      else none
  | .purge urls => some (s.spawn urls, [])
  | .acquire task =>
      match (s.point task).entering with
      | some url =>
          let passed := acquire quota s.now s.calls
          some (afterAcquire s task url passed.2 passed.1, [])
      | none => none
  | .enterSemaphore task =>
      match s.point task with
      | .semaphore url =>
          if 0 < s.permits then
            match Gcp.body tables url with
            | none => some (s.goto task .done, [])
            | some body => some ({ s.goto task (.token body) with
                permits := s.permits - 1 }, [])
          else none
      | _ => none
  | .token task =>
      match s.point task with
      | .token body =>
          some ({ s.goto task .posting with
            sent := s.sent ++ [⟨body, s.now⟩] }, [])
      | _ => none
  | .tokenError task =>
      match s.point task with
      | .token _ =>
          some ({ s.goto task .done with permits := s.permits + 1 }, [])
      | _ => none
  | .response task =>
      match s.point task with
      | .posting =>
          some ({ s.goto task .done with permits := s.permits + 1 }, [])
      | _ => none

/-- The accepted actions, with their guards and next states. -/
inductive Move (s : State) : Action → State → Prop where
  | tick {time : ℚ} (hle : s.now ≤ time) :
      Move s (.tick time) { s with now := time }
  | purge {urls : List String} : Move s (.purge urls) (s.spawn urls)
  | admitted {task : ℕ} {url : String} {calls : List ℚ}
      (hentering : (s.point task).entering = some url)
      (hpass : acquire quota s.now s.calls = (.admitted, calls)) :
      Move s (.acquire task)
        { s.goto task (.semaphore url) with calls := calls }
  | wait {task : ℕ} {url : String} {calls : List ℚ} {seconds : ℚ}
      (hentering : (s.point task).entering = some url)
      (hpass : acquire quota s.now s.calls = (.wait seconds, calls)) :
      Move s (.acquire task)
        { s.goto task (.sleeping url (s.now + seconds)) with calls := calls }
  | raised {task : ℕ} {url : String} {calls : List ℚ}
      (hentering : (s.point task).entering = some url)
      (hpass : acquire quota s.now s.calls = (.raised, calls)) :
      Move s (.acquire task) { s.goto task .done with calls := calls }
  | refused {task : ℕ} {url : String}
      (hpoint : s.point task = .semaphore url) (hfree : 0 < s.permits)
      (hbody : Gcp.body tables url = none) :
      Move s (.enterSemaphore task) (s.goto task .done)
  | parsed {task : ℕ} {url : String} {body : Gcp.Body}
      (hpoint : s.point task = .semaphore url) (hfree : 0 < s.permits)
      (hbody : Gcp.body tables url = some body) :
      Move s (.enterSemaphore task)
        { s.goto task (.token body) with permits := s.permits - 1 }
  | sent {task : ℕ} {body : Gcp.Body} (hpoint : s.point task = .token body) :
      Move s (.token task)
        { s.goto task .posting with sent := s.sent ++ [⟨body, s.now⟩] }
  | unauthorized {task : ℕ} {body : Gcp.Body}
      (hpoint : s.point task = .token body) :
      Move s (.tokenError task)
        { s.goto task .done with permits := s.permits + 1 }
  | answered {task : ℕ} (hpoint : s.point task = .posting) :
      Move s (.response task)
        { s.goto task .done with permits := s.permits + 1 }

end Machine

theorem move_of_step {quota : Quota} {tables : Tables} {s after : State}
    {action : Action} {out : List Empty}
    (hstep : step quota tables s action = some (after, out)) :
    Move quota tables s action after := by
  cases action with
  | tick time =>
      simp only [step] at hstep
      split at hstep <;> cases hstep
      exact .tick ‹_›
  | purge urls =>
      cases hstep
      exact .purge
  | acquire task =>
      simp only [step] at hstep
      split at hstep <;> cases hstep
      rename_i url hentering
      rcases hpass : acquire quota s.now s.calls with ⟨pass, calls⟩
      cases pass with
      | admitted => exact .admitted hentering hpass
      | wait seconds => exact .wait hentering hpass
      | raised => exact .raised hentering hpass
  | enterSemaphore task =>
      simp only [step] at hstep
      split at hstep
      · split at hstep
        · split at hstep <;> cases hstep
          · exact .refused ‹_› ‹_› ‹_›
          · exact .parsed ‹_› ‹_› ‹_›
        · cases hstep
      · cases hstep
  | token task =>
      simp only [step] at hstep
      split at hstep <;> cases hstep
      exact .sent ‹_›
  | tokenError task =>
      simp only [step] at hstep
      split at hstep <;> cases hstep
      exact .unauthorized ‹_›
  | response task =>
      simp only [step] at hstep
      split at hstep <;> cases hstep
      exact .answered ‹_›

/-! ## Counting tasks -/

/-- The tasks that there are whose point satisfies `p`. -/
def State.tasksAt (s : State) (p : Point → Bool) : Finset ℕ :=
  (range s.spawned).filter fun task => p (s.point task)

section TasksAt

variable {s after : State} {p : Point → Bool} {task : ℕ} {point : Point}

theorem mem_tasksAt : task ∈ s.tasksAt p ↔
    task < s.spawned ∧ p (s.point task) := by
  simp [State.tasksAt]

theorem tasksAt_goto_of_eq (hsame : p point = p (s.point task)) :
    (s.goto task point).tasksAt p = s.tasksAt p := by
  ext other
  by_cases heq : other = task
  · subst heq
    simp [mem_tasksAt, State.goto, hsame]
  · simp [mem_tasksAt, State.goto, heq]

/-- A task comes to be among them. -/
theorem card_tasksAt_goto_succ (point : Point) (htask : task < s.spawned)
    (hpoint : p point)
    (hbefore : p (s.point task) = false) :
    ((s.goto task point).tasksAt p).card = (s.tasksAt p).card + 1 := by
  have hinsert : (s.goto task point).tasksAt p = insert task (s.tasksAt p) := by
    ext other
    by_cases heq : other = task
    · subst heq
      simp [mem_tasksAt, State.goto, htask, hpoint]
    · simp [mem_tasksAt, State.goto, heq]
  rw [hinsert, Finset.card_insert_of_notMem (by simp [mem_tasksAt, hbefore])]

/-- A task leaves them. -/
theorem card_tasksAt_goto_add (point : Point) (htask : task < s.spawned)
    (hpoint : p point = false) (hbefore : p (s.point task)) :
    ((s.goto task point).tasksAt p).card + 1 = (s.tasksAt p).card := by
  have herase : (s.goto task point).tasksAt p = (s.tasksAt p).erase task := by
    ext other
    by_cases heq : other = task
    · subst heq
      simp [mem_tasksAt, State.goto, hpoint]
    · simp [mem_tasksAt, State.goto, heq]
  rw [herase, Finset.card_erase_add_one (mem_tasksAt.mpr ⟨htask, hbefore⟩)]

theorem spawn_point_of_lt {urls : List String} (htask : task < s.spawned) :
    (s.spawn urls).point task = s.point task := if_pos htask

/-- A new task has the limiter before it. -/
theorem exists_spawn_point {urls : List String} (hle : s.spawned ≤ task)
    (hlt : task < s.spawned + urls.length) :
    ∃ url, (s.spawn urls).point task = .limiter url := by
  obtain ⟨url, hurl⟩ : ∃ url, urls[task - s.spawned]? = some url :=
    ⟨_, List.getElem?_eq_getElem (by omega)⟩
  refine ⟨url, ?_⟩
  simp [State.spawn, Nat.not_lt.mpr hle, hurl]

/-- The tasks of a new `purge` call are at the limiter. -/
theorem tasksAt_spawn {urls : List String}
    (hlimiter : ∀ url, p (.limiter url) = false) :
    (s.spawn urls).tasksAt p = s.tasksAt p := by
  ext task
  rw [mem_tasksAt, mem_tasksAt]
  constructor
  · rintro ⟨hlt, hpoint⟩
    by_cases hle : s.spawned ≤ task
    · obtain ⟨url, hnew⟩ := exists_spawn_point hle hlt
      simp [hnew, hlimiter] at hpoint
    · have htask := not_le.mp hle
      exact ⟨htask, spawn_point_of_lt htask ▸ hpoint⟩
  · rintro ⟨htask, hpoint⟩
    exact ⟨Nat.lt_add_right _ htask, (spawn_point_of_lt htask).symm ▸ hpoint⟩

end TasksAt

/-! ## The permits -/

/-- The task is between the two ends of `async with self._sem`. -/
def Point.holdsPermit : Point → Bool
  | .token _ | .posting => true
  | _ => false

/-- The tasks so far exist, and each permit is free or held. -/
structure Pooled (quota : Quota) (s : State) : Prop where
  present : ∀ task, s.point task ≠ .absent ↔ task < s.spawned
  permits : s.permits + (s.tasksAt Point.holdsPermit).card = quota.concurrency

section Permits

variable {quota : Quota} {tables : Tables} {s after : State} {action : Action}
variable {out : List Empty} {task : ℕ} {point : Point} {url : String}

theorem entering_ne (hentering : point.entering = some url) :
    point ≠ .absent ∧ point.holdsPermit = false := by
  cases point <;> simp_all [Point.entering, Point.holdsPermit]

theorem pooled_init (quota : Quota) (now : ℚ) : Pooled quota (init quota now)
    where
  present := by simp [init]
  permits := by simp [init, State.tasksAt, Point.holdsPermit]

theorem Pooled.lt_spawned (h : Pooled quota s) (hpoint : s.point task = point)
    (hpresent : point ≠ .absent) : task < s.spawned :=
  (h.present task).mp (hpoint ▸ hpresent)

/-- A task goes on; the rest of the state may be what it likes. -/
theorem Pooled.goto (h : Pooled quota s) (htask : task < s.spawned)
    (hpoint : point ≠ .absent) (hspawned : after.spawned = s.spawned)
    (hpoints : after.point = (s.goto task point).point)
    (hpermits : after.permits +
      ((s.goto task point).tasksAt Point.holdsPermit).card =
        quota.concurrency) : Pooled quota after where
  present := by
    intro other
    rw [hpoints, hspawned]
    by_cases heq : other = task
    · subst heq
      simp [State.goto, hpoint, htask]
    · simpa [State.goto, heq] using h.present other
  permits := by
    have hsame : after.tasksAt Point.holdsPermit =
        (s.goto task point).tasksAt Point.holdsPermit := by
      unfold State.tasksAt
      rw [hpoints, hspawned]
      rfl
    rw [hsame, hpermits]

/-- A step that leaves the permits alone. -/
theorem Pooled.goto_of_eq (h : Pooled quota s) (htask : task < s.spawned)
    (hpoint : point ≠ .absent)
    (hholds : point.holdsPermit = (s.point task).holdsPermit)
    (hspawned : after.spawned = s.spawned)
    (hpoints : after.point = (s.goto task point).point)
    (hpermits : after.permits = s.permits) : Pooled quota after :=
  h.goto htask hpoint hspawned hpoints
    (by rw [tasksAt_goto_of_eq hholds, hpermits, h.permits])

/-- A permit is given back. -/
theorem Pooled.release (h : Pooled quota s) (htask : task < s.spawned)
    (hholds : (s.point task).holdsPermit) :
    Pooled quota { s.goto task .done with permits := s.permits + 1 } := by
  refine h.goto htask (by simp) rfl rfl ?_
  have hcard := card_tasksAt_goto_add .done htask rfl hholds
  have hpermits := h.permits
  dsimp only
  omega

theorem Pooled.spawn (h : Pooled quota s) (urls : List String) :
    Pooled quota (s.spawn urls) where
  present := by
    intro task
    by_cases hle : s.spawned ≤ task
    · by_cases hlt : task < s.spawned + urls.length
      · obtain ⟨url, hnew⟩ := exists_spawn_point hle hlt
        rw [hnew]
        exact iff_of_true (by simp) hlt
      · have hnone : urls[task - s.spawned]? = none :=
          List.getElem?_eq_none (by omega)
        have habsent : s.point task = .absent := by
          by_contra hpresent
          have hold := (h.present task).mp hpresent
          omega
        simp [State.spawn, hnone, habsent]
        omega
    · have htask := not_le.mp hle
      rw [spawn_point_of_lt htask, h.present]
      simp only [State.spawn]
      omega
  permits := by
    rw [tasksAt_spawn fun _ => rfl]
    exact h.permits

theorem pooled_move (h : Pooled quota s)
    (hmove : Move quota tables s action after) : Pooled quota after := by
  cases hmove with
  | tick => exact ⟨h.present, h.permits⟩
  | purge => exact h.spawn _
  | admitted hentering | wait hentering | raised hentering =>
      obtain ⟨hpresent, hfree⟩ := entering_ne hentering
      exact h.goto_of_eq (h.lt_spawned rfl hpresent) (by simp)
        (by rw [hfree]; rfl) rfl rfl rfl
  | refused hpoint =>
      exact h.goto_of_eq (h.lt_spawned hpoint (by simp)) (by simp)
        (by rw [hpoint]; rfl) rfl rfl rfl
  | @parsed task url body hpoint hfree =>
      have htask := h.lt_spawned hpoint (by simp)
      refine h.goto htask (by simp) rfl rfl ?_
      have hcard := card_tasksAt_goto_succ (.token body) htask rfl
        (show (s.point task).holdsPermit = false by rw [hpoint]; rfl)
      have hpermits := h.permits
      dsimp only
      omega
  | sent hpoint =>
      exact h.goto_of_eq (h.lt_spawned hpoint (by simp)) (by simp)
        (by rw [hpoint]; rfl) rfl rfl rfl
  | unauthorized hpoint | answered hpoint =>
      exact h.release (h.lt_spawned hpoint (by simp)) (by rw [hpoint]; rfl)

theorem pooled_of_reaches {now : ℚ} {allowed : State → Action → Prop}
    {trace : List Empty}
    (hrun : Reaches (step quota tables) allowed (init quota now) trace s) :
    Pooled quota s :=
  hrun.invariant (fun _ s => Pooled quota s) (pooled_init quota now)
    fun h _ hstep => pooled_move h (move_of_step hstep)

end Permits

end MirrorMirage.Providers.GcpQuota
