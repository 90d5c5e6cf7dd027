import Mathlib.Tactic.Linarith
import MirrorMirage.Core.Composition
import MirrorMirage.Providers.GcpQuota

/-!
# The requests of the GCP provider

Tasks past the limiter need no time to come to their end (`Pooled.canServe`),
and the others need no more than that the window passes.  So a burst above the
quota is blocked and not dropped: the tasks can always come to an end, and each
whose URL can be parsed sends its request on the way
(`excess_work_is_not_dropped`).
-/

namespace MirrorMirage.Providers.GcpQuota

open Finset (range)
open MirrorMirage.Run
open MirrorMirage.UrlParse (Tables)

/-- The task has its request yet to send. -/
def Point.isUnsent (tables : Tables) : Point → Bool
  | .limiter url | .sleeping url _ | .semaphore url =>
      (Gcp.body tables url).isSome
  | .token _ => true
  | _ => false

/-- The limiter has admitted the task, which has not ended. -/
def Point.isAdmitted : Point → Bool
  | .semaphore _ | .token _ | .posting => true
  | _ => false

/-- An upper bound of the steps that a task has left, but for the passes that
make it sleep. -/
def Point.stepsLeft : Point → ℕ
  | .absent | .done => 0
  | .posting => 1
  | .token _ => 2
  | .semaphore _ => 3
  | .limiter _ | .sleeping _ _ => 4

/-- The tasks go on, each after its sleep, and get their tokens. -/
def proceeds (s : State) : Action → Bool
  | .purge _ | .tokenError _ => false
  | .acquire task =>
      match s.point task with
      | .sleeping _ deadline => deadline ≤ s.now
      | _ => true
  | _ => true

/-- A step past the limiter. -/
def Action.serves : Action → Bool
  | .enterSemaphore _ | .token _ | .response _ => true
  | _ => false

/-- The steps that are left. -/
def State.remaining (s : State) : ℕ :=
  ∑ task ∈ range s.spawned, (s.point task).stepsLeft

section Requests

variable {quota : Quota} {tables : Tables} {s after : State} {action : Action}
variable {out : List Empty} {task : ℕ} {point : Point} {url : String}

theorem proceeds_of_serves (h : action.serves) : proceeds s action := by
  cases action <;> first | rfl | cases h

theorem remaining_lt (htask : task < s.spawned)
    (hless : point.stepsLeft < (s.point task).stepsLeft)
    (hspawned : after.spawned = s.spawned)
    (hpoints : after.point = (s.goto task point).point) :
    after.remaining < s.remaining := by
  unfold State.remaining
  rw [hspawned, hpoints]
  refine Finset.sum_lt_sum (fun other _ => ?_)
    ⟨task, Finset.mem_range.mpr htask, by simpa [State.goto] using hless⟩
  by_cases heq : other = task
  · subst heq
    simpa [State.goto] using hless.le
  · simp [State.goto, heq]

/-! ## Past the limiter -/

/-- Some step past the limiter leaves less to do. -/
def CanServe (quota : Quota) (tables : Tables) (s : State) : Prop :=
  ∃ action after, action.serves ∧
    step quota tables s action = some (after, []) ∧
      after.remaining < s.remaining

theorem Pooled.canServe_of_posting (h : Pooled quota s)
    (hpoint : s.point task = .posting) : CanServe quota tables s := by
  have hstep : step quota tables s (.response task) =
      some ({ s.goto task .done with permits := s.permits + 1 }, []) := by
    simp only [step, hpoint]
  have hless : Point.done.stepsLeft < (s.point task).stepsLeft := by
    simp [hpoint, Point.stepsLeft]
  exact ⟨_, _, rfl, hstep,
    remaining_lt (h.lt_spawned hpoint (by simp)) hless rfl rfl⟩

theorem Pooled.canServe_of_token (h : Pooled quota s) {body : Gcp.Body}
    (hpoint : s.point task = .token body) : CanServe quota tables s := by
  have hstep : step quota tables s (.token task) = some ({ s.goto task .posting
      with sent := s.sent ++ [⟨body, s.now⟩] }, []) := by
    simp only [step, hpoint]
  have hless : Point.posting.stepsLeft < (s.point task).stepsLeft := by
    simp [hpoint, Point.stepsLeft]
  exact ⟨_, _, rfl, hstep,
    remaining_lt (h.lt_spawned hpoint (by simp)) hless rfl rfl⟩

/-- A task that waits for a permit gets one when none is held. -/
theorem Pooled.canServe_of_semaphore (h : Pooled quota s)
    (hconcurrency : 0 < quota.concurrency)
    (hpoint : s.point task = .semaphore url)
    (hfree : ∀ task, (s.point task).holdsPermit = false) :
    CanServe quota tables s := by
  have hnone : s.tasksAt Point.holdsPermit = ∅ := by
    ext other
    simp [mem_tasksAt, hfree]
  have hpermits : 0 < s.permits := by
    have hpool := h.permits
    rw [hnone, Finset.card_empty, add_zero] at hpool
    rwa [hpool]
  have htask := h.lt_spawned hpoint (by simp)
  cases hbody : Gcp.body tables url with
  | none =>
      have hless : Point.done.stepsLeft < (s.point task).stepsLeft := by
        simp [hpoint, Point.stepsLeft]
      have hstep : step quota tables s (.enterSemaphore task) =
          some (s.goto task .done, []) := by
        simp only [step, hpoint, hpermits, if_true, hbody]
      exact ⟨_, _, rfl, hstep, remaining_lt htask hless rfl rfl⟩
  | some body =>
      have hless : (Point.token body).stepsLeft <
          (s.point task).stepsLeft := by
        simp [hpoint, Point.stepsLeft]
      have hstep : step quota tables s (.enterSemaphore task) =
          some ({ s.goto task (.token body) with
            permits := s.permits - 1 }, []) := by
        simp only [step, hpoint, hpermits, if_true, hbody]
      exact ⟨_, _, rfl, hstep, remaining_lt htask hless rfl rfl⟩

/-- Whoever has a permit can go on, and if nobody has one the first who waits
for it can. -/
theorem Pooled.canServe (h : Pooled quota s)
    (hconcurrency : 0 < quota.concurrency)
    (hadmitted : (s.point task).isAdmitted) : CanServe quota tables s := by
  by_cases hheld : ∃ other, (s.point other).holdsPermit
  · obtain ⟨other, hholds⟩ := hheld
    cases hpoint : s.point other with
    | token body => exact h.canServe_of_token hpoint
    | posting => exact h.canServe_of_posting hpoint
    | _ => simp [hpoint, Point.holdsPermit] at hholds
  · have hfree : ∀ other, (s.point other).holdsPermit = false := by
      simpa using hheld
    cases hpoint : s.point task with
    | semaphore url => exact h.canServe_of_semaphore hconcurrency hpoint hfree
    | token body => exact h.canServe_of_token hpoint
    | posting => exact h.canServe_of_posting hpoint
    | _ => simp [hpoint, Point.isAdmitted] at hadmitted

/-! ## Through the limiter -/

/-- Later on all admissions so far are out of the window. -/
theorem exists_later (window now : ℚ) (calls : List ℚ) :
    ∃ time, now ≤ time ∧ ∀ call ∈ calls, call ≤ time - window := by
  induction calls with
  | nil => exact ⟨now, le_rfl, by simp⟩
  | cons call calls ih =>
      obtain ⟨time, hnow, hcalls⟩ := ih
      refine ⟨max time (call + window), hnow.trans (le_max_left _ _), ?_⟩
      intro other hother
      rcases List.mem_cons.mp hother with rfl | hother
      · linarith [le_max_right time (other + window)]
      · linarith [hcalls other hother, le_max_left time (call + window)]

/-- A limiter whose admissions are all out of the window admits. -/
theorem acquire_of_old (hquota : 0 < quota.quotaPerMinute) {now : ℚ}
    {calls : List ℚ} (hold : ∀ call ∈ calls, call ≤ now - quota.windowSeconds) :
    acquire quota now calls = (.admitted, [now]) := by
  have hkept : calls.dropWhile (· ≤ now - quota.windowSeconds) = [] := by
    simpa using hold
  simp [acquire, hkept, hquota]

/-- The tasks and time come to a state with less to do. -/
def CanMove (quota : Quota) (tables : Tables) (s : State) : Prop :=
  ∃ trace after, Reaches (step quota tables) (fun s action => proceeds s action)
    s trace after ∧ Pooled quota after ∧ after.remaining < s.remaining

theorem Pooled.canMove_of_canServe (h : Pooled quota s)
    (hserve : CanServe quota tables s) : CanMove quota tables s := by
  obtain ⟨action, after, hserves, hstep, hless⟩ := hserve
  exact ⟨_, after, Reaches.refl.snoc (proceeds_of_serves hserves) hstep,
    pooled_move h (move_of_step hstep), hless⟩

/-- A task that waits for the limiter is admitted when the window and its sleep
are over. -/
theorem Pooled.canMove_of_limiter (h : Pooled quota s)
    (hquota : 0 < quota.quotaPerMinute)
    (hentering : (s.point task).entering = some url) :
    CanMove quota tables s := by
  have htask := h.lt_spawned rfl (entering_ne hentering).1
  obtain ⟨time, hnow, hold, hawake⟩ : ∃ time, s.now ≤ time ∧
      (∀ call ∈ s.calls, call ≤ time - quota.windowSeconds) ∧
      proceeds { s with now := time } (.acquire task) := by
    cases hpoint : s.point task with
    | sleeping other deadline =>
        obtain ⟨time, hnow, hold⟩ :=
          exists_later quota.windowSeconds (max s.now deadline) s.calls
        refine ⟨time, (le_max_left _ _).trans hnow, hold, ?_⟩
        simpa [proceeds, hpoint] using (le_max_right _ _).trans hnow
    | _ =>
        obtain ⟨time, hnow, hold⟩ :=
          exists_later quota.windowSeconds s.now s.calls
        exact ⟨time, hnow, hold, by simp [proceeds, hpoint]⟩
  have htick : step quota tables s (.tick time) =
      some ({ s with now := time }, []) := if_pos hnow
  have hacquire : step quota tables { s with now := time } (.acquire task) =
      some (afterAcquire { s with now := time } task url [time] .admitted,
        []) := by
    simp only [step, hentering, acquire_of_old hquota hold]
  have hless : (Point.semaphore url).stepsLeft <
      (s.point task).stepsLeft := by
    cases hpoint : s.point task <;>
      simp_all [Point.entering, Point.stepsLeft]
  have hticked : Reaches (step quota tables)
      (fun s action => proceeds s action) s _ _ :=
    Reaches.refl.snoc (by exact rfl) htick
  exact ⟨_, _, hticked.snoc hawake hacquire,
    pooled_move (pooled_move h (move_of_step htick)) (move_of_step hacquire),
    remaining_lt htask hless rfl rfl⟩

/-- As long as a task has not ended, something can go on. -/
theorem Pooled.canMove (h : Pooled quota s)
    (hquota : 0 < quota.quotaPerMinute) (hconcurrency : 0 < quota.concurrency)
    (htask : task < s.spawned) (hbusy : s.point task ≠ .done) :
    CanMove quota tables s := by
  cases hentering : (s.point task).entering with
  | some url => exact h.canMove_of_limiter hquota hentering
  | none =>
      have hpresent := (h.present task).mpr htask
      have hadmitted : (s.point task).isAdmitted := by
        cases hpoint : s.point task <;>
          simp_all [Point.entering, Point.isAdmitted]
      exact h.canMove_of_canServe (h.canServe hconcurrency hadmitted)

/-- The tasks come to an end. -/
theorem Pooled.exists_done (h : Pooled quota s) (tables : Tables)
    (hquota : 0 < quota.quotaPerMinute) (hconcurrency : 0 < quota.concurrency) :
    ∃ trace final, Reaches (step quota tables)
      (fun s action => proceeds s action) s trace final ∧
      Pooled quota final ∧
        ∀ task < final.spawned, final.point task = .done := by
  refine exists_reaches_of_runs (Pooled quota)
    (fun s => ∀ task < s.spawned, s.point task = .done) State.remaining
    (fun {s} hpooled hbusy => ?_) h
  push Not at hbusy
  obtain ⟨task, htask, hpoint⟩ := hbusy
  exact hpooled.canMove hquota hconcurrency htask hpoint

/-! ## What is sent on the way -/

theorem isUnsent_of_entering (hentering : point.entering = some url) :
    point.isUnsent tables = (Gcp.body tables url).isSome := by
  cases point <;> simp_all [Point.entering, Point.isUnsent]

/-- As many requests are sent as there are tasks that come to have sent
theirs. -/
theorem unsent_move (h : Pooled quota s) (hquota : 0 < quota.quotaPerMinute)
    (hproceeds : proceeds s action)
    (hmove : Move quota tables s action after) :
    after.spawned = s.spawned ∧
      after.sent.length + (after.tasksAt (Point.isUnsent tables)).card =
        s.sent.length + (s.tasksAt (Point.isUnsent tables)).card := by
  have hkept : ∀ {task point}, (point : Point).isUnsent tables =
      (s.point task).isUnsent tables →
        s.sent.length +
          ((s.goto task point).tasksAt (Point.isUnsent tables)).card =
            s.sent.length + (s.tasksAt (Point.isUnsent tables)).card :=
    fun hsame => by rw [tasksAt_goto_of_eq hsame]
  cases hmove with
  | purge | unauthorized => cases hproceeds
  | tick => exact ⟨rfl, rfl⟩
  | admitted hentering | wait hentering =>
      exact ⟨rfl, hkept (isUnsent_of_entering hentering).symm⟩
  | raised hentering hpass =>
      exact absurd (congrArg Prod.fst hpass) (acquire_ne_raised hquota _ _)
  | refused hpoint _ hbody | parsed hpoint _ hbody =>
      exact ⟨rfl, hkept (by simp [hpoint, Point.isUnsent, hbody])⟩
  | answered hpoint => exact ⟨rfl, hkept (by rw [hpoint]; rfl)⟩
  | @sent task body hpoint =>
      have hcard := card_tasksAt_goto_add .posting
        (h.lt_spawned hpoint (by simp)) rfl
        (show (s.point task).isUnsent tables by rw [hpoint]; rfl)
      refine ⟨rfl, ?_⟩
      rw [List.length_append, List.length_singleton, ← hcard, add_assoc]
      exact congrArg _ (add_comm 1 _)

end Requests

/-- In every run of any `purge` calls no more than `concurrency` tasks have
their request under way.  From every state of the run, if the quota is not 0,
time and the tasks can bring all tasks to their end, and on the way as many
requests are sent as tasks whose URL can be parsed had not sent theirs. -/
theorem excess_work_is_not_dropped {quota : Quota} {tables : Tables} {now : ℚ}
    {trace : List Empty} {s : State} (hquota : 0 < quota.quotaPerMinute)
    (hconcurrency : 0 < quota.concurrency)
    (hrun : Reaches (step quota tables) (fun _ _ => True) (init quota now)
      trace s) :
    (s.tasksAt Point.holdsPermit).card ≤ quota.concurrency ∧
    ∃ more final,
      Reaches (step quota tables) (fun s action => proceeds s action) s more
        final ∧
      final.spawned = s.spawned ∧
      (∀ task < s.spawned, final.point task = .done) ∧
      final.permits = quota.concurrency ∧
      final.sent.length =
        s.sent.length + (s.tasksAt (Point.isUnsent tables)).card := by
  have hpooled := pooled_of_reaches hrun
  obtain ⟨more, final, hmore, hfinal, hdone⟩ :=
    hpooled.exists_done tables hquota hconcurrency
  obtain ⟨-, hspawned, hsent⟩ := hmore.invariant
    (fun _ after => Pooled quota after ∧ after.spawned = s.spawned ∧
      after.sent.length + (after.tasksAt (Point.isUnsent tables)).card =
        s.sent.length + (s.tasksAt (Point.isUnsent tables)).card)
    ⟨hpooled, rfl, rfl⟩ fun hkept hproceeds hstep => by
      obtain ⟨hspawned, hsent⟩ :=
        unsent_move hkept.1 hquota hproceeds (move_of_step hstep)
      exact ⟨pooled_move hkept.1 (move_of_step hstep),
        hspawned.trans hkept.2.1, hsent.trans hkept.2.2⟩
  -- a task that is done has no permit, and nothing to send
  have hnone : ∀ p : Point → Bool, p .done = false →
      final.tasksAt p = ∅ := by
    intro p hp
    ext task
    simp only [mem_tasksAt, Finset.notMem_empty, iff_false]
    rintro ⟨htask, hpoint⟩
    simp [hdone task htask, hp] at hpoint
  have hpermits := hfinal.permits
  rw [hnone _ rfl, Finset.card_empty, add_zero] at hpermits hsent
  refine ⟨?_, more, final, hmore, hspawned, hspawned ▸ hdone, hpermits, hsent⟩
  rw [← hpooled.permits]
  exact Nat.le_add_left _ _

/-- A burst of four URLs under a quota of one, with one response under way and
one URL that cannot be parsed. -/
theorem excess_work_is_not_dropped_sample : ∃ trace s more final,
    Reaches (step { quotaPerMinute := 1 } UrlParse.asciiTables)
      (fun _ _ => True) (init { quotaPerMinute := 1 } 0) trace s ∧
    Reaches (step { quotaPerMinute := 1 } UrlParse.asciiTables)
      (fun s action => proceeds s action) s more final ∧
    s.sent.length = 1 ∧ final.sent.length = 3 := by
  obtain ⟨trace, s, hrun, hview⟩ := exists_reaches_of_execute
    (step { quotaPerMinute := 1 } UrlParse.asciiTables)
    (init { quotaPerMinute := 1 } 0) (fun _ _ => True)
    (fun final => (final.1.sent.length, (final.1.tasksAt
      (Point.isUnsent UrlParse.asciiTables)).card)) (1, 2)
    [.purge ["http://a/x", "http://a/y", "http://[a/x", "http://a/z"],
      .acquire 1, .acquire 0, .enterSemaphore 1, .token 1]
    (by decide +kernel)
  obtain ⟨hsent, hunsent⟩ := Prod.ext_iff.mp hview
  obtain ⟨-, more, final, hmore, -, -, -, hall⟩ :=
    excess_work_is_not_dropped (by decide) (by decide) hrun
  refine ⟨trace, s, more, final, hrun, hmore, hsent, ?_⟩
  rw [hall, show s.sent.length = 1 from hsent,
    show (s.tasksAt (Point.isUnsent UrlParse.asciiTables)).card = 2
      from hunsent]

end MirrorMirage.Providers.GcpQuota
