import Mathlib.Algebra.BigOperators.Group.Finset.Basic
import Mathlib.Algebra.Order.BigOperators.Group.Finset
import MirrorMirage.Batcher.Timing

/-!
# The tasks of the batcher come to rest

Between two ticks of the clock every task runs to its next wait.  `weight`
bounds the steps that a task has left, where a waiting submit counts for the
debounce task that it will wake.
-/

namespace MirrorMirage.Batcher

open Function (update)
open MirrorMirage.Run

/-- A step of a task, or the end of a timed wait. -/
def Action.isInternal : Action → Bool
  | .timeout _ => true
  | action => action.isTask

def Point.rank : Point → ℕ
  | .submitLock _ => 9
  | .recheckLock => 5
  | .timedWait _ => 4
  | .flushLock => 3
  | .enqueueing _ _ committed _ => if committed then 1 else 2
  | _ => 0

def Task.alarm (s : State) : Task → ℕ
  | .debounce cdn => if s.wake cdn then 6 else 0
  | _ => 0

def weight (s : State) (task : Task) : ℕ := (s.point task).rank + task.alarm s

def total (tasks : Finset Task) (s : State) : ℕ := ∑ task ∈ tasks, weight s task

/-- All tasks that have steps left are listed, with those they will wake. -/
structure Covers (tasks : Finset Task) (s : State) : Prop where
  weighty : ∀ {task}, weight s task ≠ 0 → task ∈ tasks
  target : ∀ {call target}, s.point (.submit call) = .submitLock target →
    .debounce target.cdnName ∈ tasks

section Weights

variable {cfg : DaemonConfig} {s after : State} {tasks : Finset Task}
variable {task : Task}

/-- One task has made a step. -/
theorem lightens_of_single (hcovers : Covers tasks s)
    (hlt : weight after task < weight s task)
    (hother : ∀ other, other ≠ task → weight after other = weight s other)
    (hwaits : ∀ {call target}, after.point (.submit call) = .submitLock target →
      s.point (.submit call) = .submitLock target) :
    Covers tasks after ∧ total tasks after < total tasks s := by
  have hmem : task ∈ tasks := hcovers.weighty (by omega)
  refine ⟨⟨?_, fun hpoint => hcovers.target (hwaits hpoint)⟩, ?_⟩
  · intro other hweighty
    by_cases heq : other = task
    · exact heq ▸ hmem
    · exact hcovers.weighty (hother other heq ▸ hweighty)
  · apply Finset.sum_lt_sum _ ⟨task, hmem, hlt⟩
    intro other _
    by_cases heq : other = task
    · exact heq ▸ hlt.le
    · exact (hother other heq).le

/-- A submit has made a step and set an event. -/
theorem lightens_of_pair (hcovers : Covers tasks s) {waker : Task}
    (hne : waker ≠ task) (hmem : task ∈ tasks)
    (hlt : weight after waker + 6 < weight s waker)
    (hle : weight after task ≤ weight s task + 6)
    (hother : ∀ other, other ≠ waker → other ≠ task →
      weight after other = weight s other)
    (hwaits : ∀ {call target}, after.point (.submit call) = .submitLock target →
      s.point (.submit call) = .submitLock target) :
    Covers tasks after ∧ total tasks after < total tasks s := by
  have hwaker : waker ∈ tasks := hcovers.weighty (by omega)
  refine ⟨⟨?_, fun hpoint => hcovers.target (hwaits hpoint)⟩, ?_⟩
  · intro other hweighty
    by_cases heq : other = waker
    · exact heq ▸ hwaker
    · by_cases heq' : other = task
      · exact heq' ▸ hmem
      · exact hcovers.weighty (hother other heq heq' ▸ hweighty)
  · have htask : task ∈ tasks.erase waker :=
      Finset.mem_erase.mpr ⟨hne.symm, hmem⟩
    have hrest : ∑ other ∈ (tasks.erase waker).erase task, weight after other =
        ∑ other ∈ (tasks.erase waker).erase task, weight s other := by
      apply Finset.sum_congr rfl
      intro other hmember
      obtain ⟨hne', hmember⟩ := Finset.mem_erase.mp hmember
      exact hother other (Finset.mem_erase.mp hmember).1 hne'
    unfold total
    rw [← Finset.add_sum_erase _ _ hwaker, ← Finset.add_sum_erase _ _ htask,
      ← Finset.add_sum_erase tasks (weight s) hwaker,
      ← Finset.add_sum_erase _ (weight s) htask, hrest]
    omega

/-- One task goes on and no event is touched. -/
theorem lightens_of_goto (hcovers : Covers tasks s) {point : Point}
    (hwake : after.wake = s.wake) (hpoint : after.point = update s.point task point)
    (hlt : point.rank < (s.point task).rank) (hrank : point.rank < 9) :
    Covers tasks after ∧ total tasks after < total tasks s := by
  have halarm : ∀ other : Task, other.alarm after = other.alarm s := by
    intro other
    cases other <;> simp [Task.alarm, hwake]
  apply @lightens_of_single s after tasks task hcovers
  · simpa [weight, halarm, hpoint] using hlt
  · intro other hother
    simp [weight, halarm, hpoint, hother]
  · intro call target hwaits
    by_cases heq : .submit call = task
    · rw [hpoint, heq, Function.update_self] at hwaits
      simp [hwaits, Point.rank] at hrank
    · rwa [hpoint, Function.update_of_ne heq] at hwaits

end Weights

/-! ## One step -/

section Step

variable {cfg : DaemonConfig} {s after : State} {tasks : Finset Task}
variable {action : Action} {out : List Obs}

theorem lightens_of_submit (hkeys : Consistent s) (hcovers : Covers tasks s)
    {call : ℕ}
    (hstep : step cfg s (.acquire (.submit call)) = some (after, out)) :
    Covers tasks after ∧ total tasks after < total tasks s := by
  obtain ⟨target, added, hpoint, -, hadded, hcase⟩ :=
    submit_of_step hkeys hstep
  have hafter : ∃ point, after.point = update added.point (.submit call) point ∧
      point.rank ≤ 2 ∧ after.wake = added.wake := by
    rcases hcase with ⟨-, rfl, -⟩ | ⟨-, rfl, -⟩
    · exact ⟨_, rfl, by simp [Point.rank], rfl⟩
    · exact ⟨_, rfl, by simp [Point.rank], rfl⟩
  obtain ⟨point, hmoved, hrank, hwake⟩ := hafter
  have hopen : ∀ task, ((openBuffer s target.cdnName).point task).rank =
      (s.point task).rank := by
    intro task
    rcases openBuffer_point hkeys target.cdnName task with
      hsame | ⟨habsent, hbegins⟩
    · rw [hsame]
    · rw [habsent, hbegins]
      rfl
  have halarm : ∀ other : Task, other ≠ .debounce target.cdnName →
      other.alarm after = other.alarm s := by
    intro other hother
    cases other with
    | debounce cdn =>
        have hcdn : cdn ≠ target.cdnName := by
          rintro rfl
          exact hother rfl
        have hsame : after.wake cdn = s.wake cdn := by
          rw [hwake, hadded, addTarget_wake, Function.update_of_ne hcdn,
            openBuffer_wake_of_ne hcdn]
        simp [Task.alarm, hsame]
    | _ => rfl
  apply @lightens_of_pair s after tasks (.debounce target.cdnName) hcovers
    (.submit call)
  · simp
  · exact hcovers.target hpoint
  · have hself := halarm (.submit call) (by simp)
    have hnine : (s.point (.submit call)).rank = 9 := by
      rw [hpoint]
      rfl
    simp only [weight, hself, hmoved, Function.update_self, hnine]
    omega
  · have hsix : Task.alarm after (.debounce target.cdnName) ≤ 6 := by
      simp only [Task.alarm]
      split <;> omega
    have hsame := hopen (.debounce target.cdnName)
    simp only [weight, hmoved, hadded, addTarget_point] at hsix ⊢
    rw [Function.update_of_ne (by simp), hsame]
    omega
  · intro other hwaker hother
    rw [weight, weight, halarm other hother, hmoved,
      Function.update_of_ne hwaker, hadded, addTarget_point, hopen other]
  · intro called target' hwaits
    by_cases heq : called = call
    · rw [hmoved, heq, Function.update_self] at hwaits
      simp [hwaits, Point.rank] at hrank
    · rw [hmoved, Function.update_of_ne (by simpa using heq), hadded,
        addTarget_point, openBuffer_point_of_ne (by simp)] at hwaits
      exact hwaits

/-- Every step of a task leaves fewer steps. -/
theorem lightens_of_step (hkeys : Consistent s) (htidy : Tidy s)
    (hcovers : Covers tasks s) (hinternal : action.isInternal)
    (hstep : step cfg s action = some (after, out)) :
    Covers tasks after ∧ total tasks after < total tasks s := by
  have hmove := move_of_step hstep
  cases hmove with
  | submit => exact lightens_of_submit hkeys hcovers hstep
  | @recheck cdn hlock hcancel hpoint =>
      obtain ⟨point, heq, hcases⟩ := recheck_cases cfg s cdn
      have hrank : point.rank < 5 := by
        rcases hcases with rfl | rfl | ⟨_, rfl⟩ | rfl <;> simp [Point.rank]
      rw [heq]
      apply @lightens_of_goto s (s.goto (.debounce cdn) point) tasks
        (.debounce cdn) hcovers point rfl rfl
      · simpa [hpoint, Point.rank] using hrank
      · omega
  | flush hlock hcancel hpoint =>
      rcases hpoint with ⟨cdn, rfl, hpoint, rfl⟩ | ⟨hpoint, -⟩
      · simp only [flushLocked]
        split
        · apply @lightens_of_goto s (s.leave (.debounce cdn) .wakeWait) tasks
            (.debounce cdn) hcovers _ rfl rfl <;> simp [hpoint, Point.rank]
        · apply @lightens_of_goto s (takeBuffer s (.debounce cdn) cdn []) tasks
            (.debounce cdn) hcovers _ rfl rfl <;> simp [hpoint, Point.rank]
      · exact absurd hpoint (htidy.idle _).1
  | @wake cdn hwake hcancel hpoint =>
      apply @lightens_of_single s _ tasks (.debounce cdn) hcovers
      · simp [weight, Point.rank, Task.alarm, hwake]
      · intro other hother
        cases other with
        | debounce cdn' =>
            have hne : cdn' ≠ cdn := by
              rintro rfl
              exact hother rfl
            simp [weight, Task.alarm, hne]
        | _ => simp [weight, Task.alarm]
      · intro call target hwaits
        simpa using hwaits
  | @timeout cdn deadline hpoint =>
      apply @lightens_of_goto s (s.goto (.debounce cdn) .flushLock) tasks
        (.debounce cdn) hcovers _ rfl rfl <;> simp [hpoint, Point.rank]
  | @commit task cdn urls rest hpoint =>
      apply @lightens_of_goto s (s.goto task (.enqueueing cdn urls true rest))
        tasks task hcovers _ rfl rfl <;> simp [hpoint, Point.rank]
  | @enqueueReturn task cdn urls rest hpoint =>
      rw [htidy.single hpoint]
      apply @lightens_of_goto s (s.leave task (afterFlush task)) tasks task
        hcovers _ rfl rfl <;>
        cases task <;> simp [afterFlush, hpoint, Point.rank]
  | _ => simp [Action.isInternal, Action.isTask] at hinternal

theorem Covers.mono (h : Covers tasks s) {others : Finset Task}
    (hsubset : tasks ⊆ others) : Covers others s :=
  ⟨fun hweighty => hsubset (h.weighty hweighty), fun hpoint =>
    hsubset (h.target hpoint)⟩

/-- A new submit and the task of its CDN have to be listed. -/
theorem Covers.step (hcovers : Covers tasks s) (hkeys : Consistent s)
    (htidy : Tidy s) (hsmooth : action.isSmooth)
    (hflushAll : ∀ call, action ≠ .flushAll call)
    (hsubmit : ∀ call target, action = .submit call target →
      .submit call ∈ tasks ∧ .debounce target.cdnName ∈ tasks)
    (hstep : step cfg s action = some (after, out)) : Covers tasks after := by
  cases hinternal : action.isInternal with
  | true => exact (lightens_of_step hkeys htidy hcovers hinternal hstep).1
  | false =>
      have hmove := move_of_step hstep
      cases hmove with
      | tick => exact ⟨hcovers.weighty, hcovers.target⟩
      | @submitCall call target hpoint =>
          obtain ⟨hcall, htarget⟩ := hsubmit call target rfl
          constructor
          · intro task hweighty
            by_cases heq : task = .submit call
            · exact heq ▸ hcall
            · have hsame : weight (s.goto (.submit call) (.submitLock target))
                  task = weight s task := by
                have halarm : task.alarm
                    (s.goto (.submit call) (.submitLock target)) =
                      task.alarm s := by cases task <;> rfl
                rw [weight, weight, halarm, goto_point,
                  Function.update_of_ne heq]
              exact hcovers.weighty (hsame ▸ hweighty)
          · intro other target' hwaits
            by_cases heq : other = call
            · obtain rfl : target = target' := by simpa [heq] using hwaits
              exact htarget
            · exact hcovers.target (by simpa [heq] using hwaits)
      | flushAllCall => exact absurd rfl (hflushAll _)
      | gathered hpoint => exact absurd hpoint (htidy.idle .run).2
      | _ =>
          simp [Action.isInternal, Action.isTask, Action.isSmooth]
            at hinternal hsmooth

theorem step_timeout (htidy : Tidy s) {cdn : String} {deadline : ℚ}
    (hpoint : s.point (.debounce cdn) = .timedWait deadline) :
    step cfg s (.timeout cdn) = some (s.goto (.debounce cdn) .flushLock, []) := by
  simp [step, hpoint, htidy.calm]

theorem timely_timeout {cdn : String} {deadline : ℚ}
    (hpoint : s.point (.debounce cdn) = .timedWait deadline)
    (hdue : deadline ≤ s.now) : Timely cfg s (.timeout cdn) := by
  intro other hother
  obtain rfl : deadline = other := by simpa [hpoint] using hother
  exact hdue

/-- A submit on the deadline of its buffer can let the debounce task go
first. -/
theorem exists_internal_of_deadline (h : Timed cfg s) (hlock : s.lock = none)
    {cdn : String} {pending : Debounce.Pending ℚ String}
    (hpending : s.pending cdn = some pending)
    (hdue : pending.deadline (limits cfg) = s.now) :
    ∃ action, Timely cfg s action ∧ action.isInternal ∧
      (step cfg s action).isSome := by
  rcases debounce_can_move h.keys h.tidy h.watched hlock
    (buffer_ne_nil h.keys hpending) with hmoves | hmoves | ⟨hwake, deadline, hpoint⟩
  · exact ⟨.wake cdn, rfl, rfl, hmoves⟩
  · exact ⟨.acquire (.debounce cdn), rfl, rfl, hmoves⟩
  · have hdeadline : deadline = s.now := by
      rcases h.onTime.waiting hpoint with ⟨hset, -⟩ | ⟨-, other, hother, heq⟩
      · simp [hwake] at hset
      · obtain rfl := Option.some.inj (hother.symm.trans hpending)
        exact heq.symm.trans hdue
    exact ⟨.timeout cdn, timely_timeout hpoint hdeadline.le, rfl,
      by simp [step_timeout h.tidy hpoint]⟩

/-- As long as a task can go on, one can go on in a timely way. -/
theorem exists_internal (h : Timed cfg s) (hbusy : ¬ Resting cfg s) :
    ∃ action, Timely cfg s action ∧ action.isInternal ∧
      (step cfg s action).isSome := by
  by_cases hstuck : ∀ action : Action, action.isTask → step cfg s action = none
  · have hlate : ∃ cdn deadline,
        s.point (.debounce cdn) = .timedWait deadline ∧ deadline ≤ s.now := by
      by_contra hnone
      push Not at hnone
      exact hbusy ⟨hstuck, hnone⟩
    obtain ⟨cdn, deadline, hpoint, hdue⟩ := hlate
    exact ⟨.timeout cdn, timely_timeout hpoint hdue, rfl,
      by simp [step_timeout h.tidy hpoint]⟩
  · push Not at hstuck
    obtain ⟨action, htask, hsome⟩ := hstuck
    have hinternal : action.isInternal := by
      cases action <;> first | rfl | exact htask
    have hisSome := Option.isSome_iff_ne_none.mpr hsome
    by_cases htimely : Timely cfg s action
    · exact ⟨action, htimely, hinternal, hisSome⟩
    · cases action with
      | acquire task =>
          cases task with
          | submit call =>
              simp only [Timely, not_forall, not_not] at htimely
              obtain ⟨target, pending, hpoint, hpending, hdue⟩ := htimely
              have hlock : s.lock = none := by
                by_contra hlock
                simp [step, hlock] at hsome
              exact exists_internal_of_deadline h hlock hpending hdue
          | _ => exact absurd rfl htimely
      | wake | commit | enqueueReturn => exact absurd rfl htimely
      | _ => simp [Action.isTask] at htask

end Step

/-! ## Rest can be checked -/

section Check

variable {cfg : DaemonConfig} {s : State} {tasks : Finset Task}

/-- The task has no step to make. -/
def Task.waits (cfg : DaemonConfig) (s : State) (task : Task) : Bool :=
  (step cfg s (.acquire task)).isNone && (step cfg s (.commit task)).isNone &&
    (step cfg s (.enqueueReturn task)).isNone &&
    match task with
    | .debounce cdn => (step cfg s (.wake cdn)).isNone &&
        match s.point task with
        | .timedWait deadline => s.now < deadline
        | _ => true
    | _ => true

theorem resting_of_waits (htidy : Tidy s) (hcovers : Covers tasks s)
    (hwaits : ∀ task ∈ tasks, task.waits cfg s) : Resting cfg s := by
  have hall : ∀ {task : Task}, weight s task ≠ 0 → task.waits cfg s :=
    fun hweighty => hwaits _ (hcovers.weighty hweighty)
  have hranked : ∀ {task : Task} {point : Point}, s.point task = point →
      point.rank ≠ 0 → task.waits cfg s := by
    intro task point hpoint hrank
    apply hall
    rw [weight, hpoint]
    omega
  constructor
  · intro action htask
    by_contra hsome
    obtain ⟨⟨after, out⟩, hstep⟩ := Option.ne_none_iff_exists'.mp hsome
    have hmove := move_of_step hstep
    cases hmove with
    | submit hlock hcancel hpoint =>
        have hwait := hranked hpoint (by simp [Point.rank])
        simp [Task.waits, hstep] at hwait
    | recheck hlock hcancel hpoint =>
        have hwait := hranked hpoint (by simp [Point.rank])
        simp [Task.waits, hstep] at hwait
    | flush hlock hcancel hpoint =>
        rcases hpoint with ⟨cdn, rfl, hpoint, rfl⟩ | ⟨hpoint, -⟩
        · have hwait := hranked hpoint (by simp [Point.rank])
          simp [Task.waits, hstep] at hwait
        · exact (htidy.idle _).1 hpoint
    | @wake cdn hwake =>
        have hwait := @hall (.debounce cdn) (by simp [weight, Task.alarm, hwake])
        simp [Task.waits, hstep] at hwait
    | commit hpoint =>
        have hwait := hranked hpoint (by simp [Point.rank])
        simp [Task.waits, hstep] at hwait
    | enqueueReturn hpoint =>
        have hwait := hranked hpoint (by simp [Point.rank])
        simp [Task.waits, hstep] at hwait
    | _ => simp [Action.isTask] at htask
  · intro cdn deadline hpoint
    have hwait := hranked hpoint (by simp [Point.rank])
    simp [Task.waits, hpoint] at hwait
    exact hwait.2.2

/-- The action is timely in a state whose tasks with steps left are listed. -/
def timelyCheck (cfg : DaemonConfig) (tasks : List Task) (s : State) :
    Action → Bool
  | .tick time => tasks.all fun task => task.waits cfg s &&
      match s.point task with
      | .timedWait deadline => time ≤ deadline
      | _ => true
  | .timeout cdn =>
      match s.point (.debounce cdn) with
      | .timedWait deadline => deadline ≤ s.now
      | _ => true
  | .acquire (.submit call) =>
      match s.point (.submit call) with
      | .submitLock target =>
          (s.pending target.cdnName).all (·.deadline (limits cfg) ≠ s.now)
      | _ => true
  | .submit call target =>
      .submit call ∈ tasks && .debounce target.cdnName ∈ tasks
  | .flushAll _ => false
  | action => action.isSmooth

theorem timely_of_check {listed : List Task} {action : Action}
    (htidy : Tidy s) (hcovers : Covers listed.toFinset s)
    (hcheck : timelyCheck cfg listed s action) : Timely cfg s action := by
  cases action with
  | tick time =>
      simp only [timelyCheck, List.all_eq_true, Bool.and_eq_true] at hcheck
      constructor
      · apply resting_of_waits htidy hcovers
        intro task hmem
        exact (hcheck task (List.mem_toFinset.mp hmem)).1
      · intro cdn deadline hpoint
        have hmem : .debounce cdn ∈ listed.toFinset :=
          hcovers.weighty (by simp [weight, hpoint, Point.rank])
        have hbound := (hcheck _ (List.mem_toFinset.mp hmem)).2
        simpa [hpoint] using hbound
  | timeout cdn =>
      intro deadline hpoint
      simpa [timelyCheck, hpoint] using hcheck
  | acquire task =>
      cases task with
      | submit call =>
          intro target pending hpoint hpending
          simpa [timelyCheck, hpoint, hpending] using hcheck
      | _ => exact hcheck
  | flushAll => simp [timelyCheck] at hcheck
  | submit => rfl
  | _ => exact hcheck

end Check

/-! ## Every run -/

section Run

variable {cfg : DaemonConfig} {s : State} {tasks : Finset Task}

theorem covers_init (now : ℚ) : Covers ∅ (init now) where
  weighty := by
    intro task hweighty
    cases task <;> simp [weight, init, Point.rank, Task.alarm] at hweighty
  target := by simp [init]

theorem timed_of_reaches {now : ℚ} {trace : List Obs}
    (hquiet : 0 < cfg.batchQuietWindowSeconds)
    (hage : 0 < cfg.batchMaxAgeSeconds)
    (hrun : Reaches (step cfg) (Timely cfg) (init now) trace s) :
    Timed cfg s ∧ ∃ tasks, Covers tasks s := by
  apply hrun.invariant fun _ s => Timed cfg s ∧ ∃ tasks, Covers tasks s
  · exact ⟨timed_init cfg now, ∅, covers_init now⟩
  · intro trace s action after out ⟨htimed, tasks, hcovers⟩ htimely hstep
    refine ⟨htimed.step hquiet hage htimely hstep, ?_⟩
    cases action with
    | submit call target =>
        have hmore := hcovers.mono ((Finset.subset_insert
          (.debounce target.cdnName) tasks).trans
            (Finset.subset_insert (.submit call) _))
        refine ⟨_, hmore.step htimed.keys htimed.tidy htimely.isSmooth
          htimely.ne_flushAll ?_ hstep⟩
        rintro call' target' ⟨⟩
        simp
    | _ =>
        exact ⟨tasks, hcovers.step htimed.keys htimed.tidy htimely.isSmooth
          htimely.ne_flushAll (by simp) hstep⟩

/-- A run whose steps pass the check is timely. -/
theorem reaches_of_check {listed : List Task} {now : ℚ} {trace : List Obs}
    (hquiet : 0 < cfg.batchQuietWindowSeconds)
    (hage : 0 < cfg.batchMaxAgeSeconds)
    (hrun : Reaches (step cfg) (fun s action => timelyCheck cfg listed s action)
      (init now) trace s) :
    Reaches (step cfg) (Timely cfg) (init now) trace s ∧
      Timed cfg s ∧ Covers listed.toFinset s := by
  have hinv : ∀ {trace s}, Reaches (step cfg)
      (fun s action => timelyCheck cfg listed s action) (init now) trace s →
        Timed cfg s ∧ Covers listed.toFinset s := by
    intro trace s hrun
    apply hrun.invariant fun _ s => Timed cfg s ∧ Covers listed.toFinset s
    · exact ⟨timed_init cfg now, (covers_init now).mono (Finset.empty_subset _)⟩
    · intro trace s action after out ⟨htimed, hcovers⟩ hcheck hstep
      have htimely := timely_of_check htimed.tidy hcovers hcheck
      refine ⟨htimed.step hquiet hage htimely hstep,
        hcovers.step htimed.keys htimed.tidy htimely.isSmooth
          htimely.ne_flushAll ?_ hstep⟩
      rintro call target rfl
      simpa [timelyCheck] using hcheck
  refine ⟨hrun.allow (fun _ s => Timed cfg s ∧ Covers listed.toFinset s) hinv
    fun h hcheck _ => timely_of_check h.1.tidy h.2 hcheck, hinv hrun⟩

/-- The tasks come to rest without the clock and without a further submit. -/
theorem comes_to_rest (hquiet : 0 < cfg.batchQuietWindowSeconds)
    (hage : 0 < cfg.batchMaxAgeSeconds) (h : Timed cfg s)
    (hcovers : Covers tasks s) :
    ∃ trace final, Reaches (step cfg)
        (fun s action => Timely cfg s action ∧ action.isInternal) s trace final ∧
      Resting cfg final := by
  apply exists_reaches_of_measure (fun s => Timed cfg s ∧ Covers tasks s)
    (Resting cfg) (total tasks) _ ⟨h, hcovers⟩
  intro s ⟨htimed, hcovers⟩ hbusy
  obtain ⟨action, htimely, hinternal, hsome⟩ := exists_internal htimed hbusy
  obtain ⟨⟨after, out⟩, hstep⟩ := Option.isSome_iff_exists.mp hsome
  have hlight := lightens_of_step htimed.keys htimed.tidy hcovers hinternal
    hstep
  exact ⟨action, after, out, ⟨htimely, hinternal⟩, hstep,
    ⟨htimed.step hquiet hage htimely hstep, hlight.1⟩, hlight.2⟩

end Run

end MirrorMirage.Batcher
