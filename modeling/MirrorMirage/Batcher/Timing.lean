import Mathlib.Tactic.Linarith
import Mathlib.Tactic.Ring
import MirrorMirage.Batcher.Wakeup
import MirrorMirage.Core.Debounce

/-!
# Runs in which the tasks take no time

In a `Timely` run the clock advances only when all tasks wait, and never past
the deadline of a timed wait, which ends exactly then.  `OnTime` is what such
a run keeps: nothing is pending beyond its deadline, and a task flushes at the
deadline only.
-/

namespace MirrorMirage.Batcher

open Function (update)
open MirrorMirage.Run

/-! ## Timely runs -/

/-- The action is a step of a task that nothing but the event loop has to
allow. -/
def Action.isTask : Action → Bool
  | .acquire _ | .wake _ | .commit _ | .enqueueReturn _ => true
  | _ => false

/-- Every task waits for a submit or for its timeout. -/
structure Resting (cfg : DaemonConfig) (s : State) : Prop where
  stuck : ∀ action, action.isTask → step cfg s action = none
  asleep : ∀ cdn deadline, s.point (.debounce cdn) = .timedWait deadline →
    s.now < deadline

def limits (cfg : DaemonConfig) : Debounce.Limits ℚ where
  quiet := cfg.batchQuietWindowSeconds
  age := cfg.batchMaxAgeSeconds
  size := cfg.batchMaxSize.toNat

/-- What is in a buffer, with its times. -/
def State.pending (s : State) (cdn : String) :
    Option (Debounce.Pending ℚ String) :=
  match s.firstAdded cdn, s.lastAdded cdn with
  | some first, some latest => some ⟨(s.buffers cdn).toFinset, first, latest⟩
  | _, _ => none

/-- Tasks take no time, nothing fails, no `flush_all` is called, and no submit
is added exactly on the deadline of its buffer. -/
def Timely (cfg : DaemonConfig) (s : State) : Action → Prop
  | .tick time => Resting cfg s ∧ ∀ cdn deadline,
      s.point (.debounce cdn) = .timedWait deadline → time ≤ deadline
  | .timeout cdn => ∀ deadline,
      s.point (.debounce cdn) = .timedWait deadline → deadline ≤ s.now
  | .acquire (.submit call) => ∀ target pending,
      s.point (.submit call) = .submitLock target →
      s.pending target.cdnName = some pending →
        pending.deadline (limits cfg) ≠ s.now
  | .flushAll _ => False
  | action => action.isSmooth

theorem Timely.isSmooth {cfg : DaemonConfig} {s : State} {action : Action}
    (h : Timely cfg s action) : action.isSmooth := by
  cases action <;> first | rfl | exact h

theorem Timely.ne_flushAll {cfg : DaemonConfig} {s : State} {action : Action}
    (h : Timely cfg s action) (call : ℕ) : action ≠ .flushAll call := by
  rintro rfl
  exact h

section Pending

variable {s after : State} {cdn : String}

theorem pending_congr (hbuffers : after.buffers cdn = s.buffers cdn)
    (hfirst : after.firstAdded cdn = s.firstAdded cdn)
    (hlast : after.lastAdded cdn = s.lastAdded cdn) :
    after.pending cdn = s.pending cdn := by
  simp only [State.pending, hbuffers, hfirst, hlast]

theorem pending_eq_none (h : Consistent s) (hempty : s.buffers cdn = []) :
    s.pending cdn = none := by
  have hfirst := (h.first cdn).not.mpr (not_not_intro hempty)
  simp [State.pending, Option.not_isSome_iff_eq_none.mp hfirst]

theorem pending_items {pending : Debounce.Pending ℚ String}
    (h : s.pending cdn = some pending) :
    pending.items = (s.buffers cdn).toFinset := by
  unfold State.pending at h
  split at h <;> cases h
  rfl

theorem exists_pending (h : Consistent s) (hbuffer : s.buffers cdn ≠ []) :
    ∃ first latest, s.firstAdded cdn = some first ∧
      s.lastAdded cdn = some latest ∧
      s.pending cdn = some ⟨(s.buffers cdn).toFinset, first, latest⟩ := by
  obtain ⟨first, hfirst⟩ := Option.isSome_iff_exists.mp
    ((h.first cdn).mpr hbuffer)
  obtain ⟨latest, hlast⟩ := Option.isSome_iff_exists.mp
    ((h.last cdn).mpr hbuffer)
  exact ⟨first, latest, hfirst, hlast, by simp [State.pending, hfirst, hlast]⟩

end Pending

/-! ## What holds without a `flush_all` and without failures -/

structure Tidy (s : State) : Prop where
  calm : ∀ task, s.cancelling task = false
  busy : ∀ {task}, s.lock = some task → (s.point task).isEnqueueing
  single : ∀ {task cdn urls committed rest},
    s.point task = .enqueueing cdn urls committed rest → rest = []
  idle : ∀ task, s.point task ≠ .flushAllLock ∧ s.point task ≠ .gathering
  nodup : ∀ cdn, (s.buffers cdn).Nodup

section Tidy

variable {s : State} {task : Task} {point : Point}

theorem tidy_init (now : ℚ) : Tidy (init now) where
  calm := fun _ => rfl
  busy := by simp [init]
  single := by
    intro task
    by_cases htask : task = .run <;> simp [init, htask]
  idle := by
    intro task
    by_cases htask : task = .run <;> simp [init, htask]
  nodup := fun _ => List.nodup_nil

theorem tidy_goto (h : Tidy s)
    (hbusy : s.lock = some task → point.isEnqueueing)
    (hsingle : ∀ {cdn urls committed rest},
      point = .enqueueing cdn urls committed rest → rest = [])
    (hidle : point ≠ .flushAllLock ∧ point ≠ .gathering) :
    Tidy (s.goto task point) where
  calm := h.calm
  busy := by
    intro other hlock
    by_cases heq : other = task
    · subst heq
      simpa using hbusy hlock
    · simpa [heq] using h.busy hlock
  single := by
    intro other
    by_cases heq : other = task
    · subst heq
      simpa using hsingle
    · simpa [heq] using h.single
  idle := by
    intro other
    by_cases heq : other = task
    · subst heq
      simpa using hidle
    · simpa [heq] using h.idle other
  nodup := h.nodup

/-- The lock changes hands with the only task inside `enqueue`. -/
theorem tidy_hold (h : Tidy s) {lock : Option Task}
    (hbusy : ∀ {task}, lock = some task → (s.point task).isEnqueueing) :
    Tidy { s with lock := lock } :=
  ⟨h.calm, hbusy, h.single, h.idle, h.nodup⟩

theorem tidy_flushLocked (h : Tidy s) {todo : List String}
    (htodo : todo.length ≤ 1) : Tidy (flushLocked s task todo).1 := by
  rcases flushLocked_cases s task todo with
    ⟨-, heq⟩ | ⟨skipped, cdn, rest, hsplit, -, -, heq⟩
  · rw [heq]
    have hfree : Tidy { s with lock := none } := tidy_hold h (by simp)
    apply tidy_goto hfree (by simp) <;> cases task <;> simp [afterFlush]
  · obtain rfl : rest = [] := by
      rw [hsplit, List.length_append, List.length_cons] at htodo
      exact List.eq_nil_of_length_eq_zero (by omega)
    have hmoved : Tidy (State.goto { s with lock := none } task
        (.enqueueing cdn (s.buffers cdn) false [])) :=
      tidy_goto (tidy_hold h (by simp)) (by simp)
        (by rintro _ _ _ _ ⟨⟩; rfl) (by simp)
    rw [heq]
    refine ⟨h.calm, ?_, hmoved.single, hmoved.idle, ?_⟩
    · intro other hlock
      obtain rfl : task = other := Option.some.inj hlock
      simp [Point.isEnqueueing]
    · intro other
      by_cases heq : other = cdn
      · simp [heq]
      · simpa [heq] using h.nodup other

theorem tidy_openBuffer (h : Tidy s) (hkeys : Consistent s) (cdn : String) :
    Tidy (openBuffer s cdn) := by
  have hsame := openBuffer_buffers hkeys cdn
  unfold openBuffer at hsame ⊢
  split
  · exact h
  · rename_i hnew
    simp only [if_neg hnew] at hsame
    have hmoved : Tidy (s.goto (.debounce cdn) .wakeWait) := by
      apply tidy_goto h _ (by simp) (by simp)
      intro hlock
      have hbusy := h.busy hlock
      have habsent := hkeys.absent_of_new hnew
      simp [habsent, Point.isEnqueueing] at hbusy
    refine ⟨hmoved.calm, hmoved.busy, hmoved.single, hmoved.idle, ?_⟩
    simpa only [hsame] using h.nodup

theorem tidy_addTarget (h : Tidy s) (target : PurgeTarget) :
    Tidy (addTarget s target) where
  calm := h.calm
  busy := h.busy
  single := h.single
  idle := h.idle
  nodup := addTarget_nodup h.nodup target

theorem tidy_move {cfg : DaemonConfig} {after : State} {action : Action}
    {out : List Obs} (h : Tidy s) (hkeys : Consistent s)
    (hsmooth : action.isSmooth) (hflush : ∀ call, action ≠ .flushAll call)
    (hmove : Move cfg s action after out) : Tidy after := by
  have hfree : ∀ {task : Task}, s.lock = none → s.lock = some task →
      ∀ {point : Point}, point.isEnqueueing := by
    intro task hnone hlock
    simp [hnone] at hlock
  have hwaits : ∀ {task : Task}, (s.point task).isEnqueueing = false →
      s.lock = some task → ∀ {point : Point}, point.isEnqueueing := by
    intro task hpoint hlock
    simp [h.busy hlock] at hpoint
  cases hmove with
  | tick => exact ⟨h.calm, h.busy, h.single, h.idle, h.nodup⟩
  | submitCall hpoint =>
      exact tidy_goto h (fun hlock =>
        hwaits (by simp [hpoint, Point.isEnqueueing]) hlock) (by simp) (by simp)
  | flushAllCall => exact absurd rfl (hflush _)
  | @submit call target todo hlock hcancel hpoint htodo =>
      apply tidy_flushLocked (tidy_addTarget (tidy_openBuffer h hkeys _) _)
      rcases htodo with rfl | rfl <;> simp
  | @recheck cdn hlock =>
      obtain ⟨point, heq, hpoint⟩ := recheck_cases cfg s cdn
      rw [heq]
      apply tidy_goto h (hfree hlock ·) <;>
        rcases hpoint with rfl | rfl | ⟨_, rfl⟩ | rfl <;> simp
  | flush hlock hcancel hpoint =>
      rcases hpoint with ⟨cdn, -, -, rfl⟩ | ⟨hpoint, -⟩
      · exact tidy_flushLocked h le_rfl
      · exact absurd hpoint (h.idle _).1
  | @wake cdn hwake hcancel hpoint =>
      have hmoved : Tidy (s.goto (.debounce cdn) .recheckLock) := by
        refine tidy_goto h (fun hlock => hwaits ?_ hlock) (by simp) (by simp)
        rcases hpoint with hpoint | ⟨_, hpoint⟩ <;>
          simp [hpoint, Point.isEnqueueing]
      exact ⟨hmoved.calm, hmoved.busy, hmoved.single, hmoved.idle, hmoved.nodup⟩
  | timeout hpoint =>
      exact tidy_goto h (fun hlock =>
        hwaits (by simp [hpoint, Point.isEnqueueing]) hlock) (by simp) (by simp)
  | commit hpoint =>
      apply tidy_goto h (fun _ => rfl) _ (by simp)
      rintro _ _ _ _ ⟨⟩
      exact h.single hpoint
  | enqueueReturn hpoint =>
      rw [h.single hpoint]
      exact tidy_flushLocked h (by simp)
  | gathered hpoint => exact absurd hpoint (h.idle .run).2
  | _ => simp [Action.isSmooth] at hsmooth

end Tidy

/-! ## Deadlines -/

/-- What is pending is not overdue, and a task that waits for its timeout or
for the lock to flush does so because of it. -/
structure OnTime (cfg : DaemonConfig) (s : State) : Prop where
  early : ∀ {cdn pending}, s.pending cdn = some pending →
    s.now ≤ pending.deadline (limits cfg)
  waiting : ∀ {cdn deadline}, s.point (.debounce cdn) = .timedWait deadline →
    (s.wake cdn = true ∧ s.now < deadline) ∨ (s.wake cdn = false ∧
      ∃ pending, s.pending cdn = some pending ∧
        pending.deadline (limits cfg) = deadline)
  due : ∀ {cdn}, s.point (.debounce cdn) = .flushLock →
    ∃ pending, s.pending cdn = some pending ∧
      pending.deadline (limits cfg) = s.now

section Resting

variable {cfg : DaemonConfig} {s : State}

theorem step_acquire {task : Task} (htidy : Tidy s) (hlock : s.lock = none) :
    step cfg s (.acquire task) = acquire cfg s task := by
  simp [step, hlock, htidy.calm]

theorem Resting.lock_eq_none (h : Resting cfg s) (htidy : Tidy s) :
    s.lock = none := by
  cases hlock : s.lock with
  | none => rfl
  | some task =>
      have hbusy := htidy.busy hlock
      cases hpoint : s.point task with
      | enqueueing cdn urls committed rest =>
          have hcommit := h.stuck (.commit task) rfl
          have hreturn := h.stuck (.enqueueReturn task) rfl
          cases committed <;> simp [step, hpoint, htidy.calm] at hcommit hreturn
      | _ => simp [hpoint, Point.isEnqueueing] at hbusy

/-- With the lock free, the task of a buffer that is not empty can go on or is
in its timed wait. -/
theorem debounce_can_move (hkeys : Consistent s) (htidy : Tidy s)
    (hwatched : Watched cfg s) (hlock : s.lock = none) {cdn : String}
    (hbuffer : s.buffers cdn ≠ []) :
    (step cfg s (.wake cdn)).isSome ∨
      (step cfg s (.acquire (.debounce cdn))).isSome ∨
      (s.wake cdn = false ∧
        ∃ deadline, s.point (.debounce cdn) = .timedWait deadline) := by
  have hpresent := (hkeys.debounced cdn).mpr (hkeys.known cdn hbuffer)
  have howned := hkeys.owned (.debounce cdn)
  have halive := hwatched.alive cdn
  cases hpoint : s.point (.debounce cdn) with
  | absent => exact absurd hpoint hpresent
  | wakeWait =>
      left
      have hwake : s.wake cdn = true := by
        rcases hwatched.attended cdn hbuffer with hwake | hother | hother |
          ⟨_, _, _, hother, -⟩
        · exact hwake
        · simp [hpoint] at hother
        · simp [hpoint] at hother
        · simp [hpoint] at hother
      simp [step, hwake, htidy.calm, hpoint]
  | timedWait deadline =>
      cases hwake : s.wake cdn with
      | true => exact .inl (by simp [step, hwake, htidy.calm, hpoint])
      | false => exact .inr (.inr ⟨rfl, deadline, rfl⟩)
  | recheckLock | flushLock =>
      right
      left
      simp [step_acquire htidy hlock, acquire, hpoint]
  | enqueueing =>
      have hholder := hkeys.holder (.debounce cdn)
        (by simp [hpoint, Point.isEnqueueing])
      simp [hlock] at hholder
  | ended => simp [hpoint, Point.isEnded] at halive
  | _ => simp [hpoint, Task.owns] at howned

/-- At rest a task with something pending is in its timed wait. -/
theorem Resting.timedWait (h : Resting cfg s) (hkeys : Consistent s)
    (htidy : Tidy s) (hwatched : Watched cfg s) {cdn : String}
    (hbuffer : s.buffers cdn ≠ []) : s.wake cdn = false ∧
      ∃ deadline, s.point (.debounce cdn) = .timedWait deadline := by
  have hlock := h.lock_eq_none htidy
  rcases debounce_can_move hkeys htidy hwatched hlock hbuffer with
    hmoves | hmoves | hwaits
  · simp [h.stuck (.wake cdn) rfl] at hmoves
  · simp [h.stuck (.acquire (.debounce cdn)) rfl] at hmoves
  · exact hwaits

end Resting

section OnTime

variable {cfg : DaemonConfig} {s after : State}

theorem onTime_init (now : ℚ) : OnTime cfg (init now) where
  early := fun h => by cases h
  waiting := by simp [init]
  due := by simp [init]

/-- A step that leaves the debounce tasks and what is pending alone. -/
theorem OnTime.of_eq (h : OnTime cfg s) (hnow : after.now = s.now)
    (hpending : after.pending = s.pending) (hwake : after.wake = s.wake)
    (hpoint : ∀ cdn, after.point (.debounce cdn) = s.point (.debounce cdn)) :
    OnTime cfg after where
  early := by
    rw [hpending, hnow]
    exact h.early
  waiting := by
    simp only [hpoint, hwake, hnow, hpending]
    exact h.waiting
  due := by
    simp only [hpoint, hnow, hpending]
    exact h.due

/-- One debounce task goes on. -/
theorem OnTime.goto (h : OnTime cfg s) {cdn : String} {point : Point}
    (hwaiting : ∀ {deadline}, point = .timedWait deadline →
      (s.wake cdn = true ∧ s.now < deadline) ∨ (s.wake cdn = false ∧
        ∃ pending, s.pending cdn = some pending ∧
          pending.deadline (limits cfg) = deadline))
    (hdue : point = .flushLock → ∃ pending, s.pending cdn = some pending ∧
      pending.deadline (limits cfg) = s.now) :
    OnTime cfg (s.goto (.debounce cdn) point) where
  early := h.early
  waiting := by
    intro other deadline hpoint
    by_cases heq : other = cdn
    · subst heq
      exact hwaiting (by simpa using hpoint)
    · exact h.waiting (by simpa [heq] using hpoint)
  due := by
    intro other hpoint
    by_cases heq : other = cdn
    · subst heq
      exact hdue (by simpa using hpoint)
    · exact h.due (by simpa [heq] using hpoint)

/-- Time passes until the first deadline at most. -/
theorem OnTime.tick (h : OnTime cfg s) (hkeys : Consistent s) (htidy : Tidy s)
    (hwatched : Watched cfg s) {time : ℚ}
    (htimely : Timely cfg s (.tick time)) :
    OnTime cfg { s with now := time } := by
  obtain ⟨hresting, hbound⟩ := htimely
  have hlock := hresting.lock_eq_none htidy
  constructor
  · intro cdn pending hpending
    have hbuffer : s.buffers cdn ≠ [] := by
      intro hempty
      have hnone := pending_eq_none hkeys hempty
      exact absurd (hnone.symm.trans hpending) (by simp)
    obtain ⟨hwake, deadline, hpoint⟩ :=
      hresting.timedWait hkeys htidy hwatched hbuffer
    rcases h.waiting hpoint with ⟨hset, -⟩ | ⟨-, other, hother, hdeadline⟩
    · simp [hwake] at hset
    · obtain rfl := Option.some.inj (hother.symm.trans hpending)
      exact hdeadline ▸ hbound cdn deadline hpoint
  · intro cdn deadline hpoint
    rcases h.waiting hpoint with ⟨hset, -⟩ | hwaits
    · have hwake := hresting.stuck (.wake cdn) rfl
      simp [step, hset, htidy.calm, show s.point (.debounce cdn) = _ from
        hpoint] at hwake
    · exact .inr hwaits
  · intro cdn hpoint
    have hacquire := hresting.stuck (.acquire (.debounce cdn)) rfl
    rw [step_acquire htidy hlock] at hacquire
    simp [acquire, show s.point (.debounce cdn) = _ from hpoint] at hacquire

/-- The buffer of a task that is not about to flush it is flushed by another
task, which has set the event. -/
theorem OnTime.takeBuffer_submit (h : OnTime cfg s) {call : ℕ} {cdn : String}
    (hwake : s.wake cdn = true)
    (hpoint : s.point (.debounce cdn) ≠ .flushLock) :
    OnTime cfg (takeBuffer s (.submit call) cdn []) := by
  have hpending : ∀ other, other ≠ cdn →
      (takeBuffer s (.submit call) cdn []).pending other = s.pending other :=
    fun other hother => pending_congr (by simp [hother]) (by simp [hother])
      (by simp [hother])
  constructor
  · intro other pending hsome
    by_cases heq : other = cdn
    · simp [State.pending, heq] at hsome
    · exact h.early ((hpending other heq).symm.trans hsome)
  · intro other deadline hwaits
    have hwaits' : s.point (.debounce other) = .timedWait deadline := by
      simpa using hwaits
    rcases h.waiting hwaits' with hset | ⟨hclear, hdeadline⟩
    · exact .inl hset
    · have hother : other ≠ cdn := by
        rintro rfl
        simp [hwake] at hclear
      exact .inr ⟨hclear, (hpending other hother).symm ▸ hdeadline⟩
  · intro other hflush
    have hflush' : s.point (.debounce other) = .flushLock := by
      simpa using hflush
    have hother : other ≠ cdn := by
      rintro rfl
      exact hpoint hflush'
    exact (hpending other hother).symm ▸ h.due hflush'

theorem OnTime.takeBuffer_debounce (h : OnTime cfg s) (cdn : String) :
    OnTime cfg (takeBuffer s (.debounce cdn) cdn []) := by
  have hpending : ∀ other, other ≠ cdn →
      (takeBuffer s (.debounce cdn) cdn []).pending other = s.pending other :=
    fun other hother => pending_congr (by simp [hother]) (by simp [hother])
      (by simp [hother])
  constructor
  · intro other pending hsome
    by_cases heq : other = cdn
    · simp [State.pending, heq] at hsome
    · exact h.early ((hpending other heq).symm.trans hsome)
  · intro other deadline hwaits
    by_cases heq : other = cdn
    · simp [heq] at hwaits
    · rw [hpending other heq]
      exact h.waiting (by simpa [heq] using hwaits)
  · intro other hflush
    by_cases heq : other = cdn
    · simp [heq] at hflush
    · rw [hpending other heq]
      exact h.due (by simpa [heq] using hflush)

theorem OnTime.recheck (h : OnTime cfg s) (hkeys : Consistent s)
    (cdn : String) : OnTime cfg (recheck cfg s cdn) := by
  unfold Batcher.recheck
  split
  · exact h.goto (by simp) (by simp)
  · rename_i hbuffer
    obtain ⟨first, latest, hfirst, hlast, hpending⟩ :=
      exists_pending hkeys hbuffer
    have hearly := h.early hpending
    have hdeadline : Debounce.Pending.deadline (limits cfg)
        ⟨(s.buffers cdn).toFinset, first, latest⟩ =
          min (latest + cfg.batchQuietWindowSeconds)
            (first + cfg.batchMaxAgeSeconds) := rfl
    simp only [hfirst, hlast]
    split
    · rename_i hwait
      apply h.goto (by simp)
      intro _
      exact ⟨_, hpending, le_antisymm (by rw [hdeadline]; linarith) hearly⟩
    · rename_i hwait
      apply h.goto _ (by simp)
      rintro deadline ⟨⟩
      cases hwake : s.wake cdn with
      | true => exact .inl ⟨rfl, by linarith⟩
      | false => exact .inr ⟨rfl, _, hpending, by rw [hdeadline]; ring⟩

end OnTime

/-! ## Submits -/

section Submit

variable {cfg : DaemonConfig} {s : State} {target : PurgeTarget}

theorem openBuffer_pending (hkeys : Consistent s) (cdn other : String) :
    (openBuffer s cdn).pending other = s.pending other :=
  pending_congr (by rw [openBuffer_buffers hkeys]) (by simp) (by simp)

theorem addTarget_pending_of_ne {cdn : String} (hcdn : cdn ≠ target.cdnName) :
    (addTarget s target).pending cdn = s.pending cdn := by
  apply pending_congr
  · simp [addTarget, hcdn]
  · simp only [addTarget]
    split <;> simp [hcdn]
  · simp [hcdn]

/-- `submit` collects the URL as the debouncer does. -/
theorem addTarget_pending (hkeys : Consistent s) :
    (addTarget s target).pending target.cdnName =
      some (Debounce.collect s.now target.url (s.pending target.cdnName)) := by
  by_cases hempty : s.buffers target.cdnName = []
  · rw [pending_eq_none hkeys hempty]
    simp [State.pending, addTarget, hempty, Debounce.collect]
  · obtain ⟨first, latest, hfirst, hlast, hpending⟩ :=
      exists_pending hkeys hempty
    rw [hpending]
    simp only [State.pending, addTarget, hempty, if_false, hfirst,
      Function.update_self, Debounce.collect, Option.some.injEq,
      Debounce.Pending.mk.injEq, and_true]
    split
    · rename_i hmem
      exact (Finset.insert_eq_of_mem (by simpa using hmem)).symm
    · rw [List.toFinset_append, Finset.union_comm]
      rfl

/-- A submit adds its URL and flushes the buffer if that has filled it. -/
theorem deadline_collect (hquiet : 0 < cfg.batchQuietWindowSeconds)
    (hage : 0 < cfg.batchMaxAgeSeconds) {now : ℚ} (url : String)
    {pending : Option (Debounce.Pending ℚ String)}
    (hearly : ∀ old, pending = some old → now < old.deadline (limits cfg)) :
    now < (Debounce.collect now url pending).deadline (limits cfg) := by
  cases pending with
  | none =>
      change now < min (now + _) (now + _)
      rw [lt_min_iff]
      exact ⟨lt_add_of_pos_right now hquiet, lt_add_of_pos_right now hage⟩
  | some old =>
      have hold := hearly old rfl
      change now < min (now + _) (old.first + _)
      rw [lt_min_iff]
      exact ⟨lt_add_of_pos_right now hquiet, hold.trans_le (min_le_right ..)⟩

/-- What is pending when a submit adds to it is not due. -/
theorem OnTime.lt_deadline (h : OnTime cfg s) {call : ℕ}
    (htimely : Timely cfg s (.acquire (.submit call)))
    (hpoint : s.point (.submit call) = .submitLock target)
    (pending : Debounce.Pending ℚ String)
    (hpending : s.pending target.cdnName = some pending) :
    s.now < pending.deadline (limits cfg) :=
  lt_of_le_of_ne (h.early hpending)
    (htimely target pending hpoint hpending).symm

theorem OnTime.add (h : OnTime cfg s) (hkeys : Consistent s)
    (hquiet : 0 < cfg.batchQuietWindowSeconds)
    (hage : 0 < cfg.batchMaxAgeSeconds)
    (hearly : ∀ pending, s.pending target.cdnName = some pending →
      s.now < pending.deadline (limits cfg)) :
    OnTime cfg (addTarget (openBuffer s target.cdnName) target) ∧
      (addTarget (openBuffer s target.cdnName) target).point
        (.debounce target.cdnName) ≠ .flushLock := by
  have hopen := consistent_openBuffer hkeys target.cdnName
  have hpending : ∀ cdn, cdn ≠ target.cdnName →
      (addTarget (openBuffer s target.cdnName) target).pending cdn =
        s.pending cdn := fun cdn hcdn =>
    (addTarget_pending_of_ne hcdn).trans (openBuffer_pending hkeys _ _)
  have hpoint : ∀ {cdn point}, point ≠ .wakeWait →
      (addTarget (openBuffer s target.cdnName) target).point (.debounce cdn) =
        point → s.point (.debounce cdn) = point := by
    intro cdn point hne hpoint
    rw [addTarget_point] at hpoint
    rcases openBuffer_point hkeys target.cdnName (.debounce cdn) with
      hsame | ⟨-, hbegins⟩
    · exact hsame.symm.trans hpoint
    · exact absurd (hpoint.symm.trans hbegins) hne
  have hwake : ∀ cdn, cdn ≠ target.cdnName →
      (addTarget (openBuffer s target.cdnName) target).wake cdn = s.wake cdn := by
    intro cdn hcdn
    rw [addTarget_wake, Function.update_of_ne hcdn, openBuffer_wake_of_ne hcdn]
  have hnot : s.point (.debounce target.cdnName) ≠ .flushLock := by
    intro hflush
    obtain ⟨pending, hsome, hdue⟩ := h.due hflush
    exact (hearly pending hsome).ne' hdue
  refine ⟨⟨?_, ?_, ?_⟩, fun hflush => hnot (hpoint (by simp) hflush)⟩
  · intro cdn pending hsome
    by_cases heq : cdn = target.cdnName
    · subst heq
      rw [addTarget_pending hopen, openBuffer_pending hkeys] at hsome
      rw [← Option.some.inj hsome, addTarget_now, openBuffer_now]
      exact (deadline_collect hquiet hage _ hearly).le
    · rw [hpending cdn heq] at hsome
      simpa using h.early hsome
  · intro cdn deadline hwaits
    have hwaits' := hpoint (by simp) hwaits
    by_cases heq : cdn = target.cdnName
    · subst heq
      refine .inl ⟨by simp, ?_⟩
      rcases h.waiting hwaits' with ⟨-, hlt⟩ | ⟨-, pending, hsome, rfl⟩
      · simpa using hlt
      · simpa using hearly pending hsome
    · rw [hwake cdn heq, hpending cdn heq]
      simpa using h.waiting hwaits'
  · intro cdn hflush
    have hflush' := hpoint (by simp) hflush
    have hcdn : cdn ≠ target.cdnName := by
      rintro rfl
      exact hnot hflush'
    rw [hpending cdn hcdn]
    simpa using h.due hflush'

end Submit

/-! ## One step -/

section Step

variable {cfg : DaemonConfig} {out : List Obs} {s after : State}
variable {action : Action}

theorem buffer_ne_nil (hkeys : Consistent s) {cdn : String}
    {pending : Debounce.Pending ℚ String}
    (hpending : s.pending cdn = some pending) : s.buffers cdn ≠ [] := by
  intro hempty
  simp [pending_eq_none hkeys hempty] at hpending

theorem OnTime.step (h : OnTime cfg s) (hkeys : Consistent s) (htidy : Tidy s)
    (hwatched : Watched cfg s) (hquiet : 0 < cfg.batchQuietWindowSeconds)
    (hage : 0 < cfg.batchMaxAgeSeconds) (htimely : Timely cfg s action)
    (hstep : step cfg s action = some (after, out)) : OnTime cfg after := by
  have hsmooth := htimely.isSmooth
  have hmove := move_of_step hstep
  cases hmove with
  | tick => exact h.tick hkeys htidy hwatched htimely
  | submitCall => exact h.of_eq rfl rfl rfl (by simp)
  | flushAllCall => exact htimely.elim
  | submit =>
      obtain ⟨target, added, hpoint, -, hadded, hcase⟩ :=
        submit_of_step hkeys hstep
      obtain ⟨honTime, hnot⟩ := h.add hkeys hquiet hage
        (h.lt_deadline htimely hpoint)
      rw [← hadded] at honTime hnot
      rcases hcase with ⟨-, hafter, -⟩ | ⟨-, hafter, -⟩
      · rw [hafter]
        exact honTime.takeBuffer_submit (by simp [hadded]) hnot
      · rw [hafter]
        exact honTime.of_eq rfl rfl rfl (by simp)
  | recheck => exact h.recheck hkeys _
  | flush hlock hcancel hpoint =>
      rcases hpoint with ⟨cdn, rfl, hpoint, rfl⟩ | ⟨hpoint, -⟩
      · obtain ⟨pending, hpending, -⟩ := h.due hpoint
        have hbuffer := buffer_ne_nil hkeys hpending
        simp only [flushLocked, hbuffer, if_false]
        exact h.takeBuffer_debounce cdn
      · exact absurd hpoint (htidy.idle _).1
  | @wake cdn =>
      have hmoved : OnTime cfg (s.goto (.debounce cdn) .recheckLock) :=
        h.goto (by simp) (by simp)
      refine ⟨hmoved.early, ?_, hmoved.due⟩
      intro other deadline hwaits
      have hother : other ≠ cdn := by
        rintro rfl
        simp at hwaits
      change (update s.wake cdn false other = true ∧ _) ∨
        (update s.wake cdn false other = false ∧ _)
      rw [Function.update_of_ne hother]
      exact hmoved.waiting hwaits
  | @timeout cdn deadline hpoint =>
      apply h.goto (by simp)
      intro _
      have hdue := htimely deadline hpoint
      rcases h.waiting hpoint with ⟨-, hlt⟩ | ⟨-, pending, hpending, heq⟩
      · exact absurd hdue hlt.not_ge
      · exact ⟨pending, hpending,
          le_antisymm (heq ▸ hdue) (h.early hpending)⟩
  | @commit task =>
      cases task with
      | debounce cdn => exact h.goto (by simp) (by simp)
      | _ => exact h.of_eq rfl rfl rfl (by simp)
  | @enqueueReturn task cdn urls rest hpoint =>
      rw [htidy.single hpoint]
      cases task with
      | debounce owner =>
          have hmoved : OnTime cfg (s.goto (.debounce owner) .wakeWait) :=
            h.goto (by simp) (by simp)
          exact hmoved.of_eq rfl rfl rfl fun _ => rfl
      | _ => exact h.of_eq rfl rfl rfl (by simp [flushLocked])
  | gathered hpoint => exact absurd hpoint (htidy.idle .run).2
  | _ => simp [Action.isSmooth] at hsmooth

/-- What a timely run keeps. -/
structure Timed (cfg : DaemonConfig) (s : State) : Prop where
  keys : Consistent s
  tidy : Tidy s
  watched : Watched cfg s
  onTime : OnTime cfg s

theorem timed_init (cfg : DaemonConfig) (now : ℚ) : Timed cfg (init now) where
  keys := consistent_init now
  tidy := tidy_init now
  watched := watched_init cfg now
  onTime := onTime_init now

theorem Timed.step (h : Timed cfg s) (hquiet : 0 < cfg.batchQuietWindowSeconds)
    (hage : 0 < cfg.batchMaxAgeSeconds) (htimely : Timely cfg s action)
    (hstep : step cfg s action = some (after, out)) : Timed cfg after where
  keys := consistent_move h.keys (move_of_step hstep)
  tidy := by
    apply tidy_move h.tidy h.keys htimely.isSmooth _ (move_of_step hstep)
    rintro call rfl
    exact htimely
  watched := watched_move h.watched h.keys htimely.isSmooth (move_of_step hstep)
  onTime := h.onTime.step h.keys h.tidy h.watched hquiet hage htimely hstep

end Step

end MirrorMirage.Batcher
