import MirrorMirage.Batcher.Model

/-!
# What one step of the batcher can do

`Move` lists the accepted actions with their guards and effects, and
`move_of_step` reads it off `step`.  Invariants are proved by cases on it.
The flushes of all paths are `flushLocked`, described by `flushLocked_cases`.
-/

namespace MirrorMirage.Batcher

open Function (update)

/-! ## The fields after each update -/

section Fields

variable (s : State) (task : Task) (point : Point) (cdn : String)
variable (target : PurgeTarget) (rest : List String)

@[simp] theorem goto_point : (s.goto task point).point =
    update s.point task point := rfl
@[simp] theorem goto_buffers : (s.goto task point).buffers = s.buffers := rfl
@[simp] theorem goto_cdns : (s.goto task point).cdns = s.cdns := rfl
@[simp] theorem goto_lock : (s.goto task point).lock = s.lock := rfl
@[simp] theorem goto_wake : (s.goto task point).wake = s.wake := rfl
@[simp] theorem goto_now : (s.goto task point).now = s.now := rfl
@[simp] theorem goto_firstAdded :
    (s.goto task point).firstAdded = s.firstAdded := rfl
@[simp] theorem goto_lastAdded :
    (s.goto task point).lastAdded = s.lastAdded := rfl
@[simp] theorem goto_cancelling :
    (s.goto task point).cancelling = s.cancelling := rfl
@[simp] theorem goto_shutdown :
    (s.goto task point).shutdown = s.shutdown := rfl

@[simp] theorem leave_point : (s.leave task point).point =
    update s.point task point := rfl
@[simp] theorem leave_buffers : (s.leave task point).buffers = s.buffers := rfl
@[simp] theorem leave_cdns : (s.leave task point).cdns = s.cdns := rfl
@[simp] theorem leave_lock : (s.leave task point).lock = none := rfl
@[simp] theorem leave_wake : (s.leave task point).wake = s.wake := rfl
@[simp] theorem leave_now : (s.leave task point).now = s.now := rfl
@[simp] theorem leave_firstAdded :
    (s.leave task point).firstAdded = s.firstAdded := rfl
@[simp] theorem leave_lastAdded :
    (s.leave task point).lastAdded = s.lastAdded := rfl
@[simp] theorem leave_cancelling :
    (s.leave task point).cancelling = s.cancelling := rfl
@[simp] theorem leave_shutdown :
    (s.leave task point).shutdown = s.shutdown := rfl

@[simp] theorem takeBuffer_point : (takeBuffer s task cdn rest).point =
    update s.point task (.enqueueing cdn (s.buffers cdn) false rest) := rfl
@[simp] theorem takeBuffer_buffers : (takeBuffer s task cdn rest).buffers =
    update s.buffers cdn [] := rfl
@[simp] theorem takeBuffer_cdns :
    (takeBuffer s task cdn rest).cdns = s.cdns := rfl
@[simp] theorem takeBuffer_lock :
    (takeBuffer s task cdn rest).lock = some task := rfl
@[simp] theorem takeBuffer_wake :
    (takeBuffer s task cdn rest).wake = s.wake := rfl
@[simp] theorem takeBuffer_now :
    (takeBuffer s task cdn rest).now = s.now := rfl
@[simp] theorem takeBuffer_firstAdded :
    (takeBuffer s task cdn rest).firstAdded = update s.firstAdded cdn none :=
  rfl
@[simp] theorem takeBuffer_lastAdded :
    (takeBuffer s task cdn rest).lastAdded = update s.lastAdded cdn none := rfl
@[simp] theorem takeBuffer_cancelling :
    (takeBuffer s task cdn rest).cancelling = s.cancelling := rfl
@[simp] theorem takeBuffer_shutdown :
    (takeBuffer s task cdn rest).shutdown = s.shutdown := rfl

@[simp] theorem addTarget_point : (addTarget s target).point = s.point := rfl
@[simp] theorem addTarget_cdns : (addTarget s target).cdns = s.cdns := rfl
@[simp] theorem addTarget_lock : (addTarget s target).lock = s.lock := rfl
@[simp] theorem addTarget_now : (addTarget s target).now = s.now := rfl
@[simp] theorem addTarget_wake : (addTarget s target).wake =
    update s.wake target.cdnName true := rfl
@[simp] theorem addTarget_lastAdded : (addTarget s target).lastAdded =
    update s.lastAdded target.cdnName (some s.now) := rfl
@[simp] theorem addTarget_cancelling :
    (addTarget s target).cancelling = s.cancelling := rfl
@[simp] theorem addTarget_shutdown :
    (addTarget s target).shutdown = s.shutdown := rfl

@[simp] theorem openBuffer_lock : (openBuffer s cdn).lock = s.lock := by
  unfold openBuffer; split <;> rfl
@[simp] theorem openBuffer_now : (openBuffer s cdn).now = s.now := by
  unfold openBuffer; split <;> rfl
@[simp] theorem openBuffer_firstAdded :
    (openBuffer s cdn).firstAdded = s.firstAdded := by
  unfold openBuffer; split <;> rfl
@[simp] theorem openBuffer_lastAdded :
    (openBuffer s cdn).lastAdded = s.lastAdded := by
  unfold openBuffer; split <;> rfl
@[simp] theorem openBuffer_cancelling :
    (openBuffer s cdn).cancelling = s.cancelling := by
  unfold openBuffer; split <;> rfl
@[simp] theorem openBuffer_shutdown :
    (openBuffer s cdn).shutdown = s.shutdown := by
  unfold openBuffer; split <;> rfl

theorem openBuffer_point_of_ne {s : State} {task : Task} {cdn : String}
    (hne : task ≠ .debounce cdn) :
    (openBuffer s cdn).point task = s.point task := by
  unfold openBuffer
  split
  · rfl
  · exact Function.update_of_ne hne ..

theorem openBuffer_wake_of_ne {s : State} {cdn other : String}
    (hne : other ≠ cdn) : (openBuffer s cdn).wake other = s.wake other := by
  unfold openBuffer
  split
  · rfl
  · exact Function.update_of_ne hne ..

theorem mem_openBuffer_cdns {other : String} :
    other ∈ (openBuffer s cdn).cdns ↔ other ∈ s.cdns ∨ other = cdn := by
  unfold openBuffer
  split
  · rename_i hmem
    exact ⟨.inl, fun h => h.elim id fun heq => heq ▸ hmem⟩
  · simp

/-- Adding a target puts its URL into its buffer and leaves the others. -/
theorem mem_addTarget_buffers {other url : String} :
    url ∈ (addTarget s target).buffers other ↔ url ∈ s.buffers other ∨
      (other = target.cdnName ∧ url = target.url) := by
  simp only [addTarget, Function.update_apply]
  by_cases hother : other = target.cdnName
  · subst hother
    by_cases hmem : target.url ∈ s.buffers target.cdnName
    · simp only [if_true, hmem, true_and]
      exact ⟨.inl, fun h => h.elim id fun heq => heq ▸ hmem⟩
    · simp [hmem]
  · simp [hother]

theorem addTarget_buffers_ne_nil :
    (addTarget s target).buffers target.cdnName ≠ [] := by
  have hmem : target.url ∈ (addTarget s target).buffers target.cdnName :=
    (mem_addTarget_buffers s target).mpr (.inr ⟨rfl, rfl⟩)
  exact List.ne_nil_of_mem hmem

theorem addTarget_buffers_of_ne {other : String}
    (hne : other ≠ target.cdnName) :
    (addTarget s target).buffers other = s.buffers other :=
  Function.update_of_ne hne ..

theorem addTarget_nodup {s : State} (h : ∀ cdn, (s.buffers cdn).Nodup)
    (target : PurgeTarget) (cdn : String) :
    ((addTarget s target).buffers cdn).Nodup := by
  by_cases heq : cdn = target.cdnName
  · subst heq
    simp only [addTarget, Function.update_self]
    split
    · exact h _
    · rename_i hnew
      refine List.nodup_append.mpr ⟨h _, by simp, ?_⟩
      rintro url hurl _ hsame rfl
      exact hnew (List.mem_singleton.mp hsame ▸ hurl)
  · rw [addTarget_buffers_of_ne s target heq]
    exact h cdn

theorem length_addTarget_le :
    ((addTarget s target).buffers target.cdnName).length ≤
      (s.buffers target.cdnName).length + 1 := by
  simp only [addTarget, Function.update_self]
  split <;> simp

end Fields

/-! ## Flushes -/

/-- The inner loop of a debounce task moves this task only: to one of its
waits, to the lock for its flush, or to its end. -/
theorem recheck_cases (cfg : DaemonConfig) (s : State) (cdn : String) :
    ∃ point, recheck cfg s cdn = s.goto (.debounce cdn) point ∧
      (point = .wakeWait ∨ point = .flushLock ∨
        (∃ deadline, point = .timedWait deadline) ∨ point = .ended .raised) := by
  unfold recheck
  split
  · exact ⟨_, rfl, .inl rfl⟩
  · split
    · simp only
      split
      · exact ⟨_, rfl, .inr (.inl rfl)⟩
      · exact ⟨_, rfl, .inr (.inr (.inl ⟨_, rfl⟩))⟩
    · exact ⟨_, rfl, .inr (.inr (.inr rfl))⟩

/-- A series of flushes either finds every listed buffer empty, or takes the
first that is not. -/
theorem flushLocked_cases (s : State) (task : Task) (todo : List String) :
    ((∀ cdn ∈ todo, s.buffers cdn = []) ∧
      flushLocked s task todo = (s.leave task (afterFlush task), [])) ∨
    ∃ skipped cdn rest, todo = skipped ++ cdn :: rest ∧
      (∀ other ∈ skipped, s.buffers other = []) ∧ s.buffers cdn ≠ [] ∧
      flushLocked s task todo = (takeBuffer s task cdn rest,
        [.enqueued cdn (s.buffers cdn) s.now]) := by
  induction todo with
  | nil => exact .inl ⟨by simp, rfl⟩
  | cons cdn rest ih =>
      by_cases hempty : s.buffers cdn = []
      · have hskip : flushLocked s task (cdn :: rest) =
            flushLocked s task rest := by simp [flushLocked, hempty]
        rcases ih with ⟨hall, heq⟩ | ⟨skipped, other, rest', hsplit, hskipped,
          hother, heq⟩
        · exact .inl ⟨by simpa [hempty] using hall, hskip.trans heq⟩
        · refine .inr ⟨cdn :: skipped, other, rest', by simp [hsplit], ?_,
            hother, hskip.trans heq⟩
          simpa [hempty] using hskipped
      · exact .inr ⟨[], cdn, rest, rfl, by simp, hempty,
          by simp [flushLocked, hempty]⟩

/-! ## Moves -/

/-- The accepted actions, with their guards, next states and observations. -/
inductive Move (cfg : DaemonConfig) (s : State) :
    Action → State → List Obs → Prop where
  | tick {time : ℚ} (hnow : s.now ≤ time) :
      Move cfg s (.tick time) { s with now := time } []
  | submitCall {call : ℕ} {target : PurgeTarget}
      (hpoint : s.point (.submit call) = .absent)
      (hshutdown : s.shutdown = false) :
      Move cfg s (.submit call target)
        (s.goto (.submit call) (.submitLock target)) []
  | flushAllCall {call : ℕ} (hpoint : s.point (.flushAll call) = .absent) :
      Move cfg s (.flushAll call) (s.goto (.flushAll call) .flushAllLock) []
  | submit {call : ℕ} {target : PurgeTarget} {todo : List String}
      (hlock : s.lock = none) (hcancel : s.cancelling (.submit call) = false)
      (hpoint : s.point (.submit call) = .submitLock target)
      (htodo : todo = [target.cdnName] ∨ todo = []) :
      Move cfg s (.acquire (.submit call))
        (flushLocked (addTarget (openBuffer s target.cdnName) target)
          (.submit call) todo).1
        (.added target.cdnName target.url s.now ::
          (flushLocked (addTarget (openBuffer s target.cdnName) target)
            (.submit call) todo).2)
  | recheck {cdn : String} (hlock : s.lock = none)
      (hcancel : s.cancelling (.debounce cdn) = false)
      (hpoint : s.point (.debounce cdn) = .recheckLock) :
      Move cfg s (.acquire (.debounce cdn)) (recheck cfg s cdn) []
  | flush {task : Task} {todo : List String} (hlock : s.lock = none)
      (hcancel : s.cancelling task = false)
      (hpoint : (∃ cdn, task = .debounce cdn ∧ s.point task = .flushLock ∧
          todo = [cdn]) ∨
        (s.point task = .flushAllLock ∧ todo = s.cdns)) :
      Move cfg s (.acquire task) (flushLocked s task todo).1
        (flushLocked s task todo).2
  | wake {cdn : String} (hwake : s.wake cdn = true)
      (hcancel : s.cancelling (.debounce cdn) = false)
      (hpoint : s.point (.debounce cdn) = .wakeWait ∨
        ∃ deadline, s.point (.debounce cdn) = .timedWait deadline) :
      Move cfg s (.wake cdn)
        { s.goto (.debounce cdn) .recheckLock with
          wake := update s.wake cdn false } []
  | timeout {cdn : String} {deadline : ℚ}
      (hpoint : s.point (.debounce cdn) = .timedWait deadline)
      (hcancel : s.cancelling (.debounce cdn) = false) :
      Move cfg s (.timeout cdn) (s.goto (.debounce cdn) .flushLock) []
  | commit {task : Task} {cdn : String} {urls rest : List String}
      (hpoint : s.point task = .enqueueing cdn urls false rest)
      (hcancel : s.cancelling task = false) :
      Move cfg s (.commit task)
        (s.goto task (.enqueueing cdn urls true rest)) [.committed cdn urls]
  | enqueueReturn {task : Task} {cdn : String} {urls rest : List String}
      (hpoint : s.point task = .enqueueing cdn urls true rest)
      (hcancel : s.cancelling task = false) :
      Move cfg s (.enqueueReturn task) (flushLocked s task rest).1
        (flushLocked s task rest).2
  | enqueueRaise {task : Task} {cdn : String} {urls rest : List String}
      (hpoint : s.point task = .enqueueing cdn urls false rest)
      (hcancel : s.cancelling task = false) :
      Move cfg s (.enqueueRaise task) (s.leave task (afterRaise task)) []
  | cancel {task : Task} (htask : task ≠ .run) :
      Move cfg s (.cancel task)
        { s with cancelling := update s.cancelling task true } []
  | shutdown (hshutdown : s.shutdown = false)
      (hpoint : s.point .run = .blocked) :
      Move cfg s .shutdown
        { s with
          shutdown := true
          cancelling := fun task => match task with
            | .run | .submit _ => true
            | _ => s.cancelling task } []
  | deliverRun (hcancel : s.cancelling .run = true)
      (hpoint : s.point .run = .blocked) :
      Move cfg s (.deliver .run)
        { s with
          cancelling := fun other => match other with
            | .debounce cdn => cdn ∈ s.cdns || s.cancelling other
            | .run => false
            | _ => s.cancelling other
          point := update s.point .run .gathering } []
  | deliver {task : Task} (htask : task ≠ .run)
      (hcancel : s.cancelling task = true) (habsent : s.point task ≠ .absent)
      (hended : ∀ outcome, s.point task ≠ .ended outcome) :
      Move cfg s (.deliver task)
        { s with
          lock := if s.lock = some task then none else s.lock
          point := update s.point task (.ended .cancelled) } []
  | gathered (hpoint : s.point .run = .gathering)
      (hended : ∀ cdn ∈ s.cdns, (s.point (.debounce cdn)).isEnded) :
      Move cfg s .gathered (s.goto .run .flushAllLock) []

theorem move_of_acquire {cfg : DaemonConfig} {s after : State} {task : Task}
    {out : List Obs} (hlock : s.lock = none)
    (hcancel : s.cancelling task = false)
    (hacquire : acquire cfg s task = some (after, out)) :
    Move cfg s (.acquire task) after out := by
  simp only [acquire] at hacquire
  split at hacquire
  · rename_i call target hpoint
    obtain ⟨rfl, rfl⟩ : _ ∧ _ := by simpa using hacquire
    refine .submit hlock hcancel hpoint ?_
    split
    · exact .inl rfl
    · exact .inr rfl
  · rename_i cdn hpoint
    obtain ⟨rfl, rfl⟩ : _ ∧ _ := by simpa using hacquire
    exact .recheck hlock hcancel hpoint
  · rename_i cdn hpoint
    obtain ⟨rfl, rfl⟩ := Prod.ext_iff.mp (Option.some.inj hacquire).symm
    exact .flush hlock hcancel (.inl ⟨cdn, rfl, hpoint, rfl⟩)
  · rename_i hpoint
    obtain ⟨rfl, rfl⟩ := Prod.ext_iff.mp (Option.some.inj hacquire).symm
    exact .flush hlock hcancel (.inr ⟨hpoint, rfl⟩)
  · cases hacquire

theorem move_of_deliver {cfg : DaemonConfig} {s after : State} {task : Task}
    (hcancel : s.cancelling task = true)
    (hdeliver : deliver s task = some after) :
    Move cfg s (.deliver task) after [] := by
  simp only [deliver] at hdeliver
  split at hdeliver
  · cases hdeliver
  · cases hdeliver
  · rename_i hpoint
    cases hdeliver
    exact .deliverRun hcancel hpoint
  · cases hdeliver
  · rename_i hrun habsent hended _
    cases hdeliver
    exact .deliver hrun hcancel habsent hended

theorem move_of_step {cfg : DaemonConfig} {s after : State} {action : Action}
    {out : List Obs} (hstep : step cfg s action = some (after, out)) :
    Move cfg s action after out := by
  cases action with
  | tick time =>
      simp only [step] at hstep
      split at hstep
      · cases hstep
        exact .tick ‹_›
      · cases hstep
  | submit call target =>
      simp only [step] at hstep
      split at hstep
      · rename_i hguard
        cases hstep
        exact .submitCall hguard.1 hguard.2
      · cases hstep
  | flushAll call =>
      simp only [step] at hstep
      split at hstep
      · cases hstep
        exact .flushAllCall ‹_›
      · cases hstep
  | acquire task =>
      simp only [step] at hstep
      split at hstep
      · rename_i hguard
        exact move_of_acquire hguard.1 hguard.2 hstep
      · cases hstep
  | wake cdn =>
      simp only [step] at hstep
      split at hstep
      · rename_i hguard
        split at hstep
        · cases hstep
          exact .wake hguard.1 hguard.2 (.inl ‹_›)
        · cases hstep
          exact .wake hguard.1 hguard.2 (.inr ⟨_, ‹_›⟩)
        · cases hstep
      · cases hstep
  | timeout cdn =>
      simp only [step] at hstep
      split at hstep
      · split at hstep
        · cases hstep
          exact .timeout ‹_› ‹_›
        · cases hstep
      · cases hstep
  | commit task =>
      simp only [step] at hstep
      split at hstep
      · split at hstep
        · cases hstep
          exact .commit ‹_› ‹_›
        · cases hstep
      · cases hstep
  | enqueueReturn task =>
      simp only [step] at hstep
      split at hstep
      · split at hstep
        · obtain ⟨rfl, rfl⟩ := Prod.ext_iff.mp (Option.some.inj hstep).symm
          exact .enqueueReturn ‹_› ‹_›
        · cases hstep
      · cases hstep
  | enqueueRaise task =>
      simp only [step] at hstep
      split at hstep
      · split at hstep
        · cases hstep
          exact .enqueueRaise ‹_› ‹_›
        · cases hstep
      · cases hstep
  | cancel task =>
      simp only [step] at hstep
      split at hstep
      · cases hstep
        exact .cancel ‹_›
      · cases hstep
  | shutdown =>
      simp only [step] at hstep
      split at hstep
      · rename_i hguard
        cases hstep
        exact .shutdown hguard.1 hguard.2
      · cases hstep
  | deliver task =>
      simp only [step] at hstep
      split at hstep
      · obtain ⟨next, hnext, heq⟩ := Option.map_eq_some_iff.mp hstep
        cases heq
        exact move_of_deliver ‹_› hnext
      · cases hstep
  | gathered =>
      simp only [step] at hstep
      split at hstep
      · rename_i hguard
        cases hstep
        exact .gathered hguard.1 hguard.2
      · cases hstep

end MirrorMirage.Batcher
