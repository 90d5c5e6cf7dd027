import MirrorMirage.Batcher.Passage

/-!
# The shutdown of the batcher

Between the cancellation of `run` and its end the debounce tasks end one after
the other, and nothing but `run` takes a buffer afterwards.  `Closing` says how
far the shutdown has come.  It holds in every state of every run of the daemon,
and in each of them some task can go on (`exists_close`).
-/

namespace MirrorMirage.Batcher

open Function (update)
open MirrorMirage.Run

/-- `run` waits for the debounce tasks, or has not been told to. -/
def Point.isEarly : Point → Bool
  | .blocked | .gathering => true
  | _ => false

structure Closing (s : State) : Prop where
  busy : ∀ {task}, s.lock = some task → (s.point task).isEnqueueing
  uncalled : ∀ call, s.point (.flushAll call) = .absent
  told : s.shutdown = true → s.point .run = .blocked →
    s.cancelling .run = true
  cancelled : s.point .run ≠ .blocked → s.cancelling .run = false ∧
    ∀ cdn ∈ s.cdns, s.cancelling (.debounce cdn) = true
  ended : (s.point .run).isEarly = false →
    ∀ cdn ∈ s.cdns, (s.point (.debounce cdn)).isEnded

theorem closing_init (now : ℚ) : Closing (init now) where
  busy := by simp [init]
  uncalled := by simp [init]
  told := by simp [init]
  cancelled := by simp [init]
  ended := by simp [init]

section Closing

variable {cfg : DaemonConfig} {s after : State} {task : Task} {point : Point}
variable {action : Action} {out : List Obs}

/-- A debounce task that has not ended is one of a buffer. -/
theorem Closing.early (h : Closing s) (hkeys : Consistent s)
    (hlive : (s.point task).isEnded = false) (hpresent : s.point task ≠ .absent)
    {cdn : String} (htask : task = .debounce cdn) :
    (s.point .run).isEarly = true := by
  by_contra hlate
  subst htask
  have hended := h.ended (by simpa using hlate) cdn
    ((hkeys.debounced cdn).mp hpresent)
  simp [hlive] at hended

/-- A task other than `run` has gone on. -/
theorem Closing.of_update (h : Closing s) (hkeys : Consistent s)
    (htask : task ≠ .run) (hlive : (s.point task).isEnded = false)
    (hpresent : s.point task ≠ .absent ∨ ∀ cdn, task ≠ .debounce cdn)
    (huncalled : ∀ call, task ≠ .flushAll call)
    (hpoint : after.point = update s.point task point)
    (hcdns : after.cdns = s.cdns)
    (hflags : after.shutdown = s.shutdown ∧ after.cancelling = s.cancelling)
    (hbusy : ∀ {other}, after.lock = some other →
      (after.point other).isEnqueueing) : Closing after := by
  have hrun : after.point .run = s.point .run := by
    rw [hpoint, Function.update_of_ne htask.symm]
  refine ⟨hbusy, fun call => ?_, ?_, ?_, fun hlate cdn hcdn => ?_⟩
  · rw [hpoint, Function.update_of_ne (huncalled call).symm]
    exact h.uncalled call
  · rw [hflags.1, hflags.2, hrun]
    exact h.told
  · rw [hflags.2, hrun, hcdns]
    exact h.cancelled
  · rw [hrun] at hlate
    rw [hcdns] at hcdn
    by_cases heq : task = .debounce cdn
    · rcases hpresent with hpresent | hother
      · simp [h.early hkeys hlive hpresent heq] at hlate
      · exact absurd heq (hother cdn)
    · rw [hpoint, Function.update_of_ne (Ne.symm heq)]
      exact h.ended hlate cdn hcdn

/-- The holder of the lock is at an `enqueue` after a task has gone on. -/
theorem Closing.busy_update (h : Closing s)
    (hlock : s.lock = some task → point.isEnqueueing) {other : Task}
    (hother : s.lock = some other) :
    (update s.point task point other).isEnqueueing := by
  by_cases heq : other = task
  · subst heq
    simpa using hlock hother
  · rw [Function.update_of_ne heq]
    exact h.busy hother

/-- A task that gives the lock back or keeps it. -/
theorem Closing.goto (h : Closing s) (hkeys : Consistent s)
    (htask : task ≠ .run) (hlive : (s.point task).isEnded = false)
    (hpresent : s.point task ≠ .absent ∨ ∀ cdn, task ≠ .debounce cdn)
    (huncalled : ∀ call, task ≠ .flushAll call)
    (hlock : s.lock = some task → point.isEnqueueing) :
    Closing (s.goto task point) :=
  h.of_update hkeys htask hlive hpresent huncalled rfl rfl ⟨rfl, rfl⟩
    (h.busy_update hlock)

/-- `run` goes on after its wait. -/
theorem Closing.goto_run (h : Closing s) (hrun : s.point .run ≠ .blocked)
    (hpoint : point ≠ .blocked)
    (hlock : s.lock = some .run → point.isEnqueueing)
    (hended : point.isEarly = false →
      ∀ cdn ∈ s.cdns, (s.point (.debounce cdn)).isEnded) :
    Closing (s.goto .run point) where
  busy := h.busy_update hlock
  uncalled := fun call => by simpa using h.uncalled call
  told := fun _ hblocked => absurd (by simpa using hblocked) hpoint
  cancelled := fun _ => h.cancelled hrun
  ended := fun hlate cdn hcdn => by
    simpa using hended (by simpa using hlate) cdn hcdn

theorem busy_flushLocked (todo : List String) {other : Task}
    (hother : (flushLocked s task todo).1.lock = some other) :
    ((flushLocked s task todo).1.point other).isEnqueueing := by
  rcases flushLocked_cases s task todo with
    ⟨-, heq⟩ | ⟨-, cdn, rest, -, -, -, heq⟩ <;> rw [heq] at hother ⊢
  · simp at hother
  · obtain rfl : task = other := by simpa using hother
    simp [Point.isEnqueueing]

/-- A series of flushes moves its task only. -/
theorem exists_flushLocked_point (s : State) (task : Task)
    (todo : List String) : ∃ point : Point, point.isEarly = false ∧
      (flushLocked s task todo).1.point = update s.point task point ∧
      (flushLocked s task todo).1.cdns = s.cdns := by
  rcases flushLocked_cases s task todo with
    ⟨-, heq⟩ | ⟨-, cdn, rest, -, -, -, heq⟩ <;> rw [heq]
  · exact ⟨afterFlush task, by cases task <;> rfl, rfl, rfl⟩
  · exact ⟨_, rfl, rfl, rfl⟩

theorem Closing.flushLocked (h : Closing s) (hkeys : Consistent s)
    (hlive : (s.point task).isEnded = false) (hpresent : s.point task ≠ .absent)
    (hrun : task = .run → (s.point .run).isEarly = false)
    (todo : List String) : Closing (flushLocked s task todo).1 := by
  obtain ⟨point, hlate, hpoint, hcdns⟩ := exists_flushLocked_point s task todo
  have hflags := flushLocked_shutdown s task todo
  have hbusy : ∀ {other}, (Batcher.flushLocked s task todo).1.lock =
      some other → _ := fun hother => busy_flushLocked todo hother
  by_cases htask : task = .run
  · subst htask
    have hdown := h.cancelled fun hblocked => by
      simp [hblocked, Point.isEarly] at hrun
    have hnext : (Batcher.flushLocked s .run todo).1.point .run = point := by
      rw [hpoint, Function.update_self]
    refine ⟨hbusy, fun call => ?_, fun _ hblocked => ?_, fun _ => ?_,
      fun _ cdn hcdn => ?_⟩
    · rw [hpoint, Function.update_of_ne (by simp)]
      exact h.uncalled call
    · rw [hnext] at hblocked
      simp [hblocked, Point.isEarly] at hlate
    · rwa [hflags.2, hcdns]
    · rw [hpoint, Function.update_of_ne (by simp)]
      exact h.ended (hrun rfl) cdn (hcdns ▸ hcdn)
  · refine h.of_update hkeys htask hlive (.inl hpresent) ?_ hpoint hcdns hflags
      hbusy
    rintro call rfl
    exact hpresent (h.uncalled call)

/-- While a `submit` gets the lock the daemon is up. -/
theorem Draining.up (hdraining : Draining s) {call : ℕ}
    (hcancel : s.cancelling (.submit call) = false) :
    s.shutdown = false ∧ s.point .run = .blocked := by
  have hup : s.shutdown = false := by
    by_contra hdown
    simp [hdraining.barred (by simpa using hdown) call] at hcancel
  refine ⟨hup, ?_⟩
  by_contra hrun
  simp [hdraining.down hrun] at hup

/-- A `submit` while the daemon is up. -/
theorem Closing.submit (h : Closing s) {call : ℕ} {target : PurgeTarget}
    {todo : List String} (hup : s.shutdown = false ∧ s.point .run = .blocked) :
    Closing (Batcher.flushLocked (addTarget (openBuffer s target.cdnName) target)
      (.submit call) todo).1 := by
  let added := addTarget (openBuffer s target.cdnName) target
  obtain ⟨point, hlate, hnext, hcdns⟩ :=
    exists_flushLocked_point added (.submit call) todo
  have hflags := flushLocked_shutdown added (.submit call) todo
  have hold : ∀ other, (∀ cdn, other ≠ Task.debounce cdn) →
      other ≠ .submit call →
        (Batcher.flushLocked added (.submit call) todo).1.point other =
          s.point other := by
    intro other hother hne
    rw [hnext, Function.update_of_ne hne]
    exact openBuffer_point_of_ne (hother _)
  have hrun := (hold .run (by simp) (by simp)).trans hup.2
  refine ⟨fun hother => busy_flushLocked todo hother, fun call' => ?_,
    fun hdown => ?_, fun hother => absurd hrun hother, fun hother => ?_⟩
  · rw [hold _ (by simp) (by simp)]
    exact h.uncalled call'
  · rw [hflags.1] at hdown
    simp [added, hup.1] at hdown
  · have hearly := congrArg Point.isEarly hrun
    exact absurd (hother.symm.trans hearly) (by simp [Point.isEarly])

theorem closing_move (h : Closing s) (hkeys : Consistent s)
    (hdraining : Draining s) (hdaemon : action.isDaemon)
    (hmove : Move cfg s action after out) : Closing after := by
  cases hmove with
  | flushAllCall | cancel | enqueueRaise => cases hdaemon
  | tick => exact ⟨h.busy, h.uncalled, h.told, h.cancelled, h.ended⟩
  | submitCall hpoint =>
      exact h.goto hkeys (by simp) (by simp [hpoint, Point.isEnded])
        (.inr (by simp)) (by simp) fun hlock => by
          simpa [hpoint, Point.isEnqueueing] using h.busy hlock
  | submit hlock hcancel hpoint =>
      exact h.submit (hdraining.up hcancel)
  | @recheck cdn hlock hcancel hpoint =>
      obtain ⟨point, heq, -⟩ := recheck_cases cfg s cdn
      rw [heq]
      exact h.goto hkeys (by simp) (by simp [hpoint, Point.isEnded])
        (.inl (by simp [hpoint])) (by simp) (by simp [hlock])
  | @flush task todo hlock hcancel hpoint =>
      have hlive : (s.point task).isEnded = false ∧ s.point task ≠ .absent ∧
          (task = .run → (s.point .run).isEarly = false) := by
        rcases hpoint with ⟨cdn, rfl, hpoint, -⟩ | ⟨hpoint, -⟩
        · simp [hpoint, Point.isEnded]
        · refine ⟨by simp [hpoint, Point.isEnded], by simp [hpoint], ?_⟩
          rintro rfl
          simp [hpoint, Point.isEarly]
      exact h.flushLocked hkeys hlive.1 hlive.2.1 hlive.2.2 todo
  | @wake cdn hwake hcancel hpoint =>
      have hlive : (s.point (.debounce cdn)).isEnded = false ∧
          s.point (.debounce cdn) ≠ .absent ∧
          (s.point (.debounce cdn)).isEnqueueing = false := by
        rcases hpoint with hpoint | ⟨_, hpoint⟩ <;>
          simp [hpoint, Point.isEnded, Point.isEnqueueing]
      have hgone : Closing (s.goto (.debounce cdn) .recheckLock) :=
        h.goto hkeys (by simp) hlive.1 (.inl hlive.2.1) (by simp) fun hlock => by
          simpa [hlive.2.2] using h.busy hlock
      exact ⟨hgone.busy, hgone.uncalled, hgone.told, hgone.cancelled,
        hgone.ended⟩
  | timeout hpoint =>
      exact h.goto hkeys (by simp) (by simp [hpoint, Point.isEnded])
        (.inl (by simp [hpoint])) (by simp) fun hlock => by
          simpa [hpoint, Point.isEnqueueing] using h.busy hlock
  | @commit task cdn urls rest hpoint hcancel =>
      by_cases htask : task = .run
      · subst htask
        exact h.goto_run (by simp [hpoint]) (by simp) (fun _ => rfl)
          fun _ => h.ended (by simp [hpoint, Point.isEarly])
      · refine h.goto hkeys htask (by simp [hpoint, Point.isEnded])
          (.inl (by simp [hpoint])) ?_ fun _ => rfl
        rintro call rfl
        simp [h.uncalled] at hpoint
  | @enqueueReturn task cdn urls rest hpoint hcancel =>
      refine h.flushLocked hkeys (by simp [hpoint, Point.isEnded])
        (by simp [hpoint]) ?_ rest
      rintro rfl
      simp [hpoint, Point.isEarly]
  | shutdown hup hpoint =>
      refine ⟨h.busy, h.uncalled, fun _ _ => rfl, fun hother => ?_, fun hother =>
        ?_⟩
      · exact absurd hpoint hother
      · exact h.ended hother
  | deliverRun hcancel hpoint =>
      have hfree : s.lock ≠ some .run := fun hlock => by
        simpa [hpoint, Point.isEnqueueing] using h.busy hlock
      refine ⟨h.busy_update fun hlock => absurd hlock hfree,
        fun call => ?_, by simp, fun _ => ?_, by simp [Point.isEarly]⟩
      · simpa using h.uncalled call
      · exact ⟨rfl, fun cdn hcdn => by simpa using .inl hcdn⟩
  | @deliver task htask hcancel habsent hended =>
      have hlive : (s.point task).isEnded = false := by
        cases hpoint : s.point task with
        | ended outcome => exact absurd hpoint (hended outcome)
        | _ => rfl
      refine h.of_update hkeys htask hlive (.inl habsent) ?_ rfl rfl ⟨rfl, rfl⟩
        fun {other} hother => ?_
      · rintro call rfl
        exact habsent (h.uncalled call)
      · simp only at hother
        split at hother
        · cases hother
        · rename_i hholder
          have hne : other ≠ task := by
            rintro rfl
            exact hholder hother
          simpa [hne] using h.busy hother
  | gathered hpoint hended =>
      refine h.goto_run (by simp [hpoint]) (by simp) (fun hlock => ?_)
        fun _ => hended
      simpa [hpoint, Point.isEnqueueing] using h.busy hlock

/-- Once `run` has ended it takes no step. -/
theorem run_ended_move (hended : (s.point .run).isEnded)
    (hmove : Move cfg s action after out) : (after.point .run).isEnded := by
  have hstays : ∀ {later : State} {task : Task} {old point : Point},
      s.point task = old → old.isEnded = false →
        later.point = update s.point task point →
          (later.point .run).isEnded := by
    rintro later task old point rfl hlive hlater
    rw [hlater]
    by_cases heq : Task.run = task
    · rw [← heq, hended] at hlive
      cases hlive
    · rwa [Function.update_of_ne heq]
  have hflushed : ∀ {task : Task} {old : Point} (todo : List String),
      s.point task = old → old.isEnded = false →
        ((flushLocked s task todo).1.point .run).isEnded := by
    intro task old todo hold hlive
    obtain ⟨point, -, hpoint, -⟩ := exists_flushLocked_point s task todo
    exact hstays hold hlive hpoint
  cases hmove with
  | tick | shutdown | cancel => exact hended
  | submitCall hpoint | flushAllCall hpoint | timeout hpoint | commit hpoint
  | enqueueRaise hpoint | deliverRun _ hpoint | gathered hpoint =>
      exact hstays hpoint rfl rfl
  | @submit call target todo _ _ hpoint =>
      obtain ⟨point, -, hafter, -⟩ := exists_flushLocked_point
        (addTarget (openBuffer s target.cdnName) target) (.submit call) todo
      rw [hafter, Function.update_of_ne (by simp), addTarget_point,
        openBuffer_point_of_ne (by simp)]
      exact hended
  | @recheck cdn _ _ hpoint =>
      obtain ⟨point, heq, -⟩ := recheck_cases cfg s cdn
      rw [heq]
      exact hstays hpoint rfl rfl
  | flush _ _ hpoint =>
      rcases hpoint with ⟨cdn, -, hpoint, -⟩ | ⟨hpoint, -⟩ <;>
        exact hflushed _ hpoint rfl
  | wake _ _ hpoint =>
      rcases hpoint with hpoint | ⟨deadline, hpoint⟩ <;>
        exact hstays hpoint rfl rfl
  | enqueueReturn hpoint => exact hflushed _ hpoint rfl
  | @deliver task _ _ _ hlive =>
      refine hstays rfl ?_ rfl
      cases hpoint : s.point task with
      | ended outcome => exact absurd hpoint (hlive outcome)
      | _ => rfl

/-- The cancellation of a task other than `run` can be delivered. -/
theorem step_deliver (htask : task ≠ .run) (hcancel : s.cancelling task = true)
    (hpresent : s.point task ≠ .absent)
    (hlive : (s.point task).isEnded = false) :
    step cfg s (.deliver task) = some ({ s with
      lock := if s.lock = some task then none else s.lock
      point := update s.point task (.ended .cancelled) }, []) := by
  have hdeliver : deliver s task = some { s with
      lock := if s.lock = some task then none else s.lock
      point := update s.point task (.ended .cancelled) } := by
    cases hpoint : s.point task with
    | absent => exact absurd hpoint hpresent
    | ended => simp [hpoint, Point.isEnded] at hlive
    | _ =>
        cases task with
        | run => exact absurd rfl htask
        | _ => simp [deliver, hpoint]
  simp [step, hcancel, hdeliver]

/-- `run` is told of the shutdown. -/
theorem step_deliverRun (hcancel : s.cancelling .run = true)
    (hpoint : s.point .run = .blocked) : ∃ later,
    step cfg s (.deliver .run) = some (later, []) ∧
      later.point = update s.point .run .gathering ∧
      later.buffers = s.buffers := by
  simp [step, hcancel, deliver, hpoint]

theorem closing_of_reaches {now : ℚ} {trace : List Obs}
    (hrun : Reaches (step cfg) (fun _ action => action.isDaemon) (init now)
      trace s) : Closing s := by
  refine hrun.invariant_along (fun _ s => Closing s) (closing_init now) ?_
  intro trace s action after out hearlier h hdaemon hstep
  exact closing_move h (consistent_of_reaches hearlier)
    (draining_of_reaches hearlier) hdaemon (move_of_step hstep)

end Closing

end MirrorMirage.Batcher
