import MirrorMirage.Batcher.Shutdown

/-!
# The way of a URL through the batcher

What a step means for the `enqueue` under way is `Enqueues`: it starts none, or
one while nothing else is awaited.  A target goes from its `submit` into the
buffer, from the buffer into an `enqueue`, and there it stays until the row is
committed or the task is cancelled.
-/

namespace MirrorMirage.Batcher

open Function (update)
open MirrorMirage.Run

/-! ## Calls of `enqueue` -/

section Enqueues

/-- The task awaits `enqueue(cdn, urls)`. -/
def Awaits (s : State) (task : Task) (cdn : String) (urls : List String)
    (committed : Bool) : Prop :=
  ∃ rest, s.point task = .enqueueing cdn urls committed rest

/-- No `enqueue` is called. -/
def Silent (out : List Obs) : Prop :=
  ∀ cdn urls time, .enqueued cdn urls time ∉ out

theorem silent_nil : Silent [] := by simp [Silent]

/-- Either no `enqueue` is called, and those that are awaited were, or the
last thing is one call, and nothing else is awaited. -/
inductive Enqueues (s after : State) (out : List Obs) : Prop where
  | none (hsilent : Silent out) (hawaits : ∀ {task cdn urls committed},
      Awaits after task cdn urls committed → Awaits s task cdn urls committed)
  | one {before : List Obs} {cdn : String} {urls : List String}
      {time : ℚ} (hout : out = before ++ [.enqueued cdn urls time])
      (hsilent : Silent before)
      (hawaits : ∀ {task cdn' urls' committed},
        Awaits after task cdn' urls' committed →
          cdn' = cdn ∧ urls' = urls ∧ committed = false)

variable {cfg : DaemonConfig} {s after : State} {task : Task}
variable {action : Action} {out : List Obs}

theorem isEnqueueing_of_awaits {cdn : String} {urls : List String}
    {committed : Bool} (h : Awaits s task cdn urls committed) :
    (s.point task).isEnqueueing := by
  obtain ⟨rest, hpoint⟩ := h
  simp [hpoint, Point.isEnqueueing]

/-- Some task has come to a point outside `enqueue`. -/
theorem enqueues_of_goto {point : Point}
    (hfree : point.isEnqueueing = false)
    (hpoint : after.point = update s.point task point) :
    Enqueues s after [] := by
  refine .none silent_nil ?_
  rintro other cdn urls committed ⟨rest, hother⟩
  by_cases heq : other = task
  · rw [hpoint, heq, Function.update_self] at hother
    simp [hother, Point.isEnqueueing] at hfree
  · exact ⟨rest, by simpa [hpoint, heq] using hother⟩

/-- After a series of flushes nothing is awaited, or one new call. -/
theorem awaits_flushLocked (hkeys : Consistent s)
    (hlock : s.lock = none ∨ s.lock = some task) (todo : List String) :
    ((flushLocked s task todo).2 = [] ∧
      ∀ {other cdn urls committed},
        ¬ Awaits (flushLocked s task todo).1 other cdn urls committed) ∨
    ∃ cdn urls time,
      (flushLocked s task todo).2 = [.enqueued cdn urls time] ∧
      ∀ {other cdn' urls' committed},
        Awaits (flushLocked s task todo).1 other cdn' urls'
          committed → cdn' = cdn ∧ urls' = urls ∧ committed = false := by
  have halone : ∀ {point other cdn urls committed rest}, other ≠ task →
      update s.point task point other ≠
        .enqueueing cdn urls committed rest := by
    intro point other cdn urls committed rest hother hpoint
    have hfree := hkeys.alone hlock hother
    rw [Function.update_of_ne hother] at hpoint
    simp [hpoint, Point.isEnqueueing] at hfree
  rcases flushLocked_cases s task todo with
    ⟨-, heq⟩ | ⟨-, taken, rest, -, -, -, heq⟩ <;> rw [heq]
  · refine .inl ⟨rfl, ?_⟩
    rintro other cdn urls committed ⟨rest, hpoint⟩
    by_cases hsame : other = task
    · subst hsame
      cases other <;> simp [afterFlush] at hpoint
    · exact absurd hpoint (halone hsame)
  · refine .inr ⟨_, _, _, rfl, ?_⟩
    rintro other cdn urls committed ⟨rest', hpoint⟩
    by_cases hsame : other = task
    · subst hsame
      simp only [takeBuffer_point, Function.update_self,
        Point.enqueueing.injEq] at hpoint
      exact ⟨hpoint.1.symm, hpoint.2.1.symm, hpoint.2.2.1.symm⟩
    · exact absurd hpoint (halone hsame)

theorem enqueues_flushLocked {earlier : State}
    (hkeys : Consistent s)
    (hlock : s.lock = none ∨ s.lock = some task) (todo : List String)
    {before : List Obs} (hbefore : Silent before) :
    Enqueues earlier (flushLocked s task todo).1
      (before ++ (flushLocked s task todo).2) := by
  rcases awaits_flushLocked hkeys hlock todo with
    ⟨heq, hawaits⟩ | ⟨cdn, urls, time, heq, hawaits⟩
  · exact .none (by simpa [heq] using hbefore)
      fun hafter => absurd hafter hawaits
  · exact .one (by rw [heq]) hbefore hawaits

theorem enqueues_of_move (hkeys : Consistent s)
    (hcommit : ∀ task, action ≠ .commit task)
    (hmove : Move cfg s action after out) : Enqueues s after out := by
  cases hmove with
  | tick | shutdown | cancel =>
      exact .none silent_nil fun hawaits => hawaits
  | submitCall | flushAllCall | wake | timeout | deliverRun | deliver |
    gathered => exact enqueues_of_goto rfl rfl
  | @submit call target todo hlock =>
      rw [← List.singleton_append]
      have hopen := consistent_openBuffer hkeys target.cdnName
      exact enqueues_flushLocked (consistent_addTarget hopen
        ((mem_openBuffer_cdns _ _).mpr (.inr rfl)))
        (.inl (by simpa using hlock)) todo (by simp [Silent])
  | @recheck cdn =>
      obtain ⟨point, heq, hpoint⟩ := recheck_cases cfg s cdn
      rw [heq]
      refine enqueues_of_goto ?_ rfl
      rcases hpoint with rfl | rfl | ⟨_, rfl⟩ | rfl <;> rfl
  | @flush task todo hlock =>
      simpa using enqueues_flushLocked hkeys (.inl hlock) todo silent_nil
  | commit => exact absurd rfl (hcommit _)
  | @enqueueReturn task cdn urls rest hpoint =>
      have hlock := hkeys.holder task
        (by simp [hpoint, Point.isEnqueueing])
      simpa using enqueues_flushLocked hkeys (.inr hlock) rest silent_nil
  | @enqueueRaise task =>
      refine enqueues_of_goto ?_ rfl
      cases task <;> rfl

/-- A cancellation is delivered before it is forgotten. -/
theorem cancelling_of_move (hmove : Move cfg s action after out)
    {cdn : String} {urls : List String}
    {committed : Bool} (hawaits : Awaits after task cdn urls committed)
    (hcancel : s.cancelling task = true) : after.cancelling task = true := by
  cases hmove with
  | submit =>
      rw [(flushLocked_shutdown _ _ _).2]
      simpa using hcancel
  | flush | enqueueReturn =>
      rwa [(flushLocked_shutdown _ _ _).2]
  | @recheck cdn' =>
      obtain ⟨point, heq, -⟩ := recheck_cases cfg s cdn'
      rw [heq]
      exact hcancel
  | cancel =>
      simp only [Function.update_apply]
      split
      · rfl
      · exact hcancel
  | shutdown =>
      cases task with
      | run | submit => rfl
      | _ => exact hcancel
  | deliverRun =>
      cases task with
      | run =>
          obtain ⟨rest, hpoint⟩ := hawaits
          simp at hpoint
      | debounce => simp [hcancel]
      | _ => exact hcancel
  | _ => exact hcancel

/-- Only one task awaits an `enqueue`. -/
theorem Awaits.unique {s : State} (hkeys : Consistent s)
    {task other : Task} {cdn cdn' : String} {urls urls' : List String}
    {committed committed' : Bool} (h : Awaits s task cdn urls committed)
    (h' : Awaits s other cdn' urls' committed') : other = task := by
  have hlock := hkeys.holder task (isEnqueueing_of_awaits h)
  have hlock' := hkeys.holder other (isEnqueueing_of_awaits h')
  exact Option.some.inj (hlock'.symm.trans hlock)

end Enqueues

/-! ## One URL -/

/-- The URL has gone from its buffer into a new call. -/
def Taken (after : State) (out : List Obs) (cdn url : String) : Prop :=
  ¬ Silent out ∧ ∃ task urls, Awaits after task cdn urls false ∧ url ∈ urls

section Way

variable {cfg : DaemonConfig} {s after : State} {task : Task}
variable {action : Action} {out : List Obs} {cdn url : String}
variable {urls : List String} {target : PurgeTarget}

theorem buffered_flushLocked (h : url ∈ s.buffers cdn) (task : Task)
    (todo : List String) (before : List Obs) :
    url ∈ (flushLocked s task todo).1.buffers cdn ∨
      Taken (flushLocked s task todo).1
        (before ++ (flushLocked s task todo).2) cdn url := by
  rcases flushLocked_cases s task todo with
    ⟨-, heq⟩ | ⟨-, taken, rest, -, -, -, heq⟩ <;> rw [heq]
  · exact .inl h
  · by_cases hsame : cdn = taken
    · subst hsame
      exact .inr ⟨fun hsilent => hsilent _ _ _ List.mem_concat_self, task, _,
        ⟨rest, Function.update_self ..⟩, h⟩
    · exact .inl (by simpa [hsame] using h)

theorem buffered_move (hkeys : Consistent s) (h : url ∈ s.buffers cdn)
    (hmove : Move cfg s action after out) :
    url ∈ after.buffers cdn ∨ Taken after out cdn url := by
  cases hmove with
  | @submit call target todo =>
      have hadded : url ∈
          (addTarget (openBuffer s target.cdnName) target).buffers cdn := by
        rw [mem_addTarget_buffers, openBuffer_buffers hkeys]
        exact .inl h
      exact buffered_flushLocked hadded _ todo [_]
  | @recheck cdn' =>
      obtain ⟨point, heq, -⟩ := recheck_cases cfg s cdn'
      exact .inl (by rwa [heq])
  | flush => simpa using buffered_flushLocked h _ _ []
  | enqueueReturn => simpa using buffered_flushLocked h _ _ []
  | _ => exact .inl h

/-- A batch stays with its task until the commit, a failure or a
cancellation. -/
theorem awaits_move (hkeys : Consistent s) (h : Awaits s task cdn urls false)
    (hcommit : action ≠ .commit task) (hdeliver : action ≠ .deliver task)
    (hraise : action ≠ .enqueueRaise task)
    (hmove : Move cfg s action after out) : Awaits after task cdn urls false := by
  have hholds : s.lock = some task :=
    hkeys.holder task (isEnqueueing_of_awaits h)
  obtain ⟨rest, hpoint⟩ := h
  have hmoved : ∀ {other point}, (s.point other).isUncommitted = false →
      Awaits (s.goto other point) task cdn urls false := by
    intro other point hfree
    have hne : task ≠ other := by
      rintro rfl
      simp [hpoint, Point.isUncommitted] at hfree
    exact ⟨rest, by simpa [hne] using hpoint⟩
  cases hmove with
  | tick | shutdown | cancel => exact ⟨rest, hpoint⟩
  | submit hlock | recheck hlock | flush hlock => simp [hholds] at hlock
  | submitCall hother | flushAllCall hother | timeout hother | gathered hother
  | deliverRun _ hother =>
      exact hmoved (by simp [hother, Point.isUncommitted])
  | wake _ _ hother =>
      refine hmoved ?_
      rcases hother with hother | ⟨_, hother⟩ <;>
        simp [hother, Point.isUncommitted]
  | @commit other _ _ _ hother =>
      have hne : task ≠ other := fun heq => hcommit (heq ▸ rfl)
      exact ⟨rest, by simpa [hne] using hpoint⟩
  | @enqueueRaise other =>
      have hne : task ≠ other := fun heq => hraise (heq ▸ rfl)
      exact ⟨rest, by simpa [hne] using hpoint⟩
  | @deliver other =>
      have hne : task ≠ other := fun heq => hdeliver (heq ▸ rfl)
      exact ⟨rest, by simpa [hne] using hpoint⟩
  | @enqueueReturn other _ _ _ hother =>
      have hlock := hkeys.holder other (by simp [hother, Point.isEnqueueing])
      obtain rfl : task = other := Option.some.inj (hholds.symm.trans hlock)
      simp [hpoint] at hother

theorem flushLocked_point_of_ne {other : Task} (hne : other ≠ task)
    (todo : List String) :
    (flushLocked s task todo).1.point other = s.point other := by
  rcases flushLocked_cases s task todo with
    ⟨-, heq⟩ | ⟨-, taken, rest, -, -, -, heq⟩ <;> simp [heq, hne]

/-- What a step does to the point of a `submit` call. -/
inductive Hops (call : ℕ) : Action → Point → Point → Prop where
  | called {target : PurgeTarget} :
      Hops call (.submit call target) .absent (.submitLock target)
  | added {target : PurgeTarget} {point : Point}
      (hpoint : point = .ended .returned ∨ point.isEnqueueing) :
      Hops call (.acquire (.submit call)) (.submitLock target) point
  | committed {cdn : String} {urls rest : List String} :
      Hops call (.commit (.submit call)) (.enqueueing cdn urls false rest)
        (.enqueueing cdn urls true rest)
  | returned {cdn : String} {urls rest : List String} {point : Point}
      (hpoint : point = .ended .returned ∨ point.isEnqueueing) :
      Hops call (.enqueueReturn (.submit call)) (.enqueueing cdn urls true rest)
        point
  | raised {cdn : String} {urls rest : List String} :
      Hops call (.enqueueRaise (.submit call)) (.enqueueing cdn urls false rest)
        (.ended .raised)
  | cancelled {point : Point} (habsent : point ≠ .absent)
      (hended : ∀ outcome, point ≠ .ended outcome) :
      Hops call (.deliver (.submit call)) point (.ended .cancelled)

theorem flushLocked_point_submit (call : ℕ) (todo : List String) :
    (flushLocked s (.submit call) todo).1.point (.submit call) =
        .ended .returned ∨
      ((flushLocked s (.submit call) todo).1.point
        (.submit call)).isEnqueueing := by
  rcases flushLocked_cases s (.submit call) todo with
    ⟨-, heq⟩ | ⟨-, taken, rest, -, -, -, heq⟩
  · exact .inl (by simp [heq, afterFlush])
  · exact .inr (by simp [heq, Point.isEnqueueing])

theorem submit_hops (hkeys : Consistent s) (call : ℕ)
    (hmove : Move cfg s action after out) :
    after.point (.submit call) = s.point (.submit call) ∨
      Hops call action (s.point (.submit call))
        (after.point (.submit call)) := by
  cases hmove with
  | tick | shutdown | cancel => exact .inl rfl
  | flushAllCall | timeout | gathered | deliverRun | wake => exact .inl (by simp)
  | @submitCall other target hpoint =>
      by_cases heq : other = call
      · subst heq
        rw [hpoint, goto_point, Function.update_self]
        exact .inr .called
      · exact .inl (by simp [Ne.symm heq])
  | @submit other target todo _ _ hpoint =>
      by_cases heq : other = call
      · subst heq
        rw [hpoint]
        exact .inr (.added (flushLocked_point_submit other todo))
      · rw [flushLocked_point_of_ne (by simpa using Ne.symm heq),
          addTarget_point, openBuffer_point_of_ne (by simp)]
        exact .inl rfl
  | @recheck cdn =>
      obtain ⟨point, heq, -⟩ := recheck_cases cfg s cdn
      exact .inl (by simp [heq])
  | @flush other todo _ _ hcase =>
      refine .inl (flushLocked_point_of_ne ?_ _)
      rintro rfl
      rcases hcase with ⟨_, heq, -⟩ | ⟨hpoint, -⟩
      · cases heq
      · have howned := hkeys.owned (.submit call)
        simp [hpoint, Task.owns] at howned
  | @commit other cdn urls rest hpoint =>
      by_cases heq : other = .submit call
      · subst heq
        rw [hpoint, goto_point, Function.update_self]
        exact .inr .committed
      · exact .inl (by simp [Ne.symm heq])
  | @enqueueReturn other cdn urls rest hpoint =>
      by_cases heq : other = .submit call
      · subst heq
        rw [hpoint]
        exact .inr (.returned (flushLocked_point_submit call rest))
      · exact .inl (flushLocked_point_of_ne (Ne.symm heq) _)
  | @enqueueRaise other cdn urls rest hpoint =>
      by_cases heq : other = .submit call
      · subst heq
        rw [hpoint, leave_point, Function.update_self]
        exact .inr .raised
      · exact .inl (by simp [Ne.symm heq])
  | @deliver other _ _ habsent hended =>
      by_cases heq : other = .submit call
      · subst heq
        refine .inr ?_
        simp only [Function.update_self]
        exact .cancelled habsent hended
      · exact .inl (Function.update_of_ne (Ne.symm heq) ..)

/-- Only the shutdown shuts down. -/
theorem shutdown_move (hup : action ≠ .shutdown)
    (hmove : Move cfg s action after out) : after.shutdown = s.shutdown := by
  cases hmove with
  | submit => simp [(flushLocked_shutdown _ _ _).1]
  | flush | enqueueReturn => exact (flushLocked_shutdown _ _ _).1
  | @recheck cdn =>
      obtain ⟨point, heq, -⟩ := recheck_cases cfg s cdn
      rw [heq]
      rfl
  | shutdown => exact absurd rfl hup
  | _ => rfl

theorem down_move (hdown : s.shutdown = true)
    (hmove : Move cfg s action after out) : after.shutdown = true := by
  by_cases hup : action = .shutdown
  · subst hup
    cases hmove with
    | shutdown hup' => simp [hdown] at hup'
  · rw [shutdown_move hup hmove, hdown]

end Way

theorem draining_of_reaches {cfg : DaemonConfig} {now : ℚ} {trace : List Obs}
    {s : State}
    (hrun : Reaches (step cfg) (fun _ action => action.isDaemon) (init now)
      trace s) : Draining s := by
  refine hrun.invariant_along (fun _ s => Draining s) (draining_init now) ?_
  intro trace s action after out hearlier h hdaemon hstep
  have hraise : action ≠ .enqueueRaise .run := by
    rintro rfl
    simp [Action.isDaemon] at hdaemon
  exact draining_move h (consistent_of_reaches hearlier) (absurd · hraise)
    (move_of_step hstep)

end MirrorMirage.Batcher
