import MirrorMirage.Batcher.Moves

/-!
# The consistency of the batcher's dictionaries, lock and tasks

`Consistent` holds in every state of every run, whatever fails or is
cancelled: the parallel dictionaries agree, a task inside `enqueue` holds the
lock, and every task is at a point of its own code.
-/

namespace MirrorMirage.Batcher

open Function (update)
open MirrorMirage.Run

def Point.isEnqueueing : Point → Bool
  | .enqueueing .. => true
  | _ => false

/-- The points of a task's own code. -/
def Task.owns : Task → Point → Bool
  | .submit _, .absent | .submit _, .submitLock _ => true
  | .submit _, .enqueueing .. | .submit _, .ended _ => true
  | .flushAll _, .absent | .flushAll _, .flushAllLock => true
  | .flushAll _, .enqueueing .. | .flushAll _, .ended _ => true
  | .debounce _, .absent | .debounce _, .wakeWait => true
  | .debounce _, .recheckLock | .debounce _, .timedWait _ => true
  | .debounce _, .flushLock | .debounce _, .enqueueing .. => true
  | .debounce _, .ended _ => true
  | .run, .blocked | .run, .gathering | .run, .flushAllLock => true
  | .run, .enqueueing .. | .run, .ended _ => true
  | _, _ => false

structure Consistent (s : State) : Prop where
  /-- Only the keys of `_buffers` have a buffer. -/
  known : ∀ cdn, s.buffers cdn ≠ [] → cdn ∈ s.cdns
  /-- Every key has its debounce task, and no other CDN has one. -/
  debounced : ∀ cdn, s.point (.debounce cdn) ≠ .absent ↔ cdn ∈ s.cdns
  /-- A task inside `enqueue` holds the lock. -/
  holder : ∀ task, (s.point task).isEnqueueing → s.lock = some task
  first : ∀ cdn, (s.firstAdded cdn).isSome ↔ s.buffers cdn ≠ []
  last : ∀ cdn, (s.lastAdded cdn).isSome ↔ s.buffers cdn ≠ []
  owned : ∀ task : Task, task.owns (s.point task)

theorem consistent_init (now : ℚ) : Consistent (init now) where
  known := by simp [init]
  debounced := by simp [init]
  holder := by
    intro task
    by_cases htask : task = .run <;> simp [init, htask, Point.isEnqueueing]
  first := by simp [init]
  last := by simp [init]
  owned := by
    intro task
    cases task <;> simp [init, Task.owns]

section Updates

variable {s : State} {task : Task} {point : Point}

/-- While the lock is free or held by `task`, no other task is inside
`enqueue`. -/
theorem Consistent.alone (h : Consistent s)
    (hlock : s.lock = none ∨ s.lock = some task) {other : Task}
    (hother : other ≠ task) : (s.point other).isEnqueueing = false := by
  by_contra hpoint
  have hholder := h.holder other (by simpa using hpoint)
  rcases hlock with hlock | hlock
  · simp [hlock] at hholder
  · exact hother (Option.some.inj (hholder.symm.trans hlock))

theorem Consistent.present (h : Consistent s) (hpresent : point ≠ .absent)
    (hwas : s.point task ≠ .absent) (cdn : String) :
    update s.point task point (.debounce cdn) ≠ .absent ↔ cdn ∈ s.cdns := by
  by_cases htask : Task.debounce cdn = task
  · subst htask
    simpa [hpresent] using (h.debounced cdn).mp hwas
  · simpa [Function.update_apply, htask] using h.debounced cdn

theorem Consistent.owned_update (h : Consistent s) (howned : task.owns point)
    (other : Task) : other.owns (update s.point task point other) := by
  by_cases hother : other = task
  · subst hother
    simpa using howned
  · simpa [Function.update_apply, hother] using h.owned other

theorem consistent_goto (h : Consistent s) (howned : task.owns point)
    (hpresent : point ≠ .absent)
    (hwas : s.point task ≠ .absent ∨ ∀ cdn, task ≠ .debounce cdn)
    (hholds : point.isEnqueueing → s.lock = some task) :
    Consistent (s.goto task point) where
  known := h.known
  debounced := by
    intro cdn
    rcases hwas with hwas | hwas
    · exact h.present hpresent hwas cdn
    · simpa [Function.update_apply, (hwas cdn).symm] using h.debounced cdn
  holder := by
    intro other hother
    by_cases htask : other = task
    · subst htask
      exact hholds (by simpa using hother)
    · exact h.holder other (by simpa [Function.update_apply, htask] using hother)
  first := h.first
  last := h.last
  owned := h.owned_update howned

theorem consistent_leave (h : Consistent s) (howned : task.owns point)
    (hpresent : point ≠ .absent) (hwas : s.point task ≠ .absent)
    (hholds : point.isEnqueueing = false)
    (hlock : s.lock = none ∨ s.lock = some task) :
    Consistent (s.leave task point) where
  known := h.known
  debounced := h.present hpresent hwas
  holder := by
    intro other hother
    by_cases htask : other = task
    · subst htask
      simp [hholds] at hother
    · simp [htask, h.alone hlock htask] at hother
  first := h.first
  last := h.last
  owned := h.owned_update howned

theorem consistent_takeBuffer (h : Consistent s) {cdn : String}
    {rest : List String} (howned : ∀ urls, task.owns
      (.enqueueing cdn urls false rest))
    (hwas : s.point task ≠ .absent)
    (hlock : s.lock = none ∨ s.lock = some task) :
    Consistent (takeBuffer s task cdn rest) where
  known := by
    intro other hother
    by_cases heq : other = cdn
    · simp [heq] at hother
    · exact h.known other (by simpa [Function.update_apply, heq] using hother)
  debounced := h.present (by simp) hwas
  holder := by
    intro other hother
    by_cases htask : other = task
    · simp [htask]
    · simp [htask, h.alone hlock htask] at hother
  first := by
    intro other
    by_cases heq : other = cdn <;>
      simp [heq, h.first other]
  last := by
    intro other
    by_cases heq : other = cdn <;>
      simp [heq, h.last other]
  owned := h.owned_update (howned _)

theorem consistent_flushLocked (h : Consistent s) {todo : List String}
    (hflush : ∀ cdn urls rest, task.owns (.enqueueing cdn urls false rest))
    (hwas : s.point task ≠ .absent)
    (hlock : s.lock = none ∨ s.lock = some task) :
    Consistent (flushLocked s task todo).1 := by
  rcases flushLocked_cases s task todo with
    ⟨-, heq⟩ | ⟨-, cdn, rest, -, -, -, heq⟩
  · rw [heq]
    apply consistent_leave h _ _ hwas _ hlock <;>
      cases task <;> simp [afterFlush, Task.owns, Point.isEnqueueing]
  · rw [heq]
    exact consistent_takeBuffer h (fun urls => hflush cdn urls rest) hwas hlock

theorem Consistent.absent_of_new (h : Consistent s) {cdn : String}
    (hnew : cdn ∉ s.cdns) : s.point (.debounce cdn) = .absent := by
  by_contra hpoint
  exact hnew ((h.debounced cdn).mp hpoint)

/-- The debounce task of a new buffer begins, the others go on. -/
theorem openBuffer_point (h : Consistent s) (cdn : String) (task : Task) :
    (openBuffer s cdn).point task = s.point task ∨
      (s.point task = .absent ∧ (openBuffer s cdn).point task = .wakeWait) := by
  by_cases hne : task = .debounce cdn
  · subst hne
    by_cases hmem : cdn ∈ s.cdns
    · exact .inl (by simp [openBuffer, hmem])
    · exact .inr ⟨h.absent_of_new hmem, by simp [openBuffer, hmem]⟩
  · exact .inl (openBuffer_point_of_ne hne)

/-- A new buffer is empty, as an unknown one is. -/
theorem openBuffer_buffers (h : Consistent s) (cdn : String) :
    (openBuffer s cdn).buffers = s.buffers := by
  unfold openBuffer
  split
  · rfl
  · rename_i hnew
    have hempty : s.buffers cdn = [] := by
      by_contra hbuffer
      exact hnew (h.known cdn hbuffer)
    exact Function.update_eq_iff.mpr ⟨hempty.symm, fun _ _ => rfl⟩

theorem consistent_openBuffer (h : Consistent s) (cdn : String) :
    Consistent (openBuffer s cdn) := by
  have hsame := openBuffer_buffers h cdn
  unfold openBuffer at hsame ⊢
  split
  · exact h
  · rename_i hnew
    simp only [if_neg hnew] at hsame
    have habsent := h.absent_of_new hnew
    refine ⟨?_, ?_, ?_, ?_, ?_, ?_⟩
    · intro other hother
      simp only [hsame] at hother
      simp [h.known other hother]
    · intro other
      by_cases heq : other = cdn
      · simp [heq]
      · simpa [Function.update_apply, heq] using h.debounced other
    · intro task htask
      by_cases heq : task = .debounce cdn
      · simp [heq, Point.isEnqueueing] at htask
      · exact h.holder task
          (by simpa [Function.update_apply, heq] using htask)
    · simpa only [hsame] using h.first
    · simpa only [hsame] using h.last
    · exact h.owned_update rfl

theorem consistent_addTarget (h : Consistent s) {target : PurgeTarget}
    (hopen : target.cdnName ∈ s.cdns) : Consistent (addTarget s target) where
  known := by
    intro other hother
    obtain ⟨url, hurl⟩ := List.exists_mem_of_ne_nil _ hother
    rcases (mem_addTarget_buffers s target).mp hurl with hold | ⟨rfl, -⟩
    · exact h.known other (List.ne_nil_of_mem hold)
    · exact hopen
  debounced := h.debounced
  holder := h.holder
  first := by
    intro other
    by_cases heq : other = target.cdnName
    · subst heq
      have hsome := h.first target.cdnName
      simp only [ne_eq, addTarget_buffers_ne_nil, not_false_eq_true, iff_true]
      simp only [addTarget]
      split
      · simp
      · simp_all
    · have hsome := h.first other
      simp only [addTarget]
      split <;> simpa [Function.update_apply, heq] using hsome
  last := by
    intro other
    by_cases heq : other = target.cdnName
    · subst heq
      simp [addTarget_buffers_ne_nil]
    · have hsome := h.last other
      simpa [addTarget, Function.update_apply, heq] using hsome
  owned := h.owned

end Updates

theorem consistent_recheck {cfg : DaemonConfig} {s : State} {cdn : String}
    (h : Consistent s) (hwas : s.point (.debounce cdn) ≠ .absent) :
    Consistent (recheck cfg s cdn) := by
  obtain ⟨point, heq, hpoint⟩ := recheck_cases cfg s cdn
  rw [heq]
  apply consistent_goto h _ _ (.inl hwas) <;>
    rcases hpoint with rfl | rfl | ⟨_, rfl⟩ | rfl <;>
    simp [Task.owns, Point.isEnqueueing]

/-- What a task may do while it flushes: every task but none else owns the
await of `enqueue`. -/
theorem owns_enqueueing (task : Task) (cdn : String) (urls : List String)
    (committed : Bool) (rest : List String) :
    task.owns (.enqueueing cdn urls committed rest) := by
  cases task <;> rfl

theorem consistent_move {cfg : DaemonConfig} {s after : State}
    {action : Action} {out : List Obs} (h : Consistent s)
    (hmove : Move cfg s action after out) : Consistent after := by
  have hflush := fun task cdn urls rest =>
    owns_enqueueing task cdn urls false rest
  cases hmove with
  | tick => exact ⟨h.known, h.debounced, h.holder, h.first, h.last, h.owned⟩
  | submitCall =>
      exact consistent_goto h rfl (by simp) (.inr (by simp)) (by
        simp [Point.isEnqueueing])
  | flushAllCall =>
      exact consistent_goto h rfl (by simp) (.inr (by simp)) (by
        simp [Point.isEnqueueing])
  | @submit call target todo hlock hcancel hpoint htodo =>
      have hopen := consistent_openBuffer h target.cdnName
      have hadd : Consistent
          (addTarget (openBuffer s target.cdnName) target) :=
        consistent_addTarget hopen ((mem_openBuffer_cdns _ _).mpr (.inr rfl))
      have hpoint' : (openBuffer s target.cdnName).point (.submit call) =
          .submitLock target :=
        (openBuffer_point_of_ne (by simp)).trans hpoint
      exact consistent_flushLocked hadd (hflush _) (by simp [hpoint'])
        (.inl (by simpa using hlock))
  | recheck hlock hcancel hpoint => exact consistent_recheck h (by simp [hpoint])
  | @flush task todo hlock hcancel hpoint =>
      have hwas : s.point task ≠ .absent := by
        rcases hpoint with ⟨_, -, hpoint, -⟩ | ⟨hpoint, -⟩ <;>
          exact fun habsent => by simp [hpoint] at habsent
      exact consistent_flushLocked h (hflush _) hwas (.inl hlock)
  | @wake cdn hwake hcancel hpoint =>
      have hwas : s.point (.debounce cdn) ≠ .absent := by
        rcases hpoint with hpoint | ⟨_, hpoint⟩ <;> simp [hpoint]
      have hgoto : Consistent (s.goto (.debounce cdn) .recheckLock) :=
        consistent_goto h rfl (by simp) (.inl hwas)
          (by simp [Point.isEnqueueing])
      exact ⟨hgoto.known, hgoto.debounced, hgoto.holder, hgoto.first,
        hgoto.last, hgoto.owned⟩
  | timeout hpoint =>
      exact consistent_goto h rfl (by simp) (.inl (by simp [hpoint]))
        (by simp [Point.isEnqueueing])
  | @commit task cdn urls rest hpoint hcancel =>
      exact consistent_goto h (owns_enqueueing ..) (by simp)
        (.inl (by simp [hpoint]))
        (fun _ => h.holder task (by simp [hpoint, Point.isEnqueueing]))
  | @enqueueReturn task cdn urls rest hpoint hcancel =>
      exact consistent_flushLocked h (hflush _) (by simp [hpoint])
        (.inr (h.holder task (by simp [hpoint, Point.isEnqueueing])))
  | @enqueueRaise task cdn urls rest hpoint hcancel =>
      refine consistent_leave h ?_ ?_ (by simp [hpoint]) ?_
        (.inr (h.holder task (by simp [hpoint, Point.isEnqueueing]))) <;>
        cases task <;> simp [afterRaise, Task.owns, Point.isEnqueueing]
  | cancel => exact ⟨h.known, h.debounced, h.holder, h.first, h.last, h.owned⟩
  | shutdown => exact ⟨h.known, h.debounced, h.holder, h.first, h.last, h.owned⟩
  | deliverRun hcancel hpoint =>
      have hgoto : Consistent (s.goto .run .gathering) :=
        consistent_goto h rfl (by simp) (.inr (by simp))
          (by simp [Point.isEnqueueing])
      exact ⟨hgoto.known, hgoto.debounced, hgoto.holder, hgoto.first,
        hgoto.last, hgoto.owned⟩
  | @deliver task htask hcancel habsent hended =>
      have howned : task.owns (.ended .cancelled) := by cases task <;> rfl
      refine ⟨h.known, h.present (by simp) habsent, ?_, h.first, h.last,
        h.owned_update howned⟩
      intro other hother
      by_cases heq : other = task
      · simp [heq, Point.isEnqueueing] at hother
      · have hholder := h.holder other
          (by simpa [Function.update_apply, heq] using hother)
        simp [hholder, heq]
  | gathered hpoint =>
      exact consistent_goto h rfl (by simp) (.inr (by simp))
        (by simp [Point.isEnqueueing])

/-- A submit adds its target, and takes the buffer when it is full. -/
theorem submit_of_step {cfg : DaemonConfig} {s after : State} {call : ℕ}
    {out : List Obs}
    (hkeys : Consistent s)
    (hstep : step cfg s (.acquire (.submit call)) = some (after, out)) :
    ∃ target added, s.point (.submit call) = .submitLock target ∧
      s.lock = none ∧
      added = addTarget (openBuffer s target.cdnName) target ∧
      ((cfg.batchMaxSize ≤ (added.buffers target.cdnName).length ∧
          after = takeBuffer added (.submit call) target.cdnName [] ∧
          out = [.added target.cdnName target.url s.now,
            .enqueued target.cdnName (added.buffers target.cdnName) s.now]) ∨
        ((added.buffers target.cdnName).length < cfg.batchMaxSize ∧
          after = added.leave (.submit call) (.ended .returned) ∧
          out = [.added target.cdnName target.url s.now])) := by
  simp only [step] at hstep
  split at hstep
  · rename_i hguard
    unfold acquire at hstep
    split at hstep
    · rename_i called target htask hpoint
      cases htask
      refine ⟨target, _, hpoint, hguard.1, rfl, ?_⟩
      have hne := addTarget_buffers_ne_nil (openBuffer s target.cdnName) target
      simp only at hstep
      split at hstep
      · rename_i hfull
        simp only [flushLocked, hne, if_false, Option.some.injEq,
          Prod.mk.injEq] at hstep
        exact .inl ⟨hfull, hstep.1.symm, by simp [← hstep.2]⟩
      · rename_i hfull
        simp only [flushLocked, Option.some.injEq, Prod.mk.injEq] at hstep
        exact .inr ⟨not_le.mp hfull, hstep.1.symm, hstep.2.symm⟩
    · rename_i htask hpoint
      cases htask
    · rename_i htask hpoint
      cases htask
    · rename_i hpoint
      have howned := hkeys.owned (.submit call)
      simp [hpoint, Task.owns] at howned
    · cases hstep
  · cases hstep

theorem consistent_of_reaches {cfg : DaemonConfig}
    {allowed : State → Action → Prop} {now : ℚ} {trace : List Obs} {s : State}
    (hrun : Reaches (step cfg) allowed (init now) trace s) : Consistent s :=
  hrun.invariant (fun _ s => Consistent s) (consistent_init now)
    fun h _ hstep => consistent_move h (move_of_step hstep)

end MirrorMirage.Batcher
