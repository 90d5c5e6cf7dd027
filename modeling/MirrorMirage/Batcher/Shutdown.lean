import MirrorMirage.Core.Since
import MirrorMirage.Batcher.Invariant

/-!
# What a graceful shutdown keeps

`run` promises that no work is lost on graceful shutdown.  The buffers are
indeed drained, but `_flush_locked` empties a buffer before it awaits
`enqueue`, and a cancellation that lands in that await takes the batch with it
(`shutdown_loses_batch`).  Every other point of cancellation is safe
(`shutdown_loses_no_url`).
-/

namespace MirrorMirage.Batcher

open Function (update)
open MirrorMirage.Run MirrorMirage.Trace

/-- The daemon never calls `flush_all` itself, cancels its tasks by shutting
down, and no `enqueue` fails on its own. -/
def Action.isDaemon : Action → Bool
  | .flushAll _ | .cancel _ | .enqueueRaise _ => false
  | _ => true

/-- No `CancelledError` is thrown into an `enqueue` whose row is not in the
database yet. -/
def sparesEnqueue (s : State) : Action → Bool
  | .deliver task => !(s.point task).isUncommitted
  | _ => true

/-- The batch of an `enqueue` that raises or is cancelled before its row is in
the database. -/
def dropped (s : State) : Action → Option (String × List String)
  | .enqueueRaise task | .deliver task =>
      match s.point task with
      | .enqueueing cdn urls false _ => some (cdn, urls)
      | _ => none
  | _ => none

/-- The URL waits in its buffer or is on its way into the database. -/
def Carried (s : State) (cdn url : String) : Prop :=
  url ∈ s.buffers cdn ∨ ∃ task urls rest,
    s.point task = .enqueueing cdn urls false rest ∧ url ∈ urls

/-- What was added and not committed since is still carried. -/
def Kept (trace : List Obs) (s : State) : Prop :=
  ∀ cdn url, Since (Obs.Adds cdn url) (Obs.Commits cdn url) trace →
    Carried s cdn url

theorem Point.isEnqueueing_of_isUncommitted {point : Point}
    (h : point.isUncommitted) : point.isEnqueueing := by
  cases point <;> simp_all [Point.isUncommitted, Point.isEnqueueing]

section Kept

variable {s after : State} {task : Task} {cdn url : String}

theorem carried_of_points (h : Carried s cdn url)
    (hbuffers : after.buffers = s.buffers)
    (hpoint : ∀ task, (s.point task).isUncommitted →
      after.point task = s.point task) : Carried after cdn url := by
  rcases h with hbuffer | ⟨task, urls, rest, htask, hurl⟩
  · exact .inl (by rwa [hbuffers])
  · refine .inr ⟨task, urls, rest, ?_, hurl⟩
    rw [hpoint task (by simp [htask, Point.isUncommitted]), htask]

/-- A task that leaves its point takes at most its own batch along. -/
theorem carried_or_taken (h : Carried s cdn url)
    (hbuffers : after.buffers = s.buffers) {point : Point}
    (hpoint : after.point = update s.point task point) :
    Carried after cdn url ∨ ∃ urls rest,
      s.point task = .enqueueing cdn urls false rest ∧ url ∈ urls := by
  rcases h with hbuffer | ⟨other, urls, rest, hother, hurl⟩
  · exact .inl (.inl (by rwa [hbuffers]))
  · by_cases heq : other = task
    · exact .inr ⟨urls, rest, heq ▸ hother, hurl⟩
    · exact .inl (.inr ⟨other, urls, rest, by simpa [hpoint, heq] using hother,
        hurl⟩)

/-- Only a task that is about to commit a batch matters. -/
theorem carried_of_move (h : Carried s cdn url)
    (hbuffers : after.buffers = s.buffers) {point : Point}
    (hpoint : after.point = update s.point task point)
    (hfree : (s.point task).isUncommitted = false) :
    Carried after cdn url := by
  rcases carried_or_taken h hbuffers hpoint with hcarried | ⟨_, _, htask, -⟩
  · exact hcarried
  · simp [htask, Point.isUncommitted] at hfree

theorem carried_takeBuffer (h : Carried s cdn url) (taken : String)
    (rest : List String) (hfree : (s.point task).isUncommitted = false) :
    Carried (takeBuffer s task taken rest) cdn url := by
  rcases h with hbuffer | ⟨other, urls, rest', hother, hurl⟩
  · by_cases htaken : cdn = taken
    · subst htaken
      exact .inr ⟨task, s.buffers cdn, rest, by simp, hbuffer⟩
    · exact .inl (by simpa [htaken] using hbuffer)
  · have hne : other ≠ task := by
      rintro rfl
      simp [hother, Point.isUncommitted] at hfree
    exact .inr ⟨other, urls, rest', by simpa [hne] using hother, hurl⟩

theorem carried_flushLocked (h : Carried s cdn url) (todo : List String)
    (hfree : (s.point task).isUncommitted = false) :
    Carried (flushLocked s task todo).1 cdn url := by
  rcases flushLocked_cases s task todo with
    ⟨-, heq⟩ | ⟨-, taken, rest, -, -, -, heq⟩
  · rw [heq]
    exact carried_of_move h rfl rfl hfree
  · rw [heq]
    exact carried_takeBuffer h taken rest hfree

theorem carried_submit {target : PurgeTarget} (h : Carried s cdn url ∨
      (cdn, url) = (target.cdnName, target.url)) (hkeys : Consistent s) :
    Carried (addTarget (openBuffer s target.cdnName) target) cdn url := by
  have hopen : Carried s cdn url →
      Carried (openBuffer s target.cdnName) cdn url := by
    intro hcarried
    refine carried_of_points hcarried (openBuffer_buffers hkeys _) ?_
    intro task htask
    apply (openBuffer_point hkeys _ task).resolve_right
    rintro ⟨habsent, -⟩
    simp [habsent, Point.isUncommitted] at htask
  rcases h with h | h
  · rcases hopen h with hbuffer | hpoint
    · exact .inl ((mem_addTarget_buffers _ _).mpr (.inl hbuffer))
    · exact .inr hpoint
  · obtain ⟨rfl, rfl⟩ := Prod.ext_iff.mp h
    exact .inl ((mem_addTarget_buffers _ _).mpr (.inr ⟨rfl, rfl⟩))

theorem flushLocked_quiet (s : State) (task : Task) (todo : List String) :
    ∀ event ∈ (flushLocked s task todo).2, ∀ cdn url,
      ¬ event.Adds cdn url := by
  rcases flushLocked_cases s task todo with
    ⟨-, heq⟩ | ⟨-, taken, rest, -, -, -, heq⟩ <;> simp [heq, Obs.Adds]

end Kept

theorem free_of_lock {s : State} (hkeys : Consistent s) (hlock : s.lock = none)
    (task : Task) : (s.point task).isUncommitted = false := by
  by_contra hpoint
  have hbusy := hkeys.holder task
    (Point.isEnqueueing_of_isUncommitted (by simpa using hpoint))
  simp [hlock] at hbusy

/-- What is carried is committed or dropped before it is gone. -/
theorem carried_move {cfg : DaemonConfig} {out : List Obs} {s after : State}
    {action : Action} {cdn url : String} (h : Carried s cdn url)
    (hkeys : Consistent s) (hmove : Move cfg s action after out) :
    Carried after cdn url ∨ (∃ event ∈ out, event.Commits cdn url) ∨
      ∃ urls, dropped s action = some (cdn, urls) ∧ url ∈ urls := by
  have hmoved : ∀ {task : Task} {point : Point} {next : State},
      (s.point task).isUncommitted = false → next.buffers = s.buffers →
      next.point = update s.point task point → Carried next cdn url :=
    fun hfree hbuffers hpoint => carried_of_move h hbuffers hpoint hfree
  cases hmove with
  | tick | shutdown | cancel => exact .inl h
  | submitCall hpoint | flushAllCall hpoint | timeout hpoint | gathered hpoint =>
      exact .inl (hmoved (by simp [hpoint, Point.isUncommitted]) rfl rfl)
  | deliverRun hcancel hpoint =>
      exact .inl (hmoved (by simp [hpoint, Point.isUncommitted]) rfl rfl)
  | @submit call target todo hlock hcancel hpoint htodo =>
      have hopen := consistent_openBuffer hkeys target.cdnName
      exact .inl (carried_flushLocked (carried_submit (.inl h) hkeys) todo
        (free_of_lock hopen (by simpa using hlock) _))
  | @recheck cdn hlock =>
      obtain ⟨point, heq, -⟩ := recheck_cases cfg s cdn
      rw [heq]
      exact .inl (hmoved (free_of_lock hkeys hlock (.debounce cdn)) rfl rfl)
  | flush hlock =>
      exact .inl (carried_flushLocked h _ (free_of_lock hkeys hlock _))
  | wake hwake hcancel hpoint =>
      refine .inl (hmoved ?_ rfl rfl)
      rcases hpoint with hpoint | ⟨_, hpoint⟩ <;>
        simp [hpoint, Point.isUncommitted]
  | @commit task taken urls rest hpoint =>
      rcases @carried_or_taken s (s.goto task (.enqueueing taken urls true rest))
        task cdn url h rfl _ rfl with hcarried | ⟨urls', rest', htask, hurl⟩
      · exact .inl hcarried
      · cases hpoint.symm.trans htask
        exact .inr (.inl ⟨_, List.mem_singleton_self _, rfl, hurl⟩)
  | enqueueReturn hpoint =>
      exact .inl (carried_flushLocked h _
        (by simp [hpoint, Point.isUncommitted]))
  | @enqueueRaise task =>
      rcases @carried_or_taken s (s.leave task (afterRaise task)) task cdn url h
        rfl _ rfl with hcarried | ⟨urls, rest, htask, hurl⟩
      · exact .inl hcarried
      · exact .inr (.inr ⟨urls, by simp [dropped, htask], hurl⟩)
  | @deliver task =>
      rcases @carried_or_taken s
        { s with
          lock := if s.lock = some task then none else s.lock
          point := update s.point task (.ended .cancelled) }
        task cdn url h rfl _ rfl with hcarried | ⟨urls, rest, htask, hurl⟩
      · exact .inl hcarried
      · exact .inr (.inr ⟨urls, by simp [dropped, htask], hurl⟩)

/-- What a step adds is in its buffer or handed on at once. -/
theorem carried_of_added {cfg : DaemonConfig} {out : List Obs}
    {s after : State} {action : Action} {cdn url : String} {event : Obs}
    (hkeys : Consistent s) (hmove : Move cfg s action after out)
    (hevent : event ∈ out) (hadds : event.Adds cdn url) :
    Carried after cdn url := by
  cases hmove with
  | @submit call target todo hlock hcancel hpoint htodo =>
      have hopen := consistent_openBuffer hkeys target.cdnName
      have hfree := free_of_lock hopen (by simpa using hlock) (.submit call)
      have hadded : (cdn, url) = (target.cdnName, target.url) := by
        rcases List.mem_cons.mp hevent with rfl | hmem
        · exact Prod.ext hadds.1.symm hadds.2.symm
        · exact absurd hadds (flushLocked_quiet _ _ _ _ hmem cdn url)
      exact carried_flushLocked (carried_submit (.inr hadded) hkeys) todo hfree
  | flush | enqueueReturn =>
      exact absurd hadds (flushLocked_quiet _ _ _ _ hevent cdn url)
  | commit =>
      obtain rfl := List.mem_singleton.mp hevent
      exact hadds.elim
  | _ => simp at hevent

theorem kept_move {cfg : DaemonConfig} {trace out : List Obs}
    {s after : State} {action : Action} (h : Kept trace s)
    (hkeys : Consistent s) (hspares : dropped s action = none)
    (hmove : Move cfg s action after out) : Kept (trace ++ out) after := by
  intro cdn url hsince
  rcases since_append.mp hsince with hout | ⟨htrace, hstop⟩
  · obtain ⟨event, hmem, hadds⟩ := hout.exists_start
    exact carried_of_added hkeys hmove hmem hadds
  · rcases carried_move (h cdn url htrace) hkeys hmove with
      hcarried | ⟨event, hmem, hcommits⟩ | ⟨urls, hdropped, -⟩
    · exact hcarried
    · exact absurd hcommits (hstop event hmem)
    · simp [hspares] at hdropped

theorem dropped_eq_none {s : State} {action : Action}
    (hdaemon : action.isDaemon) (hspares : sparesEnqueue s action) :
    dropped s action = none := by
  cases action with
  | enqueueRaise => simp [Action.isDaemon] at hdaemon
  | deliver task =>
      cases hpoint : s.point task with
      | enqueueing cdn urls committed rest =>
          cases committed
          · simp [sparesEnqueue, hpoint, Point.isUncommitted] at hspares
          · simp [dropped, hpoint]
      | _ => simp [dropped, hpoint]
  | _ => rfl

/-! ## The coordinator drains every buffer -/

/-- What the drain of `run` has left to do at a point of its code. -/
def Remaining (s : State) : Point → Prop
  | .enqueueing _ _ _ rest => ∀ cdn, s.buffers cdn ≠ [] → cdn ∈ rest
  | .ended _ => (∀ cdn, s.buffers cdn = []) ∧
      ∀ task, (s.point task).isUncommitted = false
  | _ => True

/-- The pipeline submits nothing once the daemon is cancelled, and `run` is
cancelled by the daemon only. -/
structure Draining (s : State) : Prop where
  barred : s.shutdown = true → ∀ call, s.cancelling (.submit call) = true
  called : s.cancelling .run = true → s.shutdown = true
  down : s.point .run ≠ .blocked → s.shutdown = true
  remaining : Remaining s (s.point .run)

section Draining

variable {s after : State}

/-- A step of another task that adds to no buffer. -/
theorem remaining_of_shrink (h : Remaining s (s.point .run))
    (hrun : after.point .run = s.point .run)
    (hbuffers : ∀ cdn, after.buffers cdn ≠ [] → s.buffers cdn ≠ [])
    (htaken : ∀ task, (after.point task).isUncommitted →
      (s.point task).isUncommitted ∨ ∃ cdn, s.buffers cdn ≠ []) :
    Remaining after (after.point .run) := by
  rw [hrun]
  generalize s.point .run = point at h
  cases point with
  | enqueueing cdn urls committed rest =>
      exact fun cdn hbuffer => h cdn (hbuffers cdn hbuffer)
  | ended outcome =>
      constructor
      · intro cdn
        by_contra hbuffer
        exact hbuffers cdn hbuffer (h.1 cdn)
      · intro task
        by_contra htask
        rcases htaken task (by simpa using htask) with htask | ⟨cdn, hbuffer⟩
        · simp [h.2 task] at htask
        · exact hbuffer (h.1 cdn)
  | _ => trivial

theorem remaining_flushLocked {task : Task} (htask : task ≠ .run)
    (h : Remaining s (s.point .run)) (todo : List String) :
    Remaining (flushLocked s task todo).1
      ((flushLocked s task todo).1.point .run) := by
  have hfixed : ∀ {point : Point} (other : Task), point.isUncommitted = false →
      (update s.point task point other).isUncommitted →
        (s.point other).isUncommitted := by
    intro point other hpoint hother
    by_cases hsame : other = task
    · simp [hsame, hpoint] at hother
    · simpa [hsame] using hother
  rcases flushLocked_cases s task todo with
    ⟨-, heq⟩ | ⟨-, cdn, rest, -, -, hbuffer, heq⟩
  · rw [heq]
    refine remaining_of_shrink h (by simp [htask.symm]) (by simp) ?_
    intro other hother
    refine .inl (hfixed other ?_ hother)
    cases task <;> rfl
  · rw [heq]
    refine remaining_of_shrink h (by simp [htask.symm]) ?_
      (fun _ _ => .inr ⟨cdn, hbuffer⟩)
    intro other hother
    by_cases hsame : other = cdn
    · simp [hsame] at hother
    · simpa [hsame] using hother

/-- `run` visits every buffer that may hold something. -/
theorem remaining_flushLocked_run (hkeys : Consistent s)
    (hlock : s.lock = none ∨ s.lock = some .run) {todo : List String}
    (htodo : ∀ cdn, s.buffers cdn ≠ [] → cdn ∈ todo) :
    Remaining (flushLocked s .run todo).1
      ((flushLocked s .run todo).1.point .run) := by
  rcases flushLocked_cases s .run todo with
    ⟨hempty, heq⟩ | ⟨skipped, cdn, rest, rfl, hskipped, -, heq⟩
  · rw [heq]
    simp only [leave_point, Function.update_self, afterFlush]
    constructor
    · intro cdn
      by_contra hbuffer
      exact hbuffer (hempty cdn (htodo cdn hbuffer))
    · intro task
      by_cases hsame : task = .run
      · simp [hsame, Point.isUncommitted]
      · by_contra hpoint
        have hbusy := hkeys.alone hlock hsame
        rw [Point.isEnqueueing_of_isUncommitted
          (by simpa [hsame] using hpoint)] at hbusy
        cases hbusy
  · rw [heq]
    simp only [takeBuffer_point, Function.update_self]
    intro other hother
    have hne : other ≠ cdn := by
      rintro rfl
      simp at hother
    have hbuffer : s.buffers other ≠ [] := by simpa [hne] using hother
    rcases List.mem_append.mp (htodo other hbuffer) with hmem | hmem
    · exact absurd (hskipped other hmem) hbuffer
    · simpa [hne] using hmem

theorem flushLocked_shutdown (s : State) (task : Task) (todo : List String) :
    (flushLocked s task todo).1.shutdown = s.shutdown ∧
      (flushLocked s task todo).1.cancelling = s.cancelling := by
  rcases flushLocked_cases s task todo with
    ⟨-, heq⟩ | ⟨-, cdn, rest, -, -, -, heq⟩ <;> simp [heq]

/-- A step that neither shuts down nor cancels, while `run` is not blocked
only if it was not before. -/
theorem draining_of_remaining (h : Draining s)
    (hfixed : after.shutdown = s.shutdown ∧ after.cancelling = s.cancelling)
    (hrun : s.point .run = .blocked → after.point .run = .blocked)
    (hremaining : Remaining after (after.point .run)) : Draining after where
  barred := by
    rw [hfixed.1, hfixed.2]
    exact h.barred
  called := by
    rw [hfixed.1, hfixed.2]
    exact h.called
  down := by
    rw [hfixed.1]
    exact fun hpoint => h.down fun hblocked => hpoint (hrun hblocked)
  remaining := hremaining

theorem draining_of_goto (h : Draining s) {task : Task} {point : Point}
    (htask : task ≠ .run) (hpoint : point.isUncommitted = false)
    (hfixed : after.shutdown = s.shutdown ∧ after.cancelling = s.cancelling)
    (hbuffers : after.buffers = s.buffers)
    (hafter : after.point = update s.point task point) : Draining after := by
  have hrun : after.point .run = s.point .run := by
    simp [hafter, htask.symm]
  refine draining_of_remaining h hfixed (fun hblocked => hrun.trans hblocked)
    (remaining_of_shrink h.remaining hrun (by simp [hbuffers]) ?_)
  intro other hother
  by_cases hsame : other = task
  · simp [hafter, hsame, hpoint] at hother
  · exact .inl (by simpa [hafter, hsame] using hother)

theorem draining_flushLocked (h : Draining s) (hkeys : Consistent s)
    {task : Task} {todo : List String}
    (hlock : s.lock = none ∨ s.lock = some task)
    (htodo : task = .run → s.point .run ≠ .blocked ∧
      ∀ cdn, s.buffers cdn ≠ [] → cdn ∈ todo) :
    Draining (flushLocked s task todo).1 := by
  have hfixed := flushLocked_shutdown s task todo
  by_cases htask : task = .run
  · subst htask
    exact draining_of_remaining h hfixed
      (fun hblocked => absurd hblocked (htodo rfl).1)
      (remaining_flushLocked_run hkeys hlock (htodo rfl).2)
  · refine draining_of_remaining h hfixed ?_
      (remaining_flushLocked htask h.remaining todo)
    intro hblocked
    rcases flushLocked_cases s task todo with
      ⟨-, heq⟩ | ⟨-, cdn, rest, -, -, -, heq⟩ <;>
      simpa [heq, Ne.symm htask] using hblocked

end Draining

/-- `run` gives up its drain when an `enqueue` raises, which is harmless with
the last buffer only. -/
theorem draining_move {cfg : DaemonConfig} {s after : State} {action : Action}
    {out : List Obs} (h : Draining s) (hkeys : Consistent s)
    (hraise : action = .enqueueRaise .run → ∀ {cdn urls committed rest},
      s.point .run = .enqueueing cdn urls committed rest →
        ∀ other ∈ rest, s.buffers other = [])
    (hmove : Move cfg s action after out) : Draining after := by
  cases hmove with
  | tick => exact ⟨h.barred, h.called, h.down, h.remaining⟩
  | submitCall | flushAllCall =>
      exact draining_of_goto h (by simp) rfl ⟨rfl, rfl⟩ rfl rfl
  | @submit call target todo hlock hcancel hpoint htodo =>
      -- an addition: the daemon is still up, so that `run` is blocked
      have hup : s.shutdown = false := by
        by_contra hdown
        simp [h.barred (by simpa using hdown) call] at hcancel
      have hblocked : s.point .run = .blocked := by
        by_contra hrun
        simp [h.down hrun] at hup
      have hopen := consistent_openBuffer hkeys target.cdnName
      have hadd := consistent_addTarget hopen
        ((mem_openBuffer_cdns _ _).mpr (.inr rfl))
      have hrun : (addTarget (openBuffer s target.cdnName) target).point .run =
          .blocked :=
        (openBuffer_point_of_ne (by simp)).trans hblocked
      refine draining_flushLocked (draining_of_remaining h (by simp)
        (fun _ => hrun) ?_) hadd (.inl (by simpa using hlock)) (by simp)
      rw [hrun]
      trivial
  | @recheck cdn =>
      obtain ⟨point, heq, hpoint⟩ := recheck_cases cfg s cdn
      have hquiet : point.isUncommitted = false := by
        rcases hpoint with rfl | rfl | ⟨_, rfl⟩ | rfl <;> rfl
      rw [heq]
      exact draining_of_goto h (by simp) hquiet ⟨rfl, rfl⟩ rfl rfl
  | @flush task todo hlock hcancel hpoint =>
      refine draining_flushLocked h hkeys (.inl hlock) ?_
      rintro rfl
      rcases hpoint with ⟨cdn, heq, -⟩ | ⟨hpoint, rfl⟩
      · cases heq
      · exact ⟨by simp [hpoint], hkeys.known⟩
  | wake => exact draining_of_goto h (by simp) rfl ⟨rfl, rfl⟩ rfl rfl
  | timeout => exact draining_of_goto h (by simp) rfl ⟨rfl, rfl⟩ rfl rfl
  | @commit task cdn urls rest hpoint hcancel =>
      by_cases htask : task = .run
      · subst htask
        have hremaining := h.remaining
        rw [hpoint] at hremaining
        refine draining_of_remaining h ⟨rfl, rfl⟩ (by simp [hpoint]) ?_
        simpa [Remaining] using hremaining
      · exact draining_of_goto h htask rfl ⟨rfl, rfl⟩ rfl rfl
  | @enqueueReturn task cdn urls rest hpoint hcancel =>
      refine draining_flushLocked h hkeys (.inr (hkeys.holder task
        (by simp [hpoint, Point.isEnqueueing]))) ?_
      rintro rfl
      have hremaining := h.remaining
      rw [hpoint] at hremaining
      exact ⟨by simp [hpoint], hremaining⟩
  | shutdown hshutdown hpoint =>
      refine ⟨fun _ _ => rfl, fun _ => rfl, fun _ => rfl, ?_⟩
      rw [show _ = Point.blocked from hpoint]
      trivial
  | deliverRun hcancel hpoint =>
      exact ⟨h.barred, by simp, fun _ => h.called hcancel, by simp [Remaining]⟩
  | @deliver task htask hcancel habsent hended =>
      exact draining_of_goto h htask rfl ⟨rfl, rfl⟩ rfl rfl
  | gathered hpoint =>
      refine draining_of_remaining h ⟨rfl, rfl⟩ (by simp [hpoint]) ?_
      simp [Remaining]
  | @enqueueRaise task cdn urls rest hpoint =>
      by_cases htask : task = .run
      · subst htask
        have hremaining := h.remaining
        rw [hpoint] at hremaining
        have hlock := hkeys.holder .run (by simp [hpoint, Point.isEnqueueing])
        refine draining_of_remaining h ⟨rfl, rfl⟩ (by simp [hpoint]) ?_
        -- the others are empty, so that this is the end of a complete drain
        have hempty : ∀ other, s.buffers other ≠ [] → other ∈ [] :=
          fun other hbuffer =>
            absurd (hraise rfl hpoint other (hremaining other hbuffer)) hbuffer
        have hdrained := remaining_flushLocked_run hkeys (.inr hlock) hempty
        simpa [flushLocked, afterFlush, afterRaise] using hdrained
      · have hended : (afterRaise task).isUncommitted = false := by
          cases task <;> rfl
        exact draining_of_goto h htask hended ⟨rfl, rfl⟩ rfl rfl
  | @cancel task htask =>
      refine ⟨fun hdown call => ?_, ?_, h.down, h.remaining⟩
      · by_cases heq : Task.submit call = task
        · simp [← heq]
        · simpa [heq] using h.barred hdown call
      · simpa [htask.symm] using h.called

/-- Once `run` has finished nothing is left. -/
theorem Draining.not_carried {s : State} (h : Draining s)
    (hended : (s.point .run).isEnded) (cdn url : String) :
    ¬ Carried s cdn url := by
  obtain ⟨hempty, hfree⟩ : (∀ cdn, s.buffers cdn = []) ∧
      ∀ task, (s.point task).isUncommitted = false := by
    have hremaining := h.remaining
    revert hended hremaining
    cases s.point .run <;> simp [Point.isEnded, Remaining]
  rintro (hbuffer | ⟨task, urls, rest, htask, -⟩)
  · simp [hempty cdn] at hbuffer
  · have htaken := hfree task
    simp [htask, Point.isUncommitted] at htaken

theorem draining_init (now : ℚ) : Draining (init now) where
  barred := by simp [init]
  called := by simp [init]
  down := by simp [init]
  remaining := by simp [init, Remaining]

/-- In every run of the daemon in which no cancellation lands in an `enqueue`
before its row is committed: when `run` has finished, every URL that a submit
added is in a row committed after the addition. -/
theorem shutdown_loses_no_url {cfg : DaemonConfig} {now : ℚ}
    {trace : List Obs} {s : State}
    (hrun : Reaches (step cfg)
      (fun s action => action.isDaemon ∧ sparesEnqueue s action) (init now)
      trace s)
    (hended : (s.point .run).isEnded) (cdn url : String) :
    ∀ before event after, trace = before ++ event :: after →
      event.Adds cdn url → ∃ later ∈ after, later.Commits cdn url := by
  have hinv : Kept trace s ∧ Draining s := by
    refine hrun.invariant_along (fun trace s => Kept trace s ∧ Draining s)
      ⟨by simp [Kept], draining_init now⟩ ?_
    intro trace s action after out hearlier h hallowed hstep
    have hmove := move_of_step hstep
    have hkeys := consistent_of_reaches hearlier
    have hraise : action ≠ .enqueueRaise .run := by
      rintro rfl
      simp [Action.isDaemon] at hallowed
    exact ⟨kept_move h.1 hkeys (dropped_eq_none hallowed.1 hallowed.2) hmove,
      draining_move h.2 hkeys (absurd · hraise) hmove⟩
  intro before event after hsplit hadds
  by_contra hstop
  have hsince : Since (Obs.Adds cdn url) (Obs.Commits cdn url) trace :=
    ⟨before, event, after, hsplit, hadds, fun later hlater hcommits =>
      hstop ⟨later, hlater, hcommits⟩⟩
  exact hinv.2.not_carried hended cdn url (hinv.1 cdn url hsince)

/-- A shutdown that finds one URL in its buffer. -/
theorem shutdown_loses_no_url_sample :
    ∃ trace s, Reaches (step {})
        (fun s action => action.isDaemon ∧ sparesEnqueue s action) (init 0)
        trace s ∧
      trace = [.added "a" "/x" 0] ++ [.enqueued "a" ["/x"] 0,
        .committed "a" ["/x"]] ∧
      ∃ later ∈ [Obs.enqueued "a" ["/x"] 0, Obs.committed "a" ["/x"]],
        later.Commits "a" "/x" := by
  obtain ⟨trace, s, hrun, hview⟩ := exists_reaches_of_execute
    (step {}) (init 0)
    (fun s action => action.isDaemon ∧ sparesEnqueue s action)
    (fun final => (final.2, (final.1.point .run).isEnded))
    ([.added "a" "/x" 0, .enqueued "a" ["/x"] 0, .committed "a" ["/x"]], true)
    [.submit 0 ⟨"a", "/x"⟩, .acquire (.submit 0), .shutdown, .deliver .run,
      .deliver (.debounce "a"), .gathered, .acquire .run, .commit .run,
      .enqueueReturn .run]
    (by decide +kernel)
  obtain ⟨htrace, hended⟩ := Prod.ext_iff.mp hview
  exact ⟨trace, s, hrun, htrace, shutdown_loses_no_url hrun hended "a" "/x"
    [] _ _ htrace ⟨rfl, rfl⟩⟩

/-- The size cap of one URL sends `submit` into `enqueue`, where the shutdown
of the daemon finds it: `run` finishes and the URL is in no row. -/
theorem shutdown_loses_batch :
    ∃ trace s, Reaches (step { batchMaxSize := 1 })
        (fun _ action => action.isDaemon) (init 0) trace s ∧
      (s.point .run).isEnded = true ∧
      trace = [.added "a" "/x" 0, .enqueued "a" ["/x"] 0] ∧
      ∀ event ∈ trace, ¬ event.Commits "a" "/x" := by
  obtain ⟨trace, s, hrun, hview⟩ := exists_reaches_of_execute
    (step { batchMaxSize := 1 }) (init 0)
    (fun _ action => action.isDaemon)
    (fun final => (final.2, (final.1.point .run).isEnded))
    ([.added "a" "/x" 0, .enqueued "a" ["/x"] 0], true)
    [.submit 0 ⟨"a", "/x"⟩, .acquire (.submit 0), .shutdown,
      .deliver (.submit 0), .deliver .run, .deliver (.debounce "a"),
      .gathered, .acquire .run]
    (by decide +kernel)
  obtain ⟨htrace, hended⟩ := Prod.ext_iff.mp hview
  have htrace' : trace = [.added "a" "/x" 0, .enqueued "a" ["/x"] 0] := htrace
  exact ⟨trace, s, hrun, hended, htrace', by simp [htrace', Obs.Commits]⟩

end MirrorMirage.Batcher
