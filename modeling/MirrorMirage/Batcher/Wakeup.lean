import MirrorMirage.Batcher.Invariant

/-!
# No wakeup of a debounce task is lost

The event of a debounce task is set under the lock and cleared outside it, and
a flush may empty the buffer behind the back of the task.  `Attended` says
what still leads the task to a buffer that is not empty; it is carried along
the run by one lemma for each update of the batcher.
-/

namespace MirrorMirage.Batcher

open Function (update)
open MirrorMirage.Run

/-- The event is set, or the task is inside its inner loop with a deadline
that is not too late for the current buffer. -/
def Attended (cfg : DaemonConfig) (s : State) (cdn : String) : Prop :=
  s.wake cdn = true ∨ s.point (.debounce cdn) = .recheckLock ∨
    s.point (.debounce cdn) = .flushLock ∨
    ∃ deadline first last, s.point (.debounce cdn) = .timedWait deadline ∧
      s.firstAdded cdn = some first ∧ s.lastAdded cdn = some last ∧
      deadline ≤ min (last + cfg.batchQuietWindowSeconds)
        (first + cfg.batchMaxAgeSeconds)

/-- Every buffer that is not empty is attended; the debounce tasks do not end,
and flush their own buffer only, which stays empty while they do. -/
structure Watched (cfg : DaemonConfig) (s : State) : Prop where
  attended : ∀ cdn, s.buffers cdn ≠ [] → Attended cfg s cdn
  alive : ∀ cdn, (s.point (.debounce cdn)).isEnded = false
  drained : ∀ cdn other urls committed rest,
    s.point (.debounce cdn) = .enqueueing other urls committed rest →
      rest = [] ∧ s.buffers cdn = []

section Updates

variable {cfg : DaemonConfig} {s : State}

/-- A step that only moves other tasks. -/
theorem watched_of_frame {after : State} (h : Watched cfg s)
    (hbuffers : after.buffers = s.buffers) (hwake : after.wake = s.wake)
    (hfirst : after.firstAdded = s.firstAdded)
    (hlast : after.lastAdded = s.lastAdded)
    (hpoint : ∀ cdn, after.point (.debounce cdn) = s.point (.debounce cdn)) :
    Watched cfg after where
  attended := by
    intro cdn hbuffer
    have hattended := h.attended cdn (by rwa [hbuffers] at hbuffer)
    simpa only [Attended, hwake, hfirst, hlast, hpoint] using hattended
  alive := by simpa only [hpoint] using h.alive
  drained := by simpa only [hpoint, hbuffers] using h.drained

/-- The debounce task of one CDN moves to another point of its code. -/
theorem watched_goto {cdn : String} {point : Point} (h : Watched cfg s)
    (hattended : s.buffers cdn ≠ [] →
      Attended cfg (s.goto (.debounce cdn) point) cdn)
    (halive : point.isEnded = false)
    (hdrained : ∀ other urls committed rest,
      point = .enqueueing other urls committed rest →
        rest = [] ∧ s.buffers cdn = []) :
    Watched cfg (s.goto (.debounce cdn) point) where
  attended := by
    intro other hbuffer
    by_cases heq : other = cdn
    · subst heq
      exact hattended hbuffer
    · simpa [Attended, Function.update_apply, heq] using
        h.attended other hbuffer
  alive := by
    intro other
    by_cases heq : other = cdn
    · simpa [heq] using halive
    · simpa [Function.update_apply, heq] using h.alive other
  drained := by
    intro other
    by_cases heq : other = cdn
    · subst heq
      simpa using hdrained
    · simpa [Function.update_apply, heq] using h.drained other

theorem watched_setLock (h : Watched cfg s) (lock : Option Task) :
    Watched cfg { s with lock := lock } :=
  watched_of_frame h rfl rfl rfl rfl fun _ => rfl

/-- Emptying a buffer leaves nothing of that CDN to attend to. -/
theorem watched_emptied (h : Watched cfg s) (cdn : String) :
    Watched cfg { s with
      buffers := update s.buffers cdn []
      firstAdded := update s.firstAdded cdn none
      lastAdded := update s.lastAdded cdn none } where
  attended := by
    intro other hbuffer
    by_cases heq : other = cdn
    · simp [heq] at hbuffer
    · simpa [Attended, Function.update_apply, heq] using
        h.attended other (by simpa [Function.update_apply, heq] using hbuffer)
  alive := h.alive
  drained := by
    intro other taken urls committed rest hpoint
    have hdrained := h.drained other taken urls committed rest hpoint
    refine ⟨hdrained.1, ?_⟩
    by_cases heq : other = cdn <;> simp [heq, hdrained.2]

theorem watched_takeBuffer_debounce (h : Watched cfg s) (cdn : String) :
    Watched cfg (takeBuffer s (.debounce cdn) cdn []) :=
  watched_goto (watched_setLock (watched_emptied h cdn) _) (by simp) rfl
    (by simp)

theorem watched_takeBuffer {task : Task} (htask : ∀ cdn, task ≠ .debounce cdn)
    (h : Watched cfg s) (cdn : String) (rest : List String) :
    Watched cfg (takeBuffer s task cdn rest) :=
  watched_of_frame (watched_emptied h cdn) rfl rfl rfl rfl
    (by simp [(htask _).symm])

theorem watched_flushLocked {task : Task}
    (htask : ∀ cdn, task ≠ .debounce cdn) (h : Watched cfg s)
    (todo : List String) : Watched cfg (flushLocked s task todo).1 := by
  rcases flushLocked_cases s task todo with
    ⟨-, heq⟩ | ⟨-, cdn, rest, -, -, -, heq⟩
  · rw [heq]
    exact watched_of_frame h rfl rfl rfl rfl
      (by simp [(htask _).symm])
  · rw [heq]
    exact watched_takeBuffer htask h cdn rest

/-- Back to the outer wait, once there is nothing left in the buffer. -/
theorem watched_leave {cdn : String} (hempty : s.buffers cdn = [])
    (h : Watched cfg s) : Watched cfg (s.leave (.debounce cdn) .wakeWait) :=
  watched_goto (watched_setLock h none) (absurd hempty) rfl (by simp)

theorem watched_flushOwn (h : Watched cfg s) (cdn : String) :
    Watched cfg (flushLocked s (.debounce cdn) [cdn]).1 := by
  by_cases hempty : s.buffers cdn = []
  · simpa [flushLocked, hempty, afterFlush] using watched_leave hempty h
  · simpa [flushLocked, hempty] using watched_takeBuffer_debounce h cdn

theorem watched_openBuffer (h : Watched cfg s) (cdn : String) :
    Watched cfg (openBuffer s cdn) := by
  unfold openBuffer
  split
  · exact h
  · have hcleared : Watched cfg { s with
        buffers := update s.buffers cdn []
        wake := update s.wake cdn false
        cdns := s.cdns ++ [cdn]
        point := update s.point (.debounce cdn) .wakeWait } := by
      constructor
      · intro other hbuffer
        by_cases heq : other = cdn
        · simp [heq] at hbuffer
        · simpa [Attended, Function.update_apply, heq] using h.attended other
            (by simpa [Function.update_apply, heq] using hbuffer)
      · intro other
        by_cases heq : other = cdn
        · simp [heq, Point.isEnded]
        · simpa [Function.update_apply, heq] using h.alive other
      · intro other
        by_cases heq : other = cdn
        · simp [heq]
        · simpa [Function.update_apply, heq] using h.drained other
    exact hcleared

/-- `submit` sets the event of the buffer that it adds to.  It holds the lock,
so that no debounce task is inside `enqueue`. -/
theorem watched_addTarget (h : Watched cfg s) (target : PurgeTarget)
    (hquiet : ∀ cdn, (s.point (.debounce cdn)).isEnqueueing = false) :
    Watched cfg (addTarget s target) where
  attended := by
    intro other hbuffer
    by_cases heq : other = target.cdnName
    · exact .inl (by simp [heq])
    · have hbuffer' : s.buffers other ≠ [] := by
        simpa [addTarget, Function.update_apply, heq] using hbuffer
      have hattended := h.attended other hbuffer'
      have hfirst :
          (addTarget s target).firstAdded other = s.firstAdded other := by
        simp only [addTarget]
        split <;> simp [heq]
      simpa [Attended, Function.update_apply, heq, hfirst] using hattended
  alive := h.alive
  drained := by
    intro other taken urls committed rest hpoint
    have hbusy := hquiet other
    rw [addTarget_point] at hpoint
    simp [hpoint, Point.isEnqueueing] at hbusy

/-- The deadline of the timed wait is computed from the current buffer. -/
theorem watched_recheck (h : Watched cfg s) (hkeys : Consistent s)
    (cdn : String) : Watched cfg (recheck cfg s cdn) := by
  unfold recheck
  split
  · exact watched_goto h (absurd ‹_›) rfl (by simp)
  · rename_i hbuffer
    obtain ⟨last, hlast⟩ := Option.isSome_iff_exists.mp
      ((hkeys.last cdn).mpr hbuffer)
    obtain ⟨first, hfirst⟩ := Option.isSome_iff_exists.mp
      ((hkeys.first cdn).mpr hbuffer)
    simp only [hlast, hfirst]
    split
    · exact watched_goto h
        (fun _ => .inr (.inr (.inl (by simp)))) rfl (by simp)
    · refine watched_goto h (fun _ => .inr (.inr (.inr
        ⟨_, first, last, Function.update_self .., hfirst, hlast, ?_⟩))) rfl (by simp)
      exact le_of_eq (add_sub_cancel ..)

end Updates

theorem watched_init (cfg : DaemonConfig) (now : ℚ) :
    Watched cfg (init now) where
  attended := by simp [init]
  alive := by simp [init, Point.isEnded]
  drained := by simp [init]

theorem watched_move {cfg : DaemonConfig} {s after : State} {action : Action}
    {out : List Obs} (h : Watched cfg s) (hkeys : Consistent s)
    (hsmooth : action.isSmooth) (hmove : Move cfg s action after out) :
    Watched cfg after := by
  cases hmove with
  | tick => exact watched_of_frame h rfl rfl rfl rfl fun _ => rfl
  | submitCall => exact watched_of_frame h rfl rfl rfl rfl (by simp)
  | flushAllCall => exact watched_of_frame h rfl rfl rfl rfl (by simp)
  | @submit call target todo hlock hcancel hpoint htodo =>
      have hopen := consistent_openBuffer hkeys target.cdnName
      have hquiet : ∀ cdn, ((openBuffer s target.cdnName).point
          (.debounce cdn)).isEnqueueing = false := fun cdn =>
        hopen.alone (.inl (by simpa using hlock))
          (show Task.debounce cdn ≠ .run by simp)
      exact watched_flushLocked (by simp)
        (watched_addTarget (watched_openBuffer h _) target hquiet) todo
  | recheck => exact watched_recheck h hkeys _
  | @flush task todo hlock hcancel hpoint =>
      rcases hpoint with ⟨cdn, rfl, -, rfl⟩ | ⟨hpoint, rfl⟩
      · exact watched_flushOwn h cdn
      · refine watched_flushLocked ?_ h _
        rintro cdn rfl
        have howned := hkeys.owned (.debounce cdn)
        simp [hpoint, Task.owns] at howned
  | @wake cdn hwake hcancel hpoint =>
      constructor
      · intro other hbuffer
        by_cases heq : other = cdn
        · exact .inr (.inl (by simp [heq]))
        · simpa [Attended, Function.update_apply, heq] using
            h.attended other hbuffer
      · intro other
        by_cases heq : other = cdn
        · simp [heq, Point.isEnded]
        · simpa [Function.update_apply, heq] using h.alive other
      · intro other
        by_cases heq : other = cdn
        · simp [heq]
        · simpa [Function.update_apply, heq] using h.drained other
  | timeout =>
      exact watched_goto h (fun _ => .inr (.inr (.inl (by simp)))) rfl
        (by simp)
  | @commit task cdn urls rest hpoint hcancel =>
      cases task with
      | debounce owner =>
          have hdrained := h.drained owner cdn urls false rest hpoint
          exact watched_goto h (absurd hdrained.2) rfl (by
            rintro _ _ _ _ ⟨⟩
            exact hdrained)
      | _ => exact watched_of_frame h rfl rfl rfl rfl (by simp)
  | @enqueueReturn task cdn urls rest hpoint hcancel =>
      cases task with
      | debounce owner =>
          obtain ⟨rfl, hempty⟩ := h.drained owner cdn urls true rest hpoint
          exact watched_leave hempty h
      | _ => exact watched_flushLocked (by simp) h _
  | gathered => exact watched_of_frame h rfl rfl rfl rfl (by simp)
  | _ => simp [Action.isSmooth] at hsmooth

/-- In every reachable state without failures and cancellations, a buffer that
is not empty has a live debounce task, which either finds its event set or is
in its inner loop with a deadline that is not too late. -/
theorem nonempty_buffer_is_attended {cfg : DaemonConfig} {now : ℚ}
    {trace : List Obs} {s : State}
    (hrun : Reaches (step cfg) (fun _ action => action.isSmooth) (init now)
      trace s) {cdn : String} (hbuffer : s.buffers cdn ≠ []) :
    s.point (.debounce cdn) ≠ .absent ∧
      (s.point (.debounce cdn)).isEnded = false ∧
      (s.wake cdn = true ∨ s.point (.debounce cdn) = .recheckLock ∨
        s.point (.debounce cdn) = .flushLock ∨
        ∃ deadline first last,
          s.point (.debounce cdn) = .timedWait deadline ∧
          s.firstAdded cdn = some first ∧ s.lastAdded cdn = some last ∧
          deadline ≤ min (last + cfg.batchQuietWindowSeconds)
            (first + cfg.batchMaxAgeSeconds)) := by
  have hkeys := consistent_of_reaches hrun
  have hwatched : Watched cfg s := by
    apply hrun.invariant_along (fun _ s => Watched cfg s)
      (watched_init cfg now)
    intro trace s action after out hearlier h hsmooth hstep
    exact watched_move h (consistent_of_reaches hearlier) hsmooth
      (move_of_step hstep)
  exact ⟨(hkeys.debounced cdn).mpr (hkeys.known cdn hbuffer),
    hwatched.alive cdn, hwatched.attended cdn hbuffer⟩

/-- A submit, and the debounce task of its buffer in the timed wait. -/
theorem nonempty_buffer_is_attended_sample :
    ∃ trace s, Reaches (step {}) (fun _ action => action.isSmooth) (init 0)
        trace s ∧
      (s.buffers "a" = ["/x"] ∧
        s.point (.debounce "a") = .timedWait 10) ∧
      (s.point (.debounce "a")).isEnded = false := by
  obtain ⟨trace, s, hrun, hview⟩ := exists_reaches_of_execute
    (step {}) (init 0)
    (fun _ action => action.isSmooth)
    (fun final => (final.1.buffers "a", final.1.point (.debounce "a")))
    (["/x"], .timedWait 10)
    [.submit 0 ⟨"a", "/x"⟩, .acquire (.submit 0), .wake "a",
      .acquire (.debounce "a")]
    (by decide +kernel)
  obtain ⟨hbuffer, hpoint⟩ := Prod.ext_iff.mp hview
  exact ⟨trace, s, hrun, ⟨hbuffer, hpoint⟩,
    (nonempty_buffer_is_attended hrun (by simp [show s.buffers "a" = _ from
      hbuffer])).2.1⟩

end MirrorMirage.Batcher
