import MirrorMirage.Batcher.Rest
import MirrorMirage.Daemon.Delivery

/-!
# The daemon can always come to rest

While nobody shuts the daemon down, its own steps lead from every state to one
in which every event has been read, every target submitted and every batch
stored.  The stages are drained from the last to the first: the batcher with
its calls (`drains`), then the targets of one event (`empties`), then the
events (`comes_to_quiet`).  What is due has then been stored.
-/

namespace MirrorMirage.Daemon

open MirrorMirage.Run
open MirrorMirage.Batcher (Awaits Consistent Covers Task Tidy Watched total)
open MirrorMirage.Filter (EventKind)
open MirrorMirage.Publication (Asked Due Steady)

/-- `_pipeline` does not fail. -/
theorem raised_notMem_pump {fnmatchcase : String → String → Bool}
    {watches : List WatchConfig} {found : Watcher.Obs} :
    .raised ∉ Publication.pump fnmatchcase watches found := by
  unfold Publication.pump
  split
  · rename_i maskName path root
    split
    · exact List.not_mem_nil
    · rename_i event hevent
      cases howner : Filter.owner path (Filter.sortedWatches watches) with
      | none => simp [Filter.normalize, howner] at hevent
      | some owner =>
          obtain ⟨habs, hroot⟩ := event_of_normalize hevent howner
          have hrel : Pathlib.relativeTo event.absPath event.watchRoot =
              some owner.2 := by
            rw [habs, hroot, Pathlib.relativeTo_eq_some_iff]
            exact (Filter.owner_eq_some_iff.mp howner).2
          have hsome : Mapper.map watches event ≠ none := by
            unfold Mapper.map
            split
            · simp
            · split <;> simp [hrel]
          split <;> simp_all
  · exact List.not_mem_nil

/-! ## The batcher while the daemon is up -/

structure Going (cfg : DaemonConfig) (s : Batcher.State) : Prop where
  keys : Consistent s
  tidy : Tidy s
  watched : Watched cfg s
  up : s.shutdown = false
  covered : ∃ tasks, Covers tasks s

/-- Where a `submit` may be that has not failed. -/
def Underway : Batcher.Point → Prop
  | .submitLock _ | .enqueueing _ _ _ _ | .ended .returned => True
  | _ => False

section Going

variable {cfg : DaemonConfig} {s after : Batcher.State}
variable {action : Batcher.Action} {out : List Batcher.Obs} {call : ℕ}

theorem isSmooth_of_isDaemon (htidy : Tidy s) (hdaemon : action.isDaemon)
    (hup : action ≠ .shutdown)
    (hstep : Batcher.step cfg s action = some (after, out)) :
    action.isSmooth := by
  cases action with
  | deliver task => simp [Batcher.step, htidy.calm] at hstep
  | shutdown => exact absurd rfl hup
  | _ => first | rfl | cases hdaemon

theorem Going.step (h : Going cfg s) (hdaemon : action.isDaemon)
    (hup : action ≠ .shutdown)
    (hstep : Batcher.step cfg s action = some (after, out)) :
    Going cfg after := by
  have hsmooth := isSmooth_of_isDaemon h.tidy hdaemon hup hstep
  have hflushAll : ∀ call, action ≠ .flushAll call := by
    rintro call rfl
    cases hdaemon
  have hmove := Batcher.move_of_step hstep
  refine ⟨Batcher.consistent_move h.keys hmove,
    Batcher.tidy_move h.tidy h.keys hsmooth hflushAll hmove,
    Batcher.watched_move h.watched h.keys hsmooth hmove,
    (Batcher.shutdown_move hup hmove).trans h.up, ?_⟩
  · obtain ⟨tasks, hcovers⟩ := h.covered
    cases action with
    | submit call target =>
        have hmore := hcovers.mono ((Finset.subset_insert
          (.debounce target.cdnName) tasks).trans
            (Finset.subset_insert (.submit call) _))
        refine ⟨_, hmore.step h.keys h.tidy hsmooth hflushAll ?_ hstep⟩
        rintro call' target' ⟨⟩
        simp
    | _ =>
        exact ⟨tasks, hcovers.step h.keys h.tidy hsmooth hflushAll (by simp)
          hstep⟩

end Going

/-! ## The daemon while it is up -/

structure Healthy (cfg : DaemonConfig) (start : Watcher.State) (s : State) :
    Prop where
  joint : Joint s
  steady : Steady start s.files.watcher
  going : Going cfg s.batcher
  live : s.pipeline ≠ .ended
  future : ∀ call, s.submitCall < call →
    s.batcher.point (.submit call) = .absent
  underway : ∀ {target rest}, s.pipeline = .submitting target rest →
    Underway (s.batcher.point (.submit s.submitCall))

section Healthy

variable {cfg : DaemonConfig} {fnmatchcase : String → String → Bool}
variable {watches : List WatchConfig} {start : Watcher.State}
variable {s after : State} {action : Action} {out : List Obs}

end Healthy

/-! ## Steps that are possible -/

/-- What the daemon does by itself: no file operations, no cancellations, no
clock and no worker. -/
def Action.isInternal : Action → Bool
  | .read | .submitted | .exec _ | .resume => true
  | .batcher own => isOwn own && own.isInternal
  | _ => false

section Possible

variable {cfg : DaemonConfig} {fnmatchcase : String → String → Bool}
variable {watches : List WatchConfig} {start : Watcher.State} {s : State}

theorem exists_enqueueAll (hrunning : s.queue.phase = .running)
    (hfree : ∀ call, s.enqueueCall < call →
      (s.queue.enqueuer call).point = .absent) (calls : List Batcher.Obs) :
    ∃ after, enqueueAll cfg s calls = some after := by
  induction calls generalizing s with
  | nil => exact ⟨s, rfl⟩
  | cons call calls ih =>
      cases call with
      | enqueued cdn urls time =>
          have hstep : Queue.step cfg.retry s.queue
              (.enqueue (s.enqueueCall + 1) cdn urls) = some _ :=
            if_pos ⟨hrunning, hfree _ (Nat.lt_succ_self _)⟩
          simp only [enqueueAll, hstep, Option.bind_some]
          refine ih hrunning fun call hcall => ?_
          have hcall' : s.enqueueCall + 1 < call := hcall
          have hne : call ≠ s.enqueueCall + 1 := ne_of_gt hcall'
          simpa [hne] using hfree call (by omega)
      | _ => exact ih hrunning hfree

theorem Joint.exists_batcher (h : Joint s) {own : Batcher.Action}
    {batcher : Batcher.State} {found : List Batcher.Obs}
    (hown : isOwn own) (hdeliver : ∀ task, own ≠ .deliver task)
    (hstep : Batcher.step cfg s.batcher own = some (batcher, found)) :
    ∃ after, step cfg fnmatchcase watches s (.batcher own) =
      some (after, found.map .batcher) ∧
      Calls { s with batcher := batcher } found after := by
  have hinterrupt : interrupt cfg s own = some s.queue := by
    cases own with
    | deliver task => exact absurd rfl (hdeliver task)
    | _ => rfl
  have hall := @exists_enqueueAll cfg { s with batcher := batcher } h.running
    h.free found
  obtain ⟨after, hafter⟩ := hall
  have hcommit : ∀ task, own ≠ .commit task := by
    rintro task rfl
    cases hown
  refine ⟨after, by simp [step, hown, hstep, hinterrupt, hafter], ?_⟩
  exact calls_of_enqueueAll (Batcher.enqueues_of_move h.keys hcommit
    (Batcher.move_of_step hstep)) hafter

theorem step_exec_of_queue {call : ℕ} {queue : Queue.State}
    {found : List Queue.Obs}
    (hqueue : Queue.step cfg.retry s.queue (.execEnqueue call) =
      some (queue, found))
    (hpoint : ∀ id, (s.queue.enqueuer call).point ≠ .committing id) :
    step cfg fnmatchcase watches s (.exec call) =
      some ({ s with queue := queue }, found.map .queue) := by
  simp only [step, exec, hqueue, Option.map_some]

theorem step_resume_of_queue {task : Task} {queue : Queue.State}
    (hlock : s.batcher.lock = some task)
    (hcancel : s.batcher.cancelling task = false)
    (hqueue : Queue.step cfg.retry s.queue (.resumeEnqueue s.enqueueCall) =
      some (queue, []))
    (hpoint : ∀ id, (s.queue.enqueuer s.enqueueCall).point ≠ .committed id) :
    step cfg fnmatchcase watches s .resume =
      some ({ s with queue := queue }, []) := by
  simp only [step, resume, hlock, hcancel, Bool.false_eq_true, if_false, hqueue,
    Option.bind_some]

end Possible

/-! ## The batcher with its calls -/

/-- The steps that a call has left. -/
def enqueueRank : Queue.EnqueuePoint → ℕ
  | .inserting _ _ _ => 4
  | .inserted _ => 3
  | .committing _ => 2
  | .committed _ => 1
  | .absent => 0

/-- The steps that the batcher and its call have left. -/
def load (tasks : Finset Task) (s : State) : ℕ :=
  5 * total tasks s.batcher +
    if s.batcher.lock = none then 0
    else enqueueRank (s.queue.enqueuer s.enqueueCall).point

/-- The batcher holds nothing, and the last `submit` has returned. -/
structure Drained (s : State) : Prop where
  free : s.batcher.lock = none
  empty : ∀ cdn, s.batcher.buffers cdn = []
  returned : ∀ {target rest}, s.pipeline = .submitting target rest →
    s.batcher.point (.submit s.submitCall) = .ended .returned

/-- A step that leaves the batcher less to do and all before it as it is. -/
structure Turn (cfg : DaemonConfig) (fnmatchcase : String → String → Bool)
    (watches : List WatchConfig) (tasks : Finset Task) (s : State)
    (action : Action) (after : State) (out : List Obs) : Prop where
  accepted : step cfg fnmatchcase watches s action = some (after, out)
  internal : action.isInternal
  files : after.files = s.files
  pipeline : after.pipeline = s.pipeline
  covers : Covers tasks after.batcher
  load_lt : load tasks after < load tasks s

section Turns

variable {cfg : DaemonConfig} {fnmatchcase : String → String → Bool}
variable {watches : List WatchConfig} {start : Watcher.State} {s : State}
variable {tasks : Finset Task} {task : Task} {cdn : String}
variable {urls : List String} {committed : Bool}

theorem enqueueRank_le (point : Queue.EnqueuePoint) : enqueueRank point ≤ 4 := by
  cases point <;> simp [enqueueRank]

/-- A task of the batcher goes on while nobody holds the lock. -/
theorem exists_turn_batcher (h : Healthy cfg start s)
    (hcovers : Covers tasks s.batcher) {own : Batcher.Action}
    (hown : isOwn own) (hinternal : own.isInternal)
    (hlock : s.batcher.lock = none)
    (hsome : (Batcher.step cfg s.batcher own).isSome) :
    ∃ action after out,
      Turn cfg fnmatchcase watches tasks s action after out := by
  obtain ⟨⟨batcher, found⟩, hstep⟩ := Option.isSome_iff_exists.mp hsome
  have hdeliver : ∀ task, own ≠ .deliver task := by
    rintro task rfl
    cases hinternal
  obtain ⟨after, haccepted, hcalls⟩ :=
    @Joint.exists_batcher cfg fnmatchcase watches s h.joint own batcher found
      hown hdeliver hstep
  obtain ⟨hcovers', hlt⟩ := Batcher.lightens_of_step h.going.keys h.going.tidy
    hcovers hinternal hstep
  refine ⟨_, after, _, haccepted, by simp [Action.isInternal, hown, hinternal],
    hcalls.files, hcalls.pipeline.1, by rwa [hcalls.batcher], ?_⟩
  have hrank := enqueueRank_le (after.queue.enqueuer after.enqueueCall).point
  have hbatcher : after.batcher = batcher := hcalls.batcher
  rw [load, load, hbatcher, if_pos hlock]
  split <;> omega

/-- A step of the call that a task awaits: the call goes on, the task gets to
know of the commit, or the `enqueue` returns to the task. -/
inductive CallStep (cfg : DaemonConfig) (s : State) (task : Task)
    (after : State) : Prop where
  | goes (hbatcher : after.batcher = s.batcher)
      (hcall : after.enqueueCall = s.enqueueCall)
      (hlt : enqueueRank (after.queue.enqueuer after.enqueueCall).point <
        enqueueRank (s.queue.enqueuer s.enqueueCall).point)
  | commits {found : List Batcher.Obs}
      (hbatcher : Batcher.step cfg s.batcher (.commit task) =
        some (after.batcher, found))
      (hcall : after.enqueueCall = s.enqueueCall)
      (hlt : enqueueRank (after.queue.enqueuer after.enqueueCall).point <
        enqueueRank (s.queue.enqueuer s.enqueueCall).point)
  | returns {found : List Batcher.Obs}
      (hbatcher : Batcher.step cfg s.batcher (.enqueueReturn task) =
        some (after.batcher, found))
      (hlt : 0 < enqueueRank (s.queue.enqueuer s.enqueueCall).point)

/-- The step is accepted and leaves what comes before the batcher. -/
structure CallTurn (cfg : DaemonConfig) (fnmatchcase : String → String → Bool)
    (watches : List WatchConfig) (s : State) (task : Task) (action : Action)
    (after : State) (out : List Obs) : Prop where
  accepted : step cfg fnmatchcase watches s action = some (after, out)
  own : action = .exec s.enqueueCall ∨ action = .resume
  files : after.files = s.files
  pipeline : after.pipeline = s.pipeline ∧ after.submitCall = s.submitCall
  call : CallStep cfg s task after

theorem Joint.exists_insert (h : Joint s) {cdn' : String} {urls' : List String}
    {now : ℚ} (hcall : (s.queue.enqueuer s.enqueueCall).point =
      .inserting cdn' urls' now) :
    ∃ action after out, CallTurn cfg fnmatchcase watches s task action after
      out := by
  have hqueue : Queue.step cfg.retry s.queue (.execEnqueue s.enqueueCall) =
      some ({ s.queue.gotoEnqueue s.enqueueCall
        (.inserted s.queue.work.nextId) with
          work := s.queue.work.insert cdn' urls' now }, []) := by
    simp only [Queue.step, h.running, hcall, if_true]
  refine ⟨_, _, _, step_exec_of_queue hqueue (by simp [hcall]), .inl rfl, rfl,
    ⟨rfl, rfl⟩, .goes rfl rfl ?_⟩
  simp [hcall, enqueueRank, Queue.State.gotoEnqueue]

theorem Joint.exists_post (h : Joint s) {id : ℕ}
    (hlock : s.batcher.lock = some task)
    (hcalm : s.batcher.cancelling task = false)
    (halive : (s.queue.enqueuer s.enqueueCall).alive = true)
    (hcall : (s.queue.enqueuer s.enqueueCall).point = .inserted id) :
    ∃ action after out, CallTurn cfg fnmatchcase watches s task action after
      out := by
  have hqueue : Queue.step cfg.retry s.queue (.resumeEnqueue s.enqueueCall) =
      some (s.queue.gotoEnqueue s.enqueueCall (.committing id), []) := by
    simp only [Queue.step, h.running, halive, hcall, and_self, if_true]
  refine ⟨_, _, _, step_resume_of_queue hlock hcalm hqueue (by simp [hcall]),
    .inr rfl, rfl, ⟨rfl, rfl⟩, .goes rfl rfl ?_⟩
  simp [hcall, enqueueRank, Queue.State.gotoEnqueue]

theorem Joint.exists_commit (h : Joint s) {id : ℕ} {rest : List String}
    (hlock : s.batcher.lock = some task)
    (hcalm : s.batcher.cancelling task = false)
    (hpoint : s.batcher.point task = .enqueueing cdn urls false rest)
    (hcall : (s.queue.enqueuer s.enqueueCall).point = .committing id) :
    ∃ action after out, CallTurn cfg fnmatchcase watches s task action after
      out := by
  have hcommit : Batcher.step cfg s.batcher (.commit task) =
      some (s.batcher.goto task (.enqueueing cdn urls true rest),
        [.committed cdn urls]) := by
    simp [Batcher.step, hpoint, hcalm]
  have hrecord : recordCommit cfg s s.enqueueCall =
      (s.batcher.goto task (.enqueueing cdn urls true rest),
        [.committed cdn urls]) := by
    simp [recordCommit, hlock, hcommit]
  have hqueue : Queue.step cfg.retry s.queue (.execEnqueue s.enqueueCall) =
      some (s.queue.commit.gotoEnqueue s.enqueueCall (.committed id),
        [.committed s.queue.work.rows]) := by
    simp only [Queue.step, h.running, hcall, if_true]
  have haccepted : step cfg fnmatchcase watches s (.exec s.enqueueCall) =
      some ({ s with
        queue := s.queue.commit.gotoEnqueue s.enqueueCall (.committed id)
        batcher := s.batcher.goto task (.enqueueing cdn urls true rest) },
        .queue (.committed s.queue.work.rows) ::
          (storedRow s.queue.work id ++ [.batcher (.committed cdn urls)])) := by
    simp [step, Daemon.exec, hqueue, hcall, hrecord]
  refine ⟨_, _, _, haccepted, .inl rfl, rfl, ⟨rfl, rfl⟩,
    .commits hcommit rfl ?_⟩
  simp [hcall, enqueueRank, Queue.State.gotoEnqueue]

theorem Joint.exists_return (h : Joint s) {id : ℕ} {rest : List String}
    (hlock : s.batcher.lock = some task)
    (hcalm : s.batcher.cancelling task = false)
    (halive : (s.queue.enqueuer s.enqueueCall).alive = true)
    (hpoint : s.batcher.point task = .enqueueing cdn urls true rest)
    (hcall : (s.queue.enqueuer s.enqueueCall).point = .committed id) :
    ∃ action after out, CallTurn cfg fnmatchcase watches s task action after
      out := by
  have hreturn : Batcher.step cfg s.batcher (.enqueueReturn task) =
      some (Batcher.flushLocked s.batcher task rest) := by
    simp [Batcher.step, hpoint, hcalm]
  have hqueue : Queue.step cfg.retry s.queue (.resumeEnqueue s.enqueueCall) =
      some (s.queue.gotoEnqueue s.enqueueCall .absent, []) := by
    simp only [Queue.step, h.running, halive, hcall, and_self, if_true]
  rcases hflushed : Batcher.flushLocked s.batcher task rest with
    ⟨batcher, returned⟩
  rw [hflushed] at hreturn
  have hfree : ∀ call, s.enqueueCall < call →
      ((s.queue.gotoEnqueue s.enqueueCall .absent).enqueuer call).point =
        .absent := by
    intro call hlt
    simpa [Queue.State.gotoEnqueue, hlt.ne'] using h.free call hlt
  obtain ⟨after, hafter⟩ := @exists_enqueueAll cfg { s with
    queue := s.queue.gotoEnqueue s.enqueueCall .absent
    batcher := batcher } h.running hfree returned
  have hcalls := calls_of_enqueueAll (Batcher.enqueues_of_move h.keys (by simp)
    (Batcher.move_of_step hreturn)) hafter
  have haccepted : step cfg fnmatchcase watches s .resume =
      some (after, returned.map .batcher) := by
    simp only [step, Daemon.resume, hlock, hcalm, Bool.false_eq_true, if_false,
      hqueue, hcall, hreturn, Option.bind_some, hafter, Option.map_some]
  refine ⟨_, _, _, haccepted, .inr rfl, hcalls.files, hcalls.pipeline,
    .returns (by rw [hcalls.batcher]; exact hreturn) ?_⟩
  simp [hcall, enqueueRank]

/-- The call that a task awaits goes on, with the task. -/
theorem Joint.exists_call (h : Joint s)
    (hawaits : Awaits s.batcher task cdn urls committed)
    (hcalm : s.batcher.cancelling task = false) :
    ∃ action after out, CallTurn cfg fnmatchcase watches s task action after
      out := by
  have hlock : s.batcher.lock = some task :=
    h.keys.holder task (Batcher.isEnqueueing_of_awaits hawaits)
  obtain ⟨halive, hserving⟩ := h.serving hawaits
  obtain ⟨rest, hpoint⟩ := hawaits
  cases hcall : (s.queue.enqueuer s.enqueueCall).point with
  | absent =>
      rw [hcall] at hserving
      exact hserving.elim
  | inserting => exact h.exists_insert hcall
  | inserted => exact h.exists_post hlock hcalm halive hcall
  | committing id =>
      rw [hcall] at hserving
      obtain ⟨-, rfl⟩ := hserving
      exact h.exists_commit hlock hcalm hpoint hcall
  | committed id =>
      rw [hcall] at hserving
      obtain rfl : committed = true := hserving.2.resolve_right (by simp [hcalm])
      exact h.exists_return hlock hcalm halive hpoint hcall

theorem exists_turn_call (h : Healthy cfg start s)
    (hcovers : Covers tasks s.batcher)
    (hawaits : Awaits s.batcher task cdn urls committed) :
    ∃ action after out,
      Turn cfg fnmatchcase watches tasks s action after out := by
  have hlock : s.batcher.lock = some task :=
    h.going.keys.holder task (Batcher.isEnqueueing_of_awaits hawaits)
  obtain ⟨action, after, out, hturn⟩ :=
    @Joint.exists_call cfg fnmatchcase watches s task cdn urls committed h.joint
      hawaits (h.going.tidy.calm task)
  have hinternal : action.isInternal := by
    rcases hturn.own with rfl | rfl <;> rfl
  have hlightens : ∀ {own found}, own.isInternal →
      Batcher.step cfg s.batcher own = some (after.batcher, found) →
        Covers tasks after.batcher ∧ load tasks after < load tasks s := by
    intro own found hown hstep
    obtain ⟨hcovers', hlt⟩ := Batcher.lightens_of_step h.going.keys h.going.tidy
      hcovers hown hstep
    have hrank := enqueueRank_le (after.queue.enqueuer after.enqueueCall).point
    refine ⟨hcovers', ?_⟩
    unfold load
    split <;> omega
  have hnext : Covers tasks after.batcher ∧ load tasks after < load tasks s := by
    cases hturn.call with
    | goes hbatcher hcall hlt =>
        refine ⟨hbatcher ▸ hcovers, ?_⟩
        simpa [load, hbatcher, hlock] using hlt
    | commits hbatcher => exact hlightens rfl hbatcher
    | returns hbatcher => exact hlightens rfl hbatcher
  exact ⟨action, after, out, hturn.accepted, hinternal, hturn.files,
    hturn.pipeline.1, hnext.1, hnext.2⟩

/-- As long as the batcher has something, it or its call can go on. -/
theorem exists_turn (h : Healthy cfg start s) (hcovers : Covers tasks s.batcher)
    (hbusy : ¬ Drained s) : ∃ action after out,
      Turn cfg fnmatchcase watches tasks s action after out := by
  cases hlock : s.batcher.lock with
  | some task =>
      have hawaits : ∃ cdn urls committed,
          Awaits s.batcher task cdn urls committed := by
        have hpoint := h.going.tidy.busy hlock
        generalize heq : s.batcher.point task = point at hpoint
        cases point with
        | enqueueing cdn urls committed rest =>
            exact ⟨cdn, urls, committed, rest, heq⟩
        | _ => cases hpoint
      obtain ⟨cdn, urls, committed, hawaits⟩ := hawaits
      exact exists_turn_call h hcovers hawaits
  | none =>
      by_cases hempty : ∀ cdn, s.batcher.buffers cdn = []
      · have hwaits : ∃ target rest, s.pipeline = .submitting target rest ∧
            s.batcher.point (.submit s.submitCall) ≠ .ended .returned := by
          by_contra hnone
          push Not at hnone
          exact hbusy ⟨hlock, hempty, fun hpipeline => hnone _ _ hpipeline⟩
        obtain ⟨target, rest, hpipeline, hreturned⟩ := hwaits
        have hunderway := h.underway hpipeline
        cases hpoint : s.batcher.point (.submit s.submitCall) with
        | submitLock target' =>
            refine @exists_turn_batcher cfg fnmatchcase watches start s tasks h
              hcovers (.acquire (.submit s.submitCall)) rfl rfl hlock ?_
            simp [Batcher.step_acquire h.going.tidy hlock, Batcher.acquire,
              hpoint]
        | enqueueing cdn urls committed rest =>
            have hholder := h.going.keys.holder (.submit s.submitCall)
              (by simp [hpoint, Batcher.Point.isEnqueueing])
            simp [hlock] at hholder
        | ended outcome =>
            rw [hpoint] at hunderway hreturned
            cases outcome with
            | returned => exact absurd rfl hreturned
            | _ => exact hunderway.elim
        | _ =>
            rw [hpoint] at hunderway
            exact hunderway.elim
      · push Not at hempty
        obtain ⟨cdn, hbuffer⟩ := hempty
        rcases Batcher.debounce_can_move h.going.keys h.going.tidy
          h.going.watched hlock hbuffer with hsome | hsome | ⟨-, deadline, hpoint⟩
        · exact exists_turn_batcher h hcovers rfl rfl hlock hsome
        · exact exists_turn_batcher h hcovers rfl rfl hlock hsome
        · refine @exists_turn_batcher cfg fnmatchcase watches start s tasks h
            hcovers (.timeout cdn) rfl rfl hlock ?_
          simp [Batcher.step_timeout h.going.tidy hpoint]

end Turns

/-! ## From the last stage to the first -/

/-- The targets that `_pipeline` has before the next event. -/
def todo : Pipeline → ℕ
  | .submitting _ rest => rest.length + 1
  | _ => 0

section Stages

variable {cfg : DaemonConfig} {fnmatchcase : String → String → Bool}
variable {watches : List WatchConfig} {start : Watcher.State}
variable {s after : State} {trace : List Obs}

theorem exists_take (h : Steady start s.files.watcher)
    (hqueue : s.files.watcher.queue ≠ []) : ∃ files found,
      Publication.step fnmatchcase watches s.files .take =
        some (files, found) ∧ .raised ∉ found ∧
      files.watcher.queue.length < s.files.watcher.queue.length := by
  obtain ⟨⟨watcher, yielded⟩, htake⟩ :=
    @Steady.exists_take fnmatchcase start s.files.watcher h hqueue
  obtain ⟨event, rest, heq, rfl, -⟩ := h.take htake
  refine ⟨_, _, by rw [Publication.step, htake]; rfl, fun hraised => ?_,
    by simp [heq]⟩
  obtain ⟨found, -, hpump⟩ := List.mem_flatMap.mp hraised
  exact raised_notMem_pump hpump

/-- The batcher holds nothing while its buffers are empty and its lock is
free. -/
theorem not_held_of_idle (hkeys : Consistent s.batcher)
    (hlock : s.batcher.lock = none) (hempty : ∀ cdn, s.batcher.buffers cdn = [])
    {first : ℕ} {target : PurgeTarget} : ¬ Held first target s := by
  intro hheld
  cases hheld with
  | buffered hurl => simp [hempty] at hurl
  | @awaited task urls hawaits =>
      have hholder := hkeys.holder task (Batcher.isEnqueueing_of_awaits hawaits)
      simp [hlock] at hholder

end Stages

end MirrorMirage.Daemon
