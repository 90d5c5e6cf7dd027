import MirrorMirage.Daemon.Shutdown
import MirrorMirage.Process.Moves

/-!
# The stages of the process

What holds in each phase of `daemon.run`, over all processes that there have
been (`Orderly`).  When the queue is closed after the group, the group has seen
all its tasks end, so that no task uses the queue any more and nothing is left
in a buffer (`queue_is_closed_at_rest`).
-/

namespace MirrorMirage.Process

open MirrorMirage.Daemon (Closed Handed Leaving Live Starts)
open MirrorMirage.Providers.Build (buildProviders keys_of_buildProviders)
open MirrorMirage.Run
open MirrorMirage.TaskGroup (Exit Group)

/-! ## Workers that have ended -/

section Dead

variable {retry : RetryConfig} {queue later : Queue.State}
variable {action : Queue.Action} {out : List Queue.Obs} {cdnName : String}

theorem alive_goto (point : Queue.Point) (other : String) :
    ((queue.goto cdnName point).worker other).alive =
      (queue.worker other).alive := by
  unfold Queue.State.goto
  by_cases heq : other = cdnName <;> simp [heq]

/-- While the process goes on no worker is started again. -/
theorem dead_move (hserves : Daemon.serves action)
    (hmove : Queue.Move retry queue action later out)
    (hdead : (queue.worker cdnName).alive = false) :
    (later.worker cdnName).alive = false := by
  have hgoto : ∀ {earlier : Queue.State} (cdnName' : String)
      (point : Queue.Point), earlier.worker = queue.worker →
        ((earlier.goto cdnName' point).worker cdnName).alive = false := by
    intro earlier cdnName' point hworker
    rw [alive_goto, hworker, hdead]
  have hkilled : ∀ (cdnName' : String) (point : Queue.Point),
      (Function.update queue.worker cdnName' ⟨point, false⟩ cdnName).alive =
        false := by
    intro cdnName' point
    by_cases heq : cdnName = cdnName' <;> simp [heq, hdead]
  cases hmove with
  | start | reset | resetPost | resetCommit | run | crash => cases hserves
  | tick | enqueuer | insert | enqueueCommit => exact hdead
  | purgeRaise | kill => exact hkilled _ _
  | _ => exact hgoto _ _ rfl

theorem dead_of_reaches {trace : List Queue.Obs}
    (hrun : Reaches (Queue.step retry) (fun _ own => Daemon.serves own) queue
      trace later) (hdead : (queue.worker cdnName).alive = false) :
    (later.worker cdnName).alive = false :=
  hrun.invariant (fun _ queue => (queue.worker cdnName).alive = false) hdead
    fun hdead hserves hstep =>
      dead_move hserves (Queue.move_of_step hstep) hdead

end Dead

/-! ## What holds in a phase -/

section Stages

variable (cfg : Config) (dryRun : Bool)
variable (fnmatchcase : String → String → Bool)

/-- The group has been entered with this daemon. -/
def Up (s : Daemon.State) : Prop :=
  ∃ start trace, Starts cfg.daemon start ∧
    Reaches (Daemon.step cfg.daemon fnmatchcase cfg.watches) (fun _ _ => True)
      start trace s

/-- No task of the daemon is there yet. -/
structure Fresh (s : Daemon.State) : Prop where
  pipeline : s.pipeline = .reading
  batcher : ∃ now, s.batcher = Batcher.init now
  free : ∀ call, (s.queue.enqueuer call).point = .absent

/-- The tasks that the group does not wait for any more have ended. -/
structure Seen (group : Group Child String) (s : Daemon.State) : Prop where
  up : Up cfg fnmatchcase s
  coherent : group.Coherent
  worker : ∀ cdnName ∈ cfg.cdns.keys, .worker cdnName ∉ group.tasks →
    (s.queue.worker cdnName).alive = false
  batcher : .batcher ∉ group.tasks → (s.batcher.point .run).isEnded
  pipeline : .pipeline ∉ group.tasks → ∀ call,
    Live s.batcher (.submit call) = false

/-- What a close after the group finds: every task has ended. -/
structure Finished (s : Daemon.State) : Prop where
  up : Up cfg fnmatchcase s
  closed : Closed s
  workers : ∀ cdnName ∈ cfg.cdns.keys,
    (s.queue.worker cdnName).alive = false

structure Orderly (s : State) : Prop where
  table : ∃ now trace, Reaches (Queue.step cfg.daemon.retry)
    (fun _ _ => True) (Queue.init now) trace s.daemon.queue
  opening : s.phase = .opening →
    Fresh s.daemon ∧ s.daemon.queue.phase = .down
  recovering : s.phase = .recovering →
    Fresh s.daemon ∧ s.daemon.queue.phase ≠ .running
  grouped : ∀ {group}, s.phase = .grouped group →
    Seen cfg fnmatchcase group s.daemon ∧
      group.aborting = s.daemon.batcher.shutdown
  closing : ∀ {how}, s.phase = .closing how ∨ s.phase = .ended how →
    s.daemon.queue.phase = .running → Finished cfg fnmatchcase s.daemon

end Stages

section Group

variable {cfg : Config} {dryRun : Bool}
variable {fnmatchcase : String → String → Bool}
variable {group next : Group Child String} {s after : Daemon.State}
variable {action : Daemon.Action} {out : List Daemon.Obs}

theorem Up.joint (h : Up cfg fnmatchcase s) : Daemon.Joint s := by
  obtain ⟨start, trace, hstart, hrun⟩ := h
  exact Daemon.joint_of_reaches hstart.joint hrun

theorem Up.snoc (h : Up cfg fnmatchcase s)
    (hstep : Daemon.step cfg.daemon fnmatchcase cfg.watches s action =
      some (after, out)) : Up cfg fnmatchcase after := by
  obtain ⟨start, trace, hstart, hrun⟩ := h
  exact ⟨start, _, hstart, hrun.snoc trivial hstep⟩

theorem Up.leaving (h : Up cfg fnmatchcase s)
    (hdown : s.batcher.shutdown = true) : Leaving cfg.daemon s := by
  obtain ⟨start, trace, hstart, hrun⟩ := h
  exact Daemon.leaving_of_reaches hstart hrun hdown

theorem Up.handed (h : Up cfg fnmatchcase s) : Handed s := by
  obtain ⟨start, trace, hstart, hrun⟩ := h
  exact Daemon.handed_of_reaches hstart hrun

theorem Up.draining (h : Up cfg fnmatchcase s) :
    Batcher.Draining s.batcher := by
  obtain ⟨start, trace, hstart, hrun⟩ := h
  obtain ⟨now, hbatcher⟩ := hstart.batcher
  have hdaemon : Reaches (Batcher.step cfg.daemon)
      (fun _ own => own.isDaemon) start.batcher
      (trace.filterMap Daemon.seenBatcher) s.batcher :=
    Daemon.batcher_of_reaches hstart.joint hrun fun _ hmay _ => hmay.1
  exact Batcher.draining_of_reaches (hbatcher ▸ hdaemon)

/-- A step of the daemon that no task takes which has been seen to end. -/
theorem Seen.of_step (h : Seen cfg fnmatchcase group s)
    (hchild : (child? action).all (· ∈ group.tasks))
    (hstep : Daemon.step cfg.daemon fnmatchcase cfg.watches s action =
      some (after, out)) : Seen cfg fnmatchcase group after := by
  have hjoint := h.up.joint
  have hmove := Daemon.move_of_step hjoint.keys hstep
  refine ⟨h.up.snoc hstep, h.coherent, fun cdnName hkey hgone => ?_,
    fun hgone => ?_, fun hgone call => ?_⟩
  · exact dead_of_reaches hmove.queue_run (h.worker cdnName hkey hgone)
  · exact hmove.batcher_run.invariant
      (fun _ batcher => (batcher.point .run).isEnded) (h.batcher hgone)
      fun hended _ hstep =>
        Batcher.run_ended_move hended (Batcher.move_of_step hstep)
  · have hreads : action ≠ .read ∧ action ≠ .submitted := by
      constructor <;> rintro rfl <;> simp [child?, hgone] at hchild
    by_contra hlive
    refine Bool.false_ne_true ((h.pipeline hgone call).symm.trans ?_)
    exact Daemon.live_move hjoint.keys hreads hmove call (by simpa using hlive)

theorem shutdown_of_step
    (hup : action ≠ .batcher .shutdown) (h : Up cfg fnmatchcase s)
    (hstep : Daemon.step cfg.daemon fnmatchcase cfg.watches s action =
      some (after, out)) : after.batcher.shutdown = s.batcher.shutdown := by
  have hmove := Daemon.move_of_step h.joint.keys hstep
  exact hmove.batcher_run.invariant
    (fun _ batcher => batcher.shutdown = s.batcher.shutdown) rfl
    fun hsame hmay hstep => (Batcher.shutdown_move
      (fun heq => hup (hmay.2 heq)) (Batcher.move_of_step hstep)).trans hsame

/-- What the shutdown of the daemon leaves. -/
theorem step_of_abort (habort : abort cfg fnmatchcase s = some after) :
    after.batcher.shutdown = true ∧ Daemon.step cfg.daemon fnmatchcase
      cfg.watches s (.batcher .shutdown) = some (after, []) := by
  obtain ⟨⟨after, out⟩, hstep, rfl⟩ := Option.map_eq_some_iff.mp habort
  have hshutdown := hstep
  simp only [Daemon.step, Daemon.isOwn, if_true] at hshutdown
  obtain ⟨⟨batcher, found⟩, hbatcher, hrest⟩ :=
    Option.bind_eq_some_iff.mp hshutdown
  cases Batcher.move_of_step hbatcher with
  | shutdown =>
      simp only [Daemon.interrupt, Daemon.enqueueAll, Option.bind_some,
        Option.map_some, List.map_nil, Option.some.injEq, Prod.mk.injEq]
        at hrest
      obtain ⟨rfl, rfl⟩ := hrest
      exact ⟨rfl, hstep⟩

/-- The group goes on with the daemon as it is, or with its shutdown. -/
theorem Seen.regroup (h : Seen cfg fnmatchcase next s)
    (haborting : group.aborting = s.batcher.shutdown)
    (hkeeps : group.aborting = true → next.aborting = true) {state : State}
    (hregroup : regroup cfg fnmatchcase s group next = some state) :
    state.phase = .grouped next ∧ Seen cfg fnmatchcase next state.daemon ∧
      next.aborting = state.daemon.batcher.shutdown := by
  unfold Process.regroup at hregroup
  split at hregroup
  · rename_i hsame
    cases hregroup
    exact ⟨rfl, h, hsame.trans haborting⟩
  · rename_i hchanges
    obtain ⟨aborted, habort, rfl⟩ := Option.map_eq_some_iff.mp hregroup
    obtain ⟨hdown, hstep⟩ := step_of_abort habort
    refine ⟨rfl, h.of_step rfl hstep, ?_⟩
    rw [hdown]
    cases hgroup : group.aborting with
    | true => exact hkeeps hgroup
    | false => simpa [hgroup] using hchanges

theorem Seen.cancel (h : Seen cfg fnmatchcase group s) :
    Seen cfg fnmatchcase group.cancel s := by
  refine ⟨h.up, h.coherent.cancel, ?_, ?_, ?_⟩ <;>
    rw [Group.cancel_tasks]
  · exact h.worker
  · exact h.batcher
  · exact h.pipeline

/-- The group sees a task end. -/
theorem Seen.done (h : Seen cfg fnmatchcase group s) {child : Child}
    {error : Option String} (hended : hasEnded group.aborting s child error) :
    Seen cfg fnmatchcase (group.done child error) s := by
  have hgone : ∀ {other}, other ∉ (group.done child error).tasks →
      other ∉ group.tasks ∨ other = child := by
    intro other hother
    by_contra hleft
    push Not at hleft
    exact hother (Group.mem_done.mpr hleft)
  refine ⟨h.up, h.coherent.done, fun cdnName hkey hother => ?_,
    fun hother => ?_, fun hother => ?_⟩
  · rcases hgone hother with hleft | rfl
    · exact h.worker cdnName hkey hleft
    · simp only [hasEnded, Bool.and_eq_true, Bool.not_eq_true'] at hended
      exact hended.1
  · rcases hgone hother with hleft | rfl
    · exact h.batcher hleft
    · simp only [hasEnded, Bool.and_eq_true] at hended
      exact hended.1
  · rcases hgone hother with hleft | rfl
    · exact h.pipeline hleft
    · refine h.up.handed.idle fun target rest hbusy => ?_
      simp only [hasEnded, hbusy, Bool.and_eq_true] at hended
      exact hended.2

/-- All tasks of the group have ended. -/
theorem Seen.finished (h : Seen cfg fnmatchcase group s)
    (htasks : group.tasks = []) : Finished cfg fnmatchcase s := by
  have hnone : ∀ child, child ∉ group.tasks := by simp [htasks]
  have hended := h.batcher (hnone _)
  have hdown := h.up.draining.down fun hblocked => by
    simp [hblocked, Batcher.Point.isEnded] at hended
  have hleaving := h.up.leaving hdown
  have hlate : (s.batcher.point .run).isEarly = false := by
    cases hpoint : s.batcher.point .run with
    | ended => rfl
    | _ => simp [hpoint, Batcher.Point.isEnded] at hended
  have halone : Daemon.Alone s.batcher := by
    refine ⟨hlate, fun task htask => ?_⟩
    by_contra hlive
    obtain ⟨hongoing, hpresent⟩ := Daemon.live_iff.mp (by simpa using hlive)
    cases task with
    | submit call => exact hlive (h.pipeline (hnone _) call)
    | flushAll call => exact hpresent (hleaving.closing.uncalled call)
    | debounce cdn =>
        have hcdn := (hleaving.joint.keys.debounced cdn).mp hpresent
        simp [hleaving.closing.ended hlate cdn hcdn] at hongoing
    | run => exact htask rfl
  exact ⟨h.up, hleaving.closed halone hended, fun cdnName hkey =>
    h.worker cdnName hkey (hnone _)⟩

/-- The thread of the connection starts no task again. -/
theorem Finished.of_thread (h : Finished cfg fnmatchcase s)
    (hthread : isThread action)
    (hstep : Daemon.step cfg.daemon fnmatchcase cfg.watches s action =
      some (after, out)) : Finished cfg fnmatchcase after := by
  have hmove := Daemon.move_of_step h.up.joint.keys hstep
  have hbatcher : after.batcher = s.batcher := by
    cases hmove with
    | exec | queue => rfl
    | @commit call =>
        rcases Daemon.recordCommit_cases cfg.daemon s call with
          heq | ⟨task, -, hlock, -⟩
        · rw [heq]
        · simp [h.closed.free] at hlock
    | _ => cases hthread
  refine ⟨h.up.snoc hstep, ?_, fun cdnName hkey =>
    dead_of_reaches hmove.queue_run (h.workers cdnName hkey)⟩
  exact ⟨hbatcher ▸ h.closed.run, hbatcher ▸ h.closed.tasks,
    hbatcher ▸ h.closed.free, hbatcher ▸ h.closed.empty⟩

end Group

/-! ## Whole runs -/

section Runs

variable {cfg : Config} {dryRun : Bool}
variable {fnmatchcase : String → String → Bool}
variable {s after : State} {action : Action} {out : List Obs}
variable {daemon : Daemon.State}

theorem exists_queueStep {own : Queue.Action}
    (h : queueStep cfg s.daemon own = some daemon) :
    ∃ queue found, Queue.step cfg.daemon.retry s.daemon.queue own =
      some (queue, found) ∧ daemon = { s.daemon with queue := queue } := by
  obtain ⟨⟨queue, found⟩, hstep, rfl⟩ := Option.map_eq_some_iff.mp h
  exact ⟨queue, found, hstep, rfl⟩

/-- The table goes on with every step, over all processes. -/
theorem Orderly.snoc (h : Orderly cfg fnmatchcase s) {own : Queue.Action}
    {queue : Queue.State} {found : List Queue.Obs}
    (hstep : Queue.step cfg.daemon.retry s.daemon.queue own =
      some (queue, found)) : ∃ now trace,
    Reaches (Queue.step cfg.daemon.retry) (fun _ _ => True) (Queue.init now)
      trace queue := by
  obtain ⟨now, trace, hrun⟩ := h.table
  exact ⟨now, _, hrun.snoc trivial hstep⟩

theorem Orderly.of_daemon (h : Orderly cfg fnmatchcase s)
    (hup : Up cfg fnmatchcase s.daemon) {own : Daemon.Action}
    {found : List Daemon.Obs}
    (hstep : Daemon.step cfg.daemon fnmatchcase cfg.watches s.daemon own =
      some (daemon, found)) : ∃ now trace,
    Reaches (Queue.step cfg.daemon.retry) (fun _ _ => True) (Queue.init now)
      trace daemon.queue := by
  obtain ⟨now, trace, hrun⟩ := h.table
  have hmove := Daemon.move_of_step hup.joint.keys hstep
  exact ⟨now, _, hrun.trans (hmove.queue_run.mono fun _ _ _ => trivial)⟩

/-- A run of the daemon in its group is one of the process. -/
theorem reaches_of_daemon {group : Group Child String} {first : Daemon.State}
    {allowed : Daemon.State → Daemon.Action → Prop}
    {may : State → Action → Prop} {trace : List Daemon.Obs}
    (hgoes : ∀ {s own}, allowed s own →
      goesOn group.tasks own ∧ may ⟨.grouped group, s⟩ (.daemon own))
    (hrun : Reaches (Daemon.step cfg.daemon fnmatchcase cfg.watches) allowed
      first trace daemon) :
    Reaches (step cfg dryRun fnmatchcase) may ⟨.grouped group, first⟩
      (trace.map .daemon) ⟨.grouped group, daemon⟩ := by
  induction hrun with
  | refl => exact .refl
  | @snoc trace state after own out _ hallowed hstep ih =>
      obtain ⟨hgo, hmay⟩ := hgoes hallowed
      rw [List.map_append]
      refine ih.snoc hmay ?_
      simp only [step, hgo, if_true, hstep, Option.map_some]

/-- A new process. -/
theorem Orderly.launch (h : Orderly cfg fnmatchcase s) {now : ℚ}
    (hlaunch : launch cfg s.daemon now = some after) :
    Orderly cfg fnmatchcase after := by
  obtain ⟨crashed, hcrash, rfl⟩ := Option.map_eq_some_iff.mp hlaunch
  obtain ⟨queue, found, hstep, rfl⟩ := exists_queueStep hcrash
  refine ⟨h.snoc hstep, fun _ => ?_, by simp, by simp, by simp⟩
  simp only [Queue.step, Option.some.injEq, Prod.mk.injEq] at hstep
  obtain ⟨rfl, -⟩ := hstep
  exact ⟨⟨rfl, ⟨now, rfl⟩, fun _ => rfl⟩, rfl⟩

/-- A stage ends before the group, with the table as it is. -/
theorem Orderly.close (h : Orderly cfg fnmatchcase s) {phase : Phase}
    (hphase : ∃ how, phase = .closing how ∨ phase = .ended how)
    (hfinished : s.daemon.queue.phase = .running →
      Finished cfg fnmatchcase s.daemon) :
    Orderly cfg fnmatchcase ⟨phase, s.daemon⟩ := by
  obtain ⟨how, rfl | rfl⟩ := hphase
  all_goals exact ⟨h.table, by simp, by simp, by simp, fun _ => hfinished⟩

theorem Orderly.regroup (h : Orderly cfg fnmatchcase s)
    {group next : Group Child String}
    (hseen : Seen cfg fnmatchcase next s.daemon)
    (haborting : group.aborting = s.daemon.batcher.shutdown)
    (hkeeps : group.aborting = true → next.aborting = true)
    (hregroup : regroup cfg fnmatchcase s.daemon group next = some after) :
    Orderly cfg fnmatchcase after := by
  obtain ⟨hphase, hnext⟩ := hseen.regroup haborting hkeeps hregroup
  refine ⟨?_, by simp [hphase], by simp [hphase], fun hgrouped => ?_,
    by simp [hphase]⟩
  · unfold Process.regroup at hregroup
    split at hregroup
    · cases hregroup
      exact h.table
    · obtain ⟨aborted, habort, rfl⟩ := Option.map_eq_some_iff.mp hregroup
      exact h.of_daemon hseen.up (step_of_abort habort).2
  · cases hphase.symm.trans hgrouped
    exact hnext

/-- A step of the boot. -/
theorem Orderly.boot (h : Orderly cfg fnmatchcase s) {own : Queue.Action}
    (hfresh : Fresh s.daemon)
    (hown : own = .start ∨
      own = .boot ∧ s.daemon.queue.phase ≠ .resetCommitted)
    (hboot : queueStep cfg s.daemon own = some daemon) :
    Orderly cfg fnmatchcase ⟨.recovering, daemon⟩ := by
  obtain ⟨queue, found, hstep, rfl⟩ := exists_queueStep hboot
  refine ⟨h.snoc hstep, by simp, fun _ => ?_, by simp, by simp⟩
  have hmove := Queue.move_of_step hstep
  have hsame : queue.enqueuer = s.daemon.queue.enqueuer ∧
      queue.phase ≠ .running := by
    rcases hown with rfl | ⟨rfl, hphase⟩
    · simp only [Queue.step] at hstep
      split at hstep
      · cases hstep
        simp
      · cases hstep
    · simp only [Queue.step] at hstep
      split at hstep
      · cases hstep
        simp
      · cases hstep
        simp
      · cases hstep
        simp [Queue.State.commit]
      · exact absurd ‹_› hphase
      · cases hstep
  exact ⟨⟨hfresh.pipeline, hfresh.batcher, fun call => by
    rw [hsame.1, hfresh.free]⟩, hsame.2⟩

/-- The daemon with which the group is entered. -/
theorem starts_of_boot (h : Orderly cfg fnmatchcase s) (hfresh : Fresh s.daemon)
    {files : Publication.State} (hidle : files.watcher.idle)
    (hphase : s.daemon.queue.phase = .resetCommitted)
    (hboot : queueStep cfg s.daemon .boot = some daemon) :
    Starts cfg.daemon { daemon with files := files } ∧
      ∀ call, (daemon.queue.enqueuer call).point = .absent := by
  obtain ⟨queue, found, hstep, rfl⟩ := exists_queueStep hboot
  have hrunning : queue.phase = .running ∧
      queue.enqueuer = s.daemon.queue.enqueuer := by
    simp only [Queue.step, hphase, Option.some.injEq, Prod.mk.injEq] at hstep
    simp [← hstep.1]
  have hfree : ∀ call, (queue.enqueuer call).point = .absent := fun call => by
    rw [hrunning.2, hfresh.free]
  exact ⟨⟨hidle, hfresh.pipeline, hfresh.batcher, h.snoc hstep, hrunning.1,
    fun call _ => hfree call⟩, hfree⟩

theorem Orderly.group (h : Orderly cfg fnmatchcase s) (hfresh : Fresh s.daemon)
    {providers : Dict String Providers.Build.Provider}
    (hproviders : buildProviders cfg dryRun = .ok providers)
    {files : Publication.State} (hidle : files.watcher.idle)
    (hphase : s.daemon.queue.phase = .resetCommitted)
    (hboot : queueStep cfg s.daemon .boot = some daemon) :
    Orderly cfg fnmatchcase ⟨.grouped (Group.enter (children providers)),
      { daemon with files := files }⟩ := by
  obtain ⟨hstart, -⟩ := starts_of_boot h hfresh hidle hphase hboot
  refine ⟨hstart.queue, by simp, by simp, fun hgrouped => ?_, by simp⟩
  cases hgrouped
  refine ⟨⟨⟨_, [], hstart, .refl⟩, Group.coherent_enter _,
    fun cdnName hkey hgone => ?_, fun hgone => ?_, fun hgone => ?_⟩, ?_⟩
  · rw [← keys_of_buildProviders hproviders] at hkey
    simp [Group.enter, children, hkey] at hgone
  · simp [Group.enter, children] at hgone
  · simp [Group.enter, children] at hgone
  · obtain ⟨now, hbatcher⟩ : ∃ now, daemon.batcher = Batcher.init now :=
      hstart.batcher
    simp only [Group.enter, hbatcher, Batcher.init]

/-- The thread has nothing to do before the group. -/
theorem running_of_thread {own : Daemon.Action} {found : List Daemon.Obs}
    (hthread : isThread own)
    (hstep : Daemon.step cfg.daemon fnmatchcase cfg.watches s.daemon own =
      some (daemon, found)) : s.daemon.queue.phase = .running := by
  cases own with
  | exec call =>
      simp only [Daemon.step, Daemon.exec] at hstep
      obtain ⟨result, hqueue, -⟩ := Option.map_eq_some_iff.mp hstep
      exact (Queue.execEnqueue_cases hqueue).1
  | queue own =>
      cases own with
      | execWorker cdnName =>
          simp only [Daemon.step, Daemon.isWorker, if_true] at hstep
          obtain ⟨result, hqueue, -⟩ := Option.map_eq_some_iff.mp hstep
          simp only [Queue.step] at hqueue
          split at hqueue
          · assumption
          · cases hqueue
      | _ => cases hthread
  | _ => cases hthread

/-- Where the group has been entered, a stage ends with all tasks at rest. -/
theorem Orderly.finished (h : Orderly cfg fnmatchcase s) {how : RunEnd}
    (hcause : Cause s action out how)
    (hrunning : s.daemon.queue.phase = .running) :
    Finished cfg fnmatchcase s.daemon := by
  have hstage : s.phase = .opening ∨ s.phase = .recovering ∨
      (∃ how, s.phase = .closing how) → Finished cfg fnmatchcase s.daemon := by
    rintro (hphase | hphase | ⟨how, hphase⟩)
    · simp [(h.opening hphase).2] at hrunning
    · exact absurd hrunning (h.recovering hphase).2
    · exact h.closing (.inl hphase) hrunning
  cases hcause with
  | signalled hphase | failed hphase => exact hstage hphase
  | kept hphase => exact h.closing hphase hrunning
  | left hphase hexit =>
      obtain ⟨hseen, -⟩ := h.grouped hphase
      exact hseen.finished (Group.exit_cases hseen.coherent hexit).1

theorem Orderly.daemonStep (h : Orderly cfg fnmatchcase s)
    {group : Group Child String} {own : Daemon.Action}
    {found : List Daemon.Obs} (hphase : s.phase = .grouped group)
    (hgoes : goesOn group.tasks own)
    (hstep : Daemon.step cfg.daemon fnmatchcase cfg.watches s.daemon own =
      some (daemon, found)) :
    Orderly cfg fnmatchcase ⟨.grouped group, daemon⟩ := by
  obtain ⟨hseen, haborting⟩ := h.grouped hphase
  have hown : own ≠ .batcher .shutdown ∧
      (child? own).all (· ∈ group.tasks) := by
    unfold goesOn at hgoes
    split at hgoes
    · cases hgoes
    · exact ⟨‹_›, hgoes⟩
  refine ⟨h.of_daemon hseen.up hstep, by simp, by simp, fun hgrouped => ?_,
    by simp⟩
  cases hgrouped
  exact ⟨hseen.of_step hown.2 hstep,
    haborting.trans (shutdown_of_step hown.1 hseen.up hstep).symm⟩

theorem orderly_move (h : Orderly cfg fnmatchcase s)
    (hmove : Move cfg dryRun fnmatchcase s action after out) :
    Orderly cfg fnmatchcase after := by
  cases hmove with
  | launch hlaunch => exact h.launch hlaunch
  | close hphase hcause => exact h.close ⟨_, hphase⟩ (h.finished hcause)
  | boot hphase hboot =>
      rcases hphase with ⟨hopening, rfl⟩ | ⟨hrecovering, rfl, hreset⟩
      · exact h.boot (h.opening hopening).1 (.inl rfl) hboot
      · exact h.boot (h.recovering hrecovering).1 (.inr ⟨rfl, hreset⟩) hboot
  | enter hphase hreset hproviders hidle hboot =>
      exact h.group (h.recovering hphase).1 hproviders hidle hreset hboot
  | cancel hphase hregroup =>
      obtain ⟨hseen, haborting⟩ := h.grouped hphase
      exact h.regroup hseen.cancel haborting (by simp) hregroup
  | done hphase hended hregroup =>
      obtain ⟨hseen, haborting⟩ := h.grouped hphase
      exact h.regroup (hseen.done hended) haborting
        (by simp +contextual [Group.done]) hregroup
  | daemon hphase hgoes hstep => exact h.daemonStep hphase hgoes hstep
  | thread hphase hthread hstep =>
      have hfinished :=
        h.closing (.inl hphase) (running_of_thread hthread hstep)
      exact ⟨h.of_daemon hfinished.up hstep, by simp, by simp, by simp,
        fun _ _ => hfinished.of_thread hthread hstep⟩

theorem orderly_step (h : Orderly cfg fnmatchcase s)
    (hstep : step cfg dryRun fnmatchcase s action = some (after, out)) :
    Orderly cfg fnmatchcase after :=
  orderly_move h (move_of_step hstep)

theorem orderly_init (files : Publication.State) (now now' : ℚ) :
    Orderly cfg fnmatchcase (init files now now') where
  table := ⟨now', [], .refl⟩
  opening := fun _ => ⟨⟨rfl, ⟨now, rfl⟩, fun _ => rfl⟩, rfl⟩
  recovering := by simp [init]
  grouped := by simp [init]
  closing := by simp [init]

theorem orderly_of_reaches {files : Publication.State} {now now' : ℚ}
    {allowed : State → Action → Prop} {trace : List Obs}
    (hrun : Reaches (step cfg dryRun fnmatchcase) allowed
      (init files now now') trace s) : Orderly cfg fnmatchcase s :=
  hrun.invariant (fun _ s => Orderly cfg fnmatchcase s)
    (orderly_init files now now') fun horderly _ hstep =>
      orderly_step horderly hstep

end Runs

/-- Whatever signals there are, over any number of processes, and whatever stages
and tasks raise, but for an `enqueue`: when `daemon.run` closes the queue after
its task group, every worker and every task of the batcher has ended, and no URL
is left in a buffer. -/
theorem queue_is_closed_at_rest {cfg : Config} {dryRun : Bool}
    {fnmatchcase : String → String → Bool} {files : Publication.State}
    {now now' : ℚ} {trace : List Obs} {s : State} {how : RunEnd}
    (hrun : Reaches (step cfg dryRun fnmatchcase) (fun _ _ => True)
      (init files now now') trace s)
    (hclosing : s.phase = .closing how ∨ s.phase = .ended how)
    (hgroup : s.daemon.queue.phase = .running) :
    Closed s.daemon ∧ ∀ cdnName ∈ cfg.cdns.keys,
      (s.daemon.queue.worker cdnName).alive = false := by
  have hfinished := (orderly_of_reaches hrun).closing hclosing hgroup
  exact ⟨hfinished.closed, hfinished.workers⟩

/-- One CDN and one watch. -/
def sampleConfig : Config where
  cdns := Dict.empty.set "fastly" (.fastly { serviceId := "S" })
  watches := [firstWatch]

/-- The steps of a start. -/
def sampleBoot : List Action :=
  [.opened, .boot, .boot, .boot, .enter (.watching Publication.sampleStart)]

/-- The steps of a shutdown without anything to store. -/
def sampleShutdown : List Action :=
  [.daemon (.batcher (.deliver .run)), .daemon (.batcher .gathered),
    .daemon (.batcher (.acquire .run)),
    .daemon (.queue (.killWorker "fastly")),
    .done (.worker "fastly") none, .done .batcher none, .done .pipeline none,
    .leave]

/-- Two signals arrive, the second one during the shutdown. -/
theorem queue_is_closed_at_rest_sample : ∃ trace s,
    Reaches (step sampleConfig true fun _ _ => false) (fun _ _ => True)
      (init Publication.sampleStart 0 0) trace s ∧
    s.phase = .closing .cancelled ∧ Closed s.daemon := by
  obtain ⟨trace, s, hrun, hview⟩ := exists_reaches_of_execute
    (step sampleConfig true fun _ _ => false)
    (init Publication.sampleStart 0 0) (fun _ _ => True)
    (fun final => (final.1.phase, final.1.daemon.queue.phase))
    (.closing .cancelled, .running)
    (sampleBoot ++ .signal :: .signal :: sampleShutdown) (by decide +kernel)
  obtain ⟨hphase, hgroup⟩ := Prod.ext_iff.mp hview
  exact ⟨trace, s, hrun, hphase,
    (queue_is_closed_at_rest hrun (.inl hphase) hgroup).1⟩

end MirrorMirage.Process
