import MirrorMirage.Core.TaskGroup
import MirrorMirage.Daemon.Model
import MirrorMirage.Diagnostics
import MirrorMirage.Providers.Build

/-!
# The process

`daemon.run` from its first await to its last, under `_run` and `main` of
`__main__.py`: it opens the queue and recovers it, builds the providers, enters
the watcher and the task group, waits for the group, and closes the queue
whatever has happened.  While the group is there, its tasks are the machine of
`Daemon`.  A signal cancels `daemon.run` wherever it is.

The process may be killed at any moment.  A new one finds the table that the
last commit has left.
-/

namespace MirrorMirage.Process

open MirrorMirage.Loader (DaemonEnd)
open MirrorMirage.Providers.Build (Provider buildProviders)
open MirrorMirage.TaskGroup (Exit Group)

/-- The tasks of the group. -/
inductive Child where
  | worker (cdnName : String)
  | batcher
  | pipeline
  deriving DecidableEq, Repr

/-- How `daemon.run` ends. -/
inductive RunEnd where
  | returned
  | cancelled
  | inotifyLimitError (text : String)
  | otherError (text : String)
  deriving DecidableEq, Repr

/-- Where `daemon.run` is; in `closing` it awaits `queue.close()` with what it
will end with. -/
inductive Phase where
  | opening
  | recovering
  | grouped (group : Group Child String)
  | closing (how : RunEnd)
  | ended (how : RunEnd)
  deriving DecidableEq, Repr

structure State where
  phase : Phase
  daemon : Daemon.State

/-- A first process on an empty table. -/
def init (files : Publication.State) (now now' : ℚ) : State where
  phase := .opening
  daemon := {
    files := files
    pipeline := .reading
    submitCall := 0
    batcher := Batcher.init now
    enqueueCall := 0
    queue := Queue.init now' }

inductive Obs where
  | signalled
  /-- A stage of `daemon.run` or a task of the group has raised. -/
  | failed (text : String)
  | daemon (obs : Daemon.Obs)
  /-- `queue.close()` has been called. -/
  | closes
  deriving DecidableEq, Repr

/-- How the `__aenter__` of the watcher ends. -/
inductive Entered where
  | watching (files : Publication.State)
  | inotifyLimitError (text : String)
  | otherError (text : String)

inductive Action where
  /-- The process, if there is one, has ended or is killed, and a new one is
  started. -/
  | launch (now : ℚ)
  /-- A signal runs `task.cancel`. -/
  | signal
  /-- `PersistentQueue.open` returns. -/
  | opened
  /-- `reset_in_flight` goes on. -/
  | boot
  /-- `reset_in_flight` returns, and the watcher is entered. -/
  | enter (entered : Entered)
  /-- What `daemon.run` awaits on the queue raises. -/
  | fail (text : String)
  | daemon (action : Daemon.Action)
  /-- The group sees that a task has ended. -/
  | done (child : Child) (error : Option String)
  /-- The wait for the group is over, and the watcher is left. -/
  | leave
  | closed

/-- The tasks that `daemon.run` creates. -/
def children (providers : Dict String Provider) : List Child :=
  providers.keys.map .worker ++ [.batcher, .pipeline]

/-- The task that takes the step; the tasks of the batcher are told apart by
the batcher. -/
def child? : Daemon.Action → Option Child
  | .read | .submitted => some .pipeline
  | .queue (.resumeWorker cdnName) | .queue (.purgeEnd cdnName _) |
    .queue (.killWorker cdnName) => some (.worker cdnName)
  | _ => none

/-- A task that has been seen to end takes no step, and the group alone cancels
its tasks. -/
def goesOn (tasks : List Child) : Daemon.Action → Bool
  | .batcher .shutdown => false
  | action => (child? action).all (· ∈ tasks)

/-- The thread of the connection goes on while the connection is closed. -/
def isThread : Daemon.Action → Bool
  | .exec _ | .queue (.execWorker _) => true
  | _ => false

/-- The task has ended with the error, if there is one, else by its
cancellation.  The iterator of the watcher may raise in `_pipeline`; a `submit`
raises only what `enqueue` does, which does not raise here. -/
def hasEnded (aborting : Bool) (s : Daemon.State) :
    Child → Option String → Bool
  | .worker cdnName, error =>
      !(s.queue.worker cdnName).alive && (aborting || error.isSome)
  | .batcher, error => (s.batcher.point .run).isEnded && error.isNone
  | .pipeline, error =>
      match s.pipeline with
      | .reading => aborting || error.isSome
      | .submitting _ _ => aborting && error.isNone &&
          (s.batcher.point (.submit s.submitCall)).isEnded
      | .ended => error.isSome

/-- What `daemon.run` goes on to raise after the group. -/
def ofExit : Exit String → RunEnd
  | .returned => .returned
  | .cancelled => .cancelled
  | .failed errors => .otherError
      ("unhandled errors in a TaskGroup (" ++ toString errors.length ++
        (if errors.length = 1 then " sub-exception)" else " sub-exceptions)"))

/-- What `asyncio.run` gets from `_run`, which suppresses a
`CancelledError`. -/
def suppress : RunEnd → DaemonEnd
  | .returned | .cancelled => .returned
  | .inotifyLimitError text => .inotifyLimitError text
  | .otherError text => .otherError text

section Machine

variable (cfg : Config) (dryRun : Bool)
variable (fnmatchcase : String → String → Bool)

/-- The queue of the daemon takes a step of its own. -/
def queueStep (s : Daemon.State) (action : Queue.Action) :
    Option Daemon.State :=
  (Queue.step cfg.daemon.retry s.queue action).map fun result =>
    { s with queue := result.1 }

/-- A new process: the files and the table are what is left. -/
def launch (s : Daemon.State) (now : ℚ) : Option State :=
  (queueStep cfg s .crash).map fun crashed =>
    { phase := .opening
      daemon := { crashed with
        pipeline := .reading
        submitCall := 0
        batcher := Batcher.init now
        enqueueCall := 0 } }

/-- The group cancels its tasks; to the workers the cancellation comes with
`killWorker`. -/
def abort (s : Daemon.State) : Option Daemon.State :=
  (Daemon.step cfg.daemon fnmatchcase cfg.watches s (.batcher .shutdown)).map
    (·.1)

/-- The group moves on, and cancels its tasks if it has not yet. -/
def regroup (s : Daemon.State) (group next : Group Child String) :
    Option State :=
  if next.aborting = group.aborting then some ⟨.grouped next, s⟩
  else (abort cfg fnmatchcase s).map fun aborted => ⟨.grouped next, aborted⟩

/-- From the return of `reset_in_flight` to the wait for the group. -/
def enter (s : Daemon.State) (entered : Entered) : Option (State × List Obs) :=
  match buildProviders cfg dryRun with
  | .error text => some (⟨.closing (.otherError text), s⟩,
      [.failed text, .closes])
  | .ok providers =>
      match entered with
      | .inotifyLimitError text =>
          some (⟨.closing (.inotifyLimitError text), s⟩,
            [.failed text, .closes])
      | .otherError text =>
          some (⟨.closing (.otherError text), s⟩, [.failed text, .closes])
      | .watching files =>
          if files.watcher.idle then
            (queueStep cfg s .boot).map fun running =>
              (⟨.grouped (Group.enter (children providers)),
                { running with files := files }⟩, [])
          else none

def step (s : State) : Action → Option (State × List Obs)
  | .launch now => (launch cfg s.daemon now).map (·, [])
  | .signal =>
      match s.phase with
      | .opening => some (⟨.ended .cancelled, s.daemon⟩, [.signalled])
      | .recovering => some (⟨.closing .cancelled, s.daemon⟩,
          [.signalled, .closes])
      | .grouped group =>
          (regroup cfg fnmatchcase s.daemon group group.cancel).map
            (·, [.signalled])
      | .closing _ => some (⟨.ended .cancelled, s.daemon⟩, [.signalled])
      | .ended how => some (⟨.ended how, s.daemon⟩, [.signalled])
  | .opened =>
      if s.phase = .opening then
        (queueStep cfg s.daemon .start).map fun daemon =>
          (⟨.recovering, daemon⟩, [])
      else none
  | .boot =>
      if s.phase = .recovering ∧ s.daemon.queue.phase ≠ .resetCommitted then
        (queueStep cfg s.daemon .boot).map fun daemon =>
          (⟨.recovering, daemon⟩, [])
      else none
  | .enter entered =>
      if s.phase = .recovering ∧ s.daemon.queue.phase = .resetCommitted then
        enter cfg dryRun s.daemon entered
      else none
  | .fail text =>
      match s.phase with
      | .opening => some (⟨.ended (.otherError text), s.daemon⟩,
          [.failed text])
      | .recovering => some (⟨.closing (.otherError text), s.daemon⟩,
          [.failed text, .closes])
      | .closing _ => some (⟨.ended (.otherError text), s.daemon⟩,
          [.failed text])
      | _ => none
  | .daemon action =>
      let next := Daemon.step cfg.daemon fnmatchcase cfg.watches s.daemon action
      match s.phase with
      | .grouped group =>
          if goesOn group.tasks action then
            next.map fun result =>
              (⟨.grouped group, result.1⟩, result.2.map .daemon)
          else none
      | .closing how =>
          if isThread action then
            next.map fun result =>
              (⟨.closing how, result.1⟩, result.2.map .daemon)
          else none
      | _ => none
  | .done child error =>
      match s.phase with
      | .grouped group =>
          if child ∈ group.tasks ∧
              hasEnded group.aborting s.daemon child error then
            (regroup cfg fnmatchcase s.daemon group
              (group.done child error)).map
                (·, error.toList.map .failed)
          else none
      | _ => none
  | .leave =>
      match s.phase with
      | .grouped group =>
          group.exit?.map fun exit =>
            (⟨.closing (ofExit exit), s.daemon⟩, [.closes])
      | _ => none
  | .closed =>
      match s.phase with
      | .closing how => some (⟨.ended how, s.daemon⟩, [])
      | _ => none

end Machine

end MirrorMirage.Process
