import MirrorMirage.Batcher.Model
import MirrorMirage.Publication
import MirrorMirage.Queue.Model

/-!
# The daemon

`daemon.run` while its task group runs, as one machine.  The files, the watcher,
the filter and the mapper are those of `Publication`, the batcher and the queue
with its workers those of `Batcher` and `Queue`.  `_pipeline` hands the targets
of an event to `submit` one after the other, and the `enqueue` that a task of
the batcher awaits is the call of the queue.

The directories stay as they are.  The event loop and the table have a clock
each, which need not agree.  An `enqueue` fails by being cancelled only.
-/

namespace MirrorMirage.Daemon

/-- Where `_pipeline` is. -/
inductive Pipeline where
  /-- In the `async for`. -/
  | reading
  /-- In `batcher.submit(target)`, with the rest of the targets to come. -/
  | submitting (target : PurgeTarget) (rest : List PurgeTarget)
  /-- `Mapper.map` has raised. -/
  | ended
  deriving DecidableEq, Repr

/-- The last calls of `submit` and of `enqueue` have the numbers `submitCall`
and `enqueueCall`. -/
structure State where
  files : Publication.State
  pipeline : Pipeline
  submitCall : ℕ
  batcher : Batcher.State
  enqueueCall : ℕ
  queue : Queue.State

inductive Obs where
  | files (obs : Publication.Obs)
  | batcher (obs : Batcher.Obs)
  | queue (obs : Queue.Obs)
  /-- The commit of an `enqueue(cdn, urls)` has made the row durable. -/
  | stored (id : ℕ) (cdn : String) (urls : List String)
  deriving DecidableEq, Repr

inductive Action where
  /-- A file operation, or the kernel merges two events. -/
  | files (action : Publication.Action)
  /-- `_pipeline` takes the next event. -/
  | read
  /-- `submit` has returned to `_pipeline`. -/
  | submitted
  /-- The clock of the event loop, a task of the batcher, or the shutdown. -/
  | batcher (action : Batcher.Action)
  /-- The thread of the connection comes to what an `enqueue` has posted. -/
  | exec (call : ℕ)
  /-- The task of the batcher goes on in its `enqueue`, or after it. -/
  | resume
  /-- The clock of the table, or a worker. -/
  | queue (action : Queue.Action)

/-- What a task of the batcher does but for its `enqueue` calls. -/
def isOwn : Batcher.Action → Bool
  | .tick _ | .acquire _ | .wake _ | .timeout _ | .shutdown | .deliver _ |
    .gathered => true
  | _ => false

def isWorker : Queue.Action → Bool
  | .tick _ | .execWorker _ | .resumeWorker _ | .purgeEnd _ _ |
    .killWorker _ => true
  | _ => false

section Machine

variable (cfg : DaemonConfig)

/-- The targets of the events that the filter has let through. -/
def targets (out : List Publication.Obs) : List PurgeTarget :=
  out.flatMap fun obs => match obs with
    | .submitted _ targets => targets
    | _ => []

/-- The inner loop of `_pipeline` up to the await of the next `submit`. -/
def submitNext (s : State) : List PurgeTarget → Option State
  | [] => some { s with pipeline := .reading }
  | target :: rest =>
      (Batcher.step cfg s.batcher (.submit (s.submitCall + 1) target)).map
        fun result => { s with
          pipeline := .submitting target rest
          submitCall := s.submitCall + 1
          batcher := result.1 }

/-- The `enqueue` calls that a task of the batcher has made. -/
def enqueueAll (s : State) : List Batcher.Obs → Option State
  | [] => some s
  | .enqueued cdn urls _ :: rest =>
      (Queue.step cfg.retry s.queue
        (.enqueue (s.enqueueCall + 1) cdn urls)).bind fun result =>
          enqueueAll { s with
            queue := result.1
            enqueueCall := s.enqueueCall + 1 } rest
  | _ :: rest => enqueueAll s rest

/-- A `CancelledError` that is thrown into a task ends its `enqueue`. -/
def interrupt (s : State) : Batcher.Action → Option Queue.State
  | .deliver task =>
      match s.batcher.point task with
      | .enqueueing _ _ _ _ =>
          (Queue.step cfg.retry s.queue (.killEnqueue s.enqueueCall)).map (·.1)
      | _ => some s.queue
  | _ => some s.queue

/-- The task that awaits the commit knows its row to be in the database, unless
it is being cancelled. -/
def recordCommit (s : State) (call : ℕ) : Batcher.State × List Batcher.Obs :=
  if call = s.enqueueCall then
    match s.batcher.lock.bind fun task =>
        Batcher.step cfg s.batcher (.commit task) with
    | some result => result
    | none => (s.batcher, [])
  else (s.batcher, [])

/-- What is stored under the key. -/
def storedRow (db : Queue.Db) (id : ℕ) : List Obs :=
  match db.row id with
  | some row => [.stored id row.cdnName row.urls]
  | none => []

def exec (s : State) (call : ℕ) : Option (State × List Obs) :=
  (Queue.step cfg.retry s.queue (.execEnqueue call)).map fun result =>
    match (s.queue.enqueuer call).point with
    | .committing id =>
        let commit := recordCommit cfg s call
        ({ s with
          queue := result.1
          batcher := commit.1 },
          result.2.map .queue ++ storedRow s.queue.work id ++
            commit.2.map .batcher)
    | _ => ({ s with queue := result.1 }, result.2.map .queue)

/-- The task of the batcher that holds the lock is the one in `enqueue`. -/
def resume (s : State) : Option (State × List Obs) :=
  match s.batcher.lock with
  | none => none
  | some task =>
      if s.batcher.cancelling task then none
      else
        (Queue.step cfg.retry s.queue (.resumeEnqueue s.enqueueCall)).bind
          fun result =>
            match (s.queue.enqueuer s.enqueueCall).point with
            | .committed _ =>
                (Batcher.step cfg s.batcher (.enqueueReturn task)).bind
                  fun returned =>
                    (enqueueAll cfg { s with
                      queue := result.1
                      batcher := returned.1 } returned.2).map
                        (·, returned.2.map .batcher)
            | _ => some ({ s with queue := result.1 }, [])

variable (fnmatchcase : String → String → Bool) (watches : List WatchConfig)

def step (s : State) : Action → Option (State × List Obs)
  | .files action =>
      if action = .take then none
      else (Publication.step fnmatchcase watches s.files action).map
        fun result => ({ s with files := result.1 }, result.2.map .files)
  | .read =>
      if s.pipeline = .reading ∧ s.batcher.shutdown = false then
        (Publication.step fnmatchcase watches s.files .take).bind
          fun result =>
            let taken := { s with files := result.1 }
            (if .raised ∈ result.2 then some { taken with pipeline := .ended }
              else submitNext cfg taken (targets result.2)).map
                (·, result.2.map .files)
      else none
  | .submitted =>
      match s.pipeline with
      | .submitting _ rest =>
          if s.batcher.point (.submit s.submitCall) = .ended .returned then
            (submitNext cfg s rest).map (·, [])
          else none
      | _ => none
  | .batcher action =>
      if isOwn action then
        (Batcher.step cfg s.batcher action).bind fun result =>
          (interrupt cfg s action).bind fun queue =>
            (enqueueAll cfg { s with
              batcher := result.1
              queue := queue } result.2).map (·, result.2.map .batcher)
      else none
  | .exec call => exec cfg s call
  | .resume => resume cfg s
  | .queue action =>
      if isWorker action then
        (Queue.step cfg.retry s.queue action).map fun result =>
          ({ s with queue := result.1 }, result.2.map .queue)
      else none

end Machine

end MirrorMirage.Daemon
