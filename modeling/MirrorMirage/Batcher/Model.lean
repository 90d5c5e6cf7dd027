import Mathlib.Algebra.Order.Ring.Rat
import Mathlib.Logic.Function.Basic
import MirrorMirage.Core.Run
import MirrorMirage.Mapper

/-!
# The batcher as a machine of asyncio tasks

`batcher.py`, one action for each piece of code that the event loop runs
without suspending: a task moves from one await to the next.  The awaits are
the lock, `wake.wait()`, the timed wait of the debounce loop and
`queue.enqueue`.  Code between two awaits takes no time; the clock moves by
`tick` only.  A lock that is free may be taken by any task that waits for it,
in whatever order they came, and a timed wait may end at any moment.

The tasks are the `submit` calls, the `flush_all` calls, one `_debounce_loop`
for each CDN and the coordinator `run`, whose cancellation is the shutdown of
the daemon.
-/

namespace MirrorMirage.Batcher

open Function (update)

inductive Task where
  | submit (call : ℕ)
  | flushAll (call : ℕ)
  | debounce (cdn : String)
  | run
  deriving DecidableEq, Repr

/-- How a task ended. -/
inductive Outcome where
  | returned
  | raised
  | cancelled
  deriving DecidableEq, Repr

/-- Where a task is suspended.  A task at `enqueueing` holds the lock; `rest`
lists the buffers that `flush_all` has yet to visit, and `committed` says that
the row of the batch is in the database. -/
inductive Point where
  | absent
  | submitLock (target : PurgeTarget)
  | flushAllLock
  | wakeWait
  | recheckLock
  | timedWait (deadline : ℚ)
  | flushLock
  | enqueueing (cdn : String) (urls : List String) (committed : Bool)
      (rest : List String)
  | blocked
  | gathering
  | ended (outcome : Outcome)
  deriving DecidableEq, Repr

def Point.isEnded : Point → Bool
  | .ended _ => true
  | _ => false

/-- A batch that has left its buffer and is not in the database yet. -/
def Point.isUncommitted : Point → Bool
  | .enqueueing _ _ false _ => true
  | _ => false

/-- The dictionaries of the batcher share their keys `cdns`, in the order of
insertion.  A buffer, a `set` in the code, is a list without repetitions. -/
structure State where
  now : ℚ
  cdns : List String
  buffers : String → List String
  firstAdded : String → Option ℚ
  lastAdded : String → Option ℚ
  wake : String → Bool
  lock : Option Task
  point : Task → Point
  cancelling : Task → Bool
  shutdown : Bool

/-- The batcher before its first submit, with `run` blocked. -/
def init (now : ℚ) : State where
  now := now
  cdns := []
  buffers := fun _ => []
  firstAdded := fun _ => none
  lastAdded := fun _ => none
  wake := fun _ => false
  lock := none
  point := fun task => if task = .run then .blocked else .absent
  cancelling := fun _ => false
  shutdown := false

inductive Obs where
  /-- `submit` has added the URL to the buffer. -/
  | added (cdn url : String) (time : ℚ)
  /-- `queue.enqueue(cdn, urls)` has been called. -/
  | enqueued (cdn : String) (urls : List String) (time : ℚ)
  /-- The row of an `enqueue(cdn, urls)` has been committed. -/
  | committed (cdn : String) (urls : List String)
  deriving DecidableEq, Repr

def Obs.Adds (cdn url : String) : Obs → Prop
  | .added cdn' url' _ => cdn' = cdn ∧ url' = url
  | _ => False

def Obs.Takes (cdn url : String) : Obs → Prop
  | .enqueued cdn' urls _ => cdn' = cdn ∧ url ∈ urls
  | _ => False

def Obs.Commits (cdn url : String) : Obs → Prop
  | .committed cdn' urls => cdn' = cdn ∧ url ∈ urls
  | _ => False

inductive Action where
  /-- The clock advances. -/
  | tick (time : ℚ)
  /-- A `submit(target)` call reaches the lock. -/
  | submit (call : ℕ) (target : PurgeTarget)
  /-- A `flush_all()` call reaches the lock. -/
  | flushAll (call : ℕ)
  /-- The task gets the lock it waits for and runs to its next await. -/
  | acquire (task : Task)
  /-- The wait of the debounce task on its event returns. -/
  | wake (cdn : String)
  /-- The timed wait of the debounce task raises `TimeoutError`. -/
  | timeout (cdn : String)
  /-- The row of the task's `enqueue` is committed. -/
  | commit (task : Task)
  | enqueueReturn (task : Task)
  | enqueueRaise (task : Task)
  /-- Someone calls `cancel()` on a task other than `run`. -/
  | cancel (task : Task)
  /-- The daemon is cancelled: its task group cancels `run` and the pipeline. -/
  | shutdown
  /-- The `CancelledError` is thrown into the task. -/
  | deliver (task : Task)
  /-- The `gather` of the debounce tasks returns. -/
  | gathered
  deriving DecidableEq, Repr

def State.goto (s : State) (task : Task) (point : Point) : State :=
  { s with point := update s.point task point }

/-- The task leaves the `async with self._lock` block for `point`. -/
def State.leave (s : State) (task : Task) (point : Point) : State :=
  { s with lock := none, point := update s.point task point }

/-- What a task awaits once its flushes are done: the debounce loop breaks to
the outer wait, the other calls return, and `run` raises the `CancelledError`
that it caught. -/
def afterFlush : Task → Point
  | .debounce _ => .wakeWait
  | .run => .ended .cancelled
  | _ => .ended .returned

/-- What a task comes to when its `enqueue` raises; `run` logs the error. -/
def afterRaise : Task → Point
  | .run => .ended .cancelled
  | _ => .ended .raised

/-- The branch of `submit` for a CDN that is not in `_buffers`. -/
def openBuffer (s : State) (cdn : String) : State :=
  if cdn ∈ s.cdns then s
  else
    { s with
      cdns := s.cdns ++ [cdn]
      buffers := update s.buffers cdn []
      wake := update s.wake cdn false
      point := update s.point (.debounce cdn) .wakeWait }

/-- The body of `submit` up to its size check. -/
def addTarget (s : State) (target : PurgeTarget) : State :=
  let buf := s.buffers target.cdnName
  { s with
    firstAdded :=
      if buf = [] then update s.firstAdded target.cdnName (some s.now)
      else s.firstAdded
    buffers := update s.buffers target.cdnName
      (if target.url ∈ buf then buf else buf ++ [target.url])
    lastAdded := update s.lastAdded target.cdnName (some s.now)
    wake := update s.wake target.cdnName true }

/-- `_flush_locked` on a non-empty buffer, up to the await of `enqueue`. -/
def takeBuffer (s : State) (task : Task) (cdn : String) (rest : List String) :
    State :=
  { s with
    buffers := update s.buffers cdn []
    firstAdded := update s.firstAdded cdn none
    lastAdded := update s.lastAdded cdn none
    lock := some task
    point := update s.point task (.enqueueing cdn (s.buffers cdn) false rest) }

/-- The `_flush_locked` calls of `task` on the listed buffers, up to its next
await: the first buffer that is not empty, or what follows the last one. -/
def flushLocked (s : State) (task : Task) : List String → State × List Obs
  | [] => (s.leave task (afterFlush task), [])
  | cdn :: rest =>
      if s.buffers cdn = [] then flushLocked s task rest
      else (takeBuffer s task cdn rest,
        [.enqueued cdn (s.buffers cdn) s.now])

/-- The inner loop of `_debounce_loop` with the lock in hand.  The reads of
`_last_added` and `_first_added` raise `KeyError` when the key is missing. -/
def recheck (cfg : DaemonConfig) (s : State) (cdn : String) : State :=
  if s.buffers cdn = [] then s.goto (.debounce cdn) .wakeWait
  else
    match s.lastAdded cdn, s.firstAdded cdn with
    | some last, some first =>
        let quietAt := last + cfg.batchQuietWindowSeconds
        let ageAt := first + cfg.batchMaxAgeSeconds
        let wait := min quietAt ageAt - s.now
        if wait ≤ 0 then s.goto (.debounce cdn) .flushLock
        else s.goto (.debounce cdn) (.timedWait (s.now + wait))
    | _, _ => s.goto (.debounce cdn) (.ended .raised)

/-- What `task` does once it holds the lock it was waiting for. -/
def acquire (cfg : DaemonConfig) (s : State) (task : Task) :
    Option (State × List Obs) :=
  match task, s.point task with
  | .submit _, .submitLock target =>
      let s' := addTarget (openBuffer s target.cdnName) target
      let flushed := flushLocked s' task
        (if cfg.batchMaxSize ≤ (s'.buffers target.cdnName).length
          then [target.cdnName] else [])
      some (flushed.1,
        .added target.cdnName target.url s.now :: flushed.2)
  | .debounce cdn, .recheckLock => some (recheck cfg s cdn, [])
  | .debounce cdn, .flushLock => some (flushLocked s task [cdn])
  | _, .flushAllLock => some (flushLocked s task s.cdns)
  | _, _ => none

/-- The effect of a `CancelledError` on the task it is thrown into: `run`
cancels the debounce tasks and waits for them, every other task ends and
releases the lock if it holds it. -/
def deliver (s : State) (task : Task) : Option State :=
  match task, s.point task with
  | _, .absent => none
  | _, .ended _ => none
  | .run, .blocked =>
      some { s with
        cancelling := fun other => match other with
          | .debounce cdn => cdn ∈ s.cdns || s.cancelling other
          | .run => false
          | _ => s.cancelling other
        point := update s.point .run .gathering }
  | .run, _ => none
  | _, _ => some { s with
      lock := if s.lock = some task then none else s.lock
      point := update s.point task (.ended .cancelled) }

def step (cfg : DaemonConfig) (s : State) :
    Action → Option (State × List Obs)
  | .tick time => if s.now ≤ time then some ({ s with now := time }, [])
      else none
  | .submit call target =>
      if s.point (.submit call) = .absent ∧ s.shutdown = false then
        some (s.goto (.submit call) (.submitLock target), [])
      else none
  | .flushAll call =>
      if s.point (.flushAll call) = .absent then
        some (s.goto (.flushAll call) .flushAllLock, [])
      else none
  | .acquire task =>
      if s.lock = none ∧ s.cancelling task = false then acquire cfg s task
      else none
  | .wake cdn =>
      if s.wake cdn = true ∧ s.cancelling (.debounce cdn) = false then
        match s.point (.debounce cdn) with
        | .wakeWait | .timedWait _ =>
            some ({ s.goto (.debounce cdn) .recheckLock with
              wake := update s.wake cdn false }, [])
        | _ => none
      else none
  | .timeout cdn =>
      match s.point (.debounce cdn) with
      | .timedWait _ =>
          if s.cancelling (.debounce cdn) = false then
            some (s.goto (.debounce cdn) .flushLock, [])
          else none
      | _ => none
  | .commit task =>
      match s.point task with
      | .enqueueing cdn urls false rest =>
          if s.cancelling task = false then
            some (s.goto task (.enqueueing cdn urls true rest),
              [.committed cdn urls])
          else none
      | _ => none
  | .enqueueReturn task =>
      match s.point task with
      | .enqueueing _ _ true rest =>
          if s.cancelling task = false then some (flushLocked s task rest)
          else none
      | _ => none
  | .enqueueRaise task =>
      match s.point task with
      | .enqueueing _ _ false _ =>
          if s.cancelling task = false then
            some (s.leave task (afterRaise task), [])
          else none
      | _ => none
  | .cancel task =>
      if task ≠ .run then
        some ({ s with cancelling := update s.cancelling task true }, [])
      else none
  | .shutdown =>
      if s.shutdown = false ∧ s.point .run = .blocked then
        some ({ s with
          shutdown := true
          cancelling := fun task => match task with
            | .run | .submit _ => true
            | _ => s.cancelling task }, [])
      else none
  | .deliver task =>
      if s.cancelling task = true then (deliver s task).map (·, [])
      else none
  | .gathered =>
      if s.point .run = .gathering ∧
          ∀ cdn ∈ s.cdns, (s.point (.debounce cdn)).isEnded then
        some (s.goto .run .flushAllLock, [])
      else none

/-- Nothing fails and nobody is cancelled. -/
def Action.isSmooth : Action → Bool
  | .enqueueRaise _ | .cancel _ | .shutdown | .deliver _ => false
  | _ => true

end MirrorMirage.Batcher
