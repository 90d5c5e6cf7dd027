import Mathlib.Logic.Function.Basic
import MirrorMirage.Core.Run
import MirrorMirage.Worker

/-!
# The persistent queue and its workers as a machine

`queue.py` over the shared SQLite connection, and `_queue_worker` of
`daemon.py`.  A statement or a commit is posted to the thread of the
connection when its task suspends (`resume`), takes effect on the database
when the thread comes to it (`exec`), and the task goes on some time later.
`work` is the database as the connection sees it, `committed` what a crash
leaves of it; a commit, whoever asked for it, copies the one to the other.

A task may die at any await, by cancellation or by an exception.  What it has
posted still takes effect.  A crash ends the process at any moment; then the
daemon is started again and resets the rows in flight before any worker runs.
-/

namespace MirrorMirage.Queue

open Function (update)
open MirrorMirage.Providers MirrorMirage.Worker

/-! ## The table -/

inductive Status where
  | pending
  | inFlight
  | done
  | failed
  deriving DecidableEq, Repr

/-- A row of `jobs` without its key. -/
structure Row where
  cdnName : String
  urls : List String
  attempts : ℕ := 0
  nextAttemptAt : ℚ
  createdAt : ℚ
  status : Status := .pending
  message : Option String := none
  deriving DecidableEq, Repr

/-- The table by its key, and the key that `AUTOINCREMENT` gives next. -/
structure Db where
  row : ℕ → Option Row
  nextId : ℕ

/-- The table as a list, in the order of the keys. -/
def Db.rows (db : Db) : List (ℕ × Row) :=
  (List.range db.nextId).filterMap fun id => (db.row id).map (id, ·)

/-- The `INSERT` of `enqueue`. -/
def Db.insert (db : Db) (cdnName : String) (urls : List String) (now : ℚ) :
    Db where
  row := update db.row db.nextId
    (some { cdnName, urls, nextAttemptAt := now, createdAt := now })
  nextId := db.nextId + 1

def Row.isReady (row : Row) (cdnName : String) (now : ℚ) : Bool :=
  row.cdnName = cdnName && row.status = .pending && row.nextAttemptAt ≤ now

/-- The `SELECT` of `claim_ready`, whose row `fetchone` reads. -/
def Db.selectReady (db : Db) (cdnName : String) (now : ℚ) :
    Option (ℕ × Row) :=
  db.rows.find? fun entry => entry.2.isReady cdnName now

/-- An `UPDATE` of the row with that key. -/
def Db.modify (db : Db) (id : ℕ) (change : Row → Row) : Db :=
  { db with row := update db.row id ((db.row id).map change) }

def Row.claimed (row : Row) : Row := { row with status := .inFlight }

/-- The `UPDATE` of `claim_ready` and its `rowcount`. -/
def Db.claim (db : Db) (id : ℕ) : Db × ℕ :=
  match db.row id with
  | some row =>
      if row.status = .pending then (db.modify id Row.claimed, 1) else (db, 0)
  | none => (db, 0)

/-- The `UPDATE` statements of `mark_done`, `reschedule` and `mark_failed`. -/
inductive Update where
  | done
  | reschedule (attempts : ℕ) (nextAttemptAt : ℚ)
  | failed (message : String)
  deriving DecidableEq, Repr

def Update.apply : Update → Row → Row
  | .done, row => { row with status := .done }
  | .reschedule attempts nextAttemptAt, row =>
      { row with
        status := .pending
        attempts := attempts
        nextAttemptAt := nextAttemptAt }
  | .failed message, row =>
      { row with
        status := .failed
        message := some message }

def Row.reset (row : Row) : Row :=
  if row.status = .inFlight then { row with status := .pending } else row

/-- The `UPDATE` of `reset_in_flight`. -/
def Db.resetInFlight (db : Db) : Db :=
  { db with row := fun id => (db.row id).map Row.reset }

/-- What `claim_ready` returns. -/
structure Job where
  id : ℕ
  cdnName : String
  urls : List String
  attempts : ℕ
  nextAttemptAt : ℚ
  createdAt : ℚ
  status : Status
  deriving DecidableEq, Repr

def jobOf (id : ℕ) (row : Row) : Job :=
  ⟨id, row.cdnName, row.urls, row.attempts, row.nextAttemptAt, row.createdAt,
    .inFlight⟩

/-! ## The tasks -/

/-- Where the worker of a CDN is.  The points that end in `-ing` have a
statement or a commit in the thread of the connection. -/
inductive Point where
  | idle
  | selecting (now : ℚ)
  | selected (found : Option (ℕ × Row))
  | updating (id : ℕ) (row : Row)
  | updated (id : ℕ) (row : Row) (rowcount : ℕ)
  | claimCommitting (id : ℕ) (row : Row) (rowcount : ℕ)
  | claimCommitted (id : ℕ) (row : Row) (rowcount : ℕ)
  | purging (job : Job)
  | settling (job : Job) (update : Update)
  | settled (job : Job) (update : Update)
  | settleCommitting (job : Job) (update : Update)
  | settleCommitted (job : Job) (update : Update)
  deriving DecidableEq, Repr

structure Worker where
  point : Point
  alive : Bool
  deriving DecidableEq, Repr

/-- Where an `enqueue` call is. -/
inductive EnqueuePoint where
  | absent
  | inserting (cdnName : String) (urls : List String) (now : ℚ)
  | inserted (id : ℕ)
  | committing (id : ℕ)
  | committed (id : ℕ)
  deriving DecidableEq, Repr

structure Enqueuer where
  point : EnqueuePoint
  alive : Bool
  deriving DecidableEq, Repr

/-- How far the daemon has come: the points of `reset_in_flight`, and
`running` once the workers exist. -/
inductive Phase where
  | down
  | resetting
  | reset
  | resetCommitting
  | resetCommitted
  | running
  deriving DecidableEq, Repr

structure State where
  now : ℚ
  phase : Phase
  work : Db
  committed : Db
  worker : String → Worker
  enqueuer : ℕ → Enqueuer

/-- Before the first start, with an empty table. -/
def init (now : ℚ) : State where
  now := now
  phase := .down
  work := ⟨fun _ => none, 1⟩
  committed := ⟨fun _ => none, 1⟩
  worker := fun _ => ⟨.idle, false⟩
  enqueuer := fun _ => ⟨.absent, false⟩

inductive Obs where
  /-- The daemon has been started. -/
  | started
  /-- A worker's `UPDATE` has moved the row to `in_flight`. -/
  | claimed (id attempt : ℕ) (time : ℚ)
  /-- `provider.purge` has been called. -/
  | purgeStarted (id attempt : ℕ)
  /-- `provider.purge` has returned or raised. -/
  | purgeEnded (id attempt : ℕ) (result : PurgeResult) (time : ℚ)
  /-- The table that a commit has made durable. -/
  | committed (rows : List (ℕ × Row))
  deriving DecidableEq, Repr

inductive Action where
  /-- The clock is set. -/
  | tick (time : ℚ)
  /-- The process starts and calls `reset_in_flight`. -/
  | start
  /-- `reset_in_flight` moves on, and after it the daemon. -/
  | boot
  /-- An `enqueue(cdn_name, urls)` call. -/
  | enqueue (call : ℕ) (cdnName : String) (urls : List String)
  | execEnqueue (call : ℕ)
  | resumeEnqueue (call : ℕ)
  | execWorker (cdnName : String)
  | resumeWorker (cdnName : String)
  /-- `provider.purge` ends with a result or an exception. -/
  | purgeEnd (cdnName : String) (outcome : Except String PurgeResult)
  | killEnqueue (call : ℕ)
  | killWorker (cdnName : String)
  /-- The process ends. -/
  | crash

def State.goto (s : State) (cdnName : String) (point : Point) : State :=
  { s with
    worker := update s.worker cdnName
      { s.worker cdnName with point := point } }

def State.gotoEnqueue (s : State) (call : ℕ) (point : EnqueuePoint) : State :=
  { s with
    enqueuer := update s.enqueuer call
      { s.enqueuer call with point := point } }

def State.commit (s : State) : State := { s with committed := s.work }

/-- The thread comes to what a worker has posted. -/
def execWorker (s : State) (cdnName : String) : Option (State × List Obs) :=
  match (s.worker cdnName).point with
  | .selecting now =>
      some (s.goto cdnName (.selected (s.work.selectReady cdnName now)), [])
  | .updating id row =>
      let claim := s.work.claim id
      some ({ s.goto cdnName (.updated id row claim.2) with work := claim.1 },
        if claim.2 = 0 then [] else [.claimed id (row.attempts + 1) s.now])
  | .claimCommitting id row rowcount =>
      some (s.commit.goto cdnName (.claimCommitted id row rowcount),
        [.committed s.work.rows])
  | .settling job update =>
      some ({ s.goto cdnName (.settled job update) with
        work := s.work.modify job.id update.apply }, [])
  | .settleCommitting job update =>
      some (s.commit.goto cdnName (.settleCommitted job update),
        [.committed s.work.rows])
  | _ => none

/-- A worker goes on to its next await. -/
def resumeWorker (s : State) (cdnName : String) : Option (State × List Obs) :=
  match (s.worker cdnName).point with
  | .idle => some (s.goto cdnName (.selecting s.now), [])
  | .selected none => some (s.goto cdnName .idle, [])
  | .selected (some (id, row)) => some (s.goto cdnName (.updating id row), [])
  | .updated id row rowcount =>
      some (s.goto cdnName (.claimCommitting id row rowcount), [])
  | .claimCommitted id row rowcount =>
      if rowcount = 0 then some (s.goto cdnName .idle, [])
      else some (s.goto cdnName (.purging (jobOf id row)),
        [.purgeStarted id (row.attempts + 1)])
  | .settled job update =>
      some (s.goto cdnName (.settleCommitting job update), [])
  | .settleCommitted _ _ => some (s.goto cdnName .idle, [])
  | _ => none

/-- The statement that a settlement comes to at the given time. -/
def statement (now : ℚ) : Settlement → Update
  | .markDone => .done
  | .reschedule attempts backoff => .reschedule attempts (now + backoff)
  | .markFailed message => .failed message

/-- The worker between the end of its purge and its next await; an exception
of the backoff ends it. -/
def purgeEnd (retry : RetryConfig) (s : State) (cdnName : String)
    (outcome : Except String PurgeResult) : Option (State × List Obs) :=
  match (s.worker cdnName).point with
  | .purging job =>
      let result := caught outcome
      let attempt := job.attempts + 1
      let ended := Obs.purgeEnded job.id attempt result s.now
      match settle retry attempt result with
      | .error _ =>
          some ({ s with
            worker := update s.worker cdnName ⟨.purging job, false⟩ }, [ended])
      | .ok settlement =>
          some (s.goto cdnName (.settling job (statement s.now settlement)),
            [ended])
  | _ => none

def step (retry : RetryConfig) (s : State) :
    Action → Option (State × List Obs)
  | .tick time => some ({ s with now := time }, [])
  | .start =>
      if s.phase = .down then some ({ s with phase := .resetting }, [.started])
      else none
  | .boot =>
      match s.phase with
      | .resetting => some ({ s with
          phase := .reset
          work := s.work.resetInFlight }, [])
      | .reset => some ({ s with phase := .resetCommitting }, [])
      | .resetCommitting => some ({ s.commit with phase := .resetCommitted },
          [.committed s.work.rows])
      | .resetCommitted => some ({ s with
          phase := .running
          worker := fun _ => ⟨.idle, true⟩ }, [])
      | _ => none
  | .enqueue call cdnName urls =>
      if s.phase = .running ∧ (s.enqueuer call).point = .absent then
        some ({ s with
          enqueuer := update s.enqueuer call
            ⟨.inserting cdnName urls s.now, true⟩ }, [])
      else none
  | .execEnqueue call =>
      if s.phase = .running then
        match (s.enqueuer call).point with
        | .inserting cdnName urls now =>
            some ({ s.gotoEnqueue call (.inserted s.work.nextId) with
              work := s.work.insert cdnName urls now }, [])
        | .committing id =>
            some (s.commit.gotoEnqueue call (.committed id),
              [.committed s.work.rows])
        | _ => none
      else none
  | .resumeEnqueue call =>
      if s.phase = .running ∧ (s.enqueuer call).alive then
        match (s.enqueuer call).point with
        | .inserted id => some (s.gotoEnqueue call (.committing id), [])
        | .committed _ => some (s.gotoEnqueue call .absent, [])
        | _ => none
      else none
  | .execWorker cdnName =>
      if s.phase = .running then execWorker s cdnName else none
  | .resumeWorker cdnName =>
      if s.phase = .running ∧ (s.worker cdnName).alive then
        resumeWorker s cdnName
      else none
  | .purgeEnd cdnName outcome =>
      if s.phase = .running ∧ (s.worker cdnName).alive then
        purgeEnd retry s cdnName outcome
      else none
  | .killEnqueue call =>
      some ({ s with
        enqueuer := update s.enqueuer call
          { s.enqueuer call with alive := false } }, [])
  | .killWorker cdnName =>
      some ({ s with
        worker := update s.worker cdnName
          { s.worker cdnName with alive := false } }, [])
  | .crash =>
      some ({ s with
        phase := .down
        work := s.committed
        worker := fun _ => ⟨.idle, false⟩
        enqueuer := fun _ => ⟨.absent, false⟩ }, [])

end MirrorMirage.Queue
