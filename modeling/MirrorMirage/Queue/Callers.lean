import MirrorMirage.Queue.Moves

/-!
# Concurrent callers of one queue

Any number of tasks call the methods of `PersistentQueue` on one connection.
The statements and commits of the calls come to the database in any order, one
at a time, and the clock may be set between any two of them.  No call is
cancelled and none fails.  Calls are numbered in the order in which they are
made.
-/

namespace MirrorMirage.Queue.Callers

open Function (update)

/-- The methods whose only statement writes. -/
inductive Write where
  | enqueue (cdnName : String) (urls : List String)
  | markDone (jobId : ℕ)
  | reschedule (jobId attempts : ℕ) (nextAttemptAt : ℚ)
  | markFailed (jobId : ℕ) (message : String)
  | resetInFlight
  deriving DecidableEq, Repr

/-- Where a call is: before its `SELECT`, its `UPDATE`, its commit and its
return, with what it has read so far; `now` is its reading of the clock. -/
inductive Point where
  | absent
  | selecting (cdnName : String) (now : ℚ)
  | selected (found : Option (ℕ × Row))
  | updated (id : ℕ) (row : Row) (rowcount : ℕ)
  | committed (id : ℕ) (row : Row) (rowcount : ℕ)
  | writing (write : Write) (now : ℚ)
  | written
  | saved
  | returned
  deriving DecidableEq, Repr

/-- `db` is the table as the connection sees it, `saved` what is durable. -/
structure State where
  now : ℚ
  db : Db
  saved : Db
  calls : ℕ
  point : ℕ → Point

def start (db : Db) (now : ℚ) : State where
  now := now
  db := db
  saved := db
  calls := 0
  point := fun _ => .absent

inductive Obs where
  /-- `claim_ready` has been called and has read the clock. -/
  | called (call : ℕ) (now : ℚ)
  /-- The `UPDATE` of the call has moved the row, which was stored so, to
  `in_flight`. -/
  | claimed (call id : ℕ) (stored : Row)
  /-- The call has returned the job. -/
  | returned (call : ℕ) (job : Job)
  | rescheduled (id : ℕ)
  /-- The rows that a `reset_in_flight` has moved. -/
  | reset (ids : List ℕ)
  deriving DecidableEq, Repr

inductive Action where
  | tick (time : ℚ)
  | claimReady (cdnName : String)
  | write (write : Write)
  /-- The next statement or commit of the call, or its return. -/
  | advance (call : ℕ)
  deriving DecidableEq, Repr

def State.goto (s : State) (call : ℕ) (point : Point) : State :=
  { s with point := update s.point call point }

/-- The next call, at its first statement. -/
def State.open (s : State) (point : Point) : State :=
  { s with
    calls := s.calls + 1
    point := update s.point s.calls point }

def isInFlight (row : Row) : Bool := row.status = .inFlight

/-- The keys of the rows in flight. -/
def inFlight (db : Db) : List ℕ :=
  (List.range db.nextId).filter fun id => (db.row id).any isInFlight

def Write.exec (db : Db) (now : ℚ) : Write → Db × List Obs
  | .enqueue cdnName urls => (db.insert cdnName urls now, [])
  | .markDone jobId => (db.modify jobId Update.done.apply, [])
  | .reschedule jobId attempts nextAttemptAt =>
      (db.modify jobId (Update.reschedule attempts nextAttemptAt).apply,
        [.rescheduled jobId])
  | .markFailed jobId message =>
      (db.modify jobId (Update.failed message).apply, [])
  | .resetInFlight => (db.resetInFlight, [.reset (inFlight db)])

def advance (s : State) (call : ℕ) : Option (State × List Obs) :=
  match s.point call with
  | .selecting cdnName now =>
      some (s.goto call (.selected (s.db.selectReady cdnName now)), [])
  | .selected none => some (s.goto call .returned, [])
  | .selected (some (id, row)) =>
      let claim := s.db.claim id
      some ({ s.goto call (.updated id row claim.2) with db := claim.1 },
        if claim.2 = 0 then []
        else (s.db.row id).toList.map (.claimed call id))
  | .updated id row rowcount =>
      some ({ s.goto call (.committed id row rowcount) with saved := s.db }, [])
  | .committed id row rowcount =>
      some (s.goto call .returned,
        if rowcount = 0 then [] else [.returned call (jobOf id row)])
  | .writing write now =>
      some ({ s.goto call .written with db := (write.exec s.db now).1 },
        (write.exec s.db now).2)
  | .written => some ({ s.goto call .saved with saved := s.db }, [])
  | .saved => some (s.goto call .returned, [])
  | .absent | .returned => none

def step (s : State) : Action → Option (State × List Obs)
  | .tick time => some ({ s with now := time }, [])
  | .claimReady cdnName =>
      some (s.open (.selecting cdnName s.now), [.called s.calls s.now])
  | .write write => some (s.open (.writing write s.now), [])
  | .advance call => advance s call

@[simp] theorem goto_point (s : State) (call other : ℕ) (point : Point) :
    (s.goto call point).point other =
      if other = call then point else s.point other := by
  by_cases heq : other = call <;> simp [State.goto, heq]

/-! ## What a step can do -/

/-- The accepted actions with their guards, next states and observations. -/
inductive Move (s : State) : Action → State → List Obs → Prop where
  | tick {time : ℚ} : Move s (.tick time) { s with now := time } []
  | claimReady {cdnName : String} : Move s (.claimReady cdnName)
      (s.open (.selecting cdnName s.now)) [.called s.calls s.now]
  | write {write : Write} : Move s (.write write)
      (s.open (.writing write s.now)) []
  | select {call : ℕ} {cdnName : String} {now : ℚ}
      (hpoint : s.point call = .selecting cdnName now) :
      Move s (.advance call)
        (s.goto call (.selected (s.db.selectReady cdnName now))) []
  | claim {call id : ℕ} {row stored : Row}
      (hpoint : s.point call = .selected (some (id, row)))
      (hstored : s.db.row id = some stored)
      (hpending : stored.status = .pending) :
      Move s (.advance call)
        { s.goto call (.updated id row 1) with
          db := s.db.modify id Row.claimed }
        [.claimed call id stored]
  | lose {call id : ℕ} {row : Row}
      (hpoint : s.point call = .selected (some (id, row))) :
      Move s (.advance call) (s.goto call (.updated id row 0)) []
  | commit {call id : ℕ} {row : Row} {rowcount : ℕ}
      (hpoint : s.point call = .updated id row rowcount) :
      Move s (.advance call)
        { s.goto call (.committed id row rowcount) with saved := s.db } []
  | deliver {call id : ℕ} {row : Row} {rowcount : ℕ}
      (hpoint : s.point call = .committed id row rowcount)
      (hcount : rowcount ≠ 0) :
      Move s (.advance call) (s.goto call .returned)
        [.returned call (jobOf id row)]
  | exec {call : ℕ} {write : Write} {now : ℚ}
      (hpoint : s.point call = .writing write now) :
      Move s (.advance call)
        { s.goto call .written with db := (write.exec s.db now).1 }
        (write.exec s.db now).2
  | save {call : ℕ} (hpoint : s.point call = .written) :
      Move s (.advance call) { s.goto call .saved with saved := s.db } []
  | finish {call : ℕ} (hpoint : s.point call = .selected none ∨
        s.point call = .saved ∨
        ∃ id row, s.point call = .committed id row 0) :
      Move s (.advance call) (s.goto call .returned) []

section Step

variable {s after : State} {action : Action} {out : List Obs}

theorem move_of_advance {call : ℕ}
    (hstep : advance s call = some (after, out)) :
    Move s (.advance call) after out := by
  unfold advance at hstep
  split at hstep
  · cases hstep
    exact .select ‹_›
  · cases hstep
    exact .finish (.inl ‹_›)
  · rename_i id row hpoint
    cases hstored : s.db.row id with
    | none =>
        have hclaim : s.db.claim id = (s.db, 0) := by
          simp [Db.claim, hstored]
        rw [hclaim] at hstep
        cases hstep
        exact .lose hpoint
    | some stored =>
        by_cases hpending : stored.status = .pending
        · rw [claim_of_pending hstored hpending, hstored] at hstep
          cases hstep
          exact .claim hpoint hstored hpending
        · have hclaim : s.db.claim id = (s.db, 0) := by
            simp [Db.claim, hstored, hpending]
          rw [hclaim] at hstep
          cases hstep
          exact .lose hpoint
  · cases hstep
    exact .commit ‹_›
  · rename_i id row rowcount hpoint
    by_cases hcount : rowcount = 0
    · subst hcount
      cases hstep
      exact .finish (.inr (.inr ⟨id, row, hpoint⟩))
    · rw [if_neg hcount] at hstep
      cases hstep
      exact .deliver hpoint hcount
  · cases hstep
    exact .exec ‹_›
  · cases hstep
    exact .save ‹_›
  · cases hstep
    exact .finish (.inr (.inl ‹_›))
  · cases hstep
  · cases hstep

theorem move_of_step (hstep : step s action = some (after, out)) :
    Move s action after out := by
  cases action with
  | tick time =>
      cases hstep
      exact .tick
  | claimReady cdnName =>
      cases hstep
      exact .claimReady
  | write write =>
      cases hstep
      exact .write
  | advance call => exact move_of_advance hstep

end Step

end MirrorMirage.Queue.Callers
