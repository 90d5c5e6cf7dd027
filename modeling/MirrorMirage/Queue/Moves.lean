import MirrorMirage.Queue.Model

/-!
# What one step of the queue machine can do

`Move` lists the accepted actions with their guards and effects, and
`move_of_step` reads it off `step`.  Moves that touch nothing but the
`enqueue` calls are one constructor.
-/

namespace MirrorMirage.Queue

open Function (update)
open MirrorMirage.Providers MirrorMirage.Worker

/-! ## The fields after each update -/

section Fields

variable (s : State) (cdnName : String) (point : Point) (call : ℕ)
variable (enqueuePoint : EnqueuePoint)

@[simp] theorem goto_now : (s.goto cdnName point).now = s.now := rfl
@[simp] theorem goto_phase : (s.goto cdnName point).phase = s.phase := rfl
@[simp] theorem goto_work : (s.goto cdnName point).work = s.work := rfl
@[simp] theorem goto_committed :
    (s.goto cdnName point).committed = s.committed := rfl

@[simp] theorem goto_point (other : String) :
    ((s.goto cdnName point).worker other).point =
      if other = cdnName then point else (s.worker other).point := by
  by_cases heq : other = cdnName <;> simp [State.goto, heq]

@[simp] theorem gotoEnqueue_now :
    (s.gotoEnqueue call enqueuePoint).now = s.now := rfl
@[simp] theorem gotoEnqueue_phase :
    (s.gotoEnqueue call enqueuePoint).phase = s.phase := rfl
@[simp] theorem gotoEnqueue_work :
    (s.gotoEnqueue call enqueuePoint).work = s.work := rfl
@[simp] theorem gotoEnqueue_committed :
    (s.gotoEnqueue call enqueuePoint).committed = s.committed := rfl
@[simp] theorem gotoEnqueue_worker :
    (s.gotoEnqueue call enqueuePoint).worker = s.worker := rfl

@[simp] theorem commit_now : s.commit.now = s.now := rfl
@[simp] theorem commit_phase : s.commit.phase = s.phase := rfl
@[simp] theorem commit_work : s.commit.work = s.work := rfl
@[simp] theorem commit_committed : s.commit.committed = s.work := rfl
@[simp] theorem commit_worker : s.commit.worker = s.worker := rfl

end Fields

/-! ## Tables -/

section Tables

variable {db : Db} {id : ℕ} {row : Row}

@[simp] theorem modify_row (change : Row → Row) :
    (db.modify id change).row = update db.row id ((db.row id).map change) :=
  rfl
@[simp] theorem modify_nextId (change : Row → Row) :
    (db.modify id change).nextId = db.nextId := rfl
@[simp] theorem resetInFlight_row :
    db.resetInFlight.row id = (db.row id).map Row.reset := rfl
@[simp] theorem resetInFlight_nextId :
    db.resetInFlight.nextId = db.nextId := rfl

theorem mem_rows_iff : (id, row) ∈ db.rows ↔
    id < db.nextId ∧ db.row id = some row := by
  simp [Db.rows]

theorem claim_of_pending (hrow : db.row id = some row)
    (hpending : row.status = .pending) :
    db.claim id = (db.modify id Row.claimed, 1) := by
  simp [Db.claim, hrow, hpending]

theorem selectReady_eq_some {cdnName : String} {now : ℚ}
    (hselect : db.selectReady cdnName now = some (id, row)) :
    db.row id = some row ∧ row.cdnName = cdnName ∧ row.status = .pending ∧
      row.nextAttemptAt ≤ now := by
  have hrow := (mem_rows_iff.mp (List.mem_of_find?_eq_some hselect)).2
  have hready := List.find?_some hselect
  simp only [Row.isReady, Bool.and_eq_true, decide_eq_true_eq] at hready
  exact ⟨hrow, hready.1.1, hready.1.2, hready.2⟩

@[simp] theorem claimed_cdnName : row.claimed.cdnName = row.cdnName := rfl
@[simp] theorem claimed_status : row.claimed.status = .inFlight := rfl
@[simp] theorem claimed_attempts : row.claimed.attempts = row.attempts := rfl
@[simp] theorem claimed_nextAttemptAt :
    row.claimed.nextAttemptAt = row.nextAttemptAt := rfl

@[simp] theorem apply_cdnName (u : Update) :
    (u.apply row).cdnName = row.cdnName := by
  cases u <;> rfl

@[simp] theorem apply_urls (u : Update) : (u.apply row).urls = row.urls := by
  cases u <;> rfl

theorem apply_status_ne (u : Update) : (u.apply row).status ≠ .inFlight := by
  cases u <;> simp [Update.apply]

@[simp] theorem reset_cdnName : row.reset.cdnName = row.cdnName := by
  unfold Row.reset; split <;> rfl
@[simp] theorem reset_urls : row.reset.urls = row.urls := by
  unfold Row.reset; split <;> rfl
@[simp] theorem reset_attempts : row.reset.attempts = row.attempts := by
  unfold Row.reset; split <;> rfl
@[simp] theorem reset_nextAttemptAt :
    row.reset.nextAttemptAt = row.nextAttemptAt := by
  unfold Row.reset; split <;> rfl

theorem reset_status_ne : row.reset.status ≠ .inFlight := by
  unfold Row.reset
  split
  · simp
  · assumption

end Tables

/-! ## Moves -/

/-- The accepted actions, with their guards, next states and observations. -/
inductive Move (retry : RetryConfig) (s : State) :
    Action → State → List Obs → Prop where
  | tick {time : ℚ} : Move retry s (.tick time) { s with now := time } []
  | start (hphase : s.phase = .down) :
      Move retry s .start { s with phase := .resetting } [.started]
  | reset (hphase : s.phase = .resetting) :
      Move retry s .boot { s with
        phase := .reset
        work := s.work.resetInFlight } []
  | resetPost (hphase : s.phase = .reset) :
      Move retry s .boot { s with phase := .resetCommitting } []
  | resetCommit (hphase : s.phase = .resetCommitting) :
      Move retry s .boot { s.commit with phase := .resetCommitted }
        [.committed s.work.rows]
  | run (hphase : s.phase = .resetCommitted) :
      Move retry s .boot { s with
        phase := .running
        worker := fun _ => ⟨.idle, true⟩ } []
  | enqueuer {action : Action} {enqueuer : ℕ → Enqueuer} :
      Move retry s action { s with enqueuer := enqueuer } []
  | insert {call : ℕ} {cdnName : String} {urls : List String} {now : ℚ}
      (hphase : s.phase = .running) :
      Move retry s (.execEnqueue call)
        { s.gotoEnqueue call (.inserted s.work.nextId) with
          work := s.work.insert cdnName urls now } []
  | enqueueCommit {call : ℕ} {point : EnqueuePoint}
      (hphase : s.phase = .running) :
      Move retry s (.execEnqueue call) (s.commit.gotoEnqueue call point)
        [.committed s.work.rows]
  | select {cdnName : String} {now : ℚ} (hphase : s.phase = .running)
      (hpoint : (s.worker cdnName).point = .selecting now) :
      Move retry s (.execWorker cdnName)
        (s.goto cdnName (.selected (s.work.selectReady cdnName now))) []
  | claim {cdnName : String} {id : ℕ} {row : Row}
      (hphase : s.phase = .running)
      (hpoint : (s.worker cdnName).point = .updating id row) :
      Move retry s (.execWorker cdnName)
        { s.goto cdnName (.updated id row (s.work.claim id).2) with
          work := (s.work.claim id).1 }
        (if (s.work.claim id).2 = 0 then []
          else [.claimed id (row.attempts + 1) s.now])
  | claimCommit {cdnName : String} {id : ℕ} {row : Row} {rowcount : ℕ}
      (hphase : s.phase = .running)
      (hpoint : (s.worker cdnName).point = .claimCommitting id row rowcount) :
      Move retry s (.execWorker cdnName)
        (s.commit.goto cdnName (.claimCommitted id row rowcount))
        [.committed s.work.rows]
  | settle {cdnName : String} {job : Job} {change : Update}
      (hphase : s.phase = .running)
      (hpoint : (s.worker cdnName).point = .settling job change) :
      Move retry s (.execWorker cdnName)
        { s.goto cdnName (.settled job change) with
          work := s.work.modify job.id change.apply } []
  | settleCommit {cdnName : String} {job : Job} {change : Update}
      (hphase : s.phase = .running)
      (hpoint : (s.worker cdnName).point = .settleCommitting job change) :
      Move retry s (.execWorker cdnName)
        (s.commit.goto cdnName (.settleCommitted job change))
        [.committed s.work.rows]
  | poll {cdnName : String} (hphase : s.phase = .running)
      (hpoint : (s.worker cdnName).point = .idle) :
      Move retry s (.resumeWorker cdnName)
        (s.goto cdnName (.selecting s.now)) []
  | sleep {cdnName : String} (hphase : s.phase = .running)
      (hpoint : (s.worker cdnName).point = .selected none) :
      Move retry s (.resumeWorker cdnName) (s.goto cdnName .idle) []
  | claimPost {cdnName : String} {id : ℕ} {row : Row}
      (hphase : s.phase = .running)
      (hpoint : (s.worker cdnName).point = .selected (some (id, row))) :
      Move retry s (.resumeWorker cdnName)
        (s.goto cdnName (.updating id row)) []
  | claimCommitPost {cdnName : String} {id : ℕ} {row : Row} {rowcount : ℕ}
      (hphase : s.phase = .running)
      (hpoint : (s.worker cdnName).point = .updated id row rowcount) :
      Move retry s (.resumeWorker cdnName)
        (s.goto cdnName (.claimCommitting id row rowcount)) []
  | claimLost {cdnName : String} {id : ℕ} {row : Row}
      (hphase : s.phase = .running)
      (hpoint : (s.worker cdnName).point = .claimCommitted id row 0) :
      Move retry s (.resumeWorker cdnName) (s.goto cdnName .idle) []
  | purge {cdnName : String} {id : ℕ} {row : Row} {rowcount : ℕ}
      (hphase : s.phase = .running) (hcount : rowcount ≠ 0)
      (hpoint : (s.worker cdnName).point = .claimCommitted id row rowcount) :
      Move retry s (.resumeWorker cdnName)
        (s.goto cdnName (.purging (jobOf id row)))
        [.purgeStarted id (row.attempts + 1)]
  | settleCommitPost {cdnName : String} {job : Job} {change : Update}
      (hphase : s.phase = .running)
      (hpoint : (s.worker cdnName).point = .settled job change) :
      Move retry s (.resumeWorker cdnName)
        (s.goto cdnName (.settleCommitting job change)) []
  | next {cdnName : String} {job : Job} {change : Update}
      (hphase : s.phase = .running)
      (hpoint : (s.worker cdnName).point = .settleCommitted job change) :
      Move retry s (.resumeWorker cdnName) (s.goto cdnName .idle) []
  | purgeEnd {cdnName : String} {job : Job} {result : PurgeResult}
      {settlement : Settlement} {outcome : Except String PurgeResult}
      (hphase : s.phase = .running)
      (hpoint : (s.worker cdnName).point = .purging job)
      (hsettle : Worker.settle retry (job.attempts + 1) result =
        .ok settlement) :
      Move retry s (.purgeEnd cdnName outcome)
        (s.goto cdnName (.settling job (statement s.now settlement)))
        [.purgeEnded job.id (job.attempts + 1) result s.now]
  | purgeRaise {cdnName : String} {job : Job} {result : PurgeResult}
      {outcome : Except String PurgeResult}
      (hphase : s.phase = .running)
      (hpoint : (s.worker cdnName).point = .purging job) :
      Move retry s (.purgeEnd cdnName outcome)
        { s with worker := update s.worker cdnName ⟨.purging job, false⟩ }
        [.purgeEnded job.id (job.attempts + 1) result s.now]
  | kill {cdnName : String} :
      Move retry s (.killWorker cdnName)
        { s with
          worker := update s.worker cdnName
            { s.worker cdnName with alive := false } } []
  | crash :
      Move retry s .crash
        { s with
          phase := .down
          work := s.committed
          worker := fun _ => ⟨.idle, false⟩
          enqueuer := fun _ => ⟨.absent, false⟩ } []

section Step

variable {retry : RetryConfig} {s after : State} {out : List Obs}

theorem move_of_execWorker {cdnName : String} (hphase : s.phase = .running)
    (hstep : execWorker s cdnName = some (after, out)) :
    Move retry s (.execWorker cdnName) after out := by
  unfold execWorker at hstep
  split at hstep
  · cases hstep
    exact .select hphase ‹_›
  · obtain ⟨rfl, rfl⟩ := Prod.ext_iff.mp (Option.some.inj hstep).symm
    exact .claim hphase ‹_›
  · cases hstep
    exact .claimCommit hphase ‹_›
  · cases hstep
    exact .settle hphase ‹_›
  · cases hstep
    exact .settleCommit hphase ‹_›
  · cases hstep

theorem move_of_resumeWorker {cdnName : String}
    (hphase : s.phase = .running)
    (hstep : resumeWorker s cdnName = some (after, out)) :
    Move retry s (.resumeWorker cdnName) after out := by
  unfold resumeWorker at hstep
  split at hstep
  · cases hstep
    exact .poll hphase ‹_›
  · cases hstep
    exact .sleep hphase ‹_›
  · cases hstep
    exact .claimPost hphase ‹_›
  · cases hstep
    exact .claimCommitPost hphase ‹_›
  · rename_i hpoint
    split at hstep <;> cases hstep
    · rename_i hcount
      exact .claimLost hphase (hcount ▸ hpoint)
    · exact .purge hphase ‹_› hpoint
  · cases hstep
    exact .settleCommitPost hphase ‹_›
  · cases hstep
    exact .next hphase ‹_›
  · cases hstep

theorem move_of_purgeEnd {cdnName : String}
    {outcome : Except String PurgeResult} (hphase : s.phase = .running)
    (hstep : purgeEnd retry s cdnName outcome = some (after, out)) :
    Move retry s (.purgeEnd cdnName outcome) after out := by
  unfold purgeEnd at hstep
  split at hstep
  · simp only at hstep
    split at hstep <;> cases hstep
    · exact .purgeRaise hphase ‹_›
    · exact .purgeEnd hphase ‹_› ‹_›
  · cases hstep

theorem move_of_step {action : Action}
    (hstep : step retry s action = some (after, out)) :
    Move retry s action after out := by
  cases action with
  | tick time =>
      cases hstep
      exact .tick
  | start =>
      simp only [step] at hstep
      split at hstep <;> cases hstep
      exact .start ‹_›
  | boot =>
      simp only [step] at hstep
      split at hstep <;> cases hstep
      · exact .reset ‹_›
      · exact .resetPost ‹_›
      · exact .resetCommit ‹_›
      · exact .run ‹_›
  | enqueue call cdnName urls =>
      simp only [step] at hstep
      split at hstep <;> cases hstep
      exact .enqueuer
  | execEnqueue call =>
      simp only [step] at hstep
      split at hstep
      · split at hstep <;> cases hstep
        · exact .insert ‹_›
        · exact .enqueueCommit ‹_›
      · cases hstep
  | resumeEnqueue call =>
      simp only [step] at hstep
      split at hstep
      · split at hstep <;> cases hstep <;> exact .enqueuer
      · cases hstep
  | execWorker cdnName =>
      simp only [step] at hstep
      split at hstep
      · exact move_of_execWorker ‹_› hstep
      · cases hstep
  | resumeWorker cdnName =>
      simp only [step] at hstep
      split at hstep
      · rename_i hguard
        exact move_of_resumeWorker hguard.1 hstep
      · cases hstep
  | purgeEnd cdnName outcome =>
      simp only [step] at hstep
      split at hstep
      · rename_i hguard
        exact move_of_purgeEnd hguard.1 hstep
      · cases hstep
  | killEnqueue call =>
      cases hstep
      exact .enqueuer
  | killWorker cdnName =>
      cases hstep
      exact .kill
  | crash =>
      cases hstep
      exact .crash

end Step

/-! ## The calls of `enqueue` -/

section Enqueue

variable {retry : RetryConfig} {s after : State} {call : ℕ} {out : List Obs}

/-- An `enqueue` that goes on posts its commit or returns. -/
theorem resumeEnqueue_cases
    (hstep : step retry s (.resumeEnqueue call) = some (after, out)) :
    out = [] ∧ s.phase = .running ∧
      ((∃ id, (s.enqueuer call).point = .inserted id ∧
          after = s.gotoEnqueue call (.committing id)) ∨
        ∃ id, (s.enqueuer call).point = .committed id ∧
          after = s.gotoEnqueue call .absent) := by
  simp only [step] at hstep
  split at hstep
  · rename_i hguard
    split at hstep <;> cases hstep
    · exact ⟨rfl, hguard.1, .inl ⟨_, ‹_›, rfl⟩⟩
    · exact ⟨rfl, hguard.1, .inr ⟨_, ‹_›, rfl⟩⟩
  · cases hstep

/-- The thread inserts the row of an `enqueue` or commits it. -/
theorem execEnqueue_cases
    (hstep : step retry s (.execEnqueue call) = some (after, out)) :
    s.phase = .running ∧
      ((∃ cdn urls now, (s.enqueuer call).point = .inserting cdn urls now ∧
          after = { s.gotoEnqueue call (.inserted s.work.nextId) with
            work := s.work.insert cdn urls now }) ∨
        ∃ id, (s.enqueuer call).point = .committing id ∧
          after = s.commit.gotoEnqueue call (.committed id)) := by
  simp only [step] at hstep
  split at hstep
  · split at hstep <;> cases hstep
    · exact ⟨‹_›, .inl ⟨_, _, _, ‹_›, rfl⟩⟩
    · exact ⟨‹_›, .inr ⟨_, ‹_›, rfl⟩⟩
  · cases hstep

end Enqueue

end MirrorMirage.Queue
