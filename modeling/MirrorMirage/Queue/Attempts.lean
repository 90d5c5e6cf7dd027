import MirrorMirage.Queue.Spacing

/-!
# What the `attempts` column counts

The schema says that it counts the calls of the provider for the job.  Of the
three ways in which an attempt can end only `reschedule` writes it: the call
after which a job is done or failed is never counted (`last_call_is_missing`).
-/

namespace MirrorMirage.Queue

open Function (update)
open MirrorMirage.Providers MirrorMirage.Run MirrorMirage.Worker

def Action.isCrash : Action → Bool
  | .crash => true
  | _ => false

/-- The calls of `provider.purge` for the job that have ended. -/
def completed (id : ℕ) (trace : List Obs) : ℕ :=
  trace.countP fun
    | .purgeEnded other _ _ _ => other = id
    | _ => false

/-- Some attempt at the job was its last. -/
def Concluded (retry : RetryConfig) (id : ℕ) (trace : List Obs) : Prop :=
  ∃ attempt result time, .purgeEnded id attempt result time ∈ trace ∧
    ¬ Retried retry attempt result

/-- The worker has no attempt at its job behind it that is not in the table. -/
def Worker.isEven (worker : Worker) : Bool :=
  match worker.point with
  | .settling _ _ => false
  | .purging _ => worker.alive
  | _ => true

/-- The column against the calls for the job that have ended. -/
structure Tally (retry : RetryConfig) (trace : List Obs) (id : ℕ) (row : Row)
    (worker : Worker) : Prop where
  pending : row.status = .pending →
    completed id trace = row.attempts ∧ ¬ Concluded retry id trace
  finished : row.status = .done ∨ row.status = .failed →
    completed id trace = row.attempts + 1 ∧ Concluded retry id trace
  waiting : row.status = .inFlight → worker.isEven →
    completed id trace = row.attempts ∧ ¬ Concluded retry id trace
  settling : ∀ job change, row.status = .inFlight →
    worker.point = .settling job change →
      completed id trace = row.attempts + 1 ∧
        match change with
        | .reschedule attempts _ =>
            attempts = row.attempts + 1 ∧ ¬ Concluded retry id trace
        | _ => Concluded retry id trace

structure Tallied (retry : RetryConfig) (trace : List Obs) (s : State) :
    Prop where
  empty : s.phase ≠ .running → ∀ id, s.work.row id = none
  fresh : ∀ id, s.work.row id = none →
    completed id trace = 0 ∧ ¬ Concluded retry id trace
  work : ∀ id row, s.work.row id = some row →
    Tally retry trace id row (s.worker row.cdnName)

variable {retry : RetryConfig} {trace out : List Obs} {s after : State}
variable {action : Action} {now : ℚ} {id : ℕ} {row : Row}

@[simp] theorem completed_append :
    completed id (trace ++ out) = completed id trace + completed id out :=
  List.countP_append

theorem concluded_append : Concluded retry id (trace ++ out) ↔
    Concluded retry id trace ∨ Concluded retry id out := by
  simp only [Concluded, List.mem_append, or_and_right, exists_or]

theorem concluded_singleton {attempt : ℕ} {result : PurgeResult} {time : ℚ} :
    Concluded retry id [.purgeEnded id attempt result time] ↔
      ¬ Retried retry attempt result := by
  constructor
  · rintro ⟨_, _, _, hmem, hnot⟩
    cases List.mem_singleton.mp hmem
    exact hnot
  · exact fun hnot => ⟨attempt, result, time, List.mem_singleton_self _, hnot⟩

/-- Nothing has ended for the job. -/
def Silent (id : ℕ) (out : List Obs) : Prop :=
  ∀ attempt result time, .purgeEnded id attempt result time ∉ out

theorem Silent.completed_eq (h : Silent id out) : completed id out = 0 := by
  refine List.countP_eq_zero.mpr fun event hevent => ?_
  cases event with
  | purgeEnded other attempt result time =>
      have hne : other ≠ id := by
        rintro rfl
        exact h _ _ _ hevent
      simpa using hne
  | _ => simp

theorem Silent.concluded_iff (h : Silent id out) :
    Concluded retry id (trace ++ out) ↔ Concluded retry id trace := by
  rw [concluded_append, or_iff_left]
  rintro ⟨_, _, _, hmem, -⟩
  exact h _ _ _ hmem

theorem Tally.quiet {worker worker' : Worker}
    (h : Tally retry trace id row worker) (hout : Silent id out)
    (heven : row.status = .inFlight → worker'.isEven → worker.isEven)
    (hsettling : ∀ job change, row.status = .inFlight →
      worker'.point = .settling job change →
        worker.point = .settling job change) :
    Tally retry (trace ++ out) id row worker' := by
  constructor <;>
    simp only [completed_append, hout.completed_eq, Nat.add_zero,
      hout.concluded_iff]
  · exact h.pending
  · exact h.finished
  · exact fun hstatus hworker => h.waiting hstatus (heven hstatus hworker)
  · exact fun job change hstatus hpoint =>
      h.settling job change hstatus (hsettling job change hstatus hpoint)

theorem tallied_init : Tallied retry [] (init now) where
  empty := fun _ _ => rfl
  fresh := fun _ _ => ⟨rfl, by simp [Concluded]⟩
  work := by simp [init]

/-! ## One step -/

/-- A worker that sees its purge end is alive. -/
theorem alive_of_purgeEnd {cdnName : String}
    {outcome : Except String PurgeResult}
    (hstep : step retry s (.purgeEnd cdnName outcome) = some (after, out)) :
    (s.worker cdnName).alive := by
  simp only [step] at hstep
  split at hstep
  · rename_i hguard
    exact hguard.2
  · cases hstep

/-- A row of the CDN in flight is the one that its worker has. -/
theorem Sound.flying_eq (h : Sound s) (hphase : s.phase = .running)
    {point : Point} (hpoint : (s.worker row.cdnName).point = point)
    (hrow : s.work.row id = some row) (hstatus : row.status = .inFlight) :
    point.flying = some id :=
  (h.tended_at hphase hpoint).flying id row hrow rfl hstatus

/-- The end of an attempt at the job of the row. -/
theorem Tally.purgeEnd {worker : Worker} {job : Job} {result : PurgeResult}
    {settlement : Settlement} (h : Tally retry trace job.id row worker)
    (hstatus : row.status = .inFlight) (heven : worker.isEven)
    (hattempts : row.attempts = job.attempts)
    (hsettle : settle retry (job.attempts + 1) result = .ok settlement)
    (time : ℚ) (alive : Bool) :
    Tally retry
      (trace ++ [.purgeEnded job.id (job.attempts + 1) result time]) job.id row
      ⟨.settling job (statement time settlement), alive⟩ := by
  obtain ⟨hcompleted, hopen⟩ := h.waiting hstatus heven
  have hone : completed job.id
      [.purgeEnded job.id (job.attempts + 1) result time] = 1 := by
    simp [completed]
  refine ⟨by simp [hstatus], by simp [hstatus], by simp [Worker.isEven], ?_⟩
  rintro _ change - hpoint
  cases hpoint
  rw [completed_append, hone, hcompleted, concluded_append,
    or_iff_right hopen, concluded_singleton, retried_iff hsettle]
  refine ⟨rfl, ?_⟩
  cases settlement with
  | markDone | markFailed => simp [statement]
  | reschedule attempts backoff =>
      obtain ⟨rfl, -⟩ := settle_reschedule hsettle
      exact ⟨by rw [hattempts], fun hnot => hnot ⟨backoff, rfl⟩⟩

/-- The statement of the worker reaches the row. -/
theorem Tally.settle {worker worker' : Worker} {job : Job} {change : Update}
    (h : Tally retry trace id row worker) (hstatus : row.status = .inFlight)
    (hpoint : worker.point = .settling job change) :
    Tally retry trace id (change.apply row) worker' := by
  obtain ⟨hcompleted, hchange⟩ := h.settling job change hstatus hpoint
  cases change with
  | done | failed =>
      constructor <;> simp [Update.apply, hcompleted, hchange]
  | reschedule attempts nextAttemptAt =>
      obtain ⟨rfl, hopen⟩ := hchange
      constructor <;> simp [Update.apply, hcompleted, hopen]

/-- A worker moves between points at which it is even. -/
theorem Tally.moved {cdnName : String} {target : Point}
    (h : Tally retry trace id row (s.worker row.cdnName))
    (hout : Silent id out) (heven : (s.worker cdnName).isEven)
    (htarget : ∀ job change, target ≠ .settling job change)
    (hworker : after.worker = (s.goto cdnName target).worker) :
    Tally retry (trace ++ out) id row (after.worker row.cdnName) := by
  apply h.quiet hout <;> rw [hworker, State.goto]
  · by_cases hcdn : row.cdnName = cdnName
    · exact fun _ _ => hcdn ▸ heven
    · simp [hcdn]
  · by_cases hcdn : row.cdnName = cdnName
    · intro job change _ hsettling
      simp only [hcdn, Function.update_self] at hsettling
      exact absurd hsettling (htarget job change)
    · simp [hcdn]

/-- A worker that has another row in flight does what it likes. -/
theorem Tally.apart {cdnName : String} {other : ℕ} {worker : Worker}
    (h : Tally retry trace id row (s.worker row.cdnName)) (hsound : Sound s)
    (hphase : s.phase = .running)
    (hpoint : (s.worker cdnName).point.flying = some other)
    (hother : other ≠ id) (hrow : s.work.row id = some row)
    (hout : Silent id out)
    (hworker : after.worker = update s.worker cdnName worker) :
    Tally retry (trace ++ out) id row (after.worker row.cdnName) := by
  have hcdn : row.status = .inFlight → row.cdnName ≠ cdnName := by
    rintro hstatus rfl
    have hflying := hsound.flying_eq hphase rfl hrow hstatus
    exact hother (Option.some.inj (hpoint.symm.trans hflying))
  apply h.quiet hout <;> rw [hworker]
  · intro hstatus
    rw [Function.update_of_ne (hcdn hstatus)]
    exact fun h => h
  · intro job change hstatus
    rw [Function.update_of_ne (hcdn hstatus)]
    exact fun h => h

theorem Tallied.work_step (h : Tallied retry trace s) (hsound : Sound s)
    (hcrash : action.isCrash = false)
    (hstep : step retry s action = some (after, out))
    (hrow : after.work.row id = some row) :
    Tally retry (trace ++ out) id row (after.worker row.cdnName) := by
  have hnone : ∀ found, s.phase ≠ .running → s.work.row id ≠ some found := by
    intro found hphase hfound
    simp [h.empty hphase] at hfound
  have hsame : after.worker = s.worker → s.work.row id = some row →
      Silent id out →
        Tally retry (trace ++ out) id row (after.worker row.cdnName) := by
    intro hworker hfound hout
    apply (h.work id row hfound).quiet hout <;> simp [hworker]
  cases move_of_step hstep with
  | tick | enqueuer => exact hsame rfl hrow (by simp [Silent])
  | enqueueCommit => exact hsame rfl hrow (by simp [Silent])
  | start hphase | resetPost hphase | resetCommit hphase | run hphase =>
      exact absurd hrow (hnone row (by simp [hphase]))
  | reset hphase =>
      obtain ⟨found, hfound, -⟩ := Option.map_eq_some_iff.mp hrow
      exact absurd hfound (hnone found (by simp [hphase]))
  | insert hphase =>
      by_cases hid : id = s.work.nextId
      · subst hid
        obtain ⟨hzero, hopen⟩ := h.fresh _ (hsound.freshWork _ le_rfl)
        simp only [Db.insert, Function.update_self, Option.some.injEq] at hrow
        subst hrow
        rw [List.append_nil]
        constructor <;> simp [hzero, hopen]
      · exact hsame rfl (by simpa [Db.insert, hid] using hrow) (by simp [Silent])
  | @claim cdnName claimed found hphase hpoint =>
      obtain ⟨hwork, hcdn, hpending⟩ := (hsound.tended_at hphase hpoint).serves
      simp only [claim_of_pending hwork hpending, one_ne_zero, if_false] at *
      by_cases hid : id = claimed
      · subst hid
        obtain rfl : found.claimed = row := by simpa [hwork] using hrow
        have hout : Silent id [.claimed id (found.attempts + 1) s.now] := by
          simp [Silent]
        have htally := (h.work _ _ hwork).pending hpending
        rw [← hout.concluded_iff] at htally
        constructor <;> simp [hout.completed_eq, htally, hcdn]
      · exact (h.work id row (by simpa [hid] using hrow)).moved
          (by simp [Silent]) (by simp [Worker.isEven, hpoint]) (by simp) rfl
  | @settle cdnName job change hphase hpoint =>
      obtain ⟨found, hcdn, hstatus, -, hwork, -⟩ :=
        hsound.attempting hphase (.inr ⟨change, hpoint⟩)
      by_cases hid : job.id = id
      · subst hid
        obtain rfl : change.apply found = row := by simpa [hwork] using hrow
        rw [List.append_nil]
        exact (h.work _ _ hwork).settle hstatus (hcdn ▸ hpoint)
      · have hfound : s.work.row id = some row := by
          simpa [Ne.symm hid] using hrow
        exact (h.work id row hfound).apart hsound hphase
          (by simp [hpoint, Point.flying]) hid hfound (by simp [Silent]) rfl
  | @purgeEnd cdnName job result settlement outcome hphase hpoint hsettle =>
      obtain ⟨found, hcdn, hstatus, hattempts, hwork, -⟩ :=
        hsound.attempting hphase (.inl hpoint)
      by_cases hid : job.id = id
      · subst hid
        obtain rfl : found = row := Option.some.inj (hwork.symm.trans hrow)
        have heven : (s.worker found.cdnName).isEven := by
          simp [Worker.isEven, hcdn, hpoint, alive_of_purgeEnd hstep]
        simpa [State.goto, hcdn] using
          (h.work _ _ hwork).purgeEnd hstatus heven hattempts hsettle s.now _
      · exact (h.work id row hrow).apart hsound hphase
          (by simp [hpoint, Point.flying]) hid hrow
          (by simp [Silent, Ne.symm hid]) rfl
  | @purgeRaise cdnName job result outcome hphase hpoint =>
      obtain ⟨found, hcdn, hstatus, -, hwork, -⟩ :=
        hsound.attempting hphase (.inl hpoint)
      by_cases hid : job.id = id
      · subst hid
        obtain rfl : found = row := Option.some.inj (hwork.symm.trans hrow)
        constructor <;> simp [hstatus, hcdn, Worker.isEven]
      · exact (h.work id row hrow).apart hsound hphase
          (by simp [hpoint, Point.flying]) hid hrow
          (by simp [Silent, Ne.symm hid]) rfl
  | @kill cdnName =>
      apply (h.work id row hrow).quiet (by simp [Silent])
      · by_cases hcdn : row.cdnName = cdnName
        · subst hcdn
          simp only [Function.update_self, Worker.isEven]
          cases (s.worker row.cdnName).point <;> simp
        · simp [hcdn]
      · by_cases hcdn : row.cdnName = cdnName
        · subst hcdn
          simp
        · simp [hcdn]
  | crash => cases hcrash
  | select hphase hpoint | claimCommit hphase hpoint
  | settleCommit hphase hpoint | poll hphase hpoint | sleep hphase hpoint
  | claimPost hphase hpoint | claimCommitPost hphase hpoint
  | claimLost hphase hpoint | settleCommitPost hphase hpoint
  | next hphase hpoint | purge hphase hcount hpoint =>
      exact (h.work id row hrow).moved (by simp [Silent])
        (by simp [Worker.isEven, hpoint]) (by simp) rfl

theorem Tallied.fresh_step (h : Tallied retry trace s) (hsound : Sound s)
    (hcrash : action.isCrash = false)
    (hstep : step retry s action = some (after, out))
    (hrow : after.work.row id = none) :
    completed id (trace ++ out) = 0 ∧ ¬ Concluded retry id (trace ++ out) := by
  have hquiet : s.work.row id = none → Silent id out →
      completed id (trace ++ out) = 0 ∧
        ¬ Concluded retry id (trace ++ out) := by
    intro hnone hout
    rw [completed_append, hout.completed_eq, hout.concluded_iff]
    exact h.fresh id hnone
  cases move_of_step hstep with
  | reset =>
      exact hquiet (Option.map_eq_none_iff.mp hrow) (by simp [Silent])
  | insert =>
      by_cases hid : id = s.work.nextId
      · simp [Db.insert, hid] at hrow
      · exact hquiet (by simpa [Db.insert, hid] using hrow) (by simp [Silent])
  | @claim cdnName claimed found hphase hpoint =>
      obtain ⟨hwork, -, hpending⟩ := (hsound.tended_at hphase hpoint).serves
      simp only [claim_of_pending hwork hpending, one_ne_zero, if_false] at *
      by_cases hid : id = claimed
      · simp [hid, hwork] at hrow
      · exact hquiet (by simpa [hid] using hrow) (by simp [Silent])
  | @settle cdnName job change hphase hpoint =>
      obtain ⟨found, -, -, -, hwork, -⟩ :=
        hsound.attempting hphase (.inr ⟨change, hpoint⟩)
      by_cases hid : id = job.id
      · simp [hid, hwork] at hrow
      · exact hquiet (by simpa [hid] using hrow) (by simp [Silent])
  | @purgeEnd cdnName job _ _ _ hphase hpoint
  | @purgeRaise cdnName job _ _ hphase hpoint =>
      obtain ⟨found, -, -, -, hwork, -⟩ :=
        hsound.attempting hphase (.inl hpoint)
      have hid : job.id ≠ id := by
        rintro rfl
        cases hwork.symm.trans hrow
      exact hquiet hrow (by simp [Silent, hid.symm])
  | crash => cases hcrash
  | _ => exact hquiet hrow (by simp [Silent])

theorem Tallied.empty_step (h : Tallied retry trace s)
    (hcrash : action.isCrash = false)
    (hstep : step retry s action = some (after, out))
    (hphase : after.phase ≠ .running) : after.work.row id = none := by
  cases move_of_step hstep with
  | reset hbefore =>
      exact Option.map_eq_none_iff.mpr (h.empty (by simp [hbefore]) id)
  | start hbefore | resetPost hbefore | resetCommit hbefore =>
      exact h.empty (by simp [hbefore]) id
  | run => exact absurd rfl hphase
  | crash => cases hcrash
  | tick | enqueuer | kill => exact h.empty hphase id
  | _ hrunning => exact absurd hrunning hphase

theorem tallied_of_reaches
    (hrun : Reaches (step retry) (fun _ action => action.isCrash = false) (init now)
      trace s) : Tallied retry trace s := by
  apply hrun.invariant_along (Tallied retry) tallied_init
  intro trace s action after out hearlier h hcrash hstep
  have hsound := sound_of_reaches hearlier
  exact ⟨fun hphase _ => h.empty_step hcrash hstep hphase,
    fun _ => h.fresh_step hsound hcrash hstep,
    fun _ _ => h.work_step hsound hcrash hstep⟩

/-! ## What a reader of the table sees -/

/-- The row of a reader that is not in flight, against the calls. -/
def Told (retry : RetryConfig) (trace : List Obs) (id : ℕ) (row : Row) :
    Prop :=
  (row.status = .pending →
    completed id trace = row.attempts ∧ ¬ Concluded retry id trace) ∧
  (row.status = .done ∨ row.status = .failed →
    completed id trace = row.attempts + 1 ∧ Concluded retry id trace)

/-- A worker whose claim is not committed yet is even. -/
theorem Sound.even_of_claim (h : Sound s) (hphase : s.phase = .running)
    (hpending : row.status = .pending)
    (hcommitted : s.committed.row id = some row)
    (hwork : s.work.row id = some row.claimed) :
    (s.worker row.cdnName).isEven := by
  have hflying : (s.worker row.claimed.cdnName).point.flying = some id :=
    h.flying_eq hphase rfl hwork rfl
  have hserves := (h.tended hphase row.cdnName).serves
  rw [claimed_cdnName] at hflying
  cases hpoint : (s.worker row.cdnName).point with
  | purging job | settling job change =>
      rw [hpoint] at hserves hflying
      obtain ⟨found, -, hstatus, -, -, hfound⟩ := hserves
      cases hflying
      cases hfound.symm.trans hcommitted
      cases hpending.symm.trans hstatus
  | _ => simp [Worker.isEven, hpoint]

theorem Tallied.told (h : Tallied retry trace s) (hsound : Sound s)
    (hrow : s.work.row id = some row ∨ s.committed.row id = some row)
    (hstatus : row.status ≠ .inFlight) : Told retry trace id row := by
  have hwork : s.work.row id = some row → Told retry trace id row :=
    fun hrow => ⟨(h.work id row hrow).pending, (h.work id row hrow).finished⟩
  rcases hrow with hrow | hrow
  · exact hwork hrow
  · obtain ⟨row', hrow', hfollows⟩ := hsound.follows hrow
    rcases hfollows with rfl | ⟨hpending, rfl⟩ | ⟨hflight, -⟩
    · exact hwork hrow'
    · have hphase : s.phase = .running := by
        by_contra hphase
        cases hrow'.symm.trans (h.empty hphase id)
      have heven := hsound.even_of_claim hphase hpending hrow hrow'
      refine ⟨fun _ => (h.work id _ hrow').waiting rfl heven, ?_⟩
      simp [hpending]
    · exact absurd hflight hstatus

/-- In every run without crashes, in the table as the connection and as a
reader of the file sees it: a row that is not in flight counts the calls of
`provider.purge` for its job that have ended if and only if each of them was
rescheduled.  Otherwise the column is one short. -/
theorem attempts_count_rescheduled_calls
    (hrun : Reaches (step retry) (fun _ action => action.isCrash = false) (init now)
      trace s)
    (hrow : s.work.row id = some row ∨ s.committed.row id = some row)
    (hstatus : row.status ≠ .inFlight) :
    (row.attempts = completed id trace ↔
      ∀ attempt result time, .purgeEnded id attempt result time ∈ trace →
        Retried retry attempt result) ∧
    (row.attempts ≠ completed id trace →
      row.attempts + 1 = completed id trace ∧ row.status ≠ .pending) := by
  have htallied := tallied_of_reaches hrun
  have hsound := sound_of_reaches hrun
  obtain ⟨hpending, hfinished⟩ := htallied.told hsound hrow hstatus
  have hopen : ¬ Concluded retry id trace ↔
      ∀ attempt result time, .purgeEnded id attempt result time ∈ trace →
        Retried retry attempt result := by
    simp [Concluded]
  cases hcase : row.status with
  | pending =>
      obtain ⟨hcompleted, hnot⟩ := hpending hcase
      exact ⟨iff_of_true hcompleted.symm (hopen.mp hnot),
        fun hne => absurd hcompleted.symm hne⟩
  | inFlight => exact absurd hcase hstatus
  | done | failed =>
      obtain ⟨hcompleted, hconcluded⟩ := hfinished (by simp [hcase])
      refine ⟨iff_of_false (by omega) fun h => hopen.mpr h hconcluded, ?_⟩
      exact fun _ => ⟨hcompleted.symm, by simp⟩

/-- One attempt fails and is rescheduled, the next one is not over. -/
theorem attempts_count_rescheduled_calls_sample :
    ∃ trace s row, Reaches (step {}) (fun _ action => action.isCrash = false)
        (init 0) trace s ∧
      s.committed.row 1 = some row ∧ row.attempts = 1 ∧
      (row.attempts = completed 1 trace ↔
        ∀ attempt result time, .purgeEnded 1 attempt result time ∈ trace →
          Retried {} attempt result) ∧
      (row.attempts ≠ completed 1 trace →
        row.attempts + 1 = completed 1 trace ∧ row.status ≠ .pending) := by
  obtain ⟨trace, s, hrun, hrow⟩ := exists_reaches_of_execute (step {})
    (init 0) (fun _ action => action.isCrash = false)
    (·.1.committed.row 1) (some ⟨"a", ["/x"], 1, 5, 0, .pending, none⟩)
    [.start, .boot, .boot, .boot, .boot, .enqueue 0 "a" ["/x"],
      .execEnqueue 0, .resumeEnqueue 0, .execEnqueue 0, .resumeWorker "a",
      .execWorker "a", .resumeWorker "a", .execWorker "a", .resumeWorker "a",
      .execWorker "a", .resumeWorker "a",
      .purgeEnd "a" (.ok ⟨false, true, "HTTP 503"⟩), .execWorker "a",
      .resumeWorker "a", .execWorker "a", .resumeWorker "a", .tick 5,
      .resumeWorker "a", .execWorker "a", .resumeWorker "a", .execWorker "a"]
    (by decide +kernel)
  exact ⟨trace, s, _, hrun, hrow, rfl,
    attempts_count_rescheduled_calls hrun (.inr hrow) (by simp)⟩

/-- A job that is done after one call says that there has been none. -/
theorem last_call_is_missing :
    ¬ ∀ (retry : RetryConfig) (now : ℚ) (trace : List Obs) (s : State) id row,
      Reaches (step retry) (fun _ action => action.isCrash = false) (init now)
          trace s →
        s.committed.row id = some row → row.status ≠ .inFlight →
          row.attempts = completed id trace := by
  intro hclaim
  obtain ⟨trace, s, hrun, hview⟩ := exists_reaches_of_execute (step {})
    (init 0) (fun _ action => action.isCrash = false)
    (fun final => (final.1.committed.row 1, completed 1 final.2))
    (some ⟨"a", ["/x"], 0, 0, 0, .done, none⟩, 1)
    [.start, .boot, .boot, .boot, .boot, .enqueue 0 "a" ["/x"],
      .execEnqueue 0, .resumeEnqueue 0, .execEnqueue 0, .resumeWorker "a",
      .execWorker "a", .resumeWorker "a", .execWorker "a", .resumeWorker "a",
      .execWorker "a", .resumeWorker "a",
      .purgeEnd "a" (.ok ⟨true, false, "ok"⟩), .execWorker "a",
      .resumeWorker "a", .execWorker "a"]
    (by decide +kernel)
  obtain ⟨hrow, hcompleted⟩ := Prod.ext_iff.mp hview
  have heq := hclaim {} 0 trace s 1 _ hrun hrow (by simp)
  rw [show completed 1 trace = 1 from hcompleted] at heq
  cases heq

end MirrorMirage.Queue
