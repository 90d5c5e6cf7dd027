import MirrorMirage.Queue.Spacing

/-!
# Which purges the worker survives

The `try` of `_queue_worker` covers the call of the provider and nothing after
it.  What follows has one exception of its own, the `OverflowError` of the
backoff: an iteration ends as it should, whatever else runs meanwhile, if and
only if it does not compute the backoff of an attempt after the 1024th
(`worker_survives_iff`).
-/

namespace MirrorMirage.Queue

open Function (update)
open MirrorMirage.Providers MirrorMirage.Run MirrorMirage.Worker

/-- The steps in which the process stays up, the queue operations of the worker
succeed and the worker begins no other iteration. -/
def closing (cdnName : String) (s : State) : Action → Bool
  | .crash => false
  | .killWorker other => other ≠ cdnName
  | .resumeWorker other =>
      other ≠ cdnName ∨ (s.worker cdnName).point ≠ .idle
  | _ => true

/-- The row that the iteration has to leave behind. -/
structure Closed (retry : RetryConfig) (endedAt : ℚ) (attempt : ℕ)
    (result : PurgeResult) (row : Row) : Prop where
  done : result.ok = true → row.status = .done
  retried : Retried retry attempt result →
    row.status = .pending ∧ row.attempts = attempt ∧
      row.nextAttemptAt = endedAt +
        min (retry.initialBackoffSeconds * 2 ^ (attempt - 1))
          retry.maxBackoffSeconds
  failed : result.ok = false → ¬ Retried retry attempt result →
    row.status = .failed ∧ row.message = some result.message

/-- From the end of the purge on, in every interleaving: the worker lives, it
can get to the end of its iteration, and there the row is closed. -/
def Outlives (retry : RetryConfig) (s : State) (cdnName : String) (job : Job)
    (outcome : Except String PurgeResult) : Prop :=
  ∃ after out, step retry s (.purgeEnd cdnName outcome) = some (after, out) ∧
    ∀ trace s', Reaches (step retry) (fun s action => closing cdnName s action)
        after trace s' →
      (s'.worker cdnName).alive ∧
      (∃ trace' final, Reaches (step retry)
          (fun s action => closing cdnName s action) s' trace' final ∧
        (final.worker cdnName).point = .idle) ∧
      ((s'.worker cdnName).point = .idle → ∃ row,
        s'.work.row job.id = some row ∧ s'.committed.row job.id = some row ∧
          Closed retry s.now (job.attempts + 1) (caught outcome) row)

/-! ## After the settlement -/

section Closing

variable {retry : RetryConfig} {s after : State} {cdnName : String}
variable {job : Job} {change : Update} {action : Action} {out : List Obs}

/-- The settlement is in both tables. -/
def Kept (s : State) (cdnName : String) (job : Job) (change : Update) : Prop :=
  ∃ before, before.cdnName = cdnName ∧ jobOf job.id before = job ∧
    s.work.row job.id = some (change.apply before) ∧
    s.committed.row job.id = some (change.apply before)

/-- The points from the settlement to the end of the iteration. -/
inductive Stage (s : State) (cdnName : String) (job : Job) (change : Update) :
    Point → Prop where
  | settling : Stage s cdnName job change (.settling job change)
  | settled : Stage s cdnName job change (.settled job change)
  | committing : Stage s cdnName job change (.settleCommitting job change)
  | committed (hkept : Kept s cdnName job change) :
      Stage s cdnName job change (.settleCommitted job change)
  | idle (hkept : Kept s cdnName job change) : Stage s cdnName job change .idle

structure Closing (s : State) (cdnName : String) (job : Job) (change : Update) :
    Prop where
  sound : Sound s
  phase : s.phase = .running
  alive : (s.worker cdnName).alive
  stage : Stage s cdnName job change (s.worker cdnName).point

theorem Stage.frame {point : Point} (h : Stage s cdnName job change point)
    (hkept : Kept s cdnName job change → Kept after cdnName job change) :
    Stage after cdnName job change point := by
  cases h with
  | settling => exact .settling
  | settled => exact .settled
  | committing => exact .committing
  | committed h => exact .committed (hkept h)
  | idle h => exact .idle (hkept h)

/-- Rows of the CDN that stay in the connection's view stay in both tables,
whether or not there is a commit. -/
theorem Kept.frame (h : Kept s cdnName job change)
    (hwork : ∀ row, row.cdnName = cdnName → s.work.row job.id = some row →
      after.work.row job.id = some row)
    (hcommitted : after.committed = s.committed ∨
      after.committed = s.work) :
    Kept after cdnName job change := by
  obtain ⟨before, hcdn, hjob, hrow, hsaved⟩ := h
  refine ⟨before, hcdn, hjob, hwork _ (by simpa using hcdn) hrow, ?_⟩
  rcases hcommitted with heq | heq <;> rw [heq]
  · exact hsaved
  · exact hrow

/-- What leaves the worker and the rows of its CDN alone. -/
theorem Closing.frame (h : Closing s cdnName job change)
    (hsound : Sound after) (hphase : after.phase = .running)
    (hworker : after.worker cdnName = s.worker cdnName)
    (hwork : ∀ row, row.cdnName = cdnName → s.work.row job.id = some row →
      after.work.row job.id = some row)
    (hcommitted : after.committed = s.committed ∨
      after.committed = s.work) : Closing after cdnName job change where
  sound := hsound
  phase := hphase
  alive := hworker ▸ h.alive
  stage := hworker ▸ h.stage.frame fun hkept => hkept.frame hwork hcommitted

/-- The worker's own way to the end of the iteration. -/
theorem Closing.moved (h : Closing s cdnName job change)
    (hsound : Sound after) {point : Point}
    (hphase : after.phase = s.phase)
    (hworker : after.worker = (s.goto cdnName point).worker)
    (hstage : Stage after cdnName job change point) :
    Closing after cdnName job change := by
  refine ⟨hsound, hphase.trans h.phase, ?_, ?_⟩ <;>
    simp only [hworker, State.goto, Function.update_self]
  · exact h.alive
  · exact hstage

/-- A move of another worker that leaves the rows as they are. -/
theorem Closing.bystander (h : Closing s cdnName job change)
    (hsound : Sound after) (hphase : after.phase = s.phase) {other : String}
    (hother : other ≠ cdnName) {worker : Worker}
    (hworker : after.worker = update s.worker other worker)
    (hwork : after.work = s.work)
    (hcommitted : after.committed = s.committed ∨
      after.committed = s.work) : Closing after cdnName job change :=
  h.frame hsound (hphase.trans h.phase)
    (by simp [hworker, Ne.symm hother])
    (fun _ _ hrow => hwork ▸ hrow) hcommitted

theorem Closing.stage_at (h : Closing s cdnName job change) {point : Point}
    (hpoint : (s.worker cdnName).point = point) :
    Stage s cdnName job change point :=
  hpoint ▸ h.stage

theorem Closing.move (h : Closing s cdnName job change)
    (hallowed : closing cdnName s action)
    (hmove : Move retry s action after out) :
    Closing after cdnName job change := by
  have hsound := sound_move h.sound hmove
  have hrunning := h.phase
  cases hmove with
  | tick | enqueuer =>
      exact h.frame hsound hrunning rfl (fun _ _ hrow => hrow) (.inl rfl)
  | start hphase | reset hphase | resetPost hphase | resetCommit hphase
  | run hphase => cases hphase.symm.trans hrunning
  | insert =>
      refine h.frame hsound hrunning rfl (fun row _ hrow => ?_) (.inl rfl)
      have hid : job.id ≠ s.work.nextId := by
        intro hid
        cases hrow.symm.trans (h.sound.freshWork _ hid.ge)
      simpa [Db.insert, hid] using hrow
  | enqueueCommit =>
      exact h.frame hsound hrunning rfl (fun _ _ hrow => hrow) (.inr rfl)
  | @settle other job' change' hphase hpoint =>
      by_cases hother : other = cdnName
      · subst hother
        cases h.stage_at hpoint
        exact h.moved hsound rfl rfl .settled
      · refine h.frame hsound hrunning (by simp [State.goto, Ne.symm hother])
          (fun row hcdn hrow => ?_) (.inl rfl)
        obtain ⟨found, hfound, -, -, hwork, -⟩ :=
          h.sound.attempting hphase (.inr ⟨change', hpoint⟩)
        have hid : job.id ≠ job'.id := by
          intro hid
          cases hwork.symm.trans (hid ▸ hrow)
          exact hother (hfound.symm.trans hcdn)
        simpa [hid] using hrow
  | @claim other id found hphase hpoint =>
      obtain ⟨hwork, hfound, hpending⟩ :=
        (h.sound.tended_at hphase hpoint).serves
      simp only [claim_of_pending hwork hpending] at *
      by_cases hother : other = cdnName
      · subst hother
        cases h.stage_at hpoint
      · refine h.frame hsound hrunning (by simp [State.goto, Ne.symm hother])
          (fun row hcdn hrow => ?_) (.inl rfl)
        have hid : job.id ≠ id := by
          rintro rfl
          cases hwork.symm.trans hrow
          exact hother (hfound.symm.trans hcdn)
        simpa [hid] using hrow
  | @settleCommit other job' change' hphase hpoint =>
      by_cases hother : other = cdnName
      · subst hother
        cases h.stage_at hpoint
        obtain ⟨before, hcdn, -, hjob, hwork, -⟩ :=
          (h.sound.tended_at hphase hpoint).serves
        exact h.moved hsound rfl rfl
          (.committed ⟨before, hcdn, hjob, hwork, hwork⟩)
      · exact h.bystander hsound rfl hother rfl rfl (.inr rfl)
  | @settleCommitPost other job' change' hphase hpoint =>
      by_cases hother : other = cdnName
      · subst hother
        cases h.stage_at hpoint
        exact h.moved hsound rfl rfl .committing
      · exact h.bystander hsound rfl hother rfl rfl (.inl rfl)
  | @next other job' change' hphase hpoint =>
      by_cases hother : other = cdnName
      · subst hother
        cases h.stage_at hpoint with
        | committed hkept => exact h.moved hsound rfl rfl (.idle hkept)
      · exact h.bystander hsound rfl hother rfl rfl (.inl rfl)
  | @claimCommit other id row rowcount hphase hpoint =>
      by_cases hother : other = cdnName
      · subst hother
        cases h.stage_at hpoint
      · exact h.bystander hsound rfl hother rfl rfl (.inr rfl)
  | @poll other hphase hpoint =>
      by_cases hother : other = cdnName
      · subst hother
        simp [closing, hpoint] at hallowed
      · exact h.bystander hsound rfl hother rfl rfl (.inl rfl)
  | @kill other =>
      have hother : other ≠ cdnName := of_decide_eq_true hallowed
      exact h.bystander hsound rfl hother rfl rfl (.inl rfl)
  | crash => cases hallowed
  | @select other _ hphase hpoint | @sleep other hphase hpoint
  | @claimPost other _ _ hphase hpoint
  | @claimCommitPost other _ _ _ hphase hpoint
  | @claimLost other _ _ hphase hpoint
  | @purge other _ _ _ hphase _ hpoint
  | @purgeEnd other _ _ _ _ hphase hpoint
  | @purgeRaise other _ _ _ hphase hpoint =>
      by_cases hother : other = cdnName
      · subst hother
        cases h.stage_at hpoint
      · exact h.bystander hsound rfl hother rfl rfl (.inl rfl)

def Point.remaining : Point → ℕ
  | .settling _ _ => 4
  | .settled _ _ => 3
  | .settleCommitting _ _ => 2
  | .settleCommitted _ _ => 1
  | _ => 0

/-- The worker can do what is left to do. -/
theorem Closing.exists_end (h : Closing s cdnName job change) :
    ∃ trace final, Reaches (step retry)
        (fun s action => closing cdnName s action) s trace final ∧
      (final.worker cdnName).point = .idle := by
  refine exists_reaches_of_measure (Closing · cdnName job change)
    (fun s => (s.worker cdnName).point = .idle)
    (fun s => (s.worker cdnName).point.remaining) ?_ h
  intro s h hidle
  have hnext : ∀ action after out, closing cdnName s action →
      step retry s action = some (after, out) →
        (after.worker cdnName).point.remaining <
            (s.worker cdnName).point.remaining →
          ∃ action after out, closing cdnName s action = true ∧
            step retry s action = some (after, out) ∧
              Closing after cdnName job change ∧
                (after.worker cdnName).point.remaining <
                  (s.worker cdnName).point.remaining :=
    fun action after out hallowed hstep hlt => ⟨action, after, out, hallowed,
      hstep, h.move hallowed (move_of_step hstep), hlt⟩
  generalize hpoint : (s.worker cdnName).point = point at hidle hnext
  cases hpoint ▸ h.stage with
  | settling | committing =>
      refine hnext (.execWorker cdnName) _ _ rfl
        (by simp only [step, h.phase, if_true, execWorker, hpoint]; rfl) ?_
      simp [Point.remaining]
  | settled | committed =>
      refine hnext (.resumeWorker cdnName) _ _ (by simp [closing, hpoint])
        (by simp only [step, h.phase, h.alive, and_self, if_true,
          resumeWorker, hpoint]; rfl) ?_
      simp [Point.remaining]
  | idle => exact absurd rfl hidle

end Closing

/-! ## The end of a purge -/

variable {retry : RetryConfig} {now : ℚ} {attempt : ℕ} {result : PurgeResult}

theorem closed_of_settle {settlement : Settlement}
    (hsettle : settle retry attempt result = .ok settlement) (row : Row) :
    Closed retry now attempt result ((statement now settlement).apply row) := by
  unfold settle at hsettle
  split at hsettle
  · rename_i hok
    cases hsettle
    exact ⟨fun _ => rfl, fun hretried => by simp [hretried.1] at hok,
      fun hno => by simp [hno] at hok⟩
  · rename_i hok
    split at hsettle
    · rename_i hretry
      cases hcase : exponentialBackoff attempt retry.initialBackoffSeconds
        retry.maxBackoffSeconds with
      | error error => simp [hcase, Except.map] at hsettle
      | ok backoff =>
          simp only [hcase, Except.map, Except.ok.injEq] at hsettle
          subst hsettle
          refine ⟨fun hyes => absurd hyes hok, fun _ => ⟨rfl, rfl, ?_⟩,
            fun hno hnot => absurd ⟨hno, hretry⟩ hnot⟩
          rw [exponentialBackoff_ok hcase]
          rfl
    · rename_i hretry
      cases hsettle
      exact ⟨fun hyes => absurd hyes hok,
        fun hretried => absurd hretried.2 hretry, fun _ _ => ⟨rfl, rfl⟩⟩

theorem not_outlives {s : State} {cdnName : String} {job : Job}
    {outcome : Except String PurgeResult} {error : String}
    (hphase : s.phase = .running) (halive : (s.worker cdnName).alive)
    (hpoint : (s.worker cdnName).point = .purging job)
    (hsettle : settle retry (job.attempts + 1) (caught outcome) =
      .error error) : ¬ Outlives retry s cdnName job outcome := by
  rintro ⟨after, out, hstep, hrest⟩
  have halive' := (hrest _ _ .refl).1
  simp only [step, hphase, halive, and_self, if_true, purgeEnd, hpoint,
    hsettle, Option.some.injEq, Prod.mk.injEq] at hstep
  obtain ⟨rfl, -⟩ := hstep
  simp at halive'

/-- In every reachable state in which a worker is in its purge, whatever the
purge then returns or raises and whatever runs meanwhile: the worker lives to
the end of its iteration, which leaves the row done, failed, or pending after
its backoff, if and only if it does not retry an attempt after the 1024th. -/
theorem worker_survives_iff {allowed : State → Action → Prop}
    {trace : List Obs} {s : State} {cdnName : String} {job : Job}
    (hrun : Reaches (step retry) allowed (init now) trace s)
    (hphase : s.phase = .running) (halive : (s.worker cdnName).alive)
    (hpoint : (s.worker cdnName).point = .purging job)
    (outcome : Except String PurgeResult) :
    Outlives retry s cdnName job outcome ↔
      (Retried retry (job.attempts + 1) (caught outcome) →
        job.attempts + 1 ≤ 1024) := by
  have hsound := sound_of_reaches hrun
  rw [← settle_ok_iff (Nat.le_add_left 1 job.attempts)]
  constructor
  · intro hlives
    cases hcase : settle retry (job.attempts + 1) (caught outcome) with
    | ok settlement => exact ⟨settlement, rfl⟩
    | error error =>
        exact absurd hlives (not_outlives hphase halive hpoint hcase)
  · rintro ⟨settlement, hsettle⟩
    have hstep : step retry s (.purgeEnd cdnName outcome) =
        some (s.goto cdnName (.settling job (statement s.now settlement)),
          [.purgeEnded job.id (job.attempts + 1) (caught outcome) s.now]) := by
      simp only [step, hphase, halive, and_self, if_true, purgeEnd, hpoint,
        hsettle]
    refine ⟨_, _, hstep, fun trace' s' hrest => ?_⟩
    have hclosing : Closing s' cdnName job (statement s.now settlement) := by
      refine hrest.invariant (fun _ s' =>
        Closing s' cdnName job (statement s.now settlement)) ?_ ?_
      · refine ⟨sound_move hsound (move_of_step hstep), hphase, ?_, ?_⟩ <;>
          simp only [State.goto, Function.update_self]
        · exact halive
        · exact .settling
      · exact fun h hallowed hstep => h.move hallowed (move_of_step hstep)
    refine ⟨hclosing.alive, hclosing.exists_end, fun hidle => ?_⟩
    cases hclosing.stage_at hidle with
    | idle hkept =>
        obtain ⟨before, -, -, hwork, hcommitted⟩ := hkept
        exact ⟨_, hwork, hcommitted, closed_of_settle hsettle before⟩

/-! ## A long outage -/

section Outage

/-- The table with one row. -/
def solo (row : Row) : Db := ⟨update (fun _ => none) 1 (some row), 2⟩

theorem solo_selectReady {row : Row} {cdnName : String} {now : ℚ}
    (hready : row.isReady cdnName now) :
    (solo row).selectReady cdnName now = some (1, row) := by
  simp [Db.selectReady, Db.rows, solo, List.range_succ, hready]

@[simp] theorem solo_modify (row : Row) (change : Row → Row) :
    (solo row).modify 1 change = solo (change row) := by
  simp [solo, Db.modify]

/-- The only job there is waits for an attempt, and its worker is idle. -/
structure Outage (attempts : ℕ) (s : State) : Prop where
  phase : s.phase = .running
  worker : s.worker "a" = ⟨.idle, true⟩
  table : ∃ row, s.work = solo row ∧ row.cdnName = "a" ∧
    row.status = .pending ∧ row.attempts = attempts

theorem Outage.exists_purging (retry : RetryConfig) {attempts : ℕ} {s : State}
    (h : Outage attempts s) :
    ∃ trace s' row, Reaches (step retry) (fun _ _ => True) s trace s' ∧
      s'.phase = .running ∧ s'.work = solo row ∧ row.cdnName = "a" ∧
      row.attempts = attempts ∧
      s'.worker "a" = ⟨.purging (jobOf 1 row), true⟩ := by
  obtain ⟨hphase, hworker, row, hwork, hcdn, hpending, rfl⟩ := h
  have hready : row.isReady "a" row.nextAttemptAt := by
    simp [Row.isReady, hcdn, hpending]
  have hclaim : (solo row).claim 1 = (solo row.claimed, 1) := by
    rw [claim_of_pending (by simp [solo]) hpending, solo_modify]
  have hrun : ∃ final, execute (step retry) (fun _ _ => True) s
      [.tick row.nextAttemptAt, .resumeWorker "a", .execWorker "a",
        .resumeWorker "a", .execWorker "a", .resumeWorker "a",
        .execWorker "a", .resumeWorker "a"] = some final ∧
      final.1.phase = .running ∧ final.1.work = solo row.claimed ∧
      final.1.worker "a" = ⟨.purging (jobOf 1 row.claimed), true⟩ := by
    simp [execute, step, resumeWorker, execWorker, State.goto, State.commit,
      hphase, hworker, hwork, solo_selectReady hready, hclaim]
    rfl
  obtain ⟨final, hfinal, hphase', hwork', hworker'⟩ := hrun
  exact ⟨_, _, row.claimed, Reaches.refl.execute hfinal, hphase', hwork', hcdn,
    rfl, hworker'⟩

theorem exists_outage_succ {s : State} {row : Row}
    (hphase : s.phase = .running) (hwork : s.work = solo row)
    (hcdn : row.cdnName = "a")
    (hworker : s.worker "a" = ⟨.purging (jobOf 1 row), true⟩)
    (hattempts : row.attempts + 1 ≤ 1024)
    (hmax : (row.attempts + 1 : ℤ) < retry.maxAttempts) :
    ∃ trace s', Reaches (step retry) (fun _ _ => True) s trace s' ∧
      Outage (row.attempts + 1) s' := by
  obtain ⟨settlement, hsettle⟩ : ∃ settlement, settle retry
      (row.attempts + 1) ⟨false, true, "HTTP 503"⟩ = .ok settlement :=
    (settle_ok_iff (Nat.le_add_left 1 row.attempts)).mpr fun _ => hattempts
  obtain ⟨backoff, rfl⟩ :=
    (retried_iff hsettle).mp ⟨rfl, rfl, by exact_mod_cast hmax⟩
  have hrun : ∃ final, execute (step retry) (fun _ _ => True) s
      [.purgeEnd "a" (.ok ⟨false, true, "HTTP 503"⟩), .execWorker "a",
        .resumeWorker "a", .execWorker "a", .resumeWorker "a"] = some final ∧
      final.1.phase = .running ∧ final.1.worker "a" = ⟨.idle, true⟩ ∧
      final.1.work = solo ((Update.reschedule (row.attempts + 1)
        (s.now + backoff)).apply row) := by
    simp [execute, step, resumeWorker, execWorker, purgeEnd, State.goto,
      State.commit, hphase, hworker, hwork, caught, jobOf, hsettle, statement]
  obtain ⟨final, hfinal, hphase', hworker', hwork'⟩ := hrun
  exact ⟨_, _, Reaches.refl.execute hfinal, hphase', hworker', _, hwork',
    by simpa using hcdn, rfl, rfl⟩

theorem exists_outage {attempts : ℕ} (hattempts : attempts ≤ 1024)
    (hmax : (attempts : ℤ) < retry.maxAttempts) :
    ∃ trace s, Reaches (step retry) (fun _ _ => True) (init 0) trace s ∧
      Outage attempts s := by
  induction attempts with
  | zero =>
      have hrun : ∃ final, execute (step retry) (fun _ _ => True) (init 0)
          [.start, .boot, .boot, .boot, .boot, .enqueue 0 "a" ["/x"],
            .execEnqueue 0] = some final ∧ final.1.phase = .running ∧
          final.1.worker "a" = ⟨.idle, true⟩ ∧
          final.1.work = solo ⟨"a", ["/x"], 0, 0, 0, .pending, none⟩ :=
        ⟨_, rfl, rfl, rfl, rfl⟩
      obtain ⟨final, hfinal, hphase, hworker, hwork⟩ := hrun
      exact ⟨_, _, Reaches.refl.execute hfinal, hphase, hworker, _, hwork, rfl,
        rfl, rfl⟩
  | succ attempts ih =>
      obtain ⟨trace, s, hrun, houtage⟩ := ih (by omega) (by push_cast at hmax; omega)
      obtain ⟨trace', s', row, hrun', hphase, hwork, hcdn, rfl, hworker⟩ :=
        houtage.exists_purging retry
      obtain ⟨trace'', s'', hrun'', houtage'⟩ :=
        exists_outage_succ hphase hwork hcdn hworker hattempts
          (by exact_mod_cast hmax)
      exact ⟨_, s'', (hrun.trans hrun').trans hrun'', houtage'⟩

/-- A job may fail with a retryable result as long as it gets a backoff. -/
theorem exists_attempt (retry : RetryConfig) {attempts : ℕ}
    (hattempts : attempts ≤ 1024) (hmax : (attempts : ℤ) < retry.maxAttempts) :
    ∃ trace s job, Reaches (step retry) (fun _ _ => True) (init 0) trace s ∧
      s.phase = .running ∧ (s.worker "a").alive ∧
      (s.worker "a").point = .purging job ∧ job.attempts = attempts := by
  obtain ⟨trace, s, hrun, houtage⟩ := exists_outage hattempts hmax
  obtain ⟨trace', s', row, hrun', hphase, -, -, rfl, hworker⟩ :=
    houtage.exists_purging retry
  exact ⟨_, s', jobOf 1 row, hrun.trans hrun', hphase, by rw [hworker],
    by rw [hworker], rfl⟩

end Outage

/-- A first attempt that fails, with the default settings. -/
theorem worker_survives_iff_sample :
    ∃ trace s job, Reaches (step {}) (fun _ _ => True) (init 0) trace s ∧
      (Outlives {} s "a" job (.ok ⟨false, true, "HTTP 503"⟩) ↔
        (Retried {} (job.attempts + 1)
          (caught (.ok ⟨false, true, "HTTP 503"⟩)) →
            job.attempts + 1 ≤ 1024)) ∧ job.attempts + 1 ≤ 1024 := by
  obtain ⟨trace, s, job, hrun, hphase, halive, hpoint, hattempts⟩ :=
    exists_attempt {} (Nat.zero_le 1024) (by decide)
  exact ⟨trace, s, job, hrun, worker_survives_iff hrun hphase halive hpoint _,
    by omega⟩

/-- The 1025th failed attempt at a job ends its worker. -/
theorem backoff_overflow_ends_worker :
    ¬ ∀ (retry : RetryConfig) (now : ℚ) (trace : List Obs) (s : State)
        (cdnName : String) (job : Job) (outcome : Except String PurgeResult),
      Reaches (step retry) (fun _ _ => True) (init now) trace s →
        s.phase = .running → (s.worker cdnName).alive →
          (s.worker cdnName).point = .purging job →
            Outlives retry s cdnName job outcome := by
  intro hclaim
  obtain ⟨trace, s, job, hrun, hphase, halive, hpoint, hattempts⟩ :=
    exists_attempt { maxAttempts := 2000 } le_rfl (by decide)
  have hsettle : settle { maxAttempts := 2000 } (job.attempts + 1)
      (caught (.ok ⟨false, true, "HTTP 503"⟩)) =
        .error "int too large to convert to float" := by
    simp [settle, caught, hattempts, exponentialBackoff, Except.map]
  exact not_outlives hphase halive hpoint hsettle
    (hclaim _ 0 trace s "a" job _ hrun hphase halive hpoint)

end MirrorMirage.Queue
