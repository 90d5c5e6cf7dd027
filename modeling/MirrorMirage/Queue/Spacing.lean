import MirrorMirage.Core.Since
import MirrorMirage.Queue.Lifecycle

/-!
# Attempts, backoffs and the clock

A row carries the number of its last rescheduled attempt and the time before
which it is not to be claimed.  `Recorded` says what a trace implies for these
fields, `Prepared` what it implies for the settlement that a worker is about
to execute, and `Paced` that all rows and workers are in order.  The clock of
these runs does not go back.
-/

namespace MirrorMirage.Queue

open Function (update)
open MirrorMirage.Run MirrorMirage.Trace MirrorMirage.Worker

/-- The clock does not go back. -/
def forward (s : State) : Action → Bool
  | .tick time => s.now ≤ time
  | _ => true

/-- An attempt of the job is over. -/
def Obs.Ends (id : ℕ) : Obs → Prop
  | .purgeEnded other _ _ _ => other = id
  | _ => False

/-- An attempt of the job has failed for good. -/
def Obs.GivesUp (retry : RetryConfig) (id : ℕ) : Obs → Prop
  | .purgeEnded other attempt result _ =>
      other = id ∧ result.ok = false ∧
        (result.retryable = true → retry.maxAttempts ≤ attempt)
  | _ => False

/-- What `exponential_backoff` gives the worker after an attempt. -/
def backoff (retry : RetryConfig) (attempt : ℕ) : ℚ :=
  min (retry.initialBackoffSeconds * 2 ^ (attempt - 1)) retry.maxBackoffSeconds

/-- The attempts of the job whose reschedule was committed failed their
backoff before the given time. -/
def Spaced (retry : RetryConfig) (id : ℕ) (time : ℚ) (trace : List Obs) :
    Prop :=
  Justified (fun earlier event => ∀ rows row result failedAt,
    event = .committed rows → (id, row) ∈ rows →
      .purgeEnded id row.attempts result failedAt ∈ earlier →
        failedAt + backoff retry row.attempts ≤ time) trace

/-- What the trace says of a row. -/
structure Recorded (retry : RetryConfig) (trace : List Obs) (now : ℚ) (id : ℕ)
    (row : Row) : Prop where
  attempts : (row.attempts + 1 : ℤ) ≤ max 1 retry.maxAttempts
  due : row.status = .inFlight → row.nextAttemptAt ≤ now
  failed : row.status = .failed →
    Since (·.GivesUp retry id) (·.Ends id) trace
  after : ∀ result failedAt,
    .purgeEnded id row.attempts result failedAt ∈ trace →
      failedAt + backoff retry row.attempts ≤ row.nextAttemptAt
  spaced : Spaced retry id (max now row.nextAttemptAt) trace

/-- What the trace says of the point of a worker. -/
def Prepared (retry : RetryConfig) (trace : List Obs) (now : ℚ) :
    Point → Prop
  | .selecting time => time ≤ now
  | .selected (some (_, row)) | .updating _ row => row.nextAttemptAt ≤ now
  | .settling job (.reschedule attempts nextAttemptAt) =>
      attempts = job.attempts + 1 ∧ (attempts : ℤ) < retry.maxAttempts ∧
        ∀ result failedAt,
          .purgeEnded job.id attempts result failedAt ∈ trace →
            failedAt + backoff retry attempts ≤ nextAttemptAt
  | .settling job (.failed _) =>
      Since (·.GivesUp retry job.id) (·.Ends job.id) trace
  | _ => True

structure Paced (retry : RetryConfig) (trace : List Obs) (s : State) :
    Prop where
  work : ∀ id row, s.work.row id = some row →
    Recorded retry trace s.now id row
  committed : ∀ id row, s.committed.row id = some row →
    Recorded retry trace s.now id row
  points : ∀ cdnName, Prepared retry trace s.now (s.worker cdnName).point
  past : ∀ id attempt result time,
    .purgeEnded id attempt result time ∈ trace →
      time ≤ s.now ∧ s.committed.row id ≠ none
  claims : Justified (fun before event => ∀ id attempt time,
    event = .claimed id attempt time → Spaced retry id time before) trace

variable {retry : RetryConfig} {trace out : List Obs} {s after : State}
variable {action : Action} {now : ℚ} {id : ℕ} {row : Row}

theorem paced_init : Paced retry [] (init now) where
  work := by simp [init]
  committed := by simp [init]
  points := fun _ => trivial
  past := by simp
  claims := justified_nil

/-! ## Rows along a trace -/

section Recorded

variable {now' : ℚ}

theorem Spaced.mono {time time' : ℚ} (h : Spaced retry id time trace)
    (htime : time ≤ time') : Spaced retry id time' trace :=
  Justified.mono h fun _ _ hspaced rows found result failedAt heq hfound
    hmem => (hspaced rows found result failedAt heq hfound hmem).trans htime

/-- What is observed elsewhere, and commits of the row as it is. -/
theorem Recorded.append (h : Recorded retry trace now id row)
    (hnow : now ≤ now') (hends : ∀ event ∈ out, ¬ event.Ends id)
    (hcommits : ∀ rows found, .committed rows ∈ out → (id, found) ∈ rows →
      found = row) :
    Recorded retry (trace ++ out) now' id row where
  attempts := h.attempts
  due := fun hstatus => (h.due hstatus).trans hnow
  failed := fun hstatus => since_append.mpr (.inr ⟨h.failed hstatus, hends⟩)
  after := by
    intro result failedAt hmem
    rcases List.mem_append.mp hmem with hmem | hmem
    · exact h.after result failedAt hmem
    · exact absurd rfl (hends _ hmem)
  spaced := by
    refine justified_append.mpr
      ⟨h.spaced.mono (max_le_max hnow le_rfl), ?_⟩
    rintro before event rest rfl rows found result failedAt rfl hfound hmem
    obtain rfl := hcommits rows found (by simp) hfound
    rcases List.mem_append.mp hmem with hmem | hmem
    · exact (h.after result failedAt hmem).trans (le_max_right _ _)
    · exact absurd rfl (hends _ (List.mem_append_left _ hmem))

/-- The end of an attempt that the row does not count yet. -/
theorem Recorded.ended (h : Recorded retry trace now id row)
    (hstatus : row.status = .inFlight) (result : Providers.PurgeResult)
    (time : ℚ) :
    Recorded retry
      (trace ++ [.purgeEnded id (row.attempts + 1) result time]) now id row
    where
  attempts := h.attempts
  due := h.due
  failed := by simp [hstatus]
  after := by
    intro found failedAt hmem
    simp only [List.mem_append, List.mem_singleton, Obs.purgeEnded.injEq,
      Nat.left_eq_add, one_ne_zero, false_and, and_false, or_false] at hmem
    exact h.after found failedAt hmem
  spaced := justified_append.mpr ⟨h.spaced, by simp⟩

theorem Recorded.claimed (h : Recorded retry trace now id row)
    (hdue : row.nextAttemptAt ≤ now) :
    Recorded retry trace now id row.claimed where
  attempts := h.attempts
  due := fun _ => hdue
  failed := by simp
  after := h.after
  spaced := h.spaced

theorem Recorded.reset (h : Recorded retry trace now id row) :
    Recorded retry trace now id row.reset where
  attempts := by simpa using h.attempts
  due := fun hstatus => absurd hstatus reset_status_ne
  failed := by
    intro hstatus
    refine h.failed ?_
    unfold Row.reset at hstatus
    split at hstatus
    · cases hstatus
    · exact hstatus
  after := by simpa using h.after
  spaced := by simpa using h.spaced

/-- A settlement of a row in flight that the worker is prepared for. -/
theorem Recorded.apply (h : Recorded retry trace now id row)
    (hstatus : row.status = .inFlight) {job : Job} {change : Update}
    (hprepared : Prepared retry trace now (.settling job change))
    (hid : job.id = id) :
    Recorded retry trace now id (change.apply row) := by
  subst hid
  have hspaced : ∀ time, Spaced retry job.id (max now time) trace :=
    fun time => h.spaced.mono (by simp [h.due hstatus])
  cases change with
  | done => exact ⟨h.attempts, by simp [Update.apply],
      by simp [Update.apply], h.after, h.spaced⟩
  | reschedule attempts nextAttemptAt =>
      obtain ⟨-, hlt, hafter⟩ := hprepared
      refine ⟨?_, by simp [Update.apply], by simp [Update.apply], hafter,
        hspaced _⟩
      have hmax := le_max_right 1 retry.maxAttempts
      simp only [Update.apply]
      omega
  | failed message => exact ⟨h.attempts, by simp [Update.apply],
      fun _ => hprepared, h.after, h.spaced⟩

/-- A row that has just been inserted. -/
theorem Recorded.inserted (hattempts : row.attempts = 0)
    (hstatus : row.status = .pending)
    (hfresh : ∀ attempt result time,
      .purgeEnded id attempt result time ∉ trace) :
    Recorded retry trace now id row where
  attempts := by simp [hattempts]
  due := by simp [hstatus]
  failed := by simp [hstatus]
  after := fun result failedAt hmem => absurd hmem (hfresh _ _ _)
  spaced := by
    rintro before event rest rfl rows found result failedAt rfl _ hmem
    exact absurd (List.mem_append_left _ hmem) (hfresh _ _ _)

end Recorded

/-! ## Moves -/

/-- A worker from its purge to its settlement has its row in flight, in both
tables. -/
theorem Sound.attempting (hsound : Sound s) (hphase : s.phase = .running)
    {cdnName : String} {job : Job}
    (hpoint : (s.worker cdnName).point = .purging job ∨
      ∃ change, (s.worker cdnName).point = .settling job change) :
    ∃ row, row.cdnName = cdnName ∧ row.status = .inFlight ∧
      row.attempts = job.attempts ∧ s.work.row job.id = some row ∧
      s.committed.row job.id = some row := by
  rcases hpoint with hpoint | ⟨change, hpoint⟩ <;>
    obtain ⟨row, hcdn, hstatus, hjob, hwork, hcommitted⟩ :=
      (hsound.tended_at hphase hpoint).serves <;>
    exact ⟨row, hcdn, hstatus, congrArg Job.attempts hjob, hwork, hcommitted⟩

theorem Paced.recorded (h : Paced retry trace s)
    (hrow : s.work.row id = some row ∨ s.committed.row id = some row) :
    Recorded retry trace s.now id row :=
  hrow.elim (h.work id row) (h.committed id row)

/-- The end of an attempt, of this job or another. -/
theorem Paced.observe_end (h : Paced retry trace s) (hsound : Sound s)
    (hphase : s.phase = .running) {cdnName : String} {job : Job}
    (hpoint : (s.worker cdnName).point = .purging job)
    (hrow : s.work.row id = some row ∨ s.committed.row id = some row)
    (result : Providers.PurgeResult) :
    Recorded retry
      (trace ++ [.purgeEnded job.id (job.attempts + 1) result s.now]) s.now id
      row := by
  obtain ⟨found, -, hstatus, hattempts, hwork, hcommitted⟩ :=
    hsound.attempting hphase (.inl hpoint)
  by_cases hid : job.id = id
  · subst hid
    obtain rfl : row = found := by
      rcases hrow with hrow | hrow
      · exact Option.some.inj (hrow.symm.trans hwork)
      · exact Option.some.inj (hrow.symm.trans hcommitted)
    exact hattempts ▸ (h.recorded hrow).ended hstatus result s.now
  · exact (h.recorded hrow).append le_rfl (by simpa [Obs.Ends] using hid)
      (by simp)

/-- A row is recorded after a move as well, unless the move commits other
fields for it. -/
theorem Paced.observe (h : Paced retry trace s) (hsound : Sound s)
    (hforward : forward s action) (hmove : Move retry s action after out)
    (hrow : s.work.row id = some row ∨ (s.committed.row id = some row ∧
      ∀ rows, .committed rows ∉ out)) :
    Recorded retry (trace ++ out) after.now id row := by
  have hrec : Recorded retry trace s.now id row :=
    h.recorded (hrow.imp_right And.left)
  cases hmove with
  | tick =>
      exact hrec.append (of_decide_eq_true hforward) (by simp) (by simp)
  | resetCommit | enqueueCommit | claimCommit | settleCommit =>
      rcases hrow with hrow | ⟨-, hno⟩
      · refine hrec.append le_rfl (by simp [Obs.Ends]) ?_
        intro rows found hmem hfound
        obtain rfl : rows = s.work.rows := by simpa using hmem
        exact Option.some.inj ((mem_rows_iff.mp hfound).2.symm.trans hrow)
      · exact absurd (List.mem_singleton_self _) (hno _)
  | claim =>
      refine hrec.append le_rfl ?_ ?_ <;> split <;> simp [Obs.Ends]
  | purgeEnd hphase hpoint | purgeRaise hphase hpoint =>
      exact h.observe_end hsound hphase hpoint (hrow.imp_right And.left) _
  | _ => exact hrec.append le_rfl (by simp [Obs.Ends]) (by simp)

/-! ## One step -/

theorem Paced.work_move (h : Paced retry trace s) (hsound : Sound s)
    (hforward : forward s action) (hmove : Move retry s action after out)
    (hrow : after.work.row id = some row) :
    Recorded retry (trace ++ out) after.now id row := by
  have hobserve : ∀ {found}, s.work.row id = some found →
      Recorded retry (trace ++ out) after.now id found :=
    fun hfound => h.observe hsound hforward hmove (.inl hfound)
  cases hmove with
  | reset =>
      obtain ⟨found, hfound, rfl⟩ := Option.map_eq_some_iff.mp hrow
      exact (hobserve hfound).reset
  | crash =>
      exact h.observe hsound hforward .crash (.inr ⟨hrow, by simp⟩)
  | @insert call cdnName urls now hphase =>
      by_cases hid : id = s.work.nextId
      · subst hid
        obtain rfl : _ = row := by simpa [Db.insert] using hrow
        refine .inserted rfl rfl fun attempt result time hmem => ?_
        rw [List.append_nil] at hmem
        exact (h.past _ _ _ _ hmem).2
          (hsound.freshCommitted _ hsound.nextId_le)
      · exact hobserve (by simpa [Db.insert, hid] using hrow)
  | @claim cdnName claimed found hphase hpoint =>
      obtain ⟨hwork, -, hpending⟩ := (hsound.tended_at hphase hpoint).serves
      simp only [claim_of_pending hwork hpending] at hrow
      by_cases hid : id = claimed
      · subst hid
        obtain rfl : found.claimed = row := by simpa [hwork] using hrow
        have hdue := h.points cdnName
        rw [hpoint] at hdue
        exact (hobserve hwork).claimed hdue
      · exact hobserve (by simpa [hid] using hrow)
  | @settle cdnName job change hphase hpoint =>
      obtain ⟨found, -, hstatus, -, hwork, -⟩ :=
        hsound.attempting hphase (.inr ⟨change, hpoint⟩)
      by_cases hid : id = job.id
      · subst hid
        obtain rfl : change.apply found = row := by simpa [hwork] using hrow
        have hprepared := h.points cdnName
        rw [hpoint] at hprepared
        rw [List.append_nil]
        exact (h.work _ _ hwork).apply hstatus hprepared rfl
      · exact hobserve (by simpa [hid] using hrow)
  | _ => exact hobserve hrow

theorem Paced.committed_move (h : Paced retry trace s) (hsound : Sound s)
    (hforward : forward s action) (hmove : Move retry s action after out)
    (hrow : after.committed.row id = some row) :
    Recorded retry (trace ++ out) after.now id row := by
  have hobserve : s.work.row id = some row ∨ (s.committed.row id = some row ∧
      ∀ rows, .committed rows ∉ out) →
        Recorded retry (trace ++ out) after.now id row :=
    h.observe hsound hforward hmove
  cases hmove with
  | resetCommit | enqueueCommit | claimCommit | settleCommit =>
      exact hobserve (.inl hrow)
  | claim =>
      exact hobserve (.inr ⟨hrow, by split <;> simp⟩)
  | _ => exact hobserve (.inr ⟨hrow, by simp⟩)

/-- The job of a worker between its purge and its settlement belongs to no
other worker. -/
theorem Sound.attempting_alone (hsound : Sound s) (hphase : s.phase = .running)
    {cdnName other : String} {job job' : Job} {change : Update}
    (hpoint : (s.worker cdnName).point = .purging job)
    (hother : (s.worker other).point = .settling job' change) :
    job'.id ≠ job.id := by
  intro hid
  obtain ⟨row, hcdn, -, -, hwork, -⟩ := hsound.attempting hphase (.inl hpoint)
  obtain ⟨row', hcdn', -, -, hwork', -⟩ :=
    hsound.attempting hphase (.inr ⟨change, hother⟩)
  rw [hid, hwork] at hwork'
  cases hwork'
  have heq : cdnName = other := hcdn.symm.trans hcdn'
  rw [← heq, hpoint] at hother
  cases hother

theorem Prepared.append {now' : ℚ} {point : Point}
    (h : Prepared retry trace now point) (hnow : now ≤ now')
    (hends : ∀ job change, point = .settling job change →
      ∀ event ∈ out, ¬ event.Ends job.id) :
    Prepared retry (trace ++ out) now' point := by
  cases point with
  | selecting time => exact le_trans h hnow
  | selected found =>
      cases found with
      | none => trivial
      | some found => exact le_trans h hnow
  | updating id row => exact le_trans h hnow
  | settling job change =>
      have hsilent := hends job change rfl
      cases change with
      | done => trivial
      | reschedule attempts nextAttemptAt =>
          obtain ⟨hattempts, hlt, hafter⟩ := h
          refine ⟨hattempts, hlt, fun result failedAt hmem => ?_⟩
          rcases List.mem_append.mp hmem with hmem | hmem
          · exact hafter result failedAt hmem
          · exact absurd rfl (hsilent _ hmem)
      | failed message => exact since_append.mpr (.inr ⟨h, hsilent⟩)
  | _ => trivial

theorem Paced.points_observe (h : Paced retry trace s) (hsound : Sound s)
    (hforward : forward s action) (hmove : Move retry s action after out)
    (other : String) :
    Prepared retry (trace ++ out) after.now (s.worker other).point := by
  have hpoints := h.points other
  cases hmove with
  | tick =>
      exact hpoints.append (of_decide_eq_true hforward) (by simp)
  | claim =>
      refine hpoints.append le_rfl fun job change _ => ?_
      split <;> simp [Obs.Ends]
  | purgeEnd hphase hpoint | purgeRaise hphase hpoint =>
      refine hpoints.append le_rfl fun job change hother => ?_
      have hne := hsound.attempting_alone hphase hpoint hother
      simpa [Obs.Ends] using hne.symm
  | _ => exact hpoints.append le_rfl (by simp [Obs.Ends])

/-- The settlement that the worker comes to is what the trace asks for. -/
theorem Paced.prepared_end (h : Paced retry trace s) {job : Job}
    {result : Providers.PurgeResult} {settlement : Settlement}
    (hsettle : settle retry (job.attempts + 1) result = .ok settlement) :
    Prepared retry
      (trace ++ [.purgeEnded job.id (job.attempts + 1) result s.now]) s.now
      (.settling job (statement s.now settlement)) := by
  cases settlement with
  | markDone => trivial
  | reschedule attempts after =>
      obtain ⟨rfl, hlt, rfl⟩ := settle_reschedule hsettle
      refine ⟨rfl, hlt, fun found failedAt hmem => ?_⟩
      have htime : failedAt ≤ s.now := by
        rcases List.mem_append.mp hmem with hmem | hmem
        · exact (h.past _ _ _ _ hmem).1
        · simp only [List.mem_singleton, Obs.purgeEnded.injEq] at hmem
          exact hmem.2.2.2.le
      exact add_le_add_left htime _
  | markFailed message =>
      refine since_append.mpr (.inl (since_singleton.mpr ⟨rfl, ?_⟩))
      exact settle_markFailed hsettle

theorem points_goto {point : Point} {cdnName : String}
    (hpoint : Prepared retry trace now point)
    (hothers : ∀ other, Prepared retry trace now (s.worker other).point)
    (other : String) :
    Prepared retry trace now ((s.goto cdnName point).worker other).point := by
  rw [goto_point]
  split
  · exact hpoint
  · exact hothers other

theorem Paced.points_move (h : Paced retry trace s) (hsound : Sound s)
    (hforward : forward s action) (hmove : Move retry s action after out)
    (other : String) :
    Prepared retry (trace ++ out) after.now (after.worker other).point := by
  have hobserve := h.points_observe hsound hforward hmove
  cases hmove with
  | tick | start | reset | resetPost | resetCommit | enqueuer | insert
  | enqueueCommit => exact hobserve other
  | run | crash => trivial
  | @select cdnName time hphase hpoint =>
      have htime := hobserve cdnName
      rw [hpoint] at htime
      refine points_goto ?_ hobserve other
      cases hselect : s.work.selectReady cdnName time with
      | none => trivial
      | some found =>
          exact (selectReady_eq_some hselect).2.2.2.trans htime
  | poll => exact points_goto le_rfl hobserve other
  | @claimPost cdnName id row hphase hpoint =>
      have hdue := hobserve cdnName
      rw [hpoint] at hdue
      refine points_goto ?_ hobserve other
      exact hdue
  | purgeEnd hphase hpoint hsettle =>
      exact points_goto (h.prepared_end hsettle) hobserve other
  | @purgeRaise cdnName job result outcome hphase hpoint =>
      by_cases heq : other = cdnName
      · subst heq
        simp only [Function.update_self]
        trivial
      · simpa [heq] using hobserve other
  | @kill cdnName =>
      by_cases heq : other = cdnName
      · subst heq
        simpa using hobserve other
      · simpa [heq] using hobserve other
  | _ => exact points_goto (by trivial) hobserve other

theorem Paced.past_move (h : Paced retry trace s) (hsound : Sound s)
    (hforward : forward s action) (hmove : Move retry s action after out)
    {attempt : ℕ} {result : Providers.PurgeResult} {time : ℚ}
    (hmem : .purgeEnded id attempt result time ∈ trace ++ out) :
    time ≤ after.now ∧ after.committed.row id ≠ none := by
  have hkeep : s.committed.row id ≠ none → after.committed.row id ≠ none := by
    intro hne
    obtain ⟨row, hrow⟩ := Option.ne_none_iff_exists'.mp hne
    obtain ⟨row', hrow', -⟩ := follows_of_move hsound hmove hrow
    simp [hrow']
  have hnow : s.now ≤ after.now := by
    cases hmove with
    | tick => exact of_decide_eq_true hforward
    | _ => exact le_rfl
  rcases List.mem_append.mp hmem with hmem | hmem
  · obtain ⟨htime, hne⟩ := h.past _ _ _ _ hmem
    exact ⟨htime.trans hnow, hkeep hne⟩
  · cases hmove with
    | claim => split at hmem <;> simp at hmem
    | purgeEnd hphase hpoint | purgeRaise hphase hpoint =>
        obtain ⟨row, -, -, -, -, hcommitted⟩ :=
          hsound.attempting hphase (.inl hpoint)
        simp only [List.mem_singleton, Obs.purgeEnded.injEq] at hmem
        obtain ⟨rfl, -, -, rfl⟩ := hmem
        exact ⟨le_rfl, hkeep (by simp [hcommitted])⟩
    | _ => simp at hmem

theorem Paced.claims_move (h : Paced retry trace s) (hsound : Sound s)
    (hmove : Move retry s action after out) :
    Justified (fun before event => ∀ id attempt time,
      event = .claimed id attempt time → Spaced retry id time before)
      (trace ++ out) := by
  refine justified_append.mpr ⟨h.claims, ?_⟩
  cases hmove with
  | @claim cdnName claimed row hphase hpoint =>
      obtain ⟨hwork, -, hpending⟩ := (hsound.tended_at hphase hpoint).serves
      have hdue := h.points cdnName
      rw [hpoint] at hdue
      simp only [claim_of_pending hwork hpending, one_ne_zero, if_false,
        justified_singleton, List.append_nil]
      rintro id attempt time heq
      obtain ⟨rfl, -, rfl⟩ := Obs.claimed.inj heq
      exact (h.work _ _ hwork).spaced.mono (max_le le_rfl hdue)
  | _ => exact justified_of_silent (by simp)

theorem paced_move (h : Paced retry trace s) (hsound : Sound s)
    (hforward : forward s action) (hmove : Move retry s action after out) :
    Paced retry (trace ++ out) after where
  work := fun _ _ => h.work_move hsound hforward hmove
  committed := fun _ _ => h.committed_move hsound hforward hmove
  points := h.points_move hsound hforward hmove
  past := fun _ _ _ _ => h.past_move hsound hforward hmove
  claims := h.claims_move hsound hmove

theorem paced_of_reaches
    (hrun : Reaches (step retry) (fun s action => forward s action) (init now)
      trace s) : Paced retry trace s :=
  hrun.invariant_along (Paced retry) paced_init
    fun hearlier h hforward hstep =>
      paced_move h (sound_of_reaches hearlier) hforward (move_of_step hstep)

end MirrorMirage.Queue
