import MirrorMirage.Queue.Exclusive

/-!
# Claimed jobs are current

The `UPDATE` of `claim_ready` asks again for the status of the row, and for
nothing else.  What the call has read of the row still holds then, unless the
row was claimed and rescheduled in between.
-/

namespace MirrorMirage.Queue.Callers

open Function (update)
open MirrorMirage.Run MirrorMirage.Trace

/-- The call has selected the row and not run its `UPDATE`. -/
def Point.hasSelected (id : ℕ) : Point → Bool
  | .selected (some (id', _)) => id' = id
  | _ => false

/-- No `reschedule` of a row runs between the `SELECT` and the `UPDATE` of a
call that has selected the row. -/
def undisturbed (s : State) : Action → Bool
  | .advance call =>
      match s.point call with
      | .writing (.reschedule jobId _ _) _ =>
          (List.range s.calls).all fun other =>
            !(s.point other).hasSelected jobId
      | _ => true
  | _ => true

/-- The row that the call moved to `in_flight` was ready by the clock of the
call, and the two values are its values then. -/
def Current (trace : List Obs) (call id attempts : ℕ) (nextAttemptAt : ℚ) :
    Prop :=
  ∃ now stored, .called call now ∈ trace ∧ .claimed call id stored ∈ trace ∧
    attempts = stored.attempts ∧ nextAttemptAt = stored.nextAttemptAt ∧
    stored.nextAttemptAt ≤ now

/-- What the trace and the table say of a call. -/
def Backed (trace : List Obs) (db : Db) (call : ℕ) : Point → Prop
  | .selecting _ now => .called call now ∈ trace
  | .selected (some (id, row)) => ∃ now stored, .called call now ∈ trace ∧
      db.row id = some stored ∧ row.attempts = stored.attempts ∧
      row.nextAttemptAt = stored.nextAttemptAt ∧ stored.nextAttemptAt ≤ now
  | .updated id row rowcount | .committed id row rowcount =>
      rowcount ≠ 0 → Current trace call id row.attempts row.nextAttemptAt
  | _ => True

section Step

variable {s after : State} {action : Action} {out trace : List Obs}
variable {call id attempts : ℕ} {nextAttemptAt : ℚ} {db db' : Db}
variable {point : Point}

theorem Current.mono (h : Current trace call id attempts nextAttemptAt) :
    Current (trace ++ out) call id attempts nextAttemptAt := by
  obtain ⟨now, stored, hcalled, hclaimed, hrest⟩ := h
  exact ⟨now, stored, List.mem_append_left _ hcalled,
    List.mem_append_left _ hclaimed, hrest⟩

/-- The table matters only for the row that the call has selected. -/
theorem Backed.mono (h : Backed trace db call point)
    (hrow : ∀ id stored, point.hasSelected id → db.row id = some stored →
      ∃ stored', db'.row id = some stored' ∧
        stored'.attempts = stored.attempts ∧
        stored'.nextAttemptAt = stored.nextAttemptAt) :
    Backed (trace ++ out) db' call point := by
  cases point with
  | selecting => exact List.mem_append_left _ h
  | selected found =>
      cases found with
      | none => trivial
      | some entry =>
          obtain ⟨id, row⟩ := entry
          obtain ⟨now, stored, hcalled, hstored, hattempts, hnext, hle⟩ := h
          obtain ⟨stored', hstored', hattempts', hnext'⟩ :=
            hrow id stored (by simp [Point.hasSelected]) hstored
          refine ⟨now, stored', List.mem_append_left _ hcalled, hstored', ?_, ?_,
            ?_⟩
          · rw [hattempts, hattempts']
          · rw [hnext, hnext']
          · rw [hnext']
            exact hle
  | updated => exact fun hcount => (h hcount).mono
  | committed => exact fun hcount => (h hcount).mono
  | _ => trivial

/-- The two values of a row stay, but for a `reschedule` of it. -/
theorem values_modify {other : ℕ} {change : Row → Row} {stored : Row}
    (hstored : db.row id = some stored)
    (hchange : id = other → (change stored).attempts = stored.attempts ∧
      (change stored).nextAttemptAt = stored.nextAttemptAt) :
    ∃ stored', (db.modify other change).row id = some stored' ∧
      stored'.attempts = stored.attempts ∧
      stored'.nextAttemptAt = stored.nextAttemptAt := by
  by_cases heq : id = other
  · subst heq
    exact ⟨change stored, by simp [hstored], hchange rfl⟩
  · exact ⟨stored, by simp [heq, hstored], rfl, rfl⟩

theorem values_exec (hkeyed : Keyed db) {write : Write} {now : ℚ}
    {stored : Row} (hstored : db.row id = some stored)
    (hnot : ∀ attempts nextAttemptAt,
      write ≠ .reschedule id attempts nextAttemptAt) :
    ∃ stored', (write.exec db now).1.row id = some stored' ∧
      stored'.attempts = stored.attempts ∧
      stored'.nextAttemptAt = stored.nextAttemptAt := by
  cases write with
  | enqueue cdnName urls =>
      refine ⟨stored, (Function.update_of_ne ?_ ..).trans hstored, rfl, rfl⟩
      rintro rfl
      simp [hkeyed _ le_rfl] at hstored
  | markDone jobId => exact values_modify hstored fun _ => ⟨rfl, rfl⟩
  | reschedule jobId attempts nextAttemptAt =>
      apply values_modify hstored
      rintro rfl
      exact absurd rfl (hnot attempts nextAttemptAt)
  | markFailed jobId message => exact values_modify hstored fun _ => ⟨rfl, rfl⟩
  | resetInFlight =>
      exact ⟨stored.reset, by simp [Write.exec, hstored], reset_attempts,
        reset_nextAttemptAt⟩

theorem hasSelected_lt (hunborn : Unborn s)
    (hselected : (s.point call).hasSelected id) : call < s.calls := by
  by_contra hle
  rw [hunborn call (not_lt.mp hle)] at hselected
  cases hselected

/-- No other call changes what a call has selected. -/
theorem values_move (hunborn : Unborn s) (hkeyed : Keyed s.db)
    (hundisturbed : undisturbed s action) (hmove : Move s action after out)
    {stored : Row} (hselected : (s.point call).hasSelected id)
    (hstored : s.db.row id = some stored) :
    ∃ stored', after.db.row id = some stored' ∧
      stored'.attempts = stored.attempts ∧
      stored'.nextAttemptAt = stored.nextAttemptAt := by
  cases hmove with
  | claim => exact values_modify hstored fun _ => ⟨rfl, rfl⟩
  | @exec moved write now hpoint =>
      apply values_exec hkeyed hstored
      rintro attempts nextAttemptAt rfl
      simp only [undisturbed, hpoint, List.all_eq_true, List.mem_range,
        Bool.not_eq_true'] at hundisturbed
      simp [hundisturbed call (hasSelected_lt hunborn hselected)] at hselected
  | _ => exact ⟨stored, hstored, rfl, rfl⟩

theorem backed_move (hunborn : Unborn s) (hkeyed : Keyed s.db)
    (h : ∀ call, Backed trace s.db call (s.point call))
    (hundisturbed : undisturbed s action) (hmove : Move s action after out)
    (call : ℕ) : Backed (trace ++ out) after.db call (after.point call) := by
  have hkeep : Backed (trace ++ out) after.db call (s.point call) :=
    (h call).mono fun id stored hselected hstored =>
      values_move hunborn hkeyed hundisturbed hmove hselected hstored
  have hgoto : ∀ {moved point}, (call = moved →
      Backed (trace ++ out) after.db call point) →
        Backed (trace ++ out) after.db call
          (update s.point moved point call) := by
    intro moved point hpoint
    by_cases heq : call = moved
    · rw [heq, Function.update_self]
      exact heq ▸ hpoint heq
    · rw [Function.update_of_ne heq]
      exact hkeep
  cases hmove with
  | tick => exact hkeep
  | claimReady =>
      apply hgoto
      rintro rfl
      exact List.mem_append_right _ (List.mem_singleton_self _)
  | write => exact hgoto fun _ => trivial
  | @select moved cdnName now hpoint =>
      apply hgoto
      rintro rfl
      rw [hpoint] at hkeep
      cases hselect : s.db.selectReady cdnName now with
      | none => trivial
      | some entry =>
          obtain ⟨hrow, -, -, hle⟩ := selectReady_eq_some hselect
          exact ⟨now, entry.2, hkeep, hrow, rfl, rfl, hle⟩
  | @claim moved id row stored hpoint hstored _ =>
      apply hgoto
      rintro rfl _
      obtain ⟨now, found, hcalled, hfound, hattempts, hnext, hle⟩ :=
        hpoint ▸ h call
      obtain rfl := Option.some.inj (hfound.symm.trans hstored)
      exact ⟨now, found, List.mem_append_left _ hcalled,
        List.mem_append_right _ (List.mem_singleton_self _), hattempts, hnext,
        hle⟩
  | lose =>
      apply hgoto
      exact fun _ hcount => absurd rfl hcount
  | commit hpoint =>
      apply hgoto
      rintro rfl
      rw [hpoint] at hkeep
      exact hkeep
  | _ => exact hgoto fun _ => trivial

/-- The call has returned the job. -/
def Returned (call : ℕ) (job : Job) (event : Obs) : Prop :=
  event = .returned call job

/-- Every job that has been returned was current. -/
def AllCurrent (trace : List Obs) : Prop :=
  Justified (fun before event => ∀ call job, Returned call job event →
    Current before call job.id job.attempts job.nextAttemptAt) trace

theorem allCurrent_move (h : AllCurrent trace)
    (hbacked : ∀ call, Backed trace s.db call (s.point call))
    (hmove : Move s action after out) : AllCurrent (trace ++ out) := by
  refine justified_append.mpr ⟨h, ?_⟩
  cases hmove with
  | @deliver moved id row rowcount hpoint hcount =>
      rw [justified_singleton]
      intro call job hreturned
      cases hreturned
      rw [List.append_nil]
      have hcurrent := hbacked moved
      rw [hpoint] at hcurrent
      exact hcurrent hcount
  | @exec _ write =>
      apply justified_of_silent
      cases write <;> simp [Write.exec, Returned]
  | _ => exact justified_of_silent (by simp [Returned])

end Step

/-- In every run in which no row is rescheduled between the `SELECT` and the
`UPDATE` of a caller that has selected it, every returned job has the attempts
and the time of the row that the caller moved to `in_flight`, and that time
was not later than the caller's clock. -/
theorem claimed_jobs_are_current {db : Db} {now : ℚ} (hkeyed : Keyed db)
    {trace : List Obs} {s : State}
    (hrun : Reaches step (fun s action => undisturbed s action) (start db now)
      trace s) :
    ∀ before call job later, trace = before ++ .returned call job :: later →
      ∃ now stored, .called call now ∈ before ∧
        .claimed call job.id stored ∈ before ∧
        job.attempts = stored.attempts ∧
        job.nextAttemptAt = stored.nextAttemptAt ∧
        stored.nextAttemptAt ≤ now := by
  have hbacked : ∀ call, Backed [] db call ((start db now).point call) :=
    fun _ => trivial
  have hinv : Unborn s ∧ Keyed s.db ∧
      (∀ call, Backed trace s.db call (s.point call)) ∧ AllCurrent trace := by
    refine hrun.invariant (fun trace s => Unborn s ∧ Keyed s.db ∧
      (∀ call, Backed trace s.db call (s.point call)) ∧ AllCurrent trace)
      ⟨fun _ _ => rfl, hkeyed, hbacked, justified_nil⟩ ?_
    rintro trace s action after out ⟨hunborn, hkeyed, hbacked, hcurrent⟩
      hundisturbed hstep
    have hmove := move_of_step hstep
    exact ⟨unborn_move hunborn hmove, keyed_move hkeyed hmove,
      backed_move hunborn hkeyed hbacked hundisturbed hmove,
      allCurrent_move hcurrent hbacked hmove⟩
  intro before call job later htrace
  exact hinv.2.2.2 before _ later htrace call job rfl

/-- A reset between the `SELECT` and the `UPDATE` does no harm. -/
theorem claimed_jobs_are_current_sample : ∃ trace s job now stored,
    Reaches step (fun s action => undisturbed s action) (start sampleDb 0)
      trace s ∧
    .returned 0 job ∈ trace ∧ .called 0 now ∈ trace ∧
    .claimed 0 job.id stored ∈ trace ∧ job.attempts = stored.attempts ∧
    job.nextAttemptAt = stored.nextAttemptAt ∧ stored.nextAttemptAt ≤ now := by
  obtain ⟨trace, s, hrun, hview⟩ := exists_reaches_of_execute step
    (start sampleDb 0) (fun s action => undisturbed s action)
    (fun final => final.2)
    [.called 0 0, .called 1 0,
      .claimed 1 1 ⟨"cdn", ["u"], 0, 0, 0, .pending, none⟩, .reset [1],
      .claimed 0 1 ⟨"cdn", ["u"], 0, 0, 0, .pending, none⟩,
      .returned 0 ⟨1, "cdn", ["u"], 0, 0, 0, .inFlight⟩]
    [.claimReady "cdn", .advance 0, .claimReady "cdn", .advance 1, .advance 1,
      .write .resetInFlight, .advance 2, .advance 0, .advance 0, .advance 0]
    (by decide +kernel)
  have htrace : trace = [_, _, _, _, _] ++ .returned 0 _ :: [] := hview
  obtain ⟨now, stored, hcalled, hclaimed, hrest⟩ :=
    claimed_jobs_are_current keyed_sampleDb hrun _ _ _ _ htrace
  rw [htrace] at hrun
  exact ⟨_, s, _, now, stored, hrun, by simp, List.mem_append_left _ hcalled,
    List.mem_append_left _ hclaimed, hrest⟩

/-- Between the `SELECT` and the `UPDATE` of call 0 another caller claims the
job and reschedules it: call 0 returns it with the old attempts, long before
the new time. -/
theorem claimed_job_is_stale : ∃ trace s job stored,
    Reaches step (fun _ _ => True) (start sampleDb 0) trace s ∧
    .called 0 0 ∈ trace ∧ .claimed 0 job.id stored ∈ trace ∧
    .returned 0 job ∈ trace ∧ job.attempts ≠ stored.attempts ∧
    job.nextAttemptAt ≠ stored.nextAttemptAt ∧ 0 < stored.nextAttemptAt := by
  obtain ⟨trace, s, hrun, hview⟩ := exists_reaches_of_execute step
    (start sampleDb 0) (fun _ _ => True) (fun final => final.2)
    [.called 0 0, .called 1 0,
      .claimed 1 1 ⟨"cdn", ["u"], 0, 0, 0, .pending, none⟩,
      .returned 1 ⟨1, "cdn", ["u"], 0, 0, 0, .inFlight⟩, .rescheduled 1,
      .claimed 0 1 ⟨"cdn", ["u"], 1, 100, 0, .pending, none⟩,
      .returned 0 ⟨1, "cdn", ["u"], 0, 0, 0, .inFlight⟩]
    [.claimReady "cdn", .advance 0, .claimReady "cdn", .advance 1, .advance 1,
      .advance 1, .advance 1, .write (.reschedule 1 1 100), .advance 2,
      .advance 0, .advance 0, .advance 0]
    (by decide +kernel)
  have htrace : trace = _ := hview
  exact ⟨trace, s, ⟨1, "cdn", ["u"], 0, 0, 0, .inFlight⟩,
    ⟨"cdn", ["u"], 1, 100, 0, .pending, none⟩, hrun, by simp [htrace],
    by simp [htrace], by simp [htrace], by decide, by decide +kernel,
    by decide +kernel⟩

end MirrorMirage.Queue.Callers
