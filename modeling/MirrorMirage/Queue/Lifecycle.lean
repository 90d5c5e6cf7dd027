import MirrorMirage.Queue.Invariant

/-!
# The life cycle of a job

What every run of the daemon, with crashes and restarts, does to the committed
table.
-/

namespace MirrorMirage.Queue

open MirrorMirage.Run

/-- The moves of a row's status. -/
inductive Status.Moves : Status → Status → Prop where
  | claim : Moves .pending .inFlight
  | finish : Moves .inFlight .done
  | fail : Moves .inFlight .failed
  | release : Moves .inFlight .pending

theorem Follows.moves {row row' : Row} (h : Follows row row') :
    row' = row ∨ row.status.Moves row'.status := by
  rcases h with heq | ⟨hstatus, rfl⟩ | ⟨hstatus, rfl | ⟨change, rfl⟩⟩
  · exact .inl heq
  · rw [hstatus]
    exact .inr .claim
  · rw [hstatus, Row.reset, if_pos hstatus]
    exact .inr .release
  · rw [hstatus]
    cases change with
    | done => exact .inr .finish
    | reschedule attempts nextAttemptAt => exact .inr .release
    | failed message => exact .inr .fail

/-- A row that is done or failed stays as it is. -/
theorem Follows.eq_of_finished {row row' : Row} (h : Follows row row')
    (hfinished : row.status = .done ∨ row.status = .failed) : row' = row := by
  rcases h.moves with heq | hmoves
  · exact heq
  · rcases hfinished with hstatus | hstatus <;> rw [hstatus] at hmoves <;>
      cases hmoves

/-- Only a commit changes the committed table. -/
theorem committed_of_move {retry : RetryConfig} {s after : State}
    {action : Action} {out : List Obs}
    (hmove : Move retry s action after out) :
    after.committed = s.committed ∨ after.committed = s.work := by
  cases hmove with
  | resetCommit | enqueueCommit | claimCommit | settleCommit => exact .inr rfl
  | _ => exact .inl rfl

theorem follows_of_move {retry : RetryConfig} {s after : State}
    {action : Action} {out : List Obs} (h : Sound s)
    (hmove : Move retry s action after out) {id : ℕ} {row : Row}
    (hrow : s.committed.row id = some row) :
    ∃ row', after.committed.row id = some row' ∧ Follows row row' := by
  rcases committed_of_move hmove with heq | heq <;> rw [heq]
  · exact ⟨row, hrow, .inl rfl⟩
  · exact h.follows hrow

/-- What a row keeps over a whole run. -/
structure Survives (row row' : Row) : Prop where
  cdnName : row'.cdnName = row.cdnName
  urls : row'.urls = row.urls
  finished : row.status = .done ∨ row.status = .failed → row' = row

theorem Survives.trans_follows {row row' row'' : Row} (h : Survives row row')
    (hfollows : Follows row' row'') : Survives row row'' where
  cdnName := hfollows.cdnName.trans h.cdnName
  urls := hfollows.urls.trans h.urls
  finished := by
    intro hfinished
    have heq := h.finished hfinished
    rw [heq] at hfollows
    exact hfollows.eq_of_finished hfinished

theorem survives_of_reaches {retry : RetryConfig}
    {allowed : State → Action → Prop} {s later : State} {trace : List Obs}
    (h : Sound s) (hrun : Reaches (step retry) allowed s trace later)
    {id : ℕ} {row : Row} (hrow : s.committed.row id = some row) :
    ∃ row', later.committed.row id = some row' ∧ Survives row row' := by
  have hinv : Sound later ∧
      ∃ row', later.committed.row id = some row' ∧ Survives row row' := by
    refine hrun.invariant (fun _ later => Sound later ∧
      ∃ row', later.committed.row id = some row' ∧ Survives row row')
      ⟨h, row, hrow, rfl, rfl, fun _ => rfl⟩ ?_
    rintro _ _ _ _ _ ⟨hsound, row', hrow', hsurvives⟩ - hstep
    have hmove := move_of_step hstep
    obtain ⟨row'', hrow'', hfollows⟩ := follows_of_move hsound hmove hrow'
    exact ⟨sound_move hsound hmove, row'', hrow'',
      hsurvives.trans_follows hfollows⟩
  exact hinv.2

/-- In every state of every run, for the committed table: each further run
keeps every row with its CDN and URLs, and the finished ones as they are; each
step moves a status along the life cycle or leaves the row alone; a CDN has at
most one row in flight, which its worker holds while there are workers; and
the commit of `reset_in_flight` leaves no row in flight, those that were being
pending again. -/
theorem job_life_cycle {retry : RetryConfig} {now : ℚ} {trace : List Obs}
    {s : State}
    (hrun : Reaches (step retry) (fun _ _ => True) (init now) trace s) :
    (∀ more later, Reaches (step retry) (fun _ _ => True) s more later →
      ∀ id row, s.committed.row id = some row →
        ∃ row', later.committed.row id = some row' ∧
          row'.cdnName = row.cdnName ∧ row'.urls = row.urls ∧
          (row.status = .done ∨ row.status = .failed → row' = row)) ∧
    (∀ action after out, step retry s action = some (after, out) →
      ∀ id row, s.committed.row id = some row →
        ∃ row', after.committed.row id = some row' ∧
          (row' = row ∨ row.status.Moves row'.status)) ∧
    (∀ id other row row', s.committed.row id = some row →
      s.committed.row other = some row' → row.status = .inFlight →
      row'.status = .inFlight → row.cdnName = row'.cdnName → id = other) ∧
    (s.phase = .running → ∀ id row, s.committed.row id = some row →
      row.status = .inFlight →
        (s.worker row.cdnName).point.held = some id) ∧
    (s.phase = .resetCommitting → ∀ after out,
      step retry s .boot = some (after, out) →
        (∀ id row, after.committed.row id = some row →
          row.status ≠ .inFlight) ∧
        ∀ id row, s.committed.row id = some row → row.status = .inFlight →
          after.committed.row id = some { row with status := .pending }) := by
  have h := sound_of_reaches hrun
  refine ⟨?_, ?_, ?_, ?_, ?_⟩
  · intro more later hmore id row hrow
    obtain ⟨row', hrow', hsurvives⟩ := survives_of_reaches h hmore hrow
    exact ⟨row', hrow', hsurvives.cdnName, hsurvives.urls, hsurvives.finished⟩
  · intro action after out hstep id row hrow
    obtain ⟨row', hrow', hfollows⟩ := follows_of_move h (move_of_step hstep) hrow
    exact ⟨row', hrow', hfollows.moves⟩
  · intro id other row row' hrow hrow' hstatus hstatus' hcdn
    obtain ⟨held, hheld⟩ := h.onePerCdn row.cdnName
    have hid := hheld id row hrow rfl hstatus
    have hother := hheld other row' hrow' hcdn.symm hstatus'
    exact Option.some.inj (hid.symm.trans hother)
  · intro hphase id row hrow hstatus
    exact (h.tended hphase row.cdnName).held id row hrow rfl hstatus
  · intro hphase after out hstep
    have hinPhase := h.inPhase
    rw [hphase] at hinPhase
    simp only [step, hphase, Option.some.injEq, Prod.mk.injEq] at hstep
    obtain ⟨rfl, -⟩ := hstep
    simp only [commit_committed, hinPhase.1, resetInFlight_row]
    constructor
    · intro id row hrow
      obtain ⟨found, -, rfl⟩ := Option.map_eq_some_iff.mp hrow
      exact reset_status_ne
    · intro id row hrow hstatus
      rw [hrow, Option.map_some, Row.reset, if_pos hstatus]

/-- A crash in the middle of a purge, and the restart after it. -/
theorem job_life_cycle_sample :
    ∃ trace s, Reaches (step {}) (fun _ _ => True) (init 0) trace s ∧
      s.committed.row 1 = some ⟨"a", ["/x"], 0, 0, 0, .inFlight, none⟩ ∧
      ∃ after out, step {} s .boot = some (after, out) ∧
        after.committed.row 1 =
          some ⟨"a", ["/x"], 0, 0, 0, .pending, none⟩ := by
  obtain ⟨trace, s, hrun, hview⟩ := exists_reaches_of_execute
    (step {}) (init 0) (fun _ _ => True)
    (fun final => (final.1.phase, final.1.committed.row 1))
    (.resetCommitting, some ⟨"a", ["/x"], 0, 0, 0, .inFlight, none⟩)
    [.start, .boot, .boot, .boot, .boot, .enqueue 0 "a" ["/x"],
      .execEnqueue 0, .resumeEnqueue 0, .execEnqueue 0, .resumeWorker "a",
      .execWorker "a", .resumeWorker "a", .execWorker "a", .resumeWorker "a",
      .execWorker "a", .resumeWorker "a", .crash, .start, .boot, .boot]
    (by decide +kernel)
  obtain ⟨hphase, hrow⟩ := Prod.ext_iff.mp hview
  have hphase' : s.phase = .resetCommitting := hphase
  refine ⟨trace, s, hrun, hrow, _, _, by simp only [step, hphase']; rfl, ?_⟩
  exact ((job_life_cycle hrun).2.2.2.2 hphase' _ _ (by
    simp only [step, hphase']; rfl)).2 1 _ hrow rfl

end MirrorMirage.Queue
