import MirrorMirage.Queue.Moves

/-!
# The table and the points of the workers

`mark_done`, `reschedule` and `mark_failed` do not look at the status of the
row.  That they find it in flight is a matter of where the workers are:
`Tended` ties the rows of one CDN, in the database as the connection sees it
and as a crash leaves it, to the point of the CDN's worker.  `Sound` adds what
holds while the daemon is down or starting.
-/

namespace MirrorMirage.Queue

open Function (update)
open MirrorMirage.Run

/-! ## What a worker is about -/

/-- The row that the worker has in flight in its own view. -/
def Point.flying : Point → Option ℕ
  | .updated id _ _ | .claimCommitting id _ _ | .claimCommitted id _ _ =>
      some id
  | .purging job | .settling job _ => some job.id
  | _ => none

/-- The row that the worker has changed without a commit of its own since. -/
def Point.unsaved : Point → Option ℕ
  | .updated id _ _ | .claimCommitting id _ _ => some id
  | .settled job _ | .settleCommitting job _ => some job.id
  | _ => none

/-- The row that the worker holds, from its claim to the commit of its
settlement. -/
def Point.held (point : Point) : Option ℕ := point.flying.or point.unsaved

def OnlyFlight (db : Db) (cdnName : String) (held : Option ℕ) : Prop :=
  ∀ id row, db.row id = some row → row.cdnName = cdnName →
    row.status = .inFlight → held = some id

/-- Apart from one row, the rows of the CDN are as the last commit left
them. -/
def Agree (work committed : Db) (cdnName : String) (unsaved : Option ℕ) :
    Prop :=
  ∀ id row, committed.row id = some row → row.cdnName = cdnName →
    unsaved ≠ some id → work.row id = some row

/-- The row of the worker at each of its points. -/
def Serves (work committed : Db) (cdnName : String) : Point → Prop
  | .selected (some (id, row)) | .updating id row =>
      work.row id = some row ∧ row.cdnName = cdnName ∧ row.status = .pending
  | .updated id row rowcount | .claimCommitting id row rowcount =>
      rowcount = 1 ∧ row.cdnName = cdnName ∧ row.status = .pending ∧
        work.row id = some row.claimed ∧
        (committed.row id = none ∨ committed.row id = some row ∨
          committed.row id = some row.claimed)
  | .claimCommitted id row rowcount =>
      rowcount = 1 ∧ row.cdnName = cdnName ∧
        work.row id = some row.claimed ∧ committed.row id = some row.claimed
  | .purging job | .settling job _ =>
      ∃ row, row.cdnName = cdnName ∧ row.status = .inFlight ∧
        jobOf job.id row = job ∧ work.row job.id = some row ∧
        committed.row job.id = some row
  | .settled job change | .settleCommitting job change =>
      ∃ row, row.cdnName = cdnName ∧ row.status = .inFlight ∧
        jobOf job.id row = job ∧ work.row job.id = some (change.apply row) ∧
        (committed.row job.id = some row ∨
          committed.row job.id = some (change.apply row))
  | _ => True

structure Tended (work committed : Db) (cdnName : String) (point : Point) :
    Prop where
  flying : OnlyFlight work cdnName point.flying
  held : OnlyFlight committed cdnName point.held
  agree : Agree work committed cdnName point.unsaved
  serves : Serves work committed cdnName point

/-- What holds in each phase of the daemon. -/
def InPhase (s : State) : Phase → Prop
  | .down | .resetting =>
      s.work = s.committed ∧ ∀ cdnName, ∃ held,
        OnlyFlight s.committed cdnName held
  | .reset | .resetCommitting =>
      s.work = s.committed.resetInFlight ∧ ∀ cdnName, ∃ held,
        OnlyFlight s.committed cdnName held
  | .resetCommitted =>
      s.work = s.committed ∧ ∀ cdnName, OnlyFlight s.committed cdnName none
  | .running => ∀ cdnName,
      Tended s.work s.committed cdnName (s.worker cdnName).point

structure Sound (s : State) : Prop where
  freshWork : ∀ id, s.work.nextId ≤ id → s.work.row id = none
  freshCommitted : ∀ id, s.committed.nextId ≤ id → s.committed.row id = none
  nextId_le : s.committed.nextId ≤ s.work.nextId
  inPhase : InPhase s s.phase

theorem sound_init (now : ℚ) : Sound (init now) where
  freshWork := by simp [init]
  freshCommitted := by simp [init]
  nextId_le := le_rfl
  inPhase := ⟨rfl, fun _ => ⟨none, by simp [OnlyFlight, init]⟩⟩

/-! ## From one commit to the next -/

/-- One move of the life cycle: `row'` follows on `row` by at most one claim,
one settlement or one reset. -/
def Follows (row row' : Row) : Prop :=
  row' = row ∨ (row.status = .pending ∧ row' = row.claimed) ∨
    (row.status = .inFlight ∧
      (row' = row.reset ∨ ∃ change : Update, row' = change.apply row))

theorem Follows.cdnName {row row' : Row} (h : Follows row row') :
    row'.cdnName = row.cdnName := by
  rcases h with rfl | ⟨-, rfl⟩ | ⟨-, rfl | ⟨change, rfl⟩⟩ <;> simp

theorem Follows.urls {row row' : Row} (h : Follows row row') :
    row'.urls = row.urls := by
  rcases h with rfl | ⟨-, rfl⟩ | ⟨-, rfl | ⟨change, rfl⟩⟩ <;> simp [Row.claimed]

/-- A committed row is still there, at most one move further. -/
theorem Sound.follows {s : State} (h : Sound s) {id : ℕ} {row : Row}
    (hrow : s.committed.row id = some row) :
    ∃ row', s.work.row id = some row' ∧ Follows row row' := by
  have hphase := h.inPhase
  cases hcase : s.phase with
  | down | resetting | resetCommitted =>
      rw [hcase] at hphase
      exact ⟨row, by rw [hphase.1, hrow], .inl rfl⟩
  | reset | resetCommitting =>
      rw [hcase] at hphase
      refine ⟨row.reset, by rw [hphase.1, resetInFlight_row, hrow]; rfl, ?_⟩
      by_cases hstatus : row.status = .inFlight
      · exact .inr (.inr ⟨hstatus, .inl rfl⟩)
      · exact .inl (if_neg hstatus)
  | running =>
      rw [hcase] at hphase
      have htended := hphase row.cdnName
      by_cases hsaved : (s.worker row.cdnName).point.unsaved = some id
      · have hserves := htended.serves
        cases hpoint : (s.worker row.cdnName).point with
        | updated claim found rowcount | claimCommitting claim found rowcount =>
            rw [hpoint] at hsaved hserves
            cases hsaved
            obtain ⟨-, -, hpending, hwork, hcommitted⟩ := hserves
            rw [hrow] at hcommitted
            rcases hcommitted with hnone | heq | heq
            · cases hnone
            · cases heq
              exact ⟨_, hwork, .inr (.inl ⟨hpending, rfl⟩)⟩
            · cases heq
              exact ⟨_, hwork, .inl rfl⟩
        | settled job change | settleCommitting job change =>
            rw [hpoint] at hsaved hserves
            cases hsaved
            obtain ⟨found, -, hflight, -, hwork, hcommitted⟩ := hserves
            rw [hrow] at hcommitted
            rcases hcommitted with heq | heq
            · cases heq
              exact ⟨_, hwork, .inr (.inr ⟨hflight, .inr ⟨change, rfl⟩⟩)⟩
            · cases heq
              exact ⟨_, hwork, .inl rfl⟩
        | _ =>
            rw [hpoint] at hsaved
            cases hsaved
      · exact ⟨row, htended.agree id row hrow rfl hsaved, .inl rfl⟩

/-! ## Preservation -/

section Tended

variable {work work' committed : Db} {cdnName : String} {point : Point}

theorem OnlyFlight.weaken {db : Db} (h : OnlyFlight db cdnName none)
    (held : Option ℕ) : OnlyFlight db cdnName held := by
  intro id row hrow hcdn hflight
  cases h id row hrow hcdn hflight

/-- Changes that leave the CDN's rows alone and put none of its rows in
flight. -/
theorem Tended.frame (h : Tended work committed cdnName point)
    (hkeep : ∀ id row, row.cdnName = cdnName → work.row id = some row →
      work'.row id = some row)
    (hflight : ∀ id row, row.cdnName = cdnName → row.status = .inFlight →
      work'.row id = some row → work.row id = some row) :
    Tended work' committed cdnName point where
  flying := fun id row hrow hcdn hstatus =>
    h.flying id row (hflight id row hcdn hstatus hrow) hcdn hstatus
  held := h.held
  agree := fun id row hrow hcdn hsaved =>
    hkeep id row hcdn (h.agree id row hrow hcdn hsaved)
  serves := by
    have hserves := h.serves
    cases point with
    | selected found =>
        cases found with
        | none => trivial
        | some found =>
            exact ⟨hkeep _ _ hserves.2.1 hserves.1, hserves.2⟩
    | updating id row => exact ⟨hkeep _ _ hserves.2.1 hserves.1, hserves.2⟩
    | updated id row rowcount | claimCommitting id row rowcount =>
        obtain ⟨hcount, hcdn, hpending, hwork, hcommitted⟩ := hserves
        exact ⟨hcount, hcdn, hpending, hkeep _ _ hcdn hwork, hcommitted⟩
    | claimCommitted id row rowcount =>
        obtain ⟨hcount, hcdn, hwork, hcommitted⟩ := hserves
        exact ⟨hcount, hcdn, hkeep _ _ hcdn hwork, hcommitted⟩
    | purging job | settling job change =>
        obtain ⟨row, hcdn, hstatus, hjob, hwork, hcommitted⟩ := hserves
        exact ⟨row, hcdn, hstatus, hjob, hkeep _ _ hcdn hwork, hcommitted⟩
    | settled job change | settleCommitting job change =>
        obtain ⟨row, hcdn, hstatus, hjob, hwork, hcommitted⟩ := hserves
        exact ⟨row, hcdn, hstatus, hjob,
          hkeep _ _ ((apply_cdnName _).trans hcdn) hwork, hcommitted⟩
    | _ => trivial

/-- A commit, whoever asks for it. -/
theorem Tended.commit (h : Tended work committed cdnName point) :
    Tended work work cdnName point where
  flying := h.flying
  held := by
    intro id row hrow hcdn hstatus
    rw [Point.held, h.flying id row hrow hcdn hstatus]
    rfl
  agree := fun id row hrow _ _ => hrow
  serves := by
    have hserves := h.serves
    cases point with
    | updated id row rowcount | claimCommitting id row rowcount =>
        obtain ⟨hcount, hcdn, hpending, hwork, -⟩ := hserves
        exact ⟨hcount, hcdn, hpending, hwork, .inr (.inr hwork)⟩
    | claimCommitted id row rowcount =>
        obtain ⟨hcount, hcdn, hwork, -⟩ := hserves
        exact ⟨hcount, hcdn, hwork, hwork⟩
    | purging job | settling job change =>
        obtain ⟨row, hcdn, hstatus, hjob, hwork, -⟩ := hserves
        exact ⟨row, hcdn, hstatus, hjob, hwork, hwork⟩
    | settled job change | settleCommitting job change =>
        obtain ⟨row, hcdn, hstatus, hjob, hwork, -⟩ := hserves
        exact ⟨row, hcdn, hstatus, hjob, hwork, .inr hwork⟩
    | selected found => cases found <;> exact hserves
    | _ => exact hserves

/-- The claim of a row that is pending in the work database. -/
theorem Tended.claim {id : ℕ} {row : Row}
    (h : Tended work committed cdnName (.updating id row))
    (hcommitted : ∀ found, committed.row id = some found → found = row) :
    Tended (work.modify id Row.claimed) committed cdnName
      (.updated id row 1) := by
  obtain ⟨hwork, hcdn, hpending⟩ := h.serves
  refine ⟨?_, h.held.weaken _, ?_, rfl, hcdn, hpending, ?_, ?_⟩
  · intro other found hfound hfoundCdn hstatus
    by_cases heq : other = id
    · rw [heq]
      rfl
    · rw [modify_row, Function.update_of_ne heq] at hfound
      cases h.flying other found hfound hfoundCdn hstatus
  · intro other found hfound hfoundCdn hne
    have heq : other ≠ id := fun heq => hne (by rw [heq]; rfl)
    rw [modify_row, Function.update_of_ne heq]
    exact h.agree other found hfound hfoundCdn (by simp [Point.unsaved])
  · simp [hwork]
  · cases hrow : committed.row id with
    | none => exact .inl rfl
    | some found => exact .inr (.inl (by rw [hcommitted found hrow]))

/-- A settlement, before its commit. -/
theorem Tended.settle {job : Job} {change : Update}
    (h : Tended work committed cdnName (.settling job change)) :
    Tended (work.modify job.id change.apply) committed cdnName
      (.settled job change) := by
  obtain ⟨row, hcdn, hstatus, hjob, hwork, hcommitted⟩ := h.serves
  refine ⟨?_, h.held, ?_, row, hcdn, hstatus, hjob, ?_, .inl hcommitted⟩
  · intro other found hfound hfoundCdn hflight
    by_cases heq : other = job.id
    · rw [heq, modify_row, Function.update_self, hwork] at hfound
      cases hfound
      exact absurd hflight (apply_status_ne change)
    · rw [modify_row, Function.update_of_ne heq] at hfound
      have hid := h.flying other found hfound hfoundCdn hflight
      simp only [Point.flying, Option.some.injEq] at hid
      exact absurd hid.symm heq
  · intro other found hfound hfoundCdn hne
    have heq : other ≠ job.id := fun heq => hne (by rw [heq]; rfl)
    rw [modify_row, Function.update_of_ne heq]
    exact h.agree other found hfound hfoundCdn (by simp [Point.unsaved])
  · simp [hwork]

end Tended

section Sound

variable {s after : State} {cdnName : String} {point : Point}

theorem Sound.tended (h : Sound s) (hphase : s.phase = .running)
    (cdnName : String) :
    Tended s.work s.committed cdnName (s.worker cdnName).point := by
  have hinPhase := h.inPhase
  rw [hphase] at hinPhase
  exact hinPhase cdnName

theorem Sound.tended_at (h : Sound s) (hphase : s.phase = .running)
    (hpoint : (s.worker cdnName).point = point) :
    Tended s.work s.committed cdnName point :=
  hpoint ▸ h.tended hphase cdnName

theorem sound_of_workers (h : Sound s) (hphase : s.phase = .running)
    (hwork : after.work = s.work) (hcommitted : after.committed = s.committed)
    (hrunning : after.phase = .running)
    (hworkers : ∀ other, (after.worker other).point = (s.worker other).point ∨
      Tended s.work s.committed other (after.worker other).point) :
    Sound after where
  freshWork := hwork ▸ h.freshWork
  freshCommitted := hcommitted ▸ h.freshCommitted
  nextId_le := by
    rw [hwork, hcommitted]
    exact h.nextId_le
  inPhase := by
    rw [hrunning]
    intro other
    rw [hwork, hcommitted]
    rcases hworkers other with heq | htended
    · rw [heq]
      exact h.tended hphase other
    · exact htended

theorem sound_goto (h : Sound s) (hphase : s.phase = .running)
    (htended : Tended s.work s.committed cdnName point) :
    Sound (s.goto cdnName point) := by
  refine sound_of_workers h hphase rfl rfl hphase fun other => ?_
  by_cases heq : other = cdnName
  · subst heq
    exact .inr (by simpa using htended)
  · exact .inl (by simp [heq])

/-- A worker's `UPDATE` of a row of its own CDN. -/
theorem sound_modify (h : Sound s) (hphase : s.phase = .running) {id : ℕ}
    {row : Row} {change : Row → Row} (hrow : s.work.row id = some row)
    (hcdn : row.cdnName = cdnName)
    (hchange : (change row).cdnName = cdnName)
    (htended : Tended (s.work.modify id change) s.committed cdnName point) :
    Sound { s.goto cdnName point with work := s.work.modify id change } where
  freshWork := by
    intro other hother
    have hold := h.freshWork other hother
    have hne : other ≠ id := by
      rintro rfl
      rw [hold] at hrow
      cases hrow
    simpa [hne] using hold
  freshCommitted := h.freshCommitted
  nextId_le := h.nextId_le
  inPhase := by
    simp only [goto_phase, hphase]
    intro other
    simp only [goto_point, goto_committed]
    split
    · rename_i heq
      subst heq
      exact htended
    · rename_i hne
      refine (h.tended hphase other).frame ?_ ?_
      · intro found foundRow hfound hfoundRow
        have hother : found ≠ id := by
          rintro rfl
          rw [hrow] at hfoundRow
          cases hfoundRow
          exact hne (hfound.symm.trans hcdn)
        simpa [hother] using hfoundRow
      · intro found foundRow hfound _ hfoundRow
        have hother : found ≠ id := by
          rintro rfl
          rw [modify_row, Function.update_self, hrow] at hfoundRow
          cases hfoundRow
          exact hne (hfound.symm.trans hchange)
        simpa [hother] using hfoundRow

theorem sound_commit (h : Sound s) (hphase : s.phase = .running) :
    Sound s.commit where
  freshWork := h.freshWork
  freshCommitted := h.freshWork
  nextId_le := le_rfl
  inPhase := by
    simp only [commit_phase, hphase]
    exact fun other => (h.tended hphase other).commit

theorem sound_insert (h : Sound s) (hphase : s.phase = .running)
    (urls : List String) (now : ℚ) (call : ℕ) (target : EnqueuePoint) :
    Sound { s.gotoEnqueue call target with
      work := s.work.insert cdnName urls now } := by
  have hold : ∀ {id row}, s.work.row id = some row → id ≠ s.work.nextId := by
    rintro id row hrow rfl
    rw [h.freshWork _ le_rfl] at hrow
    cases hrow
  refine ⟨?_, h.freshCommitted, h.nextId_le.trans (Nat.le_succ _), ?_⟩
  · intro id hid
    have hid' : s.work.nextId + 1 ≤ id := hid
    simp only [Db.insert, Function.update_of_ne (show id ≠ s.work.nextId by
      omega)]
    exact h.freshWork id (by omega)
  · simp only [gotoEnqueue_phase, hphase]
    intro other
    refine (h.tended hphase other).frame ?_ ?_
    · intro id row _ hrow
      simpa [Db.insert, hold hrow] using hrow
    · intro id row _ hstatus hrow
      by_cases heq : id = s.work.nextId
      · subst heq
        simp only [Db.insert, Function.update_self, Option.some.injEq] at hrow
        subst hrow
        cases hstatus
      · simpa [Db.insert, heq] using hrow

/-- A crash leaves at most one row in flight for a CDN. -/
theorem Sound.onePerCdn (h : Sound s) (cdnName : String) :
    ∃ held, OnlyFlight s.committed cdnName held := by
  have hinPhase := h.inPhase
  cases hphase : s.phase <;> rw [hphase] at hinPhase
  case running => exact ⟨_, (hinPhase cdnName).held⟩
  case resetCommitted => exact ⟨none, hinPhase.2 cdnName⟩
  all_goals exact hinPhase.2 cdnName

end Sound

theorem sound_move {retry : RetryConfig} {s after : State} {action : Action}
    {out : List Obs} (h : Sound s) (hmove : Move retry s action after out) :
    Sound after := by
  have hinPhase := h.inPhase
  cases hmove with
  | tick | enqueuer => exact ⟨h.freshWork, h.freshCommitted, h.nextId_le, hinPhase⟩
  | start hphase =>
      rw [hphase] at hinPhase
      exact ⟨h.freshWork, h.freshCommitted, h.nextId_le, hinPhase⟩
  | reset hphase =>
      rw [hphase] at hinPhase
      refine ⟨?_, h.freshCommitted, h.nextId_le, ?_, hinPhase.2⟩
      · intro id hid
        rw [resetInFlight_row, h.freshWork id hid]
        rfl
      · simp only [hinPhase.1]
  | resetPost hphase =>
      rw [hphase] at hinPhase
      exact ⟨h.freshWork, h.freshCommitted, h.nextId_le, hinPhase⟩
  | resetCommit hphase =>
      rw [hphase] at hinPhase
      refine ⟨h.freshWork, h.freshWork, le_rfl, rfl, ?_⟩
      intro cdnName id row hrow _ hstatus
      simp only [commit_committed, hinPhase.1, resetInFlight_row] at hrow
      obtain ⟨found, -, rfl⟩ := Option.map_eq_some_iff.mp hrow
      exact absurd hstatus reset_status_ne
  | run hphase =>
      rw [hphase] at hinPhase
      refine ⟨h.freshWork, h.freshCommitted, h.nextId_le, fun cdnName => ?_⟩
      simp only [hinPhase.1]
      exact ⟨hinPhase.2 cdnName, hinPhase.2 cdnName, fun _ _ hrow _ _ => hrow,
        trivial⟩
  | insert hphase => exact sound_insert h hphase ..
  | enqueueCommit hphase =>
      have hcommit := sound_commit h hphase
      exact ⟨hcommit.freshWork, hcommit.freshCommitted, hcommit.nextId_le,
        hcommit.inPhase⟩
  | @select cdnName now hphase hpoint =>
      have htended := h.tended_at hphase hpoint
      refine sound_goto h hphase ⟨htended.flying, htended.held, htended.agree,
        ?_⟩
      cases hselect : s.work.selectReady cdnName now with
      | none => trivial
      | some found =>
          obtain ⟨hrow, hcdn, hpending, -⟩ := selectReady_eq_some hselect
          exact ⟨hrow, hcdn, hpending⟩
  | @claim cdnName id row hphase hpoint =>
      have htended := h.tended_at hphase hpoint
      obtain ⟨hwork, hcdn, hpending⟩ := htended.serves
      have hcommitted : ∀ found, s.committed.row id = some found →
          found = row := by
        intro found hfound
        obtain ⟨row', hrow', hfollows⟩ := h.follows hfound
        rw [hwork] at hrow'
        cases hrow'
        have hagree := htended.agree id found hfound
          (hfollows.cdnName.symm.trans hcdn) (by simp [Point.unsaved])
        rw [hwork] at hagree
        exact (Option.some.inj hagree).symm
      rw [claim_of_pending hwork hpending]
      exact sound_modify h hphase hwork hcdn hcdn (htended.claim hcommitted)
  | claimCommit hphase hpoint =>
      have htended := (h.tended_at hphase hpoint).commit
      obtain ⟨hcount, hcdn, -, hwork, -⟩ := htended.serves
      exact sound_goto (sound_commit h hphase) hphase ⟨htended.flying,
        htended.held, fun _ _ hrow _ _ => hrow, hcount, hcdn, hwork, hwork⟩
  | settle hphase hpoint =>
      have htended := h.tended_at hphase hpoint
      obtain ⟨row, hcdn, -, -, hwork, -⟩ := htended.serves
      exact sound_modify h hphase hwork hcdn ((apply_cdnName _).trans hcdn)
        htended.settle
  | settleCommit hphase hpoint =>
      have htended := (h.tended_at hphase hpoint).commit
      exact sound_goto (sound_commit h hphase) hphase ⟨htended.flying,
        htended.flying, fun _ _ hrow _ _ => hrow, trivial⟩
  | poll hphase hpoint | sleep hphase hpoint | next hphase hpoint =>
      have htended := h.tended_at hphase hpoint
      exact sound_goto h hphase ⟨htended.flying, htended.held, htended.agree,
        trivial⟩
  | claimPost hphase hpoint | claimCommitPost hphase hpoint
  | settleCommitPost hphase hpoint =>
      have htended := h.tended_at hphase hpoint
      exact sound_goto h hphase ⟨htended.flying, htended.held, htended.agree,
        htended.serves⟩
  | claimLost hphase hpoint =>
      obtain ⟨hcount, -⟩ := (h.tended_at hphase hpoint).serves
      cases hcount
  | @purge cdnName id row rowcount hphase hcount hpoint =>
      have htended := h.tended_at hphase hpoint
      obtain ⟨-, hcdn, hwork, hcommitted⟩ := htended.serves
      exact sound_goto h hphase ⟨htended.flying, htended.held, htended.agree,
        row.claimed, hcdn, rfl, rfl, hwork, hcommitted⟩
  | purgeEnd hphase hpoint =>
      have htended := h.tended_at hphase hpoint
      exact sound_goto h hphase ⟨htended.flying, htended.held, htended.agree,
        htended.serves⟩
  | @purgeRaise cdnName job result outcome hphase hpoint =>
      refine sound_of_workers h hphase rfl rfl hphase fun other => .inl ?_
      by_cases heq : other = cdnName <;> simp [heq, hpoint]
  | @kill cdnName =>
      have hsame : ∀ other, (update s.worker cdnName
          { s.worker cdnName with alive := false } other).point =
            (s.worker other).point := by
        intro other
        by_cases heq : other = cdnName <;> simp [heq]
      refine ⟨h.freshWork, h.freshCommitted, h.nextId_le, ?_⟩
      cases hphase : s.phase <;> rw [hphase] at hinPhase
      case running =>
        intro other
        rw [hsame]
        exact hinPhase other
      all_goals exact hinPhase
  | crash =>
      exact ⟨h.freshCommitted, h.freshCommitted, le_rfl, rfl, h.onePerCdn⟩

theorem sound_of_reaches {retry : RetryConfig}
    {allowed : State → Action → Prop} {now : ℚ} {trace : List Obs} {s : State}
    (hrun : Reaches (step retry) allowed (init now) trace s) : Sound s :=
  hrun.invariant (fun _ s => Sound s) (sound_init now)
    fun h _ hstep => sound_move h (move_of_step hstep)

end MirrorMirage.Queue
