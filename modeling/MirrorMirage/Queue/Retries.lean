import MirrorMirage.Queue.Spacing

/-!
# Retries are bounded and spaced

The row of a job counts its rescheduled attempts.  A call of `provider.purge`
that the row does not count yet is `Spent`: the worker is still about it, or
the row is finished, or the daemon is down.  So the calls exceed the count by
at most one for each start of the daemon.
-/

namespace MirrorMirage.Queue

open Function (update)
open MirrorMirage.Run MirrorMirage.Trace MirrorMirage.Worker

/-- The calls of `provider.purge` for a job. -/
def purges (id : ℕ) (trace : List Obs) : ℕ :=
  trace.countP fun
    | .purgeStarted other _ => other = id
    | _ => false

def starts (trace : List Obs) : ℕ := trace.count .started

/-- The job whose attempt is not in the table yet. -/
def Point.begun : Point → Option ℕ
  | .purging job | .settling job _ => some job.id
  | _ => none

/-- The job whose attempt the worker has not committed yet. -/
def Point.uncommitted : Point → Option ℕ
  | .purging job | .settling job _ | .settled job _ | .settleCommitting job _ =>
      some job.id
  | _ => none

/-- The row does not count the last call made for the job. -/
def Spent (s : State) (job : Point → Option ℕ) (id : ℕ) (row : Row) : Prop :=
  s.phase = .down ∨ row.status = .done ∨ row.status = .failed ∨
    (s.phase = .running ∧ job (s.worker row.cdnName).point = some id)

/-- The calls for a job against the attempts of its row. -/
structure Bounded (trace : List Obs) (id : ℕ) (row : Row) (spent : Prop) :
    Prop where
  loose : purges id trace ≤ row.attempts + starts trace
  tight : ¬ spent → purges id trace < row.attempts + starts trace

structure Counted (trace : List Obs) (s : State) : Prop where
  started : s.phase ≠ .down → 0 < starts trace
  untouched : ∀ id, s.committed.row id = none → purges id trace = 0
  work : ∀ id row, s.work.row id = some row →
    Bounded trace id row (Spent s Point.begun id row)
  committed : ∀ id row, s.committed.row id = some row →
    Bounded trace id row (Spent s Point.uncommitted id row)

variable {retry : RetryConfig} {trace out : List Obs} {s after : State}
variable {action : Action} {now : ℚ} {id : ℕ} {row : Row}

@[simp] theorem purges_append :
    purges id (trace ++ out) = purges id trace + purges id out :=
  List.countP_append

@[simp] theorem starts_append :
    starts (trace ++ out) = starts trace + starts out :=
  List.count_append

theorem counted_init : Counted [] (init now) where
  started := by simp [init]
  untouched := fun _ _ => rfl
  work := by simp [init]
  committed := by simp [init]

section Bounded

variable {spent spent' : Prop}

theorem Bounded.quiet {row' : Row} (h : Bounded trace id row spent)
    (hpurges : purges id out = 0) (hstarts : starts out = 0)
    (hattempts : row'.attempts = row.attempts) (hspent : spent → spent') :
    Bounded (trace ++ out) id row' spent' where
  loose := by simpa [hpurges, hstarts, hattempts] using h.loose
  tight := by
    intro hnot
    simpa [hpurges, hstarts, hattempts] using
      h.tight fun hyes => hnot (hspent hyes)

theorem Bounded.start (h : Bounded trace id row spent) :
    Bounded (trace ++ [.started]) id row spent' := by
  have hloose := h.loose
  constructor <;> simp [purges, starts] at hloose ⊢ <;> omega

/-- The call that a row in flight has been claimed for. -/
theorem Bounded.purge (h : Bounded trace id row spent) (hnot : ¬ spent)
    (number : ℕ) (hspent : spent') :
    Bounded (trace ++ [.purgeStarted id number]) id row spent' where
  loose := by
    have htight := h.tight hnot
    simp [purges, starts] at htight ⊢
    omega
  tight := fun hnot' => absurd hspent hnot'

theorem Bounded.apply (h : Bounded trace id row spent) {job : Job}
    {change : Update}
    (hprepared : Prepared retry trace now (.settling job change))
    (hattempts : row.attempts = job.attempts)
    (hspent : (change.apply row).status ≠ .pending → spent') :
    Bounded trace id (change.apply row) spent' := by
  have hloose := h.loose
  cases change with
  | done => exact ⟨hloose, fun hnot =>
      absurd (hspent (by simp [Update.apply])) hnot⟩
  | reschedule attempts nextAttemptAt =>
      obtain ⟨rfl, -⟩ := hprepared
      constructor <;> simp only [Update.apply] <;> omega
  | failed message => exact ⟨hloose, fun hnot =>
      absurd (hspent (by simp [Update.apply])) hnot⟩

end Bounded

section Spent

variable {job job' : Point → Option ℕ}

theorem Spent.frame (h : Spent s job id row) (hphase : after.phase = s.phase)
    (hpoints : ∀ cdnName, job (s.worker cdnName).point = some id →
      job' (after.worker cdnName).point = some id) :
    Spent after job' id row := by
  unfold Spent at h ⊢
  rw [hphase]
  exact h.imp_right (.imp_right (.imp_right (.imp_right (hpoints _))))

/-- A worker moves on and keeps its job. -/
theorem keeps_goto {cdnName : String} {point target : Point}
    (hpoint : (s.worker cdnName).point = point)
    (hkeep : job point = some id → job' target = some id)
    (hjob : ∀ found, job found = some id → job' found = some id)
    (other : String) (hother : job (s.worker other).point = some id) :
    job' ((s.goto cdnName target).worker other).point = some id := by
  rw [goto_point]
  split
  · rename_i heq
    subst heq
    exact hkeep (hpoint ▸ hother)
  · exact hjob _ hother

theorem begun_uncommitted (point : Point) (h : point.begun = some id) :
    point.uncommitted = some id := by
  cases point with
  | purging job | settling job change => exact h
  | _ => cases h

/-- While the daemon starts, only finished rows are spent. -/
theorem Spent.starting {row' : Row} (h : Spent s job id row)
    (hdown : s.phase ≠ .down) (hrunning : s.phase ≠ .running)
    (hstatus : row.status ≠ .inFlight → row'.status = row.status) :
    Spent after job' id row' := by
  rcases h with h | h | h | h
  · exact absurd h hdown
  · exact .inr (.inl (by rw [hstatus (by simp [h]), h]))
  · exact .inr (.inr (.inl (by rw [hstatus (by simp [h]), h])))
  · exact absurd h.1 hrunning

theorem not_spent {point : Point} (hphase : s.phase = .running)
    (hpoint : (s.worker row.cdnName).point = point)
    (hstatus : row.status = .pending ∨ row.status = .inFlight)
    (hjob : job point ≠ some id) : ¬ Spent s job id row := by
  rintro (h | h | h | h)
  · simp [hphase] at h
  · simp [h] at hstatus
  · simp [h] at hstatus
  · exact hjob (hpoint ▸ h.2)

end Spent

/-! ## One step -/

theorem Counted.work_move (h : Counted trace s) (hsound : Sound s)
    (hpaced : Paced retry trace s) (hmove : Move retry s action after out)
    (hrow : after.work.row id = some row) :
    Bounded (trace ++ out) id row (Spent after Point.begun id row) := by
  have hquiet : ∀ {found row' : Row}, s.work.row id = some found →
      purges id out = 0 → starts out = 0 → row'.attempts = found.attempts →
        (Spent s Point.begun id found → Spent after Point.begun id row') →
          Bounded (trace ++ out) id row' (Spent after Point.begun id row') :=
    fun hfound => (h.work _ _ hfound).quiet
  cases hmove with
  | tick | enqueuer | enqueueCommit =>
      exact hquiet hrow rfl rfl rfl (·.frame rfl fun _ h => h)
  | start => exact (h.work _ _ hrow).start
  | reset hphase =>
      obtain ⟨found, hfound, rfl⟩ := Option.map_eq_some_iff.mp hrow
      exact hquiet hfound rfl rfl reset_attempts (·.starting (by simp [hphase])
        (by simp [hphase]) fun hne => by rw [Row.reset, if_neg hne])
  | resetPost hphase | resetCommit hphase | run hphase =>
      exact hquiet hrow rfl rfl rfl (·.starting (by simp [hphase])
        (by simp [hphase]) fun _ => rfl)
  | @insert call cdnName urls now hphase =>
      by_cases hid : id = s.work.nextId
      · subst hid
        have hzero := h.untouched _ (hsound.freshCommitted _ hsound.nextId_le)
        have hstarted := h.started (by simp [hphase])
        rw [List.append_nil]
        exact ⟨by omega, fun _ => by omega⟩
      · exact hquiet (by simpa [Db.insert, hid] using hrow) rfl rfl rfl
          (·.frame rfl fun _ h => h)
  | @claim cdnName claimed found hphase hpoint =>
      obtain ⟨hwork, hcdn, hpending⟩ := (hsound.tended_at hphase hpoint).serves
      simp only [claim_of_pending hwork hpending, one_ne_zero, if_false] at *
      by_cases hid : id = claimed
      · subst hid
        obtain rfl : found.claimed = row := by simpa [hwork] using hrow
        refine hquiet hwork rfl rfl rfl (absurd · ?_)
        exact not_spent hphase (hcdn ▸ hpoint) (.inl hpending)
          (by simp [Point.begun])
      · exact hquiet (by simpa [hid] using hrow) rfl rfl rfl (·.frame rfl
          (keeps_goto hpoint (by simp [Point.begun]) fun _ h => h))
  | @settle cdnName job change hphase hpoint =>
      obtain ⟨found, -, -, hattempts, hwork, -⟩ :=
        hsound.attempting hphase (.inr ⟨change, hpoint⟩)
      by_cases hid : id = job.id
      · subst hid
        obtain rfl : change.apply found = row := by simpa [hwork] using hrow
        rw [List.append_nil]
        have hprepared := hpaced.points cdnName
        rw [hpoint] at hprepared
        refine (h.work _ _ hwork).apply hprepared hattempts fun hne => ?_
        cases change with
        | done => exact .inr (.inl rfl)
        | reschedule attempts nextAttemptAt => exact absurd rfl hne
        | failed message => exact .inr (.inr (.inl rfl))
      · exact hquiet (by simpa [hid] using hrow) rfl rfl rfl (·.frame rfl
          (keeps_goto hpoint (by simp [Point.begun, Ne.symm hid])
            fun _ h => h))
  | @purge cdnName claimed found rowcount hphase hcount hpoint =>
      obtain ⟨-, hcdn, hwork, -⟩ := (hsound.tended_at hphase hpoint).serves
      by_cases hid : id = claimed
      · subst hid
        obtain rfl : found.claimed = row := Option.some.inj (hwork ▸ hrow)
        refine (h.work _ _ hrow).purge ?_ _ ?_
        · exact not_spent hphase (hcdn ▸ hpoint) (.inr rfl)
            (by simp [Point.begun])
        · refine .inr (.inr (.inr ⟨hphase, ?_⟩))
          simp [hcdn, Point.begun, jobOf]
      · exact hquiet hrow (by simp [purges, Ne.symm hid]) rfl rfl (·.frame rfl
          (keeps_goto hpoint (by simp [Point.begun]) fun _ h => h))
  | crash =>
      exact ⟨by simpa using (h.committed _ _ hrow).loose, by simp [Spent]⟩
  | select hphase hpoint | claimCommit hphase hpoint
  | settleCommit hphase hpoint | poll hphase hpoint | sleep hphase hpoint
  | claimPost hphase hpoint | claimCommitPost hphase hpoint
  | claimLost hphase hpoint | settleCommitPost hphase hpoint
  | next hphase hpoint | purgeEnd hphase hpoint =>
      exact hquiet hrow rfl rfl rfl (·.frame rfl
        (keeps_goto hpoint (by simp [Point.begun]) fun _ h => h))
  | @purgeRaise cdnName _ _ _ hphase hpoint =>
      refine hquiet hrow rfl rfl rfl (·.frame rfl fun other hother => ?_)
      by_cases heq : other = cdnName <;> simp_all [Point.begun]
  | @kill cdnName =>
      refine hquiet hrow rfl rfl rfl (·.frame rfl fun other hother => ?_)
      by_cases heq : other = cdnName <;> simpa [heq] using hother

theorem Counted.committed_move (h : Counted trace s) (hsound : Sound s)
    (hmove : Move retry s action after out)
    (hrow : after.committed.row id = some row) :
    Bounded (trace ++ out) id row (Spent after Point.uncommitted id row) := by
  have hquiet : s.committed.row id = some row →
      purges id out = 0 → starts out = 0 →
        (Spent s Point.uncommitted id row →
          Spent after Point.uncommitted id row) →
          Bounded (trace ++ out) id row
            (Spent after Point.uncommitted id row) :=
    fun hfound hpurges hstarts =>
      (h.committed _ _ hfound).quiet hpurges hstarts rfl
  cases hmove with
  | tick | enqueuer | insert =>
      exact hquiet hrow rfl rfl (·.frame rfl fun _ h => h)
  | start => exact (h.committed _ _ hrow).start
  | reset hphase | resetPost hphase | run hphase =>
      exact hquiet hrow rfl rfl (·.starting (by simp [hphase])
        (by simp [hphase]) fun _ => rfl)
  | resetCommit hphase =>
      exact (h.work _ _ hrow).quiet rfl rfl rfl (·.starting (by simp [hphase])
        (by simp [hphase]) fun _ => rfl)
  | enqueueCommit =>
      exact (h.work _ _ hrow).quiet rfl rfl rfl (·.frame rfl fun _ =>
        begun_uncommitted _)
  | claimCommit hphase hpoint | settleCommit hphase hpoint =>
      exact (h.work _ _ hrow).quiet rfl rfl rfl (·.frame rfl
        (keeps_goto hpoint (by simp [Point.begun]) begun_uncommitted))
  | @claim cdnName claimed found hphase hpoint =>
      obtain ⟨hwork, -, hpending⟩ := (hsound.tended_at hphase hpoint).serves
      simp only [claim_of_pending hwork hpending, one_ne_zero, if_false] at *
      exact hquiet hrow rfl rfl (·.frame rfl
        (keeps_goto hpoint (by simp [Point.uncommitted]) fun _ h => h))
  | settle hphase hpoint =>
      exact hquiet hrow rfl rfl (·.frame rfl
        (keeps_goto hpoint (by simp [Point.uncommitted]) fun _ h => h))
  | @purge cdnName claimed found rowcount hphase hcount hpoint =>
      obtain ⟨-, hcdn, -, hcommitted⟩ := (hsound.tended_at hphase hpoint).serves
      by_cases hid : id = claimed
      · subst hid
        obtain rfl : found.claimed = row :=
          Option.some.inj (hcommitted ▸ hrow)
        refine (h.committed _ _ hrow).purge ?_ _ ?_
        · exact not_spent hphase (hcdn ▸ hpoint) (.inr rfl)
            (by simp [Point.uncommitted])
        · refine .inr (.inr (.inr ⟨hphase, ?_⟩))
          simp [hcdn, Point.uncommitted, jobOf]
      · exact hquiet hrow (by simp [purges, Ne.symm hid]) rfl (·.frame rfl
          (keeps_goto hpoint (by simp [Point.uncommitted]) fun _ h => h))
  | crash =>
      exact ⟨by simpa using (h.committed _ _ hrow).loose, by simp [Spent]⟩
  | select hphase hpoint | poll hphase hpoint | sleep hphase hpoint
  | claimPost hphase hpoint | claimCommitPost hphase hpoint
  | claimLost hphase hpoint | settleCommitPost hphase hpoint
  | next hphase hpoint | purgeEnd hphase hpoint =>
      exact hquiet hrow rfl rfl (·.frame rfl
        (keeps_goto hpoint (by simp [Point.uncommitted]) fun _ h => h))
  | @purgeRaise cdnName _ _ _ hphase hpoint =>
      refine hquiet hrow rfl rfl (·.frame rfl fun other hother => ?_)
      by_cases heq : other = cdnName <;> simp_all [Point.uncommitted]
  | @kill cdnName =>
      refine hquiet hrow rfl rfl (·.frame rfl fun other hother => ?_)
      by_cases heq : other = cdnName <;> simpa [heq] using hother

theorem Counted.untouched_move (h : Counted trace s) (hsound : Sound s)
    (hmove : Move retry s action after out)
    (hrow : after.committed.row id = none) :
    purges id (trace ++ out) = 0 := by
  have hwas : s.committed.row id = none := by
    by_contra hne
    obtain ⟨row, hfound⟩ := Option.ne_none_iff_exists'.mp hne
    obtain ⟨row', hrow', -⟩ := follows_of_move hsound hmove hfound
    simp [hrow] at hrow'
  rw [purges_append, h.untouched id hwas, Nat.zero_add]
  cases hmove with
  | claim => split <;> rfl
  | @purge cdnName claimed found rowcount hphase hcount hpoint =>
      obtain ⟨-, -, -, hcommitted⟩ := (hsound.tended_at hphase hpoint).serves
      have hne : claimed ≠ id := by
        rintro rfl
        simp [hwas] at hcommitted
      simp [purges, hne]
  | _ => rfl

theorem Counted.started_move (h : Counted trace s)
    (hmove : Move retry s action after out) (hup : after.phase ≠ .down) :
    0 < starts (trace ++ out) := by
  rw [starts_append]
  have hstarted := h.started
  cases hmove with
  | start =>
      have hone : starts [.started] = 1 := rfl
      omega
  | crash => exact absurd rfl hup
  | reset hphase | resetPost hphase | resetCommit hphase | run hphase =>
      exact Nat.add_pos_left (hstarted (by simp [hphase])) _
  | _ => exact Nat.add_pos_left (hstarted hup) _

theorem counted_move (h : Counted trace s) (hsound : Sound s)
    (hpaced : Paced retry trace s) (hmove : Move retry s action after out) :
    Counted (trace ++ out) after where
  started := h.started_move hmove
  untouched := fun _ => h.untouched_move hsound hmove
  work := fun _ _ => h.work_move hsound hpaced hmove
  committed := fun _ _ => h.committed_move hsound hmove

/-! ## Runs -/

/-- In every run under a clock that does not go back, for every job:
`provider.purge` is called at most `max(1, max_attempts)` times and once more
for each restart; a failed row follows an attempt that failed terminally or
with a number of at least `max_attempts`; and when the reschedule of a failed
attempt has been committed, every later claim of the job comes its backoff
after that failure. -/
theorem retries_are_bounded_and_spaced
    (hrun : Reaches (step retry) (fun s action => forward s action) (init now)
      trace s) (id : ℕ) :
    (purges id trace : ℤ) ≤
      max 1 retry.maxAttempts + ((starts trace : ℤ) - 1) ∧
    (∀ row, s.committed.row id = some row → row.status = .failed →
      Since (·.GivesUp retry id) (·.Ends id) trace) ∧
    ∀ before result failedAt middle rows row between attempt time rest,
      trace = before ++ .purgeEnded id row.attempts result failedAt :: middle
        ++ .committed rows :: between ++ .claimed id attempt time :: rest →
      (id, row) ∈ rows →
        failedAt + min (retry.initialBackoffSeconds * 2 ^ (row.attempts - 1))
          retry.maxBackoffSeconds ≤ time := by
  have hpaced := paced_of_reaches hrun
  have hcounted : Counted trace s := by
    apply hrun.invariant_along Counted counted_init
    intro trace s action after out hearlier h _ hstep
    exact counted_move h (sound_of_reaches hearlier) (paced_of_reaches hearlier)
      (move_of_step hstep)
  refine ⟨?_, fun row hrow => (hpaced.committed id row hrow).failed, ?_⟩
  · cases hrow : s.committed.row id with
    | none =>
        rw [hcounted.untouched id hrow]
        have hmax := le_max_left 1 retry.maxAttempts
        omega
    | some row =>
        have hattempts := (hpaced.committed id row hrow).attempts
        have hloose := (hcounted.committed id row hrow).loose
        omega
  · intro before result failedAt middle rows row between attempt time rest
      htrace hmem
    have hspaced := hpaced.claims _ _ _ htrace id attempt time rfl
    exact hspaced _ _ _ rfl rows row result failedAt rfl hmem (by simp)

/-- A failed attempt, a restart after its reschedule, and the next claim. -/
theorem retries_are_bounded_and_spaced_sample :
    ∃ trace s, Reaches (step {}) (fun s action => forward s action) (init 0)
        trace s ∧
      trace = [.started, .committed [],
          .committed [(1, ⟨"a", ["/x"], 0, 0, 0, .pending, none⟩)],
          .claimed 1 1 0,
          .committed [(1, ⟨"a", ["/x"], 0, 0, 0, .inFlight, none⟩)],
          .purgeStarted 1 1] ++
        .purgeEnded 1 1 ⟨false, true, "HTTP 503"⟩ 0 :: [] ++
        .committed [(1, ⟨"a", ["/x"], 1, 5, 0, .pending, none⟩)] ::
        [.started,
          .committed [(1, ⟨"a", ["/x"], 1, 5, 0, .pending, none⟩)]] ++
        .claimed 1 2 5 :: [] ∧
      (purges 1 trace : ℤ) ≤ 8 + (2 - 1) ∧
      (0 : ℚ) + min (5 * 2 ^ (1 - 1)) 300 ≤ 5 := by
  obtain ⟨trace, s, hrun, htrace⟩ := exists_reaches_of_execute
    (step {}) (init 0) (fun s action => forward s action) (·.2) _
    [.start, .boot, .boot, .boot, .boot, .enqueue 0 "a" ["/x"],
      .execEnqueue 0, .resumeEnqueue 0, .execEnqueue 0, .resumeWorker "a",
      .execWorker "a", .resumeWorker "a", .execWorker "a", .resumeWorker "a",
      .execWorker "a", .resumeWorker "a",
      .purgeEnd "a" (.ok ⟨false, true, "HTTP 503"⟩), .execWorker "a",
      .resumeWorker "a", .execWorker "a", .crash, .start, .boot, .boot, .boot,
      .boot, .tick 5, .resumeWorker "a", .execWorker "a", .resumeWorker "a",
      .execWorker "a"]
    (show _ = some ([.started, .committed [],
          .committed [(1, ⟨"a", ["/x"], 0, 0, 0, .pending, none⟩)],
          .claimed 1 1 0,
          .committed [(1, ⟨"a", ["/x"], 0, 0, 0, .inFlight, none⟩)],
          .purgeStarted 1 1] ++
        .purgeEnded 1 1 ⟨false, true, "HTTP 503"⟩ 0 :: [] ++
        .committed [(1, ⟨"a", ["/x"], 1, 5, 0, .pending, none⟩)] ::
        [.started,
          .committed [(1, ⟨"a", ["/x"], 1, 5, 0, .pending, none⟩)]] ++
        .claimed 1 2 5 :: []) by decide +kernel)
  obtain ⟨hbound, -, hspaced⟩ := retries_are_bounded_and_spaced hrun 1
  refine ⟨trace, s, hrun, htrace, ?_, ?_⟩
  · have hstarts : starts trace = 2 := by
      rw [show trace = _ from htrace]
      rfl
    rw [hstarts] at hbound
    exact hbound
  · have hspaced' := hspaced _ _ 0 _ _ ⟨"a", ["/x"], 1, 5, 0, .pending, none⟩
      _ 2 5 _ htrace (List.mem_singleton_self _)
    exact hspaced'

end MirrorMirage.Queue
