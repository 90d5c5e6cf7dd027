import Mathlib.Algebra.BigOperators.Group.Finset.Basic
import Mathlib.Algebra.Order.BigOperators.Group.Finset
import MirrorMirage.Core.Composition
import MirrorMirage.Queue.Spacing

/-!
# A worker can finish every job of its CDN

Whatever the provider answers, the worker alone can bring all rows of its CDN
to an end, given time for the backoffs: each iteration takes one of the
attempts that are left (`load`), and the points of an iteration have a rank.
-/

namespace MirrorMirage.Queue

open Function (update)
open MirrorMirage.Providers MirrorMirage.Run MirrorMirage.Worker

/-- Time passes and one worker is at work, whose provider gives the answers. -/
def serving (answer : State → Job → Except String PurgeResult)
    (cdnName : String) (s : State) : Action → Prop
  | .tick time => s.now ≤ time
  | .execWorker other | .resumeWorker other => other = cdnName
  | .purgeEnd other outcome => other = cdnName ∧
      ∀ job, (s.worker cdnName).point = .purging job → outcome = answer s job
  | _ => False

def Status.isFinal : Status → Bool
  | .done | .failed => true
  | _ => false

/-- All rows of the CDN are done or failed. -/
def Finished (db : Db) (cdnName : String) : Prop :=
  ∀ id row, db.row id = some row → row.cdnName = cdnName → row.status.isFinal

/-! ## The attempts that are left -/

def Row.load (retry : RetryConfig) (row : Row) : ℕ :=
  if row.status.isFinal then 0
  else (retry.maxAttempts - row.attempts).toNat + 1

def Db.load (retry : RetryConfig) (cdnName : String) (db : Db) : ℕ :=
  ∑ id ∈ Finset.range db.nextId, ((db.row id).elim 0 fun row =>
    if row.cdnName = cdnName then row.load retry else 0)

section Load

variable {retry : RetryConfig} {db : Db} {id : ℕ} {row : Row}
variable {cdnName : String} {change : Row → Row}

theorem load_claimed (hpending : row.status = .pending) :
    row.claimed.load retry = row.load retry := by
  simp [Row.load, hpending, Row.claimed, Status.isFinal]

theorem load_modify_eq (hrow : db.row id = some row)
    (hcdn : (change row).cdnName = row.cdnName)
    (hload : (change row).load retry = row.load retry) :
    (db.modify id change).load retry cdnName = db.load retry cdnName := by
  refine Finset.sum_congr rfl fun other _ => ?_
  by_cases heq : other = id
  · subst heq
    simp [hrow, hcdn, hload]
  · simp [heq]

theorem load_modify_lt (hid : id < db.nextId) (hrow : db.row id = some row)
    (hcdn : (change row).cdnName = cdnName) (hsame : row.cdnName = cdnName)
    (hload : (change row).load retry < row.load retry) :
    (db.modify id change).load retry cdnName < db.load retry cdnName := by
  refine Finset.sum_lt_sum (fun other _ => ?_)
    ⟨id, Finset.mem_range.mpr hid, ?_⟩
  · by_cases heq : other = id
    · subst heq
      simpa [hrow, hcdn, hsame] using hload.le
    · simp [heq]
  · simpa [hrow, hcdn, hsame] using hload

/-- A settlement takes the row out or counts an attempt. -/
theorem load_apply_lt {update : Update} (hflight : row.status = .inFlight)
    (hcounted : ∀ attempts time, update = .reschedule attempts time →
      attempts = row.attempts + 1 ∧ (attempts : ℤ) < retry.maxAttempts) :
    (update.apply row).load retry < row.load retry := by
  cases update with
  | done | failed => simp [Update.apply, Row.load, hflight, Status.isFinal]
  | reschedule attempts time =>
      obtain ⟨rfl, hlt⟩ := hcounted attempts time rfl
      simp only [Update.apply, Row.load, hflight, Status.isFinal,
        Bool.false_eq_true, if_false]
      push_cast at hlt ⊢
      omega

end Load

/-! ## One worker at work -/

/-- A reschedule has counted the attempt before it. -/
def Counts (retry : RetryConfig) : Point → Prop
  | .settling job (.reschedule attempts _) =>
      attempts = job.attempts + 1 ∧ (attempts : ℤ) < retry.maxAttempts
  | _ => True

/-- The place of a point in its iteration; the attempt is counted at the
settlement, and a `SELECT` that finds nothing leads back to the poll. -/
def Point.rank (db : Db) (cdnName : String) : Point → ℕ
  | .settled _ _ => 13
  | .settleCommitting _ _ => 12
  | .settleCommitted _ _ => 11
  | .selecting now => if (db.selectReady cdnName now).isSome then 9 else 12
  | .selected none => 11
  | .idle => 10
  | .selected (some _) => 8
  | .updating _ _ => 7
  | .updated _ _ _ => 6
  | .claimCommitting _ _ _ => 5
  | .claimCommitted _ _ _ => 4
  | .purging _ => 3
  | .settling _ _ => 2

structure Served (retry : RetryConfig) (cdnName : String) (s : State) :
    Prop where
  sound : Sound s
  phase : s.phase = .running
  alive : (s.worker cdnName).alive
  counted : Counts retry (s.worker cdnName).point

/-- What is left of the work for the CDN. -/
def remaining (retry : RetryConfig) (cdnName : String) (s : State) : ℕ :=
  14 * s.work.load retry cdnName +
    (s.worker cdnName).point.rank s.work cdnName

section Counts

variable {retry : RetryConfig} {s after : State} {action : Action}
variable {out : List Obs} {cdnName : String}

theorem counts_statement {job : Job} {result : PurgeResult}
    {settlement : Settlement} {now : ℚ}
    (hsettle : settle retry (job.attempts + 1) result = .ok settlement) :
    Counts retry (.settling job (statement now settlement)) := by
  cases settlement with
  | reschedule attempts backoff =>
      obtain ⟨hattempts, hlt, -⟩ := settle_reschedule hsettle
      exact ⟨hattempts, hattempts ▸ hlt⟩
  | _ => trivial

theorem counts_of_move (h : ∀ cdnName, Counts retry (s.worker cdnName).point)
    (hmove : Move retry s action after out) (cdnName : String) :
    Counts retry (after.worker cdnName).point := by
  cases hmove with
  | run | crash => trivial
  | kill =>
      simp only [Function.update_apply]
      split
      · rename_i heq
        exact heq ▸ h _
      · exact h _
  | purgeRaise =>
      simp only [Function.update_apply]
      split
      · trivial
      · exact h _
  | purgeEnd hphase hpoint hsettle =>
      rw [goto_point]
      split
      · exact counts_statement hsettle
      · exact h _
  | select | claim | claimCommit | settle | settleCommit | poll | sleep
  | claimPost | claimCommitPost | claimLost | purge | settleCommitPost | next =>
      simp only [goto_point]
      split
      · trivial
      · exact h _
  | _ => exact h cdnName

theorem served_of_reaches {allowed : State → Action → Prop} {now : ℚ}
    {trace : List Obs}
    (hrun : Reaches (step retry) allowed (init now) trace s)
    (hphase : s.phase = .running) (halive : (s.worker cdnName).alive) :
    Served retry cdnName s := by
  have hinit : ∀ cdnName, Counts retry ((init now).worker cdnName).point :=
    fun _ => trivial
  have hcounted : ∀ cdnName, Counts retry (s.worker cdnName).point :=
    hrun.invariant
      (fun _ s => ∀ cdnName, Counts retry (s.worker cdnName).point) hinit
      fun h _ hstep => counts_of_move h (move_of_step hstep)
  exact ⟨sound_of_reaches hrun, hphase, halive, hcounted cdnName⟩

end Counts

/-! ## One step of the worker -/

/-- The worker can go on, and has less to do then. -/
def Advances (retry : RetryConfig)
    (answer : State → Job → Except String PurgeResult) (cdnName : String)
    (s : State) : Prop :=
  ∃ trace after, Reaches (step retry) (serving answer cdnName) s trace after ∧
    Served retry cdnName after ∧
    remaining retry cdnName after < remaining retry cdnName s

section Turns

variable {retry : RetryConfig} {s : State} {cdnName : String}
variable {answer : State → Job → Except String PurgeResult}

/-- The worker takes a step and has less to do. -/
theorem Served.turn (h : Served retry cdnName s) {action : Action}
    {after : State} {out : List Obs} {point : Point}
    (hserving : serving answer cdnName s action)
    (hstep : step retry s action = some (after, out))
    (hphase : after.phase = s.phase)
    (hworker : after.worker cdnName =
      { s.worker cdnName with point := point })
    (hcounted : Counts retry point)
    (hlt : 14 * after.work.load retry cdnName + point.rank after.work cdnName <
      remaining retry cdnName s) :
    Advances retry answer cdnName s := by
  refine ⟨out, after, Reaches.refl.snoc hserving hstep,
    ⟨sound_move h.sound (move_of_step hstep), hphase.trans h.phase, ?_, ?_⟩, ?_⟩
  · rw [hworker]
    exact h.alive
  · rwa [hworker]
  · rwa [remaining, hworker]

/-- The worker goes on with no row to change. -/
theorem Served.turn_resume (h : Served retry cdnName s) {out : List Obs}
    {point : Point}
    (hresume : resumeWorker s cdnName = some (s.goto cdnName point, out))
    (hcounted : Counts retry point)
    (hlt : point.rank s.work cdnName <
      (s.worker cdnName).point.rank s.work cdnName) :
    Advances retry answer cdnName s := by
  have hstep : step retry s (.resumeWorker cdnName) =
      some (s.goto cdnName point, out) := by
    simp only [step, h.phase, h.alive, and_self, if_true, hresume]
  have hserving : serving answer cdnName s (.resumeWorker cdnName) := rfl
  exact h.turn hserving hstep rfl (by simp [State.goto]) hcounted
    (Nat.add_lt_add_left hlt _)

/-- The thread comes to what the worker has posted, with no row to change. -/
theorem Served.turn_exec (h : Served retry cdnName s) {out : List Obs}
    {point : Point} {committed : Db}
    (hexec : execWorker s cdnName =
      some ({ s with committed := committed }.goto cdnName point, out))
    (hcounted : Counts retry point)
    (hlt : point.rank s.work cdnName <
      (s.worker cdnName).point.rank s.work cdnName) :
    Advances retry answer cdnName s := by
  have hstep : step retry s (.execWorker cdnName) =
      some ({ s with committed := committed }.goto cdnName point, out) := by
    simp only [step, h.phase, if_true, hexec]
  have hserving : serving answer cdnName s (.execWorker cdnName) := rfl
  exact h.turn hserving hstep rfl (by simp [State.goto]) hcounted
    (Nat.add_lt_add_left hlt _)

/-- The thread comes to an `UPDATE` of the worker. -/
theorem Served.turn_update (h : Served retry cdnName s) {out : List Obs}
    {point : Point} {work : Db}
    (hexec : execWorker s cdnName =
      some ({ s.goto cdnName point with work := work }, out))
    (hcounted : Counts retry point)
    (hlt : 14 * work.load retry cdnName + point.rank work cdnName <
      remaining retry cdnName s) :
    Advances retry answer cdnName s := by
  have hstep : step retry s (.execWorker cdnName) =
      some ({ s.goto cdnName point with work := work }, out) := by
    simp only [step, h.phase, if_true, hexec]
  have hserving : serving answer cdnName s (.execWorker cdnName) := rfl
  exact h.turn hserving hstep rfl (by simp [State.goto]) hcounted hlt

/-- Time passes until a row is ready, and the worker polls. -/
theorem Served.turn_idle (h : Served retry cdnName s)
    (hpoint : (s.worker cdnName).point = .idle) {id : ℕ} {row : Row}
    (hrow : s.work.row id = some row) (hcdn : row.cdnName = cdnName)
    (hpending : row.status = .pending) :
    Advances retry answer cdnName s := by
  generalize htime : max s.now row.nextAttemptAt = time
  have htick : step retry s (.tick time) = some ({ s with now := time }, []) :=
    rfl
  have hlater : Served retry cdnName { s with now := time } :=
    ⟨sound_move h.sound (move_of_step htick), h.phase, h.alive, h.counted⟩
  have hready : (s.work.selectReady cdnName time).isSome := by
    refine List.find?_isSome.mpr ⟨(id, row), mem_rows_iff.mpr ⟨?_, hrow⟩, ?_⟩
    · by_contra hge
      simp [h.sound.freshWork id (not_lt.mp hge)] at hrow
    · simp [Row.isReady, hcdn, hpending, ← htime]
  have hpoll : resumeWorker { s with now := time } cdnName =
      some ({ s with now := time }.goto cdnName (.selecting time), []) := by
    simp only [resumeWorker, hpoint]
  obtain ⟨trace, after, hrun, hserved, hlt⟩ :=
    @Served.turn_resume retry { s with now := time } cdnName answer hlater _ _
      hpoll trivial (by simp [hpoint, Point.rank, hready])
  have hwait : serving answer cdnName s (.tick time) :=
    (le_max_left _ _).trans_eq htime
  exact ⟨_, after, (Reaches.refl.snoc hwait htick).trans hrun, hserved, hlt⟩

/-- The provider answers, which does not end the worker. -/
theorem Served.turn_purging (h : Served retry cdnName s)
    (hmax : retry.maxAttempts ≤ 1025) {job : Job}
    (hpoint : (s.worker cdnName).point = .purging job) :
    Advances retry answer cdnName s := by
  obtain ⟨settlement, hsettle⟩ : ∃ settlement, settle retry (job.attempts + 1)
      (caught (answer s job)) = .ok settlement := by
    rw [settle_ok_iff (Nat.le_add_left 1 job.attempts)]
    rintro ⟨-, -, hlt⟩
    have hle := hlt.trans_le hmax
    omega
  have hstep : step retry s (.purgeEnd cdnName (answer s job)) =
      some (s.goto cdnName (.settling job (statement s.now settlement)),
        [.purgeEnded job.id (job.attempts + 1) (caught (answer s job))
          s.now]) := by
    simp only [step, h.phase, h.alive, and_self, if_true, purgeEnd, hpoint,
      hsettle]
  have hserving : serving answer cdnName s
      (.purgeEnd cdnName (answer s job)) := by
    refine ⟨rfl, fun other hother => ?_⟩
    cases hother.symm.trans hpoint
    rfl
  have hcounted : Counts retry
      (.settling job (statement s.now settlement)) := counts_statement hsettle
  exact h.turn hserving hstep rfl (by simp [State.goto]) hcounted
    (by simp [remaining, hpoint, Point.rank])

/-- The settlement counts the attempt. -/
theorem Served.turn_settling (h : Served retry cdnName s) {job : Job}
    {change : Update} (hpoint : (s.worker cdnName).point = .settling job change) :
    Advances retry answer cdnName s := by
  obtain ⟨row, hcdn, hflight, hattempts, hwork, -⟩ :=
    h.sound.attempting h.phase (.inr ⟨change, hpoint⟩)
  have hid : job.id < s.work.nextId := by
    by_contra hge
    simp [h.sound.freshWork _ (not_lt.mp hge)] at hwork
  have hexec : execWorker s cdnName = some ({ s.goto cdnName (.settled job change)
      with work := s.work.modify job.id change.apply }, []) := by
    simp only [execWorker, hpoint]
  refine h.turn_update hexec trivial ?_
  have hload : (s.work.modify job.id change.apply).load retry cdnName <
      s.work.load retry cdnName := by
    refine load_modify_lt hid hwork ((apply_cdnName change).trans hcdn) hcdn
      (load_apply_lt hflight fun attempts time heq => ?_)
    have hcounted := h.counted
    rw [hpoint, heq] at hcounted
    rw [hattempts]
    exact hcounted
  simp only [remaining, hpoint, Point.rank]
  omega

/-- The claim leaves the attempts as they are. -/
theorem Served.turn_updating (h : Served retry cdnName s) {id : ℕ} {row : Row}
    (hpoint : (s.worker cdnName).point = .updating id row) :
    Advances retry answer cdnName s := by
  obtain ⟨hwork, -, hpending⟩ := (h.sound.tended_at h.phase hpoint).serves
  have hclaim := claim_of_pending hwork hpending
  have hexec : execWorker s cdnName = some ({ s.goto cdnName (.updated id row 1)
      with work := s.work.modify id Row.claimed },
        [.claimed id (row.attempts + 1) s.now]) := by
    simp only [execWorker, hpoint, hclaim, one_ne_zero, if_false]
  refine h.turn_update hexec trivial ?_
  rw [load_modify_eq hwork rfl (load_claimed hpending)]
  simp [remaining, hpoint, Point.rank]

/-- Until all rows of the CDN are done or failed, the worker has something to
do and less of it afterwards. -/
theorem Served.exists_turn (h : Served retry cdnName s)
    (hmax : retry.maxAttempts ≤ 1025)
    (hbusy : ¬ ((s.worker cdnName).point = .idle ∧ Finished s.work cdnName)) :
    Advances retry answer cdnName s := by
  cases hpoint : (s.worker cdnName).point with
  | idle =>
      have hopen : ¬ Finished s.work cdnName := fun hdone =>
        hbusy ⟨hpoint, hdone⟩
      simp only [Finished, not_forall] at hopen
      obtain ⟨id, row, hrow, hcdn, hfinal⟩ := hopen
      refine h.turn_idle hpoint hrow hcdn ?_
      cases hstatus : row.status with
      | pending => rfl
      | inFlight =>
          have hflying := (h.sound.tended_at h.phase hpoint).flying id row hrow
            hcdn hstatus
          simp [Point.flying] at hflying
      | _ => simp [hstatus, Status.isFinal] at hfinal
  | selecting now =>
      have hexec : execWorker s cdnName = some (s.goto cdnName
          (.selected (s.work.selectReady cdnName now)), []) := by
        simp only [execWorker, hpoint]
      refine h.turn_exec hexec ?_ ?_ <;>
        cases hselect : s.work.selectReady cdnName now <;>
        simp [hpoint, hselect, Point.rank, Counts]
  | selected found =>
      cases found with
      | none =>
          have hresume : resumeWorker s cdnName =
              some (s.goto cdnName .idle, []) := by
            simp only [resumeWorker, hpoint]
          exact h.turn_resume hresume trivial (by simp [hpoint, Point.rank])
      | some found =>
          obtain ⟨id, row⟩ := found
          have hresume : resumeWorker s cdnName =
              some (s.goto cdnName (.updating id row), []) := by
            simp only [resumeWorker, hpoint]
          exact h.turn_resume hresume trivial (by simp [hpoint, Point.rank])
  | updating id row => exact h.turn_updating hpoint
  | updated id row rowcount =>
      have hresume : resumeWorker s cdnName =
          some (s.goto cdnName (.claimCommitting id row rowcount), []) := by
        simp only [resumeWorker, hpoint]
      exact h.turn_resume hresume trivial (by simp [hpoint, Point.rank])
  | claimCommitting id row rowcount =>
      have hexec : execWorker s cdnName =
          some (s.commit.goto cdnName (.claimCommitted id row rowcount),
            [.committed s.work.rows]) := by
        simp only [execWorker, hpoint]
      exact h.turn_exec hexec trivial (by simp [hpoint, Point.rank])
  | claimCommitted id row rowcount =>
      obtain ⟨rfl, -⟩ := (h.sound.tended_at h.phase hpoint).serves
      have hresume : resumeWorker s cdnName =
          some (s.goto cdnName (.purging (jobOf id row)),
            [.purgeStarted id (row.attempts + 1)]) := by
        simp only [resumeWorker, hpoint, one_ne_zero, if_false]
      exact h.turn_resume hresume trivial (by simp [hpoint, Point.rank])
  | purging job => exact h.turn_purging hmax hpoint
  | settling job change => exact h.turn_settling hpoint
  | settled job change =>
      have hresume : resumeWorker s cdnName =
          some (s.goto cdnName (.settleCommitting job change), []) := by
        simp only [resumeWorker, hpoint]
      exact h.turn_resume hresume trivial (by simp [hpoint, Point.rank])
  | settleCommitting job change =>
      have hexec : execWorker s cdnName =
          some (s.commit.goto cdnName (.settleCommitted job change),
            [.committed s.work.rows]) := by
        simp only [execWorker, hpoint]
      exact h.turn_exec hexec trivial (by simp [hpoint, Point.rank])
  | settleCommitted job change =>
      have hresume : resumeWorker s cdnName =
          some (s.goto cdnName .idle, []) := by
        simp only [resumeWorker, hpoint]
      exact h.turn_resume hresume trivial (by simp [hpoint, Point.rank])

end Turns

/-! ## Rows that are done or failed -/

/-- The answer that a row with the status goes back to. -/
def Obs.Closes (retry : RetryConfig) (id : ℕ) (status : Status) : Obs → Prop
  | .purgeEnded other attempt result _ => other = id ∧
      (status = .done ∧ result.ok = true ∨
        status = .failed ∧ result.ok = false ∧
          (result.retryable = true → retry.maxAttempts ≤ attempt))
  | _ => False

def Answered (retry : RetryConfig) (trace : List Obs) (id : ℕ)
    (status : Status) : Prop :=
  ∃ obs ∈ trace, obs.Closes retry id status

def Update.status : Update → Status
  | .done => .done
  | .reschedule _ _ => .pending
  | .failed _ => .failed

/-- Rows from `first` on have their status from an answer. -/
structure Accounted (retry : RetryConfig) (first : ℕ) (trace : List Obs)
    (s : State) : Prop where
  rows : ∀ {id row}, s.work.row id = some row ∨ s.committed.row id = some row →
    row.status.isFinal → first ≤ id → Answered retry trace id row.status
  settling : ∀ {cdnName job change},
    (s.worker cdnName).point = .settling job change → change.status.isFinal →
      first ≤ job.id → Answered retry trace job.id change.status

section Accounted

variable {retry : RetryConfig} {first : ℕ} {trace out : List Obs}
variable {s after : State} {action : Action} {cdnName : String}

theorem Answered.append {id : ℕ} {status : Status}
    (h : Answered retry trace id status) :
    Answered retry (trace ++ out) id status := by
  obtain ⟨obs, hobs, hcloses⟩ := h
  exact ⟨obs, List.mem_append_left _ hobs, hcloses⟩

theorem apply_status (row : Row) (change : Update) :
    (change.apply row).status = change.status := by
  cases change <;> rfl

/-- No row ends but by the settlement of a worker. -/
theorem final_of_move (hsound : Sound s) (hmove : Move retry s action after out)
    {id : ℕ} {row : Row}
    (hrow : after.work.row id = some row ∨ after.committed.row id = some row)
    (hfinal : row.status.isFinal) :
    (∃ found, (s.work.row id = some found ∨ s.committed.row id = some found) ∧
        found.status = row.status) ∨
      ∃ cdnName job change, (s.worker cdnName).point = .settling job change ∧
        job.id = id ∧ change.status = row.status := by
  cases hmove with
  | reset =>
      rcases hrow with hrow | hrow
      · obtain ⟨found, hfound, rfl⟩ := Option.map_eq_some_iff.mp hrow
        refine .inl ⟨found, .inl hfound, ?_⟩
        unfold Row.reset at hfinal ⊢
        split at hfinal
        · cases hfinal
        · rename_i hflight
          rw [if_neg hflight]
      · exact .inl ⟨row, .inr hrow, rfl⟩
  | resetCommit | enqueueCommit | claimCommit | settleCommit =>
      exact .inl ⟨row, .inl (or_self_iff.mp hrow), rfl⟩
  | crash => exact .inl ⟨row, .inr (or_self_iff.mp hrow), rfl⟩
  | insert =>
      rcases hrow with hrow | hrow
      · by_cases hid : id = s.work.nextId
        · obtain rfl : _ = row := by simpa [Db.insert, hid] using hrow
          cases hfinal
        · exact .inl ⟨row, .inl (by simpa [Db.insert, hid] using hrow), rfl⟩
      · exact .inl ⟨row, .inr hrow, rfl⟩
  | @claim cdnName claimed found hphase hpoint =>
      obtain ⟨hwork, -, hpending⟩ := (hsound.tended_at hphase hpoint).serves
      rcases hrow with hrow | hrow
      · simp only [claim_of_pending hwork hpending] at hrow
        by_cases hid : id = claimed
        · subst hid
          obtain rfl : found.claimed = row := by simpa [hwork] using hrow
          cases hfinal
        · exact .inl ⟨row, .inl (by simpa [hid] using hrow), rfl⟩
      · exact .inl ⟨row, .inr hrow, rfl⟩
  | @settle cdnName job change hphase hpoint =>
      rcases hrow with hrow | hrow
      · by_cases hid : id = job.id
        · subst hid
          obtain ⟨found, -, rfl⟩ : ∃ found, s.work.row job.id = some found ∧
              change.apply found = row := by simpa using hrow
          exact .inr ⟨cdnName, job, change, hpoint, rfl,
            (apply_status found change).symm⟩
        · exact .inl ⟨row, .inl (by simpa [hid] using hrow), rfl⟩
      · exact .inl ⟨row, .inr hrow, rfl⟩
  | _ => exact .inl ⟨row, hrow, rfl⟩

theorem answered_of_settle {attempt : ℕ} {result : PurgeResult}
    {settlement : Settlement} {now time : ℚ} {id : ℕ}
    (hsettle : settle retry attempt result = .ok settlement)
    (hfinal : (statement now settlement).status.isFinal) :
    Answered retry [.purgeEnded id attempt result time] id
      (statement now settlement).status := by
  refine ⟨_, List.mem_singleton_self _, rfl, ?_⟩
  cases settlement with
  | markDone => exact .inl ⟨rfl, settle_markDone_iff.mp hsettle⟩
  | markFailed message => exact .inr ⟨rfl, settle_markFailed hsettle⟩
  | reschedule attempts backoff => cases hfinal

/-- A worker that is about to close a job was before or has been answered
now. -/
theorem settling_of_move (hmove : Move retry s action after out) {job : Job}
    {change : Update}
    (hpoint : (after.worker cdnName).point = .settling job change)
    (hfinal : change.status.isFinal) :
    (s.worker cdnName).point = .settling job change ∨
      Answered retry out job.id change.status := by
  cases hmove with
  | run | crash => cases hpoint
  | kill =>
      simp only [Function.update_apply] at hpoint
      split at hpoint
      · rename_i heq
        exact .inl (heq ▸ hpoint)
      · exact .inl hpoint
  | purgeRaise =>
      simp only [Function.update_apply] at hpoint
      split at hpoint
      · cases hpoint
      · exact .inl hpoint
  | purgeEnd hphase hbefore hsettle =>
      rw [goto_point] at hpoint
      split at hpoint
      · cases hpoint
        exact .inr (answered_of_settle hsettle hfinal)
      · exact .inl hpoint
  | select | claim | claimCommit | settle | settleCommit | poll | sleep
  | claimPost | claimCommitPost | claimLost | purge | settleCommitPost | next =>
      simp only [goto_point] at hpoint
      split at hpoint
      · cases hpoint
      · exact .inl hpoint
  | _ => exact .inl hpoint

theorem accounts_of_move (h : Accounted retry first trace s) (hsound : Sound s)
    (hmove : Move retry s action after out) :
    Accounted retry first (trace ++ out) after where
  rows := by
    intro id row hrow hfinal hfirst
    rcases final_of_move hsound hmove hrow hfinal with
      ⟨found, hfound, hsame⟩ | ⟨cdnName, job, change, hpoint, rfl, hsame⟩ <;>
      rw [← hsame] at hfinal ⊢
    · exact (h.rows hfound hfinal hfirst).append
    · exact (h.settling hpoint hfinal hfirst).append
  settling := by
    intro cdnName job change hpoint hfinal hfirst
    rcases settling_of_move hmove hpoint hfinal with hbefore | hanswered
    · exact (h.settling hbefore hfinal hfirst).append
    · obtain ⟨obs, hobs, hcloses⟩ := hanswered
      exact ⟨obs, List.mem_append_right _ hobs, hcloses⟩

theorem accounted_of_reaches {allowed : State → Action → Prop} {start : State}
    (hsound : Sound start) (hstart : Accounted retry first [] start)
    (hrun : Reaches (step retry) allowed start trace s) :
    Accounted retry first trace s :=
  (hrun.invariant (fun trace s => Sound s ∧ Accounted retry first trace s)
    ⟨hsound, hstart⟩ fun h _ hstep =>
      have hmove := move_of_step hstep
      ⟨sound_move h.1 hmove, accounts_of_move h.2 h.1 hmove⟩).2

theorem accounted_init (now : ℚ) : Accounted retry first [] (init now) :=
  ⟨by simp [init], by simp [init]⟩

end Accounted

/-! ## Whole runs -/

/-- The worker can close all jobs of its CDN. -/
theorem Served.exists_finished {retry : RetryConfig} {s : State}
    {cdnName : String} (h : Served retry cdnName s)
    (hmax : retry.maxAttempts ≤ 1025)
    (answer : State → Job → Except String PurgeResult) :
    ∃ more final, Reaches (step retry) (serving answer cdnName) s more final ∧
      Served retry cdnName final ∧
      (final.worker cdnName).point = .idle ∧
      Finished final.committed cdnName := by
  obtain ⟨more, final, hmore, hserved, hidle, hfinished⟩ :=
    @exists_reaches_of_runs _ _ _ (step retry) (serving answer cdnName) s
      (Served retry cdnName)
      (fun s => (s.worker cdnName).point = .idle ∧ Finished s.work cdnName)
      (remaining retry cdnName)
      (fun hserved hbusy => hserved.exists_turn hmax hbusy) h
  refine ⟨more, final, hmore, hserved, hidle, fun id row hrow hcdn => ?_⟩
  have hwork : final.work.row id = some row :=
    (hserved.sound.tended_at hserved.phase hidle).agree id row hrow hcdn
      (by simp [Point.unsaved])
  exact hfinished id row hwork hcdn

/-- From every state of every run in which the daemon is up and the worker of a
CDN lives, whatever its provider answers from then on: time and the worker
alone lead to a state in which every job of the CDN is done, after an answer
that was ok, or failed, after one that is final or was the last. -/
theorem jobs_come_to_an_end {retry : RetryConfig}
    (hmax : retry.maxAttempts ≤ 1025) {allowed : State → Action → Prop}
    {now : ℚ} {trace : List Obs} {s : State} {cdnName : String}
    (hrun : Reaches (step retry) allowed (init now) trace s)
    (hphase : s.phase = .running) (halive : (s.worker cdnName).alive)
    (answer : State → Job → Except String PurgeResult) :
    ∃ more final, Reaches (step retry) (serving answer cdnName) s more final ∧
      final.phase = .running ∧ (final.worker cdnName).alive ∧
      (final.worker cdnName).point = .idle ∧
      ∀ id row, final.committed.row id = some row → row.cdnName = cdnName →
        row.status.isFinal ∧ Answered retry (trace ++ more) id row.status := by
  obtain ⟨more, final, hmore, hserved, hidle, hfinished⟩ :=
    (served_of_reaches hrun hphase halive).exists_finished hmax answer
  have hwhole : Reaches (step retry) (fun _ _ => True) (init now)
      (trace ++ more) final :=
    (hrun.mono fun _ _ _ => trivial).trans (hmore.mono fun _ _ _ => trivial)
  refine ⟨more, final, hmore, hserved.phase, hserved.alive, hidle, ?_⟩
  intro id row hrow hcdn
  have hfinal := hfinished id row hrow hcdn
  exact ⟨hfinal, (accounted_of_reaches (sound_init now) (accounted_init now)
    hwhole).rows (.inr hrow) hfinal (Nat.zero_le id)⟩

/-- A provider that fails once. -/
def flaky (_ : State) (job : Job) : Except String PurgeResult :=
  if job.attempts = 0 then .error "ConnectError" else .ok ⟨true, false, "ok"⟩

/-- A job that the worker is just claiming. -/
theorem jobs_come_to_an_end_sample : ∃ trace s more final row,
    Reaches (step {}) (fun _ _ => True) (init 0) trace s ∧
    Reaches (step {}) (serving flaky "a") s more final ∧
    final.committed.row 1 = some row ∧ row.urls = ["/x"] ∧
    row.status.isFinal ∧ Answered {} (trace ++ more) 1 row.status := by
  obtain ⟨trace, s, hrun, hview⟩ := exists_reaches_of_execute
    (step {}) (init 0) (fun _ _ => True)
    (fun final => (final.1.phase, (final.1.worker "a").alive,
      final.1.committed.row 1))
    (.running, true, some ⟨"a", ["/x"], 0, 0, 0, .pending, none⟩)
    [.start, .boot, .boot, .boot, .boot, .enqueue 0 "a" ["/x"],
      .execEnqueue 0, .resumeEnqueue 0, .execEnqueue 0, .resumeWorker "a",
      .execWorker "a", .resumeWorker "a", .execWorker "a"]
    (by decide +kernel)
  obtain ⟨hphase, hview⟩ := Prod.ext_iff.mp hview
  obtain ⟨halive, hrow⟩ := Prod.ext_iff.mp hview
  obtain ⟨more, final, hmore, -, -, -, hended⟩ :=
    jobs_come_to_an_end (by decide) hrun hphase halive flaky
  obtain ⟨row, hfinal, hsurvives⟩ :=
    survives_of_reaches (sound_of_reaches hrun) hmore hrow
  exact ⟨trace, s, more, final, row, hrun, hmore, hfinal, hsurvives.urls,
    hended 1 row hfinal hsurvives.cdnName⟩

end MirrorMirage.Queue
