import MirrorMirage.Core.Since
import MirrorMirage.Queue.Callers

/-!
# Claims are exclusive

Every move of a row to `in_flight` is returned by the one call whose `UPDATE`
made it, and two such moves of one row have a release of the row between them.
-/

namespace MirrorMirage.Queue.Callers

open Function (update)
open MirrorMirage.Run MirrorMirage.Trace

/-- The keys that the call has moved to `in_flight`. -/
def claims (call : ℕ) (trace : List Obs) : List ℕ :=
  trace.filterMap fun event => match event with
    | .claimed call' id _ => if call' = call then some id else none
    | _ => none

/-- The keys of the jobs that the call has returned. -/
def returns (call : ℕ) (trace : List Obs) : List ℕ :=
  trace.filterMap fun event => match event with
    | .returned call' job => if call' = call then some job.id else none
    | _ => none

/-- The key of the row that the call has claimed and not returned yet. -/
def Point.holding : Point → List ℕ
  | .updated id _ rowcount | .committed id _ rowcount =>
      if rowcount = 0 then [] else [id]
  | _ => []

/-- The call has not run the `UPDATE` of `claim_ready`. -/
def Point.isFresh : Point → Bool
  | .updated .. | .committed .. | .returned => false
  | _ => true

def Obs.Claims (id : ℕ) : Obs → Prop
  | .claimed _ id' _ => id' = id
  | _ => False

/-- A reschedule or a reset of the row. -/
def Obs.Releases (id : ℕ) : Obs → Prop
  | .rescheduled id' => id' = id
  | .reset ids => id ∈ ids
  | _ => False

/-- The row changes from `pending` to `in_flight`. -/
def Starts (db db' : Db) (id : ℕ) : Prop :=
  ∃ row row', db.row id = some row ∧ row.status = .pending ∧
    db'.row id = some row' ∧ row'.status = .inFlight

/-! ## Returns -/

section Returns

variable {trace out : List Obs} {call : ℕ} {point point' : Point}

theorem claims_append :
    claims call (trace ++ out) = claims call trace ++ claims call out :=
  List.filterMap_append

theorem returns_append :
    returns call (trace ++ out) = returns call trace ++ returns call out :=
  List.filterMap_append

/-- What the trace says of the claims and returns of a call. -/
structure Account (trace : List Obs) (call : ℕ) (point : Point) : Prop where
  claims_eq : claims call trace = returns call trace ++ point.holding
  once : (claims call trace).length ≤ 1
  fresh : point.isFresh → claims call trace = []

theorem Account.quiet (h : Account trace call point)
    (hclaims : claims call out = []) (hreturns : returns call out = [])
    (hholding : point'.holding = point.holding)
    (hfresh : point'.isFresh → point.isFresh) :
    Account (trace ++ out) call point' := by
  constructor
  · rw [claims_append, returns_append, hclaims, hreturns, List.append_nil,
      List.append_nil, hholding, h.claims_eq]
  · rw [claims_append, hclaims, List.append_nil]
    exact h.once
  · intro hpoint
    rw [claims_append, hclaims, List.append_nil]
    exact h.fresh (hfresh hpoint)

theorem Account.claim (h : Account trace call point) (hfresh : point.isFresh)
    {id : ℕ} {stored row : Row} :
    Account (trace ++ [.claimed call id stored]) call (.updated id row 1) := by
  have hnone := h.fresh hfresh
  have hreturns : returns call trace = [] :=
    (List.append_eq_nil_iff.mp (h.claims_eq.symm.trans hnone)).1
  have hnew : claims call [.claimed call id stored] = [id] := by simp [claims]
  constructor
  · rw [claims_append, returns_append, hnone, hreturns, hnew]
    rfl
  · rw [claims_append, hnone, hnew]
    rfl
  · exact fun hpoint => nomatch hpoint

theorem Account.deliver (h : Account trace call point) {job : Job}
    (hholding : point.holding = [job.id]) :
    Account (trace ++ [.returned call job]) call .returned := by
  have hclaims : claims call [.returned call job] = [] := rfl
  have hreturns : returns call [.returned call job] = [job.id] := by
    simp [returns]
  constructor
  · rw [claims_append, returns_append, hclaims, hreturns, h.claims_eq, hholding,
      List.append_nil]
    exact (List.append_nil _).symm
  · rw [claims_append, hclaims, List.append_nil]
    exact h.once
  · exact fun hpoint => nomatch hpoint

theorem claims_exec {db : Db} {now : ℚ} (write : Write) :
    claims call (write.exec db now).2 = [] := by
  cases write <;> rfl

theorem returns_exec {db : Db} {now : ℚ} (write : Write) :
    returns call (write.exec db now).2 = [] := by
  cases write <;> rfl

end Returns

section Step

variable {s after : State} {action : Action} {out trace : List Obs}

/-- The calls that have not been made. -/
def Unborn (s : State) : Prop := ∀ call, s.calls ≤ call → s.point call = .absent

theorem unborn_move (h : Unborn s) (hmove : Move s action after out) :
    Unborn after := by
  intro other hother
  have hgoto : ∀ {call point}, s.point call ≠ .absent → s.calls ≤ other →
      update s.point call point other = .absent := by
    intro call point hpoint hle
    rw [Function.update_of_ne, h other hle]
    rintro rfl
    exact hpoint (h other hle)
  have hopen : ∀ {point}, s.calls + 1 ≤ other →
      update s.point s.calls point other = .absent := by
    intro point hle
    rw [Function.update_of_ne (by omega), h other (by omega)]
  cases hmove with
  | tick => exact h other hother
  | claimReady | write => exact hopen hother
  | finish hpoint =>
      apply hgoto _ hother
      rcases hpoint with hpoint | hpoint | ⟨id, row, hpoint⟩ <;> simp [hpoint]
  | _ hpoint => exact hgoto (by simp [hpoint]) hother

theorem account_move (hunborn : Unborn s)
    (h : ∀ call, Account trace call (s.point call))
    (hmove : Move s action after out) (call : ℕ) :
    Account (trace ++ out) call (after.point call) := by
  have hquiet : ∀ {moved point}, claims call out = [] →
      returns call out = [] → point.holding = (s.point moved).holding →
      (point.isFresh → (s.point moved).isFresh) →
        Account (trace ++ out) call (update s.point moved point call) := by
    intro moved point hclaims hreturns hholding hfresh
    by_cases heq : call = moved
    · subst heq
      rw [Function.update_self]
      exact (h call).quiet hclaims hreturns hholding hfresh
    · rw [Function.update_of_ne heq]
      exact (h call).quiet hclaims hreturns rfl (fun hpoint => hpoint)
  cases hmove with
  | tick => exact (h call).quiet rfl rfl rfl (fun hpoint => hpoint)
  | claimReady | write =>
      apply hquiet rfl rfl <;> rw [hunborn _ le_rfl] <;>
        simp [Point.holding, Point.isFresh]
  | select hpoint | lose hpoint | commit hpoint | save hpoint =>
      apply hquiet rfl rfl <;> rw [hpoint] <;> simp [Point.holding, Point.isFresh]
  | @claim moved id row stored hpoint _ _ =>
      by_cases heq : call = moved
      · subst heq
        rw [goto_point, if_pos rfl]
        exact (h call).claim (by rw [hpoint]; rfl)
      · rw [goto_point, if_neg heq]
        exact (h call).quiet (by simp [claims, Ne.symm heq]) rfl rfl
          (fun hpoint => hpoint)
  | @deliver moved id row rowcount hpoint hcount =>
      by_cases heq : call = moved
      · subst heq
        rw [goto_point, if_pos rfl]
        apply (h call).deliver
        simp [hpoint, Point.holding, hcount, jobOf]
      · rw [goto_point, if_neg heq]
        exact (h call).quiet rfl (by simp [returns, Ne.symm heq]) rfl
          (fun hpoint => hpoint)
  | exec hpoint =>
      apply hquiet (claims_exec _) (returns_exec _) <;> rw [hpoint] <;>
        simp [Point.holding, Point.isFresh]
  | finish hpoint =>
      rcases hpoint with hpoint | hpoint | ⟨id, row, hpoint⟩ <;>
        apply hquiet rfl rfl <;> rw [hpoint] <;>
          simp [Point.holding, Point.isFresh]

/-! ## Releases -/

/-- Keys are given in order. -/
def Keyed (db : Db) : Prop := ∀ id, db.nextId ≤ id → db.row id = none

theorem keyed_modify {db : Db} (h : Keyed db) (id : ℕ) (change : Row → Row) :
    Keyed (db.modify id change) := by
  intro other hother
  have hnone := h other hother
  by_cases heq : other = id
  · subst heq
    simp [hnone]
  · simp [heq, hnone]

theorem keyed_exec {db : Db} (h : Keyed db) (write : Write) (now : ℚ) :
    Keyed (write.exec db now).1 := by
  cases write with
  | enqueue cdnName urls =>
      intro other hother
      have hlt : db.nextId < other := hother
      refine (Function.update_of_ne hlt.ne' ..).trans (h other hlt.le)
  | resetInFlight =>
      intro other hother
      have hnone := h other hother
      simp [Write.exec, hnone]
  | _ => exact keyed_modify h _ _

theorem keyed_move (h : Keyed s.db) (hmove : Move s action after out) :
    Keyed after.db := by
  cases hmove with
  | claim => exact keyed_modify h _ _
  | exec => exact keyed_exec h _ _
  | _ => exact h

/-- A row that has been claimed and not released is not pending. -/
def Taken (db : Db) (id : ℕ) : Prop :=
  ∃ row, db.row id = some row ∧ row.status ≠ .pending

theorem taken_modify {db : Db} {id other : ℕ} {change : Row → Row}
    (h : Taken db id) (hchange : other = id → ∀ row : Row,
      row.status ≠ .pending → (change row).status ≠ .pending) :
    Taken (db.modify other change) id := by
  obtain ⟨row, hrow, hstatus⟩ := h
  by_cases heq : other = id
  · subst heq
    exact ⟨change row, by simp [hrow], hchange rfl row hstatus⟩
  · exact ⟨row, by simp [Ne.symm heq, hrow], hstatus⟩

theorem taken_exec {db : Db} (hkeyed : Keyed db) {write : Write} {now : ℚ}
    {id : ℕ} (h : Taken db id)
    (hkept : ∀ event ∈ (write.exec db now).2, ¬ event.Releases id) :
    Taken (write.exec db now).1 id := by
  cases write with
  | enqueue cdnName urls =>
      obtain ⟨row, hrow, hstatus⟩ := h
      refine ⟨row, (Function.update_of_ne ?_ ..).trans hrow, hstatus⟩
      rintro rfl
      simp [hkeyed _ le_rfl] at hrow
  | markDone jobId =>
      exact taken_modify h fun _ _ _ => by simp [Update.apply]
  | reschedule jobId attempts nextAttemptAt =>
      apply taken_modify h
      intro heq
      exact absurd heq (hkept _ (List.mem_singleton_self _))
  | markFailed jobId message =>
      exact taken_modify h fun _ _ _ => by simp [Update.apply]
  | resetInFlight =>
      obtain ⟨row, hrow, hstatus⟩ := h
      have hnot : row.status ≠ .inFlight := by
        intro hflight
        refine hkept _ (List.mem_singleton_self _) ?_
        have hlt : id < db.nextId := by
          by_contra hle
          simp [hkeyed id (not_lt.mp hle)] at hrow
        simp [Obs.Releases, inFlight, hlt, hrow, isInFlight, hflight]
      refine ⟨row.reset, by simp [Write.exec, hrow], ?_⟩
      rw [Row.reset, if_neg hnot]
      exact hstatus

theorem taken_move (hkeyed : Keyed s.db) {id : ℕ} (h : Taken s.db id)
    (hmove : Move s action after out)
    (hkept : ∀ event ∈ out, ¬ event.Releases id) : Taken after.db id := by
  cases hmove with
  | claim => exact taken_modify h fun _ row _ => by simp
  | exec => exact taken_exec hkeyed h hkept
  | _ => exact h

theorem claimed_move (hmove : Move s action after out) {id : ℕ} {event : Obs}
    (hmem : event ∈ out) (hclaims : event.Claims id) :
    ¬ Taken s.db id ∧ Taken after.db id ∧ out = [event] := by
  cases hmove with
  | @claim call id' row stored hpoint hstored hpending =>
      obtain rfl := List.mem_singleton.mp hmem
      obtain rfl : id' = id := hclaims
      refine ⟨?_, ⟨stored.claimed, by simp [hstored], by simp⟩, rfl⟩
      rintro ⟨row', hrow', hstatus⟩
      rw [hstored] at hrow'
      cases hrow'
      exact hstatus hpending
  | @exec call write now hpoint =>
      cases write <;> simp [Write.exec] at hmem <;> subst hmem <;>
        cases hclaims
  | claimReady | deliver =>
      obtain rfl := List.mem_singleton.mp hmem
      cases hclaims
  | _ => cases hmem

/-- The other methods put no row in flight. -/
theorem row_of_exec {db : Db} {write : Write} {now : ℚ} {id : ℕ} {row : Row}
    (hrow : (write.exec db now).1.row id = some row)
    (hflight : row.status = .inFlight) : db.row id = some row := by
  have hmodify : ∀ {other : ℕ} {change : Queue.Update},
      (db.modify other change.apply).row id = some row →
        db.row id = some row := by
    intro other change hafter
    by_cases heq : id = other
    · subst heq
      obtain ⟨before, -, rfl⟩ : ∃ before, db.row id = some before ∧
          change.apply before = row := by simpa using hafter
      exact absurd hflight (apply_status_ne change)
    · simpa [heq] using hafter
  cases write with
  | enqueue cdnName urls =>
      by_cases heq : id = db.nextId
      · subst heq
        have hnew := (Function.update_self ..).symm.trans hrow
        cases hnew
        cases hflight
      · exact (Function.update_of_ne heq ..).symm.trans hrow
  | resetInFlight =>
      obtain ⟨before, -, rfl⟩ : ∃ before, db.row id = some before ∧
          before.reset = row := by simpa [Write.exec] using hrow
      exact absurd hflight reset_status_ne
  | _ => exact hmodify hrow

/-- Rows start their flight by the `UPDATE` of a call. -/
theorem starts_iff (hmove : Move s action after out) (id : ℕ) :
    Starts s.db after.db id ↔ ∃ call stored, .claimed call id stored ∈ out := by
  constructor
  · rintro ⟨row, row', hrow, hpending, hrow', hflight⟩
    have hnot : s.db.row id ≠ some row' := by
      rintro hsame
      rw [hrow] at hsame
      cases hsame
      simp [hpending] at hflight
    cases hmove with
    | @claim call id' _ stored _ _ _ =>
        by_cases heq : id = id'
        · subst heq
          exact ⟨call, stored, List.mem_singleton_self _⟩
        · exact absurd (by simpa [heq] using hrow') hnot
    | exec => exact absurd (row_of_exec hrow' hflight) hnot
    | _ => exact absurd hrow' hnot
  · rintro ⟨call, stored, hmem⟩
    cases hmove with
    | claim _ hstored hpending =>
        cases List.mem_singleton.mp hmem
        exact ⟨stored, stored.claimed, hstored, hpending, by simp [hstored],
          rfl⟩
    | @exec _ write =>
        cases write <;> simp [Write.exec] at hmem
    | _ => simp at hmem

/-- What the trace says of the table and the calls. -/
structure Exclusive (trace : List Obs) (s : State) : Prop where
  unborn : Unborn s
  keyed : Keyed s.db
  account : ∀ call, Account trace call (s.point call)
  taken : ∀ id, Since (·.Claims id) (·.Releases id) trace → Taken s.db id
  alternate : Justified (fun before event => ∀ id, event.Claims id →
    ¬ Since (·.Claims id) (·.Releases id) before) trace

theorem exclusive_start {db : Db} {now : ℚ} (hkeyed : Keyed db) :
    Exclusive [] (start db now) where
  unborn := fun _ _ => rfl
  keyed := hkeyed
  account := fun _ => ⟨rfl, Nat.zero_le 1, fun _ => rfl⟩
  taken := fun _ hsince => absurd hsince not_since_nil
  alternate := justified_nil

theorem exclusive_move (h : Exclusive trace s)
    (hmove : Move s action after out) : Exclusive (trace ++ out) after where
  unborn := unborn_move h.unborn hmove
  keyed := keyed_move h.keyed hmove
  account := account_move h.unborn h.account hmove
  taken := by
    intro id hsince
    rcases since_append.mp hsince with hnew | ⟨hold, hkept⟩
    · obtain ⟨event, hmem, hclaims⟩ := hnew.exists_start
      exact (claimed_move hmove hmem hclaims).2.1
    · exact taken_move h.keyed (h.taken id hold) hmove hkept
  alternate := by
    refine justified_append.mpr ⟨h.alternate, ?_⟩
    intro before event rest hsplit id hclaims hsince
    have hmem : event ∈ out := by simp [hsplit]
    obtain ⟨hnot, -, hout⟩ := claimed_move hmove hmem hclaims
    have hbefore : before = [] := by
      rw [hout] at hsplit
      cases before <;> simp_all
    rw [hbefore, List.append_nil] at hsince
    exact hnot (h.taken id hsince)

end Step

theorem exclusive_of_reaches {db : Db} {now : ℚ} (hkeyed : Keyed db)
    {trace : List Obs} {s : State}
    (hrun : Reaches step (fun _ _ => True) (start db now) trace s) :
    Exclusive trace s :=
  hrun.invariant Exclusive (exclusive_start hkeyed)
    fun h _ hstep => exclusive_move h (move_of_step hstep)

/-- Rows start their flight by the `UPDATE` of a call only; the keys that a
call has claimed are the one it has returned, or the one it still holds; and
between two claims of a row there is a release of it. -/
theorem claims_are_exclusive {db : Db} {now : ℚ} (hkeyed : Keyed db)
    {trace : List Obs} {s : State}
    (hrun : Reaches step (fun _ _ => True) (start db now) trace s) :
    (∀ action after out, step s action = some (after, out) → ∀ id,
      Starts s.db after.db id ↔ ∃ call stored, .claimed call id stored ∈ out) ∧
    (∀ call, claims call trace = returns call trace ++ (s.point call).holding ∧
      (claims call trace).length ≤ 1) ∧
    ∀ id before middle later call call' stored stored',
      trace = before ++ .claimed call id stored ::
        (middle ++ .claimed call' id stored' :: later) →
      ∃ event ∈ middle, event.Releases id := by
  have h := exclusive_of_reaches hkeyed hrun
  refine ⟨?_, ?_, ?_⟩
  · intro action after out hstep
    exact starts_iff (move_of_step hstep)
  · intro call
    exact ⟨(h.account call).claims_eq, (h.account call).once⟩
  · intro id before middle later call call' stored stored' htrace
    by_contra hnone
    refine h.alternate (before ++ .claimed call id stored :: middle)
      (.claimed call' id stored') later ?_ id rfl ?_
    · rw [htrace, List.append_assoc, List.cons_append]
    · exact ⟨before, _, middle, rfl, rfl, fun event hmem hreleases =>
        hnone ⟨event, hmem, hreleases⟩⟩

section Samples

/-- One job for `cdn`, which is ready. -/
def sampleDb : Db := (Db.mk (fun _ => none) 1).insert "cdn" ["u"] 0

theorem keyed_sampleDb : Keyed sampleDb := by
  intro id hle
  have hne : id ≠ 1 := by
    rintro rfl
    exact absurd hle (by decide)
  simp [sampleDb, Db.insert, hne]

/-- One caller claims the job and returns it while another one looks. -/
theorem claims_are_exclusive_sample : ∃ trace s,
    Reaches step (fun _ _ => True) (start sampleDb 0) trace s ∧
    s.point 0 = .returned ∧ s.point 1 = .returned ∧
    claims 0 trace = returns 0 trace ++ (s.point 0).holding ∧
    (claims 0 trace).length ≤ 1 := by
  obtain ⟨trace, s, hrun, hview⟩ := exists_reaches_of_execute step
    (start sampleDb 0) (fun _ _ => True)
    (fun final => (final.1.point 0, final.1.point 1)) (.returned, .returned)
    [.claimReady "cdn", .claimReady "cdn", .advance 0, .advance 1, .advance 1,
      .advance 0, .advance 0, .advance 1, .advance 0, .advance 1]
    (by decide +kernel)
  obtain ⟨hfirst, hsecond⟩ := Prod.ext_iff.mp hview
  exact ⟨trace, s, hrun, hfirst, hsecond,
    (claims_are_exclusive keyed_sampleDb hrun).2.1 0⟩

/-- The claim of call 0 is reset before call 0 returns, and call 2 returns the
same job first: no release lies between the two returns. -/
theorem returns_without_release : ∃ trace s before middle later job,
    Reaches step (fun _ _ => True) (start sampleDb 0) trace s ∧
    trace = before ++ .returned 2 job ::
      (middle ++ .returned 0 job :: later) ∧
    ∀ event ∈ middle, ¬ event.Releases job.id := by
  obtain ⟨trace, s, hrun, hview⟩ := exists_reaches_of_execute step
    (start sampleDb 0) (fun _ _ => True) (fun final => final.2)
    [.called 0 0, .claimed 0 1 ⟨"cdn", ["u"], 0, 0, 0, .pending, none⟩,
      .reset [1], .called 2 0,
      .claimed 2 1 ⟨"cdn", ["u"], 0, 0, 0, .pending, none⟩,
      .returned 2 ⟨1, "cdn", ["u"], 0, 0, 0, .inFlight⟩,
      .returned 0 ⟨1, "cdn", ["u"], 0, 0, 0, .inFlight⟩]
    [.claimReady "cdn", .advance 0, .advance 0, .write .resetInFlight,
      .advance 1, .claimReady "cdn", .advance 2, .advance 2, .advance 2,
      .advance 2, .advance 0, .advance 0]
    (by decide +kernel)
  have htrace : trace = _ := hview
  exact ⟨trace, s, [_, _, _, _, _], [], [], _, hrun, htrace, by simp⟩

end Samples

end MirrorMirage.Queue.Callers
