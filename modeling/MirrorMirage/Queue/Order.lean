import MirrorMirage.Core.Composition
import MirrorMirage.Queue.Lifecycle

/-!
# The order of the first attempts

`claim_ready` takes the ready row with the smallest key, and a row that has not
been tried is ready from its creation on.  So no job is tried before the older
jobs of its CDN have been tried, whatever fails or crashes in between.
-/

namespace MirrorMirage.Queue

open Function (update)
open MirrorMirage.Run

/-- The rows of the CDN are inserted in the order of their times: one thread
serves the calls in turn, and the clock does not go back between them. -/
def inOrder (cdn : String) (s : State) : Action → Bool
  | .execEnqueue call =>
      match (s.enqueuer call).point with
      | .inserting cdnName _ now => cdnName ≠ cdn || s.work.rows.all fun entry =>
          entry.2.cdnName ≠ cdn || entry.2.createdAt ≤ now
      | _ => true
  | _ => true

/-- An attempt at the job has begun. -/
def Tried (trace : List Obs) (id : ℕ) : Prop :=
  ∃ attempt, .purgeStarted id attempt ∈ trace

/-- The row that a worker is about to purge. -/
def Point.chosen : Point → Option ℕ
  | .selected (some (id, _)) | .updating id _ | .updated id _ _
  | .claimCommitting id _ _ | .claimCommitted id _ _ => some id
  | _ => none

/-- The job that a worker has begun to purge. -/
def Point.trying : Point → Option ℕ
  | .purging job | .settling job _ | .settled job _ | .settleCommitting job _
  | .settleCommitted job _ => some job.id
  | _ => none

/-! ## Tables in the order of their rows -/

/-- The keys are those from 1 on, and go with the times of the CDN. -/
structure Filed (cdn : String) (db : Db) : Prop where
  positive : 0 < db.nextId
  keys : ∀ id, db.row id ≠ none ↔ 0 < id ∧ id < db.nextId
  times : ∀ {older newer row row'}, older < newer → db.row older = some row →
    db.row newer = some row' → row.cdnName = cdn → row'.cdnName = cdn →
      row.createdAt ≤ row'.createdAt

/-- A row as `enqueue` has left it, but for a claim. -/
structure Untried (row : Row) : Prop where
  due : row.nextAttemptAt = row.createdAt
  unfinished : row.status = .pending ∨ row.status = .inFlight

/-- What the statements other than `INSERT` leave of a table. -/
structure Keeps (trace : List Obs) (db after : Db) : Prop where
  nextId : after.nextId = db.nextId
  present : ∀ id, after.row id = none ↔ db.row id = none
  row : ∀ {id row'}, after.row id = some row' → ∃ row, db.row id = some row ∧
    row'.cdnName = row.cdnName ∧ row'.createdAt = row.createdAt ∧
    (¬ Tried trace id → Untried row → Untried row')

section Tables

variable {trace : List Obs} {db after : Db} {id : ℕ} {row : Row}
variable {cdn : String}

theorem Keeps.refl : Keeps trace db db :=
  ⟨rfl, fun _ => Iff.rfl, fun hrow => ⟨_, hrow, rfl, rfl, fun _ h => h⟩⟩

/-- An update of one row, if there is such a row. -/
theorem keeps_modify {change : Row → Row}
    (hcdn : (change row).cdnName = row.cdnName)
    (hcreated : (change row).createdAt = row.createdAt)
    (huntried : ¬ Tried trace id → Untried row → Untried (change row))
    (hrow : db.row id = some row) : Keeps trace db (db.modify id change) := by
  refine ⟨rfl, fun other => ?_, fun {other row'} hother => ?_⟩
  · by_cases heq : other = id
    · simp [heq, hrow]
    · simp [heq]
  · by_cases heq : other = id
    · subst heq
      obtain rfl : change row = row' := by simpa [hrow] using hother
      exact ⟨row, hrow, hcdn, hcreated, huntried⟩
    · rw [modify_row, Function.update_of_ne heq] at hother
      exact ⟨row', hother, rfl, rfl, fun _ h => h⟩

theorem reset_createdAt : row.reset.createdAt = row.createdAt := by
  unfold Row.reset
  split <;> rfl

theorem Untried.reset (h : Untried row) : Untried row.reset where
  due := by rw [reset_nextAttemptAt, reset_createdAt, h.due]
  unfinished := by
    unfold Row.reset
    split
    · exact .inl rfl
    · exact h.unfinished

theorem keeps_reset : Keeps trace db db.resetInFlight := by
  refine ⟨rfl, fun id => by simp, fun hother => ?_⟩
  obtain ⟨row, hrow, rfl⟩ := Option.map_eq_some_iff.mp hother
  exact ⟨row, hrow, reset_cdnName, reset_createdAt, fun _ h => h.reset⟩

theorem apply_createdAt (u : Update) :
    (u.apply row).createdAt = row.createdAt := by
  cases u <;> rfl

theorem Filed.keeps (h : Filed cdn db) (hkeeps : Keeps trace db after) :
    Filed cdn after := by
  refine ⟨hkeeps.nextId ▸ h.positive, fun id => ?_,
    fun hlt hold hnew hcdn hcdn' => ?_⟩
  · rw [hkeeps.nextId, ← h.keys, not_iff_not]
    exact hkeeps.present id
  · obtain ⟨row, hrow, hname, hcreated, -⟩ := hkeeps.row hold
    obtain ⟨row', hrow', hname', hcreated', -⟩ := hkeeps.row hnew
    rw [hcreated, hcreated']
    exact h.times hlt hrow hrow' (hname ▸ hcdn) (hname' ▸ hcdn')

theorem filed_insert {cdnName : String} {urls : List String} {now : ℚ}
    (h : Filed cdn db)
    (hlast : cdnName = cdn → ∀ {id row}, db.row id = some row →
      row.cdnName = cdn → row.createdAt ≤ now) :
    Filed cdn (db.insert cdnName urls now) := by
  refine ⟨Nat.succ_pos _, fun id => ?_,
    fun {older newer row row'} hlt hold hnew hcdn hcdn' => ?_⟩
  · by_cases hid : id = db.nextId
    · simp [Db.insert, hid, h.positive]
    · have hkeys := h.keys id
      simp only [Db.insert, Function.update_of_ne hid, hkeys]
      omega
  · by_cases hnewer : newer = db.nextId
    · obtain rfl : _ = row' := by simpa [Db.insert, hnewer] using hnew
      exact hlast hcdn' (by simpa [Db.insert, show older ≠ db.nextId by omega]
        using hold) hcdn
    · have hnew' : db.row newer = some row' := by
        simpa [Db.insert, hnewer] using hnew
      have hnewer' := (h.keys newer).mp (by simp [hnew'])
      have holder : older ≠ db.nextId := by omega
      exact h.times hlt (by simpa [Db.insert, holder] using hold) hnew' hcdn
        hcdn'

theorem rows_pairwise : db.rows.Pairwise fun entry later =>
    entry.1 < later.1 := by
  refine List.pairwise_lt_range.filterMap _ fun id later hlt entry hentry =>
    fun entry' hentry' => ?_
  obtain ⟨row, -, rfl⟩ := Option.map_eq_some_iff.mp hentry
  obtain ⟨row', -, rfl⟩ := Option.map_eq_some_iff.mp hentry'
  exact hlt

/-- `ORDER BY id ASC LIMIT 1`. -/
theorem not_isReady_of_selectReady {cdnName : String} {now : ℚ}
    (hselect : db.selectReady cdnName now = some (id, row)) {older : ℕ}
    {row' : Row} (hlt : older < id) (hrow : db.row older = some row') :
    row'.isReady cdnName now = false := by
  obtain ⟨-, before, after, hrows, hbefore⟩ :=
    List.find?_eq_some_iff_append.mp hselect
  have hid := (mem_rows_iff.mp (by rw [hrows]; simp :
    (id, row) ∈ db.rows)).1
  have hmem : (older, row') ∈ db.rows :=
    mem_rows_iff.mpr ⟨hlt.trans hid, hrow⟩
  have hsorted := @rows_pairwise db
  rw [hrows] at hmem hsorted
  have hlater := (List.pairwise_cons.mp (List.pairwise_append.mp hsorted).2.1).1
  rcases List.mem_append.mp hmem with hmem | hmem
  · simpa using hbefore _ hmem
  · rcases List.mem_cons.mp hmem with heq | hmem
    · obtain rfl : older = id := congrArg Prod.fst heq
      exact absurd hlt (lt_irrefl _)
    · exact absurd (hlater _ hmem) (Nat.lt_asymm hlt)

end Tables

/-! ## What a step does to the rows and to the choice among them -/

/-- A worker goes on with the row that it has, or has none. -/
structure Goes (point later : Point) : Prop where
  chosen : later.chosen = none ∨ later.chosen = point.chosen
  begun : later.trying = none ∨ later.trying = point.trying

/-- A step inserts a row, chooses one, begins a purge, is a crash, or does
nothing of these. -/
inductive Effect (trace : List Obs) (s : State) :
    Action → State → List Obs → Prop where
  | keeps {action : Action} {after : State} {out : List Obs}
      (hwork : Keeps trace s.work after.work)
      (hcommitted : after.committed = s.committed ∨ after.committed = s.work)
      (hgoes : ∀ cdnName, Goes (s.worker cdnName).point
        (after.worker cdnName).point)
      (hout : ∀ id, ¬ Tried out id) : Effect trace s action after out
  | insert {call : ℕ} {cdnName : String} {urls : List String} {now : ℚ}
      (hphase : s.phase = .running)
      (hpoint : (s.enqueuer call).point = .inserting cdnName urls now) :
      Effect trace s (.execEnqueue call)
        { s.gotoEnqueue call (.inserted s.work.nextId) with
          work := s.work.insert cdnName urls now } []
  | select {cdnName : String} {now : ℚ} (hphase : s.phase = .running)
      (hpoint : (s.worker cdnName).point = .selecting now) :
      Effect trace s (.execWorker cdnName)
        (s.goto cdnName (.selected (s.work.selectReady cdnName now))) []
  | purge {cdnName : String} {id : ℕ} {row : Row} {rowcount : ℕ}
      (hphase : s.phase = .running)
      (hpoint : (s.worker cdnName).point = .claimCommitted id row rowcount) :
      Effect trace s (.resumeWorker cdnName)
        (s.goto cdnName (.purging (jobOf id row)))
        [.purgeStarted id (row.attempts + 1)]
  | crash :
      Effect trace s .crash
        { s with
          phase := .down
          work := s.committed
          worker := fun _ => ⟨.idle, false⟩
          enqueuer := fun _ => ⟨.absent, false⟩ } []

/-- What the trace says of the rows and the workers. -/
structure Traced (trace : List Obs) (s : State) : Prop where
  untried : ∀ {id row}, s.work.row id = some row ∨
    s.committed.row id = some row → ¬ Tried trace id → Untried row
  begun : ∀ {cdnName id}, (s.worker cdnName).point.trying = some id →
    Tried trace id
  known : ∀ {id}, Tried trace id → id < s.committed.nextId

/-- No job of the CDN has overtaken an older one that has not been tried. -/
structure Ordered (cdn : String) (trace : List Obs) (s : State) : Prop where
  work : Filed cdn s.work
  committed : Filed cdn s.committed
  turn : ∀ {older newer row row'}, older < newer →
    s.work.row older = some row → s.work.row newer = some row' →
    row.cdnName = cdn → row'.cdnName = cdn → ¬ Tried trace older →
      ¬ Tried trace newer ∧ (s.worker cdn).point.chosen ≠ some newer

section Effects

variable {retry : RetryConfig} {trace out : List Obs} {s after : State}
variable {action : Action} {id : ℕ} {row : Row} {cdnName : String}
variable {point : Point}

theorem tried_append : Tried (trace ++ out) id ↔
    Tried trace id ∨ Tried out id := by
  simp [Tried, exists_or]

theorem tried_purge {attempt other : ℕ} :
    Tried (trace ++ [.purgeStarted id attempt]) other ↔
      Tried trace other ∨ other = id := by
  simp [Tried, exists_or]

theorem Goes.refl : Goes point point := ⟨.inr rfl, .inr rfl⟩

theorem goes_goto (hgoes : Goes (s.worker cdnName).point point)
    (other : String) :
    Goes (s.worker other).point ((s.goto cdnName point).worker other).point := by
  rw [goto_point]
  split
  · rename_i heq
    exact heq ▸ hgoes
  · exact .refl

/-- A worker that dies where it is. -/
theorem goes_update {worker : Worker}
    (hpoint : worker.point = (s.worker cdnName).point) (other : String) :
    Goes (s.worker other).point
      (update s.worker cdnName worker other).point := by
  by_cases heq : other = cdnName
  · rw [heq, Function.update_self, hpoint]
    exact .refl
  · rw [Function.update_of_ne heq]
    exact .refl

theorem effect_of_execEnqueue {call : ℕ}
    (hstep : step retry s (.execEnqueue call) = some (after, out)) :
    Effect trace s (.execEnqueue call) after out := by
  have hmove := move_of_step hstep
  obtain ⟨hphase, ⟨cdnName, urls, now, hpoint, heq⟩ | ⟨id, -, heq⟩⟩ :=
    execEnqueue_cases hstep
  · have hout : out = [] := by
      cases hmove with
      | enqueueCommit =>
          have hwork := congrArg (fun state => state.work.nextId) heq
          simp [Db.insert] at hwork
      | _ => rfl
    rw [heq, hout]
    exact .insert hphase hpoint
  · have hout : ∀ id, ¬ Tried out id := by
      cases hmove <;> simp [Tried]
    rw [heq]
    exact .keeps .refl (.inr rfl) (fun _ => .refl) hout

theorem effect_of_step (hsound : Sound s) (htraced : Traced trace s)
    (hstep : step retry s action = some (after, out)) :
    Effect trace s action after out := by
  have hmove := move_of_step hstep
  have hquiet : ∀ id, ¬ Tried [] id := by simp [Tried]
  cases hmove with
  | insert | enqueueCommit => exact effect_of_execEnqueue hstep
  | tick | resetPost | enqueuer =>
      exact .keeps .refl (.inl rfl) (fun _ => .refl) hquiet
  | start => exact .keeps .refl (.inl rfl) (fun _ => .refl) (by simp [Tried])
  | reset => exact .keeps keeps_reset (.inl rfl) (fun _ => .refl) hquiet
  | resetCommit =>
      exact .keeps .refl (.inr rfl) (fun _ => .refl) (by simp [Tried])
  | run =>
      exact .keeps .refl (.inl rfl) (fun _ => ⟨.inl rfl, .inl rfl⟩) hquiet
  | select hphase hpoint => exact .select hphase hpoint
  | @claim cdnName id row hphase hpoint =>
      obtain ⟨hwork, -, hpending⟩ := (hsound.tended_at hphase hpoint).serves
      rw [claim_of_pending hwork hpending]
      exact .keeps
        (keeps_modify rfl rfl (fun _ huntried => ⟨huntried.due, .inr rfl⟩) hwork)
        (.inl rfl) (goes_goto (by rw [hpoint]; exact ⟨.inr rfl, .inr rfl⟩))
        (by simp [Tried])
  | @settle cdnName job change hphase hpoint =>
      obtain ⟨row, -, -, -, hwork, -⟩ := (hsound.tended_at hphase hpoint).serves
      have htried : Tried trace job.id :=
        @Traced.begun trace s htraced cdnName job.id (by rw [hpoint]; rfl)
      exact .keeps
        (keeps_modify (apply_cdnName change) (apply_createdAt change)
          (fun huntried => absurd htried huntried) hwork)
        (.inl rfl) (goes_goto (by rw [hpoint]; exact ⟨.inr rfl, .inr rfl⟩))
        hquiet
  | claimCommit hphase hpoint | settleCommit hphase hpoint =>
      exact .keeps .refl (.inr rfl)
        (goes_goto (by rw [hpoint]; exact ⟨.inr rfl, .inr rfl⟩))
        (by simp [Tried])
  | claimPost hphase hpoint | claimCommitPost hphase hpoint
  | settleCommitPost hphase hpoint =>
      exact .keeps .refl (.inl rfl)
        (goes_goto (by rw [hpoint]; exact ⟨.inr rfl, .inr rfl⟩)) hquiet
  | poll | sleep | claimLost | next =>
      exact .keeps .refl (.inl rfl) (goes_goto ⟨.inl rfl, .inl rfl⟩) hquiet
  | purge hphase hcount hpoint => exact .purge hphase hpoint
  | purgeEnd hphase hpoint =>
      exact .keeps .refl (.inl rfl)
        (goes_goto (by rw [hpoint]; exact ⟨.inr rfl, .inr rfl⟩))
        (by simp [Tried])
  | purgeRaise hphase hpoint =>
      exact .keeps .refl (.inl rfl) (goes_update hpoint.symm) (by simp [Tried])
  | kill => exact .keeps .refl (.inl rfl) (goes_update rfl) hquiet
  | crash => exact .crash

end Effects

/-! ## What has been tried -/

section Traced

variable {retry : RetryConfig} {trace out : List Obs} {s after : State}
variable {action : Action}

theorem traced_init (now : ℚ) : Traced [] (init now) where
  untried := by simp [init]
  begun := by simp [init, Point.trying]
  known := by simp [Tried]

theorem traced_effect (h : Traced trace s) (hsound : Sound s)
    (heffect : Effect trace s action after out) :
    Traced (trace ++ out) after := by
  cases heffect with
  | keeps hwork hcommitted hgoes hout =>
      have hsame : ∀ id, Tried (trace ++ out) id ↔ Tried trace id := fun id =>
        tried_append.trans (or_iff_left (hout id))
      refine ⟨fun {id row} hrow huntried => ?_, fun {cdnName id} hbegun => ?_,
        fun {id} htried => ?_⟩
      · rw [hsame] at huntried
        rcases hrow with hrow | hrow
        · obtain ⟨found, hfound, -, -, hkeeps⟩ := hwork.row hrow
          exact hkeeps huntried (h.untried (.inl hfound) huntried)
        · refine h.untried ?_ huntried
          rcases hcommitted with heq | heq <;> rw [heq] at hrow
          exacts [.inr hrow, .inl hrow]
      · rw [hsame]
        rcases (hgoes cdnName).begun with hnone | heq
        · simp [hnone] at hbegun
        · exact h.begun (heq ▸ hbegun)
      · have hid := h.known ((hsame id).mp htried)
        rcases hcommitted with heq | heq <;> rw [heq]
        exacts [hid, hid.trans_le hsound.nextId_le]
  | insert =>
      rw [List.append_nil]
      refine ⟨fun {id row} hrow => ?_, h.begun, h.known⟩
      rcases hrow with hrow | hrow
      · by_cases hid : id = s.work.nextId
        · obtain rfl : _ = row := by simpa [Db.insert, hid] using hrow
          exact fun _ => ⟨rfl, .inl rfl⟩
        · exact h.untried (.inl (by simpa [Db.insert, hid] using hrow))
      · exact h.untried (.inr hrow)
  | select =>
      rw [List.append_nil]
      refine ⟨h.untried, fun {other id} hbegun => ?_, h.known⟩
      rw [goto_point] at hbegun
      split at hbegun
      · cases hbegun
      · exact h.begun hbegun
  | @purge cdnName id row rowcount hphase hpoint =>
      refine ⟨fun hrow huntried => h.untried hrow fun hbefore =>
        huntried (tried_purge.mpr (.inl hbefore)), fun {other found} hbegun => ?_,
        fun {other} hother => ?_⟩
      · rw [goto_point] at hbegun
        split at hbegun
        · cases hbegun
          exact tried_purge.mpr (.inr rfl)
        · exact tried_purge.mpr (.inl (h.begun hbegun))
      · rcases tried_purge.mp hother with hbefore | rfl
        · exact h.known hbefore
        · obtain ⟨-, -, -, hcommitted⟩ := (hsound.tended_at hphase hpoint).serves
          by_contra hge
          simp [hsound.freshCommitted _ (not_lt.mp hge)] at hcommitted
  | crash =>
      rw [List.append_nil]
      exact ⟨fun hrow => h.untried (.inr (hrow.elim id id)),
        by simp [Point.trying], h.known⟩

theorem traced_of_reaches {allowed : State → Action → Prop} {now : ℚ}
    (hrun : Reaches (step retry) allowed (init now) trace s) :
    Traced trace s :=
  hrun.invariant_along (fun trace s => Traced trace s) (traced_init now)
    fun hearlier htraced _ hstep =>
      have hsound := sound_of_reaches hearlier
      traced_effect htraced hsound (effect_of_step hsound htraced hstep)

end Traced

/-! ## Nobody is overtaken -/

section Ordered

variable {retry : RetryConfig} {trace out : List Obs} {s after : State}
variable {action : Action} {id : ℕ} {row : Row} {cdnName cdn : String}

theorem filed_init : Filed cdn ⟨fun _ => none, 1⟩ :=
  ⟨one_pos, fun id => by simp; omega, by simp⟩

theorem ordered_init (now : ℚ) : Ordered cdn [] (init now) :=
  ⟨filed_init, filed_init, by simp [init]⟩

/-- A worker chooses among the rows of its CDN. -/
theorem Sound.chosen (hsound : Sound s) (hphase : s.phase = .running)
    (hchosen : (s.worker cdnName).point.chosen = some id) :
    ∃ row, s.work.row id = some row ∧ row.cdnName = cdnName := by
  have hserves := (hsound.tended hphase cdnName).serves
  generalize (s.worker cdnName).point = point at hserves hchosen
  cases point with
  | selected found =>
      cases found with
      | none => cases hchosen
      | some found =>
          cases hchosen
          exact ⟨_, hserves.1, hserves.2.1⟩
  | updating found row =>
      cases hchosen
      exact ⟨_, hserves.1, hserves.2.1⟩
  | updated found row rowcount | claimCommitting found row rowcount =>
      cases hchosen
      obtain ⟨-, hcdn, -, hwork, -⟩ := hserves
      exact ⟨_, hwork, hcdn⟩
  | claimCommitted found row rowcount =>
      cases hchosen
      obtain ⟨-, hcdn, hwork, -⟩ := hserves
      exact ⟨_, hwork, hcdn⟩
  | _ => cases hchosen

theorem Ordered.keeps (h : Ordered cdn trace s)
    (hwork : Keeps trace s.work after.work)
    (hcommitted : after.committed = s.committed ∨ after.committed = s.work)
    (hgoes : ∀ cdnName, Goes (s.worker cdnName).point
      (after.worker cdnName).point)
    (hout : ∀ id, ¬ Tried out id) : Ordered cdn (trace ++ out) after := by
  refine ⟨h.work.keeps hwork, ?_, ?_⟩
  · rcases hcommitted with heq | heq <;> rw [heq]
    exacts [h.committed, h.work]
  · intro older newer row row' hlt hold hnew hcdn hcdn' huntried
    obtain ⟨found, hfound, hfoundCdn, -⟩ := hwork.row hold
    obtain ⟨found', hfound', hfoundCdn', -⟩ := hwork.row hnew
    obtain ⟨hstill, hchosen⟩ := h.turn hlt hfound hfound' (hfoundCdn ▸ hcdn)
      (hfoundCdn' ▸ hcdn')
      fun htried => huntried (tried_append.mpr (.inl htried))
    refine ⟨fun htried => (tried_append.mp htried).elim hstill (hout newer), ?_⟩
    rcases (hgoes cdn).chosen with hnone | hsame
    · simp [hnone]
    · rwa [hsame]

theorem ordered_insert (h : Ordered cdn trace s) (htraced : Traced trace s)
    (hsound : Sound s) (hphase : s.phase = .running)
    {urls : List String} {now : ℚ} {call : ℕ} {point : EnqueuePoint}
    (hlast : cdnName = cdn → ∀ {id row}, s.work.row id = some row →
      row.cdnName = cdn → row.createdAt ≤ now) :
    Ordered cdn trace { s.gotoEnqueue call point with
      work := s.work.insert cdnName urls now } := by
  refine ⟨filed_insert h.work hlast, h.committed, ?_⟩
  intro older newer row row' hlt hold hnew hcdn hcdn' huntried
  by_cases hid : newer = s.work.nextId
  · refine ⟨fun htried => ?_, fun hchosen => ?_⟩
    · have hknown := htraced.known htried
      have hle := hsound.nextId_le
      omega
    · obtain ⟨found, hfound, -⟩ := hsound.chosen hphase hchosen
      simp [hid, hsound.freshWork _ le_rfl] at hfound
  · have hnew' : s.work.row newer = some row' := by
      simpa [Db.insert, hid] using hnew
    have hnewer := ((h.work.keys newer).mp (by simp [hnew'])).2
    have holder : older ≠ s.work.nextId := by omega
    exact h.turn hlt (by simpa [Db.insert, holder] using hold) hnew' hcdn
      hcdn' huntried

/-- The row that `SELECT` finds is older than the untried rows of its CDN. -/
theorem ordered_select (h : Ordered cdn trace s) (htraced : Traced trace s)
    (hsound : Sound s) (hphase : s.phase = .running) {now : ℚ}
    (hpoint : (s.worker cdnName).point = .selecting now) :
    Ordered cdn trace
      (s.goto cdnName (.selected (s.work.selectReady cdnName now))) := by
  refine ⟨h.work, h.committed, ?_⟩
  intro older newer row row' hlt hold hnew hcdn hcdn' huntried
  obtain ⟨hstill, hchosen⟩ := h.turn hlt hold hnew hcdn hcdn' huntried
  refine ⟨hstill, fun hchooses => ?_⟩
  rw [goto_point] at hchooses
  split at hchooses
  · rename_i heq
    have heq : row.cdnName = cdnName := hcdn.trans heq
    cases hselect : s.work.selectReady cdnName now with
    | none => simp [hselect, Point.chosen] at hchooses
    | some found =>
        obtain ⟨id, found⟩ := found
        obtain rfl : id = newer := by
          simpa [hselect, Point.chosen] using hchooses
        obtain ⟨hfound, -, -, hdue⟩ := selectReady_eq_some hselect
        obtain rfl : row' = found := Option.some.inj (hnew.symm.trans hfound)
        have hfirst := htraced.untried (.inl hold) huntried
        have hsecond := htraced.untried (.inl hnew) hstill
        have hpending : row.status = .pending := by
          refine hfirst.unfinished.resolve_right fun hflight => ?_
          have hflying := (hsound.tended_at hphase hpoint).flying older row
            hold heq hflight
          simp [Point.flying] at hflying
        have hready : row.isReady cdnName now := by
          have htime := h.work.times hlt hold hnew hcdn hcdn'
          rw [← hfirst.due, ← hsecond.due] at htime
          simp [Row.isReady, heq, hpending, htime.trans hdue]
        rw [not_isReady_of_selectReady hselect hlt hold] at hready
        cases hready
  · exact hchosen hchooses

/-- The worker begins with the row that it has claimed. -/
theorem ordered_purge (h : Ordered cdn trace s) (hsound : Sound s)
    (hphase : s.phase = .running) {rowcount : ℕ}
    (hpoint : (s.worker cdnName).point = .claimCommitted id row rowcount) :
    Ordered cdn (trace ++ [.purgeStarted id (row.attempts + 1)])
      (s.goto cdnName (.purging (jobOf id row))) := by
  obtain ⟨-, hclaims, hwork, -⟩ := (hsound.tended_at hphase hpoint).serves
  refine ⟨h.work, h.committed, ?_⟩
  intro older newer first second hlt hold hnew hcdn hcdn' huntried
  obtain ⟨hstill, hchosen⟩ := h.turn hlt hold hnew hcdn hcdn'
    fun hbefore => huntried (tried_purge.mpr (.inl hbefore))
  constructor
  · intro hnewer
    rcases tried_purge.mp hnewer with hbefore | rfl
    · exact hstill hbefore
    · -- the worker of both rows has chosen the younger one
      obtain rfl := Option.some.inj (hnew.symm.trans hwork)
      obtain rfl : cdnName = cdn := by
        rw [← hcdn', claimed_cdnName, hclaims]
      exact hchosen (by rw [hpoint]; rfl)
  · rw [goto_point]
    split
    · simp [Point.chosen]
    · exact hchosen

theorem ordered_crash (h : Ordered cdn trace s) (hsound : Sound s) :
    Ordered cdn trace { s with
      phase := .down
      work := s.committed
      worker := fun _ => ⟨.idle, false⟩
      enqueuer := fun _ => ⟨.absent, false⟩ } := by
  refine ⟨h.committed, h.committed, ?_⟩
  intro older newer row row' hlt hold hnew hcdn hcdn' huntried
  obtain ⟨found, hfound, hfollows⟩ := hsound.follows hold
  obtain ⟨found', hfound', hfollows'⟩ := hsound.follows hnew
  exact ⟨(h.turn hlt hfound hfound' (hfollows.cdnName.trans hcdn)
    (hfollows'.cdnName.trans hcdn') huntried).1, by simp [Point.chosen]⟩

theorem ordered_effect (h : Ordered cdn trace s) (htraced : Traced trace s)
    (hsound : Sound s) (hin : inOrder cdn s action)
    (heffect : Effect trace s action after out) :
    Ordered cdn (trace ++ out) after := by
  cases heffect with
  | keeps hwork hcommitted hgoes hout =>
      exact h.keeps hwork hcommitted hgoes hout
  | @insert call cdnName urls now hphase hpoint =>
      rw [List.append_nil]
      refine ordered_insert h htraced hsound hphase
        fun hname {id row} hrow hcdn => ?_
      have hmem : (id, row) ∈ s.work.rows :=
        mem_rows_iff.mpr ⟨((h.work.keys id).mp (by simp [hrow])).2, hrow⟩
      simp only [inOrder, hpoint, hname, ne_eq, not_true_eq_false,
        decide_false, Bool.false_or, List.all_eq_true] at hin
      simpa [hcdn] using hin _ hmem
  | select hphase hpoint =>
      rw [List.append_nil]
      exact ordered_select h htraced hsound hphase hpoint
  | purge hphase hpoint => exact ordered_purge h hsound hphase hpoint
  | crash =>
      rw [List.append_nil]
      exact ordered_crash h hsound

theorem ordered_of_reaches {now : ℚ}
    (hrun : Reaches (step retry) (fun s action => inOrder cdn s action)
      (init now) trace s) : Ordered cdn trace s :=
  hrun.invariant_along (fun trace s => Ordered cdn trace s) (ordered_init now)
    fun hearlier hordered hin hstep =>
      have hsound := sound_of_reaches hearlier
      have htraced := traced_of_reaches hearlier
      ordered_effect hordered htraced hsound hin
        (effect_of_step hsound htraced hstep)

/-- A purge begins as a step of its own. -/
theorem purge_of_step {before rest : List Obs} {attempt : ℕ}
    (hstep : step retry s action =
      some (after, before ++ .purgeStarted id attempt :: rest)) :
    before = [] ∧ s.phase = .running ∧ ∃ cdnName row rowcount,
      (s.worker cdnName).point = .claimCommitted id row rowcount := by
  generalize hout : before ++ .purgeStarted id attempt :: rest = out at hstep
  cases move_of_step hstep with
  | @purge cdnName found row rowcount hphase hcount hpoint =>
      cases before with
      | nil =>
          obtain ⟨⟨rfl, -⟩, -⟩ : (id = found ∧ _) ∧ _ := by simpa using hout
          exact ⟨rfl, hphase, cdnName, row, rowcount, hpoint⟩
      | cons => simp at hout
  | claim =>
      split at hout <;> cases before <;> simp at hout
  | _ => cases before <;> simp at hout

end Ordered

/-- In every run of the daemon, with crashes, cancellations, failures and
backoffs anywhere, in which the rows of a CDN are inserted in the order of their
times: no job of the CDN is purged for the first time before all older ones have
been purged for the first time. -/
theorem first_attempts_in_order {retry : RetryConfig} {now : ℚ} {s : State}
    {cdn : String} {before after : List Obs} {older newer attempt : ℕ}
    {row row' : Row}
    (hrun : Reaches (step retry) (fun s action => inOrder cdn s action)
      (init now) (before ++ .purgeStarted newer attempt :: after) s)
    (hlt : older < newer) (hold : s.committed.row older = some row)
    (hnew : s.committed.row newer = some row') (hcdn : row.cdnName = cdn)
    (hcdn' : row'.cdnName = cdn) :
    ∃ first, .purgeStarted older first ∈ before := by
  obtain ⟨trace, purging, action, later, head, tail, rest, hbefore, hin, hstep,
    hrest, rfl, rfl⟩ := hrun.exists_step
  obtain ⟨rfl, hphase, cdnName, claimed, rowcount, hpoint⟩ :=
    purge_of_step hstep
  have hsound := sound_of_reaches hbefore
  have hordered := ordered_of_reaches hbefore
  have hmore : Reaches (step retry) (fun s action => inOrder cdn s action)
      purging _ s := .trans (.snoc .refl hin hstep) hrest
  obtain ⟨-, hclaimed, hwork, hcommitted⟩ :=
    (hsound.tended_at hphase hpoint).serves
  have hnewer := ((hordered.committed.keys newer).mp (by simp [hcommitted])).2
  have hfiled := (ordered_of_reaches hrun).committed
  have hpresent : purging.committed.row older ≠ none :=
    (hordered.committed.keys older).mpr
      ⟨((hfiled.keys older).mp (by simp [hold])).1, hlt.trans hnewer⟩
  obtain ⟨found, hfound⟩ := Option.ne_none_iff_exists'.mp hpresent
  obtain ⟨row₁, hrow₁, hsurvives⟩ := survives_of_reaches hsound hmore hfound
  obtain ⟨row₂, hrow₂, hsurvives'⟩ := survives_of_reaches hsound hmore hcommitted
  obtain rfl := Option.some.inj (hrow₁.symm.trans hold)
  obtain rfl := Option.some.inj (hrow₂.symm.trans hnew)
  obtain ⟨found', hfound', hfollows⟩ := hsound.follows hfound
  have holder : found'.cdnName = cdn := by
    rw [hfollows.cdnName, ← hsurvives.cdnName, hcdn]
  obtain rfl : cdnName = cdn := by
    rw [← hcdn', hsurvives'.cdnName, claimed_cdnName, hclaimed]
  by_contra huntried
  have hturn := hordered.turn hlt hfound' hwork holder
    (by rw [claimed_cdnName, hclaimed])
    (fun htried => huntried (by simpa [Tried] using htried))
  exact hturn.2 (by rw [hpoint]; rfl)

/-- The first of two jobs of a CDN fails, and the daemon crashes before it is
retried; between the two the clock is ahead for a job of another CDN. -/
theorem first_attempts_in_order_sample : ∃ before after s,
    Reaches (step {}) (fun s action => inOrder "a" s action) (init 0)
      (before ++ .purgeStarted 3 1 :: after) s ∧
      ∃ first, .purgeStarted 1 first ∈ before := by
  obtain ⟨trace, s, hrun, hview⟩ := exists_reaches_of_execute
    (step {}) (init 0) (fun s action => inOrder "a" s action)
    (fun final => (final.2.getLast?, final.1.committed.row 1,
      final.1.committed.row 3))
    (some (.purgeStarted 3 1), some ⟨"a", ["/x"], 1, 5, 0, .pending, none⟩,
      some ⟨"a", ["/y"], 0, 0, 0, .inFlight, none⟩)
    [.start, .boot, .boot, .boot, .boot, .enqueue 0 "a" ["/x"],
      .execEnqueue 0, .resumeEnqueue 0, .execEnqueue 0, .tick 10,
      .enqueue 1 "b" ["/z"], .execEnqueue 1, .resumeEnqueue 1, .execEnqueue 1,
      .tick 0, .enqueue 2 "a" ["/y"], .execEnqueue 2, .resumeEnqueue 2,
      .execEnqueue 2, .resumeWorker "a",
      .execWorker "a", .resumeWorker "a", .execWorker "a", .resumeWorker "a",
      .execWorker "a", .resumeWorker "a",
      .purgeEnd "a" (.ok ⟨false, true, "HTTP 503"⟩), .execWorker "a",
      .resumeWorker "a", .execWorker "a", .crash, .start, .boot, .boot, .boot,
      .boot, .resumeWorker "a", .execWorker "a", .resumeWorker "a",
      .execWorker "a", .resumeWorker "a", .execWorker "a", .resumeWorker "a"]
    (by decide +kernel)
  obtain ⟨hlast, hview⟩ := Prod.ext_iff.mp hview
  obtain ⟨hold, hnew⟩ := Prod.ext_iff.mp hview
  obtain ⟨before, rfl⟩ := List.getLast?_eq_some_iff.mp hlast
  exact ⟨before, [], s, hrun,
    first_attempts_in_order hrun (by decide) hold hnew rfl rfl⟩

end MirrorMirage.Queue
