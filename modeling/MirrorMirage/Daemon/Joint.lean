import MirrorMirage.Daemon.Components

/-!
# The batcher and the queue at their joint

A task of the batcher that awaits `enqueue(cdn, urls)` is served by the last
call of the queue, which has the batch on its way into a row (`Joint`).  A
queue whose process goes on keeps what its rows say (`Onward`).
-/

namespace MirrorMirage.Daemon

open Function (update)
open MirrorMirage.Run
open MirrorMirage.Batcher (Awaits Silent Enqueues)
open MirrorMirage.Queue (Sound Db)

/-- The row is about this batch. -/
def Holds (db : Db) (id : ℕ) (cdn : String) (urls : List String) : Prop :=
  ∃ row, db.row id = some row ∧ row.cdnName = cdn ∧ row.urls = urls

/-! ## A queue that goes on -/

/-- What a queue keeps while the process goes on. -/
structure Onward (queue later : Queue.State) : Prop where
  running : later.phase = .running
  nextId : queue.work.nextId ≤ later.work.nextId
  work : ∀ {id cdn urls}, Holds queue.work id cdn urls →
    Holds later.work id cdn urls
  committed : ∀ {id cdn urls}, Holds queue.committed id cdn urls →
    Holds later.committed id cdn urls

section Onward

variable {retry : RetryConfig} {queue later : Queue.State}
variable {action : Queue.Action} {trace : List Queue.Obs}
variable {id : ℕ} {cdn : String} {urls : List String}

theorem Onward.refl (hrunning : queue.phase = .running) :
    Onward queue queue :=
  ⟨hrunning, le_rfl, id, id⟩

theorem holds_modify {db : Db} {other : ℕ} {change : Queue.Row → Queue.Row}
    (hchange : ∀ row, (change row).cdnName = row.cdnName ∧
      (change row).urls = row.urls)
    (h : Holds db id cdn urls) : Holds (db.modify other change) id cdn urls := by
  obtain ⟨row, hrow, rfl, rfl⟩ := h
  by_cases heq : id = other
  · subst heq
    exact ⟨change row, by simp [hrow], hchange row⟩
  · exact ⟨row, by simpa [heq] using hrow, rfl, rfl⟩

theorem holds_claim {db : Db} {other : ℕ} (h : Holds db id cdn urls) :
    Holds (db.claim other).1 id cdn urls := by
  unfold Db.claim
  split
  · split
    · exact holds_modify (fun row => ⟨rfl, rfl⟩) h
    · exact h
  · exact h

theorem claim_nextId {db : Db} {other : ℕ} :
    (db.claim other).1.nextId = db.nextId := by
  unfold Db.claim
  split
  · split <;> rfl
  · rfl

theorem holds_insert {db : Db} {now : ℚ} {cdn' : String} {urls' : List String}
    (hfresh : ∀ id, db.nextId ≤ id → db.row id = none)
    (h : Holds db id cdn urls) :
    Holds (db.insert cdn' urls' now) id cdn urls := by
  obtain ⟨row, hrow, hcdn, hurls⟩ := h
  have hne : id ≠ db.nextId := by
    rintro rfl
    simp [hfresh _ le_rfl] at hrow
  exact ⟨row, by simpa [Db.insert, hne] using hrow, hcdn, hurls⟩

theorem holds_inserted {db : Db} {now : ℚ} :
    Holds (db.insert cdn urls now) db.nextId cdn urls :=
  ⟨_, Function.update_self .., rfl, rfl⟩

theorem onward_move (hsound : Sound queue) (hrunning : queue.phase = .running)
    (hserves : serves action) {out : List Queue.Obs}
    (hmove : Queue.Move retry queue action later out) :
    Onward queue later := by
  have hcommitted : ∀ {id cdn urls}, Holds queue.committed id cdn urls →
      Holds later.committed id cdn urls := by
    rintro id cdn urls ⟨row, hrow, rfl, rfl⟩
    obtain ⟨row', hrow', hfollows⟩ := Queue.follows_of_move hsound hmove hrow
    exact ⟨row', hrow', hfollows.cdnName, hfollows.urls⟩
  have hrest : later.phase = .running ∧
      queue.work.nextId ≤ later.work.nextId ∧
      ∀ {id cdn urls}, Holds queue.work id cdn urls →
        Holds later.work id cdn urls := by
    cases hmove with
    | crash | start | reset | resetPost | resetCommit | run => cases hserves
    | insert =>
        exact ⟨hrunning, Nat.le_succ _, holds_insert hsound.freshWork⟩
    | claim => exact ⟨hrunning, claim_nextId.ge, holds_claim⟩
    | @settle cdnName job change =>
        exact ⟨hrunning, le_rfl, holds_modify fun row => by simp⟩
    | _ => exact ⟨hrunning, le_rfl, fun h => h⟩
  exact ⟨hrest.1, hrest.2.1, hrest.2.2, hcommitted⟩

theorem onward_of_reaches (hsound : Sound queue)
    (hrunning : queue.phase = .running)
    (hrun : Reaches (Queue.step retry) (fun _ own => serves own) queue trace
      later) : Sound later ∧ Onward queue later := by
  refine hrun.invariant (fun _ later => Sound later ∧ Onward queue later)
    ⟨hsound, .refl hrunning⟩ ?_
  rintro _ _ _ _ _ ⟨hsound', honward⟩ hserves hstep
  have hmove := Queue.move_of_step hstep
  have hnext := onward_move hsound' honward.running hserves hmove
  exact ⟨Queue.sound_move hsound' hmove, hnext.running,
    honward.nextId.trans hnext.nextId, fun h => hnext.work (honward.work h),
    fun h => hnext.committed (honward.committed h)⟩

/-- A worker leaves the `enqueue` calls alone. -/
theorem enqueuer_of_isWorker (hworker : isWorker action)
    {out : List Queue.Obs}
    (hstep : Queue.step retry queue action = some (later, out)) :
    later.enqueuer = queue.enqueuer := by
  cases action with
  | tick | killWorker =>
      cases hstep
      rfl
  | execWorker cdnName =>
      simp only [Queue.step] at hstep
      split at hstep
      · unfold Queue.execWorker at hstep
        split at hstep <;> cases hstep <;> rfl
      · cases hstep
  | resumeWorker cdnName =>
      simp only [Queue.step] at hstep
      split at hstep
      · unfold Queue.resumeWorker at hstep
        split at hstep
        · cases hstep
          rfl
        · cases hstep
          rfl
        · cases hstep
          rfl
        · cases hstep
          rfl
        · split at hstep <;> cases hstep <;> rfl
        · cases hstep
          rfl
        · cases hstep
          rfl
        · cases hstep
      · cases hstep
  | purgeEnd cdnName outcome =>
      simp only [Queue.step] at hstep
      split at hstep
      · unfold Queue.purgeEnd at hstep
        split at hstep
        · simp only at hstep
          split at hstep <;> cases hstep <;> rfl
        · cases hstep
      · cases hstep
  | _ => cases hworker

end Onward

/-! ## The joint -/

/-- How far the call has come with the batch of a task, which misses the commit
only if it is being cancelled. -/
def Serving (queue : Queue.State) (cancelling : Bool) (cdn : String)
    (urls : List String) (committed : Bool) : Queue.EnqueuePoint → Prop
  | .inserting cdn' urls' _ => cdn' = cdn ∧ urls' = urls ∧ committed = false
  | .inserted id | .committing id =>
      Holds queue.work id cdn urls ∧ committed = false
  | .committed id => Holds queue.committed id cdn urls ∧
      (committed = true ∨ cancelling = true)
  | .absent => False

/-- The calls after the last one are free, and the last one serves the task
that awaits it. -/
structure Joint (s : State) : Prop where
  keys : Batcher.Consistent s.batcher
  sound : Sound s.queue
  running : s.queue.phase = .running
  free : ∀ call, s.enqueueCall < call →
    (s.queue.enqueuer call).point = .absent
  serving : ∀ {task cdn urls committed},
    Awaits s.batcher task cdn urls committed →
      (s.queue.enqueuer s.enqueueCall).alive = true ∧
        Serving s.queue (s.batcher.cancelling task) cdn urls committed
          (s.queue.enqueuer s.enqueueCall).point

section Joint

variable {cfg : DaemonConfig} {fnmatchcase : String → String → Bool}
variable {watches : List WatchConfig} {s after : State} {action : Action}
variable {out : List Obs}

theorem Serving.onward {queue later : Queue.State} {cancelling cancelling' : Bool}
    {cdn : String} {urls : List String} {committed : Bool}
    {point : Queue.EnqueuePoint}
    (h : Serving queue cancelling cdn urls committed point)
    (honward : Onward queue later)
    (hcancel : cancelling = true → cancelling' = true) :
    Serving later cancelling' cdn urls committed point := by
  cases point with
  | inserting | absent => exact h
  | inserted | committing => exact ⟨honward.work h.1, h.2⟩
  | committed => exact ⟨honward.committed h.1, h.2.imp_right hcancel⟩

/-- No task starts to await a call, and the calls stay where they are. -/
theorem Joint.of_quiet (h : Joint s) (hkeys : Batcher.Consistent after.batcher)
    (honward : Sound after.queue ∧ Onward s.queue after.queue)
    (hcall : after.enqueueCall = s.enqueueCall)
    (henqueuer : ∀ call, s.enqueueCall ≤ call →
      after.queue.enqueuer call = s.queue.enqueuer call)
    (hawaits : ∀ {task cdn urls committed},
      Awaits after.batcher task cdn urls committed →
        Awaits s.batcher task cdn urls committed ∧
          (s.batcher.cancelling task = true →
            after.batcher.cancelling task = true)) : Joint after where
  keys := hkeys
  sound := honward.1
  running := honward.2.running
  free := by
    rw [hcall]
    intro call hcall'
    rw [henqueuer call hcall'.le]
    exact h.free call hcall'
  serving := by
    intro task cdn urls committed hafter
    obtain ⟨hbefore, hcancel⟩ := hawaits hafter
    obtain ⟨halive, hserving⟩ := h.serving hbefore
    rw [hcall, henqueuer _ le_rfl]
    exact ⟨halive, hserving.onward honward.2 hcancel⟩

/-- A new call serves whatever task awaits one. -/
theorem Joint.of_calls {before : State} {calls : List Batcher.Obs}
    (hkeys : Batcher.Consistent before.batcher)
    (hsound : Sound after.queue) (hrunning : after.queue.phase = .running)
    (hfree : ∀ call, before.enqueueCall < call →
      (before.queue.enqueuer call).point = .absent)
    {earlier : Batcher.State} (hcalls : Calls before calls after)
    (henqueues : Enqueues earlier before.batcher calls)
    (hquiet : Silent calls → (∀ {task cdn urls committed},
      Awaits before.batcher task cdn urls committed →
        Awaits earlier task cdn urls committed) → Joint before) :
    Joint after := by
  rcases hcalls.agree henqueues with
    ⟨rfl, hsilent, hawaits⟩ | ⟨cdn, urls, rfl, -, hawaits⟩
  · exact hquiet hsilent hawaits
  · refine ⟨hkeys, hsound, hrunning, fun call hcall => ?_, ?_⟩
    · have hne : call ≠ before.enqueueCall + 1 := by
        rintro rfl
        simp at hcall
      simpa [hne] using hfree call (by simp at hcall; omega)
    · intro task cdn' urls' committed hafter
      obtain ⟨rfl, rfl, rfl⟩ := hawaits hafter
      simp [Serving]

theorem Interrupts.onward (h : Joint s) {own : Batcher.Action}
    {queue : Queue.State} (hinterrupts : Interrupts s own queue) :
    Sound queue ∧ Onward s.queue queue := by
  cases hinterrupts with
  | none => exact ⟨h.sound, .refl h.running⟩
  | kill =>
      exact ⟨⟨h.sound.freshWork, h.sound.freshCommitted, h.sound.nextId_le,
        h.sound.inPhase⟩, h.running, le_rfl, id, id⟩

theorem Interrupts.free (h : Joint s) {own : Batcher.Action}
    {queue : Queue.State} (hinterrupts : Interrupts s own queue) (call : ℕ)
    (hcall : s.enqueueCall < call) :
    (queue.enqueuer call).point = .absent := by
  cases hinterrupts with
  | none => exact h.free call hcall
  | kill => simpa [ne_of_gt hcall] using h.free call hcall

/-- The interrupted task awaits nothing any more. -/
theorem Interrupts.joint (h : Joint s) {own : Batcher.Action}
    {batcher : Batcher.State} {found : List Batcher.Obs} {queue : Queue.State}
    (hbatcher : Batcher.step cfg s.batcher own = some (batcher, found))
    (hinterrupts : Interrupts s own queue)
    (hawaits : ∀ {task cdn urls committed},
      Awaits batcher task cdn urls committed →
        Awaits s.batcher task cdn urls committed) :
    Joint { s with
      batcher := batcher
      queue := queue } := by
  have hmove := Batcher.move_of_step hbatcher
  have hkeys := Batcher.consistent_move h.keys hmove
  have honward := hinterrupts.onward h
  have hfree := hinterrupts.free h
  cases hinterrupts with
  | none =>
      exact h.of_quiet hkeys honward rfl (fun _ _ => rfl) fun hafter =>
        ⟨hawaits hafter, Batcher.cancelling_of_move hmove hafter⟩
  | @kill task haction hpoint =>
      have hidle : ∀ {other cdn urls committed},
          ¬ Awaits batcher other cdn urls committed := by
        intro other cdn urls committed hafter
        have hbefore := hawaits hafter
        have hlock := h.keys.holder task hpoint
        have hlock' := h.keys.holder other (Batcher.isEnqueueing_of_awaits hbefore)
        obtain rfl := Option.some.inj (hlock'.symm.trans hlock)
        subst haction
        obtain ⟨rest, hafter⟩ := hafter
        cases hmove with
        | deliverRun hcancel hblocked => simp at hafter
        | deliver => simp at hafter
      exact ⟨hkeys, honward.1, honward.2.running, hfree,
        fun hafter => absurd hafter hidle⟩

theorem Joint.le_of_point (h : Joint s) {call : ℕ}
    (hpoint : (s.queue.enqueuer call).point ≠ .absent) :
    call ≤ s.enqueueCall := by
  by_contra hlt
  exact hpoint (h.free call (not_le.mp hlt))

/-- One call of the queue goes on, the others and the table's rows stay. -/
theorem Joint.of_gotoEnqueue (h : Joint s) {queue : Queue.State} {call : ℕ}
    {point : Queue.EnqueuePoint} {batcher : Batcher.State}
    (hkeys : Batcher.Consistent batcher)
    (honward : Sound queue ∧ Onward s.queue queue)
    (hpoint : (s.queue.enqueuer call).point ≠ .absent)
    (hqueue : queue.enqueuer = (s.queue.gotoEnqueue call point).enqueuer)
    (hserving : ∀ {task cdn urls committed},
      Awaits batcher task cdn urls committed →
        (∃ committed', Awaits s.batcher task cdn urls committed') ∧
          (call ≠ s.enqueueCall → batcher = s.batcher) ∧
          (call = s.enqueueCall →
            Serving queue (batcher.cancelling task) cdn urls committed point)) :
    Joint { s with
      batcher := batcher
      queue := queue } where
  keys := hkeys
  sound := honward.1
  running := honward.2.running
  free := by
    intro call' hcall
    have hne : call' ≠ call :=
      ((h.le_of_point hpoint).trans_lt hcall).ne'
    simpa [hqueue, Queue.State.gotoEnqueue, hne] using h.free call' hcall
  serving := by
    intro task cdn urls committed hafter
    obtain ⟨⟨committed', hbefore⟩, hsame, hnext⟩ := hserving hafter
    by_cases heq : call = s.enqueueCall
    · subst heq
      simpa [hqueue, Queue.State.gotoEnqueue, (h.serving hbefore).1] using
        hnext rfl
    · rw [hsame heq] at hafter
      obtain ⟨halive, hold⟩ := h.serving hafter
      simpa [hqueue, Queue.State.gotoEnqueue, Ne.symm heq, halive, hsame heq]
        using hold.onward honward.2 id

theorem Joint.exec (h : Joint s) {call : ℕ} {queue : Queue.State}
    {found : List Queue.Obs}
    (hpoint : ∀ id, (s.queue.enqueuer call).point ≠ .committing id)
    (honward : Sound queue ∧ Onward s.queue queue)
    (hqueue : Queue.step cfg.retry s.queue (.execEnqueue call) =
      some (queue, found)) : Joint { s with queue := queue } := by
  obtain ⟨-, ⟨cdn, urls, now, hinserting, rfl⟩ | ⟨id, hid, -⟩⟩ :=
    Queue.execEnqueue_cases hqueue
  · refine h.of_gotoEnqueue h.keys honward (by simp [hinserting]) rfl
      fun {task cdn' urls' committed} hawaits =>
        ⟨⟨_, hawaits⟩, fun _ => rfl, fun heq => ?_⟩
    obtain ⟨-, hserving⟩ := h.serving hawaits
    rw [← heq, hinserting] at hserving
    obtain ⟨rfl, rfl, rfl⟩ := hserving
    exact ⟨holds_inserted, rfl⟩
  · exact absurd hid (hpoint id)

/-- A task that awaits the commit and is not being cancelled gets to know. -/
theorem recordCommit_of_awaits (hkeys : Batcher.Consistent s.batcher)
    {task : Batcher.Task} {cdn : String} {urls : List String}
    (hawaits : Awaits s.batcher task cdn urls false)
    (hcancel : s.batcher.cancelling task = false) :
    ∃ rest, recordCommit cfg s s.enqueueCall =
      (s.batcher.goto task (.enqueueing cdn urls true rest),
        [.committed cdn urls]) := by
  obtain ⟨rest, hpoint⟩ := hawaits
  have hlock := hkeys.holder task
    (by simp [hpoint, Batcher.Point.isEnqueueing])
  exact ⟨rest, by
    simp [recordCommit, hlock, Batcher.step, hpoint, hcancel]⟩

theorem Joint.commit (h : Joint s) {call id : ℕ} {queue : Queue.State}
    {found : List Queue.Obs}
    (hpoint : (s.queue.enqueuer call).point = .committing id)
    (honward : Sound queue ∧ Onward s.queue queue)
    (hqueue : Queue.step cfg.retry s.queue (.execEnqueue call) =
      some (queue, found)) :
    Joint { s with
      queue := queue
      batcher := (recordCommit cfg s call).1 } := by
  obtain ⟨-, ⟨_, _, _, hinserting, -⟩ | ⟨id', hid, rfl⟩⟩ :=
    Queue.execEnqueue_cases hqueue
  · simp [hinserting] at hpoint
  · obtain rfl : id = id' := by simpa [hpoint] using hid
    have hserved : ∀ {task cdn urls committed},
        Awaits s.batcher task cdn urls committed → call = s.enqueueCall →
          Holds s.queue.work id cdn urls ∧ committed = false := by
      intro task cdn urls committed hawaits heq
      obtain ⟨-, hserving⟩ := h.serving hawaits
      rwa [← heq, hpoint] at hserving
    rcases recordCommit_cases cfg s call with hsame | ⟨task, heq, hlock, hstep⟩
    · rw [hsame]
      refine h.of_gotoEnqueue h.keys honward (by simp [hpoint]) rfl
        fun {task cdn urls committed} hawaits =>
          ⟨⟨_, hawaits⟩, fun _ => rfl, fun heq => ?_⟩
      obtain ⟨hholds, rfl⟩ := hserved hawaits heq
      refine ⟨hholds, .inr ?_⟩
      by_contra hcancel
      obtain ⟨rest, hrecord⟩ := @recordCommit_of_awaits cfg s h.keys task cdn
        urls hawaits (by simpa using hcancel)
      rw [← heq, hsame] at hrecord
      simp at hrecord
    · rcases hrecord : recordCommit cfg s call with ⟨batcher, out⟩
      rw [hrecord] at hstep
      have hmove := Batcher.move_of_step hstep
      refine h.of_gotoEnqueue (Batcher.consistent_move h.keys hmove) honward
        (by simp [hpoint]) rfl fun {other cdn urls committed} hafter => ?_
      cases hmove with
      | @commit _ cdn' urls' rest htask hcancel =>
          have hbefore : Awaits s.batcher task cdn' urls' false := ⟨_, htask⟩
          by_cases hother : other = task
          · subst hother
            obtain ⟨rest', hafter⟩ := hafter
            simp only [Batcher.goto_point, Function.update_self,
              Batcher.Point.enqueueing.injEq] at hafter
            obtain ⟨rfl, rfl, rfl, -⟩ := hafter
            exact ⟨⟨_, hbefore⟩, fun hne => absurd heq hne, fun _ =>
              ⟨(hserved hbefore heq).1, .inl rfl⟩⟩
          · obtain ⟨rest', hafter⟩ := hafter
            exact absurd (hbefore.unique h.keys
              ⟨rest', by simpa [hother] using hafter⟩) hother

theorem Joint.resume (h : Joint s) {queue : Queue.State}
    (hpoint : ∀ id, (s.queue.enqueuer s.enqueueCall).point ≠ .committed id)
    (honward : Sound queue ∧ Onward s.queue queue)
    (hqueue : Queue.step cfg.retry s.queue (.resumeEnqueue s.enqueueCall) =
      some (queue, [])) : Joint { s with queue := queue } := by
  obtain ⟨-, -, ⟨id, hid, rfl⟩ | ⟨id, hid, -⟩⟩ := Queue.resumeEnqueue_cases hqueue
  · refine h.of_gotoEnqueue h.keys honward (by simp [hid]) rfl
      fun {task cdn urls committed} hawaits =>
        ⟨⟨_, hawaits⟩, fun _ => rfl, fun _ => ?_⟩
    obtain ⟨-, hserving⟩ := h.serving hawaits
    rwa [hid] at hserving
  · exact absurd hid (hpoint id)

/-- A call that has returned serves nobody, and its task awaits a new one or
none. -/
theorem Joint.enqueueReturn (h : Joint s) {task : Batcher.Task}
    {queue : Queue.State} {batcher : Batcher.State}
    {returned : List Batcher.Obs}
    (hlock : s.batcher.lock = some task)
    (honward : Sound queue ∧ Onward s.queue queue)
    (hafter : Sound after.queue ∧ Onward s.queue after.queue)
    (hqueue : Queue.step cfg.retry s.queue (.resumeEnqueue s.enqueueCall) =
      some (queue, []))
    (hbatcher : Batcher.step cfg s.batcher (.enqueueReturn task) =
      some (batcher, returned))
    (hcalls : Calls { s with
      queue := queue
      batcher := batcher } returned after) : Joint after := by
  have hmove := Batcher.move_of_step hbatcher
  have hkeys := Batcher.consistent_move h.keys hmove
  have hfree : ∀ call, s.enqueueCall < call →
      (queue.enqueuer call).point = .absent := by
    intro call hcall
    have hne : call ≠ s.enqueueCall := ne_of_gt hcall
    obtain ⟨-, -, ⟨id, -, rfl⟩ | ⟨id, -, rfl⟩⟩ := Queue.resumeEnqueue_cases hqueue <;>
      simpa [Queue.State.gotoEnqueue, hne] using h.free call hcall
  have henqueues : Enqueues s.batcher batcher returned :=
    Batcher.enqueues_of_move h.keys (by simp) hmove
  refine Joint.of_calls hkeys hafter.1 hafter.2.running hfree hcalls henqueues
    fun hsilent _ => ⟨hkeys, honward.1, honward.2.running, hfree, ?_⟩
  cases hmove with
  | @enqueueReturn _ _ _ rest hpoint =>
      rcases Batcher.awaits_flushLocked h.keys (.inr hlock) rest with
        ⟨-, hidle⟩ | ⟨cdn, urls, time, hout, -⟩
      · exact fun hawaits => absurd hawaits hidle
      · exact absurd (by simp [hout]) (hsilent cdn urls time)

theorem joint_move (h : Joint s)
    (hmove : Move cfg fnmatchcase watches s action after out) :
    Joint after := by
  have honward := onward_of_reaches h.sound h.running hmove.queue_run
  have hsame : Sound s.queue ∧ Onward s.queue s.queue :=
    ⟨h.sound, .refl h.running⟩
  have hsubmits : ∀ {target batcher}, Submits cfg s target batcher →
      ∀ {after : State}, after.batcher = batcher → after.queue = s.queue →
        after.enqueueCall = s.enqueueCall → Joint after := by
    intro target batcher hsubmits after hbatcher hqueue hcall
    have hmove := Batcher.move_of_step hsubmits
    refine h.of_quiet (hbatcher ▸ Batcher.consistent_move h.keys hmove)
      (hqueue ▸ hsame) hcall (fun _ _ => by rw [hqueue]) ?_
    intro task cdn urls committed hawaits
    rw [hbatcher] at hawaits ⊢
    refine ⟨?_, Batcher.cancelling_of_move hmove hawaits⟩
    cases Batcher.enqueues_of_move h.keys (by simp) hmove with
    | none _ hbefore => exact hbefore hawaits
    | one hout => simp at hout
  cases hmove with
  | files | raise | pass | finish =>
      exact ⟨h.keys, h.sound, h.running, h.free, h.serving⟩
  | read hreading hfiles htargets hsubmit => exact hsubmits hsubmit rfl rfl rfl
  | submit hpipeline hreturned hsubmit => exact hsubmits hsubmit rfl rfl rfl
  | @batcher own batcher found queue _ hown hbatcher hinterrupts hcalls =>
      have hmove := Batcher.move_of_step hbatcher
      have hcommit : ∀ task, own ≠ .commit task := by
        rintro task rfl
        cases hown
      exact Joint.of_calls (Batcher.consistent_move h.keys hmove) honward.1
        honward.2.running (hinterrupts.free h) hcalls
        (Batcher.enqueues_of_move h.keys hcommit hmove)
        fun _ hawaits => hinterrupts.joint h hbatcher hawaits
  | exec hpoint hqueue => exact h.exec hpoint honward hqueue
  | commit hpoint hqueue => exact h.commit hpoint honward hqueue
  | resume hlock hcancel hpoint hqueue => exact h.resume hpoint honward hqueue
  | enqueueReturn hlock hcancel hpoint hqueue hbatcher hcalls =>
      have hmid := onward_of_reaches h.sound h.running
        (Reaches.refl.snoc rfl hqueue)
      exact h.enqueueReturn hlock hmid honward hqueue hbatcher hcalls
  | queue hworker hqueue =>
      exact h.of_quiet h.keys honward rfl
        (fun _ _ => by rw [enqueuer_of_isWorker hworker hqueue])
        fun hawaits => ⟨hawaits, id⟩

end Joint

/-! ## Whole runs -/

/-- The task group has just been entered: the watcher waits for its first
event, nothing has been submitted, and the queue is up with whatever earlier
runs have left in the table. -/
structure Starts (cfg : DaemonConfig) (s : State) : Prop where
  idle : s.files.watcher.idle
  pipeline : s.pipeline = .reading
  batcher : ∃ now, s.batcher = Batcher.init now
  queue : ∃ now trace, Reaches (Queue.step cfg.retry) (fun _ _ => True)
    (Queue.init now) trace s.queue
  running : s.queue.phase = .running
  free : ∀ call, s.enqueueCall < call →
    (s.queue.enqueuer call).point = .absent

section Runs

variable {cfg : DaemonConfig} {fnmatchcase : String → String → Bool}
variable {watches : List WatchConfig} {start s : State} {trace : List Obs}
variable {allowed : State → Action → Prop}

theorem Starts.joint (h : Starts cfg start) : Joint start := by
  obtain ⟨now, hbatcher⟩ := h.batcher
  obtain ⟨now', trace, hqueue⟩ := h.queue
  have hkeys : Batcher.Consistent start.batcher :=
    hbatcher ▸ Batcher.consistent_init now
  refine ⟨hkeys, Queue.sound_of_reaches hqueue, h.running, h.free, ?_⟩
  intro task cdn urls committed hawaits
  have hlock := hkeys.holder task (Batcher.isEnqueueing_of_awaits hawaits)
  simp [hbatcher, Batcher.init] at hlock

theorem joint_of_reaches (h : Joint start)
    (hrun : Reaches (step cfg fnmatchcase watches) allowed start trace s) :
    Joint s :=
  hrun.invariant (fun _ s => Joint s) h fun hjoint _ hstep =>
    joint_move hjoint (move_of_step hjoint.keys hstep)

theorem queue_of_reaches (h : Joint start)
    (hrun : Reaches (step cfg fnmatchcase watches) allowed start trace s) :
    Reaches (Queue.step cfg.retry) (fun _ own => serves own) start.queue
      (trace.filterMap seenQueue) s.queue :=
  hrun.project State.queue seenQueue fun hearlier _ hstep =>
    (move_of_step (joint_of_reaches h hearlier).keys hstep).queue_run

theorem onward_of_run (h : Joint start)
    (hrun : Reaches (step cfg fnmatchcase watches) allowed start trace s) :
    Onward start.queue s.queue :=
  (onward_of_reaches h.sound h.running (queue_of_reaches h hrun)).2

theorem batcher_of_reaches {allowed' : Batcher.State → Batcher.Action → Prop}
    (h : Joint start)
    (hrun : Reaches (step cfg fnmatchcase watches) allowed start trace s)
    (hallowed : ∀ {s action own}, allowed s action → BatcherMay action own →
      ∀ batcher, allowed' batcher own) :
    Reaches (Batcher.step cfg) allowed' start.batcher
      (trace.filterMap seenBatcher) s.batcher :=
  hrun.project State.batcher seenBatcher fun hearlier hmay hstep =>
    (move_of_step (joint_of_reaches h hearlier).keys hstep).batcher_run.mono
      fun batcher _ hown => hallowed hmay hown batcher

end Runs

end MirrorMirage.Daemon
