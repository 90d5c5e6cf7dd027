import MirrorMirage.Batcher.Closing
import MirrorMirage.Daemon.Progress

/-!
# The shutdown of the daemon

Once the daemon is cancelled, at whatever moment, its tasks can finish without
losing what is in a buffer: the debounce tasks and the `submit` of the pipeline
end (`retires`), then `run` drains the buffers through the queue
(`closes_down`).  Other schedules lose what they cancel on its way.
-/

namespace MirrorMirage.Daemon

open MirrorMirage.Run
open MirrorMirage.Batcher (Awaits Closing Draining Task)

/-- Every task of the batcher has ended, the `submit` that `_pipeline` awaits
among them, with nothing left behind. -/
structure Closed (s : State) : Prop where
  run : (s.batcher.point .run).isEnded
  tasks : ∀ task, s.batcher.point task ≠ .absent →
    (s.batcher.point task).isEnded
  free : s.batcher.lock = none
  empty : ∀ cdn, s.batcher.buffers cdn = []

/-- What is left to do of a shutdown: cancellations are delivered, `run` goes
on, and its calls are served. -/
def Action.closes : Action → Bool
  | .batcher (.deliver _) | .batcher .gathered | .batcher (.acquire .run)
  | .exec _ | .resume => true
  | _ => false

/-- A shutdown under way. -/
structure Leaving (cfg : DaemonConfig) (s : State) : Prop where
  joint : Joint s
  reached : ∃ now trace, Reaches (Batcher.step cfg)
    (fun _ own => own.isDaemon) (Batcher.init now) trace s.batcher
  down : s.batcher.shutdown = true

/-- The task has begun and not ended. -/
def Live (batcher : Batcher.State) (task : Task) : Bool :=
  !(batcher.point task).isEnded && !decide (batcher.point task = .absent)

section Leaving

variable {cfg : DaemonConfig} {fnmatchcase : String → String → Bool}
variable {watches : List WatchConfig} {s after : State} {action : Action}
variable {out : List Obs} {task : Task}

theorem Leaving.draining (h : Leaving cfg s) : Draining s.batcher := by
  obtain ⟨now, trace, hrun⟩ := h.reached
  exact Batcher.draining_of_reaches hrun

theorem Leaving.closing (h : Leaving cfg s) : Closing s.batcher := by
  obtain ⟨now, trace, hrun⟩ := h.reached
  exact Batcher.closing_of_reaches hrun

theorem leaving_move (h : Leaving cfg s)
    (hmove : Move cfg fnmatchcase watches s action after out) :
    Leaving cfg after := by
  obtain ⟨now, trace, hrun⟩ := h.reached
  refine ⟨joint_move h.joint hmove, ⟨now, _, hrun.trans
    (hmove.batcher_run.mono fun _ _ hmay => hmay.1)⟩, ?_⟩
  exact hmove.batcher_run.invariant
    (fun _ batcher => batcher.shutdown = true) h.down fun hdown _ hstep =>
      Batcher.down_move hdown (Batcher.move_of_step hstep)

theorem Leaving.of_step (h : Leaving cfg s)
    (hstep : step cfg fnmatchcase watches s action = some (after, out)) :
    Leaving cfg after :=
  leaving_move h (move_of_step h.joint.keys hstep)

theorem live_iff {batcher : Batcher.State} : Live batcher task = true ↔
    (batcher.point task).isEnded = false ∧ batcher.point task ≠ .absent := by
  simp [Live]

/-- Who holds the lock has not ended. -/
theorem Leaving.live_of_lock (h : Leaving cfg s)
    (hlock : s.batcher.lock = some task) : Live s.batcher task = true := by
  have hbusy := h.closing.busy hlock
  rw [live_iff]
  cases hpoint : s.batcher.point task with
  | enqueueing => simp [Batcher.Point.isEnded]
  | _ => simp [hpoint, Batcher.Point.isEnqueueing] at hbusy

/-! ## The other tasks end -/

/-- A step of the batcher without a call. -/
theorem exists_silent {own : Batcher.Action} {batcher : Batcher.State}
    (hown : isOwn own)
    (hstep : Batcher.step cfg s.batcher own = some (batcher, [])) :
    ∃ after, step cfg fnmatchcase watches s (.batcher own) =
      some (after, []) ∧ after.batcher = batcher := by
  have hinterrupt : ∃ queue, interrupt cfg s own = some queue := by
    unfold interrupt
    split
    · split <;> exact ⟨_, rfl⟩
    · exact ⟨_, rfl⟩
  obtain ⟨queue, hqueue⟩ := hinterrupt
  exact ⟨{ s with
    batcher := batcher
    queue := queue }, by simp [Daemon.step, hown, hstep, hqueue, enqueueAll],
    rfl⟩

/-- The steps that `run` has left before it drains. -/
def patience : Batcher.Point → ℕ
  | .blocked => 2
  | .gathering => 1
  | _ => 0

/-- The steps that are left until `run` is alone and drains. -/
def pending (tasks : Finset Task) (batcher : Batcher.State) : ℕ :=
  (tasks.filter fun task => Live batcher task).card +
    patience (batcher.point .run)

/-- Only `run` is left. -/
structure Alone (batcher : Batcher.State) : Prop where
  late : (batcher.point .run).isEarly = false
  others : ∀ task, task ≠ .run → Live batcher task = false

/-- All tasks that have not ended are listed. -/
def Lists (tasks : Finset Task) (batcher : Batcher.State) : Prop :=
  ∀ task, Live batcher task → task ∈ tasks

section Pending

variable {tasks : Finset Task} {batcher later : Batcher.State}

theorem Lists.mono (h : Lists tasks batcher)
    (hlive : ∀ other, Live later other → Live batcher other) :
    Lists tasks later :=
  fun other hother => h other (hlive other hother)

theorem card_live_le (hlive : ∀ other, Live later other → Live batcher other) :
    (tasks.filter fun task => Live later task).card ≤
      (tasks.filter fun task => Live batcher task).card :=
  Finset.card_le_card (Finset.monotone_filter_right tasks fun other _ => hlive other)

/-- One task has ended. -/
theorem pending_lt_of_ended (hlists : Lists tasks batcher)
    (hlive : Live batcher task) (hended : Live later task = false)
    (hsame : ∀ other, other ≠ task → later.point other = batcher.point other)
    (htask : task ≠ .run) :
    Lists tasks later ∧ pending tasks later < pending tasks batcher := by
  have hshrinks : ∀ other, Live later other → Live batcher other := by
    intro other hother
    by_cases heq : other = task
    · exact heq ▸ hlive
    · simpa [Live, hsame other heq] using hother
  refine ⟨hlists.mono hshrinks, ?_⟩
  have hcard : (tasks.filter fun task => Live later task).card <
      (tasks.filter fun task => Live batcher task).card := by
    apply Finset.card_lt_card
    refine ⟨Finset.monotone_filter_right tasks fun other _ => hshrinks other,
      fun hsubset => ?_⟩
    have hmem := hsubset (Finset.mem_filter.mpr ⟨hlists task hlive, hlive⟩)
    simp [hended] at hmem
  rw [pending, pending, hsame .run htask.symm]
  omega

/-- `run` has come nearer to its drain. -/
theorem pending_lt_of_run (hlists : Lists tasks batcher)
    (hrun : Live batcher .run)
    (hsame : ∀ other, other ≠ .run → later.point other = batcher.point other)
    (hlt : patience (later.point .run) < patience (batcher.point .run)) :
    Lists tasks later ∧ pending tasks later < pending tasks batcher := by
  have hshrinks : ∀ other, Live later other → Live batcher other := by
    intro other hother
    by_cases heq : other = .run
    · exact heq ▸ hrun
    · simpa [Live, hsame other heq] using hother
  have hcard := @card_live_le tasks batcher later hshrinks
  refine ⟨hlists.mono hshrinks, ?_⟩
  rw [pending, pending]
  omega

end Pending

/-- A step of a shutdown after which less is left, with the buffers as they
were. -/
structure Retreat (cfg : DaemonConfig) (tasks : Finset Task)
    (batcher : Batcher.State) (own : Batcher.Action) (later : Batcher.State) :
    Prop where
  accepted : Batcher.step cfg batcher own = some (later, [])
  isOwn : isOwn own
  closes : (Action.batcher own).closes
  buffers : later.buffers = batcher.buffers
  less : Lists tasks later ∧ pending tasks later < pending tasks batcher

/-- A task other than `run` that has not ended has been cancelled and can
end. -/
theorem Leaving.exists_deliver (h : Leaving cfg s) {tasks : Finset Task}
    (hlists : Lists tasks s.batcher) (hblocked : s.batcher.point .run ≠ .blocked)
    (htask : task ≠ .run) (hlive : Live s.batcher task) :
    ∃ later, Retreat cfg tasks s.batcher (.deliver task) later := by
  obtain ⟨hongoing, hpresent⟩ := live_iff.mp hlive
  have hcancel : s.batcher.cancelling task = true := by
    cases task with
    | submit call => exact h.draining.barred h.down call
    | flushAll call => exact absurd (h.closing.uncalled call) hpresent
    | debounce cdn =>
        exact (h.closing.cancelled hblocked).2 cdn
          ((h.joint.keys.debounced cdn).mp hpresent)
    | run => exact absurd rfl htask
  refine ⟨_, Batcher.step_deliver htask hcancel hpresent hongoing, rfl, rfl, rfl,
    ?_⟩
  refine pending_lt_of_ended hlists hlive ?_ ?_ htask
  · simp [Live, Batcher.Point.isEnded]
  · exact fun other hother => Function.update_of_ne hother _ _

/-- `run` is told of the shutdown and cancels the debounce tasks. -/
theorem Leaving.exists_deliverRun (h : Leaving cfg s) {tasks : Finset Task}
    (hlists : Lists tasks s.batcher)
    (hblocked : s.batcher.point .run = .blocked) :
    ∃ later, Retreat cfg tasks s.batcher (.deliver .run) later := by
  have hcancel := h.closing.told h.down hblocked
  obtain ⟨later, hstep, hpoint, hbuffers⟩ :=
    @Batcher.step_deliverRun cfg s.batcher hcancel hblocked
  refine ⟨later, hstep, rfl, rfl, hbuffers, ?_⟩
  refine pending_lt_of_run hlists ?_ ?_ ?_
  · simp [Live, hblocked, Batcher.Point.isEnded]
  · exact fun other hother => by rw [hpoint, Function.update_of_ne hother]
  · simp [hpoint, hblocked, patience]

/-- The `gather` of the debounce tasks returns. -/
theorem exists_gathered {tasks : Finset Task} (hlists : Lists tasks s.batcher)
    (hkeys : Batcher.Consistent s.batcher)
    (hgathering : s.batcher.point .run = .gathering)
    (halone : ∀ task, task ≠ .run → Live s.batcher task = false) :
    ∃ later, Retreat cfg tasks s.batcher .gathered later := by
  have hended : ∀ cdn ∈ s.batcher.cdns,
      (s.batcher.point (.debounce cdn)).isEnded := by
    intro cdn hcdn
    have hpresent := (hkeys.debounced cdn).mpr hcdn
    simpa [Live, hpresent] using halone (.debounce cdn) (by simp)
  refine ⟨_, if_pos ⟨hgathering, hended⟩, rfl, rfl, rfl, ?_⟩
  refine pending_lt_of_run hlists ?_ ?_ ?_
  · simp [Live, hgathering, Batcher.Point.isEnded]
  · exact fun other hother => Function.update_of_ne hother _ _
  · simp [hgathering, patience]

/-- While `run` is not alone, or does not drain yet, something can go on. -/
theorem Leaving.exists_retreat (h : Leaving cfg s) {tasks : Finset Task}
    (hlists : Lists tasks s.batcher) (hbusy : ¬ Alone s.batcher) :
    ∃ own later, Retreat cfg tasks s.batcher own later := by
  by_cases hblocked : s.batcher.point .run = .blocked
  · exact ⟨_, h.exists_deliverRun hlists hblocked⟩
  · by_cases halone : ∀ task, task ≠ .run → Live s.batcher task = false
    · have hgathering : s.batcher.point .run = .gathering := by
        by_contra hother
        refine hbusy ⟨?_, halone⟩
        cases hpoint : s.batcher.point .run with
        | blocked => exact absurd hpoint hblocked
        | gathering => exact absurd hpoint hother
        | _ => rfl
      exact ⟨_, exists_gathered hlists h.joint.keys hgathering halone⟩
    · push Not at halone
      obtain ⟨task, htask, hlive⟩ := halone
      exact ⟨_, h.exists_deliver hlists hblocked htask (by simpa using hlive)⟩

/-- The other tasks can always end, with the buffers as they are. -/
theorem Leaving.retires (h : Leaving cfg s) {tasks : Finset Task}
    (hlists : Lists tasks s.batcher) : ∃ trace after,
    Reaches (step cfg fnmatchcase watches) (fun _ action => action.closes)
      s trace after ∧ Leaving cfg after ∧ Alone after.batcher ∧
      after.batcher.buffers = s.batcher.buffers := by
  obtain ⟨trace, after, hrun, ⟨hleaving, -, hbuffers⟩, halone⟩ :=
    @exists_reaches_of_runs _ _ _ (step cfg fnmatchcase watches)
      (fun _ action => action.closes) s
      (fun state => Leaving cfg state ∧ Lists tasks state.batcher ∧
        state.batcher.buffers = s.batcher.buffers)
      (fun state => Alone state.batcher)
      (fun state => pending tasks state.batcher) (by
        rintro state ⟨hleaving, hlists, hbuffers⟩ hbusy
        obtain ⟨own, later, hretreat⟩ := hleaving.exists_retreat hlists hbusy
        obtain ⟨next, hstep, rfl⟩ := @exists_silent cfg fnmatchcase watches
          state own later hretreat.isOwn hretreat.accepted
        exact ⟨_, next, Reaches.refl.snoc hretreat.closes hstep,
          ⟨hleaving.of_step hstep, hretreat.less.1,
            hretreat.buffers.trans hbuffers⟩, hretreat.less.2⟩)
      ⟨h, hlists, rfl⟩
  exact ⟨trace, after, hrun, hleaving, halone, hbuffers⟩

/-! ## `run` drains the buffers -/

/-- The steps that the drain has left: each buffer is one call. -/
def drainLoad (s : State) : ℕ :=
  match s.batcher.point .run with
  | .flushAllLock => 5 * s.batcher.cdns.length + 1
  | .enqueueing _ _ _ rest => 5 * rest.length +
      enqueueRank (s.queue.enqueuer s.enqueueCall).point
  | _ => 0

/-- A series of flushes that `run` has begun. -/
theorem drainLoad_lt {earlier : Batcher.State} {todo : List String}
    (hflushed : s.batcher = (Batcher.flushLocked earlier .run todo).1) :
    drainLoad s < 5 * todo.length + 1 := by
  have hrank := enqueueRank_le (s.queue.enqueuer s.enqueueCall).point
  rcases Batcher.flushLocked_cases earlier .run todo with
    ⟨-, heq⟩ | ⟨skipped, cdn, rest, rfl, -, -, heq⟩
  · simp [drainLoad, hflushed, heq, Batcher.afterFlush]
  · simp only [drainLoad, hflushed, heq, Batcher.takeBuffer_point,
      Function.update_self, List.length_append, List.length_cons]
    omega

/-- `run` has gone on alone. -/
theorem Alone.of_update {batcher later : Batcher.State} (h : Alone batcher)
    {point : Batcher.Point} (hlate : point.isEarly = false)
    (hpoint : later.point = Function.update batcher.point .run point) :
    Alone later := by
  refine ⟨by rwa [hpoint, Function.update_self], fun task htask => ?_⟩
  have hother := h.others task htask
  rwa [Live, hpoint, Function.update_of_ne htask]

theorem Alone.flushLocked {batcher : Batcher.State} (h : Alone batcher)
    (todo : List String) :
    Alone (Batcher.flushLocked batcher .run todo).1 := by
  obtain ⟨point, hlate, hpoint, -⟩ :=
    Batcher.exists_flushLocked_point batcher .run todo
  exact h.of_update hlate hpoint

/-- A step of `run` or of its call, after which less is left. -/
structure Drain (cfg : DaemonConfig) (fnmatchcase : String → String → Bool)
    (watches : List WatchConfig) (s : State) (action : Action) (after : State)
    (out : List Obs) : Prop where
  accepted : step cfg fnmatchcase watches s action = some (after, out)
  closes : action.closes
  keeps : Keeps s action
  alone : Alone after.batcher
  less : drainLoad after < drainLoad s

/-- `run` gets the lock that nobody else waits for. -/
theorem Leaving.exists_acquire (h : Leaving cfg s) (halone : Alone s.batcher)
    (hpoint : s.batcher.point .run = .flushAllLock) :
    ∃ action after out, Drain cfg fnmatchcase watches s action after out := by
  have hlock : s.batcher.lock = none := by
    cases hholder : s.batcher.lock with
    | none => rfl
    | some task =>
        have hbusy := h.closing.busy hholder
        have hlive := h.live_of_lock hholder
        by_cases htask : task = .run
        · simp [htask, hpoint, Batcher.Point.isEnqueueing] at hbusy
        · simp [halone.others task htask] at hlive
  have hcalm := (h.closing.cancelled (by simp [hpoint])).1
  have hacquire : Batcher.step cfg s.batcher (.acquire .run) =
      some (Batcher.flushLocked s.batcher .run s.batcher.cdns) := by
    simp [Batcher.step, Batcher.acquire, hlock, hcalm, hpoint]
  obtain ⟨after, haccepted, hcalls⟩ :=
    @Joint.exists_batcher cfg fnmatchcase watches s h.joint (.acquire .run) _ _
      rfl (by simp) hacquire
  have hbatcher : after.batcher = _ := hcalls.batcher
  refine ⟨_, after, _, haccepted, rfl, by simp [Keeps], ?_, ?_⟩
  · rw [hbatcher]
    exact halone.flushLocked _
  · have hlt := drainLoad_lt hbatcher
    simpa [drainLoad, hpoint] using hlt

/-- The call that `run` awaits goes on, with `run`. -/
theorem Leaving.exists_served (h : Leaving cfg s) (halone : Alone s.batcher)
    {cdn : String} {urls rest : List String} {committed : Bool}
    (hpoint : s.batcher.point .run = .enqueueing cdn urls committed rest) :
    ∃ action after out, Drain cfg fnmatchcase watches s action after out := by
  have hcalm := (h.closing.cancelled (by simp [hpoint])).1
  obtain ⟨action, after, out, hturn⟩ :=
    @Joint.exists_call cfg fnmatchcase watches s .run cdn urls committed h.joint
      ⟨rest, hpoint⟩ hcalm
  have hown : action.closes ∧ Keeps s action := by
    rcases hturn.own with rfl | rfl <;> exact ⟨rfl, by simp [Keeps]⟩
  have hload : drainLoad s = 5 * rest.length +
      enqueueRank (s.queue.enqueuer s.enqueueCall).point := by
    simp [drainLoad, hpoint]
  suffices hnext : Alone after.batcher ∧ drainLoad after < drainLoad s from
    ⟨action, after, out, hturn.accepted, hown.1, hown.2, hnext.1, hnext.2⟩
  cases hturn.call with
  | goes hbatcher hcall hlt =>
      refine ⟨hbatcher ▸ halone, ?_⟩
      simpa [drainLoad, hbatcher, hpoint] using hlt
  | commits hcommit hcall hlt =>
      have hgoes : after.batcher =
          s.batcher.goto .run (.enqueueing cdn urls true rest) := by
        cases committed <;> simp [Batcher.step, hpoint, hcalm] at hcommit
        exact hcommit.1.symm
      refine ⟨halone.of_update rfl (by rw [hgoes]; rfl), ?_⟩
      rw [hload]
      simpa [drainLoad, hgoes] using hlt
  | returns hreturn hlt =>
      have hflushed : after.batcher =
          (Batcher.flushLocked s.batcher .run rest).1 := by
        cases committed <;> simp [Batcher.step, hpoint, hcalm] at hreturn
        rw [hreturn]
      have hless := drainLoad_lt hflushed
      exact ⟨hflushed ▸ halone.flushLocked rest, by omega⟩

theorem Leaving.exists_drain (h : Leaving cfg s) (halone : Alone s.batcher)
    (hbusy : (s.batcher.point .run).isEnded = false) :
    ∃ action after out, Drain cfg fnmatchcase watches s action after out := by
  have howned := h.joint.keys.owned .run
  have hlate := halone.late
  cases hpoint : s.batcher.point .run with
  | flushAllLock => exact h.exists_acquire halone hpoint
  | enqueueing => exact h.exists_served halone hpoint
  | blocked | gathering => simp [hpoint, Batcher.Point.isEarly] at hlate
  | ended => simp [hpoint, Batcher.Point.isEnded] at hbusy
  | _ => simp [hpoint, Batcher.Task.owns] at howned

/-- `run` can always finish its drain. -/
theorem Leaving.closes_down (h : Leaving cfg s) (halone : Alone s.batcher) :
    ∃ trace after,
      Reaches (Daemon.step cfg fnmatchcase watches)
        (fun s action => action.closes ∧ Keeps s action) s trace after ∧
      Leaving cfg after ∧ Alone after.batcher ∧
      (after.batcher.point .run).isEnded := by
  obtain ⟨trace, after, hrun, ⟨hleaving, halone⟩, hended⟩ :=
    @exists_reaches_of_runs _ _ _ (Daemon.step cfg fnmatchcase watches)
      (fun s action => action.closes ∧ Keeps s action) s
      (fun state => Leaving cfg state ∧ Alone state.batcher)
      (fun state => (state.batcher.point .run).isEnded) drainLoad (by
        rintro state ⟨hleaving, halone⟩ hbusy
        obtain ⟨action, next, out, hdrain⟩ :=
          @Leaving.exists_drain cfg fnmatchcase watches state hleaving halone
            (by simpa using hbusy)
        exact ⟨_, next, Reaches.refl.snoc ⟨hdrain.closes, hdrain.keeps⟩
          hdrain.accepted, ⟨hleaving.of_step hdrain.accepted, hdrain.alone⟩,
          hdrain.less⟩)
      ⟨h, halone⟩
  exact ⟨trace, after, hrun, hleaving, halone, hended⟩

theorem Leaving.closed (h : Leaving cfg s) (halone : Alone s.batcher)
    (hended : (s.batcher.point .run).isEnded) : Closed s := by
  have htasks : ∀ task, s.batcher.point task ≠ .absent →
      (s.batcher.point task).isEnded := by
    intro task hpresent
    by_cases htask : task = .run
    · exact htask ▸ hended
    · simpa [Live, hpresent] using halone.others task htask
  refine ⟨hended, htasks, ?_, ?_⟩
  · cases hlock : s.batcher.lock with
    | none => rfl
    | some task =>
        obtain ⟨hongoing, hpresent⟩ := live_iff.mp (h.live_of_lock hlock)
        simp [htasks task hpresent] at hongoing
  · have hremaining := h.draining.remaining
    cases hpoint : s.batcher.point .run with
    | ended outcome =>
        rw [hpoint] at hremaining
        exact hremaining.1
    | _ => simp [hpoint, Batcher.Point.isEnded] at hended

end Leaving

/-! ## The `submit` calls -/

/-- A `submit` that is under way is the one that `_pipeline` awaits. -/
def Handed (s : State) : Prop :=
  ∀ call, Live s.batcher (.submit call) → call = s.submitCall ∧
    ∃ target rest, s.pipeline = .submitting target rest

section Handed

variable {cfg : DaemonConfig} {fnmatchcase : String → String → Bool}
variable {watches : List WatchConfig} {s after : State} {action : Action}
variable {out : List Obs}

/-- Only its call brings a `submit` under way. -/
theorem live_submit_move {batcher later : Batcher.State} {call : ℕ}
    {own : Batcher.Action} {found : List Batcher.Obs}
    (hkeys : Batcher.Consistent batcher)
    (hown : ∀ target, own ≠ .submit call target)
    (hstep : Batcher.step cfg batcher own = some (later, found))
    (hlive : Live later (.submit call)) : Live batcher (.submit call) := by
  rcases Batcher.submit_hops hkeys call (Batcher.move_of_step hstep) with
    hsame | hhops
  · simpa [Live, hsame] using hlive
  · rw [live_iff]
    generalize batcher.point (.submit call) = point at hhops
    generalize later.point (.submit call) = point' at hhops
    cases hhops with
    | called => exact absurd rfl (hown _)
    | cancelled habsent hended =>
        refine ⟨?_, habsent⟩
        cases point with
        | ended outcome => exact absurd rfl (hended outcome)
        | _ => rfl
    | _ => simp [Batcher.Point.isEnded]

/-- A call of `submit` while no other is under way. -/
theorem Handed.of_submits (hkeys : Batcher.Consistent s.batcher)
    (hidle : ∀ call, Live s.batcher (.submit call) = false)
    {target : PurgeTarget} {batcher : Batcher.State}
    (hsubmits : Submits cfg s target batcher) (call : ℕ)
    (hlive : Live batcher (.submit call)) : call = s.submitCall + 1 := by
  by_contra hne
  refine Bool.false_ne_true ((hidle call).symm.trans
    (live_submit_move hkeys ?_ hsubmits hlive))
  rintro target' heq
  simp at heq
  omega

/-- Where `_pipeline` awaits no `submit`, none is under way. -/
theorem Handed.idle (h : Handed s)
    (hpipeline : ∀ target rest, s.pipeline = .submitting target rest →
      (s.batcher.point (.submit s.submitCall)).isEnded) (call : ℕ) :
    Live s.batcher (.submit call) = false := by
  by_contra hlive
  obtain ⟨rfl, target, rest, hbusy⟩ := h call (by simpa using hlive)
  simp [Live, hpipeline target rest hbusy] at hlive

/-- Without `_pipeline` no `submit` gets under way. -/
theorem live_move (hkeys : Batcher.Consistent s.batcher)
    (hreads : action ≠ .read ∧ action ≠ .submitted)
    (hmove : Move cfg fnmatchcase watches s action after out) (call : ℕ)
    (hlive : Live after.batcher (.submit call)) :
    Live s.batcher (.submit call) := by
  cases hmove with
  | files | exec | resume | queue => exact hlive
  | raise | pass | read => exact absurd rfl hreads.1
  | finish | submit => exact absurd rfl hreads.2
  | @batcher own batcher found queue _ hown hbatcher hinterrupts hcalls =>
      rw [hcalls.batcher] at hlive
      refine live_submit_move hkeys ?_ hbatcher hlive
      rintro target rfl
      cases hown
  | @commit call' =>
      rcases recordCommit_cases cfg s call' with heq | ⟨task, -, -, hstep⟩
      · simpa [heq] using hlive
      · exact live_submit_move hkeys (by simp) hstep hlive
  | enqueueReturn hlock hcancel hpoint hqueue hbatcher hcalls =>
      rw [hcalls.batcher] at hlive
      exact live_submit_move hkeys (by simp) hbatcher hlive

theorem Move.pipeline (hmove : Move cfg fnmatchcase watches s action after out)
    (hreads : action ≠ .read ∧ action ≠ .submitted) :
    after.pipeline = s.pipeline ∧ after.submitCall = s.submitCall := by
  cases hmove with
  | files | exec | resume | queue | commit => exact ⟨rfl, rfl⟩
  | raise | pass | read => exact absurd rfl hreads.1
  | finish | submit => exact absurd rfl hreads.2
  | batcher _ _ _ hcalls => exact hcalls.pipeline
  | enqueueReturn _ _ _ _ _ hcalls => exact hcalls.pipeline

theorem handed_move (h : Handed s) (hkeys : Batcher.Consistent s.batcher)
    (hmove : Move cfg fnmatchcase watches s action after out) :
    Handed after := by
  by_cases hreads : action ≠ .read ∧ action ≠ .submitted
  · intro call hlive
    obtain ⟨hpipeline, hcall⟩ := hmove.pipeline hreads
    rw [hpipeline, hcall]
    exact h call (live_move hkeys hreads hmove call hlive)
  cases hmove with
  | raise hreading | pass hreading =>
      intro call hlive
      simp [h.idle (by simp [hreading]) call] at hlive
  | finish hpipeline hreturned =>
      intro call hlive
      simp [h.idle (fun _ _ _ => by simp [hreturned, Batcher.Point.isEnded])
        call] at hlive
  | read hreading _ _ hsubmits =>
      exact fun call hlive => ⟨Handed.of_submits hkeys
        (h.idle (by simp [hreading])) hsubmits call hlive, _, _, rfl⟩
  | submit hpipeline hreturned hsubmits =>
      exact fun call hlive => ⟨Handed.of_submits hkeys
        (h.idle fun _ _ _ => by simp [hreturned, Batcher.Point.isEnded])
        hsubmits call hlive, _, _, rfl⟩
  | _ => simp at hreads

/-- `_pipeline` has not failed, and has called the `submit` that it awaits. -/
structure Piped (s : State) : Prop where
  alive : s.pipeline ≠ .ended
  called : ∀ {target rest}, s.pipeline = .submitting target rest →
    s.batcher.point (.submit s.submitCall) ≠ .absent

/-- A call is not taken back. -/
theorem present_move {batcher later : Batcher.State} {call : ℕ}
    {own : Batcher.Action} {found : List Batcher.Obs}
    (hkeys : Batcher.Consistent batcher)
    (hcalled : batcher.point (.submit call) ≠ .absent)
    (hmove : Batcher.Move cfg batcher own later found) :
    later.point (.submit call) ≠ .absent := by
  rcases Batcher.submit_hops hkeys call hmove with hsame | hhops
  · rwa [hsame]
  · generalize batcher.point (.submit call) = point at hhops
    generalize later.point (.submit call) = point' at hhops
    cases hhops with
    | added hpoint | returned hpoint =>
        rcases hpoint with rfl | hpoint
        · simp
        · rintro rfl
          cases hpoint
    | _ => simp

theorem piped_move (h : Piped s) (hkeys : Batcher.Consistent s.batcher)
    (hmove : Move cfg fnmatchcase watches s action after out) :
    Piped after := by
  by_cases hreads : action ≠ .read ∧ action ≠ .submitted
  · obtain ⟨hpipeline, hcall⟩ := hmove.pipeline hreads
    refine ⟨hpipeline ▸ h.alive, fun hbusy => ?_⟩
    rw [hcall]
    rw [hpipeline] at hbusy
    exact (hmove.batcher_run.invariant (fun _ batcher =>
      Batcher.Consistent batcher ∧
        batcher.point (.submit s.submitCall) ≠ .absent)
      ⟨hkeys, h.called hbusy⟩ fun hcalled _ hstep =>
        ⟨Batcher.consistent_move hcalled.1 (Batcher.move_of_step hstep),
          present_move hcalled.1 hcalled.2 (Batcher.move_of_step hstep)⟩).2
  cases hmove with
  | raise hreading hfiles hraised =>
      obtain ⟨result, -, heq⟩ := Option.map_eq_some_iff.mp hfiles
      cases heq
      obtain ⟨yielded, -, hpump⟩ := List.mem_flatMap.mp hraised
      exact absurd hpump raised_notMem_pump
  | pass | finish => exact ⟨by simp, by simp⟩
  | read _ _ _ hsubmits | submit _ _ hsubmits =>
      refine ⟨by simp, fun _ => ?_⟩
      simp [submitLock_of_submits hsubmits]
  | _ => simp at hreads

/-- At any time a finite number of tasks has not ended. -/
theorem Leaving.exists_lists (h : Leaving cfg s) (hhanded : Handed s) :
    ∃ tasks, Lists tasks s.batcher := by
  refine ⟨insert .run (insert (.submit s.submitCall)
    (s.batcher.cdns.toFinset.image .debounce)), fun task hlive => ?_⟩
  have hpresent := (live_iff.mp hlive).2
  cases task with
  | submit call => simp [(hhanded call hlive).1]
  | flushAll call => exact absurd (h.closing.uncalled call) hpresent
  | debounce cdn => simpa using (h.joint.keys.debounced cdn).mp hpresent
  | run => simp

/-- From wherever a shutdown is it can come to its end, and what is in a buffer
is stored. -/
theorem Leaving.exists_closed (h : Leaving cfg s) (hhanded : Handed s) :
    ∃ more final, Reaches (step cfg fnmatchcase watches)
        (fun _ action => action.closes) s more final ∧
      Leaving cfg final ∧ Closed final ∧
      ∀ {cdn url}, url ∈ s.batcher.buffers cdn →
        ∃ id urls, .stored id cdn urls ∈ more ∧ url ∈ urls ∧
          Holds final.queue.committed id cdn urls := by
  obtain ⟨tasks, hlists⟩ := h.exists_lists hhanded
  obtain ⟨first, alone, hfirst, hmiddle, halone, hbuffers⟩ :=
    @Leaving.retires cfg fnmatchcase watches s h tasks hlists
  obtain ⟨last, final, hlast, hend, hlone, hended⟩ :=
    @Leaving.closes_down cfg fnmatchcase watches alone hmiddle halone
  have hclosed := hend.closed hlone hended
  refine ⟨first ++ last, final,
    hfirst.trans (hlast.mono fun _ _ hmay => hmay.1), hend, hclosed, ?_⟩
  intro cdn url hurl
  have hheld : Held 0 ⟨cdn, url⟩ alone := .buffered (by rwa [hbuffers])
  rcases held_of_reaches hmiddle.joint (Nat.zero_le _) hheld
    (hlast.mono fun _ _ hmay => hmay.2) with hheld | ⟨id, urls, hstored, hmem, -⟩
  · exact absurd hheld (not_held_of_idle hend.joint.keys hclosed.free
      hclosed.empty)
  · exact ⟨id, urls, List.mem_append_right _ hstored, hmem,
      holds_of_stored hmiddle.joint hlast hstored⟩

end Handed

/-! ## Whole runs -/

section Runs

variable {cfg : DaemonConfig} {fnmatchcase : String → String → Bool}
variable {watches : List WatchConfig} {start s : State} {trace : List Obs}
variable {allowed : State → Action → Prop}

theorem leaving_of_reaches (hstart : Starts cfg start)
    (hrun : Reaches (step cfg fnmatchcase watches) allowed start trace s)
    (hdown : s.batcher.shutdown = true) : Leaving cfg s := by
  obtain ⟨now, hbatcher⟩ := hstart.batcher
  have hdaemon : Reaches (Batcher.step cfg) (fun _ own => own.isDaemon)
      start.batcher (trace.filterMap seenBatcher) s.batcher :=
    batcher_of_reaches hstart.joint hrun fun _ hmay _ => hmay.1
  exact ⟨joint_of_reaches hstart.joint hrun, ⟨now, _, hbatcher ▸ hdaemon⟩,
    hdown⟩

theorem handed_of_reaches (hstart : Starts cfg start)
    (hrun : Reaches (step cfg fnmatchcase watches) allowed start trace s) :
    Handed s := by
  refine hrun.invariant_along (fun _ s => Handed s) ?_ ?_
  · obtain ⟨now, hbatcher⟩ := hstart.batcher
    intro call hlive
    simp [hbatcher, Live, Batcher.init] at hlive
  · intro _ _ _ _ _ hearlier hhanded _ hstep
    have hkeys := (joint_of_reaches hstart.joint hearlier).keys
    exact handed_move hhanded hkeys (move_of_step hkeys hstep)

theorem piped_of_reaches (hstart : Starts cfg start)
    (hrun : Reaches (step cfg fnmatchcase watches) allowed start trace s) :
    Piped s := by
  refine hrun.invariant_along (fun _ s => Piped s)
    ⟨by simp [hstart.pipeline], by simp [hstart.pipeline]⟩ ?_
  intro _ _ _ _ _ hearlier hpiped _ hstep
  have hkeys := (joint_of_reaches hstart.joint hearlier).keys
  exact piped_move hpiped hkeys (move_of_step hkeys hstep)

end Runs

/-- Once the daemon has been cancelled, from every state of every run some
continuation does what is left to do of the shutdown: then every task of the
batcher has ended and the buffers are empty, and each URL that was in a buffer
has a job of its CDN in the table that a crash leaves. -/
theorem shutdown_comes_to_an_end {cfg : DaemonConfig}
    {fnmatchcase : String → String → Bool} {watches : List WatchConfig}
    {start s : State} {trace : List Obs} {allowed : State → Action → Prop}
    (hstart : Starts cfg start)
    (hrun : Reaches (step cfg fnmatchcase watches) allowed start trace s)
    (hdown : s.batcher.shutdown = true) :
    ∃ more final, Reaches (step cfg fnmatchcase watches)
        (fun _ action => action.closes) s more final ∧ Closed final ∧
      ∀ {cdn url}, url ∈ s.batcher.buffers cdn →
        ∃ id urls row, .stored id cdn urls ∈ more ∧ url ∈ urls ∧
          final.queue.committed.row id = some row ∧ row.cdnName = cdn ∧
          row.urls = urls := by
  obtain ⟨more, final, hmore, -, hclosed, hall⟩ :=
    @Leaving.exists_closed cfg fnmatchcase watches s
      (leaving_of_reaches hstart hrun hdown) (handed_of_reaches hstart hrun)
  refine ⟨more, final, hmore, hclosed, fun hurl => ?_⟩
  obtain ⟨id, urls, hstored, hmem, row, hrow⟩ := hall hurl
  exact ⟨id, urls, row, hstored, hmem, hrow⟩

/-- The daemon is cancelled while a target is in its buffer. -/
theorem shutdown_comes_to_an_end_sample : ∃ trace s more final,
    Reaches (step {} (fun _ _ => false) [firstWatch]) (fun _ _ => True)
      sampleStart trace s ∧
    Reaches (step {} (fun _ _ => false) [firstWatch])
      (fun _ action => action.closes) s more final ∧ Closed final ∧
    ∃ id urls, .stored id "fastly" urls ∈ more ∧ "https://x/pkg" ∈ urls := by
  obtain ⟨trace, s, hrun, hview⟩ := exists_reaches_of_execute
    (step {} (fun _ _ => false) [firstWatch]) sampleStart (fun _ _ => True)
    (fun final => (final.1.batcher.shutdown,
      final.1.batcher.buffers "fastly"))
    (true, ["https://x/pkg"])
    [.files (.create ["/", "stage"] "pkg"),
      .files (.rename ["/", "stage"] "pkg" ["/", "srv"] "pkg"), .read,
      .batcher (.acquire (.submit 1)), .batcher .shutdown]
    (by decide +kernel)
  obtain ⟨hdown, hbuffer⟩ := Prod.ext_iff.mp hview
  obtain ⟨more, final, hmore, hclosed, hall⟩ :=
    shutdown_comes_to_an_end (starts_sample _) hrun hdown
  have hurl : "https://x/pkg" ∈ s.batcher.buffers "fastly" := by
    rw [show s.batcher.buffers "fastly" = _ from hbuffer]
    exact List.mem_singleton_self _
  obtain ⟨id, urls, row, hstored, hmem, -⟩ := hall hurl
  exact ⟨trace, s, more, final, hrun, hmore, hclosed, id, urls, hstored, hmem⟩

end MirrorMirage.Daemon
