import MirrorMirage.Daemon.Joint

/-!
# From a change of a file to a row of the table

A change that is due is followed through the daemon: the kernel's queue and
`_pipeline` (`Waiting`), the buffers and the calls of the batcher (`Held`), and
the table (`Stored`).  One lemma for each stage says where a step can take it.
-/

namespace MirrorMirage.Daemon

open MirrorMirage.Run
open MirrorMirage.Batcher (Awaits Silent Taken Carried)
open MirrorMirage.Filter (EventKind)
open MirrorMirage.Publication (Asked Due Steady Tells)

/-! ## The stages -/

/-- The row of the call, if there is one, has a key that is not below
`first`. -/
def Fresh (first : ℕ) : Queue.EnqueuePoint → Prop
  | .inserting _ _ _ => True
  | .inserted id | .committing id => first ≤ id
  | _ => False

/-- The batcher has the target, and no row below `first` is for it. -/
inductive Held (first : ℕ) (target : PurgeTarget) (s : State) : Prop where
  | buffered (hurl : target.url ∈ s.batcher.buffers target.cdnName)
  | awaited {task : Batcher.Task} {urls : List String}
      (hawaits : Awaits s.batcher task target.cdnName urls false)
      (hurl : target.url ∈ urls)
      (hfresh : Fresh first (s.queue.enqueuer s.enqueueCall).point)

/-- A row that is not below `first` has been stored for the target. -/
def Stored (first : ℕ) (target : PurgeTarget) (trace : List Obs) : Prop :=
  ∃ id urls, .stored id target.cdnName urls ∈ trace ∧ target.url ∈ urls ∧
    first ≤ id

/-- No link is made where a file is asked for, the mapper has the bindings of
the watch where there is another change, and no `CancelledError` is thrown into
an `enqueue` whose row is not in the database yet. -/
def Spares (watches : List WatchConfig) (path : Path) (watch : WatchConfig)
    (s : State) : Action → Prop
  | .files action => Publication.Spares watches path watch action
  | .batcher (.deliver task) => (s.batcher.point task).isUncommitted →
      ∃ id, (s.queue.enqueuer s.enqueueCall).point = .committed id
  | _ => True

/-- What the step means for the batch that is on its way. -/
def Keeps (s : State) (action : Action) : Prop :=
  ∀ task, action = .batcher (.deliver task) →
    (s.batcher.point task).isUncommitted →
      ∃ id, (s.queue.enqueuer s.enqueueCall).point = .committed id

section Stages

variable {cfg : DaemonConfig} {fnmatchcase : String → String → Bool}
variable {watches : List WatchConfig} {s after : State} {action : Action}
variable {out : List Obs} {target : PurgeTarget} {first : ℕ}

theorem Spares.keeps {path : Path} {watch : WatchConfig}
    (h : Spares watches path watch s action) : Keeps s action := by
  rintro task rfl
  exact h

/-- A call that takes the target has no row yet. -/
theorem held_of_taken {before : State} {calls : List Batcher.Obs}
    (h : Taken before.batcher calls target.cdnName target.url)
    (hcalls : Calls before calls after) : Held first target after := by
  obtain ⟨hcalled, task, urls, hawaits, hurl⟩ := h
  cases hcalls with
  | none hsilent => exact absurd hsilent hcalled
  | one => exact .awaited hawaits hurl (by simp [Fresh])

theorem held_of_buffered {before : State} {calls : List Batcher.Obs}
    (hcalls : Calls before calls after)
    (h : target.url ∈ before.batcher.buffers target.cdnName ∨
      Taken before.batcher calls target.cdnName target.url) :
    Held first target after := by
  rcases h with hurl | htaken
  · exact .buffered (by rwa [hcalls.batcher])
  · exact held_of_taken htaken hcalls

theorem buffered_submits (hkeys : Batcher.Consistent s.batcher)
    {other : PurgeTarget} {batcher : Batcher.State}
    (hsubmits : Submits cfg s other batcher) {cdn url : String}
    (hurl : url ∈ s.batcher.buffers cdn) : url ∈ batcher.buffers cdn := by
  have hmove := Batcher.move_of_step hsubmits
  rcases Batcher.buffered_move hkeys hurl hmove with hafter | ⟨hcalled, -⟩
  · exact hafter
  · exact absurd Batcher.silent_nil hcalled

theorem buffered_recordCommit (call : ℕ) {cdn url : String}
    (hurl : url ∈ s.batcher.buffers cdn) :
    url ∈ (recordCommit cfg s call).1.buffers cdn := by
  rcases recordCommit_cases cfg s call with heq | ⟨task, -, -, hstep⟩
  · rwa [heq]
  · rcases hrecord : recordCommit cfg s call with ⟨batcher, found⟩
    rw [hrecord] at hstep
    cases Batcher.move_of_step hstep with
    | commit => exact hurl

theorem buffered_held (hkeys : Batcher.Consistent s.batcher)
    (hurl : target.url ∈ s.batcher.buffers target.cdnName)
    (hmove : Move cfg fnmatchcase watches s action after out) :
    Held first target after := by
  cases hmove with
  | files | raise | pass | finish | exec | resume | queue =>
      exact .buffered hurl
  | read _ _ _ hsubmits | submit _ _ hsubmits =>
      exact .buffered (buffered_submits hkeys hsubmits hurl)
  | batcher hown hbatcher hinterrupts hcalls =>
      exact held_of_buffered hcalls
        (Batcher.buffered_move hkeys hurl (Batcher.move_of_step hbatcher))
  | commit => exact .buffered (buffered_recordCommit _ hurl)
  | enqueueReturn hlock hcancel hpoint hqueue hbatcher hcalls =>
      exact held_of_buffered hcalls
        (Batcher.buffered_move hkeys hurl (Batcher.move_of_step hbatcher))

theorem storedRow_of_holds {db : Queue.Db} {id : ℕ} {cdn : String}
    {urls : List String} (h : Holds db id cdn urls) :
    storedRow db id = [.stored id cdn urls] := by
  obtain ⟨row, hrow, rfl, rfl⟩ := h
  simp [storedRow, hrow]

/-- The thread inserts the row of the batch, with a new key, or stores it. -/
theorem awaited_exec {call : ℕ} {queue : Queue.State}
    {found : List Queue.Obs}
    (hfirst : first ≤ s.queue.work.nextId)
    (hfresh : Fresh first (s.queue.enqueuer s.enqueueCall).point)
    (hpoint : ∀ id, call = s.enqueueCall →
      (s.queue.enqueuer call).point ≠ .committing id)
    (hqueue : Queue.step cfg.retry s.queue (.execEnqueue call) =
      some (queue, found)) :
    Fresh first (queue.enqueuer s.enqueueCall).point := by
  by_cases heq : call = s.enqueueCall
  · subst heq
    obtain ⟨-, ⟨cdn, urls, now, -, rfl⟩ | ⟨id, hid, -⟩⟩ :=
      Queue.execEnqueue_cases hqueue
    · simpa [Queue.State.gotoEnqueue, Fresh] using hfirst
    · exact absurd hid (hpoint id rfl)
  · obtain ⟨-, ⟨_, _, _, -, rfl⟩ | ⟨id, -, rfl⟩⟩ :=
      Queue.execEnqueue_cases hqueue <;>
      simpa [Queue.State.gotoEnqueue, Queue.State.commit, Ne.symm heq] using
        hfresh

theorem awaited_batcher (h : Joint s) {own : Batcher.Action}
    {batcher : Batcher.State} {found : List Batcher.Obs} {queue : Queue.State}
    (hkeeps : Keeps s (.batcher own)) (hown : isOwn own)
    (hbatcher : Batcher.step cfg s.batcher own = some (batcher, found))
    (hinterrupts : Interrupts s own queue)
    (hcalls : Calls { s with
      batcher := batcher
      queue := queue } found after)
    {task : Batcher.Task} {urls : List String}
    (hawaits : Awaits s.batcher task target.cdnName urls false)
    (hurl : target.url ∈ urls)
    (hfresh : Fresh first (s.queue.enqueuer s.enqueueCall).point) :
    Held first target after := by
  have hdeliver : own ≠ .deliver task := by
    rintro rfl
    obtain ⟨rest, hpoint⟩ := hawaits
    obtain ⟨id, hid⟩ := hkeeps task rfl
      (by simp [hpoint, Batcher.Point.isUncommitted])
    simp [hid, Fresh] at hfresh
  have hlater : Awaits batcher task target.cdnName urls false := by
    refine Batcher.awaits_move h.keys hawaits ?_ hdeliver ?_
      (Batcher.move_of_step hbatcher) <;>
    · rintro rfl
      cases hown
  have hqueue : queue = s.queue := by
    cases hinterrupts with
    | none => rfl
    | @kill other haction hpoint =>
        have hlock := h.keys.holder other hpoint
        have hlock' := h.keys.holder task
          (Batcher.isEnqueueing_of_awaits hawaits)
        obtain rfl := Option.some.inj (hlock'.symm.trans hlock)
        exact absurd haction hdeliver
  subst hqueue
  cases hcalls with
  | none => exact .awaited hlater hurl hfresh
  | one => exact .awaited hlater hurl (by simp [Fresh])

theorem awaited_commit (h : Joint s) {call id : ℕ} {queue : Queue.State}
    {found : List Queue.Obs}
    (hpoint : (s.queue.enqueuer call).point = .committing id)
    (hfirst : first ≤ s.queue.work.nextId)
    (hqueue : Queue.step cfg.retry s.queue (.execEnqueue call) =
      some (queue, found))
    {task : Batcher.Task} {urls : List String}
    (hawaits : Awaits s.batcher task target.cdnName urls false)
    (hurl : target.url ∈ urls)
    (hfresh : Fresh first (s.queue.enqueuer s.enqueueCall).point) :
    Held first target { s with
        queue := queue
        batcher := (recordCommit cfg s call).1 } ∨
      Stored first target (storedRow s.queue.work id) := by
  by_cases heq : call = s.enqueueCall
  · subst heq
    obtain ⟨-, hserving⟩ := h.serving hawaits
    rw [hpoint] at hserving hfresh
    exact .inr ⟨id, urls, by simp [storedRow_of_holds hserving.1], hurl,
      hfresh⟩
  · refine .inl ?_
    have hrecord : recordCommit cfg s call = (s.batcher, []) := if_neg heq
    rw [hrecord]
    have hnext := awaited_exec hfirst hfresh
      (fun _ hsame => absurd hsame heq) hqueue
    exact .awaited hawaits hurl hnext

/-- What the batcher holds stays with it until its row is stored. -/
theorem held_move (h : Joint s) (hfirst : first ≤ s.queue.work.nextId)
    (hkeeps : Keeps s action) (hheld : Held first target s)
    (hmove : Move cfg fnmatchcase watches s action after out) :
    Held first target after ∨ Stored first target out := by
  cases hheld with
  | buffered hurl => exact .inl (buffered_held h.keys hurl hmove)
  | @awaited task urls hawaits hurl hfresh =>
      have hsubmitted : ∀ {other batcher}, Submits cfg s other batcher →
          Awaits batcher task target.cdnName urls false := fun hsubmits =>
        Batcher.awaits_move h.keys hawaits (by simp) (by simp) (by simp)
          (Batcher.move_of_step hsubmits)
      cases hmove with
      | files | raise | pass | finish =>
          exact .inl (.awaited hawaits hurl hfresh)
      | read _ _ _ hsubmits | submit _ _ hsubmits =>
          exact .inl (.awaited (hsubmitted hsubmits) hurl hfresh)
      | batcher hown hbatcher hinterrupts hcalls =>
          exact .inl (awaited_batcher h hkeeps hown hbatcher hinterrupts hcalls
            hawaits hurl hfresh)
      | exec hpoint hqueue =>
          have hnext := awaited_exec hfirst hfresh (fun id _ => hpoint id)
            hqueue
          exact .inl (.awaited hawaits hurl hnext)
      | commit hpoint hqueue =>
          refine (awaited_commit h hpoint hfirst hqueue hawaits hurl
            hfresh).imp_right ?_
          rintro ⟨id, urls, hstored, hrest⟩
          exact ⟨id, urls, by simp [hstored], hrest⟩
      | resume hlock hcancel hpoint hqueue =>
          refine .inl (.awaited hawaits hurl ?_)
          obtain ⟨-, -, ⟨id, hid, rfl⟩ | ⟨id, hid, -⟩⟩ :=
            Queue.resumeEnqueue_cases hqueue
          · rw [hid] at hfresh
            simpa [Queue.State.gotoEnqueue, Fresh] using hfresh
          · exact absurd hid (hpoint id)
      | enqueueReturn hlock hcancel hpoint =>
          simp [hpoint, Fresh] at hfresh
      | queue hworker hqueue =>
          refine .inl (.awaited hawaits hurl ?_)
          rwa [enqueuer_of_isWorker hworker hqueue]

theorem held_of_reaches {trace : List Obs} (h : Joint s)
    (hfirst : first ≤ s.queue.work.nextId) (hheld : Held first target s)
    (hrun : Reaches (step cfg fnmatchcase watches) Keeps s trace after) :
    Held first target after ∨ Stored first target trace := by
  refine hrun.invariant_along (fun trace later =>
    Held first target later ∨ Stored first target trace) (.inl hheld) ?_
  intro trace before action next out hearlier hstage hkeeps hstep
  have hjoint := joint_of_reaches h hearlier
  rcases hstage with hheld | ⟨id, urls, hstored, hlast⟩
  · refine (held_move hjoint (hfirst.trans (onward_of_run h hearlier).nextId)
      hkeeps hheld (move_of_step hjoint.keys hstep)).imp_right ?_
    rintro ⟨id, urls, hstored, hlast⟩
    exact ⟨id, urls, List.mem_append_right _ hstored, hlast⟩
  · exact .inr ⟨id, urls, List.mem_append_left _ hstored, hlast⟩

end Stages

/-! ## Before the batcher -/

section Waiting

variable {cfg : DaemonConfig} {fnmatchcase : String → String → Bool}
variable {watches : List WatchConfig} {s after : State} {action : Action}
variable {out : List Obs} {target : PurgeTarget} {first : ℕ}
variable {start : Watcher.State} {kind : EventKind} {path rel : Path}
variable {watch : WatchConfig} {files files' : Publication.State}

theorem submitLock_of_submits {batcher : Batcher.State}
    (hsubmits : Submits cfg s target batcher) :
    batcher.point (.submit (s.submitCall + 1)) = .submitLock target := by
  cases Batcher.move_of_step hsubmits with
  | submitCall => simp

end Waiting

/-! ## Whole runs -/

section Runs

variable {cfg : DaemonConfig} {fnmatchcase : String → String → Bool}
variable {watches : List WatchConfig} {start s later : State}
variable {action : Action} {trace out : List Obs} {target : PurgeTarget}
variable {first : ℕ} {kind : EventKind} {path rel : Path}
variable {watch : WatchConfig} {allowed : State → Action → Prop}

theorem files_of_reaches (h : Starts cfg start)
    (hrun : Reaches (step cfg fnmatchcase watches) allowed start trace s) :
    Reaches (Publication.step fnmatchcase watches) (fun _ _ => True)
      start.files (trace.filterMap seenFiles) s.files :=
  hrun.project State.files seenFiles fun hearlier _ hstep =>
    (move_of_step (joint_of_reaches h.joint hearlier).keys
      hstep).files_run.mono fun _ _ _ => trivial

/-- What has been stored is in the table that a crash leaves. -/
theorem holds_of_stored (h : Joint start)
    (hrun : Reaches (step cfg fnmatchcase watches) allowed start trace s)
    {id : ℕ} {cdn : String} {urls : List String}
    (hmem : .stored id cdn urls ∈ trace) :
    Holds s.queue.committed id cdn urls := by
  refine hrun.invariant_along (fun trace s => ∀ {id cdn urls},
    .stored id cdn urls ∈ trace → Holds s.queue.committed id cdn urls)
    (by simp) ?_ hmem
  intro trace before action after out hearlier hold _ hstep id cdn urls hmem
  have hjoint := joint_of_reaches h hearlier
  have hmove := move_of_step hjoint.keys hstep
  rcases List.mem_append.mp hmem with hmem | hmem
  · exact (onward_of_reaches hjoint.sound hjoint.running
      hmove.queue_run).2.committed (hold hmem)
  · cases hmove with
    | @commit call id' queue found hpoint hqueue =>
        have hrow : Obs.stored id cdn urls ∈
            storedRow before.queue.work id' := by simpa using hmem
        unfold storedRow at hrow
        split at hrow
        · rename_i row hwork
          obtain ⟨rfl, rfl, rfl⟩ : id = id' ∧ cdn = _ ∧ urls = _ := by
            simpa using hrow
          obtain ⟨-, ⟨_, _, _, hinserting, -⟩ | ⟨_, -, rfl⟩⟩ :=
            Queue.execEnqueue_cases hqueue
          · simp [hinserting] at hpoint
          · exact ⟨row, hwork, rfl, rfl⟩
        · simp at hrow
    | _ => simp at hmem

end Runs

section Samples

/-- A queue that has been started on an empty table. -/
def sampleQueue : Queue.State where
  now := 0
  phase := .running
  work := ⟨fun _ => none, 1⟩
  committed := ⟨fun _ => none, 1⟩
  worker := fun _ => ⟨.idle, true⟩
  enqueuer := fun _ => ⟨.absent, false⟩

def sampleStart : State where
  files := Publication.sampleStart
  pipeline := .reading
  submitCall := 0
  batcher := Batcher.init 0
  enqueueCall := 0
  queue := sampleQueue

/-- Every target is a batch. -/
def sampleConfig : DaemonConfig := { batchMaxSize := 1 }

theorem starts_sample (cfg : DaemonConfig) : Starts cfg sampleStart where
  idle := by decide
  pipeline := rfl
  batcher := ⟨0, rfl⟩
  queue := by
    have hboot : execute (Queue.step cfg.retry) (fun _ _ => True)
        (Queue.init 0) [.start, .boot, .boot, .boot, .boot] =
          some (sampleQueue, [.started, .committed []]) := rfl
    exact ⟨0, _, Reaches.refl.execute hboot⟩
  running := rfl
  free := fun _ _ => rfl

/-- Nothing but file operations without links and tasks that go on. -/
def isPlain : Action → Bool
  | .files action => action.links = none
  | .batcher (.deliver _) | .batcher .shutdown => false
  | _ => true

end Samples

end MirrorMirage.Daemon
