import MirrorMirage.Core.Composition
import MirrorMirage.Daemon.Moves
import MirrorMirage.Queue.Lifecycle

/-!
# The daemon's runs, component by component

Each step of the daemon is a run of the batcher, of the queue and of the files
with their watcher (`Move.batcher_run`, `Move.queue_run`, `Move.files_run`), so
that what holds of every run of a component holds of the component inside the
daemon.
-/

namespace MirrorMirage.Daemon

open Function (update)
open MirrorMirage.Run

def seenFiles : Obs → Option Publication.Obs
  | .files obs => some obs
  | _ => none

def seenBatcher : Obs → Option Batcher.Obs
  | .batcher obs => some obs
  | _ => none

def seenQueue : Obs → Option Queue.Obs
  | .queue obs => some obs
  | _ => none

section Seen

variable (obs : Publication.Obs) (obs' : Batcher.Obs) (obs'' : Queue.Obs)
variable (db : Queue.Db) (id : ℕ)

@[simp] theorem seenFiles_files : seenFiles (.files obs) = some obs := rfl
@[simp] theorem seenFiles_batcher : seenFiles (.batcher obs') = none := rfl
@[simp] theorem seenFiles_queue : seenFiles (.queue obs'') = none := rfl
@[simp] theorem seenBatcher_files : seenBatcher (.files obs) = none := rfl
@[simp] theorem seenBatcher_batcher :
    seenBatcher (.batcher obs') = some obs' := rfl
@[simp] theorem seenBatcher_queue : seenBatcher (.queue obs'') = none := rfl
@[simp] theorem seenQueue_files : seenQueue (.files obs) = none := rfl
@[simp] theorem seenQueue_batcher : seenQueue (.batcher obs') = none := rfl
@[simp] theorem seenQueue_queue : seenQueue (.queue obs'') = some obs'' := rfl

@[simp] theorem seenFiles_storedRow :
    (storedRow db id).filterMap seenFiles = [] := by
  unfold storedRow; split <;> rfl
@[simp] theorem seenBatcher_storedRow :
    (storedRow db id).filterMap seenBatcher = [] := by
  unfold storedRow; split <;> rfl
@[simp] theorem seenQueue_storedRow :
    (storedRow db id).filterMap seenQueue = [] := by
  unfold storedRow; split <;> rfl

variable {obs obs' obs''} {trace : List Obs}

theorem mem_seenFiles :
    obs ∈ trace.filterMap seenFiles ↔ .files obs ∈ trace := by
  rw [List.mem_filterMap]
  refine ⟨?_, fun hmem => ⟨_, hmem, rfl⟩⟩
  rintro ⟨seen, hmem, heq⟩
  cases seen <;> cases heq
  exact hmem

theorem mem_seenBatcher :
    obs' ∈ trace.filterMap seenBatcher ↔ .batcher obs' ∈ trace := by
  rw [List.mem_filterMap]
  refine ⟨?_, fun hmem => ⟨_, hmem, rfl⟩⟩
  rintro ⟨seen, hmem, heq⟩
  cases seen <;> cases heq
  exact hmem

theorem mem_seenQueue :
    obs'' ∈ trace.filterMap seenQueue ↔ .queue obs'' ∈ trace := by
  rw [List.mem_filterMap]
  refine ⟨?_, fun hmem => ⟨_, hmem, rfl⟩⟩
  rintro ⟨seen, hmem, heq⟩
  cases seen <;> cases heq
  exact hmem

end Seen

/-- The process goes on. -/
def serves : Queue.Action → Bool
  | .start | .boot | .crash => false
  | _ => true

theorem serves_of_isWorker {action : Queue.Action} (h : isWorker action) :
    serves action := by
  cases action <;> first | rfl | cases h

section Move

variable {cfg : DaemonConfig} {fnmatchcase : String → String → Bool}
variable {watches : List WatchConfig} {s after : State} {action : Action}
variable {out : List Obs}

theorem Calls.batcher {s after : State} {out : List Batcher.Obs}
    (h : Calls s out after) : after.batcher = s.batcher := by
  cases h <;> rfl

theorem Calls.files {s after : State} {out : List Batcher.Obs}
    (h : Calls s out after) : after.files = s.files := by
  cases h <;> rfl

theorem Calls.pipeline {s after : State} {out : List Batcher.Obs}
    (h : Calls s out after) :
    after.pipeline = s.pipeline ∧ after.submitCall = s.submitCall := by
  cases h <;> exact ⟨rfl, rfl⟩

theorem recordCommit_cases (cfg : DaemonConfig) (s : State) (call : ℕ) :
    recordCommit cfg s call = (s.batcher, []) ∨
    ∃ task, call = s.enqueueCall ∧ s.batcher.lock = some task ∧
      Batcher.step cfg s.batcher (.commit task) =
        some (recordCommit cfg s call) := by
  unfold recordCommit
  split
  · split
    · rename_i result hresult
      obtain ⟨task, hlock, hstep⟩ := Option.bind_eq_some_iff.mp hresult
      exact .inr ⟨task, ‹_›, hlock, hstep⟩
    · exact .inl rfl
  · exact .inl rfl

/-- What the batcher does in a step of the daemon. -/
def BatcherMay (action : Action) (own : Batcher.Action) : Prop :=
  own.isDaemon ∧ (own = .shutdown → action = .batcher .shutdown)

theorem isDaemon_of_isOwn {own : Batcher.Action} (hown : isOwn own) :
    own.isDaemon := by
  cases own <;> first | rfl | cases hown

theorem Move.batcher_run (h : Move cfg fnmatchcase watches s action after out) :
    Reaches (Batcher.step cfg) (fun _ => BatcherMay action) s.batcher
      (out.filterMap seenBatcher) after.batcher := by
  have hone : ∀ {own batcher found}, BatcherMay action own →
      Batcher.step cfg s.batcher own = some (batcher, found) →
        Reaches (Batcher.step cfg) (fun _ => BatcherMay action) s.batcher
          found batcher := fun hmay hstep => Reaches.refl.snoc hmay hstep
  cases h with
  | files | raise | pass | finish | exec | resume | queue =>
      simpa [List.filterMap_map, Function.comp_def] using Reaches.refl
  | read hreading hfiles htargets hsubmits =>
      simpa [List.filterMap_map, Function.comp_def] using
        hone ⟨rfl, by simp⟩ hsubmits
  | submit hpipeline hreturned hsubmits => exact hone ⟨rfl, by simp⟩ hsubmits
  | batcher hown hbatcher hinterrupts hcalls =>
      rw [hcalls.batcher]
      simpa [List.filterMap_map, Function.comp_def] using
        hone ⟨isDaemon_of_isOwn hown, fun heq => by rw [heq]⟩ hbatcher
  | @commit call id =>
      rcases recordCommit_cases cfg s call with heq | ⟨task, -, -, hcommit⟩
      · simpa [List.filterMap_map, Function.comp_def, heq] using Reaches.refl
      · rcases hrecord : recordCommit cfg s call with ⟨batcher, found⟩
        rw [hrecord] at hcommit
        simpa [List.filterMap_map, Function.comp_def] using
          hone ⟨rfl, by simp⟩ hcommit
  | enqueueReturn hlock hcancel hpoint hqueue hbatcher hcalls =>
      rw [hcalls.batcher]
      simpa [List.filterMap_map, Function.comp_def] using
        hone ⟨rfl, by simp⟩ hbatcher

/-- What the batcher hands over is a step of the queue, or none. -/
theorem Calls.queue_run {retry : RetryConfig} {s after : State}
    {out : List Batcher.Obs} (h : Calls s out after) :
    Reaches (Queue.step retry) (fun _ own => serves own) s.queue []
      after.queue := by
  cases h with
  | none => exact .refl
  | @one before cdn urls time hout hrunning habsent =>
      have hstep : Queue.step retry s.queue
          (.enqueue (s.enqueueCall + 1) cdn urls) = some _ :=
        if_pos ⟨hrunning, habsent⟩
      exact Reaches.refl.snoc rfl hstep

theorem Move.queue_run (h : Move cfg fnmatchcase watches s action after out) :
    Reaches (Queue.step cfg.retry) (fun _ own => serves own) s.queue
      (out.filterMap seenQueue) after.queue := by
  have hone : ∀ {own queue found}, serves own →
      Queue.step cfg.retry s.queue own = some (queue, found) →
        Reaches (Queue.step cfg.retry) (fun _ own => serves own) s.queue
          found queue := fun hserves hstep => Reaches.refl.snoc hserves hstep
  cases h with
  | files | raise | pass | read | finish | submit =>
      simpa [List.filterMap_map, Function.comp_def] using Reaches.refl
  | batcher hown hbatcher hinterrupts hcalls =>
      cases hinterrupts with
      | none =>
          simpa [List.filterMap_map, Function.comp_def] using hcalls.queue_run
      | kill =>
          have hkill : Queue.step cfg.retry s.queue
              (.killEnqueue s.enqueueCall) = some _ := rfl
          simpa [List.filterMap_map, Function.comp_def] using
            (hone rfl hkill).trans hcalls.queue_run
  | exec hpoint hqueue =>
      simpa [List.filterMap_map, Function.comp_def] using hone rfl hqueue
  | commit hpoint hqueue =>
      simpa [List.filterMap_map, Function.comp_def] using hone rfl hqueue
  | resume hlock hcancel hpoint hqueue =>
      exact hone rfl hqueue
  | enqueueReturn hlock hcancel hpoint hqueue hbatcher hcalls =>
      simpa [List.filterMap_map, Function.comp_def] using
        (hone rfl hqueue).trans hcalls.queue_run
  | queue hworker hqueue =>
      simpa [List.filterMap_map, Function.comp_def] using
        hone (serves_of_isWorker hworker) hqueue

/-- A step of the files, if any, is the one that the action names. -/
theorem Move.files_run (h : Move cfg fnmatchcase watches s action after out) :
    Reaches (Publication.step fnmatchcase watches)
      (fun _ own => own = .take ∨ action = .files own) s.files
      (out.filterMap seenFiles) after.files := by
  have hone : ∀ {own files found}, own = .take ∨ action = .files own →
      Publication.step fnmatchcase watches s.files own = some (files, found) →
        Reaches (Publication.step fnmatchcase watches)
          (fun _ own => own = .take ∨ action = .files own) s.files found
            files :=
    fun hmay hstep => Reaches.refl.snoc hmay hstep
  cases h with
  | files haction hfiles =>
      simpa [List.filterMap_map, Function.comp_def] using
        hone (.inr rfl) hfiles
  | raise hreading hfiles | pass hreading hfiles | read hreading hfiles =>
      simpa [List.filterMap_map, Function.comp_def] using
        hone (.inl rfl) hfiles
  | batcher hown hbatcher hinterrupts hcalls =>
      rw [hcalls.files]
      simpa [List.filterMap_map, Function.comp_def] using Reaches.refl
  | enqueueReturn hlock hcancel hpoint hqueue hbatcher hcalls =>
      rw [hcalls.files]
      simpa [List.filterMap_map, Function.comp_def] using Reaches.refl
  | _ => simpa [List.filterMap_map, Function.comp_def] using Reaches.refl

end Move

end MirrorMirage.Daemon
