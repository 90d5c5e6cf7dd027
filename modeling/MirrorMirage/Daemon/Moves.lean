import MirrorMirage.Batcher.Passage
import MirrorMirage.Daemon.Model
import MirrorMirage.Queue.Moves

/-!
# What one step of the daemon can do

`Move` lists the accepted actions with the steps of the components that they
are, and `move_of_step` reads it off `step`.
-/

namespace MirrorMirage.Daemon

open Function (update)
open MirrorMirage.Batcher (Awaits Silent Enqueues)

/-! ## Moves -/

/-- The `enqueue` that the batcher has called, if any, is one of the queue. -/
inductive Calls (s : State) (out : List Batcher.Obs) : State → Prop where
  | none (hsilent : Silent out) : Calls s out s
  | one {before : List Batcher.Obs} {cdn : String} {urls : List String}
      {time : ℚ} (hout : out = before ++ [.enqueued cdn urls time])
      (hrunning : s.queue.phase = .running)
      (habsent : (s.queue.enqueuer (s.enqueueCall + 1)).point = .absent) :
      Calls s out { s with
        queue := { s.queue with
          enqueuer := update s.queue.enqueuer (s.enqueueCall + 1)
            ⟨.inserting cdn urls s.queue.now, true⟩ }
        enqueueCall := s.enqueueCall + 1 }

/-- The batcher and the queue agree on the call. -/
theorem Calls.agree {earlier later : Batcher.State} {s after : State}
    {out : List Batcher.Obs} (h : Calls s out after)
    (henqueues : Enqueues earlier later out) :
    (after = s ∧ Silent out ∧ ∀ {task cdn urls committed},
      Awaits later task cdn urls committed →
        Awaits earlier task cdn urls committed) ∨
    ∃ cdn urls, after = { s with
        queue := { s.queue with
          enqueuer := update s.queue.enqueuer (s.enqueueCall + 1)
            ⟨.inserting cdn urls s.queue.now, true⟩ }
        enqueueCall := s.enqueueCall + 1 } ∧
      (∃ time, .enqueued cdn urls time ∈ out) ∧
      ∀ {task cdn' urls' committed}, Awaits later task cdn' urls' committed →
        cdn' = cdn ∧ urls' = urls ∧ committed = false := by
  cases henqueues with
  | none hsilent hawaits =>
      cases h with
      | none => exact .inl ⟨rfl, hsilent, hawaits⟩
      | one hout => exact absurd (hout ▸ List.mem_concat_self) (hsilent _ _ _)
  | one hout hsilent hawaits =>
      cases h with
      | none hsilent' =>
          exact absurd (hout ▸ List.mem_concat_self) (hsilent' _ _ _)
      | one hout' hrunning habsent =>
          have hlast := List.append_inj_right' (hout'.symm.trans hout) rfl
          cases hlast
          exact .inr ⟨_, _, rfl, ⟨_, hout ▸ List.mem_concat_self⟩, hawaits⟩

/-- The queue after a `CancelledError` in the batcher. -/
inductive Interrupts (s : State) (action : Batcher.Action) :
    Queue.State → Prop where
  | none (hfree : ∀ task, action = .deliver task →
      (s.batcher.point task).isEnqueueing = false) :
      Interrupts s action s.queue
  | kill {task : Batcher.Task} (haction : action = .deliver task)
      (hpoint : (s.batcher.point task).isEnqueueing) :
      Interrupts s action { s.queue with
        enqueuer := update s.queue.enqueuer s.enqueueCall
          { s.queue.enqueuer s.enqueueCall with alive := false } }

/-- The call of `submit` for the next target. -/
def Submits (cfg : DaemonConfig) (s : State) (target : PurgeTarget)
    (batcher : Batcher.State) : Prop :=
  Batcher.step cfg s.batcher (.submit (s.submitCall + 1) target) =
    some (batcher, [])

section Machine

variable (cfg : DaemonConfig)
variable (fnmatchcase : String → String → Bool) (watches : List WatchConfig)

/-- The accepted actions with the steps of the components. -/
inductive Move (s : State) : Action → State → List Obs → Prop where
  | files {action : Publication.Action} {files : Publication.State}
      {out : List Publication.Obs} (haction : action ≠ .take)
      (hfiles : Publication.step fnmatchcase watches s.files action =
        some (files, out)) :
      Move s (.files action) { s with files := files } (out.map .files)
  | raise {files : Publication.State} {out : List Publication.Obs}
      (hreading : s.pipeline = .reading)
      (hfiles : Publication.step fnmatchcase watches s.files .take =
        some (files, out)) (hraised : .raised ∈ out) :
      Move s .read { s with
        files := files
        pipeline := .ended } (out.map .files)
  | pass {files : Publication.State} {out : List Publication.Obs}
      (hreading : s.pipeline = .reading)
      (hfiles : Publication.step fnmatchcase watches s.files .take =
        some (files, out)) (htargets : targets out = []) :
      Move s .read { s with
        files := files
        pipeline := .reading } (out.map .files)
  | read {files : Publication.State} {out : List Publication.Obs}
      {target : PurgeTarget} {rest : List PurgeTarget}
      {batcher : Batcher.State} (hreading : s.pipeline = .reading)
      (hfiles : Publication.step fnmatchcase watches s.files .take =
        some (files, out)) (htargets : targets out = target :: rest)
      (hsubmits : Submits cfg s target batcher) :
      Move s .read { s with
        files := files
        pipeline := .submitting target rest
        submitCall := s.submitCall + 1
        batcher := batcher } (out.map .files)
  | finish {last : PurgeTarget} (hpipeline : s.pipeline = .submitting last [])
      (hreturned : s.batcher.point (.submit s.submitCall) =
        .ended .returned) :
      Move s .submitted { s with pipeline := .reading } []
  | submit {last target : PurgeTarget} {rest : List PurgeTarget}
      {batcher : Batcher.State}
      (hpipeline : s.pipeline = .submitting last (target :: rest))
      (hreturned : s.batcher.point (.submit s.submitCall) = .ended .returned)
      (hsubmits : Submits cfg s target batcher) :
      Move s .submitted { s with
        pipeline := .submitting target rest
        submitCall := s.submitCall + 1
        batcher := batcher } []
  | batcher {action : Batcher.Action} {batcher : Batcher.State}
      {out : List Batcher.Obs} {queue : Queue.State} {after : State}
      (hown : isOwn action)
      (hbatcher : Batcher.step cfg s.batcher action = some (batcher, out))
      (hinterrupts : Interrupts s action queue)
      (hcalls : Calls { s with
        batcher := batcher
        queue := queue } out after) :
      Move s (.batcher action) after (out.map .batcher)
  | exec {call : ℕ} {queue : Queue.State} {out : List Queue.Obs}
      (hpoint : ∀ id, (s.queue.enqueuer call).point ≠ .committing id)
      (hqueue : Queue.step cfg.retry s.queue (.execEnqueue call) =
        some (queue, out)) :
      Move s (.exec call) { s with queue := queue } (out.map .queue)
  | commit {call id : ℕ} {queue : Queue.State} {out : List Queue.Obs}
      (hpoint : (s.queue.enqueuer call).point = .committing id)
      (hqueue : Queue.step cfg.retry s.queue (.execEnqueue call) =
        some (queue, out)) :
      Move s (.exec call) { s with
        queue := queue
        batcher := (recordCommit cfg s call).1 }
        (out.map .queue ++ storedRow s.queue.work id ++
          (recordCommit cfg s call).2.map .batcher)
  | resume {task : Batcher.Task} {queue : Queue.State}
      (hlock : s.batcher.lock = some task)
      (hcancel : s.batcher.cancelling task = false)
      (hpoint : ∀ id, (s.queue.enqueuer s.enqueueCall).point ≠ .committed id)
      (hqueue : Queue.step cfg.retry s.queue (.resumeEnqueue s.enqueueCall) =
        some (queue, [])) :
      Move s .resume { s with queue := queue } []
  | enqueueReturn {task : Batcher.Task} {id : ℕ} {queue : Queue.State}
      {batcher : Batcher.State}
      {returned : List Batcher.Obs} {after : State}
      (hlock : s.batcher.lock = some task)
      (hcancel : s.batcher.cancelling task = false)
      (hpoint : (s.queue.enqueuer s.enqueueCall).point = .committed id)
      (hqueue : Queue.step cfg.retry s.queue (.resumeEnqueue s.enqueueCall) =
        some (queue, []))
      (hbatcher : Batcher.step cfg s.batcher (.enqueueReturn task) =
        some (batcher, returned))
      (hcalls : Calls { s with
        queue := queue
        batcher := batcher } returned after) :
      Move s .resume after (returned.map .batcher)
  | queue {action : Queue.Action} {queue : Queue.State} {out : List Queue.Obs}
      (hworker : isWorker action)
      (hqueue : Queue.step cfg.retry s.queue action = some (queue, out)) :
      Move s (.queue action) { s with queue := queue } (out.map .queue)

end Machine

section Step

variable {cfg : DaemonConfig} {fnmatchcase : String → String → Bool}
variable {watches : List WatchConfig} {s after : State} {action : Action}
variable {out : List Obs}

theorem enqueueAll_of_silent {calls : List Batcher.Obs}
    (hsilent : Silent calls) (rest : List Batcher.Obs) :
    enqueueAll cfg s (calls ++ rest) = enqueueAll cfg s rest := by
  induction calls with
  | nil => rfl
  | cons call calls ih =>
      have hcalls : Silent calls := fun cdn urls time hmem =>
        hsilent cdn urls time (List.mem_cons_of_mem call hmem)
      cases call with
      | enqueued cdn urls time => exact absurd (by simp) (hsilent cdn urls time)
      | _ => exact ih hcalls

theorem calls_of_enqueueAll {earlier later : Batcher.State}
    {calls : List Batcher.Obs} (h : Enqueues earlier later calls)
    (heq : enqueueAll cfg s calls = some after) : Calls s calls after := by
  cases h with
  | none hsilent =>
      rw [← List.append_nil calls, enqueueAll_of_silent hsilent] at heq
      cases heq
      exact .none hsilent
  | one hout hsilent =>
      rw [hout, enqueueAll_of_silent hsilent] at heq
      obtain ⟨result, hresult, hafter⟩ := Option.bind_eq_some_iff.mp heq
      simp only [Queue.step] at hresult
      split at hresult
      · rename_i hguard
        cases hresult
        cases hafter
        exact .one hout hguard.1 hguard.2
      · cases hresult

theorem interrupts_of_interrupt {action : Batcher.Action}
    {queue : Queue.State} (heq : interrupt cfg s action = some queue) :
    Interrupts s action queue := by
  cases action with
  | deliver task =>
      simp only [interrupt] at heq
      split at heq
      · rename_i hpoint
        cases heq
        exact .kill rfl (by simp [hpoint, Batcher.Point.isEnqueueing])
      · rename_i hpoint
        cases heq
        refine .none ?_
        rintro task ⟨⟩
        cases hcase : s.batcher.point task with
        | enqueueing cdn urls committed rest =>
            exact absurd hcase (hpoint cdn urls committed rest)
        | _ => rfl
  | _ =>
      cases heq
      exact .none (by simp)

/-- The next `submit` call, or the end of the inner loop. -/
theorem submitNext_cases {rest : List PurgeTarget}
    (heq : submitNext cfg s rest = some after) :
    (rest = [] ∧ after = { s with pipeline := .reading }) ∨
    ∃ target rest' batcher, rest = target :: rest' ∧
      Submits cfg s target batcher ∧
      after = { s with
        pipeline := .submitting target rest'
        submitCall := s.submitCall + 1
        batcher := batcher } := by
  cases rest with
  | nil =>
      cases heq
      exact .inl ⟨rfl, rfl⟩
  | cons target rest =>
      obtain ⟨⟨batcher, out⟩, hbatcher, hafter⟩ :=
        Option.map_eq_some_iff.mp heq
      have hout : out = [] := by
        simp only [Batcher.step] at hbatcher
        split at hbatcher
        · exact (Prod.ext_iff.mp (Option.some.inj hbatcher)).2.symm
        · cases hbatcher
      rw [hout] at hbatcher
      exact .inr ⟨target, rest, batcher, rfl, hbatcher, hafter.symm⟩

theorem move_of_read (hreading : s.pipeline = .reading)
    {files : Publication.State} {found : List Publication.Obs}
    (hfiles : Publication.step fnmatchcase watches s.files .take =
      some (files, found))
    (hnext : (if .raised ∈ found then
        some { s with
          files := files
          pipeline := .ended }
      else submitNext cfg { s with files := files } (targets found)) =
        some after) :
    Move cfg fnmatchcase watches s .read after (found.map .files) := by
  split at hnext
  · cases hnext
    exact .raise hreading hfiles ‹_›
  · rcases submitNext_cases hnext with
      ⟨htargets, rfl⟩ | ⟨target, rest, batcher, htargets, hsubmits, rfl⟩
    · exact .pass hreading hfiles htargets
    · exact .read hreading hfiles htargets hsubmits

theorem move_of_exec {call : ℕ} (hexec : exec cfg s call = some (after, out)) :
    Move cfg fnmatchcase watches s (.exec call) after out := by
  obtain ⟨⟨queue, found⟩, hqueue, heq⟩ := Option.map_eq_some_iff.mp hexec
  split at heq
  · cases heq
    exact .commit ‹_› hqueue
  · cases heq
    exact .exec ‹_› hqueue

theorem move_of_resume (hkeys : Batcher.Consistent s.batcher)
    (hresume : resume cfg s = some (after, out)) :
    Move cfg fnmatchcase watches s .resume after out := by
  unfold resume at hresume
  split at hresume
  · cases hresume
  · rename_i task hlock
    split at hresume
    · cases hresume
    · rename_i hcancel
      have hcancel' : s.batcher.cancelling task = false := by
        simpa using hcancel
      obtain ⟨⟨queue, found⟩, hqueue, heq⟩ :=
        Option.bind_eq_some_iff.mp hresume
      split at heq
      · rename_i hpoint
        obtain ⟨⟨batcher, returned⟩, hbatcher, heq⟩ :=
          Option.bind_eq_some_iff.mp heq
        obtain ⟨later, hlater, heq⟩ := Option.map_eq_some_iff.mp heq
        cases heq
        have henqueues := Batcher.enqueues_of_move hkeys (by simp)
          (Batcher.move_of_step hbatcher)
        obtain ⟨rfl, -⟩ := Queue.resumeEnqueue_cases hqueue
        exact .enqueueReturn hlock hcancel' hpoint hqueue hbatcher
          (calls_of_enqueueAll henqueues hlater)
      · cases heq
        obtain ⟨rfl, -⟩ := Queue.resumeEnqueue_cases hqueue
        exact .resume hlock hcancel' ‹_› hqueue

theorem move_of_step (hkeys : Batcher.Consistent s.batcher)
    (hstep : step cfg fnmatchcase watches s action = some (after, out)) :
    Move cfg fnmatchcase watches s action after out := by
  cases action with
  | files action =>
      simp only [step] at hstep
      split at hstep
      · cases hstep
      · obtain ⟨⟨files, found⟩, hfiles, heq⟩ := Option.map_eq_some_iff.mp hstep
        cases heq
        exact .files ‹_› hfiles
  | read =>
      simp only [step] at hstep
      split at hstep
      · rename_i hguard
        obtain ⟨⟨files, found⟩, hfiles, heq⟩ :=
          Option.bind_eq_some_iff.mp hstep
        obtain ⟨later, hlater, heq⟩ := Option.map_eq_some_iff.mp heq
        cases heq
        exact move_of_read hguard.1 hfiles hlater
      · cases hstep
  | submitted =>
      simp only [step] at hstep
      split at hstep
      · rename_i last rest hpipeline
        split at hstep
        · obtain ⟨later, hlater, heq⟩ := Option.map_eq_some_iff.mp hstep
          cases heq
          rcases submitNext_cases hlater with
            ⟨rfl, rfl⟩ | ⟨target, rest', batcher, rfl, hsubmits, rfl⟩
          · exact .finish hpipeline ‹_›
          · exact .submit hpipeline ‹_› hsubmits
        · cases hstep
      · cases hstep
  | batcher action =>
      simp only [step] at hstep
      split at hstep
      · rename_i hown
        obtain ⟨⟨batcher, found⟩, hbatcher, heq⟩ :=
          Option.bind_eq_some_iff.mp hstep
        obtain ⟨queue, hqueue, heq⟩ := Option.bind_eq_some_iff.mp heq
        obtain ⟨later, hlater, heq⟩ := Option.map_eq_some_iff.mp heq
        cases heq
        have hcommit : ∀ task, action ≠ .commit task := by
          rintro task rfl
          cases hown
        have henqueues := Batcher.enqueues_of_move hkeys hcommit
          (Batcher.move_of_step hbatcher)
        exact .batcher hown hbatcher (interrupts_of_interrupt hqueue)
          (calls_of_enqueueAll henqueues hlater)
      · cases hstep
  | exec call => exact move_of_exec hstep
  | resume => exact move_of_resume hkeys hstep
  | queue action =>
      simp only [step] at hstep
      split at hstep
      · obtain ⟨⟨queue, found⟩, hqueue, heq⟩ :=
          Option.map_eq_some_iff.mp hstep
        cases heq
        exact .queue ‹_› hqueue
      · cases hstep

end Step

end MirrorMirage.Daemon
