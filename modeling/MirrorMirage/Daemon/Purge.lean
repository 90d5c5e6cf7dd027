import MirrorMirage.Daemon.Progress
import MirrorMirage.Queue.Service

/-!
# From a change of a file to the answer of a provider

The daemon at rest leaves the rest to the workers.  What its own steps and one
worker can do together closes every job of the CDN, and so every change that
is due.
-/

namespace MirrorMirage.Daemon

open MirrorMirage.Run
open MirrorMirage.Providers (PurgeResult)
open MirrorMirage.Publication (Asked Due)

section Works

variable {cfg : DaemonConfig} {fnmatchcase : String → String → Bool}
variable {watches : List WatchConfig} {s after : State} {action : Action}
variable {trace out : List Obs} {cdn : String}
variable {answer : Queue.State → Queue.Job → Except String PurgeResult}

theorem isWorker_of_serving {queue : Queue.State} {own : Queue.Action}
    (h : Queue.serving answer cdn queue own) : isWorker own := by
  cases own <;> first | rfl | cases h

/-- A run of the worker is one of the daemon. -/
theorem reaches_of_serving {more : List Queue.Obs} {final : Queue.State}
    (hrun : Reaches (Queue.step cfg.retry) (Queue.serving answer cdn) s.queue
      more final) :
    Reaches (step cfg fnmatchcase watches)
      (fun s action => ∃ own, action = .queue own ∧
        Queue.serving answer cdn s.queue own) s (more.map .queue)
      { s with queue := final } := by
  induction hrun with
  | refl => exact .refl
  | @snoc trace queue later own out hearlier hserving hstep ih =>
      have hworker := isWorker_of_serving hserving
      have hnext : step cfg fnmatchcase watches { s with queue := queue }
          (.queue own) = some ({ s with queue := later }, out.map .queue) := by
        simp [step, hworker, hstep]
      rw [List.map_append]
      exact ih.snoc ⟨own, rfl, hserving⟩ hnext

theorem Calls.worker {calls : List Batcher.Obs} (h : Calls s calls after) :
    after.queue.worker = s.queue.worker := by
  cases h <;> rfl

end Works

end MirrorMirage.Daemon
