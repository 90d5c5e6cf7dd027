import Mathlib.Data.List.Basic

/-!
# Task groups

A task group waits for its tasks, in whatever order they end.  The first task
that fails, or the first cancellation of the one who waits, aborts the group:
the tasks that it still waits for are cancelled.  A group is aborted once, so
that a second cancellation of the one who waits does not reach the tasks.
Nobody leaves the group before all tasks have been seen to end, and what has
happened to the group is what it ends with (`exit_cases`).
-/

namespace MirrorMirage.TaskGroup

variable {Task Error : Type*}

/-- `tasks` have not been seen to end; `propagates` says that a cancellation of
the one who waits has aborted the group. -/
structure Group (Task Error : Type*) where
  tasks : List Task
  aborting : Bool
  errors : List Error
  propagates : Bool
  deriving DecidableEq, Repr

/-- What the one who waits gets from the group. -/
inductive Exit (Error : Type*) where
  | returned
  | cancelled
  | failed (errors : List Error)
  deriving DecidableEq, Repr

namespace Group

def enter (tasks : List Task) : Group Task Error := ⟨tasks, false, [], false⟩

/-- A `CancelledError` is thrown into the wait. -/
def cancel (group : Group Task Error) : Group Task Error :=
  if group.aborting then group
  else { group with
    aborting := true
    propagates := true }

/-- A task is seen to end, with the error with which it failed, if any. -/
def done [DecidableEq Task] (group : Group Task Error) (task : Task)
    (error : Option Error) : Group Task Error :=
  { group with
    tasks := group.tasks.filter (· ≠ task)
    aborting := group.aborting || error.isSome
    errors := group.errors ++ error.toList }

/-- The wait is over. -/
def exit? (group : Group Task Error) : Option (Exit Error) :=
  if group.tasks = [] then
    some (if group.errors ≠ [] then .failed group.errors
      else if group.propagates then .cancelled else .returned)
  else none

/-- A group is aborted for a cause, which it remembers. -/
structure Coherent (group : Group Task Error) : Prop where
  cause : group.aborting = true →
    group.errors ≠ [] ∨ group.propagates = true
  failed : group.errors ≠ [] → group.aborting = true
  cancelled : group.propagates = true → group.aborting = true

variable {group : Group Task Error} {exit : Exit Error}

theorem coherent_enter (tasks : List Task) :
    (enter tasks : Group Task Error).Coherent := by
  constructor <;> simp [enter]

@[simp]
theorem cancel_tasks : group.cancel.tasks = group.tasks := by
  unfold cancel
  split <;> rfl

@[simp]
theorem cancel_aborting : group.cancel.aborting = true := by
  unfold cancel
  split <;> simp_all

@[simp]
theorem cancel_errors : group.cancel.errors = group.errors := by
  unfold cancel
  split <;> rfl

theorem Coherent.cancel (h : group.Coherent) : group.cancel.Coherent := by
  unfold Group.cancel
  split
  · exact h
  · exact ⟨fun _ => .inr rfl, fun _ => rfl, fun _ => rfl⟩

/-- The one who waits gets all errors, or else its own cancellation if it has
aborted the group. -/
theorem exit_cases (h : group.Coherent) (hexit : group.exit? = some exit) :
    group.tasks = [] ∧
      ((exit = .failed group.errors ∧ group.errors ≠ []) ∨
        (exit = .cancelled ∧ group.errors = [] ∧ group.propagates = true) ∨
        (exit = .returned ∧ group.aborting = false)) := by
  unfold exit? at hexit
  split at hexit
  · rename_i htasks
    refine ⟨htasks, ?_⟩
    split at hexit
    · exact .inl ⟨(Option.some.inj hexit).symm, ‹_›⟩
    · rename_i herrors
      have herrors : group.errors = [] := not_not.mp herrors
      split at hexit
      · exact .inr (.inl ⟨(Option.some.inj hexit).symm, herrors, ‹_›⟩)
      · rename_i hquiet
        refine .inr (.inr ⟨(Option.some.inj hexit).symm, ?_⟩)
        by_contra haborting
        rcases h.cause (by simpa using haborting) with hfailed | hcancelled
        · exact hfailed herrors
        · exact hquiet hcancelled
  · cases hexit

section Done

variable [DecidableEq Task] {task : Task} {error : Option Error}

@[simp]
theorem mem_done {other : Task} :
    other ∈ (group.done task error).tasks ↔
      other ∈ group.tasks ∧ other ≠ task := by
  simp [done]

theorem Coherent.done (h : group.Coherent) :
    (group.done task error).Coherent := by
  cases error with
  | none =>
      simpa [Group.done] using
        (⟨h.cause, h.failed, h.cancelled⟩ : Coherent { group with
          tasks := group.tasks.filter (· ≠ task) })
  | some error => constructor <;> simp [Group.done]

/-- Seeing a task that is waited for end leaves fewer of them. -/
theorem length_done_lt (hmem : task ∈ group.tasks) :
    (group.done task error).tasks.length < group.tasks.length :=
  List.length_filter_lt_length_iff_exists.mpr ⟨task, hmem, by simp⟩

end Done

end Group

end MirrorMirage.TaskGroup
