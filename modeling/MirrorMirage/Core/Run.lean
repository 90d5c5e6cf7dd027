import Mathlib.Data.List.Basic

/-!
# Runs of guarded step functions

A machine is a guarded step function: in a given state an action is either
refused or leads to one next state together with the observations it makes.
A run is a finite sequence of accepted actions, its trace the concatenation of
their observations.  Interleavings are runs: the action says which party moves.

`Reaches` restricts the runs by a condition on every step, so that a property
of all runs and a property of all runs that avoid some step have the same form.
-/

namespace MirrorMirage.Run

variable {State Action Obs : Type*}

/-- `none` refuses the action in the state. -/
abbrev StepFn (State Action Obs : Type*) :=
  State → Action → Option (State × List Obs)

/-- Some run from `start`, each of whose steps is `allowed`, ends in the given
state and has emitted the given trace. -/
inductive Reaches (step : StepFn State Action Obs)
    (allowed : State → Action → Prop) (start : State) :
    List Obs → State → Prop where
  | refl : Reaches step allowed start [] start
  | snoc {trace : List Obs} {state after : State} {action : Action}
      {out : List Obs} (hrun : Reaches step allowed start trace state)
      (hallowed : allowed state action)
      (hstep : step state action = some (after, out)) :
      Reaches step allowed start (trace ++ out) after

variable {step : StepFn State Action Obs} {start : State}
variable {allowed allowed' : State → Action → Prop}

/-- The invariant rule for what rests on facts about the runs so far. -/
theorem Reaches.invariant_along (inv : List Obs → State → Prop)
    (hstart : inv [] start)
    (hnext : ∀ {trace state action after out},
      Reaches step allowed start trace state → inv trace state →
        allowed state action → step state action = some (after, out) →
          inv (trace ++ out) after)
    {trace : List Obs} {state : State}
    (hrun : Reaches step allowed start trace state) : inv trace state := by
  induction hrun with
  | refl => exact hstart
  | snoc hearlier hallowed hstep ih => exact hnext hearlier ih hallowed hstep

/-- The invariant rule: what holds at the start and is preserved by every
allowed step holds at the end of every run. -/
theorem Reaches.invariant (inv : List Obs → State → Prop)
    (hstart : inv [] start)
    (hnext : ∀ {trace state action after out}, inv trace state →
      allowed state action → step state action = some (after, out) →
        inv (trace ++ out) after)
    {trace : List Obs} {state : State}
    (hrun : Reaches step allowed start trace state) : inv trace state :=
  hrun.invariant_along inv hstart fun _ => hnext

/-- A run may be read under another step condition when an invariant of the
run supplies it. -/
theorem Reaches.allow (inv : List Obs → State → Prop)
    (hinv : ∀ {trace state}, Reaches step allowed start trace state →
      inv trace state)
    (hallow : ∀ {trace state action}, inv trace state →
      allowed state action → (step state action).isSome →
        allowed' state action)
    {trace : List Obs} {state : State}
    (hrun : Reaches step allowed start trace state) :
    Reaches step allowed' start trace state := by
  induction hrun with
  | refl => exact .refl
  | snoc hearlier hallowed hstep ih =>
      exact .snoc ih (hallow (hinv hearlier) hallowed (by simp [hstep])) hstep

/-- Runs compose. -/
theorem Reaches.trans {trace trace' : List Obs} {state final : State}
    (hrun : Reaches step allowed start trace state)
    (hrest : Reaches step allowed state trace' final) :
    Reaches step allowed start (trace ++ trace') final := by
  induction hrest with
  | refl => rwa [List.append_nil]
  | snoc _ hallowed hstep ih =>
      rw [← List.append_assoc]
      exact ih.snoc hallowed hstep

theorem Reaches.mono (hmono : ∀ state action, allowed state action →
      allowed' state action) {trace : List Obs} {state : State}
    (hrun : Reaches step allowed start trace state) :
    Reaches step allowed' start trace state :=
  hrun.allow (fun _ _ => True) (fun _ => trivial)
    (fun _ h _ => hmono _ _ h)

/-- The progress rule: where a measure falls with some step of every state that
is not done, some run gets to a state that is. -/
theorem exists_reaches_of_measure (inv : State → Prop) (done : State → Prop)
    (measure : State → ℕ)
    (hnext : ∀ {state}, inv state → ¬ done state →
      ∃ action after out, allowed state action ∧
        step state action = some (after, out) ∧ inv after ∧
          measure after < measure state)
    {state : State} (hstart : inv state) :
    ∃ trace final, Reaches step allowed state trace final ∧ done final := by
  generalize hcount : measure state = count
  induction count using Nat.strongRecOn generalizing state with
  | ind count ih =>
      by_cases hdone : done state
      · exact ⟨[], state, .refl, hdone⟩
      · obtain ⟨action, after, out, hallowed, hstep, hafter, hlt⟩ :=
          hnext hstart hdone
        obtain ⟨trace, final, hrun, hfinal⟩ :=
          ih (measure after) (hcount ▸ hlt) hafter rfl
        exact ⟨_, final, (Reaches.refl.snoc hallowed hstep).trans hrun, hfinal⟩

section Execute

variable [∀ state action, Decidable (allowed state action)]

/-- Replay a list of actions, each of which has to be allowed and accepted. -/
def execute (step : StepFn State Action Obs)
    (allowed : State → Action → Prop)
    [∀ state action, Decidable (allowed state action)] :
    State → List Action → Option (State × List Obs)
  | state, [] => some (state, [])
  | state, action :: rest =>
      if allowed state action then
        match step state action with
        | none => none
        | some (after, out) =>
            (execute step allowed after rest).map fun final =>
              (final.1, out ++ final.2)
      else none

theorem Reaches.execute {trace : List Obs} {state : State}
    (hrun : Reaches step allowed start trace state) {actions : List Action}
    {final : State × List Obs}
    (hexecute : execute step allowed state actions = some final) :
    Reaches step allowed start (trace ++ final.2) final.1 := by
  induction actions generalizing trace state final with
  | nil =>
      simp only [Run.execute, Option.some.injEq] at hexecute
      subst hexecute
      simpa using hrun
  | cons action rest ih =>
      simp only [Run.execute] at hexecute
      split at hexecute
      · rename_i hallowed
        split at hexecute
        · cases hexecute
        · rename_i after out hstep
          obtain ⟨last, hlast, rfl⟩ := Option.map_eq_some_iff.mp hexecute
          simpa using ih (hrun.snoc hallowed hstep) hlast
      · cases hexecute

/-- A replay witnesses a run that ends as the replay does, in whatever is
looked at. -/
theorem exists_reaches_of_execute (step : StepFn State Action Obs)
    (start : State) (allowed : State → Action → Prop)
    [∀ state action, Decidable (allowed state action)] {View : Type*}
    (view : State × List Obs → View) (value : View) (actions : List Action)
    (hreplay : (execute step allowed start actions).map view = some value) :
    ∃ trace state, Reaches step allowed start trace state ∧
      view (state, trace) = value := by
  obtain ⟨final, hfinal, hvalue⟩ := Option.map_eq_some_iff.mp hreplay
  exact ⟨final.2, final.1, by simpa using Reaches.refl.execute hfinal, hvalue⟩

end Execute

end MirrorMirage.Run
