import MirrorMirage.Core.Run

/-!
# Systems of machines

The runs of a system are runs of its components (`Reaches.project`), a run is
cut at any of its observations (`Reaches.exists_step`), and progress may be
shown by whole runs of a component instead of single steps.
-/

namespace MirrorMirage.Run

variable {State Action Obs : Type*} {step : StepFn State Action Obs}
variable {allowed : State → Action → Prop} {start state : State}

/-- Where each step of a system is a run of the component that `view` shows,
with the observations that `see` keeps, each run of the system is. -/
theorem Reaches.project {State' Action' Obs' : Type*}
    {step' : StepFn State' Action' Obs'} {allowed' : State' → Action' → Prop}
    (view : State → State') (see : Obs → Option Obs')
    (hnext : ∀ {trace state action after out},
      Reaches step allowed start trace state → allowed state action →
        step state action = some (after, out) →
          Reaches step' allowed' (view state) (out.filterMap see) (view after))
    {trace : List Obs} (hrun : Reaches step allowed start trace state) :
    Reaches step' allowed' (view start) (trace.filterMap see) (view state) := by
  induction hrun with
  | refl => exact .refl
  | snoc hearlier hallowed hstep ih =>
      rw [List.filterMap_append]
      exact ih.trans (hnext hearlier hallowed hstep)

/-- The step that has made an observation, and the runs before and after
it. -/
theorem Reaches.exists_step {before after : List Obs} {obs : Obs}
    (hrun : Reaches step allowed start (before ++ obs :: after) state) :
    ∃ trace earlier action later head tail rest,
      Reaches step allowed start trace earlier ∧ allowed earlier action ∧
      step earlier action = some (later, head ++ obs :: tail) ∧
      Reaches step allowed later rest state ∧
      before = trace ++ head ∧ after = tail ++ rest := by
  generalize hwhole : before ++ obs :: after = whole at hrun
  induction hrun generalizing after with
  | refl => simp at hwhole
  | @snoc trace earlier later action out hearlier hallowed hstep ih =>
      rcases List.append_eq_append_iff.mp hwhole with
        ⟨gap, rfl, hgap⟩ | ⟨gap, rfl, rfl⟩
      · cases gap with
        | nil =>
            exact ⟨_, _, _, _, [], after, [], hearlier, hallowed,
              by simpa using hgap ▸ hstep, .refl, by simp, by simp⟩
        | cons first gap =>
            obtain ⟨rfl, rfl⟩ : obs = first ∧ after = gap ++ out := by
              simpa using hgap
            obtain ⟨_, _, _, _, head, tail, rest, hbefore, hallowed', hstep',
              hrest, rfl, rfl⟩ := ih rfl
            exact ⟨_, _, _, _, head, tail, rest ++ out, hbefore, hallowed',
              hstep', hrest.snoc hallowed hstep, rfl, by simp⟩
      · exact ⟨_, _, _, _, gap, after, [], hearlier, hallowed, hstep, .refl,
          rfl, by simp⟩

/-- The progress rule with a run of the system for each turn. -/
theorem exists_reaches_of_runs (inv done : State → Prop) (measure : State → ℕ)
    (hnext : ∀ {state}, inv state → ¬ done state → ∃ trace after,
      Reaches step allowed state trace after ∧ inv after ∧
        measure after < measure state)
    (hstart : inv state) :
    ∃ trace final, Reaches step allowed state trace final ∧ inv final ∧
      done final := by
  generalize hcount : measure state = count
  induction count using Nat.strongRecOn generalizing state with
  | ind count ih =>
      by_cases hdone : done state
      · exact ⟨[], state, .refl, hstart, hdone⟩
      · obtain ⟨trace, after, hrun, hafter, hlt⟩ := hnext hstart hdone
        obtain ⟨trace', final, hrest, hfinal⟩ :=
          ih (measure after) (hcount ▸ hlt) hafter rfl
        exact ⟨trace ++ trace', final, hrun.trans hrest, hfinal⟩

end MirrorMirage.Run
