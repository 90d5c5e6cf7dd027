import MirrorMirage.Core.Dict

/-!
# Which exceptions a computation can end with

A computation `Spares` a class of exceptions when it ends with none of them.
Whether it does is read off its calls, in the order in which it makes them: a
call is made only if the calls before it return (`spares_bind_iff`), and in a
loop only if the rounds before it do (`Gets`).
-/

namespace MirrorMirage.Fallible

universe u

variable {Element Error After : Type*} {Value Result : Type u}
variable {bad : Error → Prop}

def Spares (bad : Error → Prop) (result : Except Error Value) : Prop :=
  ∀ error, result = .error error → ¬ bad error

@[simp]
theorem spares_ok (value : Value) :
    Spares bad (.ok value : Except Error Value) := by
  intro error herror
  cases herror

@[simp]
theorem spares_error_iff {error : Error} :
    Spares bad (.error error : Except Error Value) ↔ ¬ bad error := by
  simp [Spares]

theorem spares_bind_iff {first : Except Error Value}
    {next : Value → Except Error Result} :
    Spares bad (first >>= next) ↔
      Spares bad first ∧
        ∀ value, first = .ok value → Spares bad (next value) := by
  cases first <;> simp [bind, Except.bind]

/-- What spares two classes that have everything returns. -/
theorem exists_ok_of_spares {result : Except Error Value}
    (hbad : Spares bad result) (hrest : Spares (fun error => ¬ bad error) result) :
    ∃ value, result = .ok value := by
  cases result with
  | ok value => exact ⟨value, rfl⟩
  | error error => exact absurd (hbad error rfl) (hrest error rfl)

/-- A loop gets to an element if the rounds before it pass. -/
def Gets (passes : Element → Prop) (elements : List Element)
    (element : Element) : Prop :=
  ∃ before after, elements = before ++ element :: after ∧
    ∀ earlier ∈ before, passes earlier

section Loops

variable {passes : Element → Prop} {elements : List Element}
variable {element other : Element}

theorem Gets.mem (h : Gets passes elements element) : element ∈ elements := by
  obtain ⟨before, after, rfl, -⟩ := h
  simp

theorem gets_cons_iff : Gets passes (other :: elements) element ↔
    element = other ∨ passes other ∧ Gets passes elements element := by
  constructor
  · rintro ⟨before, after, hsplit, hbefore⟩
    cases before with
    | nil => exact .inl (List.cons.inj hsplit).1.symm
    | cons first before =>
        obtain ⟨rfl, rfl⟩ := List.cons.inj hsplit
        exact .inr ⟨hbefore _ (.head _), before, after, rfl,
          fun earlier hearlier => hbefore earlier (.tail _ hearlier)⟩
  · rintro (rfl | ⟨hother, before, after, rfl, hbefore⟩)
    · exact ⟨[], elements, rfl, by simp⟩
    · exact ⟨other :: before, after, rfl, by simpa [hother] using hbefore⟩

/-- The rule for a loop over its first round. -/
theorem forall_gets_cons_iff {good : Element → Prop} :
    (∀ element, Gets passes (other :: elements) element → good element) ↔
      good other ∧ (passes other →
        ∀ element, Gets passes elements element → good element) := by
  simp only [gets_cons_iff, or_imp, forall_and, forall_eq, and_imp]
  tauto

theorem spares_forM_iff {f : Element → Except Error PUnit} :
    Spares bad (elements.forM f) ↔
      ∀ element, Gets (fun earlier => f earlier = .ok ⟨⟩) elements element →
        Spares bad (f element) := by
  induction elements with
  | nil => simp [Gets, pure, Except.pure]
  | cons element elements ih =>
      rw [List.forM_eq_forM] at ih ⊢
      rw [List.forM_cons, spares_bind_iff, forall_gets_cons_iff, ← ih]
      exact and_congr_right fun _ => ⟨fun h => h ⟨⟩, fun h _ => h⟩

theorem spares_collect_iff {Key : Type u} [DecidableEq Key]
    {d : Dict Key Value} {f : Element → Except Error (Key × Value)} :
    Spares bad (d.collect f elements) ↔
      ∀ element, Gets (fun earlier => ∃ pair, f earlier = .ok pair) elements
        element → Spares bad (f element) := by
  induction elements generalizing d with
  | nil => simp [Gets, Dict.collect, pure, Except.pure]
  | cons element elements ih =>
      have hcons : d.collect f (element :: elements) = (f element >>=
          fun pair => (d.set pair.1 pair.2).collect f elements) := by
        simp [Dict.collect, List.foldlM_cons]
      rw [hcons, spares_bind_iff, forall_gets_cons_iff]
      simp only [ih, forall_exists_index]

end Loops

end MirrorMirage.Fallible
