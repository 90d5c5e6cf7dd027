import Mathlib.Data.List.Basic

/-!
# Since: an event with no later event of another kind

`Since start stop trace` is the past-time temporal operator on finite traces:
an event of kind `start` has occurred and none of kind `stop` after it.  It
states obligations ("added and not yet handed over") over whole runs without
naming positions, and it is computed along a run by `since_append`.
-/

namespace MirrorMirage.Trace

variable {Obs : Type*} {start stop : Obs → Prop}

def Since (start stop : Obs → Prop) (trace : List Obs) : Prop :=
  ∃ before event after, trace = before ++ event :: after ∧ start event ∧
    ∀ later ∈ after, ¬ stop later

@[simp]
theorem not_since_nil : ¬ Since start stop [] := by
  rintro ⟨before, event, after, hsplit, -, -⟩
  simp at hsplit

theorem since_append {trace out : List Obs} :
    Since start stop (trace ++ out) ↔
      Since start stop out ∨
        (Since start stop trace ∧ ∀ event ∈ out, ¬ stop event) := by
  constructor
  · rintro ⟨before, event, after, hsplit, hstart, hstop⟩
    rcases List.append_eq_append_iff.mp hsplit with
      ⟨gap, hbefore, hout⟩ | ⟨gap, htrace, hafter⟩
    · exact .inl ⟨gap, event, after, hout, hstart, hstop⟩
    · cases gap with
      | nil =>
          exact .inl ⟨[], event, after, by simpa using hafter.symm, hstart,
            hstop⟩
      | cons head gap =>
          obtain ⟨rfl, rfl⟩ : event = head ∧ after = gap ++ out := by
            simpa using hafter
          refine .inr ⟨⟨before, event, gap, htrace, hstart, ?_⟩, ?_⟩
          · exact fun later hlater => hstop later (by simp [hlater])
          · exact fun later hlater => hstop later (by simp [hlater])
  · rintro (⟨before, event, after, rfl, hstart, hstop⟩ |
      ⟨⟨before, event, after, rfl, hstart, hstop⟩, hout⟩)
    · exact ⟨trace ++ before, event, after, by simp, hstart, hstop⟩
    · refine ⟨before, event, after ++ out, by simp, hstart, ?_⟩
      intro later hlater
      rcases List.mem_append.mp hlater with hlater | hlater
      · exact hstop later hlater
      · exact hout later hlater

@[simp]
theorem since_singleton {event : Obs} :
    Since start stop [event] ↔ start event := by
  constructor
  · rintro ⟨before, found, after, hsplit, hstart, -⟩
    cases before <;> simp_all
  · exact fun hstart => ⟨[], event, [], rfl, hstart, by simp⟩

theorem since_cons {event : Obs} {trace : List Obs} :
    Since start stop (event :: trace) ↔ Since start stop trace ∨
      (start event ∧ ∀ later ∈ trace, ¬ stop later) := by
  rw [← List.singleton_append, since_append, since_singleton]

/-- Observations of neither kind do not change what is outstanding. -/
theorem since_append_of_silent {trace out : List Obs}
    (hsilent : ∀ event ∈ out, ¬ start event ∧ ¬ stop event) :
    Since start stop (trace ++ out) ↔ Since start stop trace := by
  rw [since_append]
  constructor
  · rintro (⟨before, event, after, rfl, hstart, -⟩ | ⟨hsince, -⟩)
    · exact absurd hstart (hsilent event (by simp)).1
    · exact hsince
  · exact fun hsince => .inr ⟨hsince, fun event hevent =>
      (hsilent event hevent).2⟩

theorem Since.exists_start {trace : List Obs} (h : Since start stop trace) :
    ∃ event ∈ trace, start event := by
  obtain ⟨before, event, after, rfl, hstart, -⟩ := h
  exact ⟨event, by simp, hstart⟩

/-! ## Events justified by what came before them -/

/-- `P` holds of every event of the trace and the part before it. -/
def Justified (P : List Obs → Obs → Prop) (trace : List Obs) : Prop :=
  ∀ before event after, trace = before ++ event :: after → P before event

variable {P : List Obs → Obs → Prop}

@[simp]
theorem justified_nil : Justified P [] := by
  intro before event after hsplit
  simp at hsplit

theorem justified_append {trace out : List Obs} :
    Justified P (trace ++ out) ↔
      Justified P trace ∧ Justified (fun before => P (trace ++ before)) out := by
  constructor
  · intro h
    constructor
    · rintro before event after rfl
      exact h before event (after ++ out) (by simp)
    · rintro before event after rfl
      exact h (trace ++ before) event after (by simp)
  · rintro ⟨htrace, hout⟩ before event after hsplit
    rcases List.append_eq_append_iff.mp hsplit with
      ⟨gap, rfl, hout'⟩ | ⟨gap, htrace', hafter⟩
    · exact hout gap event after hout'
    · cases gap with
      | nil => simpa [htrace'] using hout [] event after hafter.symm
      | cons head gap =>
          obtain ⟨rfl, -⟩ : event = head ∧ after = gap ++ out := by
            simpa using hafter
          exact htrace before event gap htrace'

@[simp]
theorem justified_singleton {event : Obs} :
    Justified P [event] ↔ P [] event := by
  constructor
  · exact fun h => h [] event [] rfl
  · intro h before found after hsplit
    cases before <;> simp_all

theorem Justified.mono {Q : List Obs → Obs → Prop} {trace : List Obs}
    (h : Justified P trace) (hmono : ∀ before event, P before event →
      Q before event) : Justified Q trace :=
  fun before event after hsplit => hmono before event
    (h before event after hsplit)

/-- Only the events of one kind have to be justified. -/
theorem justified_of_silent {out : List Obs}
    (hsilent : ∀ event ∈ out, ∀ before, P before event) :
    Justified P out := by
  rintro before event after rfl
  exact hsilent event (by simp) before

end MirrorMirage.Trace
