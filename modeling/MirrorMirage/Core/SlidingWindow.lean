import Mathlib.Algebra.Order.Group.Defs
import Mathlib.Data.Finset.Max
import Mathlib.Data.List.TakeWhile
import Mathlib.Order.Interval.Finset.Nat

/-!
# Admissions that respect a sliding window

A limiter that admits at most `capacity` events in any half-open window keeps
the events `capacity` apart in its history at least a window apart in time
(`Spaced`).  It need not remember the whole history: `Tracks` says that what
it has forgotten is at least a window old, and what it remembers is short.
-/

namespace MirrorMirage.SlidingWindow

variable {Time : Type*} [AddCommGroup Time] [LinearOrder Time]

/-- Admissions `capacity` places apart are a window apart. -/
def Spaced (capacity : ℕ) (window : Time) (admissions : List Time) : Prop :=
  ∀ early late first second, early + capacity ≤ late →
    admissions[early]? = some first → admissions[late]? = some second →
      first + window ≤ second

/-- At `now`, `calls` is the recent part of a spaced history. -/
structure Tracks (capacity : ℕ) (window now : Time)
    (admissions calls : List Time) : Prop where
  spaced : Spaced capacity window admissions
  recent : ∃ forgotten, admissions = forgotten ++ calls ∧
    ∀ time ∈ forgotten, time + window ≤ now

variable {capacity : ℕ} {window now : Time} {admissions calls : List Time}

theorem tracks_nil : Tracks capacity window now [] [] where
  spaced := by simp [Spaced]
  recent := ⟨[], rfl, by simp⟩

theorem Tracks.later (h : Tracks capacity window now admissions calls)
    {time : Time} (hlater : now ≤ time) :
    Tracks capacity window time admissions calls where
  spaced := h.spaced
  recent := by
    obtain ⟨forgotten, hsplit, hold⟩ := h.recent
    exact ⟨forgotten, hsplit, fun past hpast =>
      (hold past hpast).trans hlater⟩

/-- Calls at least a window old may be forgotten. -/
theorem Tracks.forget [IsOrderedAddMonoid Time]
    (h : Tracks capacity window now admissions calls) :
    Tracks capacity window now admissions
      (calls.dropWhile (· ≤ now - window)) where
  spaced := h.spaced
  recent := by
    obtain ⟨forgotten, hsplit, hold⟩ := h.recent
    refine ⟨forgotten ++ calls.takeWhile (· ≤ now - window), ?_, ?_⟩
    · rw [List.append_assoc, List.takeWhile_append_dropWhile, hsplit]
    · intro time htime
      rcases List.mem_append.mp htime with htime | htime
      · exact hold time htime
      · have hle := List.mem_takeWhile_imp htime
        exact le_sub_iff_add_le.mp (by simpa using hle)

/-- A new admission is in place when fewer than `capacity` calls are
remembered: the admission `capacity` places before it is forgotten. -/
theorem Tracks.record (h : Tracks capacity window now admissions calls)
    (hroom : calls.length < capacity) :
    Tracks capacity window now (admissions ++ [now]) (calls ++ [now]) where
  spaced := by
    obtain ⟨forgotten, hsplit, hold⟩ := h.recent
    have hlength : admissions.length = forgotten.length + calls.length := by
      simp [hsplit]
    intro early late first second hgap hfirst hsecond
    obtain ⟨hlate, -⟩ := List.getElem?_eq_some_iff.mp hsecond
    rw [List.length_append, List.length_singleton] at hlate
    have hearly : early < admissions.length := by omega
    rw [List.getElem?_append_left hearly] at hfirst
    by_cases hlast : late < admissions.length
    · rw [List.getElem?_append_left hlast] at hsecond
      exact h.spaced early late first second hgap hfirst hsecond
    · have hnow : second = now := by
        have heq : late = admissions.length := by omega
        simpa [heq] using hsecond.symm
      have hforgotten : early < forgotten.length := by omega
      rw [hsplit, List.getElem?_append_left hforgotten] at hfirst
      rw [hnow]
      exact hold first (List.mem_of_getElem? hfirst)
  recent := by
    obtain ⟨forgotten, hsplit, hold⟩ := h.recent
    exact ⟨forgotten, by simp [hsplit], hold⟩

/-- Among more than `capacity` places, two are `capacity` apart. -/
theorem exists_far_apart {places : Finset ℕ}
    (hcard : capacity < places.card) :
    ∃ early ∈ places, ∃ late ∈ places, early + capacity ≤ late := by
  have hnonempty : places.Nonempty := Finset.card_pos.mp (by omega)
  refine ⟨places.min' hnonempty, places.min'_mem hnonempty, ?_⟩
  by_contra hnear
  have hsubset : places ⊆
      Finset.Ico (places.min' hnonempty)
        (places.min' hnonempty + capacity) := by
    intro place hplace
    rw [Finset.mem_Ico]
    refine ⟨places.min'_le place hplace, ?_⟩
    by_contra hfar
    exact hnear ⟨place, hplace, by omega⟩
  have hle := Finset.card_le_card hsubset
  rw [Nat.card_Ico] at hle
  omega

/-- Of the times that are less than a window apart, a spaced history has
`capacity` at most. -/
theorem Spaced.length_filter_le (h : Spaced capacity window admissions)
    (near : Time → Bool)
    (hnear : ∀ first second, near first → near second →
      second < first + window) :
    (admissions.filter near).length ≤ capacity := by
  by_contra hmany
  let places := (admissions.zipIdx.filter fun place => near place.1).map
    Prod.snd
  have hnodup : places.Nodup := by
    refine List.Nodup.sublist (List.filter_sublist.map Prod.snd) ?_
    rw [List.zipIdx_map_snd]
    exact List.nodup_range'
  have hlength : places.length = (admissions.filter near).length := by
    rw [List.length_map]
    conv_rhs => rw [← List.zipIdx_map_fst 0 admissions, List.filter_map,
      List.length_map]
    rfl
  have hcard : capacity < places.toFinset.card := by
    rw [List.toFinset_card_of_nodup hnodup]
    omega
  obtain ⟨early, hearly, late, hlate, hgap⟩ := exists_far_apart hcard
  have hadmitted : ∀ place ∈ places.toFinset, ∃ time,
      admissions[place]? = some time ∧ near time := by
    intro place hplace
    obtain ⟨⟨time, _⟩, hmem, rfl⟩ := List.mem_map.mp
      (List.mem_toFinset.mp hplace)
    obtain ⟨hzip, htime⟩ := List.mem_filter.mp hmem
    exact ⟨time, List.mem_zipIdx_iff_getElem?.mp hzip, htime⟩
  obtain ⟨first, hfirst, hnearFirst⟩ := hadmitted early hearly
  obtain ⟨second, hsecond, hnearSecond⟩ := hadmitted late hlate
  have hapart := h early late first second hgap hfirst hsecond
  exact (hapart.trans_lt (hnear first second hnearFirst hnearSecond)).false

omit [AddCommGroup Time] in
theorem dropWhile_le_eq_filter (cutoff : Time) {times : List Time}
    (hsorted : times.Pairwise (· ≤ ·)) :
    times.dropWhile (· ≤ cutoff) = times.filter (cutoff < ·) := by
  induction times with
  | nil => rfl
  | cons time rest ih =>
      obtain ⟨hleast, hrest⟩ := List.pairwise_cons.mp hsorted
      by_cases hold : time ≤ cutoff
      · simp [hold, ih hrest]
      · have hall : ∀ later ∈ rest, cutoff < later := fun later hlater =>
          (not_le.mp hold).trans_le (hleast later hlater)
        simpa [hold, not_le.mp hold] using
          (List.filter_eq_self.mpr (by simpa using hall)).symm

/-- What a trim to the last window leaves is what was admitted in it. -/
theorem Tracks.dropWhile_eq_filter [IsOrderedAddMonoid Time]
    (h : Tracks capacity window now admissions calls)
    (hsorted : admissions.Pairwise (· ≤ ·)) :
    calls.dropWhile (· ≤ now - window) =
      admissions.filter (now - window < ·) := by
  obtain ⟨forgotten, rfl, hold⟩ := h.recent
  have hnone : forgotten.filter (now - window < ·) = [] := by
    simpa [List.filter_eq_nil_iff, le_sub_iff_add_le] using hold
  rw [List.filter_append, hnone, List.nil_append]
  exact dropWhile_le_eq_filter _ (List.pairwise_append.mp hsorted).2.1

end MirrorMirage.SlidingWindow
