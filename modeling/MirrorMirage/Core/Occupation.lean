import Mathlib.Data.List.Infix

/-!
# Occupation: claimants that take parts of a tree one after another

Every claimant has a root and reaches some of the paths below it.  In its turn
it takes the paths that it reaches without passing over one that was taken
before.  The claimant that a path should go to is the one with the deepest
root above it.  Whether everything goes where it should is a matter of the
order of the claimants alone.
-/

namespace MirrorMirage.Occupation

variable {Name Claimant : Type*}

/-- What every claimant reaches, down from its root. -/
structure Territory (Name Claimant : Type*) where
  root : Claimant → List Name
  reaches : Claimant → List Name → Prop
  starts : ∀ {claimant path}, reaches claimant path → root claimant <+: path
  closed : ∀ {claimant path mid}, reaches claimant path →
    root claimant <+: mid → mid <+: path → reaches claimant mid

variable (land : Territory Name Claimant)

/-- The claimant comes to the path in its turn. -/
def Open (taken : List Name → Option Claimant) (claimant : Claimant)
    (path : List Name) : Prop :=
  land.reaches claimant path ∧ ∀ mid, land.root claimant <+: mid →
    mid <+: path → taken mid = none

open Classical in
/-- One claimant's turn. -/
noncomputable def occupy (taken : List Name → Option Claimant)
    (claimant : Claimant) : List Name → Option Claimant := fun path =>
  if Open land taken claimant path then some claimant else taken path

/-- What is taken after the turns of all. -/
noncomputable def occupied (claimants : List Claimant) :
    List Name → Option Claimant :=
  claimants.foldl (occupy land) fun _ => none

/-- The claimant reaches the path and no root above the path is deeper. -/
def Deserves (claimants : List Claimant) (path : List Name)
    (claimant : Claimant) : Prop :=
  claimant ∈ claimants ∧ land.reaches claimant path ∧
    ∀ other ∈ claimants, land.root other <+: path →
      (land.root other).length ≤ (land.root claimant).length

/-- A claimant that reaches the root of a later one is kept from it by an
earlier one, whose root is between the two. -/
def InOrder (claimants : List Claimant) : Prop :=
  ∀ before claimant between later after,
    claimants = before ++ claimant :: (between ++ later :: after) →
    land.reaches claimant (land.root later) →
      ∃ blocker ∈ before, land.root claimant <+: land.root blocker ∧
        land.root blocker <+: land.root later

section Turns

variable {land} {claimants before after : List Claimant}
variable {claimant other : Claimant} {path mid : List Name}
variable {taken : List Name → Option Claimant}

@[simp]
theorem occupied_nil : occupied land [] = fun _ => none := rfl

@[simp]
theorem occupied_concat : occupied land (claimants ++ [claimant]) =
    occupy land (occupied land claimants) claimant := by
  simp [occupied]

theorem occupy_of_open (h : Open land taken claimant path) :
    occupy land taken claimant path = some claimant := by
  simp [occupy, h]

theorem occupy_of_not_open (h : ¬ Open land taken claimant path) :
    occupy land taken claimant path = taken path := by
  simp [occupy, h]

theorem Open.mono (h : Open land taken claimant path)
    (hroot : land.root claimant <+: mid) (hmid : mid <+: path) :
    Open land taken claimant mid :=
  ⟨land.closed h.1 hroot hmid, fun inner hinner hle =>
    h.2 inner hinner (hle.trans hmid)⟩

theorem Open.taken_eq_none (h : Open land taken claimant path) :
    taken path = none :=
  h.2 path (land.starts h.1) (List.prefix_refl _)

/-- What is taken stays taken. -/
theorem occupied_append (h : occupied land before path = some claimant) :
    occupied land (before ++ after) path = some claimant := by
  induction after using List.reverseRecOn with
  | nil => rwa [List.append_nil]
  | append_singleton after last ih =>
      rw [← List.append_assoc, occupied_concat, occupy_of_not_open, ih]
      intro hopen
      have hnone := hopen.taken_eq_none
      simp [ih] at hnone

theorem occupied_eq_some_iff :
    occupied land claimants path = some claimant ↔
      ∃ before after, claimants = before ++ claimant :: after ∧
        Open land (occupied land before) claimant path := by
  constructor
  · intro h
    induction claimants using List.reverseRecOn with
    | nil => simp at h
    | append_singleton claimants last ih =>
        rw [occupied_concat] at h
        by_cases hopen : Open land (occupied land claimants) last path
        · rw [occupy_of_open hopen] at h
          cases h
          exact ⟨claimants, [], rfl, hopen⟩
        · rw [occupy_of_not_open hopen] at h
          obtain ⟨before, after, rfl, hbefore⟩ := ih h
          exact ⟨before, after ++ [last], by simp, hbefore⟩
  · rintro ⟨before, after, rfl, hopen⟩
    rw [← List.singleton_append, ← List.append_assoc]
    apply occupied_append
    rw [occupied_concat, occupy_of_open hopen]

/-- The holder of a path holds everything above it, down from its root. -/
theorem occupied_above (h : occupied land claimants path = some claimant)
    (hroot : land.root claimant <+: mid) (hmid : mid <+: path) :
    occupied land claimants mid = some claimant := by
  obtain ⟨before, after, hsplit, hopen⟩ := occupied_eq_some_iff.mp h
  exact occupied_eq_some_iff.mpr
    ⟨before, after, hsplit, hopen.mono hroot hmid⟩

variable (hself : ∀ claimant ∈ claimants,
  land.reaches claimant (land.root claimant))
include hself

/-- After its turn the root of a claimant is taken. -/
theorem occupied_root (hmem : claimant ∈ before)
    (hbefore : before <+: claimants) :
    occupied land before (land.root claimant) ≠ none := by
  obtain ⟨first, second, rfl⟩ := List.append_of_mem hmem
  cases htaken : occupied land first (land.root claimant) with
  | some holder => simp [occupied_append htaken]
  | none =>
      have hopen : Open land (occupied land first) claimant
          (land.root claimant) := by
        refine ⟨hself claimant (hbefore.subset hmem), ?_⟩
        intro mid hroot hmid
        rwa [hmid.eq_of_length_le hroot.length_le]
      simp [occupied_eq_some_iff.mpr ⟨first, second, rfl, hopen⟩]

/-- In order, a claimant takes only what it deserves. -/
theorem deserves_of_occupied (horder : InOrder land claimants)
    (h : occupied land claimants path = some claimant) :
    Deserves land claimants path claimant := by
  obtain ⟨before, after, hsplit, hopen⟩ := occupied_eq_some_iff.mp h
  have hbefore : before <+: claimants := ⟨_, hsplit.symm⟩
  refine ⟨by simp [hsplit], hopen.1, ?_⟩
  intro other hother hroot
  by_contra hdeeper
  have hle : land.root claimant <+: land.root other :=
    List.prefix_of_prefix_length_le (land.starts hopen.1) hroot (by omega)
  rw [hsplit] at hother
  rcases List.mem_append.mp hother with hother | hother
  · exact occupied_root hself hother hbefore
      (hopen.2 (land.root other) hle hroot)
  · rcases List.mem_cons.mp hother with rfl | hother
    · exact hdeeper le_rfl
    · obtain ⟨between, last, rfl⟩ := List.append_of_mem hother
      obtain ⟨blocker, hblocker, habove, hbelow⟩ :=
        horder before claimant between other last hsplit
          (land.closed hopen.1 hle hroot)
      exact occupied_root hself hblocker hbefore
        (hopen.2 (land.root blocker) habove (hbelow.trans hroot))

/-- In order, a claimant takes all that it deserves. -/
theorem occupied_of_deserves (horder : InOrder land claimants)
    (h : Deserves land claimants path claimant) :
    occupied land claimants path = some claimant := by
  obtain ⟨hmem, hreaches, hdeepest⟩ := h
  obtain ⟨before, after, hsplit⟩ := List.append_of_mem hmem
  rw [occupied_eq_some_iff]
  refine ⟨before, after, hsplit, hreaches, ?_⟩
  intro mid hroot hmid
  by_contra htaken
  obtain ⟨holder, hholder⟩ := Option.ne_none_iff_exists'.mp htaken
  obtain ⟨first, second, hfirst, hopen⟩ := occupied_eq_some_iff.mp hholder
  -- the holder has come to `mid` over the root of the claimant
  have hle : land.root holder <+: land.root claimant := by
    apply List.prefix_of_prefix_length_le (land.starts hopen.1) hroot
    apply hdeepest holder (by simp [hsplit, hfirst])
    exact (land.starts hopen.1).trans hmid
  have habove := hopen.mono hle hroot
  have hsplit' : claimants =
      first ++ holder :: (second ++ claimant :: after) := by
    simp [hsplit, hfirst]
  obtain ⟨blocker, hblocker, hblockerAbove, hblockerBelow⟩ :=
    horder first holder second claimant after hsplit' habove.1
  exact occupied_root hself hblocker ⟨_, hsplit'.symm⟩
    (habove.2 (land.root blocker) hblockerAbove hblockerBelow)

/-- Out of order, a claimant takes the root of a later one, or loses its
own. -/
theorem inOrder_of_occupied (hdistinct : (claimants.map land.root).Nodup)
    (h : ∀ path claimant, occupied land claimants path =
      some claimant ↔ Deserves land claimants path claimant) :
    InOrder land claimants := by
  intro before claimant between later after hsplit hreaches
  by_contra hblocked
  have hmem : claimant ∈ claimants := by simp [hsplit]
  have hholds : occupied land claimants (land.root claimant) =
      some claimant :=
    (h _ _).mpr ⟨hmem, hself claimant hmem, fun other _ hroot =>
      hroot.length_le⟩
  have hopen :
      Open land (occupied land before) claimant (land.root later) := by
    refine ⟨hreaches, ?_⟩
    intro mid hroot hmid
    by_contra htaken
    obtain ⟨holder, hholder⟩ := Option.ne_none_iff_exists'.mp htaken
    obtain ⟨first, second, hfirst, hopen⟩ :=
      occupied_eq_some_iff.mp hholder
    have hbelow := land.starts hopen.1
    rcases List.prefix_or_prefix_of_prefix hroot hbelow with hle | hle
    · exact hblocked
        ⟨holder, by simp [hfirst], hle, hbelow.trans hmid⟩
    · have hlost : occupied land claimants (land.root claimant) =
          some holder := by
        rw [hsplit]
        exact occupied_append (occupied_above hholder hle hroot)
      rw [hholds] at hlost
      cases hlost
      exact hblocked
        ⟨claimant, by simp [hfirst], List.prefix_refl _, hbelow.trans hmid⟩
  have htakes := occupied_eq_some_iff.mpr
    ⟨before, between ++ later :: after, hsplit, hopen⟩
  have hdeepest := ((h _ _).mp htakes).2.2 later (by simp [hsplit])
    (List.prefix_refl _)
  have hsame : land.root claimant = land.root later :=
    (land.starts hreaches).eq_of_length_le hdeepest
  simp [hsplit, List.nodup_append, hsame] at hdistinct

/-- Everything goes to whom it should if and only if the claimants take their
turns in order. -/
theorem occupied_iff_deserves_iff
    (hdistinct : (claimants.map land.root).Nodup) :
    (∀ path claimant, occupied land claimants path = some claimant ↔
      Deserves land claimants path claimant) ↔
        InOrder land claimants := by
  constructor
  · exact inOrder_of_occupied hself hdistinct
  · exact fun horder path claimant =>
      ⟨deserves_of_occupied hself horder,
        occupied_of_deserves hself horder⟩

end Turns

end MirrorMirage.Occupation
