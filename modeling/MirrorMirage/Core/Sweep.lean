import Mathlib.Data.List.Nodup

/-!
# Sweeps that stop at the first failure

A sweep goes over keys in order and works on those that are due.  A failure
ends it.  It gets to every key that is due if and only if no failure has such a
key behind it.
-/

namespace MirrorMirage.Sweep

variable {Key : Type*} (due fails : Key → Bool)

/-- The keys that are worked on, the one that fails included. -/
def visited : List Key → List Key
  | [] => []
  | key :: rest =>
      if due key then key :: (if fails key then [] else visited rest)
      else visited rest

/-- No key that is due comes after one that is due and fails. -/
def Unhindered (keys : List Key) : Prop :=
  ∀ before key rest, keys = before ++ key :: rest → due key → fails key →
    ∀ other ∈ rest, due other = false

variable {due fails} {key : Key} {before keys rest : List Key}

theorem visited_sublist : (visited due fails keys).Sublist keys := by
  induction keys with
  | nil => exact .slnil
  | cons key rest ih =>
      simp only [visited]
      split
      · split
        · exact (List.nil_sublist rest).cons_cons key
        · exact ih.cons_cons key
      · exact ih.cons key

theorem visited_skip (hskip : ∀ other ∈ before, due other = false) :
    visited due fails (before ++ rest) = visited due fails rest := by
  induction before with
  | nil => rfl
  | cons other before ih =>
      rw [List.forall_mem_cons] at hskip
      simp only [List.cons_append, visited, hskip.1]
      exact ih hskip.2

theorem visited_eq_nil (hskip : ∀ other ∈ keys, due other = false) :
    visited due fails keys = [] := by
  have hrest : visited due fails (keys ++ []) = visited due fails [] :=
    visited_skip hskip
  simpa [visited] using hrest

theorem visited_cons (hdue : due key) : visited due fails (key :: rest) =
    key :: (if fails key then [] else visited due fails rest) := by
  simp [visited, hdue]

/-- What lies behind a failure is not visited. -/
theorem visited_stop (hdue : due key) (hfails : fails key) :
    visited due fails (before ++ key :: rest) =
      visited due fails (before ++ [key]) := by
  induction before with
  | nil => simp [visited, hdue, hfails]
  | cons other before ih => simp only [List.cons_append, visited, ih]

/-- Nothing hinders a sweep if and only if it visits all that is due. -/
theorem unhindered_iff (hnodup : keys.Nodup) : Unhindered due fails keys ↔
    ∀ key ∈ keys, due key → key ∈ visited due fails keys := by
  constructor
  · intro hfree
    clear hnodup
    induction keys with
    | nil => simp
    | cons first rest ih =>
        have hrest : Unhindered due fails rest :=
          fun before key later hsplit =>
            hfree (first :: before) key later (by rw [hsplit]; rfl)
        intro key hkey hdue
        simp only [visited]
        rcases List.mem_cons.mp hkey with rfl | hkey
        · simp [hdue]
        · split
          · rename_i hfirst
            split
            · rename_i hfails
              have hquiet := hfree [] first rest rfl hfirst hfails key hkey
              simp [hdue] at hquiet
            · exact .tail _ (ih hrest key hkey hdue)
          · exact ih hrest key hkey hdue
  · rintro hall before key rest rfl hdue hfails other hother
    by_contra hbehind
    have hvisited := hall other (by simp [hother]) (by simpa using hbehind)
    rw [visited_stop hdue hfails] at hvisited
    have hmem := visited_sublist.mem hvisited
    obtain ⟨-, htail, hapart⟩ := List.nodup_append.mp hnodup
    rcases List.mem_append.mp hmem with hmem | hmem
    · exact hapart other hmem other (.tail _ hother) rfl
    · obtain rfl := List.mem_singleton.mp hmem
      exact (List.nodup_cons.mp htail).1 hother

end MirrorMirage.Sweep
