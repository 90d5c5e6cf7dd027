import Mathlib.Data.List.Basic

/-!
# Paths

What the modelled components use of `pathlib`.  A path is its anchor, `/` or
for a relative path the empty text, followed by the names in it; what a path is
relative to another one is the names alone.
-/

namespace MirrorMirage

/-- The anchor and the names of `path.parts`, outermost first. -/
abbrev Path := List String

namespace Pathlib

/-- `path.relative_to(root)`; `none` is its `ValueError`. -/
def relativeTo (path root : Path) : Option Path :=
  if root <+: path then some (path.drop root.length) else none

/-- `path.as_posix()` of a relative path. -/
def asPosix (rel : Path) : String :=
  if rel = [] then "." else String.intercalate "/" rel

/-- `str(path)`. -/
def str (path : Path) : String :=
  if path.all (· = "") then "."
  else path.headD "" ++ String.intercalate "/" path.tail

@[simp]
theorem relativeTo_append (root rel : Path) :
    relativeTo (root ++ rel) root = some rel := by
  simp [relativeTo]

theorem relativeTo_eq_some_iff {path root rel : Path} :
    relativeTo path root = some rel ↔ path = root ++ rel := by
  constructor
  · intro h
    simp only [relativeTo] at h
    split at h
    · rename_i hstarts
      obtain ⟨suffix, rfl⟩ := hstarts
      simpa using h
    · cases h
  · rintro rfl
    exact relativeTo_append root rel

end Pathlib

end MirrorMirage
