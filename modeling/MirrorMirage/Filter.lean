import MirrorMirage.Config

/-!
# Event filtering and normalization

The glob matcher and the event filter of `filter.py`.  `fnmatch.fnmatchcase`
is a parameter, a predicate on a path component and a pattern segment.
-/

namespace MirrorMirage.Filter

open Pathlib

section Globs

variable (fnmatchcase : String → String → Bool)

/-- `_gm` on the remaining pattern segments `pp[pi:]` and the remaining path
components `sp[si:]`. -/
def gm : List String → List String → Bool
  | [], sp => sp.isEmpty
  | [segment], sp =>
      if segment = "**" then true
      else match sp with
        | [] => false
        | component :: rest =>
            fnmatchcase component segment && rest.isEmpty
  | segment :: next :: pp, sp =>
      if segment = "**" then
        -- one turn of the loop that collapses a run of `**`
        if next = "**" then gm (next :: pp) sp
        else sp.tails.any (gm (next :: pp))
      else match sp with
        | [] => false
        | component :: rest =>
            fnmatchcase component segment && gm (next :: pp) rest

/-- `pattern.split("/")`. -/
def splitSlash (pattern : String) : List String :=
  (pattern.toList.splitOn '/').map String.ofList

/-- True if any pattern matches the path components. -/
def matchesAnyGlob (relParts : List String) (patterns : List String) : Bool :=
  patterns.any fun pattern => gm fnmatchcase (splitSlash pattern) relParts

end Globs

/-- Downstream-relevant event kinds. -/
inductive EventKind where
  | invalidate
  | delete
  deriving DecidableEq, Repr

/-- A normalized filesystem event ready for the mapper. -/
structure FsEvent where
  kind : EventKind
  absPath : Path
  watchRoot : Path
  deriving DecidableEq, Repr

def invalidateMasks : List String := ["IN_MOVED_TO", "IN_CLOSE_WRITE"]

def deleteMasks : List String := ["IN_DELETE", "IN_MOVED_FROM"]

/-- The watch list as `EventFilter.__init__` keeps it: deepest root first,
watches of equal depth in their configured order.  `len(path.parts)` leaves out
an empty anchor, which no path is below together with `/`. -/
def sortedWatches (watches : List WatchConfig) : List WatchConfig :=
  watches.mergeSort fun left right =>
    decide (right.path.length ≤ left.path.length)

/-- The first watch of the sorted list whose root contains the path, with the
path relative to it. -/
def owner (absPath : Path) : List WatchConfig → Option (WatchConfig × Path)
  | [] => none
  | watch :: rest =>
      match relativeTo absPath watch.path with
      | some rel => some (watch, rel)
      | none => owner absPath rest

/-- `EventFilter.normalize`. -/
def normalize (fnmatchcase : String → String → Bool)
    (watches : List WatchConfig) (maskName : String) (absPath : Path) :
    Option FsEvent :=
  match owner absPath (sortedWatches watches) with
  | none => none
  | some (watch, rel) =>
      if matchesAnyGlob fnmatchcase rel watch.ignore then none
      else if maskName ∈ invalidateMasks then
        some ⟨.invalidate, absPath, watch.path⟩
      else if maskName ∈ deleteMasks then
        if watch.flushOnDelete then some ⟨.delete, absPath, watch.path⟩
        else none
      else none

end MirrorMirage.Filter
