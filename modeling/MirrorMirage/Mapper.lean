import Mathlib.Data.List.DropRight
import MirrorMirage.Filter

/-!
# From filesystem events to purge targets

`mapper.py`: one target per binding of the watch an event belongs to.
-/

namespace MirrorMirage

/-- A single `(cdn_name, url)` pair the batcher should coalesce. -/
structure PurgeTarget where
  cdnName : String
  url : String
  deriving DecidableEq, Repr

namespace Mapper

open Pathlib

/-- `text.rstrip("/")`. -/
def rstripSlash (text : String) : String :=
  String.ofList (text.toList.rdropWhile (· = '/'))

/-- `self._by_root.get(root)`: the dictionary is filled in the order of the
watches, so the last watch with that root decides. -/
def byRoot (watches : List WatchConfig) (root : Path) :
    Option (List Binding) :=
  (watches.reverse.find? fun watch => watch.path = root).map (·.bindings)

/-- The URL of a file for one binding. -/
def targetUrl (binding : Binding) (rel : Path) : String :=
  rstripSlash binding.urlPrefix ++ "/" ++ asPosix rel

/-- `Mapper.map`; `none` is the `ValueError` of `relative_to`. -/
def map (watches : List WatchConfig) (event : Filter.FsEvent) :
    Option (List PurgeTarget) :=
  match byRoot watches event.watchRoot with
  | none => some []
  | some bindings =>
      if bindings = [] then some []
      else (relativeTo event.absPath event.watchRoot).map fun rel =>
        bindings.map fun binding => ⟨binding.cdn, targetUrl binding rel⟩

end Mapper

end MirrorMirage
