import Mathlib.Data.List.Nodup
import MirrorMirage.Pipeline

/-!
# An event belongs to the watch with the deepest root

The filter sorts its watches by depth and takes the first whose root contains
the path.  Which watch that is depends on what watches there are and not on
their order, as long as no two of them have the same root.
-/

namespace MirrorMirage.Filter

open Pathlib

/-- A watch whose root contains the path, below every other such root. -/
def Owns (watches : List WatchConfig) (absPath : Path) (watch : WatchConfig) :
    Prop :=
  watch ∈ watches ∧ watch.path <+: absPath ∧
    ∀ other ∈ watches, other.path <+: absPath → other.path <+: watch.path

/-- What a mask is about, if anything. -/
def kindOf (maskName : String) : Option EventKind :=
  if maskName ∈ invalidateMasks then some .invalidate
  else if maskName ∈ deleteMasks then some .delete
  else none

/-- What one watch makes of an event below its root. -/
def ownEvent (fnmatchcase : String → String → Bool) (watch : WatchConfig)
    (maskName : String) (absPath rel : Path) : Option FsEvent :=
  if matchesAnyGlob fnmatchcase rel watch.ignore then none
  else (kindOf maskName).bind fun kind =>
    if kind = .delete ∧ watch.flushOnDelete = false then none
    else some ⟨kind, absPath, watch.path⟩

section Owner

variable {watches watches' : List WatchConfig} {watch other : WatchConfig}
variable {absPath rel : Path}

theorem owner_eq_none_iff : owner absPath watches = none ↔
    ∀ watch ∈ watches, ¬ watch.path <+: absPath := by
  induction watches with
  | nil => simp [owner]
  | cons head rest ih =>
      rw [owner, relativeTo]
      by_cases hroot : head.path <+: absPath <;> simp [hroot, ih]

theorem mem_sortedWatches : watch ∈ sortedWatches watches ↔
    watch ∈ watches :=
  List.mem_mergeSort

/-- The owner that the filter finds. -/
theorem owns_of_owner
    (howner : owner absPath (sortedWatches watches) = some (watch, rel)) :
    Owns watches absPath watch ∧ absPath = watch.path ++ rel := by
  obtain ⟨hfind, hpath⟩ := owner_eq_some_iff.mp howner
  have hroot : watch.path <+: absPath := hpath ▸ List.prefix_append _ _
  refine ⟨⟨mem_sortedWatches.mp (List.mem_of_find?_eq_some hfind), hroot,
    fun other hother hbelow => ?_⟩, hpath⟩
  exact List.prefix_of_prefix_length_le hbelow hroot
    (length_le_of_owner howner hother hbelow)

theorem exists_owner (hmem : watch ∈ watches) (hroot : watch.path <+: absPath) :
    ∃ watch' rel,
      owner absPath (sortedWatches watches) = some (watch', rel) := by
  cases howner : owner absPath (sortedWatches watches) with
  | none =>
      have hnone := owner_eq_none_iff.mp howner watch
        (mem_sortedWatches.mpr hmem)
      exact absurd hroot hnone
  | some found => exact ⟨found.1, found.2, rfl⟩

/-- No two watches with different roots own the same path. -/
theorem Owns.eq (hdistinct : (watches.map (·.path)).Nodup)
    (h : Owns watches absPath watch) (h' : Owns watches absPath other) :
    watch = other := by
  have hpath : watch.path = other.path :=
    (h'.2.2 watch h.1 h.2.1).eq_of_length_le
      (h.2.2 other h'.1 h'.2.1).length_le
  exact List.inj_on_of_nodup_map hdistinct h.1 h'.1 hpath

theorem Owns.owner_eq (hdistinct : (watches.map (·.path)).Nodup)
    (h : Owns watches absPath watch) (hrel : absPath = watch.path ++ rel) :
    owner absPath (sortedWatches watches) = some (watch, rel) := by
  obtain ⟨found, rel', hfound⟩ := exists_owner h.1 h.2.1
  obtain ⟨howns, hpath⟩ := owns_of_owner hfound
  obtain rfl := howns.eq hdistinct h
  rw [hfound, List.append_cancel_left (hpath.symm.trans hrel)]

theorem Owns.congr (hmem : ∀ watch, watch ∈ watches' ↔ watch ∈ watches)
    (h : Owns watches absPath watch) : Owns watches' absPath watch :=
  ⟨(hmem watch).mpr h.1, h.2.1, fun other hother =>
    h.2.2 other ((hmem other).mp hother)⟩

end Owner

section Normalize

variable {fnmatchcase : String → String → Bool}
variable {watches watches' : List WatchConfig} {watch : WatchConfig}
variable {maskName : String} {absPath rel : Path} {event : FsEvent}

theorem normalize_eq_ownEvent
    (howner : owner absPath (sortedWatches watches) = some (watch, rel)) :
    normalize fnmatchcase watches maskName absPath =
      ownEvent fnmatchcase watch maskName absPath rel := by
  rw [normalize, howner, ownEvent, kindOf]
  simp only
  split
  · rfl
  · split
    · rfl
    · split
      · cases watch.flushOnDelete <;> simp
      · rfl

theorem normalize_eq_none
    (hnone : ∀ watch ∈ watches, ¬ watch.path <+: absPath) :
    normalize fnmatchcase watches maskName absPath = none := by
  have howner : owner absPath (sortedWatches watches) = none :=
    owner_eq_none_iff.mpr fun watch hmem =>
      hnone watch (mem_sortedWatches.mp hmem)
  rw [normalize, howner]

/-- An event that gets through bears the root of its owner. -/
theorem owns_of_normalize
    (hevent : normalize fnmatchcase watches maskName absPath = some event) :
    ∃ watch, Owns watches absPath watch ∧ event.watchRoot = watch.path := by
  cases howner : owner absPath (sortedWatches watches) with
  | none => simp [normalize, howner] at hevent
  | some found =>
      exact ⟨found.1, (owns_of_owner howner).1,
        (event_of_normalize hevent howner).2⟩

/-- Two lists that give a path the same owner, or none, give the same event. -/
theorem normalize_congr
    (hdistinct : (watches'.map (·.path)).Nodup)
    (howns : ∀ watch, Owns watches absPath watch → Owns watches' absPath watch)
    (hnone : (∀ watch ∈ watches, ¬ watch.path <+: absPath) →
      ∀ watch ∈ watches', ¬ watch.path <+: absPath) :
    normalize fnmatchcase watches' maskName absPath =
      normalize fnmatchcase watches maskName absPath := by
  by_cases hroot : ∀ watch ∈ watches, ¬ watch.path <+: absPath
  · rw [normalize_eq_none hroot, normalize_eq_none (hnone hroot)]
  · push Not at hroot
    obtain ⟨watch, hmem, hroot⟩ := hroot
    obtain ⟨found, rel, hfound⟩ := exists_owner hmem hroot
    obtain ⟨howner, hrel⟩ := owns_of_owner hfound
    rw [normalize_eq_ownEvent hfound,
      normalize_eq_ownEvent ((howns found howner).owner_eq hdistinct hrel)]

end Normalize

/-- For every list of watches, mask and path: an event gets through only below
some root, and then it bears the deepest root that contains its path.  When no
two watches have the same root, the result depends neither on the order of the
watches nor on the globs and the `flush_on_delete` of any but the owner, and it
is what the owner makes of the event. -/
theorem deepest_root_owns (fnmatchcase : String → String → Bool)
    (watches : List WatchConfig) (maskName : String) (absPath : Path) :
    (∀ event, normalize fnmatchcase watches maskName absPath = some event →
      (∃ watch ∈ watches, watch.path = event.watchRoot) ∧
      event.watchRoot <+: absPath ∧
      ∀ watch ∈ watches, watch.path <+: absPath →
        watch.path <+: event.watchRoot) ∧
    ((watches.map (·.path)).Nodup →
      (∀ watches', watches'.Perm watches →
        normalize fnmatchcase watches' maskName absPath =
          normalize fnmatchcase watches maskName absPath) ∧
      ((∀ watch ∈ watches, ¬ watch.path <+: absPath) →
        normalize fnmatchcase watches maskName absPath = none) ∧
      (∀ watch rel, Owns watches absPath watch → absPath = watch.path ++ rel →
        normalize fnmatchcase watches maskName absPath =
          ownEvent fnmatchcase watch maskName absPath rel) ∧
      ∀ change : WatchConfig → WatchConfig,
        (∀ watch ∈ watches, (change watch).path = watch.path ∧
          (Owns watches absPath watch → change watch = watch)) →
        normalize fnmatchcase (watches.map change) maskName absPath =
          normalize fnmatchcase watches maskName absPath) := by
  refine ⟨fun event hevent => ?_, fun hdistinct => ⟨fun watches' hperm => ?_,
    normalize_eq_none, fun watch rel howns hrel => ?_, fun change hchange => ?_⟩⟩
  · obtain ⟨watch, howns, hroot⟩ := owns_of_normalize hevent
    rw [hroot]
    exact ⟨⟨watch, howns.1, rfl⟩, howns.2⟩
  · have hmem : ∀ watch, watch ∈ watches' ↔ watch ∈ watches :=
      fun watch => hperm.mem_iff
    exact normalize_congr ((hperm.map _).nodup_iff.mpr hdistinct)
      (fun watch => Owns.congr hmem)
      (fun hnone watch hwatch => hnone watch ((hmem watch).mp hwatch))
  · exact normalize_eq_ownEvent (howns.owner_eq hdistinct hrel)
  · have hpaths : (watches.map change).map (·.path) = watches.map (·.path) := by
      rw [List.map_map]
      exact List.map_congr_left fun watch hwatch => (hchange watch hwatch).1
    refine normalize_congr (hpaths ▸ hdistinct) (fun watch howns => ?_)
      (fun hnone => ?_)
    · refine ⟨?_, howns.2.1, ?_⟩
      · rw [← (hchange watch howns.1).2 howns]
        exact List.mem_map_of_mem howns.1
      · intro other hother hbelow
        obtain ⟨before, hbefore, rfl⟩ := List.mem_map.mp hother
        rw [(hchange before hbefore).1] at hbelow ⊢
        exact howns.2.2 before hbefore hbelow
    · intro other hother
      obtain ⟨before, hbefore, rfl⟩ := List.mem_map.mp hother
      rw [(hchange before hbefore).1]
      exact hnone before hbefore

section Samples

def outer : WatchConfig where
  path := ["/", "srv"]
  ignore := ["**"]
  bindings := []

def inner : WatchConfig where
  path := ["/", "srv", "pub"]
  flushOnDelete := true
  bindings := []

/-- The inner watch decides, although the outer one comes first, ignores
everything and does not flush deletions. -/
theorem deepest_root_owns_sample :
    normalize (fun _ _ => false) [outer, inner] "IN_DELETE"
      ["/", "srv", "pub", "a"] =
        some ⟨.delete, ["/", "srv", "pub", "a"], ["/", "srv", "pub"]⟩ := by
  have howns : Owns [outer, inner] ["/", "srv", "pub", "a"] inner := by
    refine ⟨by simp, by decide, ?_⟩
    decide
  rw [((deepest_root_owns _ _ _ _).2 (by decide)).2.2.1 inner ["a"] howns rfl]
  decide

end Samples

end MirrorMirage.Filter
