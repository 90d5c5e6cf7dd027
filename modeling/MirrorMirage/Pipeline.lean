import MirrorMirage.Core.StableSort
import MirrorMirage.Mapper

/-!
# The watch of an event

The filter takes the first watch with the deepest root that contains the path,
the mapper the last watch with that root.
-/

namespace MirrorMirage

open Pathlib

namespace Filter

/-- The order in which `EventFilter` sorts the watches. -/
def deeper (left right : WatchConfig) : Bool :=
  decide (right.path.length ≤ left.path.length)

section Owner

variable {watches : List WatchConfig} {watch other : WatchConfig}
variable {absPath rel : Path}

theorem deeper_trans (a b c : WatchConfig) (hab : deeper a b)
    (hbc : deeper b c) : deeper a c := by
  simp only [deeper, decide_eq_true_eq] at *
  omega

theorem deeper_total (a b : WatchConfig) : deeper a b || deeper b a := by
  simp only [deeper, Bool.or_eq_true, decide_eq_true_eq]
  omega

theorem owner_eq_some_iff : owner absPath watches = some (watch, rel) ↔
    watches.find? (fun watch => decide (watch.path <+: absPath)) = some watch ∧
      absPath = watch.path ++ rel := by
  induction watches with
  | nil => simp [owner]
  | cons head rest ih =>
      rw [owner]
      by_cases hroot : head.path <+: absPath
      · obtain ⟨found, rfl⟩ := hroot
        rw [relativeTo_append]
        constructor
        · intro h
          cases h
          simp
        · rintro ⟨hfind, heq⟩
          obtain rfl : head = watch := by simpa using hfind
          rw [List.append_cancel_left heq]
      · have hnone : relativeTo absPath head.path = none := by
          simp [relativeTo, hroot]
        rw [hnone]
        simpa [hroot] using ih

variable (howner : owner absPath (sortedWatches watches) = some (watch, rel))
include howner

/-- The owner has the deepest of the roots that contain the path. -/
theorem length_le_of_owner (hother : other ∈ watches)
    (hroot : other.path <+: absPath) :
    other.path.length ≤ watch.path.length := by
  have hdeeper : deeper watch other :=
    StableSort.le_of_find?_mergeSort deeper_trans deeper_total
      (owner_eq_some_iff.mp howner).1 hother (decide_eq_true hroot)
  simpa [deeper] using hdeeper

/-- The owner is the first watch of the list with its root. -/
theorem find?_path_of_owner :
    watches.find? (fun other => decide (other.path = watch.path)) =
      some watch := by
  obtain ⟨hfind, hpath⟩ := owner_eq_some_iff.mp howner
  have hsorted : (sortedWatches watches).find?
      (fun other => decide (other.path = watch.path)) = some watch := by
    apply StableSort.find?_of_imp _ hfind (by simp)
    intro other hsame
    rw [decide_eq_true_eq] at hsame ⊢
    rw [hsame, hpath]
    exact List.prefix_append _ _
  rw [← hsorted]
  apply (StableSort.find?_mergeSort deeper_trans deeper_total _).symm
  intro a b ha hb
  simp only [decide_eq_true_eq] at ha hb
  simp [deeper, ha, hb]

end Owner

end Filter

/-- What `_pipeline` submits for one event of the watcher. -/
def pipelineTargets (fnmatchcase : String → String → Bool)
    (watches : List WatchConfig) (maskName : String) (absPath : Path) :
    Option (List PurgeTarget) :=
  match Filter.normalize fnmatchcase watches maskName absPath with
  | none => some []
  | some event => Mapper.map watches event

/-- The bindings of a watch, as far as its targets depend on them. -/
def endpoints (watch : WatchConfig) : List (String × String) :=
  watch.bindings.map fun binding =>
    (binding.cdn, Mapper.rstripSlash binding.urlPrefix)

/-- The first and the last watch with that root have the same bindings, in
order and up to trailing slashes. -/
def SameBindings (watches : List WatchConfig) (root : Path) : Prop :=
  (watches.find? fun watch => decide (watch.path = root)).map endpoints =
    (watches.reverse.find? fun watch => decide (watch.path = root)).map
      endpoints

/-- One target for each binding of the watch. -/
def targetsOf (watch : WatchConfig) (rel : Path) : List PurgeTarget :=
  watch.bindings.map fun binding =>
    ⟨binding.cdn, Mapper.targetUrl binding rel⟩

theorem targetsOf_eq_iff {watch other : WatchConfig} {rel : Path} :
    targetsOf watch rel = targetsOf other rel ↔
      endpoints watch = endpoints other := by
  let target : String × String → PurgeTarget := fun endpoint =>
    ⟨endpoint.1, endpoint.2 ++ "/" ++ asPosix rel⟩
  have hinjective : Function.Injective target := by
    intro left right heq
    obtain ⟨hcdn, hurl⟩ := PurgeTarget.mk.inj heq
    apply Prod.ext hcdn
    simpa [String.append_assoc] using hurl
  have htargets : ∀ watch : WatchConfig,
      targetsOf watch rel = (endpoints watch).map target := by
    intro watch
    simp [targetsOf, endpoints, target, Mapper.targetUrl]
  rw [htargets, htargets]
  exact (List.map_injective_iff.mpr hinjective).eq_iff

section Agreement

variable {fnmatchcase : String → String → Bool} {watches : List WatchConfig}
variable {maskName : String} {absPath rel : Path} {event : Filter.FsEvent}
variable {watch : WatchConfig}

theorem event_of_normalize
    (hevent : Filter.normalize fnmatchcase watches maskName absPath =
      some event)
    (howner : Filter.owner absPath (Filter.sortedWatches watches) =
      some (watch, rel)) :
    event.absPath = absPath ∧ event.watchRoot = watch.path := by
  simp only [Filter.normalize, howner] at hevent
  split at hevent
  · cases hevent
  · split at hevent
    · cases hevent
      exact ⟨rfl, rfl⟩
    · split at hevent
      · split at hevent <;> cases hevent
        exact ⟨rfl, rfl⟩
      · cases hevent

/-- The mapper takes the last watch with the root of the event. -/
theorem map_eq_targetsOf {last : WatchConfig}
    (hlast : watches.reverse.find?
      (fun watch => decide (watch.path = event.watchRoot)) = some last)
    (hrel : event.absPath = event.watchRoot ++ rel) :
    Mapper.map watches event = some (targetsOf last rel) := by
  rw [Mapper.map, Mapper.byRoot, hlast, Option.map_some, hrel,
    relativeTo_append]
  by_cases hempty : last.bindings = []
  · simp [hempty, targetsOf]
  · simp [hempty, targetsOf]

/-- What is submitted for an event is what the watch that let it through asks
for, if and only if the mapper finds the same bindings. -/
theorem pipelineTargets_eq_iff
    (hevent : Filter.normalize fnmatchcase watches maskName absPath =
      some event)
    (howner : Filter.owner absPath (Filter.sortedWatches watches) =
      some (watch, rel)) :
    pipelineTargets fnmatchcase watches maskName absPath =
        some (targetsOf watch rel) ↔ SameBindings watches watch.path := by
  obtain ⟨habs, hroot⟩ := event_of_normalize hevent howner
  have hfirst := Filter.find?_path_of_owner howner
  have hmem := List.mem_of_find?_eq_some hfirst
  obtain ⟨last, hlast⟩ : ∃ last, watches.reverse.find?
      (fun other => decide (other.path = watch.path)) = some last := by
    apply Option.isSome_iff_exists.mp
    exact List.find?_isSome.mpr ⟨watch, by simpa using hmem, by simp⟩
  have hmap : Mapper.map watches event = some (targetsOf last rel) := by
    apply map_eq_targetsOf (by rw [hroot, hlast])
    rw [habs, hroot]
    exact (Filter.owner_eq_some_iff.mp howner).2
  rw [pipelineTargets, hevent, SameBindings, hfirst, hlast]
  simp only [hmap, Option.map_some, Option.some.injEq]
  rw [eq_comm, ← targetsOf_eq_iff]

/-- Nothing is submitted for what the filter drops; and what the mapper makes
of an event that a watch has let through are the targets of that watch, if
and only if the first and the last watch with its root have the same
bindings. -/
theorem mapper_follows_filter_iff :
    (Filter.normalize fnmatchcase watches maskName absPath = none →
      pipelineTargets fnmatchcase watches maskName absPath = some []) ∧
    ∀ event watch rel,
      Filter.normalize fnmatchcase watches maskName absPath = some event →
      Filter.owner absPath (Filter.sortedWatches watches) =
        some (watch, rel) →
      (pipelineTargets fnmatchcase watches maskName absPath =
          some (watch.bindings.map fun binding => ⟨binding.cdn,
            Mapper.rstripSlash binding.urlPrefix ++ "/" ++ asPosix rel⟩) ↔
        SameBindings watches watch.path) := by
  constructor
  · intro hnone
    rw [pipelineTargets, hnone]
  · intro event watch rel hevent howner
    exact pipelineTargets_eq_iff hevent howner

end Agreement

section Samples

def firstWatch : WatchConfig where
  path := ["/", "srv"]
  bindings := [⟨"fastly", "https://x/"⟩]

def secondWatch : WatchConfig where
  path := ["/", "srv"]
  bindings := [⟨"gcp", "https://y"⟩]

/-- Two watches of one depth stay in their order. -/
theorem sortedWatches_pair : Filter.sortedWatches [firstWatch, secondWatch] =
    [firstWatch, secondWatch] :=
  List.mergeSort_of_pairwise (by decide)

theorem mapper_follows_filter_iff_sample :
    pipelineTargets (fun _ _ => false) [firstWatch] "IN_CLOSE_WRITE"
      ["/", "srv", "a"] = some [⟨"fastly", "https://x/a"⟩] := by
  have hsorted : Filter.sortedWatches [firstWatch] = [firstWatch] :=
    List.mergeSort_of_pairwise (by decide)
  have howner : Filter.owner ["/", "srv", "a"]
      (Filter.sortedWatches [firstWatch]) = some (firstWatch, ["a"]) := by
    rw [hsorted]
    decide
  have hevent : Filter.normalize (fun _ _ => false) [firstWatch]
      "IN_CLOSE_WRITE" ["/", "srv", "a"] =
        some ⟨.invalidate, ["/", "srv", "a"], ["/", "srv"]⟩ := by
    rw [Filter.normalize, howner]
    decide
  rw [(mapper_follows_filter_iff.2 _ _ _ hevent howner).mpr rfl]
  decide +kernel

/-- The filter lets the event through for the first of two watches with one
root, and the mapper makes only targets of the second. -/
theorem second_watch_hides_first :
    Filter.owner ["/", "srv", "a"]
      (Filter.sortedWatches [firstWatch, secondWatch]) =
        some (firstWatch, ["a"]) ∧
    Filter.normalize (fun _ _ => false) [firstWatch, secondWatch]
      "IN_CLOSE_WRITE" ["/", "srv", "a"] =
        some ⟨.invalidate, ["/", "srv", "a"], ["/", "srv"]⟩ ∧
    pipelineTargets (fun _ _ => false) [firstWatch, secondWatch]
      "IN_CLOSE_WRITE" ["/", "srv", "a"] = some [⟨"gcp", "https://y/a"⟩] := by
  have howner : Filter.owner ["/", "srv", "a"]
      (Filter.sortedWatches [firstWatch, secondWatch]) =
        some (firstWatch, ["a"]) := by
    rw [sortedWatches_pair]
    decide
  have hevent : Filter.normalize (fun _ _ => false) [firstWatch, secondWatch]
      "IN_CLOSE_WRITE" ["/", "srv", "a"] =
        some ⟨.invalidate, ["/", "srv", "a"], ["/", "srv"]⟩ := by
    rw [Filter.normalize, howner]
    decide
  refine ⟨howner, hevent, ?_⟩
  rw [pipelineTargets, hevent]
  decide +kernel

end Samples

end MirrorMirage
