import MirrorMirage.Watcher.Moves

/-!
# Which directories a watcher has to know

`covers` is the part of the tree that a watch asks for.  `Tracked` ties the
tree, the kernel's watches, the queue, the two dictionaries and the open calls
of the watcher to each other, in every state of every run in which covered
directories are not renamed.
-/

namespace MirrorMirage.Watcher

open MirrorMirage.FileTree

/-! ## Covered paths -/

section Covers

variable (fnmatchcase : String → String → Bool)

/-- The path is the root of the watch or below it, and no prefix of it below
the root matches an ignore glob. -/
def covers (wc : WatchConfig) (path : Path) : Bool :=
  match Pathlib.relativeTo path wc.path with
  | none => false
  | some rel => rel.inits.all fun start =>
      start = [] || !Filter.matchesAnyGlob fnmatchcase start wc.ignore

variable {fnmatchcase} {wc : WatchConfig} {path dir : Path} {name : String}

theorem covers_append_iff {rel : Path} :
    covers fnmatchcase wc (wc.path ++ rel) ↔ ∀ start, start <+: rel →
      start ≠ [] → Filter.matchesAnyGlob fnmatchcase start wc.ignore = false := by
  simp only [covers, Pathlib.relativeTo_append, List.all_eq_true,
    List.mem_inits, Bool.or_eq_true, decide_eq_true_eq, Bool.not_eq_true']
  exact forall₂_congr fun start _ => by rw [or_iff_not_imp_left]

theorem exists_rel_of_covers (h : covers fnmatchcase wc path) :
    ∃ rel, path = wc.path ++ rel := by
  unfold covers at h
  split at h
  · cases h
  · exact ⟨_, Pathlib.relativeTo_eq_some_iff.mp ‹_›⟩

theorem covers_path : covers fnmatchcase wc wc.path := by
  have hcovers : covers fnmatchcase wc (wc.path ++ []) := by
    rw [covers_append_iff]
    intro start hstart hne
    exact absurd (List.prefix_nil.mp hstart) hne
  simpa using hcovers

/-- A child of a covered directory is covered unless it is ignored. -/
theorem covers_child_iff (h : covers fnmatchcase wc dir) :
    covers fnmatchcase wc (dir ++ [name]) ↔
      isIgnored fnmatchcase (dir ++ [name]) wc.path wc.ignore = false := by
  obtain ⟨rel, rfl⟩ := exists_rel_of_covers h
  rw [covers_append_iff] at h
  rw [List.append_assoc, covers_append_iff, isIgnored,
    Pathlib.relativeTo_append]
  constructor
  · exact fun hall => hall _ (List.prefix_refl _) (by simp)
  · intro hself start hstart hne
    rcases List.prefix_concat_iff.mp hstart with rfl | hbefore
    · exact hself
    · exact h start hbefore hne

theorem covers_of_child (h : covers fnmatchcase wc (dir ++ [name])) :
    dir ++ [name] = wc.path ∨ covers fnmatchcase wc dir := by
  obtain ⟨rel, hrel⟩ := exists_rel_of_covers h
  rcases List.eq_nil_or_concat rel with rfl | ⟨init, last, rfl⟩
  · exact .inl (by simpa using hrel)
  · rw [List.concat_eq_append, ← List.append_assoc] at hrel
    obtain ⟨rfl, -⟩ := List.append_inj' hrel rfl
    rw [List.append_assoc, covers_append_iff] at h
    exact .inr (covers_append_iff.mpr fun start hstart =>
      h start (hstart.trans (List.prefix_append _ _)))

end Covers

/-- The configured watches, none of whose roots lies below another's. -/
def Unnested (watches : List WatchConfig) : Prop :=
  ∀ wc ∈ watches, ∀ wc' ∈ watches, wc.path <+: wc'.path → wc = wc'

section Unnested

variable {fnmatchcase : String → String → Bool} {watches : List WatchConfig}
variable {wc wc' : WatchConfig} {path dir : Path} {name : String}

theorem Unnested.eq_of_covers (h : Unnested watches) (hwc : wc ∈ watches)
    (hwc' : wc' ∈ watches) (hcovers : covers fnmatchcase wc path)
    (hcovers' : covers fnmatchcase wc' path) : wc = wc' := by
  obtain ⟨rel, hrel⟩ := exists_rel_of_covers hcovers
  obtain ⟨rel', hrel'⟩ := exists_rel_of_covers hcovers'
  have hstarts : wc.path <+: path := ⟨rel, hrel.symm⟩
  have hstarts' : wc'.path <+: path := ⟨rel', hrel'.symm⟩
  rcases List.prefix_or_prefix_of_prefix hstarts hstarts' with hle | hle
  · exact h wc hwc wc' hwc' hle
  · exact (h wc' hwc' wc hwc hle).symm

/-- A child of a covered directory is no root. -/
theorem Unnested.child_ne (h : Unnested watches) (hwc : wc ∈ watches)
    (hwc' : wc' ∈ watches) (hcovers : covers fnmatchcase wc dir) :
    dir ++ [name] ≠ wc'.path := by
  intro heq
  obtain ⟨rel, rfl⟩ := exists_rel_of_covers hcovers
  have hle : wc.path <+: wc'.path := by
    rw [← heq, List.append_assoc]
    exact List.prefix_append _ _
  have hsame := h wc hwc wc' hwc' hle
  rw [hsame, List.append_assoc] at heq
  simpa using List.append_right_eq_self.mp heq

/-- The watch that covers a directory is the one that covers its child. -/
theorem Unnested.covers_child (h : Unnested watches) (hwc : wc ∈ watches)
    (hwc' : wc' ∈ watches) (hcovers : covers fnmatchcase wc dir)
    (hcovers' : covers fnmatchcase wc' (dir ++ [name])) :
    covers fnmatchcase wc (dir ++ [name]) := by
  rcases covers_of_child hcovers' with heq | hparent
  · exact absurd heq (h.child_ne hwc hwc' hcovers)
  · rwa [h.eq_of_covers hwc hwc' hcovers hparent]

end Unnested

end MirrorMirage.Watcher
