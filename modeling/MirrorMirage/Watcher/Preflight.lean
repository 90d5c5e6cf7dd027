import Mathlib.Algebra.GroupWithZero.Nat
import Mathlib.Data.Finset.Card
import MirrorMirage.Core.DirTree
import MirrorMirage.Watcher.Model

/-!
# The pre-flight count

`__aenter__` compares the limit of the kernel with a count of its own before
it adds any watch.  The count walks the tree once for each watch, and the
traversal that adds the watches skips what is watched already: the two agree
if and only if no directory is reached by two watches.

Nothing else runs meanwhile, and no call fails.  A path may lead through
symbolic links, and a watched root may be one.
-/

namespace MirrorMirage.Watcher.Preflight

open MirrorMirage.DirTree

/-- The directory that each path leads to, if any, symbolic links followed.
No inode has two places in a tree, and the path of a subdirectory leads to
it. -/
structure Disk where
  dirAt : Path → Option (Dir String)
  inos : ∀ {path dir}, dirAt path = some dir →
    (dir.ino :: dir.listing.inos).Nodup
  below : ∀ {path dir name sub}, dirAt path = some dir →
    (name, sub) ∈ dir.listing.subdirs → dirAt (path ++ [name]) = some sub

/-- The entries of `_dir_to_config` in their order; those of `_dir_to_root`
have the same keys, each with the path of the config. -/
abbrev Watched := List (Path × WatchConfig)

def Watched.paths (watched : Watched) : List Path := watched.map Prod.fst

structure InotifyLimitError where
  needed : ℕ
  available : ℤ
  deriving DecidableEq, Repr

section Functions

variable (fnmatchcase : String → String → Bool)

/-- What the walk prunes. -/
abbrev isPruned (ignore : List String) (childRel : Path) : Bool :=
  Filter.matchesAnyGlob fnmatchcase childRel ignore

/-- `_count_watchable_dirs`. -/
def countWatchableDirs (disk : Disk) (root : Path) (ignore : List String) :
    ℕ :=
  match disk.dirAt root with
  | none => 0
  | some dir => (dir.walk (isPruned fnmatchcase ignore)).length

/-- The early returns of `_add_recursive` on a directory. -/
def skips (watched : Watched) (path : Path) (wc : WatchConfig) : Bool :=
  (path ≠ wc.path && isIgnored fnmatchcase path wc.path wc.ignore) ||
    path ∈ watched.paths

/-- The loop of `_add_recursive` over the entries of a directory, with the
calls for its subdirectories. -/
def addEntries (wc : WatchConfig) (dir : Path) :
    Listing String → Watched → Watched
  | .nil, watched => watched
  | .dir name _ below rest, watched =>
      let path := dir ++ [name]
      addEntries wc dir rest
        (if skips fnmatchcase watched path wc then watched
          else addEntries wc path below (watched ++ [(path, wc)]))
  | .symlink _ _ rest, watched | .file _ rest, watched =>
      addEntries wc dir rest watched

/-- `_add_recursive(wc.path, wc)`. -/
def addRecursive (disk : Disk) (watched : Watched) (wc : WatchConfig) :
    Watched :=
  match disk.dirAt wc.path with
  | none => watched
  | some dir =>
      if skips fnmatchcase watched wc.path wc then watched
      else addEntries fnmatchcase wc wc.path dir.listing
        (watched ++ [(wc.path, wc)])

/-- The watches that `__aenter__` adds. -/
def addAll (disk : Disk) (watches : List WatchConfig) : Watched :=
  watches.foldl (addRecursive fnmatchcase disk) []

def needed (disk : Disk) (watches : List WatchConfig) : ℕ :=
  (watches.map fun wc =>
    countWatchableDirs fnmatchcase disk wc.path wc.ignore).sum

/-- `__aenter__`, where `available` is what `_read_max_user_watches` returns. -/
def aenter (disk : Disk) (available : Option ℤ) (watches : List WatchConfig) :
    Except InotifyLimitError Watched :=
  match available with
  | none => .ok (addAll fnmatchcase disk watches)
  | some limit =>
      if limit < needed fnmatchcase disk watches then
        .error ⟨needed fnmatchcase disk watches, limit⟩
      else .ok (addAll fnmatchcase disk watches)

/-- The inodes that have a watch. -/
def inodes (disk : Disk) (watched : Watched) : Finset ℕ :=
  (watched.paths.filterMap fun path =>
    (disk.dirAt path).map (·.ino)).toFinset

/-! ## What the two traversals visit -/

/-- A directory that the watch is to cover: real directories lead to it from
the root, and no glob matches it or a directory on the way. -/
def Watchable (disk : Disk) (wc : WatchConfig) (path : Path) (ino : ℕ) : Prop :=
  ∃ root rel target, disk.dirAt wc.path = some root ∧ Leads root rel target ∧
    target.ino = ino ∧ path = wc.path ++ rel ∧
    Unpruned (isPruned fnmatchcase wc.ignore) [] rel

/-- What the walk of `_count_watchable_dirs` comes to. -/
def visited (disk : Disk) (wc : WatchConfig) : List (Path × ℕ) :=
  match disk.dirAt wc.path with
  | none => []
  | some dir => (dir.walk (isPruned fnmatchcase wc.ignore)).map fun found =>
      (wc.path ++ found.1, found.2)

end Functions

section Visits

variable {fnmatchcase : String → String → Bool} {disk : Disk}
variable {wc : WatchConfig} {watched : Watched} {path : Path} {ino : ℕ}

theorem length_visited : (visited fnmatchcase disk wc).length =
    countWatchableDirs fnmatchcase disk wc.path wc.ignore := by
  unfold visited countWatchableDirs
  split <;> simp

theorem mem_visited_iff : (path, ino) ∈ visited fnmatchcase disk wc ↔
    Watchable fnmatchcase disk wc path ino := by
  unfold visited Watchable
  split
  · simp [*]
  · rename_i dir hdir
    simp only [List.mem_map, Prod.mk.injEq, Prod.exists, hdir,
      Option.some.injEq]
    constructor
    · rintro ⟨rel, found, hmem, rfl, rfl⟩
      obtain ⟨target, hleads, hino, hprune⟩ := Dir.mem_walk_iff.mp hmem
      exact ⟨dir, rel, target, rfl, hleads, hino, rfl, hprune⟩
    · rintro ⟨_, rel, target, rfl, hleads, hino, rfl, hprune⟩
      exact ⟨rel, ino, Dir.mem_walk_iff.mpr ⟨target, hleads, hino, hprune⟩,
        rfl, rfl⟩

theorem Disk.dirAt_of_leads {root target : Dir String} {rel : Path}
    (hroot : disk.dirAt path = some root) (hleads : Leads root rel target) :
    disk.dirAt (path ++ rel) = some target := by
  induction hleads generalizing path with
  | refl => simpa using hroot
  | cons hsub _ ih =>
      rw [List.append_cons]
      exact ih (disk.below hroot hsub)

/-- The path of a directory determines its inode. -/
theorem Watchable.dirAt (h : Watchable fnmatchcase disk wc path ino) :
    (disk.dirAt path).map (·.ino) = some ino := by
  obtain ⟨root, rel, target, hroot, hleads, rfl, rfl, -⟩ := h
  rw [disk.dirAt_of_leads hroot hleads]
  rfl

theorem nodup_visited_inos :
    ((visited fnmatchcase disk wc).map Prod.snd).Nodup := by
  unfold visited
  split
  · exact List.nodup_nil
  · rw [List.map_map]
    exact Dir.nodup_walk (disk.inos ‹_›)

theorem nodup_visited_paths :
    ((visited fnmatchcase disk wc).map Prod.fst).Nodup := by
  have hinos : ((visited fnmatchcase disk wc).map Prod.fst).map
      (fun path => (disk.dirAt path).map (·.ino)) =
        ((visited fnmatchcase disk wc).map Prod.snd).map some := by
    rw [List.map_map, List.map_map]
    exact List.map_congr_left fun found hfound =>
      (mem_visited_iff.mp hfound).dirAt
  refine List.Nodup.of_map (fun path => (disk.dirAt path).map (·.ino)) ?_
  rw [hinos]
  exact nodup_visited_inos.map (Option.some_injective _)

/-! ## Adding watches -/

@[simp] theorem paths_append (added : Watched) :
    (watched ++ added : Watched).paths = watched.paths ++ added.paths :=
  List.map_append

theorem mem_paths_map {visits : List (Path × ℕ)} {place : Path → Path} :
    path ∈ Watched.paths (visits.map fun found => (place found.1, wc)) ↔
      ∃ found ∈ visits, path = place found.1 := by
  simp [Watched.paths, eq_comm]

theorem paths_map {visits : List (Path × ℕ)} :
    Watched.paths (visits.map fun found => (found.1, wc)) =
      visits.map Prod.fst := by
  simp [Watched.paths, Function.comp_def]

theorem skips_iff {rel : Path} {name : String} :
    skips fnmatchcase watched (wc.path ++ rel ++ [name]) wc ↔
      isPruned fnmatchcase wc.ignore (rel ++ [name]) ∨
        wc.path ++ rel ++ [name] ∈ watched.paths := by
  have hne : wc.path ++ (rel ++ [name]) ≠ wc.path := by simp
  simp [skips, isIgnored, hne]

/-- A path that is new is none of those still to be visited. -/
theorem fresh_append {visits : List (Path × ℕ)} {added : Path}
    (hfresh : ∀ found ∈ visits, wc.path ++ found.1 ∉ watched.paths)
    (hadded : added ∉ visits.map Prod.fst) :
    ∀ found ∈ visits, wc.path ++ found.1 ∉
      (watched ++ [(wc.path ++ added, wc)] : Watched).paths := by
  intro found hfound hmem
  rw [paths_append, List.mem_append] at hmem
  rcases hmem with hmem | hmem
  · exact hfresh found hfound hmem
  · have heq := List.append_cancel_left (List.mem_singleton.mp hmem)
    exact hadded (heq ▸ List.mem_map_of_mem hfound)

section Entries

variable {rel : Path} {listing : Listing String}

/-- Where nothing is watched yet, the traversal adds what the walk comes to. -/
theorem addEntries_eq
    (hfresh : ∀ found ∈ listing.walk (isPruned fnmatchcase wc.ignore) rel,
      wc.path ++ found.1 ∉ watched.paths)
    (hnodup : ((listing.walk (isPruned fnmatchcase wc.ignore) rel).map
      Prod.fst).Nodup) :
    addEntries fnmatchcase wc (wc.path ++ rel) listing watched =
      watched ++ (listing.walk (isPruned fnmatchcase wc.ignore) rel).map
        fun found => (wc.path ++ found.1, wc) := by
  induction listing generalizing rel watched with
  | nil => simp [addEntries, Listing.walk]
  | symlink name toDir rest ih => exact ih hfresh hnodup
  | file name rest ih => exact ih hfresh hnodup
  | dir name ino below rest ihBelow ihRest =>
      simp only [addEntries]
      by_cases hignored : isPruned fnmatchcase wc.ignore (rel ++ [name])
      · rw [Listing.walk_of_pruned hignored] at hfresh hnodup ⊢
        rw [if_pos (skips_iff.mpr (.inl hignored))]
        exact ihRest hfresh hnodup
      · rw [Listing.walk_of_kept (by simpa using hignored)]
          at hfresh hnodup ⊢
        have hnew : ¬ skips fnmatchcase watched
            (wc.path ++ rel ++ [name]) wc := by
          rw [skips_iff, not_or, List.append_assoc]
          exact ⟨hignored, hfresh _ (List.mem_cons_self ..)⟩
        rw [if_neg hnew]
        obtain ⟨hhead, hrest⟩ := List.nodup_cons.mp hnodup
        have hstart := fresh_append (fun found hfound =>
          hfresh found (List.mem_cons_of_mem _ hfound)) hhead
        rw [List.map_append, List.nodup_append] at hrest
        obtain ⟨hbelow, hlater, hapart⟩ := hrest
        rw [List.append_assoc wc.path, ihBelow ?_ hbelow, ihRest ?_ hlater]
        · simp
        · intro found hfound hmem
          rw [paths_append, List.mem_append, mem_paths_map] at hmem
          rcases hmem with hmem | ⟨other, hother, heq⟩
          · exact hstart found (List.mem_append_right _ hfound) hmem
          · exact hapart _ (List.mem_map_of_mem hother) _
              (List.mem_map_of_mem hfound) (List.append_cancel_left heq).symm
        · exact fun found hfound =>
            hstart found (List.mem_append_left _ hfound)

/-- What is added, and nothing twice. -/
theorem addEntries_paths
    (hnodup : watched.paths.Nodup) :
    (addEntries fnmatchcase wc (wc.path ++ rel) listing watched).paths.Nodup ∧
      ∀ path ∈ (addEntries fnmatchcase wc (wc.path ++ rel) listing
        watched).paths, path ∈ watched.paths ∨
          ∃ found ∈ listing.walk (isPruned fnmatchcase wc.ignore) rel,
            path = wc.path ++ found.1 := by
  induction listing generalizing rel watched with
  | nil => exact ⟨hnodup, fun path hpath => .inl hpath⟩
  | symlink name toDir rest ih => exact ih hnodup
  | file name rest ih => exact ih hnodup
  | dir name ino below rest ihBelow ihRest =>
      simp only [addEntries]
      by_cases hskip : skips fnmatchcase watched (wc.path ++ rel ++ [name]) wc
      · rw [if_pos hskip]
        refine ⟨(ihRest hnodup).1, fun path hpath => ?_⟩
        refine ((ihRest hnodup).2 path hpath).imp_right ?_
        rintro ⟨found, hfound, heq⟩
        exact ⟨found, by simp [Listing.walk, hfound], heq⟩
      · rw [if_neg hskip, List.append_assoc wc.path]
        rw [skips_iff, not_or, List.append_assoc] at hskip
        obtain ⟨hkept, hnew⟩ := hskip
        have hadded : (watched ++
            [(wc.path ++ (rel ++ [name]), wc)] : Watched).paths.Nodup := by
          rw [paths_append]
          exact hnodup.append (List.nodup_singleton _)
            (List.disjoint_singleton.mpr hnew)
        obtain ⟨hbelow, hfrom⟩ := @ihBelow _ (rel ++ [name]) hadded
        obtain ⟨hrest, hfrom'⟩ := @ihRest _ rel hbelow
        refine ⟨hrest, fun path hpath => ?_⟩
        rw [Listing.walk_of_kept (by simpa using hkept)]
        rcases hfrom' path hpath with hpath | ⟨found, hfound, heq⟩
        · rcases hfrom path hpath with hpath | ⟨found, hfound, heq⟩
          · rw [paths_append, List.mem_append] at hpath
            rcases hpath with hpath | hpath
            · exact .inl hpath
            · exact .inr ⟨_, List.mem_cons_self ..,
                List.mem_singleton.mp hpath⟩
          · exact .inr ⟨found, by simp [hfound], heq⟩
        · exact .inr ⟨found, by simp [hfound], heq⟩

end Entries

theorem skips_root : skips fnmatchcase watched wc.path wc ↔
    wc.path ∈ watched.paths := by
  simp [skips]

theorem visited_eq {dir : Dir String} (hdir : disk.dirAt wc.path = some dir) :
    visited fnmatchcase disk wc = (wc.path, dir.ino) ::
      (dir.listing.walk (isPruned fnmatchcase wc.ignore) []).map fun found =>
        (wc.path ++ found.1, found.2) := by
  simp [visited, hdir, Dir.walk]

theorem addRecursive_eq
    (hfresh : ∀ found ∈ visited fnmatchcase disk wc, found.1 ∉ watched.paths) :
    addRecursive fnmatchcase disk watched wc =
      watched ++ (visited fnmatchcase disk wc).map fun found =>
        (found.1, wc) := by
  have hpaths : ((visited fnmatchcase disk wc).map Prod.fst).Nodup :=
    nodup_visited_paths
  unfold addRecursive
  cases hdir : disk.dirAt wc.path with
  | none => simp [visited, hdir]
  | some dir =>
      rw [visited_eq hdir] at hfresh hpaths ⊢
      have hroot := hfresh _ (List.mem_cons_self ..)
      obtain ⟨hhead, hpaths⟩ := List.nodup_cons.mp hpaths
      rw [List.map_map] at hhead hpaths
      have hentries : addEntries fnmatchcase wc (wc.path ++ []) dir.listing
          (watched ++ [(wc.path, wc)]) = watched ++ [(wc.path, wc)] ++
            (dir.listing.walk (isPruned fnmatchcase wc.ignore) []).map
              fun found => (wc.path ++ found.1, wc) := by
        refine addEntries_eq (fun found hfound hmem => ?_)
          (List.Nodup.of_map (wc.path ++ ·) (by rwa [List.map_map]))
        rw [paths_append, List.mem_append] at hmem
        rcases hmem with hmem | hmem
        · exact hfresh _ (List.mem_cons_of_mem _
            (List.mem_map_of_mem hfound)) hmem
        · have heq := List.mem_singleton.mp hmem
          exact hhead (List.mem_map.mpr ⟨found, hfound, heq⟩)
      rw [List.append_nil] at hentries
      simp only [if_neg (skips_root.not.mpr hroot), hentries]
      simp

theorem addRecursive_paths (hnodup : watched.paths.Nodup) :
    (addRecursive fnmatchcase disk watched wc).paths.Nodup ∧
      ∀ path ∈ (addRecursive fnmatchcase disk watched wc).paths,
        path ∈ watched.paths ∨
          path ∈ (visited fnmatchcase disk wc).map Prod.fst := by
  unfold addRecursive
  cases hdir : disk.dirAt wc.path with
  | none => exact ⟨hnodup, fun path hpath => .inl hpath⟩
  | some dir =>
      rw [visited_eq hdir]
      simp only
      by_cases hroot : skips fnmatchcase watched wc.path wc
      · rw [if_pos hroot]
        exact ⟨hnodup, fun path hpath => .inl hpath⟩
      · rw [if_neg hroot]
        rw [skips_root] at hroot
        have hadded : (watched ++ [(wc.path, wc)] : Watched).paths.Nodup := by
          rw [paths_append]
          exact hnodup.append (List.nodup_singleton _)
            (List.disjoint_singleton.mpr hroot)
        have hentries : (addEntries fnmatchcase wc (wc.path ++ [])
            dir.listing (watched ++ [(wc.path, wc)])).paths.Nodup ∧ _ :=
          addEntries_paths hadded
        rw [List.append_nil] at hentries
        obtain ⟨hnodup', hfrom⟩ := hentries
        refine ⟨hnodup', fun path hpath => ?_⟩
        rcases hfrom path hpath with hpath | ⟨found, hfound, rfl⟩
        · rw [paths_append, List.mem_append] at hpath
          refine hpath.imp_right fun hpath => ?_
          rw [List.mem_singleton.mp hpath]
          exact List.mem_cons_self ..
        · exact .inr (List.mem_cons_of_mem _ (by
            rw [List.map_map]
            exact List.mem_map_of_mem hfound))

end Visits

/-! ## All watches -/

section Counts

variable {fnmatchcase : String → String → Bool} {disk : Disk}
variable {watches : List WatchConfig} {watched : Watched}

theorem foldl_paths (hnodup : watched.paths.Nodup) :
    (watches.foldl (addRecursive fnmatchcase disk) watched).paths.Nodup ∧
      ∀ path ∈ (watches.foldl (addRecursive fnmatchcase disk) watched).paths,
        path ∈ watched.paths ∨ ∃ wc ∈ watches,
          path ∈ (visited fnmatchcase disk wc).map Prod.fst := by
  induction watches generalizing watched with
  | nil => exact ⟨hnodup, fun path hpath => .inl hpath⟩
  | cons wc rest ih =>
      obtain ⟨hnodup', hfrom⟩ := @addRecursive_paths fnmatchcase disk wc _ hnodup
      obtain ⟨hall, hfrom'⟩ := ih hnodup'
      refine ⟨hall, fun path hpath => ?_⟩
      rcases hfrom' path hpath with hpath | ⟨other, hother, hpath⟩
      · exact (hfrom path hpath).imp_right fun hpath =>
          ⟨wc, List.mem_cons_self .., hpath⟩
      · exact .inr ⟨other, List.mem_cons_of_mem _ hother, hpath⟩

/-- Where no path is visited for two watches, all are added. -/
theorem foldl_eq
    (hfresh : ∀ wc ∈ watches, ∀ found ∈ visited fnmatchcase disk wc,
      found.1 ∉ watched.paths)
    (hapart : (watches.map fun wc =>
      (visited fnmatchcase disk wc).map Prod.fst).Pairwise List.Disjoint) :
    watches.foldl (addRecursive fnmatchcase disk) watched =
      watched ++ watches.flatMap fun wc =>
        (visited fnmatchcase disk wc).map fun found => (found.1, wc) := by
  induction watches generalizing watched with
  | nil => simp
  | cons wc rest ih =>
      obtain ⟨hfirst, hrest⟩ := List.pairwise_cons.mp hapart
      rw [List.foldl_cons, addRecursive_eq (hfresh wc (List.mem_cons_self ..)),
        ih ?_ hrest]
      · simp
      · intro other hother found hfound hmem
        rw [paths_append, List.mem_append] at hmem
        rcases hmem with hmem | hmem
        · exact hfresh other (List.mem_cons_of_mem _ hother) found hfound hmem
        · rw [paths_map] at hmem
          exact hfirst _ (List.mem_map_of_mem hother) hmem
            (List.mem_map_of_mem hfound)

/-- A count with repetitions is right where no two lists share anything. -/
theorem length_eq_card_iff {α : Type*} [DecidableEq α] {lists : List (List α)}
    {set : Finset α} (hnodup : ∀ list ∈ lists, list.Nodup)
    (hsub : set ⊆ lists.flatten.toFinset)
    (hfull : lists.Pairwise List.Disjoint → lists.flatten.toFinset ⊆ set) :
    set.card ≤ lists.flatten.length ∧
      (lists.flatten.length = set.card ↔ lists.Pairwise List.Disjoint) := by
  have hcard : set.card ≤ lists.flatten.toFinset.card := Finset.card_le_card hsub
  have hlength : lists.flatten.toFinset.card ≤ lists.flatten.length :=
    List.toFinset_card_le _
  refine ⟨hcard.trans hlength, fun heq => ?_, fun hapart => ?_⟩
  · have hall : lists.flatten.toFinset.card = lists.flatten.length := by omega
    exact (List.nodup_flatten.mp
      (Multiset.toFinset_card_eq_card_iff_nodup.mp hall)).2
  · rw [hsub.antisymm (hfull hapart), List.toFinset_card_of_nodup]
    exact List.nodup_flatten.mpr ⟨hnodup, hapart⟩

/-- No path is to be watched for two watches. -/
def Apart (fnmatchcase : String → String → Bool) (disk : Disk)
    (watches : List WatchConfig) : Prop :=
  watches.Pairwise fun wc other => ∀ path ino ino',
    Watchable fnmatchcase disk wc path ino →
      ¬ Watchable fnmatchcase disk other path ino'

/-- No directory is to be watched for two watches, under whatever paths. -/
def Separate (fnmatchcase : String → String → Bool) (disk : Disk)
    (watches : List WatchConfig) : Prop :=
  watches.Pairwise fun wc other => ∀ path path' ino,
    Watchable fnmatchcase disk wc path ino →
      ¬ Watchable fnmatchcase disk other path' ino

theorem apart_iff : Apart fnmatchcase disk watches ↔
    (watches.map fun wc => (visited fnmatchcase disk wc).map
      Prod.fst).Pairwise List.Disjoint := by
  rw [List.pairwise_map, Apart]
  refine List.Pairwise.iff fun wc other => ?_
  simp only [List.Disjoint, List.mem_map, Prod.exists, exists_and_right,
    exists_eq_right, mem_visited_iff]
  constructor
  · rintro h path ⟨ino, hino⟩ ⟨ino', hino'⟩
    exact h path ino ino' hino hino'
  · exact fun h path ino ino' hino hino' => h ⟨ino, hino⟩ ⟨ino', hino'⟩

theorem separate_iff : Separate fnmatchcase disk watches ↔
    (watches.map fun wc => (visited fnmatchcase disk wc).map
      Prod.snd).Pairwise List.Disjoint := by
  rw [List.pairwise_map, Separate]
  refine List.Pairwise.iff fun wc other => ?_
  simp only [List.Disjoint, List.mem_map, Prod.exists, exists_eq_right,
    mem_visited_iff]
  constructor
  · rintro h ino ⟨path, hpath⟩ ⟨path', hpath'⟩
    exact h path path' ino hpath hpath'
  · exact fun h path path' ino hpath hpath' => h ⟨path, hpath⟩ ⟨path', hpath'⟩

/-- A directory has one inode under each of its paths. -/
theorem Separate.apart (h : Separate fnmatchcase disk watches) :
    Apart fnmatchcase disk watches := by
  refine List.Pairwise.imp (fun hpair path ino ino' hino hino' => ?_) h
  have heq := hino.dirAt.symm.trans hino'.dirAt
  rw [← Option.some.inj heq] at hino'
  exact hpair path path ino hino hino'

theorem mem_inodes_iff {ino : ℕ} : ino ∈ inodes disk watched ↔
    ∃ path ∈ watched.paths, (disk.dirAt path).map (·.ino) = some ino := by
  simp [inodes]

theorem needed_eq_length {α : Type*} (key : Path × ℕ → α) :
    needed fnmatchcase disk watches = (watches.map fun wc =>
      (visited fnmatchcase disk wc).map key).flatten.length := by
  simp [needed, List.length_flatten, Function.comp_def, length_visited]

theorem addAll_paths :
    (addAll fnmatchcase disk watches).paths.Nodup ∧
      (addAll fnmatchcase disk watches).paths ⊆ (watches.map fun wc =>
        (visited fnmatchcase disk wc).map Prod.fst).flatten := by
  have hpaths : (addAll fnmatchcase disk watches).paths.Nodup ∧ _ :=
    foldl_paths List.nodup_nil
  refine ⟨hpaths.1, fun path hpath => ?_⟩
  rcases hpaths.2 path hpath with hpath | ⟨wc, hwc, hpath⟩
  · cases hpath
  · exact List.mem_flatten.mpr ⟨_, List.mem_map_of_mem hwc, hpath⟩

theorem addAll_paths_of_apart (hapart : Apart fnmatchcase disk watches) :
    (addAll fnmatchcase disk watches).paths = (watches.map fun wc =>
      (visited fnmatchcase disk wc).map Prod.fst).flatten := by
  rw [addAll, foldl_eq (by simp [Watched.paths]) (apart_iff.mp hapart)]
  simp [Watched.paths, List.flatMap, Function.comp_def]

theorem mem_flatten_paths_iff {path : Path} :
    path ∈ (watches.map fun wc =>
      (visited fnmatchcase disk wc).map Prod.fst).flatten ↔
        ∃ wc ∈ watches, ∃ ino, Watchable fnmatchcase disk wc path ino := by
  simp [← mem_visited_iff]

theorem mem_flatten_inos_iff {ino : ℕ} :
    ino ∈ (watches.map fun wc =>
      (visited fnmatchcase disk wc).map Prod.snd).flatten ↔
        ∃ wc ∈ watches, ∃ path, Watchable fnmatchcase disk wc path ino := by
  simp [← mem_visited_iff]

/-- Counted by their paths. -/
theorem needed_eq_paths_iff :
    needed fnmatchcase disk watches =
        (addAll fnmatchcase disk watches).paths.length ↔
      Apart fnmatchcase disk watches := by
  have hpaths : (addAll fnmatchcase disk watches).paths.Nodup ∧ _ :=
    addAll_paths
  rw [needed_eq_length Prod.fst, apart_iff,
    ← List.toFinset_card_of_nodup hpaths.1]
  refine (length_eq_card_iff ?_ ?_ ?_).2
  · intro list hlist
    obtain ⟨wc, -, rfl⟩ := List.mem_map.mp hlist
    exact nodup_visited_paths
  · exact fun path hpath =>
      List.mem_toFinset.mpr (hpaths.2 (List.mem_toFinset.mp hpath))
  · intro hapart
    rw [addAll_paths_of_apart (apart_iff.mpr hapart)]

/-- Counted by their inodes, there are never more than the count says. -/
theorem needed_eq_inodes_iff :
    (inodes disk (addAll fnmatchcase disk watches)).card ≤
        needed fnmatchcase disk watches ∧
      (needed fnmatchcase disk watches =
          (inodes disk (addAll fnmatchcase disk watches)).card ↔
        Separate fnmatchcase disk watches) := by
  rw [needed_eq_length Prod.snd, separate_iff]
  refine length_eq_card_iff ?_ ?_ ?_
  · intro list hlist
    obtain ⟨wc, -, rfl⟩ := List.mem_map.mp hlist
    exact nodup_visited_inos
  · intro ino hino
    obtain ⟨path, hpath, hdir⟩ := mem_inodes_iff.mp hino
    obtain ⟨wc, hwc, ino', hwatchable⟩ :=
      mem_flatten_paths_iff.mp (addAll_paths.2 hpath)
    rw [hwatchable.dirAt] at hdir
    obtain rfl := Option.some.inj hdir
    exact List.mem_toFinset.mpr
      (mem_flatten_inos_iff.mpr ⟨wc, hwc, path, hwatchable⟩)
  · intro hseparate ino hino
    obtain ⟨wc, hwc, path, hwatchable⟩ :=
      mem_flatten_inos_iff.mp (List.mem_toFinset.mp hino)
    refine mem_inodes_iff.mpr ⟨path, ?_, hwatchable.dirAt⟩
    rw [addAll_paths_of_apart (separate_iff.mpr hseparate).apart]
    exact mem_flatten_paths_iff.mpr ⟨wc, hwc, ino, hwatchable⟩

theorem aenter_error_iff {limit : ℤ} :
    (∃ error, aenter fnmatchcase disk (some limit) watches = .error error) ↔
      limit < needed fnmatchcase disk watches := by
  simp only [aenter]
  split <;> simp [*]

/-- For every tree and every list of watches.  The pre-flight count is the
number of the directories that get a watch if and only if no directory is to be
watched for two watches; counted by paths instead of inodes, if and only if no
path is.  Under the same condition, and under no other, `__aenter__` raises its
error for exactly the limits that are too low. -/
theorem preflight_is_exact_iff (fnmatchcase : String → String → Bool)
    (disk : Disk) (watches : List WatchConfig) :
    (needed fnmatchcase disk watches =
        (inodes disk (addAll fnmatchcase disk watches)).card ↔
      Separate fnmatchcase disk watches) ∧
    (needed fnmatchcase disk watches =
        (addAll fnmatchcase disk watches).paths.length ↔
      Apart fnmatchcase disk watches) ∧
    ((∀ limit : ℤ,
        (∃ error, aenter fnmatchcase disk (some limit) watches =
          .error error) ↔
        limit < (inodes disk (addAll fnmatchcase disk watches)).card) ↔
      Separate fnmatchcase disk watches) := by
  obtain ⟨hle, hexact⟩ := @needed_eq_inodes_iff fnmatchcase disk watches
  refine ⟨hexact, needed_eq_paths_iff, ?_⟩
  rw [← hexact]
  simp only [aenter_error_iff]
  constructor
  · intro hlimits
    have hneeded := (hlimits
      (inodes disk (addAll fnmatchcase disk watches)).card).not.mpr
        (lt_irrefl _)
    omega
  · exact fun heq limit => by rw [heq]

end Counts

/-- `/srv` with the subdirectory `pub`. -/
def nestedDisk : Disk where
  dirAt path :=
    if path = ["/", "srv"] then some ⟨1, .dir "pub" 2 .nil .nil⟩
    else if path = ["/", "srv", "pub"] then some ⟨2, .nil⟩
    else none
  inos := by
    intro path dir hdir
    split at hdir
    · cases hdir
      decide
    · split at hdir <;> cases hdir
      decide
  below := by
    intro path dir name sub hdir hsub
    split at hdir
    · rename_i hpath
      cases hdir
      obtain ⟨rfl, rfl⟩ : name = "pub" ∧ sub = ⟨2, .nil⟩ := by
        simpa [Listing.subdirs] using hsub
      simp [hpath]
    · split at hdir <;> cases hdir
      cases hsub

/-- With nested roots one of two directories is counted twice, and a limit of
two is refused. -/
theorem nested_roots_are_counted_twice :
    ¬ ∀ (fnmatchcase : String → String → Bool) (disk : Disk)
        (watches : List WatchConfig),
      needed fnmatchcase disk watches =
          (inodes disk (addAll fnmatchcase disk watches)).card ∧
        ∀ limit : ℤ,
          (∃ error, aenter fnmatchcase disk (some limit) watches =
            .error error) ↔
          limit < (inodes disk (addAll fnmatchcase disk watches)).card := by
  intro hclaim
  have heq := (hclaim (fun component segment => component = segment)
    nestedDisk [⟨["/", "srv"], [], false, []⟩,
      ⟨["/", "srv", "pub"], [], false, []⟩]).1
  revert heq
  decide +kernel

end MirrorMirage.Watcher.Preflight
