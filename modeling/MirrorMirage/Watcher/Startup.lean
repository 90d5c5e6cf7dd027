import Mathlib.Algebra.Order.BigOperators.Group.List
import Mathlib.Algebra.Order.Group.Nat
import Mathlib.Data.List.Nodup
import MirrorMirage.Core.Occupation
import MirrorMirage.Pipeline
import MirrorMirage.Watcher.Bookkeeping

/-!
# What start-up registers

On a tree that does not change, `__aenter__` lets the watches take directories
one after another: `_add_recursive` stops at what is registered already.  A
directory ends with the watch that owns it, as `EventFilter` sees it, if the
watches are listed in order; `EventFilter` sorts its copy, the watcher does
not.
-/

namespace MirrorMirage.Watcher

open Function (update)
open MirrorMirage.FileTree MirrorMirage.Occupation MirrorMirage.Run

/-! ## Territories -/

section Territory

variable (fnmatchcase : String → String → Bool)

theorem covers_of_prefix {fnmatchcase : String → String → Bool}
    {wc : WatchConfig} {path mid : Path} (h : covers fnmatchcase wc path)
    (hroot : wc.path <+: mid) (hmid : mid <+: path) :
    covers fnmatchcase wc mid := by
  obtain ⟨rel, rfl⟩ := hroot
  obtain ⟨rest, rfl⟩ := hmid
  rw [List.append_assoc, covers_append_iff] at h
  rw [covers_append_iff]
  exact fun start hstart =>
    h start (hstart.trans (List.prefix_append rel rest))

theorem isDir_of_above {fs : FsTree String} {path mid : Path}
    (h : fs.isDir path) (hmid : mid <+: path) : fs.isDir mid := by
  obtain ⟨rel, rfl⟩ := hmid
  by_cases hrel : rel = []
  · simpa [hrel] using h
  · obtain ⟨ino, hnode⟩ := fs.isDir_iff.mp h
    exact fs.isDir_iff.mpr (fs.isDir_of_below hrel (by simp [hnode]))

/-- The directories that a watch asks for. -/
def land (fs : FsTree String) : Territory String WatchConfig where
  root := (·.path)
  reaches := fun wc dir => fs.isDir dir ∧ covers fnmatchcase wc dir
  starts := by
    intro wc dir h
    obtain ⟨rel, rfl⟩ := exists_rel_of_covers h.2
    exact List.prefix_append _ _
  closed := fun h hroot hmid =>
    ⟨isDir_of_above h.1 hmid, covers_of_prefix h.2 hroot hmid⟩

/-- The watch that owns the directory, unless it ignores it. -/
def asked (watches : List WatchConfig) (dir : Path) : Option WatchConfig :=
  match Filter.owner dir (Filter.sortedWatches watches) with
  | none => none
  | some (wc, _) => if covers fnmatchcase wc dir then some wc else none

/-- A watch that covers the root of a later one is kept from it by an earlier
one, whose root is between the two. -/
def ListedInOrder (watches : List WatchConfig) : Prop :=
  ∀ before wc between later after,
    watches = before ++ wc :: (between ++ later :: after) →
    covers fnmatchcase wc later.path →
      ∃ blocker ∈ before, wc.path <+: blocker.path ∧
        blocker.path <+: later.path

variable {fnmatchcase} {fs : FsTree String} {watches : List WatchConfig}
variable {wc : WatchConfig} {dir : Path}

theorem inOrder_land_iff (hroots : ∀ wc ∈ watches, fs.isDir wc.path) :
    InOrder (land fnmatchcase fs) watches ↔
      ListedInOrder fnmatchcase watches := by
  constructor
  · intro h before wc between later after hsplit hcovers
    exact h before wc between later after hsplit
      ⟨hroots later (by simp [hsplit]), hcovers⟩
  · intro h before wc between later after hsplit hreaches
    exact h before wc between later after hsplit hreaches.2

theorem asked_eq_some_iff (hdistinct : (watches.map (·.path)).Nodup)
    (hdir : fs.isDir dir) : asked fnmatchcase watches dir = some wc ↔
      Deserves (land fnmatchcase fs) watches dir wc := by
  have hsorted : ∀ {wc}, wc ∈ Filter.sortedWatches watches ↔ wc ∈ watches :=
    List.mem_mergeSort
  constructor
  · intro h
    unfold asked at h
    split at h
    · cases h
    · rename_i found rel howner
      split at h <;> cases h
      rename_i hcovers
      have hfind := (Filter.owner_eq_some_iff.mp howner).1
      exact ⟨hsorted.mp (List.mem_of_find?_eq_some hfind), ⟨hdir, hcovers⟩,
        fun other hother hroot => Filter.length_le_of_owner howner hother hroot⟩
  · rintro ⟨hmem, ⟨-, hcovers⟩, hdeepest⟩
    obtain ⟨rel, rfl⟩ := exists_rel_of_covers hcovers
    have hfound : ((Filter.sortedWatches watches).find? fun other =>
        decide (other.path <+: wc.path ++ rel)).isSome := by
      rw [List.find?_isSome]
      exact ⟨wc, hsorted.mpr hmem, by simp⟩
    obtain ⟨found, hfind⟩ := Option.isSome_iff_exists.mp hfound
    have hroot : found.path <+: wc.path ++ rel := by
      simpa using List.find?_some hfind
    obtain ⟨foundRel, hrel⟩ := hroot
    have howner := Filter.owner_eq_some_iff.mpr ⟨hfind, hrel.symm⟩
    have hfoundMem := hsorted.mp (List.mem_of_find?_eq_some hfind)
    have hpath : found.path = wc.path := by
      have hle : found.path.length ≤ wc.path.length :=
        hdeepest found hfoundMem ⟨foundRel, hrel⟩
      have hge : wc.path.length ≤ found.path.length :=
        Filter.length_le_of_owner howner hmem (List.prefix_append _ _)
      exact (List.append_inj hrel (by omega)).1
    obtain rfl : found = wc :=
      List.inj_on_of_nodup_map hdistinct hfoundMem hmem hpath
    simp [asked, howner, hcovers]

end Territory

/-! ## One watch's turn -/

/-- The call will come to the directory. -/
def Call.ComesTo (path : Path) : Call → Prop
  | .enter _ dir _ | .addWatch _ dir _ | .record _ dir _ => dir = path
  | .scandir _ dir _ => ∃ name, path = dir ++ [name]
  | .scanning _ dir _ entries =>
      ∃ name, (name, true) ∈ entries ∧ path = dir ++ [name]
  | .file .. => False

section Turn

variable (fnmatchcase : String → String → Bool) (fs : FsTree String)
variable (taken : Path → Option WatchConfig) (wc : WatchConfig)

/-- The calls in the turn of a watch: past its checks a call is about a
directory that is open to the watch. -/
def Call.Walks : Call → Prop
  | .enter method dir wc' => method = .addRecursive ∧ wc' = wc ∧
      (dir = wc.path ∨ ∃ parent name, dir = parent ++ [name] ∧
        Open (land fnmatchcase fs) taken wc parent)
  | .addWatch method dir wc' | .record method dir wc'
  | .scandir method dir wc' | .scanning method dir wc' _ =>
      method = .addRecursive ∧ wc' = wc ∧
        Open (land fnmatchcase fs) taken wc dir
  | .file .. => False

/-- The directory is where a call of the watch starts: its root, or in a
directory that it has registered. -/
def Frontier (config : Path → Option WatchConfig) (path : Path) : Prop :=
  path = wc.path ∨ ∃ dir name, path = dir ++ [name] ∧ config dir = some wc

/-- What holds in the turn of a watch: what was taken is kept, what is new was
open to the watch, and some call comes to what it has still to register. -/
structure Walking (config : Path → Option WatchConfig) (calls : List Call) :
    Prop where
  kept : ∀ {dir other}, taken dir = some other → config dir = some other
  sound : ∀ {dir other}, config dir = some other → taken dir = some other ∨
    (other = wc ∧ Open (land fnmatchcase fs) taken wc dir)
  walks : ∀ call ∈ calls, call.Walks fnmatchcase fs taken wc
  complete : ∀ {path}, Open (land fnmatchcase fs) taken wc path →
    Frontier wc config path →
      config path ≠ none ∨ ∃ call ∈ calls, call.ComesTo path

variable {fnmatchcase fs taken wc}
variable {config : Path → Option WatchConfig} {call : Call}
variable {calls : List Call} {dir path : Path} {method : Method}

theorem walking_start :
    Walking fnmatchcase fs taken wc taken
      [.enter .addRecursive wc.path wc] where
  kept := id
  sound := .inl
  walks := by
    intro call hcall
    rw [List.mem_singleton.mp hcall]
    exact ⟨rfl, rfl, .inl rfl⟩
  complete := by
    intro path hopen hfrontier
    by_cases hroot : path = wc.path
    · exact .inr ⟨_, List.mem_singleton_self _, hroot.symm⟩
    · obtain ⟨dir, name, rfl, hdir⟩ := hfrontier.resolve_left hroot
      rcases List.prefix_concat_iff.mp ((land fnmatchcase fs).starts hopen.1)
        with heq | hle
      · exact absurd heq.symm hroot
      · have hnone := hopen.2 dir hle (List.prefix_append _ _)
        simp [hdir] at hnone

/-- At the end of its turn the watch has taken what was open to it. -/
theorem Walking.config_eq (h : Walking fnmatchcase fs taken wc config []) :
    config = occupy (land fnmatchcase fs) taken wc := by
  have htakes : ∀ rel, Open (land fnmatchcase fs) taken wc (wc.path ++ rel) →
      config (wc.path ++ rel) = some wc := by
    intro rel hopen
    have hfrontier : Frontier wc config (wc.path ++ rel) := by
      induction rel using List.reverseRecOn with
      | nil => exact .inl (List.append_nil _)
      | append_singleton rel name ih =>
          rw [← List.append_assoc] at hopen ⊢
          have hparent := hopen.mono (List.prefix_append _ _)
            (List.prefix_append (wc.path ++ rel) [name])
          refine .inr ⟨_, name, rfl, ?_⟩
          rcases h.complete hparent (ih hparent) with hsome | ⟨call, hcall, -⟩
          · obtain ⟨other, hother⟩ := Option.ne_none_iff_exists'.mp hsome
            rcases h.sound hother with htaken | ⟨rfl, -⟩
            · simp [hparent.taken_eq_none] at htaken
            · exact hother
          · cases hcall
    rcases h.complete hopen hfrontier with hsome | ⟨call, hcall, -⟩
    · obtain ⟨other, hother⟩ := Option.ne_none_iff_exists'.mp hsome
      rcases h.sound hother with htaken | ⟨rfl, -⟩
      · simp [hopen.taken_eq_none] at htaken
      · exact hother
    · cases hcall
  funext path
  by_cases hopen : Open (land fnmatchcase fs) taken wc path
  · rw [occupy_of_open hopen]
    obtain ⟨rel, rfl⟩ := (land fnmatchcase fs).starts hopen.1
    exact htakes rel hopen
  · rw [occupy_of_not_open hopen]
    cases htaken : taken path with
    | some other => exact h.kept htaken
    | none =>
        rw [Option.eq_none_iff_forall_ne_some]
        intro other hother
        rcases h.sound hother with heq | ⟨-, hopen'⟩
        · simp [htaken] at heq
        · exact hopen hopen'

/-- The innermost call gives way to others, which come to what it would have
come to. -/
theorem Walking.replace
    (h : Walking fnmatchcase fs taken wc config (call :: calls))
    (more : List Call)
    (hwalks : ∀ next ∈ more, next.Walks fnmatchcase fs taken wc)
    (hcomes : ∀ {path}, Open (land fnmatchcase fs) taken wc path →
      call.ComesTo path →
        config path ≠ none ∨ ∃ next ∈ more, next.ComesTo path) :
    Walking fnmatchcase fs taken wc config (more ++ calls) where
  kept := h.kept
  sound := h.sound
  walks := by
    intro next hnext
    rcases List.mem_append.mp hnext with hnext | hnext
    · exact hwalks next hnext
    · exact h.walks next (List.mem_cons_of_mem _ hnext)
  complete := by
    intro path hopen hfrontier
    rcases h.complete hopen hfrontier with hsome | ⟨found, hfound, hcome⟩
    · exact .inl hsome
    · rcases List.mem_cons.mp hfound with rfl | hfound
      · rcases hcomes hopen hcome with hsome | ⟨next, hnext, hcome⟩
        · exact .inl hsome
        · exact .inr ⟨next, List.mem_append_left _ hnext, hcome⟩
      · exact .inr ⟨found, List.mem_append_right _ hfound, hcome⟩

/-- A directory that is about to be recorded is open to the watch. -/
theorem Walking.record {wc' : WatchConfig}
    (h : Walking fnmatchcase fs taken wc config
      (.record method dir wc' :: calls)) :
    Walking fnmatchcase fs taken wc (update config dir (some wc'))
      (.scandir method dir wc' :: calls) := by
  obtain ⟨hmethod, hsame, hopen⟩ := h.walks (.record method dir wc') (by simp)
  rw [hsame] at h ⊢
  constructor
  · intro path other htaken
    rw [Function.update_of_ne, h.kept htaken]
    rintro rfl
    simp [hopen.taken_eq_none] at htaken
  · intro path other hconfig
    by_cases heq : path = dir
    · subst heq
      obtain rfl : wc = other := by simpa using hconfig
      exact .inr ⟨rfl, hopen⟩
    · exact h.sound (by simpa [heq] using hconfig)
  · intro call hcall
    rcases List.mem_cons.mp hcall with rfl | hcall
    · exact ⟨hmethod, rfl, hopen⟩
    · exact h.walks call (List.mem_cons_of_mem _ hcall)
  · intro path hpath hfrontier
    by_cases heq : path = dir
    · exact .inl (by simp [heq])
    · rw [Function.update_of_ne heq]
      have hold : Frontier wc config path ∨ ∃ name, path = dir ++ [name] := by
        rcases hfrontier with hroot | ⟨parent, name, rfl, hparent⟩
        · exact .inl (.inl hroot)
        · by_cases hsame : parent = dir
          · exact .inr ⟨name, by rw [hsame]⟩
          · rw [Function.update_of_ne hsame] at hparent
            exact .inl (.inr ⟨parent, name, rfl, hparent⟩)
      rcases hold with hold | hchild
      · rcases h.complete hpath hold with hsome | ⟨call, hcall, hcome⟩
        · exact .inl hsome
        · rcases List.mem_cons.mp hcall with rfl | hcall
          · exact absurd hcome.symm heq
          · exact .inr ⟨call, List.mem_cons_of_mem _ hcall, hcome⟩
      · exact .inr ⟨_, List.mem_cons_self, hchild⟩

theorem Walking.skip {s : State} {wc' : WatchConfig}
    (h : Walking fnmatchcase s.fs taken wc s.dirToConfig
      (.enter method dir wc' :: calls))
    (hroot : ∀ path, s.dirToRoot path = (s.dirToConfig path).map (·.path))
    (hskips : skips fnmatchcase s dir wc' method) :
    Walking fnmatchcase s.fs taken wc s.dirToConfig calls := by
  obtain ⟨rfl, rfl, hcase⟩ := h.walks (.enter method dir wc') (by simp)
  apply h.replace [] (by simp)
  rintro path hopen rfl
  obtain ⟨hdir, hcovers⟩ := hopen.1
  have hignored : dir ≠ wc'.path →
      isIgnored fnmatchcase dir wc'.path wc'.ignore = false := by
    intro hne
    obtain ⟨parent, name, rfl, hparent⟩ := hcase.resolve_left hne
    exact (covers_child_iff hparent.1.2).mp hcovers
  by_cases hregistered : (s.dirToRoot dir).isSome
  · left
    rw [hroot, Option.isSome_map] at hregistered
    exact Option.isSome_iff_ne_none.mp hregistered
  · exfalso
    simp only [skips, hdir, hregistered, Bool.or_false, Bool.not_true,
      Bool.false_or, Bool.and_eq_true, decide_eq_true_eq] at hskips
    simp [hignored hskips.1] at hskips

theorem Walking.check {s : State} {wc' : WatchConfig}
    (h : Walking fnmatchcase s.fs taken wc s.dirToConfig
      (.enter method dir wc' :: calls))
    (hroot : ∀ path, s.dirToRoot path = (s.dirToConfig path).map (·.path))
    (hskips : skips fnmatchcase s dir wc' method = false) :
    Walking fnmatchcase s.fs taken wc s.dirToConfig
      (.addWatch method dir wc' :: calls) := by
  obtain ⟨rfl, rfl, hcase⟩ := h.walks (.enter method dir wc') (by simp)
  have hopen : Open (land fnmatchcase s.fs) taken wc' dir := by
    simp only [skips, Bool.or_eq_false_iff, Bool.not_eq_false',
      Bool.and_eq_false_iff, decide_eq_false_iff_not, not_not] at hskips
    obtain ⟨⟨hdir, hignored⟩, hregistered⟩ := hskips
    have hnone : taken dir = none := by
      rw [Option.eq_none_iff_forall_ne_some]
      intro other htaken
      rw [hroot, h.kept htaken] at hregistered
      simp at hregistered
    rcases hcase with rfl | ⟨parent, name, rfl, hparent⟩
    · refine ⟨⟨hdir, covers_path⟩, ?_⟩
      intro mid hmid hle
      rwa [hle.eq_of_length_le hmid.length_le]
    · have hcovers : covers fnmatchcase wc' (parent ++ [name]) := by
        rcases hignored with heq | hignored
        · rw [heq]
          exact covers_path
        · exact (covers_child_iff hparent.1.2).mpr hignored
      refine ⟨⟨hdir, hcovers⟩, ?_⟩
      intro mid hmid hle
      rcases List.prefix_concat_iff.mp hle with rfl | hle
      · exact hnone
      · exact hparent.2 mid hmid hle
  apply h.replace [.addWatch .addRecursive dir wc']
  · intro next hnext
    rw [List.mem_singleton.mp hnext]
    exact ⟨rfl, rfl, hopen⟩
  · exact fun _ hcome => .inr ⟨_, List.mem_singleton_self _, hcome⟩

/-- A call that goes on about the same directory, and comes to as much. -/
theorem Walking.go (h : Walking fnmatchcase fs taken wc config (call :: calls))
    (next : Call) (hwalks : next.Walks fnmatchcase fs taken wc)
    (hcomes : ∀ {path}, Open (land fnmatchcase fs) taken wc path →
      call.ComesTo path → next.ComesTo path) :
    Walking fnmatchcase fs taken wc config (next :: calls) := by
  apply h.replace [next]
  · intro other hother
    rwa [List.mem_singleton.mp hother]
  · exact fun hopen hcome =>
      .inr ⟨next, List.mem_singleton_self _, hcomes hopen hcome⟩

theorem Walking.listed {entries : List (String × Bool)} {wc' : WatchConfig}
    (h : Walking fnmatchcase fs taken wc config
      (.scanning method dir wc' entries :: calls)) :
    Walking fnmatchcase fs taken wc config
      (entries.flatMap (visitEntry method dir wc') ++ calls) := by
  obtain ⟨rfl, rfl, hopen⟩ :=
    h.walks (.scanning method dir wc' entries) (by simp)
  apply h.replace
  · intro next hnext
    obtain ⟨⟨name, isDir⟩, -, hmem⟩ := List.mem_flatMap.mp hnext
    cases isDir
    · simp [visitEntry] at hmem
    · obtain rfl : next = .enter .addRecursive (dir ++ [name]) wc' := by
        simpa [visitEntry] using hmem
      exact ⟨rfl, rfl, .inr ⟨dir, name, rfl, hopen⟩⟩
  · rintro path - ⟨name, hname, rfl⟩
    refine .inr ⟨.enter .addRecursive (dir ++ [name]) wc', ?_, rfl⟩
    exact List.mem_flatMap.mpr ⟨_, hname, by simp [visitEntry]⟩

end Turn

/-! ## All turns -/

/-- The steps of `__aenter__`. -/
def Action.isStartup : Action → Bool
  | .work | .scan _ | .found _ | .enter => true
  | _ => false

section Turns

variable (fnmatchcase : String → String → Bool) (watches : List WatchConfig)
variable (fs : FsTree String)

/-- Some watches have had their turn, or are in it, and the others wait. -/
def Turns (config : Path → Option WatchConfig) (calls : List Call) : Prop :=
  ∃ done todo current, watches = done ++ todo ∧
    calls = current ++ todo.map (fun wc => .enter .addRecursive wc.path wc) ∧
    (current = [] ∧ config = occupied (land fnmatchcase fs) done ∨
      ∃ before wc, done = before ++ [wc] ∧
        Walking fnmatchcase fs (occupied (land fnmatchcase fs) before) wc
          config current)

variable {fnmatchcase watches fs}
variable {config : Path → Option WatchConfig} {call : Call} {rest : List Call}

theorem turns_start : Turns fnmatchcase watches fs (fun _ => none)
    (watches.map fun wc => .enter .addRecursive wc.path wc) :=
  ⟨[], watches, [], rfl, rfl, .inl ⟨rfl, occupied_nil.symm⟩⟩

theorem Turns.config_eq (h : Turns fnmatchcase watches fs config []) :
    config = occupied (land fnmatchcase fs) watches := by
  obtain ⟨done, todo, current, rfl, hcalls, hdone⟩ := h
  obtain ⟨rfl, htodo⟩ := List.append_eq_nil_iff.mp hcalls.symm
  rw [List.map_eq_nil_iff.mp htodo, List.append_nil]
  rcases hdone with ⟨-, hconfig⟩ | ⟨before, wc, rfl, hwalking⟩
  · exact hconfig
  · rw [hwalking.config_eq, occupied_concat]

/-- While calls are open, some watch is in its turn. -/
theorem Turns.exists_walking
    (h : Turns fnmatchcase watches fs config (call :: rest)) :
    ∃ before wc todo current, watches = before ++ [wc] ++ todo ∧
      rest = current ++
        todo.map (fun wc => .enter .addRecursive wc.path wc) ∧
      Walking fnmatchcase fs (occupied (land fnmatchcase fs) before) wc config
        (call :: current) := by
  obtain ⟨done, todo, current, hwatches, hcalls, hdone⟩ := h
  cases current with
  | cons first current =>
      obtain ⟨rfl, rfl⟩ := List.cons.inj hcalls
      rcases hdone with ⟨hnil, -⟩ | ⟨before, wc, rfl, hwalking⟩
      · cases hnil
      · exact ⟨before, wc, todo, current, hwatches, rfl, hwalking⟩
  | nil =>
      cases todo with
      | nil => cases hcalls
      | cons wc todo =>
          obtain ⟨rfl, rfl⟩ := List.cons.inj hcalls
          have hconfig : config = occupied (land fnmatchcase fs) done := by
            rcases hdone with ⟨-, hconfig⟩ | ⟨before, last, rfl, hwalking⟩
            · exact hconfig
            · rw [hwalking.config_eq, occupied_concat]
          refine ⟨done, wc, todo, [], by simp [hwatches], rfl, ?_⟩
          rw [hconfig]
          exact walking_start

/-- The calls below the innermost one wait while it gives way to others. -/
theorem Turns.next (h : Turns fnmatchcase watches fs config (call :: rest))
    {config' : Path → Option WatchConfig} (more : List Call)
    (hnext : ∀ {before wc current},
      Walking fnmatchcase fs (occupied (land fnmatchcase fs) before) wc config
          (call :: current) →
        Walking fnmatchcase fs (occupied (land fnmatchcase fs) before) wc
          config' (more ++ current)) :
    Turns fnmatchcase watches fs config' (more ++ rest) := by
  obtain ⟨before, wc, todo, current, hwatches, rfl, hwalking⟩ :=
    h.exists_walking
  exact ⟨before ++ [wc], todo, more ++ current, hwatches,
    (List.append_assoc ..).symm, .inr ⟨before, wc, rfl, hnext hwalking⟩⟩

theorem turns_of_move {s after : State} {out : List Obs} {action : Action}
    (hbook : Bookkept fnmatchcase watches s)
    (h : Turns fnmatchcase watches s.fs s.dirToConfig s.calls)
    (haction : action.isStartup) (hmove : Move fnmatchcase s action after out) :
    after.fs = s.fs ∧
      Turns fnmatchcase watches s.fs after.dirToConfig after.calls := by
  cases hmove with
  | insert hkind => rcases hkind with ⟨rfl, -⟩ | ⟨rfl, -⟩ <;> cases haction
  | remove hkind => rcases hkind with rfl | rfl <;> cases haction
  | close | rename | takeLost | takeDrop | takeDir | takeSilent | takeFile
  | emit | release | fail => cases haction
  | enter => exact ⟨rfl, h⟩
  | skip hcalls hskips =>
      rw [hcalls] at h
      exact ⟨rfl, h.next [] fun hwalking =>
        hwalking.skip hbook.root hskips⟩
  | check hcalls hskips =>
      rw [hcalls] at h
      exact ⟨rfl, h.next [_] fun hwalking =>
        hwalking.check hbook.root hskips⟩
  | @vanished method dir wc rest hcalls hnode =>
      rw [hcalls] at h
      refine ⟨rfl, h.next [] fun hwalking => ?_⟩
      obtain ⟨-, -, hopen⟩ :=
        hwalking.walks (.addWatch method dir wc) (by simp)
      have hdir := hopen.1.1
      simp [FsTree.isDir, hnode] at hdir
  | @addWatch method dir wc rest entry hcalls hnode =>
      rw [hcalls] at h
      exact ⟨rfl, h.next [_] fun hwalking =>
        hwalking.go (.record method dir wc)
          (hwalking.walks (.addWatch method dir wc) (by simp))
          fun _ hcome => hcome⟩
  | record hcalls =>
      rw [hcalls] at h
      exact ⟨rfl, h.next [_] fun hwalking => hwalking.record⟩
  | @unlisted method dir wc rest hcalls hdir =>
      rw [hcalls] at h
      refine ⟨rfl, h.next [] fun hwalking => ?_⟩
      obtain ⟨-, -, hopen⟩ :=
        hwalking.walks (.scandir method dir wc) (by simp)
      have hisDir := hopen.1.1
      simp [hdir] at hisDir
  | listed hcalls =>
      rw [hcalls] at h
      exact ⟨rfl, h.next _ fun hwalking => hwalking.listed⟩
  | @file path wc rest hcalls | @fileIgnored path wc rest hcalls =>
      rw [hcalls] at h
      obtain ⟨before, other, todo, current, -, -, hwalking⟩ :=
        h.exists_walking
      exact absurd (hwalking.walks (.file path wc) (by simp)) id
  | @scan method dir wc rest entries hcalls hdir hsound hcomplete =>
      rw [hcalls] at h
      refine ⟨rfl, h.next [_] fun hwalking =>
        hwalking.go (.scanning method dir wc entries)
          (hwalking.walks (.scandir method dir wc) (by simp)) ?_⟩
      rintro path hopen ⟨name, rfl⟩
      obtain ⟨ino, hnode⟩ := s.fs.isDir_iff.mp hopen.1.1
      exact ⟨name, hcomplete (s.fs.mem_listing_iff.mpr ⟨ino, hnode⟩), rfl⟩
  | @found method dir wc rest entries name entry hcalls hentry =>
      rw [hcalls] at h
      refine ⟨rfl, h.next [_] fun hwalking =>
        hwalking.go (.scanning method dir wc (entries ++ [(name, entry.isDir)]))
          (hwalking.walks (.scanning method dir wc entries) (by simp)) ?_⟩
      rintro path - ⟨child, hchild, rfl⟩
      exact ⟨child, List.mem_append_left _ hchild, rfl⟩

end Turns

/-! ## Return -/

section Return

variable (fnmatchcase : String → String → Bool)

/-- The steps of `__aenter__` can bring the open calls down to the given
ones. -/
def Returns (s : State) (rest : List Call) : Prop :=
  ∃ trace after, Reaches (step fnmatchcase) (fun _ action => action.isStartup)
    s trace after ∧ after.fs = s.fs ∧ after.calls = rest ∧
      after.entered = s.entered

variable {fnmatchcase} {s next : State} {rest : List Call}

theorem Returns.of_reaches {trace : List Obs}
    (hrun : Reaches (step fnmatchcase) (fun _ action => action.isStartup) s
      trace next) (hfs : next.fs = s.fs) (hentered : next.entered = s.entered)
    (h : Returns fnmatchcase next rest) : Returns fnmatchcase s rest := by
  obtain ⟨trace', final, hrest, hfs', hcalls, hentered'⟩ := h
  exact ⟨_, final, hrun.trans hrest, hfs'.trans hfs, hcalls,
    hentered'.trans hentered⟩

/-- A replay that changes neither the tree nor what has been entered. -/
theorem Returns.replay (actions : List Action)
    (h : Returns fnmatchcase next rest)
    (hreplay : execute (step fnmatchcase)
      (fun _ action => action.isStartup) s actions = some (next, []))
    (hfs : next.fs = s.fs) (hentered : next.entered = s.entered) :
    Returns fnmatchcase s rest :=
  .of_reaches (Reaches.refl.execute hreplay) hfs hentered h

theorem returns_self (hcalls : s.calls = rest) : Returns fnmatchcase s rest :=
  ⟨[], s, .refl, rfl, hcalls, rfl⟩

theorem returns_of_forall (calls : List Call)
    (heach : ∀ call ∈ calls, ∀ s' rest, s'.fs = s.fs →
      s'.calls = call :: rest → Returns fnmatchcase s' rest)
    (hcalls : s.calls = calls ++ rest) : Returns fnmatchcase s rest := by
  induction calls generalizing s with
  | nil => exact returns_self hcalls
  | cons call calls ih =>
      obtain ⟨trace, next, hrun, hfs, hnext, hentered⟩ :=
        heach call (by simp) s (calls ++ rest) rfl hcalls
      apply Returns.of_reaches hrun hfs hentered
      apply ih _ hnext
      intro other hother s' rest' hs'
      exact heach other (List.mem_cons_of_mem _ hother) s' rest' (hs'.trans hfs)

theorem returns_of_skips {dir : Path} {wc : WatchConfig}
    (hcalls : s.calls = .enter .addRecursive dir wc :: rest)
    (hskips : skips fnmatchcase s dir wc .addRecursive) :
    Returns fnmatchcase s rest := by
  have hdone : Returns fnmatchcase { s with calls := rest } rest :=
    returns_self rfl
  refine hdone.replay [.work] ?_ rfl rfl
  simp [execute, step, work, hcalls, hskips, Action.isStartup]

/-- By induction on the height of the tree below the directory. -/
theorem returns_of_enter (height : ℕ) {dir : Path} {wc : WatchConfig}
    (hheight : ∀ path ∈ s.fs.support, path.length < dir.length + height)
    (hcalls : s.calls = .enter .addRecursive dir wc :: rest) :
    Returns fnmatchcase s rest := by
  induction height generalizing s dir rest with
  | zero =>
      apply returns_of_skips hcalls
      by_contra hskips
      have hdir : s.fs.isDir dir := by
        by_contra hdir
        simp [skips, hdir] at hskips
      obtain ⟨ino, hnode⟩ := s.fs.isDir_iff.mp hdir
      exact absurd (hheight dir (s.fs.known (by simp [hnode]))) (by simp)
  | succ height ih =>
      by_cases hskips : skips fnmatchcase s dir wc .addRecursive
      · exact returns_of_skips hcalls hskips
      have hdir : s.fs.isDir dir := by
        by_contra hdir
        simp [skips, hdir] at hskips
      obtain ⟨ino, hnode⟩ := s.fs.isDir_iff.mp hdir
      have hbelow : Returns fnmatchcase { s with
          watch := update s.watch ino (some dir)
          dirToRoot := update s.dirToRoot dir (some wc.path)
          dirToConfig := update s.dirToConfig dir (some wc)
          calls := (s.fs.listing dir).flatMap
            (visitEntry .addRecursive dir wc) ++ rest } rest := by
        apply returns_of_forall _ _ rfl
        intro call hcall s' rest' hs' hcalls'
        obtain ⟨⟨name, isDir⟩, -, hmem⟩ := List.mem_flatMap.mp hcall
        cases isDir
        · simp [visitEntry] at hmem
        obtain rfl : call = .enter .addRecursive (dir ++ [name]) wc := by
          simpa [visitEntry] using hmem
        apply ih _ hcalls'
        intro path hpath
        rw [hs'] at hpath
        have hlt := hheight path hpath
        rw [List.length_append, List.length_singleton]
        omega
      refine hbelow.replay
        [.work, .work, .work, .scan (s.fs.listing dir), .work] ?_ rfl rfl
      simp [execute, step, work, scan, hcalls, hskips, hnode, hdir,
        Action.isStartup]

/-- Start-up comes to an end. -/
theorem startup_returns (watches : List WatchConfig) (fs : FsTree String) :
    ∃ trace s, Reaches (step fnmatchcase) (fun _ action => action.isStartup)
      (start fs watches) trace s ∧ s.entered := by
  obtain ⟨height, hheight⟩ : ∃ height, ∀ path ∈ fs.support,
      path.length < height := by
    refine ⟨(fs.support.map List.length).sum + 1, fun path hpath => ?_⟩
    have hle : path.length ≤ (fs.support.map List.length).sum :=
      List.single_le_sum (by simp) _ (List.mem_map_of_mem hpath)
    omega
  have hreturns : Returns fnmatchcase (start fs watches) [] := by
    apply returns_of_forall _ _ (List.append_nil _).symm
    intro call hcall s rest hfs hcalls
    obtain ⟨wc, -, rfl⟩ := List.mem_map.mp hcall
    apply returns_of_enter height _ hcalls
    intro path hpath
    rw [hfs] at hpath
    have hlt := hheight path hpath
    omega
  obtain ⟨trace, s, hrun, -, hcalls, hentered⟩ := hreturns
  have hnot : s.entered = false := hentered
  have hallowed : Action.enter.isStartup := rfl
  have hstep : step fnmatchcase s .enter =
      some ({ s with entered := true }, [.entered]) := by
    simp [step, hcalls, hnot]
  exact ⟨_, _, hrun.snoc hallowed hstep, rfl⟩

end Return

/-! ## Agreement with the filter -/

section Agreement

variable {fnmatchcase : String → String → Bool} {watches : List WatchConfig}
variable {fs : FsTree String} {s after : State} {out trace : List Obs}
variable {action : Action}

/-- `__aenter__` returns after its last call. -/
theorem calls_eq_nil_of_startup (h : s.entered → s.calls = [])
    (haction : action.isStartup)
    (hstep : step fnmatchcase s action = some (after, out))
    (hentered : after.entered) : after.calls = [] := by
  cases move_of_step hstep with
  | enter hcalls => exact hcalls
  | insert hkind => rcases hkind with ⟨rfl, -⟩ | ⟨rfl, -⟩ <;> cases haction
  | remove hkind => rcases hkind with rfl | rfl <;> cases haction
  | close | rename | takeLost | takeDrop | takeDir | takeSilent | takeFile
  | emit | release | fail => cases haction
  | skip hcalls | check hcalls | vanished hcalls | addWatch hcalls
  | record hcalls | unlisted hcalls | listed hcalls | fileIgnored hcalls
  | file hcalls | scan hcalls | found hcalls =>
      rw [h hentered] at hcalls
      cases hcalls

theorem turns_of_reaches
    (hrun : Reaches (step fnmatchcase) (fun _ action => action.isStartup)
      (start fs watches) trace s) :
    (s.entered → s.calls = []) ∧ s.fs = fs ∧
      Turns fnmatchcase watches fs s.dirToConfig s.calls := by
  apply hrun.invariant_along fun _ s => (s.entered → s.calls = []) ∧
    s.fs = fs ∧ Turns fnmatchcase watches fs s.dirToConfig s.calls
  · exact ⟨by simp [start], rfl, turns_start⟩
  · rintro trace s action after out hearlier ⟨hcalls, rfl, hturns⟩ haction hstep
    have hbook := bookkept_of_reaches hearlier
    exact ⟨calls_eq_nil_of_startup hcalls haction hstep,
      turns_of_move hbook hturns haction (move_of_step hstep)⟩

/-- A directory that is taken deserves its watch as the filter sees it, if and
only if taking the directories in turn gives everything to whom it should. -/
theorem forall_occupied_eq_asked_iff
    (hdistinct : (watches.map (·.path)).Nodup) :
    (∀ dir, fs.isDir dir → occupied (land fnmatchcase fs) watches dir =
        asked fnmatchcase watches dir) ↔
      ∀ dir wc, occupied (land fnmatchcase fs) watches dir = some wc ↔
        Deserves (land fnmatchcase fs) watches dir wc := by
  constructor
  · intro h dir wc
    by_cases hdir : fs.isDir dir
    · rw [h dir hdir, asked_eq_some_iff hdistinct hdir]
    · constructor
      · intro htaken
        obtain ⟨_, _, -, hopen⟩ := occupied_eq_some_iff.mp htaken
        exact absurd hopen.1.1 hdir
      · exact fun hdeserves => absurd hdeserves.2.1.1 hdir
  · intro h dir hdir
    apply Option.ext
    intro wc
    rw [h, asked_eq_some_iff hdistinct hdir]

/-- `__aenter__` returns; and it registers every directory for the watch that
owns it, unless this watch ignores it, if and only if no watch covers the root
of one that is listed later, unless one that is listed earlier keeps it from
it. -/
theorem startup_follows_owner_iff
    (hdistinct : (watches.map (·.path)).Nodup)
    (hroots : ∀ wc ∈ watches, fs.isDir wc.path) :
    (∃ trace s, Reaches (step fnmatchcase) (fun _ action => action.isStartup)
      (start fs watches) trace s ∧ s.entered) ∧
    ∀ trace s, Reaches (step fnmatchcase) (fun _ action => action.isStartup)
      (start fs watches) trace s → s.entered →
        ((∀ dir, fs.isDir dir →
            s.dirToConfig dir = asked fnmatchcase watches dir ∧
            s.dirToRoot dir = (asked fnmatchcase watches dir).map (·.path)) ↔
          ListedInOrder fnmatchcase watches) := by
  refine ⟨startup_returns watches fs, ?_⟩
  intro trace s hrun hentered
  have hbook := bookkept_of_reaches hrun
  obtain ⟨hcalls, hfs, hturns⟩ := turns_of_reaches hrun
  rw [hcalls hentered] at hturns
  have hself : ∀ wc ∈ watches, (land fnmatchcase fs).reaches wc wc.path :=
    fun wc hwc => ⟨hroots wc hwc, covers_path⟩
  rw [← inOrder_land_iff hroots, ← occupied_iff_deserves_iff hself hdistinct,
    ← forall_occupied_eq_asked_iff hdistinct, ← hturns.config_eq]
  apply forall₂_congr
  intro dir _
  rw [hbook.root]
  exact and_iff_left_of_imp fun hconfig => by rw [hconfig]

theorem listedInOrder_of_pairwise
    (h : watches.Pairwise fun wc later =>
      covers fnmatchcase wc later.path = false) :
    ListedInOrder fnmatchcase watches := by
  rintro before wc between later after rfl hcovers
  rw [List.pairwise_append, List.pairwise_cons] at h
  have hnot := h.2.1.1 later (by simp)
  simp [hcovers] at hnot

/-- The order that `EventFilter` gives its copy of the list would do. -/
theorem listedInOrder_sortedWatches
    (hdistinct : (watches.map (·.path)).Nodup) :
    ListedInOrder fnmatchcase (Filter.sortedWatches watches) := by
  have hsorted : (Filter.sortedWatches watches).Pairwise fun wc later =>
      Filter.deeper wc later :=
    List.pairwise_mergeSort Filter.deeper_trans Filter.deeper_total watches
  have hperm : (Filter.sortedWatches watches).Perm watches :=
    List.mergeSort_perm _ _
  have hne : ((Filter.sortedWatches watches).map (·.path)).Nodup :=
    (hperm.map _).nodup_iff.mpr hdistinct
  rw [List.Nodup, List.pairwise_map] at hne
  apply listedInOrder_of_pairwise
  apply (hsorted.and hne).imp
  rintro wc later ⟨hdeeper, hpath⟩
  by_contra hcovers
  rw [Bool.not_eq_false] at hcovers
  obtain ⟨rel, hrel⟩ := exists_rel_of_covers hcovers
  have hle : wc.path <+: later.path := ⟨rel, hrel.symm⟩
  exact hpath (hle.eq_of_length_le (by simpa [Filter.deeper] using hdeeper))

end Agreement

section Samples

theorem sortedWatches_nested :
    Filter.sortedWatches [sampleWatch, nestedWatch] =
      [nestedWatch, sampleWatch] := by
  simp [Filter.sortedWatches, List.mergeSort, sampleWatch, nestedWatch]

theorem owner_nested : Filter.owner ["/", "srv", "sub"]
    [nestedWatch, sampleWatch] = some (nestedWatch, []) := by
  decide

/-- The deeper root is listed first. -/
theorem startup_follows_owner_iff_sample : ∃ trace s,
    Reaches (step fun _ _ => false) (fun _ action => action.isStartup)
      (start nestedTree [nestedWatch, sampleWatch]) trace s ∧
    s.dirToRoot ["/", "srv", "sub"] = some ["/", "srv", "sub"] := by
  have hsorted : Filter.sortedWatches [nestedWatch, sampleWatch] =
      [nestedWatch, sampleWatch] :=
    List.mergeSort_of_pairwise (by decide)
  have horder : ListedInOrder (fun _ _ => false) [nestedWatch, sampleWatch] :=
    listedInOrder_of_pairwise (by decide)
  obtain ⟨⟨trace, s, hrun, hentered⟩, hiff⟩ :=
    @startup_follows_owner_iff (fun _ _ => false) [nestedWatch, sampleWatch]
      nestedTree (by decide) (by decide)
  refine ⟨trace, s, hrun, ?_⟩
  have hroot := (((hiff trace s hrun hentered).mpr horder)
    ["/", "srv", "sub"] (by decide)).2
  rw [hroot, asked, hsorted, owner_nested]
  decide

/-- The outer root is listed first, and the inner one is registered for it. -/
theorem outer_watch_takes_inner_root :
    Filter.owner ["/", "srv", "sub"]
      (Filter.sortedWatches [sampleWatch, nestedWatch]) =
        some (nestedWatch, []) ∧
    ∃ trace s, Reaches (step fun _ _ => false)
      (fun _ action => action.isStartup)
      (start nestedTree [sampleWatch, nestedWatch]) trace s ∧ s.entered ∧
      s.fs.isDir ["/", "srv", "sub"] ∧
      s.dirToConfig ["/", "srv", "sub"] = some sampleWatch := by
  refine ⟨by rw [sortedWatches_nested, owner_nested], ?_⟩
  obtain ⟨trace, s, hrun, hview⟩ := exists_reaches_of_execute
    (step fun _ _ => false) (start nestedTree [sampleWatch, nestedWatch])
    (fun _ action => action.isStartup)
    (fun final => (final.1.entered, final.1.fs.isDir ["/", "srv", "sub"],
      final.1.dirToConfig ["/", "srv", "sub"]))
    (true, true, some sampleWatch)
    [.work, .work, .work, .scan [("sub", true)], .work, .work, .work, .work,
      .scan [], .work, .work, .enter]
    (by decide +kernel)
  simp only [Prod.mk.injEq] at hview
  exact ⟨trace, s, hrun, hview⟩

end Samples

end MirrorMirage.Watcher
