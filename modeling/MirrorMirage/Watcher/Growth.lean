import MirrorMirage.Watcher.Frames

/-!
# Runs in which directories only come

Other processes make directories and files, write them and rename files,
nothing is removed, and no system call of the watcher fails.  No watch goes
then, what is watched is a directory, and what the watcher is about to visit
still exists.  Such runs spare the watched part of the tree.
-/

namespace MirrorMirage.Watcher

open Function (update)
open MirrorMirage.FileTree MirrorMirage.Run

/-- No directory is renamed, nothing is removed, and no call fails. -/
def publishes (s : State) : Action → Bool
  | .rmdir .. | .unlink .. | .fail => false
  | .rename dir name _ _ => !s.fs.isDir (dir ++ [name])
  | _ => true

/-- The directories that the call is about exist. -/
def Call.Exists (fs : FsTree String) : Call → Prop
  | .enter _ dir _ | .addWatch _ dir _ | .record _ dir _
  | .scandir _ dir _ => fs.isDir dir
  | .scanning _ dir _ entries => fs.isDir dir ∧
      ∀ name, (name, true) ∈ entries → fs.isDir (dir ++ [name])
  | .file .. => True

structure Growing (watches : List WatchConfig) (s : State) : Prop where
  roots : ∀ wc ∈ watches, s.fs.isDir wc.path
  watched : ∀ {ino path}, s.watch ino = some path →
    s.fs.node path = some ⟨ino, true⟩
  queued : ∀ event ∈ s.queue, event.mask.dropsWatch = false ∧
    ∃ dir, s.watch event.ino = some dir ∧
      (event.mask = .create → event.isDir →
        s.fs.isDir (dir ++ event.name.toList))
  late : s.late = []
  calls : ∀ call ∈ s.calls, call.Exists s.fs

variable {fnmatchcase : String → String → Bool} {watches : List WatchConfig}
variable {s after : State} {action : Action} {out : List Obs}

theorem growing_start {fs : FsTree String}
    (hroots : ∀ wc ∈ watches, fs.isDir wc.path) :
    Growing watches (start fs watches) where
  roots := hroots
  watched := nofun
  queued := nofun
  late := rfl
  calls := by
    intro call hcall
    obtain ⟨wc, hwc, rfl⟩ := List.mem_map.mp hcall
    exact hroots wc hwc

/-- Files are not watched. -/
theorem Growing.watch_of_file (h : Growing watches s) {path : Path}
    {entry : Node} (hentry : s.fs.node path = some entry)
    (hfile : entry.isDir = false) : s.watch entry.ino = none := by
  by_contra hne
  obtain ⟨other, hwatch⟩ := Option.ne_none_iff_exists'.mp hne
  have hdir := h.watched hwatch
  have hsame := s.fs.unique hentry hdir rfl
  rw [← hsame, hentry] at hdir
  have hkind : entry.isDir = true :=
    congrArg Node.isDir (Option.some.inj hdir)
  simp [hfile] at hkind

/-! ## Operations of other processes -/

theorem Call.Exists.mono {fs fs' : FsTree String} {call : Call}
    (hstay : ∀ {path}, fs.isDir path → fs'.isDir path)
    (h : call.Exists fs) : call.Exists fs' := by
  cases call with
  | scanning => exact ⟨hstay h.1, fun name hname => hstay (h.2 name hname)⟩
  | file => trivial
  | _ => exact hstay h

theorem growing_change (h : Growing watches s) {fs : FsTree String}
    {events last : List Event}
    (hstay : ∀ {path ino}, s.fs.node path = some ⟨ino, true⟩ →
      fs.node path = some ⟨ino, true⟩)
    (hevents : ∀ event ∈ events, s.watch event.ino ≠ none →
      event.mask.dropsWatch = false ∧ ∀ dir, s.watch event.ino = some dir →
        event.mask = .create → event.isDir →
          fs.isDir (dir ++ event.name.toList))
    (hlast : ∀ event ∈ last, s.watch event.ino = none) :
    Growing watches (s.change fs events last) := by
  have hdirs : ∀ {path}, s.fs.isDir path → fs.isDir path := by
    intro path hpath
    obtain ⟨ino, hnode⟩ := s.fs.isDir_iff.mp hpath
    exact fs.isDir_iff.mpr ⟨ino, hstay hnode⟩
  refine ⟨fun wc hwc => hdirs (h.roots wc hwc), fun hwatch =>
    hstay (h.watched hwatch), ?_, ?_, fun call hcall =>
      (h.calls call hcall).mono hdirs⟩
  · intro event hmem
    rcases List.mem_append.mp hmem with hmem | hmem
    · obtain ⟨hkeeps, dir, hwatch, hdir⟩ := h.queued event hmem
      exact ⟨hkeeps, dir, hwatch, fun hmask hkind => hdirs (hdir hmask hkind)⟩
    · obtain ⟨hmem, hne⟩ := mem_reported_iff.mp hmem
      obtain ⟨dir, hwatch⟩ := Option.ne_none_iff_exists'.mp hne
      obtain ⟨hkeeps, hdir⟩ := hevents event hmem hne
      exact ⟨hkeeps, dir, hwatch, hdir dir hwatch⟩
  · rw [change_late, h.late, List.nil_append, List.eq_nil_iff_forall_not_mem]
    intro event hmem
    obtain ⟨hmem, hne⟩ := mem_reported_iff.mp hmem
    exact hne (hlast event hmem)

/-- What is renamed is a file. -/
theorem isDir_of_publishes {dir dir' : Path} {name name' : String}
    {entry : Node} (hpublishes : publishes s (.rename dir name dir' name'))
    (hentry : s.fs.node (dir ++ [name]) = some entry) :
    s.fs.isDir (dir ++ [name]) = false ∧ entry.isDir = false := by
  have hdir : s.fs.isDir (dir ++ [name]) = false := by
    simpa [publishes] using hpublishes
  exact ⟨hdir, by simpa [FsTree.isDir, hentry] using hdir⟩

/-- Directories stay where they are. -/
theorem node_of_publishes (hpublishes : publishes s action)
    (hmove : Move fnmatchcase s action after out) {path : Path} {ino : ℕ}
    (hnode : s.fs.node path = some ⟨ino, true⟩) :
    after.fs.node path = some ⟨ino, true⟩ := by
  cases hmove with
  | insert _ _ hcan => exact s.fs.insert_node_of_eq_some hcan hnode
  | remove haction => rcases haction with rfl | rfl <;> cases hpublishes
  | @rename dir dir' name name' _ entry _ _ hentry _ hcan hkind =>
      obtain ⟨hdir, hfile⟩ := isDir_of_publishes hpublishes hentry
      refine (s.fs.move_node_of_isLeaf hcan
        (s.fs.isLeaf_of_not_isDir hdir) path).trans ?_
      rw [if_neg, if_neg, hnode]
      · rintro rfl
        simp [FsTree.isDir, hnode] at hdir
      · rintro rfl
        simp [hnode, hfile] at hkind
  | _ => exact hnode

theorem Growing.calls_of_tail (h : Growing watches s) {call : Call}
    {rest : List Call} (hcalls : s.calls = call :: rest) (more : List Call)
    (synthetic : List (String × Path × Path))
    (hmore : ∀ next ∈ more, next.Exists s.fs) :
    Growing watches
      { s with calls := more ++ rest, synthetic := synthetic } := by
  refine { h with calls := ?_ }
  intro next hnext
  rcases List.mem_append.mp hnext with hnext | hnext
  · exact hmore next hnext
  · exact h.calls next (by simp [hcalls, hnext])

/-- One call gives way to another. -/
theorem Growing.calls_of_head (h : Growing watches s) {call next : Call}
    {rest : List Call} (hcalls : s.calls = call :: rest)
    (hexists : next.Exists s.fs) :
    Growing watches { s with calls := next :: rest } := by
  apply h.calls_of_tail hcalls [next] s.synthetic
  intro other hother
  rw [List.mem_singleton.mp hother]
  exact hexists

theorem growing_read (h : Growing watches s) {event : Event}
    {events : List Event} (hqueue : s.queue = event :: events)
    (more : List Call)
    (hmore : ∀ next ∈ more, next.Exists s.fs) :
    Growing watches { s with queue := events, calls := more } where
  roots := h.roots
  watched := h.watched
  queued := fun other hother => h.queued other (by simp [hqueue, hother])
  late := h.late
  calls := hmore

/-- An inode that is watched already keeps its path. -/
theorem Growing.watch_update (h : Growing watches s) {dir path : Path}
    {entry : Node} {ino : ℕ} (hnode : s.fs.node dir = some entry)
    (hwatch : s.watch ino = some path) :
    update s.watch entry.ino (some dir) ino = some path := by
  by_cases heq : ino = entry.ino
  · subst heq
    rw [Function.update_self, s.fs.unique hnode (h.watched hwatch) rfl]
  · rw [Function.update_of_ne heq, hwatch]

theorem growing_addWatch (h : Growing watches s) {method : Method}
    {dir : Path} {wc : WatchConfig} {rest : List Call} {entry : Node}
    (hcalls : s.calls = .addWatch method dir wc :: rest)
    (hnode : s.fs.node dir = some entry) : Growing watches { s with
      watch := update s.watch entry.ino (some dir)
      calls := .record method dir wc :: rest } := by
  have hdir : s.fs.isDir dir :=
    h.calls (.addWatch method dir wc) (by simp [hcalls])
  obtain ⟨ino, hnode'⟩ := s.fs.isDir_iff.mp hdir
  obtain rfl := Option.some.inj (hnode.symm.trans hnode')
  have hnew := @Growing.calls_of_head _ _ h _ (.record method dir wc) _ hcalls
    hdir
  refine { hnew with watched := ?_, queued := ?_ }
  · intro other path hother
    by_cases heq : other = ino
    · have hself : update s.watch ino (some dir) other = some path := hother
      rw [heq, Function.update_self] at hself
      rw [heq, ← Option.some.inj hself, hnode]
    · exact h.watched ((Function.update_of_ne heq ..).symm.trans hother)
  · intro event hmem
    obtain ⟨hkeeps, path, hpath, hcreated⟩ := h.queued event hmem
    exact ⟨hkeeps, path, h.watch_update hnode hpath, hcreated⟩

theorem growing_move (h : Growing watches s)
    (hpublishes : publishes s action)
    (hmove : Move fnmatchcase s action after out) : Growing watches after := by
  have hstay := fun {path ino} => @node_of_publishes fnmatchcase s after action
    out hpublishes hmove path ino
  cases hmove with
  | @insert _ dir name isDir parent haction hparent hcan =>
      refine growing_change h hstay ?_ (by simp)
      intro event hmem _
      obtain rfl := List.mem_singleton.mp hmem
      refine ⟨rfl, fun path hwatch _ hdir => ?_⟩
      obtain rfl := s.fs.unique (h.watched hwatch) hparent rfl
      have hkind : isDir = true := hdir
      simp [FsTree.isDir, FsTree.insert, hkind]
  | remove haction => rcases haction with rfl | rfl <;> cases hpublishes
  | close hparent hentry hkind =>
      refine growing_change h hstay ?_ (by simp)
      intro event hmem _
      rcases List.mem_pair.mp hmem with rfl | rfl <;>
        exact ⟨rfl, fun _ _ hmask => by cases hmask⟩
  | @rename dir dir' name name' parent entry parent' hparent hentry hparent'
      hcan hkind =>
      have hfile := (isDir_of_publishes hpublishes hentry).2
      refine growing_change h hstay ?_ ?_
      · intro event hmem hwatched
        rcases mem_renameEvents hmem with
          ⟨-, hmask⟩ | ⟨-, hmask⟩ | ⟨hino, -⟩
        · simp [hmask, Mask.dropsWatch]
        · simp [hmask, Mask.dropsWatch]
        · exact absurd (hino ▸ h.watch_of_file hentry hfile) hwatched
      · intro event hmem
        obtain ⟨target, htarget, hmem⟩ := mem_replaced hmem
        have hnone := h.watch_of_file htarget
          (by simpa [htarget, hfile] using hkind)
        rcases List.mem_pair.mp hmem with rfl | rfl <;> exact hnone
  | release _ hlate => simp [h.late] at hlate
  | fail => cases hpublishes
  | skip hcalls _ => exact h.calls_of_tail hcalls [] s.synthetic (by simp)
  | @check method dir wc rest hcalls _ =>
      apply h.calls_of_head hcalls
      exact h.calls (.enter method dir wc) (by simp [hcalls])
  | vanished hcalls _ => exact h.calls_of_tail hcalls [] s.synthetic (by simp)
  | addWatch hcalls hnode => exact growing_addWatch h hcalls hnode
  | @record method dir wc rest hcalls =>
      have hnew := @Growing.calls_of_head _ _ h _ (.scandir method dir wc) _
        hcalls (h.calls (.record method dir wc) (by simp [hcalls]))
      exact { hnew with }
  | unlisted hcalls _ => exact h.calls_of_tail hcalls [] s.synthetic (by simp)
  | @listed method dir wc rest entries hcalls =>
      refine h.calls_of_tail hcalls _ s.synthetic ?_
      have hexists := h.calls (.scanning method dir wc entries) (by simp [hcalls])
      intro next hnext
      obtain ⟨⟨name, isDir⟩, hentry, hmem⟩ := List.mem_flatMap.mp hnext
      cases isDir with
      | true =>
          obtain rfl : next = .enter method (dir ++ [name]) wc := by
            simpa [visitEntry] using hmem
          exact hexists.2 name hentry
      | false =>
          cases method with
          | addRecursive => simp [visitEntry] at hmem
          | addDirAndScan =>
              obtain rfl : next = .file (dir ++ [name]) wc := by
                simpa [visitEntry] using hmem
              trivial
  | fileIgnored hcalls _ => exact h.calls_of_tail hcalls [] s.synthetic (by simp)
  | file hcalls _ => exact h.calls_of_tail hcalls [] _ (by simp)
  | @scan method dir wc rest entries hcalls hdir hsound _ =>
      apply h.calls_of_head hcalls
      refine ⟨hdir, fun name hname => ?_⟩
      exact s.fs.isDir_iff.mpr (s.fs.mem_listing_iff.mp (hsound hname))
  | @found method dir wc rest entries name entry hcalls hentry =>
      have hexists := h.calls (.scanning method dir wc entries) (by simp [hcalls])
      apply h.calls_of_head hcalls
      refine ⟨hexists.1, fun other hother => ?_⟩
      rcases List.mem_append.mp hother with hother | hother
      · exact hexists.2 other hother
      · obtain ⟨rfl, hkind⟩ : other = name ∧ true = entry.isDir := by
          simpa using hother
        simp [FsTree.isDir, hentry, ← hkind]
  | enter => exact { h with }
  | @takeLost event events _ hcalls _ hqueue hwatch =>
      obtain ⟨-, dir, hdir, -⟩ := h.queued event (by simp [hqueue])
      simp [hwatch] at hdir
  | @takeDrop event events watchDir _ hcalls _ hqueue _ hdrops =>
      simp [(h.queued event (by simp [hqueue])).1] at hdrops
  | @takeDir event events watchDir wc _ hcalls _ hqueue hwatch hmask hdir _ =>
      obtain ⟨hkeeps, dir, hdir', hcreated⟩ :=
        h.queued event (by simp [hqueue])
      obtain rfl := Option.some.inj (hwatch.symm.trans hdir')
      rw [read_eq hcalls hkeeps]
      refine growing_read h hqueue _ fun next hnext => ?_
      obtain rfl := List.mem_singleton.mp hnext
      exact hcreated hmask hdir
  | takeSilent _ hcalls _ hqueue _ hkeeps _ _ =>
      rw [read_eq hcalls hkeeps]
      exact growing_read h hqueue [] (by simp)
  | @takeFile event events watchDir root maskName _ hcalls _ hqueue =>
      rw [read_eq hcalls (h.queued event (by simp [hqueue])).1]
      exact growing_read h hqueue [] (by simp)
  | emit => exact { h with }

/-! ## Runs -/

/-- Nothing is watched at a file. -/
theorem Growing.holdsWatch_eq_false (h : Growing watches s) {path : Path}
    {entry : Node} (hentry : s.fs.node path = some entry)
    (hfile : entry.isDir = false) : s.holdsWatch path = false := by
  rw [not_holdsWatch_iff]
  rintro below found ⟨rel, rfl⟩ hfound
  by_cases hrel : rel = []
  · rw [hrel, List.append_nil, hentry] at hfound
    exact Option.some.inj hfound ▸ h.watch_of_file hentry hfile
  · obtain ⟨ino, hdir⟩ :=
      s.fs.isDir_of_below hrel (hfound ▸ Option.some_ne_none _)
    rw [hentry] at hdir
    simp [Option.some.inj hdir] at hfile

/-- What is watched is where it was watched. -/
theorem Growing.shares_eq_false (h : Growing watches s) {path : Path}
    {entry : Node} (hentry : s.fs.node path = some entry) :
    s.shares entry.ino path = false := by
  simp only [State.shares, List.any_eq_false, Bool.and_eq_true,
    decide_eq_true_eq, not_and]
  intro other _ hother hwatch
  rw [h.watched hwatch] at hentry
  exact hother (congrArg Node.ino (Option.some.inj hentry))

theorem Growing.keyedElsewhere_eq_false (h : Growing watches s) {path : Path}
    {entry : Node} (hentry : s.fs.node path = some entry) :
    s.keyedElsewhere entry.ino path = false := by
  rw [State.keyedElsewhere, Option.any_eq_false]
  intro old hwatch
  simp [s.fs.unique (h.watched hwatch) hentry rfl]

/-- So no path stands for two watches. -/
theorem Growing.crosses_eq_false (h : Growing watches s) :
    crosses fnmatchcase s action = false := by
  unfold crosses
  split <;> try rfl
  split <;> try rfl
  · rw [Bool.and_eq_false_imp]
    intro _
    rw [Option.any_eq_false]
    intro entry hentry
    simp [h.shares_eq_false hentry]
  · rw [Option.any_eq_false]
    intro entry hentry
    simp [h.shares_eq_false hentry, h.keyedElsewhere_eq_false hentry]

/-- What is registered is watched and there. -/
theorem Growing.obstructed_eq_false (h : Growing watches s)
    (hseparate : Separate s) : s.obstructed = false := by
  unfold State.obstructed
  split <;> try rfl
  rename_i dir _ _ _
  rw [Option.any_eq_false]
  intro entry hentry
  cases hroot : s.dirToRoot dir with
  | none => simp
  | some root =>
      have hkeyed : s.keyed dir := keyed_iff.mpr (.inl (by simp [hroot]))
      obtain ⟨ino, hwatch⟩ := hseparate.watched hkeyed
      have hnode := h.watched hwatch
      rw [hentry] at hnode
      simp [Option.some.inj hnode, hwatch]

theorem Growing.unseats_eq_false (h : Growing watches s) :
    s.unseats = false := by
  rw [State.unseats, Option.any_eq_false]
  intro event hevent
  simp [(h.queued event (List.mem_of_mem_head? hevent)).1]

theorem Growing.spares_of_publishes (h : Growing watches s)
    (hseparate : Separate s) (hpublishes : publishes s action)
    (hmove : Move fnmatchcase s action after out) :
    spares fnmatchcase watches s action := by
  have hwork : spares fnmatchcase watches s .work := by
    simp [spares, h.obstructed_eq_false hseparate]
  have htake : spares fnmatchcase watches s .take := by
    simp [spares, h.unseats_eq_false]
  cases hmove with
  | @insert _ dir name _ _ haction _ hcan =>
      rcases haction with ⟨rfl, -⟩ | ⟨rfl, -⟩
      · -- the roots are there already
        rw [spares, Bool.not_eq_true', isRoot, List.any_eq_false]
        intro wc hwc hroot
        have hdir := h.roots wc hwc
        rw [of_decide_eq_true hroot] at hdir
        simp [FsTree.isDir, hcan.2] at hdir
      · rfl
  | remove haction => rcases haction with rfl | rfl <;> cases hpublishes
  | rename _ hentry =>
      obtain ⟨hsrc, hfile⟩ := isDir_of_publishes hpublishes hentry
      simp [spares, State.mayLand, hsrc, h.holdsWatch_eq_false hentry hfile]
  | fail => cases hpublishes
  | skip | check | vanished | addWatch | record | unlisted | listed
  | fileIgnored | file => exact hwork
  | takeLost | takeDrop | takeDir | takeSilent | takeFile => exact htake
  | _ => rfl

section Runs

variable {fs : FsTree String} {trace : List Obs}
variable (hroots : ∀ wc ∈ watches, fs.isDir wc.path)
variable (hrun : Reaches (step fnmatchcase)
  (fun s action => publishes s action) (start fs watches) trace s)
include hroots hrun

theorem growing_of_reaches : Growing watches s :=
  hrun.invariant (fun _ s => Growing watches s) (growing_start hroots)
    fun h hpublishes hstep => growing_move h hpublishes (move_of_step hstep)

theorem separate_of_publishes : Separate s :=
  separate_of_reaches (hrun.allow (fun _ s => Growing watches s)
    (fun hrun => growing_of_reaches hroots hrun)
    fun h _ _ => h.crosses_eq_false)

theorem reaches_of_publishes : Reaches (step fnmatchcase)
    (fun s action => spares fnmatchcase watches s action)
    (start fs watches) trace s := by
  refine hrun.allow (fun _ s => Growing watches s ∧ Separate s)
    (fun hrun => ⟨growing_of_reaches hroots hrun,
      separate_of_publishes hroots hrun⟩) ?_
  rintro _ state action ⟨h, hseparate⟩ hpublishes hsome
  obtain ⟨⟨after, out⟩, hstep⟩ := Option.isSome_iff_exists.mp hsome
  exact h.spares_of_publishes hseparate hpublishes (move_of_step hstep)

end Runs

end MirrorMirage.Watcher
