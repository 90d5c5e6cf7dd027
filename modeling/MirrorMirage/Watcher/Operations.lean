import MirrorMirage.Watcher.Invariant

/-!
# Operations of other processes

`Disturbance` says what the coverage of the tree needs of an operation, and
`tracked_change` that this is enough.  Removals are always disturbances, and so
is a rename unless it brings a directory, or a watch, into the covered part of
the tree past the watcher.
-/

namespace MirrorMirage.Watcher

open MirrorMirage.FileTree

section Disturbance

variable (fnmatchcase : String → String → Bool) (watches : List WatchConfig)

/-- What an operation of another process does to the tree and reports. -/
structure Disturbance (s : State) (fs : FsTree String)
    (events last : List Event) : Prop where
  nextIno_le : s.fs.nextIno ≤ fs.nextIno
  /-- What is watched comes to no new covered path. -/
  back : ∀ {path entry}, Covered fnmatchcase watches path →
    fs.node path = some entry → s.watch entry.ino ≠ none →
      s.fs.node path = some entry
  gone : ∀ {ino}, s.Gone ino → ino < s.fs.nextIno →
    (s.change fs events last).Gone ino
  left : ∀ {event}, event ∈ s.reported events ∨ event ∈ s.reported last →
    event.mask.dropsWatch →
      (s.change fs events last).Left fnmatchcase watches event
  /-- A new directory is announced where its parent is watched. -/
  created : ∀ {path ino}, Covered fnmatchcase watches path →
    fs.node path = some ⟨ino, true⟩ → s.fs.node path = some ⟨ino, true⟩ ∨
      ((∀ wc ∈ watches, path ≠ wc.path) ∧ ∀ {dir name parent},
        path = dir ++ [name] → fs.node dir = some ⟨parent, true⟩ →
          s.watch parent ≠ none →
            ⟨parent, .create, true, some name⟩ ∈ events)

variable {fnmatchcase watches} {s : State} {fs : FsTree String}
variable {events last : List Event} {ino : ℕ} {path : Path}

/-- A watched inode at a covered path is watched under it. -/
theorem Tracked.watch_of_ne_none (h : Tracked fnmatchcase watches s)
    (hcovered : Covered fnmatchcase watches path) (halive : s.Alive ino path)
    (hwatch : s.watch ino ≠ none) : s.watch ino = some path := by
  obtain ⟨other, hother⟩ := Option.ne_none_iff_exists'.mp hwatch
  rw [hother, (h.watched hother).2.2 hcovered halive]

section Change

variable (hchange : Disturbance fnmatchcase watches s fs events last)
include hchange

theorem Disturbance.alive_of_change
    (hcovered : Covered fnmatchcase watches path) (hwatch : s.watch ino ≠ none)
    (halive : (s.change fs events last).Alive ino path) : s.Alive ino path := by
  obtain ⟨isDir, hnode⟩ := halive
  exact ⟨isDir, hchange.back hcovered hnode hwatch⟩

theorem State.Left.change {event : Event}
    (hleft : s.Left fnmatchcase watches event) :
    (s.change fs events last).Left fnmatchcase watches event where
  bound := hleft.bound.trans_le hchange.nextIno_le
  away := by
    intro path hcovered halive
    by_cases hwatch : s.watch event.ino = none
    · exact hchange.gone (hleft.ended (.inr hwatch)) hleft.bound path halive
    · exact hleft.away hcovered
        (hchange.alive_of_change hcovered hwatch halive)
  ended := fun hend => hchange.gone (hleft.ended hend) hleft.bound

theorem tracked_change (h : Tracked fnmatchcase watches s) :
    Tracked fnmatchcase watches (s.change fs events last) where
  watched := by
    intro ino path hwatch
    obtain ⟨hcovered, hlt, hhome⟩ := h.watched hwatch
    have hwatch' : s.watch ino = some path := hwatch
    exact ⟨hcovered, hlt.trans_le hchange.nextIno_le,
      fun hother halive => hhome hother
        (hchange.alive_of_change hother (by simp [hwatch']) halive)⟩
  left := by
    intro event hevent hdrops
    rw [change_queue, change_late, List.mem_append, List.mem_append] at hevent
    rcases or_or_or_comm.mp hevent with hold | hnew
    · exact (h.left hold hdrops).change hchange
    · exact hchange.left hnew hdrops
  config := h.config
  root := h.root
  shape := h.shape
  fits := h.fits
  checked := h.checked
  claimed := by
    rintro path ⟨ino, hwatch, halive⟩
    have hwatch' : s.watch ino = some path := hwatch
    exact h.claimed ⟨ino, hwatch, hchange.alive_of_change
      (h.watched hwatch).1 (by simp [hwatch']) halive⟩
  pending := by
    intro dir name ino ino' hdir hchild hnode hwatch hnode' hwatch'
    have hparent : s.watch ino = some dir := hwatch
    rcases hchange.created hchild hnode' with hold | ⟨-, hannounced⟩
    · have hnodeWas := hchange.back hdir hnode (by simp [hparent])
      exact (h.pending hdir hchild hnodeWas hwatch hold hwatch').imp_right
        (List.mem_append_left _)
    · refine .inr (List.mem_append_right _ (mem_reported_iff.mpr ⟨?_, ?_⟩))
      · exact hannounced rfl hnode (by simp [hparent])
      · simp [hparent]
  start := by
    intro wc ino hwc hnode hwatch
    rcases hchange.created ⟨wc, hwc, covers_path⟩ hnode with hold | ⟨hroot, -⟩
    · exact h.start hwc hold hwatch
    · exact absurd rfl (hroot wc hwc)

end Change

end Disturbance

/-! ## The operations -/

section Spares

variable (fnmatchcase : String → String → Bool) (watches : List WatchConfig)

def State.isWatched (s : State) (path : Path) : Bool :=
  (s.fs.node path).any fun entry => (s.watch entry.ino).isSome

/-- Something at the path or below it is watched. -/
def State.holdsWatch (s : State) (path : Path) : Bool :=
  s.fs.support.any fun below => path <+: below && s.isWatched below

/-- A creation event of the directory, from the directory above it, waits in
the queue. -/
def State.announces (s : State) (path : Path) : Bool :=
  s.queue.any fun event => event.mask = .create && event.isDir &&
    event.name.any fun name => (s.watch event.ino).any fun dir =>
      dir ++ [name] = path && (s.fs.node dir).any (·.ino = event.ino)

def isRoot (path : Path) : Bool := watches.any (·.path = path)

def isCovered (path : Path) : Bool := watches.any (covers fnmatchcase · path)

/-- What comes to a covered path brings no watch along.  A directory comes only
into one that is not watched yet, after `__aenter__`, and no root of a watch
comes with it. -/
def State.mayLand (s : State) (src dir : Path) (name : String) : Bool :=
  (!isCovered fnmatchcase watches (dir ++ [name]) || !s.holdsWatch src) &&
    (!s.fs.isDir src || !watches.any (dir ++ [name] <+: ·.path) &&
      (!isCovered fnmatchcase watches (dir ++ [name]) ||
        s.entered && !s.isWatched dir))

/-- The watcher comes to a directory that has no watch while its path is still
registered for another one.  That does no harm if the creation event of the
directory is still to be read. -/
def State.obstructed (s : State) : Bool :=
  match s.calls with
  | .enter _ dir _ :: _ => (s.fs.node dir).any fun entry =>
      entry.isDir && (s.watch entry.ino).isNone && (s.dirToRoot dir).isSome &&
        !s.announces dir
  | _ => false

/-- The next event unregisters the path of its watch, although another
directory is there by now and watched. -/
def State.unseats (s : State) : Bool :=
  s.queue.head?.any fun event => event.mask.dropsWatch &&
    (s.watch event.ino).any fun dir => (s.fs.node dir).any fun entry =>
      entry.ino ≠ event.ino && s.watch entry.ino = some dir

/-- No root is made anew, renames land where they may, no system call of the
watcher fails, and no directory is taken for another one that was at its path. -/
def spares (s : State) : Action → Bool
  | .mkdir dir name => !isRoot watches (dir ++ [name])
  | .rename dir name dir' name' =>
      s.mayLand fnmatchcase watches (dir ++ [name]) dir' name'
  | .work => !s.obstructed
  | .take => !s.unseats
  | .fail => false
  | _ => true

variable {fnmatchcase watches} {s : State} {dir dir' path : Path}
variable {name name' : String} {parent parent' entry : Node}

theorem isWatched_iff (hentry : s.fs.node path = some entry) :
    s.isWatched path ↔ s.watch entry.ino ≠ none := by
  simp [State.isWatched, hentry, Option.isSome_iff_ne_none]

theorem not_holdsWatch_iff : s.holdsWatch path = false ↔
    ∀ below entry, path <+: below → s.fs.node below = some entry →
      s.watch entry.ino = none := by
  simp only [State.holdsWatch, List.any_eq_false, Bool.and_eq_true,
    decide_eq_true_eq, not_and]
  constructor
  · intro h below entry hbelow hentry
    have hnot := h below (s.fs.known (by simp [hentry])) hbelow
    simpa [isWatched_iff hentry] using hnot
  · intro h below _ hbelow hwatched
    obtain ⟨entry, hentry, hsome⟩ := (Option.any_eq_true _ _).mp hwatched
    simp [h below entry hbelow hentry] at hsome

theorem isCovered_iff :
    isCovered fnmatchcase watches path ↔ Covered fnmatchcase watches path :=
  List.any_eq_true

theorem exists_of_announces (h : s.announces path) : ∃ dir name ino,
    path = dir ++ [name] ∧ s.watch ino = some dir ∧ s.Alive ino dir ∧
      ⟨ino, .create, true, some name⟩ ∈ s.queue := by
  simp only [State.announces, List.any_eq_true, Bool.and_eq_true,
    decide_eq_true_eq, Option.any_eq_true] at h
  obtain ⟨⟨_, _, _, _⟩, hmem, ⟨rfl, rfl⟩, name, rfl, dir, hwatch, rfl, entry,
    hentry, rfl⟩ := h
  exact ⟨dir, name, entry.ino, rfl, hwatch, ⟨entry.isDir, hentry⟩, hmem⟩

theorem mem_of_announces (hparent : s.fs.node dir = some parent)
    (h : s.announces (dir ++ [name])) :
    ⟨parent.ino, .create, true, some name⟩ ∈ s.queue := by
  obtain ⟨dir', name', ino, hsplit, -, ⟨isDir, hnode⟩, hmem⟩ :=
    exists_of_announces h
  obtain ⟨rfl, hname⟩ := List.append_inj' hsplit rfl
  obtain rfl : name = name' := by simpa using hname
  rw [Option.some.inj (hparent.symm.trans hnode)]
  exact hmem

/-- What is covered below a path without roots makes the path covered. -/
theorem covered_of_below (hbelow : path <+: dir)
    (hroots : ∀ wc ∈ watches, ¬ path <+: wc.path)
    (h : Covered fnmatchcase watches dir) :
    Covered fnmatchcase watches path := by
  obtain ⟨wc, hwc, hcovers⟩ := h
  obtain ⟨rel, rfl⟩ := exists_rel_of_covers hcovers
  refine ⟨wc, hwc, ?_⟩
  rcases List.prefix_or_prefix_of_prefix hbelow (List.prefix_append _ _) with
    hle | ⟨start, rfl⟩
  · exact absurd hle (hroots wc hwc)
  · rw [List.prefix_append_right_inj] at hbelow
    rw [covers_append_iff] at hcovers ⊢
    exact fun first hfirst => hcovers first (hfirst.trans hbelow)

theorem dir_ne_child : dir ≠ dir ++ [name] := by
  simp

/-- The last events of an inode that is nowhere any more. -/
theorem left_of_gone {fs : FsTree String} {events last : List Event}
    {event : Event} {ino : ℕ} (hmem : event ∈ gone ino)
    (hbound : ino < fs.nextIno) (hgone : (s.change fs events last).Gone ino) :
    (s.change fs events last).Left fnmatchcase watches event := by
  obtain rfl : event.ino = ino := by
    rcases List.mem_pair.mp hmem with rfl | rfl <;> rfl
  exact ⟨hbound, fun _ => hgone _, fun _ => hgone⟩

theorem disturbance_insert (h : Tracked fnmatchcase watches s) {isDir : Bool}
    (hroot : isDir = true → isRoot watches (dir ++ [name]) = false)
    (hparent : s.fs.node dir = some parent) (hcan : s.fs.CanInsert dir name) :
    Disturbance fnmatchcase watches s (s.fs.insert dir name isDir hcan)
      [⟨parent.ino, .create, isDir, some name⟩] [] where
  nextIno_le := Nat.le_succ _
  back := by
    intro path entry _ hnode hwatch
    by_cases heq : path = dir ++ [name]
    · subst heq
      obtain rfl : _ = entry := by simpa [FsTree.insert] using hnode
      obtain ⟨other, hwatch⟩ := Option.ne_none_iff_exists'.mp hwatch
      exact absurd (h.watched hwatch).2.1 (lt_irrefl _)
    · simpa [FsTree.insert, heq] using hnode
  gone := by
    rintro ino hgone hlt path ⟨kind, hnode⟩
    change (s.fs.insert dir name isDir hcan).node path = _ at hnode
    by_cases heq : path = dir ++ [name]
    · have hnew : s.fs.nextIno = ino ∧ isDir = kind := by
        simpa [FsTree.insert, heq] using hnode
      exact hlt.ne' hnew.1
    · exact hgone path ⟨kind, by simpa [FsTree.insert, heq] using hnode⟩
  left := by
    intro event hmem hdrops
    rcases hmem with hmem | hmem
    · rw [List.mem_singleton.mp (mem_reported_iff.mp hmem).1] at hdrops
      cases hdrops
    · cases hmem
  created := by
    intro path ino hcovered hnode
    by_cases heq : path = dir ++ [name]
    · subst heq
      obtain ⟨rfl, rfl⟩ : s.fs.nextIno = ino ∧ isDir = true := by
        simpa [FsTree.insert] using hnode
      refine .inr ⟨?_, ?_⟩
      · intro wc hwc hpath
        have hnot := hroot rfl
        rw [isRoot, List.any_eq_false] at hnot
        exact hnot wc hwc (by simp [hpath])
      · intro above below found hsplit hfound hwatch
        obtain ⟨rfl, hbelow⟩ := List.append_inj' hsplit rfl
        obtain rfl : name = below := by simpa using hbelow
        have hfound' : s.fs.node dir = some ⟨found, true⟩ := by
          simpa [FsTree.insert, dir_ne_child] using hfound
        rw [hparent] at hfound'
        cases hfound'
        exact List.mem_singleton_self _
    · exact .inl (by simpa [FsTree.insert, heq] using hnode)

theorem disturbance_erase {isDir : Bool}
    (hentry : s.fs.node (dir ++ [name]) = some entry)
    (hleaf : s.fs.isLeaf (dir ++ [name])) :
    Disturbance fnmatchcase watches s (s.fs.erase (dir ++ [name]) hleaf)
      [⟨parent.ino, .delete, isDir, some name⟩] (gone entry.ino) := by
  have hback : ∀ {path found}, (s.fs.erase (dir ++ [name]) hleaf).node path =
      some found → path ≠ dir ++ [name] ∧ s.fs.node path = some found := by
    intro path found hnode
    by_cases heq : path = dir ++ [name]
    · simp [FsTree.erase, heq] at hnode
    · exact ⟨heq, by simpa [FsTree.erase, heq] using hnode⟩
  refine ⟨le_rfl, fun _ hnode _ => (hback hnode).2, ?_, ?_,
    fun _ hnode => .inl (hback hnode).2⟩
  · rintro ino hgone - path ⟨kind, hnode⟩
    exact hgone path ⟨kind, (hback hnode).2⟩
  · intro event hmem hdrops
    rcases hmem with hmem | hmem
    · rw [List.mem_singleton.mp (mem_reported_iff.mp hmem).1] at hdrops
      cases hdrops
    · refine left_of_gone (mem_reported_iff.mp hmem).1 (s.fs.fresh hentry) ?_
      rintro path ⟨kind, hnode⟩
      obtain ⟨hne, hwas⟩ := hback hnode
      exact hne (s.fs.unique hwas hentry rfl)

theorem disturbance_close :
    Disturbance fnmatchcase watches s s.fs
      [⟨parent.ino, .closeWrite, false, some name⟩,
        ⟨entry.ino, .closeWrite, false, none⟩] [] where
  nextIno_le := le_rfl
  back := fun _ hnode _ => hnode
  gone := fun hgone _ => hgone
  left := by
    intro event hmem hdrops
    rcases hmem with hmem | hmem
    · rcases List.mem_pair.mp (mem_reported_iff.mp hmem).1 with rfl | rfl <;>
        cases hdrops
    · cases hmem
  created := fun _ hnode => .inl hnode

/-! ## Renames -/

theorem mem_renameEvents {event : Event}
    (hmem : event ∈ renameEvents parent entry parent' name name') :
    (event.ino = parent.ino ∧ event.mask = .movedFrom) ∨
      (event.ino = parent'.ino ∧ event.mask = .movedTo) ∨
      event.ino = entry.ino ∧ event.mask = .moveSelf := by
  simp only [renameEvents, List.mem_cons, List.not_mem_nil, or_false] at hmem
  rcases hmem with rfl | rfl | rfl <;> simp

theorem mem_replaced {old : Option Node} {event : Event}
    (hmem : event ∈ old.toList.flatMap fun old => gone old.ino) :
    ∃ target, old = some target ∧ event ∈ gone target.ino := by
  obtain ⟨target, htarget, hmem⟩ := List.mem_flatMap.mp hmem
  exact ⟨target, Option.mem_toList.mp htarget, hmem⟩

section Moved

variable (hland : s.mayLand fnmatchcase watches (dir ++ [name]) dir' name')
include hland

/-- What comes to a covered path with a rename comes to one at whose start the
renamed entry has landed. -/
theorem covered_of_landed {rel : Path} {found : Node}
    (hcovered : Covered fnmatchcase watches (dir' ++ [name'] ++ rel))
    (hfound : s.fs.node (dir ++ [name] ++ rel) = some found) :
    Covered fnmatchcase watches (dir' ++ [name']) := by
  by_cases hrel : rel = []
  · simpa [hrel] using hcovered
  · have hdir : s.fs.isDir (dir ++ [name]) :=
      s.fs.isDir_iff.mpr (s.fs.isDir_of_below hrel (hfound ▸ nofun))
    simp only [State.mayLand, hdir, Bool.not_true, Bool.false_or,
      Bool.and_eq_true, Bool.not_eq_true', List.any_eq_false,
      decide_eq_true_eq] at hland
    exact covered_of_below (List.prefix_append _ _) hland.2.1 hcovered

/-- Where it is covered, it has not been watched. -/
theorem unwatched_of_landed {rel : Path} {found : Node}
    (hcovered : Covered fnmatchcase watches (dir' ++ [name'] ++ rel))
    (hfound : s.fs.node (dir ++ [name] ++ rel) = some found) :
    s.holdsWatch (dir ++ [name]) = false := by
  have hdst := covered_of_landed hland hcovered hfound
  simp only [State.mayLand, isCovered_iff.mpr hdst, Bool.not_true,
    Bool.false_or, Bool.and_eq_true, Bool.not_eq_true'] at hland
  exact hland.1

/-- A directory that lands on a covered path lands in one that is not watched. -/
theorem landed_in_unwatched {rel : Path} {ino : ℕ}
    (hcovered : Covered fnmatchcase watches (dir' ++ [name'] ++ rel))
    (hfound : s.fs.node (dir ++ [name] ++ rel) = some ⟨ino, true⟩) :
    (∀ wc ∈ watches, ¬ dir' ++ [name'] <+: wc.path) ∧ s.entered ∧
      s.isWatched dir' = false := by
  have hdst := covered_of_landed hland hcovered hfound
  have hdir : s.fs.isDir (dir ++ [name]) := by
    by_cases hrel : rel = []
    · exact s.fs.isDir_iff.mpr ⟨ino, by simpa [hrel] using hfound⟩
    · exact s.fs.isDir_iff.mpr (s.fs.isDir_of_below hrel (hfound ▸ nofun))
  simp only [State.mayLand, hdir, isCovered_iff.mpr hdst, Bool.not_true,
    Bool.false_or, Bool.and_eq_true, Bool.not_eq_true', List.any_eq_false,
    decide_eq_true_eq] at hland
  exact hland.2

/-- Nothing watched comes to a covered path, and no directory into a watched
one. -/
theorem disturbance_rename
    (hentry : s.fs.node (dir ++ [name]) = some entry)
    (hparent' : s.fs.node dir' = some parent')
    (hmove : s.fs.CanMove (dir ++ [name]) dir' name') :
    Disturbance fnmatchcase watches s
      (s.fs.move (dir ++ [name]) dir' name' hmove)
      (renameEvents parent entry parent' name name')
      ((s.fs.node (dir' ++ [name'])).toList.flatMap fun old =>
        gone old.ino) where
  nextIno_le := le_rfl
  back := by
    intro path found hcovered hnode hwatch
    rcases FsTree.movedNode_eq_some hnode with ⟨rel, rfl, hwas⟩ | ⟨-, -, hwas⟩
    · have hnone := unwatched_of_landed hland hcovered hwas
      exact absurd (not_holdsWatch_iff.mp hnone _ _ (List.prefix_append _ _) hwas)
        hwatch
    · exact hwas
  gone := by
    rintro ino hgone - path ⟨kind, hnode⟩
    rcases FsTree.movedNode_eq_some hnode with ⟨rel, -, hwas⟩ | ⟨-, -, hwas⟩ <;>
      exact hgone _ ⟨kind, hwas⟩
  left := by
    intro event hmem hdrops
    rcases hmem with hmem | hmem
    · obtain ⟨hmem, hwatch⟩ := mem_reported_iff.mp hmem
      rcases mem_renameEvents hmem with ⟨-, hmask⟩ | ⟨-, hmask⟩ | ⟨hino, hmask⟩
      · simp [hmask, Mask.dropsWatch] at hdrops
      · simp [hmask, Mask.dropsWatch] at hdrops
      · refine ⟨hino ▸ s.fs.fresh hentry, ?_, ?_⟩
        · rintro path hcovered ⟨kind, hnode⟩
          rcases FsTree.movedNode_eq_some hnode with
            ⟨rel, rfl, hwas⟩ | ⟨-, hsrc, hwas⟩
          · have hnone := unwatched_of_landed hland hcovered hwas
            exact hwatch (not_holdsWatch_iff.mp hnone _ _
              (List.prefix_append _ _) hwas)
          · exact hsrc (s.fs.unique hentry hwas hino.symm ▸ List.prefix_refl _)
        · rintro (hlast | hnone)
          · simp [hmask] at hlast
          · exact absurd hnone hwatch
    · obtain ⟨target, htarget, hmem⟩ := mem_replaced (mem_reported_iff.mp hmem).1
      refine left_of_gone hmem (s.fs.fresh htarget) ?_
      rintro path ⟨kind, hnode⟩
      rcases FsTree.movedNode_eq_some hnode with ⟨rel, -, hwas⟩ | ⟨hdst, -, hwas⟩
      · exact hmove.2.2.2 (s.fs.unique hwas htarget rfl ▸
          List.prefix_append _ _)
      · exact hdst (s.fs.unique hwas htarget rfl ▸ List.prefix_refl _)
  created := by
    intro path ino hcovered hnode
    rcases FsTree.movedNode_eq_some hnode with ⟨rel, rfl, hwas⟩ | ⟨-, -, hwas⟩
    · have hnone := unwatched_of_landed hland hcovered hwas
      obtain ⟨hroots, -, hunwatched⟩ :=
        landed_in_unwatched hland hcovered hwas
      refine .inr ⟨fun wc hwc heq =>
        hroots wc hwc (heq ▸ List.prefix_append _ _), ?_⟩
      intro above below found hsplit hfound hwatch
      refine absurd ?_ hwatch
      rcases List.eq_nil_or_concat rel with rfl | ⟨init, last, rfl⟩
      · -- it is in the directory that is not watched
        obtain ⟨rfl, -⟩ := List.append_inj' ((List.append_nil _).symm.trans
          hsplit) rfl
        have hstays : s.fs.movedNode (dir ++ [name]) (dir' ++ [name']) dir' =
            s.fs.node dir' := by
          refine FsTree.movedNode_other (fun hsrc => ?_) (fun hdst => ?_)
          · exact hmove.2.2.2 (hsrc.trans (List.prefix_append _ _))
          · have hlength := hdst.length_le
            rw [List.length_append, List.length_singleton] at hlength
            omega
        have hsame : parent' = ⟨found, true⟩ :=
          Option.some.inj (hparent'.symm.trans (hstays.symm.trans hfound))
        simpa [State.isWatched, hparent', hsame] using hunwatched
      · rw [List.concat_eq_append, ← List.append_assoc] at hsplit
        obtain ⟨rfl, -⟩ := List.append_inj' hsplit rfl
        have hwas' : s.fs.node (dir ++ [name] ++ init) = some ⟨found, true⟩ :=
          (FsTree.movedNode_append init).symm.trans hfound
        exact not_holdsWatch_iff.mp hnone _ _ (List.prefix_append _ _) hwas'
    · exact .inl hwas

end Moved

end Spares

end MirrorMirage.Watcher
