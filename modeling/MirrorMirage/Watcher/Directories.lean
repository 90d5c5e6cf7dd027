import MirrorMirage.Watcher.Arrivals

/-!
# Coverage of the directories

When the watcher has nothing left to do, it knows every covered directory, as
long as no directory was renamed into a watched one and what was registered for
one directory was taken for no other at its path.  A directory that is renamed
into a watched one yields `IN_MOVED_TO | IN_ISDIR`, which `_iter` skips.
-/

namespace MirrorMirage.Watcher

open MirrorMirage.FileTree MirrorMirage.Run MirrorMirage.Trace

/-- Every event of the kernel has been processed. -/
def State.settled (s : State) : Bool := s.queue.isEmpty && s.calls.isEmpty

/-- Every synthetic event has been emitted as well. -/
def State.idle (s : State) : Bool :=
  s.entered && s.settled && s.synthetic.isEmpty

theorem settled_iff {s : State} : s.settled ↔ s.queue = [] ∧ s.calls = [] := by
  simp [State.settled]

theorem idle_iff {s : State} :
    s.idle ↔ s.entered ∧ s.settled ∧ s.synthetic = [] := by
  simp [State.idle, and_assoc]

section Settled

variable {fnmatchcase : String → String → Bool} {watches : List WatchConfig}
variable {s : State} {wc : WatchConfig} {dir : Path} {ino : ℕ}

/-- By induction along the path from the root of the watch. -/
theorem Tracked.watch_of_settled (h : Tracked fnmatchcase watches s)
    (hsettled : s.settled) (hwc : wc ∈ watches) (rel : Path)
    (hcovers : covers fnmatchcase wc (wc.path ++ rel))
    (hnode : s.fs.node (wc.path ++ rel) = some ⟨ino, true⟩) :
    s.watch ino = some (wc.path ++ rel) := by
  obtain ⟨hqueue, hcalls⟩ := settled_iff.mp hsettled
  refine h.watch_of_ne_none ⟨wc, hwc, hcovers⟩ ⟨true, hnode⟩ fun hwatch => ?_
  induction rel using List.reverseRecOn generalizing ino with
  | nil =>
      rw [List.append_nil] at hnode
      obtain ⟨call, hmem, -⟩ := h.start hwc hnode hwatch
      simp [hcalls] at hmem
  | append_singleton rel name ih =>
      rw [← List.append_assoc] at hcovers hnode
      obtain ⟨parent, hparent⟩ :=
        s.fs.parent (hnode ▸ Option.some_ne_none _)
      have hcoversParent : covers fnmatchcase wc (wc.path ++ rel) := by
        rcases covers_of_child hcovers with heq | hcoversParent
        · simp at heq
        · exact hcoversParent
      have hwatchParent := h.watch_of_ne_none ⟨wc, hwc, hcoversParent⟩
        ⟨true, hparent⟩ (ih hcoversParent hparent)
      rcases h.pending ⟨wc, hwc, hcoversParent⟩ ⟨wc, hwc, hcovers⟩ hparent
        hwatchParent hnode hwatch with
          ⟨call, hmem, -⟩ | hmem
      · simp [hcalls] at hmem
      · simp [hqueue] at hmem

theorem Tracked.registered_of_settled (h : Tracked fnmatchcase watches s)
    (hunnested : Unnested watches) (hsettled : s.settled)
    (hwc : wc ∈ watches) (hcovers : covers fnmatchcase wc dir)
    (hnode : s.fs.node dir = some ⟨ino, true⟩) :
    s.watch ino = some dir ∧ s.dirToRoot dir = some wc.path := by
  obtain ⟨rel, rfl⟩ := exists_rel_of_covers hcovers
  have hwatch := h.watch_of_settled hsettled hwc rel hcovers hnode
  obtain ⟨found, hfound⟩ := h.config_of_watch (settled_iff.mp hsettled).2 hwatch
    ⟨true, hnode⟩
  obtain ⟨hfoundMem, hfoundCovers⟩ := h.config hfound
  refine ⟨hwatch, ?_⟩
  rw [h.root, hfound, hunnested.eq_of_covers hfoundMem hwc hfoundCovers hcovers]
  rfl

theorem take_of_file {event : Event} {rest : List Event} {root : Path}
    {maskName : String} (hqueue : s.queue = event :: rest)
    (hwatch : s.watch event.ino = some dir) (hfile : event.isDir = false)
    (hroot : s.dirToRoot dir = some root)
    (hmask : maskToName event.mask = some maskName) :
    take s = some (s.read event rest,
      [.emitted maskName (dir ++ event.name.toList) root]) := by
  have hkeeps : event.mask.dropsWatch = false := by
    revert hmask
    cases event.mask <;> simp [maskToName, Mask.dropsWatch]
  simp [take, hqueue, hwatch, handle, hkeeps, hfile, hroot, hmask, State.read]

/-- The close of a file in a registered directory is the next thing that the
watcher reports. -/
theorem take_of_close (hidle : s.idle) {root : Path} {name : String}
    {after : State} {out : List Obs}
    (hnode : s.fs.node dir = some ⟨ino, true⟩) (hwatch : s.watch ino = some dir)
    (hroot : s.dirToRoot dir = some root)
    (hstep : step fnmatchcase s (.close dir name) = some (after, out)) :
    ∃ next, step fnmatchcase after .take =
      some (next, [.emitted "IN_CLOSE_WRITE" (dir ++ [name]) root]) := by
  obtain ⟨hentered, hsettled, hsynthetic⟩ := idle_iff.mp hidle
  obtain ⟨hqueue, hcalls⟩ := settled_iff.mp hsettled
  cases move_of_step hstep with
  | insert haction | remove haction => simp at haction
  | @close _ _ parent entry hparent hentry hkind =>
      obtain rfl := Option.some.inj (hparent.symm.trans hnode)
      have hfirst : (s.change s.fs [⟨ino, .closeWrite, false, some name⟩,
          ⟨entry.ino, .closeWrite, false, none⟩] []).queue =
            ⟨ino, .closeWrite, false, some name⟩ ::
              s.reported [⟨entry.ino, .closeWrite, false, none⟩] := by
        simp [hqueue, State.reported, List.filter_cons, hwatch]
      exact ⟨_, (if_pos ⟨hentered, hcalls, hsynthetic⟩).trans
        (take_of_file hfirst hwatch rfl hroot rfl)⟩

end Settled

/-- In every run that spares the covered part of the tree, once every event
has been processed, every covered directory is registered, so that a later
write in it is reported; and when the synthetic events have been emitted as
well, no file that came with a directory, and stayed, is left unreported. -/
theorem directories_are_covered {fnmatchcase : String → String → Bool}
    {watches : List WatchConfig} (hunnested : Unnested watches)
    {fs : FsTree String} {trace : List Obs} {s : State}
    (hrun : Reaches (step fnmatchcase)
      (fun s action => spares fnmatchcase watches s action)
      (start fs watches) trace s) (hsettled : s.settled) :
    (∀ wc ∈ watches, ∀ dir, s.fs.isDir dir → covers fnmatchcase wc dir →
      s.dirToRoot dir = some wc.path ∧
        ∀ name after out, s.idle →
          step fnmatchcase s (.close dir name) = some (after, out) →
            ∃ next, step fnmatchcase after .take = some (next,
              [.emitted "IN_CLOSE_WRITE" (dir ++ [name]) wc.path])) ∧
      (s.synthetic = [] → ∀ wc ∈ watches, ∀ path,
        covers fnmatchcase wc path →
          ¬ Since (· = .arrived path) (EndsArrival wc path) trace) := by
  have h := tracked_of_reaches hunnested hrun
  constructor
  · intro wc hwc dir hdir hcovers
    obtain ⟨ino, hnode⟩ := s.fs.isDir_iff.mp hdir
    obtain ⟨hwatch, hroot⟩ :=
      h.registered_of_settled hunnested hsettled hwc hcovers hnode
    exact ⟨hroot, fun name after out hidle hstep =>
      take_of_close hidle hnode hwatch hroot hstep⟩
  · intro hsynthetic wc hwc path hcovers hsince
    obtain ⟨dir, name, rfl, hparent, -, ⟨ino, hfile⟩, hawaited⟩ :=
      awaited_of_reaches hunnested hrun hwc hcovers hsince
    cases hawaited with
    | unwatched hunwatched =>
        obtain ⟨parent, hdir⟩ := s.fs.parent (hfile ▸ Option.some_ne_none _)
        obtain ⟨hwatch, -⟩ :=
          h.registered_of_settled hunnested hsettled hwc hparent hdir
        simp [hunwatched parent hdir] at hwatch
    | call call hmem => simp [(settled_iff.mp hsettled).2] at hmem
    | synthetic hmem => simp [hsynthetic] at hmem

section Samples

/-- `/srv`, which is watched, and `/stage/f`. -/
def sampleTree : FsTree String :=
  (((FsTree.top.insert [] "/" true (by decide)).insert ["/"] "srv" true
    (by decide)).insert ["/"] "stage" true (by decide)).insert ["/", "stage"] "f"
      false (by decide)

def sampleWatch : WatchConfig where
  path := ["/", "srv"]
  bindings := []

/-- `/srv/sub`, both watched. -/
def nestedTree : FsTree String :=
  ((FsTree.top.insert [] "/" true (by decide)).insert ["/"] "srv" true
    (by decide)).insert ["/", "srv"] "sub" true (by decide)

def nestedWatch : WatchConfig where
  path := ["/", "srv", "sub"]
  bindings := []

theorem unnested_singleton (wc : WatchConfig) : Unnested [wc] := by
  intro first hfirst second hsecond _
  rw [List.mem_singleton.mp hfirst, List.mem_singleton.mp hsecond]

/-- A directory comes with a file into a new one that is not watched yet; both
are registered, and the file is reported. -/
theorem directories_are_covered_sample : ∃ trace s,
    Reaches (step fun _ _ => false)
      (fun s action => spares (fun _ _ => false) [sampleWatch] s action)
      (start sampleTree [sampleWatch]) trace s ∧
    s.fs.isDir ["/", "srv", "new", "x"] ∧
    s.dirToRoot ["/", "srv", "new", "x"] = some ["/", "srv"] ∧
    .arrived ["/", "srv", "new", "x", "f"] ∈ trace ∧
    ¬ Since (· = .arrived ["/", "srv", "new", "x", "f"])
      (EndsArrival sampleWatch ["/", "srv", "new", "x", "f"]) trace := by
  obtain ⟨trace, s, hrun, hview⟩ := exists_reaches_of_execute
    (step fun _ _ => false) (start sampleTree [sampleWatch])
    (fun s action => spares (fun _ _ => false) [sampleWatch] s action)
    (fun final => decide (final.1.settled ∧
      final.1.fs.isDir ["/", "srv", "new", "x"] ∧ final.1.synthetic = [] ∧
      .arrived ["/", "srv", "new", "x", "f"] ∈ final.2))
    true
    [.work, .work, .work, .scan [], .work, .enter, .mkdir ["/", "srv"] "new",
      .rename ["/"] "stage" ["/", "srv", "new"] "x", .take, .work, .work, .work,
      .scan [("x", true)], .work, .work, .work, .work, .scan [("f", false)],
      .work, .work, .emit]
    (by decide +kernel)
  obtain ⟨hsettled, hdir, hsynthetic, harrived⟩ := of_decide_eq_true hview
  obtain ⟨hdirs, hfiles⟩ := directories_are_covered
    (unnested_singleton sampleWatch) hrun hsettled
  exact ⟨trace, s, hrun, hdir,
    (hdirs sampleWatch (List.mem_singleton_self _) _ hdir (by decide)).1,
    harrived, hfiles hsynthetic sampleWatch (List.mem_singleton_self _) _
      (by decide)⟩

/-- No file is removed, and no system call of the watcher fails. -/
def Action.isOrdinary : Action → Bool
  | .unlink .. | .fail => false
  | _ => true

/-- A directory that is renamed into the watched one is not registered, and
the file in it is not reported.  Nor is a directory registered that has been
made anew before the kernel has queued the last events of the first one. -/
theorem moved_directory_is_not_covered :
    (∃ trace s, Reaches (step fun _ _ => false)
      (fun _ action => action.isOrdinary) (start sampleTree [sampleWatch]) trace
      s ∧ s.idle ∧ s.fs.isDir ["/", "srv", "new"] ∧
      covers (fun _ _ => false) sampleWatch ["/", "srv", "new", "f"] ∧
      s.dirToRoot ["/", "srv", "new"] = none ∧
      Since (· = .arrived ["/", "srv", "new", "f"])
        (EndsArrival sampleWatch ["/", "srv", "new", "f"]) trace) ∧
    ∃ trace s, Reaches (step fun _ _ => false)
      (fun _ action => action.isOrdinary) (start sampleTree [sampleWatch]) trace
      s ∧ s.idle ∧ s.fs.isDir ["/", "srv", "new"] ∧
      covers (fun _ _ => false) sampleWatch ["/", "srv", "new"] ∧
      s.dirToRoot ["/", "srv", "new"] = none := by
  constructor
  · obtain ⟨trace, s, hrun, hview⟩ := exists_reaches_of_execute
      (step fun _ _ => false) (start sampleTree [sampleWatch])
      (fun _ action => action.isOrdinary)
      (fun final => (final.1.idle, final.1.fs.isDir ["/", "srv", "new"],
        final.1.dirToRoot ["/", "srv", "new"], final.2))
      (true, true, none, [.entered, .movedAway ["/", "stage"],
        .arrived ["/", "srv", "new", "f"]])
      [.work, .work, .work, .scan [], .work, .enter,
        .rename ["/"] "stage" ["/", "srv"] "new", .take]
      (by decide +kernel)
    simp only [Prod.mk.injEq] at hview
    obtain ⟨hidle, hdir, hroot, rfl⟩ := hview
    refine ⟨_, s, hrun, hidle, hdir, by decide, hroot, ?_⟩
    simp [since_cons]
  · obtain ⟨trace, s, hrun, hview⟩ := exists_reaches_of_execute
      (step fun _ _ => false) (start sampleTree [sampleWatch])
      (fun _ action => action.isOrdinary)
      (fun final => (final.1.idle, final.1.fs.isDir ["/", "srv", "new"],
        final.1.dirToRoot ["/", "srv", "new"]))
      (true, true, none)
      [.work, .work, .work, .scan [], .work, .enter, .mkdir ["/", "srv"] "new",
        .take, .work, .work, .work, .scan [], .work, .rmdir ["/", "srv"] "new",
        .mkdir ["/", "srv"] "new", .release 5, .release 5, .take, .take, .work,
        .take, .take]
      (by decide +kernel)
    simp only [Prod.mk.injEq] at hview
    obtain ⟨hidle, hdir, hroot⟩ := hview
    exact ⟨trace, s, hrun, hidle, hdir, by decide, hroot⟩

end Samples

end MirrorMirage.Watcher
