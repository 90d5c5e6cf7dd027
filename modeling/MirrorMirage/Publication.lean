import MirrorMirage.Ownership
import MirrorMirage.Watcher.Directories

/-!
# Every way a file becomes live

File operations in a tree of directories that stays as it is, and what the
watcher, the filter and the mapper make of the events.  A file becomes live by
a close after writing, by a rename, as a hard link or as a symbolic link; the
kernel reports the two links with a bare `IN_CREATE`, for which the watcher has
no name.  The kernel's queue does not overflow.
-/

namespace MirrorMirage.Publication

open Function (update)
open MirrorMirage.Run MirrorMirage.Trace
open MirrorMirage.Watcher (Mask Event)
open MirrorMirage.Filter (EventKind)

/-! ## The machine -/

/-- The watcher's tree has the directories; `files` has the inodes of all other
entries, which hard links share. -/
structure State where
  watcher : Watcher.State
  files : Path → Option ℕ
  nextFile : ℕ

inductive Obs where
  /-- A file has become live at the path (`invalidate`), or one has gone from
  it (`delete`). -/
  | changed (kind : EventKind) (path : Path)
  /-- What `_pipeline` has submitted for an event. -/
  | submitted (kind : EventKind) (targets : List PurgeTarget)
  /-- `Mapper.map` has raised `ValueError`. -/
  | raised
  deriving DecidableEq, Repr

inductive Action where
  /-- `open` of a new file. -/
  | create (dir : Path) (name : String)
  /-- `close` of a file that was open for writing. -/
  | close (dir : Path) (name : String)
  | rename (dir : Path) (name : String) (dir' : Path) (name' : String)
  | link (source dir : Path) (name : String)
  | symlink (dir : Path) (name : String)
  | unlink (dir : Path) (name : String)
  /-- The kernel merges an event with an equal one before it. -/
  | merge
  /-- The watcher reads an event, and the pipeline takes what it yields. -/
  | take
  deriving DecidableEq, Repr

/-- The kernel reports an entry of a directory that is no directory. -/
def report (watcher : Watcher.State) (dir : Path) (mask : Mask)
    (name : String) : Watcher.State :=
  match watcher.fs.node dir with
  | none => watcher
  | some parent => watcher.notify [⟨parent.ino, mask, false, some name⟩]

/-- A directory without an entry of that name. -/
def State.isFree (s : State) (dir : Path) (name : String) : Bool :=
  s.watcher.fs.isDir dir && (s.watcher.fs.node (dir ++ [name])).isNone &&
    (s.files (dir ++ [name])).isNone

/-- `IN_CREATE` is all that is reported of a new entry. -/
def addEntry (s : State) (dir : Path) (name : String) (ino : ℕ) :
    Option State :=
  if s.isFree dir name then
    some { s with
      files := update s.files (dir ++ [name]) (some ino)
      watcher := report s.watcher dir .create name }
  else none

/-- A new file or symbolic link. -/
def addNew (s : State) (dir : Path) (name : String) : Option State :=
  (addEntry s dir name s.nextFile).map fun after =>
    { after with nextFile := s.nextFile + 1 }

/-- A rename between two links of one file does nothing and is left out. -/
def renameFile (s : State) (dir : Path) (name : String) (dir' : Path)
    (name' : String) : Option (State × List Obs) :=
  let src := dir ++ [name]
  let dst := dir' ++ [name']
  match s.files src with
  | none => none
  | some ino =>
      if s.watcher.fs.isDir dir' ∧ s.watcher.fs.node dst = none ∧
          s.files dst ≠ some ino then
        some ({ s with
          files := update (update s.files src none) dst (some ino)
          watcher := report (report s.watcher dir .movedFrom name) dir'
            .movedTo name' }, [.changed .delete src, .changed .invalidate dst])
      else none

def mergeEvents (s : State) : Option State :=
  match s.watcher.queue.reverse with
  | last :: before :: rest =>
      if last = before then
        some { s with watcher :=
          { s.watcher with queue := (before :: rest).reverse } }
      else none
  | _ => none

section Machine

variable (fnmatchcase : String → String → Bool) (watches : List WatchConfig)

/-- A turn of the loop of `_pipeline`. -/
def pump : Watcher.Obs → List Obs
  | .emitted maskName path _ =>
      match Filter.normalize fnmatchcase watches maskName path with
      | none => []
      | some event =>
          match Mapper.map watches event with
          | some targets => [.submitted event.kind targets]
          | none => [.raised]
  | _ => []

def step (s : State) : Action → Option (State × List Obs)
  | .create dir name => (addNew s dir name).map (·, [])
  | .close dir name =>
      if (s.files (dir ++ [name])).isSome then
        some ({ s with watcher := report s.watcher dir .closeWrite name },
          [.changed .invalidate (dir ++ [name])])
      else none
  | .rename dir name dir' name' => renameFile s dir name dir' name'
  | .link source dir name =>
      match s.files source with
      | none => none
      | some ino => (addEntry s dir name ino).map
          (·, [.changed .invalidate (dir ++ [name])])
  | .symlink dir name =>
      (addNew s dir name).map (·, [.changed .invalidate (dir ++ [name])])
  | .unlink dir name =>
      if (s.files (dir ++ [name])).isSome then
        some ({ s with
          files := update s.files (dir ++ [name]) none
          watcher := report s.watcher dir .delete name },
          [.changed .delete (dir ++ [name])])
      else none
  | .merge => (mergeEvents s).map (·, [])
  | .take => (Watcher.step fnmatchcase s.watcher .take).map fun result =>
      ({ s with watcher := result.1 },
        result.2.flatMap (pump fnmatchcase watches))

end Machine

/-! ## What is asked for -/

/-- The kernel reports the entries of the directory and the watcher knows
it. -/
def Registered (watcher : Watcher.State) (dir : Path) : Prop :=
  ∃ node root, watcher.fs.node dir = some node ∧
    watcher.watch node.ino = some dir ∧ watcher.dirToRoot dir = some root

/-- An entry of a registered directory. -/
def Followed (watcher : Watcher.State) (path : Path) : Prop :=
  ∃ dir name, path = dir ++ [name] ∧ Registered watcher dir

/-- A path that a watch owns and does not ignore. -/
structure Due (fnmatchcase : String → String → Bool)
    (watches : List WatchConfig) (watcher : Watcher.State) (path : Path)
    (watch : WatchConfig) (rel : Path) : Prop where
  followed : Followed watcher path
  owner : Filter.owner path (Filter.sortedWatches watches) = some (watch, rel)
  kept : Filter.matchesAnyGlob fnmatchcase rel watch.ignore = false

/-- A watch without bindings asks for nothing. -/
def Asked (watch : WatchConfig) (kind : EventKind) : Prop :=
  watch.bindings ≠ [] ∧ (kind = .delete → watch.flushOnDelete = true)

/-- No change at the path waits for its targets, one for each binding of the
watch. -/
def Purged (path : Path) (watch : WatchConfig) (rel : Path)
    (trace : List Obs) : Prop :=
  ∀ kind, Asked watch kind →
    ¬ Since (· = .changed kind path)
      (· = .submitted kind (targetsOf watch rel)) trace

/-- The new hard link or symbolic link. -/
def Action.links : Action → Option Path
  | .link _ dir name | .symlink dir name => some (dir ++ [name])
  | _ => none

/-- What is changed in another way. -/
def Action.changes : Action → EventKind → Option Path
  | .close dir name, .invalidate | .rename _ _ dir name, .invalidate |
    .rename dir name _ _, .delete | .unlink dir name, .delete =>
      some (dir ++ [name])
  | _, _ => none

/-- No link is made where a file is asked for, and where there is another
change the mapper has the bindings of the watch. -/
def Spares (watches : List WatchConfig) (path : Path) (watch : WatchConfig)
    (action : Action) : Prop :=
  (Asked watch .invalidate → action.links ≠ some path) ∧
    ∀ kind, Asked watch kind → action.changes kind = some path →
      SameBindings watches watch.path

/-- What the watcher covers when it has processed every event is followed. -/
theorem followed_of_reaches {fnmatchcase : String → String → Bool}
    {watches : List WatchConfig} (hunnested : Watcher.Unnested watches)
    {fs : FileTree.FsTree String} {trace : List Watcher.Obs}
    {watcher : Watcher.State}
    (hrun : Reaches (Watcher.step fnmatchcase)
      (fun s action => Watcher.spares fnmatchcase watches s action)
      (Watcher.start fs watches) trace watcher) (hsettled : watcher.settled)
    {wc : WatchConfig} (hwc : wc ∈ watches) {dir : Path}
    (hcovers : Watcher.covers fnmatchcase wc dir)
    (hdir : watcher.fs.isDir dir) (name : String) :
    Followed watcher (dir ++ [name]) := by
  obtain ⟨ino, hnode⟩ := watcher.fs.isDir_iff.mp hdir
  obtain ⟨hwatch, hroot⟩ :=
    (Watcher.tracked_of_reaches hunnested hrun).registered_of_settled hunnested
      hsettled hwc hcovers hnode
  exact ⟨dir, name, rfl, _, _, hnode, hwatch, hroot⟩

/-! ## The watcher between the operations -/

section Watcher

variable {fnmatchcase : String → String → Bool}
variable {start watcher after : Watcher.State} {dir : Path} {name : String}
variable {mask : Mask}

/-- The watcher is between two events, all of which are about entries that are
no directories. -/
structure Steady (start watcher : Watcher.State) : Prop where
  fs : watcher.fs = start.fs
  watch : watcher.watch = start.watch
  dirToRoot : watcher.dirToRoot = start.dirToRoot
  ready : watcher.entered = true ∧ watcher.calls = [] ∧
    watcher.synthetic = []
  plain : ∀ event ∈ watcher.queue,
    event.isDir = false ∧ event.mask.dropsWatch = false

theorem steady_start (hidle : start.idle) : Steady start start := by
  obtain ⟨hentered, hsettled, hsynthetic⟩ := Watcher.idle_iff.mp hidle
  obtain ⟨hqueue, hcalls⟩ := Watcher.settled_iff.mp hsettled
  exact ⟨rfl, rfl, rfl, ⟨hentered, hcalls, hsynthetic⟩, by simp [hqueue]⟩

theorem Steady.of_queue (h : Steady start watcher) {queue : List Event}
    (hplain : ∀ event ∈ queue,
      event.isDir = false ∧ event.mask.dropsWatch = false) :
    Steady start { watcher with queue := queue } :=
  ⟨h.fs, h.watch, h.dirToRoot, h.ready, hplain⟩

/-- A report is an event at the end of the queue, if it is one at all. -/
theorem exists_queue_report : ∃ queue,
    report watcher dir mask name = { watcher with queue := queue } ∧
      (∀ event ∈ watcher.queue, event ∈ queue) ∧
      ∀ event ∈ queue, event ∈ watcher.queue ∨
        event.isDir = false ∧ event.mask = mask := by
  unfold report
  split
  · exact ⟨watcher.queue, rfl, fun _ h => h, fun _ h => .inl h⟩
  · refine ⟨_, rfl, fun event hevent => List.mem_append_left _ hevent,
      fun event hevent => ?_⟩
    rcases List.mem_append.mp hevent with hevent | hevent
    · exact .inl hevent
    · obtain rfl := List.mem_singleton.mp (List.mem_of_mem_filter hevent)
      exact .inr ⟨rfl, rfl⟩

theorem Steady.report (h : Steady start watcher)
    (hmask : mask.dropsWatch = false) :
    Steady start (Publication.report watcher dir mask name) := by
  obtain ⟨queue, heq, -, hqueue⟩ :=
    @exists_queue_report watcher dir name mask
  rw [heq]
  refine h.of_queue fun event hevent => ?_
  rcases hqueue event hevent with hold | ⟨hdir, rfl⟩
  · exact h.plain event hold
  · exact ⟨hdir, hmask⟩

theorem mem_report {event : Event} (hevent : event ∈ watcher.queue) :
    event ∈ (report watcher dir mask name).queue := by
  obtain ⟨queue, heq, hold, -⟩ := @exists_queue_report watcher dir name mask
  rw [heq]
  exact hold event hevent

/-- What the watcher and the filter make of an event. -/
def Tells (watcher : Watcher.State) (kind : EventKind) (path : Path)
    (event : Event) : Prop :=
  ∃ dir root maskName, watcher.watch event.ino = some dir ∧
    watcher.dirToRoot dir = some root ∧ path = dir ++ event.name.toList ∧
    Watcher.maskToName event.mask = some maskName ∧
    Filter.kindOf maskName = some kind

theorem exists_tells_report (h : Steady start watcher)
    (hfollowed : Followed start (dir ++ [name])) {kind : EventKind}
    (hmask : (Watcher.maskToName mask).bind Filter.kindOf = some kind) :
    ∃ event ∈ (report watcher dir mask name).queue,
      Tells start kind (dir ++ [name]) event := by
  obtain ⟨dir', name', hpath, node, root, hnode, hwatch, hroot⟩ := hfollowed
  obtain ⟨rfl, hname⟩ := List.append_inj' hpath rfl
  obtain ⟨maskName, hmaskName, hkind⟩ := Option.bind_eq_some_iff.mp hmask
  refine ⟨⟨node.ino, mask, false, some name⟩, ?_, dir, root, maskName, hwatch,
    hroot, rfl, hmaskName, hkind⟩
  simp [report, h.fs, h.watch, hnode, Watcher.State.notify,
    Watcher.State.reported, hwatch]

theorem Steady.read_eq (h : Steady start watcher) {event : Event}
    {rest : List Event} (hqueue : watcher.queue = event :: rest) :
    watcher.read event rest = { watcher with queue := rest } := by
  have hkeeps := (h.plain event (by simp [hqueue])).2
  rw [Watcher.read_eq h.ready.2.1 hkeeps, ← h.ready.2.1]

/-- Reading an event of a steady watcher takes it off the queue and yields what
it tells. -/
theorem Steady.take (h : Steady start watcher) {out : List Watcher.Obs}
    (hstep : Watcher.step fnmatchcase watcher .take = some (after, out)) :
    ∃ event rest, watcher.queue = event :: rest ∧
      after = { watcher with queue := rest } ∧
      ∀ kind path, Tells start kind path event →
        ∃ root maskName, Filter.kindOf maskName = some kind ∧
          out = [.emitted maskName path root] := by
  cases Watcher.move_of_step hstep with
  | insert haction | remove haction => simp at haction
  | @takeLost event rest _ _ _ hqueue hwatch =>
      refine ⟨event, rest, hqueue, h.read_eq hqueue, ?_⟩
      rintro kind path ⟨dir, root, maskName, hdir, -⟩
      simp [← h.watch, hwatch] at hdir
  | @takeDrop event rest watchDir _ _ _ hqueue _ hdrops =>
      simp [(h.plain event (by simp [hqueue])).2] at hdrops
  | @takeDir event rest watchDir wc _ _ _ hqueue _ _ hkind _ =>
      simp [(h.plain event (by simp [hqueue])).1] at hkind
  | @takeSilent event rest watchDir _ _ _ hqueue hwatch _ _ hfile =>
      refine ⟨event, rest, hqueue, h.read_eq hqueue, ?_⟩
      rintro kind path ⟨dir, root, maskName, hdir, hroot, -, hname, -⟩
      obtain rfl := Option.some.inj (hwatch.symm.trans (h.watch ▸ hdir))
      have hnone := hfile (h.plain event (by simp [hqueue])).1
        (by simp [hname])
      simp [← h.dirToRoot, hnone] at hroot
  | @takeFile event rest watchDir root maskName _ _ _ hqueue hwatch _ _ hname =>
      refine ⟨event, rest, hqueue, h.read_eq hqueue, ?_⟩
      rintro kind path ⟨dir, root', maskName', hdir, -, rfl, hname', hkind⟩
      obtain rfl := Option.some.inj (hwatch.symm.trans (h.watch ▸ hdir))
      obtain rfl := Option.some.inj (hname.symm.trans hname')
      exact ⟨root, maskName, hkind, rfl⟩

theorem Steady.exists_take (h : Steady start watcher)
    (hqueue : watcher.queue ≠ []) :
    ∃ result, Watcher.step fnmatchcase watcher .take = some result := by
  obtain ⟨event, rest, heq⟩ := List.exists_cons_of_ne_nil hqueue
  rw [Watcher.step, if_pos h.ready, Watcher.take, heq]
  simp only
  split <;> exact ⟨_, rfl⟩

end Watcher

/-! ## One step -/

section Step

variable {fnmatchcase : String → String → Bool} {watches : List WatchConfig}
variable {start : Watcher.State} {s after : State} {action : Action}
variable {out : List Obs} {kind : EventKind} {path rel : Path}
variable {watch : WatchConfig} {dir : Path} {name : String}

/-- Only the bindings that the mapper finds decide whether the targets of the
watch are submitted for an event. -/
theorem pump_emitted {maskName : String} {root : Path}
    (howner : Filter.owner path (Filter.sortedWatches watches) =
      some (watch, rel))
    (hkept : Filter.matchesAnyGlob fnmatchcase rel watch.ignore = false)
    (hkind : Filter.kindOf maskName = some kind) (hasked : Asked watch kind)
    (hsame : SameBindings watches watch.path) :
    pump fnmatchcase watches (.emitted maskName path root) =
      [.submitted kind (targetsOf watch rel)] := by
  have hflush : ¬ (kind = .delete ∧ watch.flushOnDelete = false) := by
    rintro ⟨hdelete, hfalse⟩
    simp [hasked.2 hdelete] at hfalse
  have hevent : Filter.normalize fnmatchcase watches maskName path =
      some ⟨kind, path, watch.path⟩ := by
    rw [Filter.normalize_eq_ownEvent howner, Filter.ownEvent, hkept, hkind]
    simp [hflush]
  have htargets := (pipelineTargets_eq_iff hevent howner).mpr hsame
  rw [pipelineTargets, hevent] at htargets
  simp only [pump, hevent]
  simp only at htargets
  rw [htargets]

theorem changed_notMem_pump {found : Watcher.Obs} :
    .changed kind path ∉ pump fnmatchcase watches found := by
  unfold pump
  split
  · split
    · exact List.not_mem_nil
    · split <;> simp
  · exact List.not_mem_nil

/-- Nothing is taken off the queue, and a change that is not a new link is
told. -/
structure Grows (start : Watcher.State) (s : State) (action : Action)
    (after : State) (out : List Obs) : Prop where
  steady : Steady start after.watcher
  queue : ∀ event ∈ s.watcher.queue, event ∈ after.watcher.queue
  told : ∀ obs ∈ out, ∃ kind path, obs = .changed kind path ∧
    (kind = .invalidate ∧ action.links = some path ∨
      action.changes kind = some path ∧ (Followed start path →
        ∃ event ∈ after.watcher.queue, Tells start kind path event))

theorem grows_of_report (h : Steady start s.watcher) {mask : Mask}
    (hwatcher : after.watcher = report s.watcher dir mask name)
    (hkeeps : mask.dropsWatch = false)
    (hmask : (Watcher.maskToName mask).bind Filter.kindOf = some kind)
    (hchanges : action.changes kind = some (dir ++ [name])) :
    Grows start s action after [.changed kind (dir ++ [name])] where
  steady := hwatcher ▸ h.report hkeeps
  queue event hevent := hwatcher ▸ mem_report hevent
  told obs hobs := by
    obtain rfl := List.mem_singleton.mp hobs
    exact ⟨kind, _, rfl, .inr ⟨hchanges, fun hfollowed =>
      hwatcher ▸ exists_tells_report h hfollowed hmask⟩⟩

theorem grows_of_addEntry (h : Steady start s.watcher) {ino : ℕ}
    (hadd : addEntry s dir name ino = some after)
    (hout : ∀ obs ∈ out, ∃ path, obs = .changed .invalidate path ∧
      action.links = some path) : Grows start s action after out := by
  unfold addEntry at hadd
  split at hadd
  · cases hadd
    refine ⟨h.report rfl, fun _ => mem_report, fun obs hobs => ?_⟩
    obtain ⟨path, rfl, hlinks⟩ := hout obs hobs
    exact ⟨_, path, rfl, .inl ⟨rfl, hlinks⟩⟩
  · cases hadd

theorem grows_of_addNew (h : Steady start s.watcher)
    (hadd : addNew s dir name = some after)
    (hout : ∀ obs ∈ out, ∃ path, obs = .changed .invalidate path ∧
      action.links = some path) : Grows start s action after out := by
  obtain ⟨added, hadded, rfl⟩ := Option.map_eq_some_iff.mp hadd
  have hgrows := grows_of_addEntry h hadded hout
  exact ⟨hgrows.steady, hgrows.queue, hgrows.told⟩

theorem grows_of_renameFile (h : Steady start s.watcher) {dir' : Path}
    {name' : String}
    (hrename : renameFile s dir name dir' name' = some (after, out)) :
    Grows start s (.rename dir name dir' name') after out := by
  unfold renameFile at hrename
  simp only at hrename
  split at hrename
  · cases hrename
  · split at hrename
    · cases hrename
      have haway : Steady start (report s.watcher dir .movedFrom name) :=
        h.report rfl
      refine ⟨haway.report rfl, fun _ hevent => mem_report (mem_report hevent),
        fun obs hobs => ?_⟩
      rcases List.mem_pair.mp hobs with rfl | rfl
      · refine ⟨_, _, rfl, .inr ⟨rfl, fun hfollowed => ?_⟩⟩
        obtain ⟨event, hevent, htells⟩ : ∃ event ∈
            (report s.watcher dir .movedFrom name).queue,
              Tells start .delete (dir ++ [name]) event :=
          exists_tells_report h hfollowed rfl
        exact ⟨event, mem_report hevent, htells⟩
      · exact ⟨_, _, rfl, .inr ⟨rfl, fun hfollowed =>
          exists_tells_report haway hfollowed rfl⟩⟩
    · cases hrename

theorem grows_of_mergeEvents (h : Steady start s.watcher)
    (hmerge : mergeEvents s = some after) :
    Grows start s action after [] := by
  unfold mergeEvents at hmerge
  split at hmerge
  · rename_i last before rest hqueue
    split at hmerge
    · rename_i hsame
      subst hsame
      cases hmerge
      have hmem : ∀ event, event ∈ (last :: rest).reverse ↔
          event ∈ s.watcher.queue := by
        intro event
        rw [List.reverse_eq_iff.mp hqueue]
        simp [or_comm]
      exact ⟨h.of_queue fun event hevent => h.plain event ((hmem event).mp hevent),
        fun event hevent => (hmem event).mpr hevent, by simp⟩
    · cases hmerge
  · cases hmerge

theorem grows_of_step (h : Steady start s.watcher) (haction : action ≠ .take)
    (hstep : step fnmatchcase watches s action = some (after, out)) :
    Grows start s action after out := by
  cases action with
  | create dir name =>
      obtain ⟨added, hadded, heq⟩ := Option.map_eq_some_iff.mp hstep
      cases heq
      exact grows_of_addNew h hadded (by simp)
  | close dir name =>
      simp only [step] at hstep
      split at hstep
      · cases hstep
        exact grows_of_report h rfl rfl rfl rfl
      · cases hstep
  | rename dir name dir' name' => exact grows_of_renameFile h hstep
  | link source dir name =>
      simp only [step] at hstep
      split at hstep
      · cases hstep
      · obtain ⟨added, hadded, heq⟩ := Option.map_eq_some_iff.mp hstep
        cases heq
        exact grows_of_addEntry h hadded fun obs hobs =>
          ⟨_, List.mem_singleton.mp hobs, rfl⟩
  | symlink dir name =>
      obtain ⟨added, hadded, heq⟩ := Option.map_eq_some_iff.mp hstep
      cases heq
      exact grows_of_addNew h hadded fun obs hobs =>
        ⟨_, List.mem_singleton.mp hobs, rfl⟩
  | unlink dir name =>
      simp only [step] at hstep
      split at hstep
      · cases hstep
        exact grows_of_report h rfl rfl rfl rfl
      · cases hstep
  | merge =>
      obtain ⟨merged, hmerged, heq⟩ := Option.map_eq_some_iff.mp hstep
      cases heq
      exact grows_of_mergeEvents h hmerged
  | take => exact absurd rfl haction

end Step

/-! ## Whole runs -/

section Runs

variable {fnmatchcase : String → String → Bool} {watches : List WatchConfig}
variable {start : Watcher.State} {s after : State} {action : Action}
variable {trace out : List Obs} {kind : EventKind} {path rel : Path}
variable {watch : WatchConfig}

/-- A change that waits for its targets is told by an event of the queue. -/
structure Owed (start : Watcher.State) (watches : List WatchConfig)
    (path : Path) (watch : WatchConfig) (rel : Path) (trace : List Obs)
    (s : State) : Prop where
  steady : Steady start s.watcher
  pending : ∀ kind, Asked watch kind →
    Since (· = .changed kind path) (· = .submitted kind (targetsOf watch rel))
      trace →
    SameBindings watches watch.path ∧
      ∃ event ∈ s.watcher.queue, Tells start kind path event

theorem Owed.purged (h : Owed start watches path watch rel trace s)
    (hqueue : s.watcher.queue = []) : Purged path watch rel trace := by
  intro kind hasked hsince
  obtain ⟨-, event, hevent, -⟩ := h.pending kind hasked hsince
  simp [hqueue] at hevent

theorem Owed.of_grows (h : Owed start watches path watch rel trace s)
    (hfollowed : Followed start path)
    (hspares : Spares watches path watch action)
    (hgrows : Grows start s action after out) :
    Owed start watches path watch rel (trace ++ out) after := by
  refine ⟨hgrows.steady, fun kind hasked hsince => ?_⟩
  rcases since_append.mp hsince with hout | ⟨hbefore, -⟩
  · obtain ⟨obs, hobs, rfl⟩ := hout.exists_start
    obtain ⟨_, _, heq, htold⟩ := hgrows.told _ hobs
    cases heq
    rcases htold with ⟨rfl, hlinks⟩ | ⟨hchanges, htells⟩
    · exact absurd hlinks (hspares.1 hasked)
    · exact ⟨hspares.2 kind hasked hchanges, htells hfollowed⟩
  · obtain ⟨hsame, event, hevent, htells⟩ := h.pending kind hasked hbefore
    exact ⟨hsame, event, hgrows.queue event hevent, htells⟩

theorem Owed.take (h : Owed start watches path watch rel trace s)
    (hdue : Due fnmatchcase watches start path watch rel)
    (hstep : step fnmatchcase watches s .take = some (after, out)) :
    Owed start watches path watch rel (trace ++ out) after := by
  obtain ⟨⟨watcher, found⟩, htake, heq⟩ := Option.map_eq_some_iff.mp hstep
  cases heq
  obtain ⟨event, rest, hqueue, rfl, htold⟩ := h.steady.take htake
  refine ⟨h.steady.of_queue fun later hlater =>
    h.steady.plain later (by simp [hqueue, hlater]), fun kind hasked hsince => ?_⟩
  rcases since_append.mp hsince with hout | ⟨hbefore, hsilent⟩
  · obtain ⟨obs, hobs, rfl⟩ := hout.exists_start
    obtain ⟨yielded, -, hpump⟩ := List.mem_flatMap.mp hobs
    exact absurd hpump changed_notMem_pump
  · obtain ⟨hsame, pending, hpending, htells⟩ :=
      h.pending kind hasked hbefore
    refine ⟨hsame, pending, ?_, htells⟩
    rcases List.mem_cons.mp (hqueue ▸ hpending) with rfl | hrest
    · -- it is the event that has been read, so its targets are submitted
      obtain ⟨root, maskName, hkind, rfl⟩ := htold kind path htells
      have hpump := @pump_emitted fnmatchcase watches kind path rel watch
        maskName root hdue.owner hdue.kept hkind hasked hsame
      exact absurd rfl (hsilent _ (by simp [hpump]))
    · exact hrest

theorem Owed.step (h : Owed start watches path watch rel trace s)
    (hdue : Due fnmatchcase watches start path watch rel)
    (hspares : Spares watches path watch action)
    (hstep : step fnmatchcase watches s action = some (after, out)) :
    Owed start watches path watch rel (trace ++ out) after := by
  by_cases haction : action = .take
  · subst haction
    exact h.take hdue hstep
  · exact h.of_grows hdue.followed hspares
      (grows_of_step h.steady haction hstep)

theorem owed_of_reaches {first : State} (hidle : first.watcher.idle)
    (hdue : Due fnmatchcase watches first.watcher path watch rel)
    (hrun : Reaches (Publication.step fnmatchcase watches)
      (fun _ action => Spares watches path watch action) first trace s) :
    Owed first.watcher watches path watch rel trace s :=
  hrun.invariant (Owed first.watcher watches path watch rel)
    ⟨steady_start hidle, fun _ _ hsince => absurd hsince not_since_nil⟩
    fun h hspares hstep => h.step hdue hspares hstep

theorem spares_take : Spares watches path watch .take :=
  ⟨fun _ => by simp [Action.links], fun _ _ hchanges => by
    simp [Action.changes] at hchanges⟩

/-- The watcher can read until its queue is empty. -/
theorem Steady.exists_reaches (h : Steady start s.watcher) :
    ∃ rest final, Reaches (step fnmatchcase watches)
      (fun _ action => action = .take) s rest final ∧
        final.watcher.queue = [] := by
  refine exists_reaches_of_measure (fun s : State => Steady start s.watcher)
    (fun s => s.watcher.queue = []) (fun s => s.watcher.queue.length)
    (fun {s} hsteady hqueue => ?_) h
  obtain ⟨⟨watcher, found⟩, htake⟩ :=
    @Steady.exists_take fnmatchcase _ _ hsteady hqueue
  obtain ⟨event, rest, heq, rfl, -⟩ := hsteady.take htake
  refine ⟨.take, { s with watcher := { s.watcher with queue := rest } },
    found.flatMap (pump fnmatchcase watches), rfl, by simp [step, htake],
    hsteady.of_queue fun later hlater =>
      hsteady.plain later (by simp [heq, hlater]), ?_⟩
  simp [heq]

end Runs

/-- From every state in which the watcher waits for its next event: in every
run in which no link is made where a watch asks for a file, every close after
writing and every rename into place and, if the watch flushes deletions, every
removal there has led to one target for each binding of the watch as soon as
the queue is empty; and the watcher can always empty it. -/
theorem live_files_are_purged {fnmatchcase : String → String → Bool}
    {watches : List WatchConfig} {path rel : Path} {watch : WatchConfig}
    {start s : State} {trace : List Obs} (hidle : start.watcher.idle)
    (hdue : Due fnmatchcase watches start.watcher path watch rel)
    (hrun : Reaches (step fnmatchcase watches)
      (fun _ action => Spares watches path watch action) start trace s) :
    (s.watcher.queue = [] → Purged path watch rel trace) ∧
      ∃ rest final, Reaches (step fnmatchcase watches)
        (fun _ action => action = .take) s rest final ∧
          final.watcher.queue = [] ∧ Purged path watch rel (trace ++ rest) := by
  have howed := owed_of_reaches hidle hdue hrun
  refine ⟨howed.purged, ?_⟩
  obtain ⟨rest, final, hrest, hqueue⟩ := howed.steady.exists_reaches
  have hsparing : Reaches (step fnmatchcase watches)
      (fun _ action => Spares watches path watch action) s rest final :=
    hrest.mono fun _ _ htake => htake ▸ spares_take
  exact ⟨rest, final, hrest, hqueue,
    (owed_of_reaches hidle hdue (hrun.trans hsparing)).purged hqueue⟩

section Samples

/-- The watcher after its start on `/srv`; there is no file yet. -/
def sampleStart : State where
  watcher :=
    { Watcher.start Watcher.sampleTree [] with
      watch := update (fun _ => none) 2 (some ["/", "srv"])
      dirToRoot := update (fun _ => none) ["/", "srv"] (some ["/", "srv"])
      dirToConfig := update (fun _ => none) ["/", "srv"] (some firstWatch)
      entered := true }
  files := fun _ => none
  nextFile := 0

theorem due_sample : Due (fun _ _ => false) [firstWatch] sampleStart.watcher
    ["/", "srv", "pkg"] firstWatch ["pkg"] where
  followed := ⟨["/", "srv"], "pkg", rfl, ⟨2, true⟩, ["/", "srv"], by decide,
    by decide, by decide⟩
  owner := by
    have hsorted : Filter.sortedWatches [firstWatch] = [firstWatch] :=
      List.mergeSort_of_pairwise (by decide)
    rw [hsorted]
    decide
  kept := by decide

theorem asked_sample : Asked firstWatch .invalidate :=
  ⟨by decide, fun hdelete => by cases hdelete⟩

/-- A file is renamed into the watched directory and purged. -/
theorem live_files_are_purged_sample : ∃ trace s,
    Reaches (step (fun _ _ => false) [firstWatch])
      (fun _ action =>
        Spares [firstWatch] ["/", "srv", "pkg"] firstWatch action)
      sampleStart trace s ∧
    .submitted .invalidate [⟨"fastly", "https://x/pkg"⟩] ∈ trace := by
  obtain ⟨trace, s, hrun, hview⟩ := exists_reaches_of_execute
    (step (fun _ _ => false) [firstWatch]) sampleStart
    (fun _ action => action.links = none)
    (fun final => (final.1.watcher.queue, final.2.take 2))
    ([], [.changed .delete ["/", "stage", "pkg"],
      .changed .invalidate ["/", "srv", "pkg"]])
    [.create ["/", "stage"] "pkg",
      .rename ["/", "stage"] "pkg" ["/", "srv"] "pkg", .take]
    (by decide +kernel)
  obtain ⟨hqueue, hfirst⟩ := Prod.ext_iff.mp hview
  have hsparing : Reaches (step (fun _ _ => false) [firstWatch])
      (fun _ action =>
        Spares [firstWatch] ["/", "srv", "pkg"] firstWatch action)
      sampleStart trace s :=
    hrun.mono fun _ action hlinks =>
      ⟨fun _ => by simp [hlinks], fun _ _ _ => rfl⟩
  refine ⟨trace, s, hsparing, ?_⟩
  have hpurged := (live_files_are_purged (by decide) due_sample hsparing).1 hqueue
  have htargets : targetsOf firstWatch ["pkg"] =
      [⟨"fastly", "https://x/pkg"⟩] := by decide +kernel
  have htrace : trace = [.changed .delete ["/", "stage", "pkg"]] ++
      .changed .invalidate ["/", "srv", "pkg"] :: trace.drop 2 := by
    conv_lhs => rw [← List.take_append_drop 2 trace]
    exact congrArg (· ++ trace.drop 2) hfirst
  by_contra hnone
  refine hpurged .invalidate asked_sample ⟨_, _, _, htrace, rfl, ?_⟩
  rintro later hlater rfl
  exact hnone (htargets ▸ List.mem_of_mem_drop hlater)

/-- A file is linked into the watched directory, and the only event of it says
nothing to the watcher. -/
theorem linked_file_is_not_purged : ∃ trace s,
    Reaches (step (fun _ _ => false) [firstWatch]) (fun _ _ => True)
      sampleStart trace s ∧
    sampleStart.watcher.idle ∧
    Due (fun _ _ => false) [firstWatch] sampleStart.watcher
      ["/", "srv", "pkg"] firstWatch ["pkg"] ∧
    s.watcher.queue = [] ∧
    ¬ Purged ["/", "srv", "pkg"] firstWatch ["pkg"] trace := by
  obtain ⟨trace, s, hrun, hview⟩ := exists_reaches_of_execute
    (step (fun _ _ => false) [firstWatch]) sampleStart (fun _ _ => True)
    (fun final => (final.1.watcher.queue, final.2))
    ([], [.changed .invalidate ["/", "srv", "pkg"]])
    [.create ["/", "stage"] "pkg",
      .link ["/", "stage", "pkg"] ["/", "srv"] "pkg", .take]
    (by decide +kernel)
  obtain ⟨hqueue, htrace⟩ := Prod.ext_iff.mp hview
  refine ⟨trace, s, hrun, by decide, due_sample, hqueue, fun hpurged => ?_⟩
  obtain rfl : trace = [.changed .invalidate ["/", "srv", "pkg"]] := htrace
  exact hpurged .invalidate asked_sample (since_singleton.mpr rfl)

end Samples

end MirrorMirage.Publication
