import MirrorMirage.Core.FileTree
import MirrorMirage.Core.Run
import MirrorMirage.Filter

/-!
# The inotify watcher as a machine

`watcher.py` with the filesystem and the kernel around it.  Other processes
change the tree and the kernel queues what watched inodes report; the watcher
does its system calls one at a time, so that changes come between any two of
them.  The last events of a removed inode wait until the last reference to it
goes.  The kernel's queue does not overflow, and symbolic and hard links are
left out.
-/

namespace MirrorMirage.Watcher

open Function (update)
open MirrorMirage.FileTree

/-! ## Events -/

/-- The kind of an event; the mask has `IN_ISDIR` besides. -/
inductive Mask where
  | movedTo
  | closeWrite
  | delete
  | movedFrom
  | create
  | moveSelf
  | deleteSelf
  | ignored
  deriving DecidableEq, Repr

/-- What the watch of an inode reports, with the name of the entry when it is
about an entry of a watched directory. -/
structure Event where
  ino : ℕ
  mask : Mask
  isDir : Bool
  name : Option String
  deriving DecidableEq, Repr

def maskToName : Mask → Option String
  | .movedTo => some "IN_MOVED_TO"
  | .closeWrite => some "IN_CLOSE_WRITE"
  | .delete => some "IN_DELETE"
  | .movedFrom => some "IN_MOVED_FROM"
  | _ => none

/-- The events whose watch the watcher drops. -/
def Mask.dropsWatch : Mask → Bool
  | .ignored | .deleteSelf | .moveSelf => true
  | _ => false

/-! ## State -/

/-- The two methods that add watches. -/
inductive Method where
  | addRecursive
  | addDirAndScan
  deriving DecidableEq, Repr

/-- Where a call of one of them is: before its checks, before each of its
system calls, in the listing of the directory, and at an entry that is not a
directory. -/
inductive Call where
  | enter (method : Method) (dir : Path) (wc : WatchConfig)
  | addWatch (method : Method) (dir : Path) (wc : WatchConfig)
  | record (method : Method) (dir : Path) (wc : WatchConfig)
  | scandir (method : Method) (dir : Path) (wc : WatchConfig)
  | scanning (method : Method) (dir : Path) (wc : WatchConfig)
      (entries : List (String × Bool))
  | file (path : Path) (wc : WatchConfig)
  deriving DecidableEq, Repr

/-- `watch` has the path under which each inode was watched, until the
`IN_IGNORED` of the inode has been read; `late` has the events of removed inodes
that the kernel has not queued yet; `calls` are the open calls, the innermost
first; `entered` says that `__aenter__` has returned. -/
structure State where
  fs : FsTree String
  watch : ℕ → Option Path
  queue : List Event
  late : List Event
  dirToRoot : Path → Option Path
  dirToConfig : Path → Option WatchConfig
  synthetic : List (String × Path × Path)
  calls : List Call
  entered : Bool

/-- The call of `__aenter__` on a tree. -/
def start (fs : FsTree String) (watches : List WatchConfig) : State where
  fs := fs
  watch := fun _ => none
  queue := []
  late := []
  dirToRoot := fun _ => none
  dirToConfig := fun _ => none
  synthetic := []
  calls := watches.map fun wc => .enter .addRecursive wc.path wc
  entered := false

inductive Obs where
  /-- A file has been closed after writing, or renamed into place. -/
  | ready (path : Path)
  | removed (path : Path)
  | movedAway (path : Path)
  /-- A file has come with a directory that was renamed. -/
  | arrived (path : Path)
  /-- `__aenter__` has returned. -/
  | entered
  /-- The watcher has yielded the tuple. -/
  | emitted (maskName : String) (path root : Path)
  deriving DecidableEq, Repr

inductive Action where
  | mkdir (dir : Path) (name : String)
  | rmdir (dir : Path) (name : String)
  /-- `open` of a new file. -/
  | create (dir : Path) (name : String)
  /-- `close` of a file that was open for writing. -/
  | close (dir : Path) (name : String)
  | unlink (dir : Path) (name : String)
  | rename (dir : Path) (name : String) (dir' : Path) (name' : String)
  /-- The kernel queues the next of the last events of an inode. -/
  | release (ino : ℕ)
  /-- The innermost call moves on. -/
  | work
  /-- The system call of the innermost call fails. -/
  | fail
  /-- `scandir` starts, with the entries that are there in some order. -/
  | scan (entries : List (String × Bool))
  /-- `scandir` comes upon an entry that is new since then. -/
  | found (name : String)
  | enter
  /-- The next event is read and handled. -/
  | take
  /-- The next synthetic event is yielded. -/
  | emit
  deriving DecidableEq, Repr

/-! ## Other processes -/

/-- The events of watched inodes. -/
def State.reported (s : State) (events : List Event) : List Event :=
  events.filter fun event => (s.watch event.ino).isSome

/-- The kernel queues what watched inodes report. -/
def State.notify (s : State) (events : List Event) : State :=
  { s with
    queue := s.queue ++ s.reported events }

/-- The last events of an inode. -/
def gone (ino : ℕ) : List Event :=
  [⟨ino, .deleteSelf, false, none⟩, ⟨ino, .ignored, false, none⟩]

def insertEntry (s : State) (dir : Path) (name : String) (isDir : Bool) :
    Option (State × List Obs) :=
  match s.fs.node dir with
  | none => none
  | some parent =>
      if h : s.fs.CanInsert dir name then
        some ({ s.notify [⟨parent.ino, .create, isDir, some name⟩] with
          fs := s.fs.insert dir name isDir h }, [])
      else none

def removeEntry (s : State) (dir : Path) (name : String) (isDir : Bool) :
    Option (State × List Obs) :=
  match s.fs.node dir, s.fs.node (dir ++ [name]) with
  | some parent, some entry =>
      if h : entry.isDir = isDir ∧ s.fs.isLeaf (dir ++ [name]) then
        some ({ s.notify [⟨parent.ino, .delete, isDir, some name⟩] with
          fs := s.fs.erase (dir ++ [name]) h.2
          late := s.late ++ s.reported (gone entry.ino) },
          [.removed (dir ++ [name])])
      else none
  | _, _ => none

def closeFile (s : State) (dir : Path) (name : String) :
    Option (State × List Obs) :=
  match s.fs.node dir, s.fs.node (dir ++ [name]) with
  | some parent, some entry =>
      if entry.isDir then none
      else some (s.notify [⟨parent.ino, .closeWrite, false, some name⟩,
        ⟨entry.ino, .closeWrite, false, none⟩], [.ready (dir ++ [name])])
  | _, _ => none

/-- The files below a directory, at the paths they get by its rename. -/
def filesBelow (fs : FsTree String) (src dst : Path) : List Path :=
  (fs.support.filter fun path =>
    src <+: path ∧ (fs.node path).any (!·.isDir)).map fun path =>
      dst ++ path.drop src.length

def renameEntry (s : State) (dir : Path) (name : String) (dir' : Path)
    (name' : String) : Option (State × List Obs) :=
  let src := dir ++ [name]
  let dst := dir' ++ [name']
  match s.fs.node dir, s.fs.node src, s.fs.node dir' with
  | some parent, some entry, some parent' =>
      if h : s.fs.CanMove src dir' name' ∧
          (s.fs.node dst).all (·.isDir = entry.isDir) then
        some ({ s.notify [⟨parent.ino, .movedFrom, entry.isDir, some name⟩,
            ⟨parent'.ino, .movedTo, entry.isDir, some name'⟩,
            ⟨entry.ino, .moveSelf, false, none⟩] with
          fs := s.fs.move src dir' name' h.1
          late := s.late ++ s.reported
            ((s.fs.node dst).toList.flatMap fun old => gone old.ino) },
          .movedAway src ::
            if entry.isDir then (filesBelow s.fs src dst).map .arrived
            else [.ready dst])
      else none
  | _, _, _ => none

/-- Nothing refers to the inode any more, and the kernel queues the next of its
last events. -/
def release (s : State) (ino : ℕ) : Option State :=
  (s.late.find? (·.ino = ino)).map fun event =>
    { s with queue := s.queue ++ [event], late := s.late.erase event }

/-! ## The watcher -/

section Watcher

variable (fnmatchcase : String → String → Bool)

def isIgnored (path watchRoot : Path) (ignore : List String) : Bool :=
  match Pathlib.relativeTo path watchRoot with
  | none => false
  | some rel => Filter.matchesAnyGlob fnmatchcase rel ignore

/-- The early returns of the two methods before `add_watch`. -/
def skips (s : State) (dir : Path) (wc : WatchConfig) : Method → Bool
  | .addRecursive =>
      !s.fs.isDir dir ||
        (dir ≠ wc.path && isIgnored fnmatchcase dir wc.path wc.ignore) ||
          (s.dirToRoot dir).isSome
  | .addDirAndScan =>
      isIgnored fnmatchcase dir wc.path wc.ignore || (s.dirToRoot dir).isSome

/-- The body of the loop over the entries. -/
def visitEntry (method : Method) (dir : Path) (wc : WatchConfig)
    (entry : String × Bool) : List Call :=
  if entry.2 then [.enter method (dir ++ [entry.1]) wc]
  else match method with
    | .addRecursive => []
    | .addDirAndScan => [.file (dir ++ [entry.1]) wc]

def work (s : State) : Option State :=
  match s.calls with
  | .enter method dir wc :: rest =>
      if skips fnmatchcase s dir wc method then some { s with calls := rest }
      else some { s with calls := .addWatch method dir wc :: rest }
  | .addWatch method dir wc :: rest =>
      match s.fs.node dir with
      | none => some { s with calls := rest }
      | some entry =>
          some { s with
            watch := update s.watch entry.ino (some dir)
            calls := .record method dir wc :: rest }
  | .record method dir wc :: rest =>
      some { s with
        dirToRoot := update s.dirToRoot dir (some wc.path)
        dirToConfig := update s.dirToConfig dir (some wc)
        calls := .scandir method dir wc :: rest }
  | .scandir _ dir _ :: rest =>
      if s.fs.isDir dir then none else some { s with calls := rest }
  | .scanning method dir wc entries :: rest =>
      some { s with calls := entries.flatMap (visitEntry method dir wc) ++ rest }
  | .file path wc :: rest =>
      if isIgnored fnmatchcase path wc.path wc.ignore then
        some { s with calls := rest }
      else some { s with
        synthetic := s.synthetic ++ [("IN_MOVED_TO", path, wc.path)]
        calls := rest }
  | [] => none

/-- `add_watch` or `scandir` raises an `OSError`.  The `ENOSPC` that ends
`_add_recursive` with an `InotifyLimitError` is not meant. -/
def fail (s : State) : Option State :=
  match s.calls with
  | .addWatch _ _ _ :: rest | .scandir _ _ _ :: rest =>
      some { s with calls := rest }
  | _ => none

def scan (s : State) (entries : List (String × Bool)) : Option State :=
  match s.calls with
  | .scandir method dir wc :: rest =>
      if s.fs.isDir dir ∧ entries ⊆ s.fs.listing dir ∧
          s.fs.listing dir ⊆ entries then
        some { s with calls := .scanning method dir wc entries :: rest }
      else none
  | _ => none

def found (s : State) (name : String) : Option State :=
  match s.calls with
  | .scanning method dir wc entries :: rest =>
      (s.fs.node (dir ++ [name])).map fun entry =>
        { s with
          calls := .scanning method dir wc (entries ++ [(name, entry.isDir)])
            :: rest }
  | _ => none

/-- The part of `_iter` after the event has been read and its watch found. -/
def handle (s : State) (event : Event) (watchDir : Path) :
    State × List Obs :=
  let fullPath := watchDir ++ event.name.toList
  if event.mask.dropsWatch then
    ({ s with
      dirToRoot := update s.dirToRoot watchDir none
      dirToConfig := update s.dirToConfig watchDir none }, [])
  else if event.isDir then
    match event.mask, s.dirToConfig watchDir with
    | .create, some wc =>
        ({ s with calls := [.enter .addDirAndScan fullPath wc] }, [])
    | _, _ => (s, [])
  else match s.dirToRoot watchDir, maskToName event.mask with
    | some watchRoot, some maskName =>
        (s, [.emitted maskName fullPath watchRoot])
    | _, _ => (s, [])

def take (s : State) : Option (State × List Obs) :=
  match s.queue with
  | [] => none
  | event :: rest =>
      let read := { s with
        queue := rest
        watch := if event.mask = .ignored then update s.watch event.ino none
          else s.watch }
      match s.watch event.ino with
      | none => some (read, [])
      | some watchDir => some (handle read event watchDir)

def step (s : State) : Action → Option (State × List Obs)
  | .mkdir dir name => insertEntry s dir name true
  | .rmdir dir name => removeEntry s dir name true
  | .create dir name => insertEntry s dir name false
  | .close dir name => closeFile s dir name
  | .unlink dir name => removeEntry s dir name false
  | .rename dir name dir' name' => renameEntry s dir name dir' name'
  | .release ino => (release s ino).map (·, [])
  | .work => (work fnmatchcase s).map (·, [])
  | .fail => (fail s).map (·, [])
  | .scan entries => (scan s entries).map (·, [])
  | .found name => (found s name).map (·, [])
  | .enter =>
      if s.calls = [] ∧ s.entered = false then
        some ({ s with entered := true }, [.entered])
      else none
  | .take =>
      if s.entered ∧ s.calls = [] ∧ s.synthetic = [] then take s else none
  | .emit =>
      if s.entered ∧ s.calls = [] then
        match s.synthetic with
        | [] => none
        | (maskName, path, watchRoot) :: rest =>
            some ({ s with synthetic := rest },
              [.emitted maskName path watchRoot])
      else none

end Watcher

end MirrorMirage.Watcher
