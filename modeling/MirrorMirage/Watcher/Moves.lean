import MirrorMirage.Watcher.Model

/-!
# What one step of the watcher and its surroundings can do

`Move` lists the accepted actions with their guards and effects, and
`move_of_step` reads it off `step`.
-/

namespace MirrorMirage.Watcher

open Function (update)
open MirrorMirage.FileTree

/-- Another process puts `fs` in the place of the tree, which the watches of
some inodes report, now or at their end. -/
def State.change (s : State) (fs : FsTree String) (events last : List Event) :
    State :=
  { s.notify events with fs := fs, late := s.late ++ s.reported last }

section Fields

variable (s : State) (fs : FsTree String) (events last : List Event)

@[simp] theorem change_fs : (s.change fs events last).fs = fs := rfl
@[simp] theorem change_watch : (s.change fs events last).watch = s.watch := rfl
@[simp] theorem change_queue :
    (s.change fs events last).queue = s.queue ++ s.reported events := rfl
@[simp] theorem change_late :
    (s.change fs events last).late = s.late ++ s.reported last := rfl
@[simp] theorem change_dirToRoot :
    (s.change fs events last).dirToRoot = s.dirToRoot := rfl
@[simp] theorem change_dirToConfig :
    (s.change fs events last).dirToConfig = s.dirToConfig := rfl
@[simp] theorem change_synthetic :
    (s.change fs events last).synthetic = s.synthetic := rfl
@[simp] theorem change_calls : (s.change fs events last).calls = s.calls := rfl
@[simp] theorem change_entered :
    (s.change fs events last).entered = s.entered := rfl

theorem notify_eq_change :
    { s.notify events with fs := fs } = s.change fs events [] := by
  simp [State.change, State.notify, State.reported]

end Fields

theorem mem_reported_iff {s : State} {events : List Event} {event : Event} :
    event ∈ s.reported events ↔ event ∈ events ∧ s.watch event.ino ≠ none := by
  simp [State.reported, Option.isSome_iff_ne_none]

/-- The queue and the table after the first event has been read. -/
def State.read (s : State) (event : Event) (rest : List Event) : State :=
  { s with
    queue := rest
    watch := if event.mask = .ignored then update s.watch event.ino none
      else s.watch }

/-- The kernel has queued one of the last events of an inode. -/
def State.released (s : State) (event : Event) : State :=
  { s with queue := s.queue ++ [event], late := s.late.erase event }

/-- The events of a rename. -/
def renameEvents (parent entry parent' : Node) (name name' : String) :
    List Event :=
  [⟨parent.ino, .movedFrom, entry.isDir, some name⟩,
    ⟨parent'.ino, .movedTo, entry.isDir, some name'⟩,
    ⟨entry.ino, .moveSelf, false, none⟩]

/-- The accepted actions, with their guards, next states and observations. -/
inductive Move (fnmatchcase : String → String → Bool) (s : State) :
    Action → State → List Obs → Prop where
  | insert {action : Action} {dir : Path} {name : String} {isDir : Bool}
      {parent : Node} (haction : action = .mkdir dir name ∧ isDir = true ∨
        action = .create dir name ∧ isDir = false)
      (hparent : s.fs.node dir = some parent) (h : s.fs.CanInsert dir name) :
      Move fnmatchcase s action (s.change (s.fs.insert dir name isDir h)
        [⟨parent.ino, .create, isDir, some name⟩] []) []
  | remove {action : Action} {dir : Path} {name : String} {isDir : Bool}
      {parent entry : Node}
      (haction : action = .rmdir dir name ∨ action = .unlink dir name)
      (hparent : s.fs.node dir = some parent)
      (hentry : s.fs.node (dir ++ [name]) = some entry)
      (hleaf : s.fs.isLeaf (dir ++ [name])) :
      Move fnmatchcase s action (s.change (s.fs.erase (dir ++ [name]) hleaf)
        [⟨parent.ino, .delete, isDir, some name⟩] (gone entry.ino))
        [.removed (dir ++ [name])]
  | close {dir : Path} {name : String} {parent entry : Node}
      (hparent : s.fs.node dir = some parent)
      (hentry : s.fs.node (dir ++ [name]) = some entry)
      (hkind : entry.isDir = false) :
      Move fnmatchcase s (.close dir name) (s.change s.fs
        [⟨parent.ino, .closeWrite, false, some name⟩,
          ⟨entry.ino, .closeWrite, false, none⟩] []) [.ready (dir ++ [name])]
  | rename {dir dir' : Path} {name name' : String}
      {parent entry parent' : Node}
      (hparent : s.fs.node dir = some parent)
      (hentry : s.fs.node (dir ++ [name]) = some entry)
      (hparent' : s.fs.node dir' = some parent')
      (h : s.fs.CanMove (dir ++ [name]) dir' name')
      (hkind : (s.fs.node (dir' ++ [name'])).all (·.isDir = entry.isDir)) :
      Move fnmatchcase s (.rename dir name dir' name')
        (s.change (s.fs.move (dir ++ [name]) dir' name' h)
          (renameEvents parent entry parent' name name')
          ((s.fs.node (dir' ++ [name'])).toList.flatMap fun old =>
            gone old.ino))
        (.movedAway (dir ++ [name]) ::
          if entry.isDir then
            (filesBelow s.fs (dir ++ [name]) (dir' ++ [name'])).map .arrived
          else [.ready (dir' ++ [name'])])
  | release {ino : ℕ} {event : Event} (hino : event.ino = ino)
      (hlate : event ∈ s.late) :
      Move fnmatchcase s (.release ino) (s.released event) []
  | skip {method : Method} {dir : Path} {wc : WatchConfig} {rest : List Call}
      (hcalls : s.calls = .enter method dir wc :: rest)
      (hskips : skips fnmatchcase s dir wc method) :
      Move fnmatchcase s .work { s with calls := rest } []
  | check {method : Method} {dir : Path} {wc : WatchConfig}
      {rest : List Call} (hcalls : s.calls = .enter method dir wc :: rest)
      (hskips : skips fnmatchcase s dir wc method = false) :
      Move fnmatchcase s .work
        { s with calls := .addWatch method dir wc :: rest } []
  | vanished {method : Method} {dir : Path} {wc : WatchConfig}
      {rest : List Call} (hcalls : s.calls = .addWatch method dir wc :: rest)
      (hnode : s.fs.node dir = none) :
      Move fnmatchcase s .work { s with calls := rest } []
  | addWatch {method : Method} {dir : Path} {wc : WatchConfig}
      {rest : List Call} {entry : Node}
      (hcalls : s.calls = .addWatch method dir wc :: rest)
      (hnode : s.fs.node dir = some entry) :
      Move fnmatchcase s .work { s with
        watch := update s.watch entry.ino (some dir)
        calls := .record method dir wc :: rest } []
  | record {method : Method} {dir : Path} {wc : WatchConfig}
      {rest : List Call} (hcalls : s.calls = .record method dir wc :: rest) :
      Move fnmatchcase s .work { s with
        dirToRoot := update s.dirToRoot dir (some wc.path)
        dirToConfig := update s.dirToConfig dir (some wc)
        calls := .scandir method dir wc :: rest } []
  | unlisted {method : Method} {dir : Path} {wc : WatchConfig}
      {rest : List Call} (hcalls : s.calls = .scandir method dir wc :: rest)
      (hdir : s.fs.isDir dir = false) :
      Move fnmatchcase s .work { s with calls := rest } []
  | listed {method : Method} {dir : Path} {wc : WatchConfig}
      {rest : List Call} {entries : List (String × Bool)}
      (hcalls : s.calls = .scanning method dir wc entries :: rest) :
      Move fnmatchcase s .work { s with
        calls := entries.flatMap (visitEntry method dir wc) ++ rest } []
  | fileIgnored {path : Path} {wc : WatchConfig} {rest : List Call}
      (hcalls : s.calls = .file path wc :: rest)
      (hignored : isIgnored fnmatchcase path wc.path wc.ignore) :
      Move fnmatchcase s .work { s with calls := rest } []
  | file {path : Path} {wc : WatchConfig} {rest : List Call}
      (hcalls : s.calls = .file path wc :: rest)
      (hignored : isIgnored fnmatchcase path wc.path wc.ignore = false) :
      Move fnmatchcase s .work { s with
        synthetic := s.synthetic ++ [("IN_MOVED_TO", path, wc.path)]
        calls := rest } []
  | fail {method : Method} {dir : Path} {wc : WatchConfig} {rest : List Call}
      (hcalls : s.calls = .addWatch method dir wc :: rest ∨
        s.calls = .scandir method dir wc :: rest) :
      Move fnmatchcase s .fail { s with calls := rest } []
  | scan {method : Method} {dir : Path} {wc : WatchConfig}
      {rest : List Call} {entries : List (String × Bool)}
      (hcalls : s.calls = .scandir method dir wc :: rest)
      (hdir : s.fs.isDir dir) (hsound : entries ⊆ s.fs.listing dir)
      (hcomplete : s.fs.listing dir ⊆ entries) :
      Move fnmatchcase s (.scan entries)
        { s with calls := .scanning method dir wc entries :: rest } []
  | found {method : Method} {dir : Path} {wc : WatchConfig}
      {rest : List Call} {entries : List (String × Bool)} {name : String}
      {entry : Node} (hcalls : s.calls = .scanning method dir wc entries :: rest)
      (hentry : s.fs.node (dir ++ [name]) = some entry) :
      Move fnmatchcase s (.found name) { s with
        calls := .scanning method dir wc (entries ++ [(name, entry.isDir)]) ::
          rest } []
  | enter (hcalls : s.calls = []) :
      Move fnmatchcase s .enter { s with entered := true } [.entered]
  | takeLost {event : Event} {rest : List Event} (hentered : s.entered)
      (hcalls : s.calls = []) (hsynthetic : s.synthetic = [])
      (hqueue : s.queue = event :: rest) (hwatch : s.watch event.ino = none) :
      Move fnmatchcase s .take (s.read event rest) []
  | takeDrop {event : Event} {rest : List Event} {watchDir : Path}
      (hentered : s.entered) (hcalls : s.calls = [])
      (hsynthetic : s.synthetic = []) (hqueue : s.queue = event :: rest)
      (hwatch : s.watch event.ino = some watchDir)
      (hdrops : event.mask.dropsWatch) :
      Move fnmatchcase s .take { s.read event rest with
        dirToRoot := update s.dirToRoot watchDir none
        dirToConfig := update s.dirToConfig watchDir none } []
  | takeDir {event : Event} {rest : List Event} {watchDir : Path}
      {wc : WatchConfig} (hentered : s.entered) (hcalls : s.calls = [])
      (hsynthetic : s.synthetic = []) (hqueue : s.queue = event :: rest)
      (hwatch : s.watch event.ino = some watchDir)
      (hmask : event.mask = .create) (hdir : event.isDir)
      (hconfig : s.dirToConfig watchDir = some wc) :
      Move fnmatchcase s .take { s.read event rest with
        calls := [.enter .addDirAndScan (watchDir ++ event.name.toList) wc] }
        []
  | takeSilent {event : Event} {rest : List Event} {watchDir : Path}
      (hentered : s.entered) (hcalls : s.calls = [])
      (hsynthetic : s.synthetic = []) (hqueue : s.queue = event :: rest)
      (hwatch : s.watch event.ino = some watchDir)
      (hdrops : event.mask.dropsWatch = false)
      (hdir : event.isDir → event.mask = .create →
        s.dirToConfig watchDir = none)
      (hfile : event.isDir = false → (maskToName event.mask).isSome →
        s.dirToRoot watchDir = none) :
      Move fnmatchcase s .take (s.read event rest) []
  | takeFile {event : Event} {rest : List Event} {watchDir watchRoot : Path}
      {maskName : String} (hentered : s.entered) (hcalls : s.calls = [])
      (hsynthetic : s.synthetic = []) (hqueue : s.queue = event :: rest)
      (hwatch : s.watch event.ino = some watchDir)
      (hdir : event.isDir = false)
      (hroot : s.dirToRoot watchDir = some watchRoot)
      (hmask : maskToName event.mask = some maskName) :
      Move fnmatchcase s .take (s.read event rest)
        [.emitted maskName (watchDir ++ event.name.toList) watchRoot]
  | emit {maskName : String} {path watchRoot : Path}
      {rest : List (String × Path × Path)} (hentered : s.entered)
      (hcalls : s.calls = [])
      (hsynthetic : s.synthetic = (maskName, path, watchRoot) :: rest) :
      Move fnmatchcase s .emit { s with synthetic := rest }
        [.emitted maskName path watchRoot]

section Step

variable {fnmatchcase : String → String → Bool} {s after : State}
variable {out : List Obs} {action : Action}

theorem move_of_insertEntry {dir : Path} {name : String} {isDir : Bool}
    (haction : action = .mkdir dir name ∧ isDir = true ∨
      action = .create dir name ∧ isDir = false)
    (hstep : insertEntry s dir name isDir = some (after, out)) :
    Move fnmatchcase s action after out := by
  unfold insertEntry at hstep
  split at hstep
  · cases hstep
  · split at hstep <;> cases hstep
    rw [notify_eq_change]
    exact .insert haction ‹_› _

theorem move_of_removeEntry {dir : Path} {name : String} {isDir : Bool}
    (haction : action = .rmdir dir name ∨ action = .unlink dir name)
    (hstep : removeEntry s dir name isDir = some (after, out)) :
    Move fnmatchcase s action after out := by
  unfold removeEntry at hstep
  split at hstep
  · split at hstep <;> cases hstep
    exact .remove haction ‹_› ‹_› _
  · cases hstep

theorem move_of_closeFile {dir : Path} {name : String}
    (hstep : closeFile s dir name = some (after, out)) :
    Move fnmatchcase s (.close dir name) after out := by
  unfold closeFile at hstep
  split at hstep
  · split at hstep <;> cases hstep
    have hmove := @Move.close fnmatchcase s dir name _ _ ‹_› ‹_›
      (Bool.eq_false_iff.mpr ‹_›)
    rwa [← notify_eq_change] at hmove
  · cases hstep

theorem move_of_renameEntry {dir dir' : Path} {name name' : String}
    (hstep : renameEntry s dir name dir' name' = some (after, out)) :
    Move fnmatchcase s (.rename dir name dir' name') after out := by
  unfold renameEntry at hstep
  simp only at hstep
  split at hstep
  · split at hstep
    · rename_i h
      obtain ⟨rfl, rfl⟩ := Prod.ext_iff.mp (Option.some.inj hstep).symm
      exact .rename ‹_› ‹_› ‹_› h.1 h.2
    · cases hstep
  · cases hstep

theorem move_of_release {ino : ℕ} (hstep : release s ino = some after) :
    Move fnmatchcase s (.release ino) after [] := by
  obtain ⟨event, hfind, rfl⟩ := Option.map_eq_some_iff.mp hstep
  exact .release (by simpa using List.find?_some hfind)
    (List.mem_of_find?_eq_some hfind)

theorem move_of_work (hstep : work fnmatchcase s = some after) :
    Move fnmatchcase s .work after [] := by
  unfold work at hstep
  split at hstep
  · split at hstep <;> cases hstep
    · exact .skip ‹_› ‹_›
    · exact .check ‹_› (Bool.eq_false_iff.mpr ‹_›)
  · split at hstep <;> cases hstep
    · exact .vanished ‹_› ‹_›
    · exact .addWatch ‹_› ‹_›
  · cases hstep
    exact .record ‹_›
  · split at hstep <;> cases hstep
    exact .unlisted ‹_› (Bool.eq_false_iff.mpr ‹_›)
  · cases hstep
    exact .listed ‹_›
  · split at hstep <;> cases hstep
    · exact .fileIgnored ‹_› ‹_›
    · exact .file ‹_› (Bool.eq_false_iff.mpr ‹_›)
  · cases hstep

theorem move_of_fail (hstep : fail s = some after) :
    Move fnmatchcase s .fail after [] := by
  unfold fail at hstep
  split at hstep <;> cases hstep
  · exact .fail (.inl ‹_›)
  · exact .fail (.inr ‹_›)

theorem move_of_scan {entries : List (String × Bool)}
    (hstep : scan s entries = some after) :
    Move fnmatchcase s (.scan entries) after [] := by
  unfold scan at hstep
  split at hstep
  · split at hstep <;> cases hstep
    rename_i h
    exact .scan ‹_› h.1 h.2.1 h.2.2
  · cases hstep

theorem move_of_found {name : String} (hstep : found s name = some after) :
    Move fnmatchcase s (.found name) after [] := by
  unfold found at hstep
  split at hstep
  · obtain ⟨entry, hentry, rfl⟩ := Option.map_eq_some_iff.mp hstep
    exact .found ‹_› hentry
  · cases hstep

theorem move_of_take (hentered : s.entered) (hcalls : s.calls = [])
    (hsynthetic : s.synthetic = []) (hstep : take s = some (after, out)) :
    Move fnmatchcase s .take after out := by
  unfold take at hstep
  split at hstep
  · cases hstep
  · rename_i event rest hqueue
    simp only at hstep
    split at hstep
    · cases hstep
      exact .takeLost hentered hcalls hsynthetic hqueue ‹_›
    · rename_i watchDir hwatch
      unfold handle at hstep
      simp only at hstep
      split at hstep
      · cases hstep
        exact .takeDrop hentered hcalls hsynthetic hqueue hwatch ‹_›
      · have hdrops := Bool.eq_false_iff.mpr ‹_›
        split at hstep
        · rename_i hdir
          split at hstep <;>
            obtain ⟨rfl, rfl⟩ := Prod.ext_iff.mp (Option.some.inj hstep).symm
          · exact .takeDir hentered hcalls hsynthetic hqueue hwatch ‹_› hdir
              ‹_›
          · rename_i hother
            refine .takeSilent hentered hcalls hsynthetic hqueue hwatch hdrops
              (fun _ hmask => ?_) (fun hfile => by simp [hdir] at hfile)
            exact Option.eq_none_iff_forall_ne_some.mpr fun wc hconfig =>
              hother wc hmask hconfig
        · have hfile := Bool.eq_false_iff.mpr ‹_›
          split at hstep <;>
            obtain ⟨rfl, rfl⟩ := Prod.ext_iff.mp (Option.some.inj hstep).symm
          · exact .takeFile hentered hcalls hsynthetic hqueue hwatch hfile ‹_›
              ‹_›
          · rename_i hother
            refine .takeSilent hentered hcalls hsynthetic hqueue hwatch hdrops
              (fun hdir => by simp [hfile] at hdir) (fun _ hmask => ?_)
            obtain ⟨maskName, hname⟩ := Option.isSome_iff_exists.mp hmask
            exact Option.eq_none_iff_forall_ne_some.mpr fun watchRoot hroot =>
              hother watchRoot maskName hroot hname

theorem move_of_step (hstep : step fnmatchcase s action = some (after, out)) :
    Move fnmatchcase s action after out := by
  cases action with
  | mkdir dir name => exact move_of_insertEntry (.inl ⟨rfl, rfl⟩) hstep
  | create dir name => exact move_of_insertEntry (.inr ⟨rfl, rfl⟩) hstep
  | rmdir dir name => exact move_of_removeEntry (.inl rfl) hstep
  | unlink dir name => exact move_of_removeEntry (.inr rfl) hstep
  | close dir name => exact move_of_closeFile hstep
  | rename dir name dir' name' => exact move_of_renameEntry hstep
  | release ino =>
      obtain ⟨found, hfound, heq⟩ := Option.map_eq_some_iff.mp hstep
      cases heq
      exact move_of_release hfound
  | work =>
      obtain ⟨found, hfound, heq⟩ := Option.map_eq_some_iff.mp hstep
      cases heq
      exact move_of_work hfound
  | fail =>
      obtain ⟨found, hfound, heq⟩ := Option.map_eq_some_iff.mp hstep
      cases heq
      exact move_of_fail hfound
  | scan entries =>
      obtain ⟨found, hfound, heq⟩ := Option.map_eq_some_iff.mp hstep
      cases heq
      exact move_of_scan hfound
  | found name =>
      obtain ⟨found, hfound, heq⟩ := Option.map_eq_some_iff.mp hstep
      cases heq
      exact move_of_found hfound
  | enter =>
      simp only [step] at hstep
      split at hstep <;> cases hstep
      rename_i h
      exact .enter h.1
  | take =>
      simp only [step] at hstep
      split at hstep
      · rename_i h
        exact move_of_take h.1 h.2.1 h.2.2 hstep
      · cases hstep
  | emit =>
      simp only [step] at hstep
      split at hstep
      · rename_i h
        split at hstep <;> cases hstep
        exact .emit h.1 h.2 ‹_›
      · cases hstep

end Step

end MirrorMirage.Watcher
