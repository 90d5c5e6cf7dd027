import MirrorMirage.Watcher.Coverage

/-!
# The tree, the watches and the dictionaries

`Tracked` says how the kernel's watches, the events in the queue, the
dictionaries and the open calls of the watcher belong together.  A directory
that goes leaves its watch and its registration behind until its last events
have been read, and the kernel may take its time with them.  What is watched
under a path need not be there any more, and a path may have several watches.
-/

namespace MirrorMirage.Watcher

open MirrorMirage.FileTree

/-! ## Open calls -/

/-- The call has not begun its work. -/
def Call.isWaiting : Call → Bool
  | .enter .. | .file .. => true
  | _ => false

def Call.recording : Call → Option Path
  | .record _ dir _ => some dir
  | _ => none

/-- The call will come to the entry of the directory. -/
def Call.Meets (dir path : Path) : Call → Prop
  | .enter _ target _ | .addWatch _ target _ => target = path
  | .record _ target _ | .scandir _ target _ => target = dir
  | .scanning _ target _ entries =>
      ∃ name, (name, true) ∈ entries ∧ target ++ [name] = path
  | .file .. => False

instance (dir path : Path) : (call : Call) → Decidable (call.Meets dir path)
  | .enter _ target _ | .addWatch _ target _ =>
      inferInstanceAs (Decidable (target = path))
  | .record _ target _ | .scandir _ target _ =>
      inferInstanceAs (Decidable (target = dir))
  | .scanning _ target _ entries =>
      decidable_of_iff
        (∃ entry ∈ entries, entry.2 = true ∧ target ++ [entry.1] = path)
        (by simp [Call.Meets])
  | .file .. => inferInstanceAs (Decidable False)

/-! ## Inodes and paths -/

section States

variable (s : State)

def State.Alive (ino : ℕ) (path : Path) : Prop :=
  ∃ isDir, s.fs.node path = some ⟨ino, isDir⟩

def State.Gone (ino : ℕ) : Prop := ∀ path, ¬ s.Alive ino path

/-- What is at the path is watched under it. -/
def State.Live (path : Path) : Prop :=
  ∃ ino, s.watch ino = some path ∧ s.Alive ino path

/-- The directory whose watch has been added and not registered yet. -/
def State.recording : Option Path := s.calls.head?.bind Call.recording

/-- A directory that the watcher knows, or will know after its next step. -/
def State.Claimed (path : Path) : Prop :=
  (s.dirToRoot path).isSome ∨ s.recording = some path

/-- Some open call will come to the entry of the directory. -/
def State.Visited (dir path : Path) : Prop :=
  ∃ call ∈ s.calls, call.Meets dir path

instance (dir path : Path) : Decidable (s.Visited dir path) :=
  inferInstanceAs (Decidable (∃ call ∈ s.calls, call.Meets dir path))

end States

section Invariant

variable (fnmatchcase : String → String → Bool) (watches : List WatchConfig)

def Covered (path : Path) : Prop :=
  ∃ wc ∈ watches, covers fnmatchcase wc path

/-- A call is about a covered directory, or about an entry of one. -/
def Call.Fits : Call → Prop
  | .enter _ dir wc =>
      wc ∈ watches ∧ (dir = wc.path ∨ ∃ parent name,
        dir = parent ++ [name] ∧ covers fnmatchcase wc parent)
  | .addWatch _ dir wc | .record _ dir wc | .scandir _ dir wc
  | .scanning _ dir wc _ => wc ∈ watches ∧ covers fnmatchcase wc dir
  | .file path wc =>
      wc ∈ watches ∧ ∃ parent name,
        path = parent ++ [name] ∧ covers fnmatchcase wc parent

/-- The inode that reports its end or its move has left the covered part of
the tree. -/
structure State.Left (s : State) (event : Event) : Prop where
  bound : event.ino < s.fs.nextIno
  away : ∀ {path}, Covered fnmatchcase watches path →
    ¬ s.Alive event.ino path
  ended : event.mask = .ignored ∨ s.watch event.ino = none → s.Gone event.ino

structure Tracked (s : State) : Prop where
  watched : ∀ {ino path}, s.watch ino = some path →
    Covered fnmatchcase watches path ∧ ino < s.fs.nextIno ∧
      ∀ {other}, Covered fnmatchcase watches other → s.Alive ino other →
        other = path
  left : ∀ {event}, event ∈ s.queue ∨ event ∈ s.late →
    event.mask.dropsWatch → s.Left fnmatchcase watches event
  config : ∀ {path wc}, s.dirToConfig path = some wc →
    wc ∈ watches ∧ covers fnmatchcase wc path
  root : ∀ path, s.dirToRoot path = (s.dirToConfig path).map (·.path)
  shape : ∀ call ∈ s.calls.tail, call.isWaiting
  fits : ∀ call ∈ s.calls, call.Fits fnmatchcase watches
  checked : ∀ {method dir wc rest},
    s.calls = .addWatch method dir wc :: rest → s.dirToRoot dir = none
  claimed : ∀ {path}, s.Live path → s.Claimed path
  pending : ∀ {dir name ino ino'}, Covered fnmatchcase watches dir →
    Covered fnmatchcase watches (dir ++ [name]) →
    s.fs.node dir = some ⟨ino, true⟩ → s.watch ino = some dir →
    s.fs.node (dir ++ [name]) = some ⟨ino', true⟩ → s.watch ino' = none →
      s.Visited dir (dir ++ [name]) ∨ ⟨ino, .create, true, some name⟩ ∈ s.queue
  start : ∀ {wc ino}, wc ∈ watches → s.fs.node wc.path = some ⟨ino, true⟩ →
    s.watch ino = none → ∃ call ∈ s.calls,
      call = .enter .addRecursive wc.path wc ∨
        call = .addWatch .addRecursive wc.path wc

end Invariant

section Basics

variable {fnmatchcase : String → String → Bool} {watches : List WatchConfig}
variable {s : State} {ino : ℕ} {path path' : Path}

theorem State.Alive.path_eq (h : s.Alive ino path) (h' : s.Alive ino path') :
    path = path' := by
  obtain ⟨isDir, hnode⟩ := h
  obtain ⟨isDir', hnode'⟩ := h'
  exact s.fs.unique hnode hnode' rfl

/-- It is about the tree and the watches only. -/
theorem State.Left.of_eq {after : State} {event : Event}
    (h : s.Left fnmatchcase watches event) (hfs : after.fs = s.fs)
    (hwatch : after.watch = s.watch) :
    after.Left fnmatchcase watches event where
  bound := hfs ▸ h.bound
  away := fun hcovered ⟨isDir, hnode⟩ => h.away hcovered ⟨isDir, hfs ▸ hnode⟩
  ended := fun hend path ⟨isDir, hnode⟩ =>
    h.ended (hwatch ▸ hend) path ⟨isDir, hfs ▸ hnode⟩

theorem Move.nextIno_le {after : State} {action : Action} {out : List Obs}
    (hmove : Move fnmatchcase s action after out) :
    s.fs.nextIno ≤ after.fs.nextIno := by
  cases hmove with
  | insert => exact Nat.le_succ _
  | _ => exact le_rfl

/-- No inode comes back. -/
theorem State.Gone.next {after : State} {action : Action} {out : List Obs}
    (h : s.Gone ino) (hlt : ino < s.fs.nextIno)
    (hmove : Move fnmatchcase s action after out) : after.Gone ino := by
  cases hmove with
  | @insert _ dir name isDir _ _ _ hcan =>
      rintro path ⟨kind, hnode⟩
      change (s.fs.insert dir name isDir hcan).node path = _ at hnode
      by_cases heq : path = dir ++ [name]
      · have hnew : some (⟨s.fs.nextIno, isDir⟩ : Node) = some ⟨ino, kind⟩ := by
          simpa [FsTree.insert, heq] using hnode
        cases hnew
        exact hlt.false
      · exact h path ⟨kind, (Function.update_of_ne heq ..).symm.trans hnode⟩
  | @remove _ dir name _ _ _ _ _ _ hleaf =>
      rintro path ⟨kind, hnode⟩
      change (s.fs.erase (dir ++ [name]) hleaf).node path = _ at hnode
      by_cases heq : path = dir ++ [name]
      · simp [FsTree.erase, heq] at hnode
      · exact h path ⟨kind, (Function.update_of_ne heq ..).symm.trans hnode⟩
  | rename =>
      rintro path ⟨kind, hnode⟩
      rcases FsTree.movedNode_eq_some hnode with ⟨rel, -, hwas⟩ | ⟨-, -, hwas⟩
      · exact h _ ⟨kind, hwas⟩
      · exact h _ ⟨kind, hwas⟩
  | _ => exact h

theorem tracked_start (fs : FsTree String) :
    Tracked fnmatchcase watches (start fs watches) where
  watched := nofun
  left := by
    rintro event (hevent | hevent) <;> cases hevent
  config := nofun
  root := fun _ => rfl
  shape := by
    intro call hcall
    obtain ⟨wc, -, rfl⟩ := List.mem_map.mp (List.mem_of_mem_tail hcall)
    rfl
  fits := by
    intro call hcall
    obtain ⟨wc, hwc, rfl⟩ := List.mem_map.mp hcall
    exact ⟨hwc, .inl rfl⟩
  checked := fun _ => rfl
  claimed := by
    rintro path ⟨ino, hwatch, -⟩
    cases hwatch
  pending := nofun
  start := fun hwc _ _ => ⟨_, List.mem_map_of_mem hwc, .inl rfl⟩

end Basics

end MirrorMirage.Watcher
