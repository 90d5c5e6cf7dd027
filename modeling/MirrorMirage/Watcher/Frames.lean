import MirrorMirage.Watcher.Directories

/-!
# Watches and registrations

The kernel's watches go by inode, the dictionaries of the watcher by path.  As
long as no path stands for two watches, the events of one watch leave what is
registered for the others alone, and a directory only counts as registered if
it is itself watched.
-/

namespace MirrorMirage.Watcher

open Function (update)
open MirrorMirage.FileTree MirrorMirage.Run

/-! ## Keys -/

/-- The path is a key of the dictionaries, or becomes one when the call that
has just watched it goes on. -/
def State.keyed (s : State) (path : Path) : Bool :=
  (s.dirToRoot path).isSome || s.calls.any (·.recording = some path)

/-- Another inode is watched under the path. -/
def State.shares (s : State) (ino : ℕ) (path : Path) : Bool :=
  (List.range s.fs.nextIno).any fun other =>
    other ≠ ino && s.watch other = some path

/-- The inode is watched under another path, which is still a key. -/
def State.keyedElsewhere (s : State) (ino : ℕ) (path : Path) : Bool :=
  (s.watch ino).any fun old => old ≠ path && s.keyed old

section Keys

variable {fnmatchcase : String → String → Bool} {s after : State}
variable {action : Action} {out : List Obs} {path : Path}

theorem keyed_iff : s.keyed path ↔ (s.dirToRoot path).isSome ∨
    ∃ call ∈ s.calls, call.recording = some path := by
  simp [State.keyed]

theorem keyed_of_calls (calls : List Call)
    (hroot : after.dirToRoot = s.dirToRoot)
    (hcalls : after.calls = calls ++ s.calls.tail)
    (hnone : ∀ call ∈ calls, call.recording = none) (h : after.keyed path) :
    s.keyed path := by
  rw [keyed_iff, hroot, hcalls] at h
  refine keyed_iff.mpr (h.imp_right ?_)
  rintro ⟨call, hcall, hrecording⟩
  rcases List.mem_append.mp hcall with hcall | hcall
  · simp [hnone call hcall] at hrecording
  · exact ⟨call, List.mem_of_mem_tail hcall, hrecording⟩

/-- Only `add_watch` brings a new key. -/
theorem keyed_of_move (hmove : Move fnmatchcase s action after out)
    (h : after.keyed path) : s.keyed path ∨
      ∃ method wc rest entry, action = .work ∧
        s.calls = .addWatch method path wc :: rest ∧
        s.fs.node path = some entry ∧
        after.watch = update s.watch entry.ino (some path) := by
  cases hmove with
  | insert | remove | close | rename | release | enter | emit | takeLost
  | takeSilent | takeFile => exact .inl h
  | skip hcalls | vanished hcalls | unlisted hcalls | fileIgnored hcalls
  | file hcalls =>
      left
      apply keyed_of_calls [] _ _ _ h <;> simp [hcalls]
  | fail hcalls =>
      left
      rcases hcalls with hcalls | hcalls <;> apply keyed_of_calls [] _ _ _ h <;>
        simp [hcalls]
  | @check method dir wc rest hcalls =>
      left
      apply keyed_of_calls [.addWatch method dir wc] _ _ _ h <;>
        simp [hcalls, Call.recording]
  | @scan method dir wc rest entries hcalls =>
      left
      apply keyed_of_calls [.scanning method dir wc entries] _ _ _ h <;>
        simp [hcalls, Call.recording]
  | @found method dir wc rest entries name entry hcalls =>
      left
      apply keyed_of_calls
        [.scanning method dir wc (entries ++ [(name, entry.isDir)])] _ _ _ h <;>
        simp [hcalls, Call.recording]
  | @listed method dir wc rest entries hcalls =>
      left
      apply keyed_of_calls (entries.flatMap (visitEntry method dir wc)) _ _ _ h
      · rfl
      · simp [hcalls]
      · exact fun call hcall =>
          recording_of_waiting (isWaiting_of_visitEntry hcall)
  | @addWatch method dir wc rest entry hcalls hnode =>
      rw [keyed_iff] at h
      rcases h with hroot | ⟨call, hcall, hrecording⟩
      · exact .inl (keyed_iff.mpr (.inl hroot))
      · rcases List.mem_cons.mp hcall with rfl | hcall
        · cases hrecording
          exact .inr ⟨method, wc, rest, entry, rfl, hcalls, hnode, rfl⟩
        · exact .inl (keyed_iff.mpr
            (.inr ⟨call, by simp [hcalls, hcall], hrecording⟩))
  | @record method dir wc rest hcalls =>
      left
      rw [keyed_iff] at h ⊢
      by_cases heq : path = dir
      · exact .inr ⟨.record method dir wc, by simp [hcalls],
          by simp [Call.recording, heq]⟩
      · rcases h with hroot | ⟨call, hcall, hrecording⟩
        · exact .inl (by simpa [Function.update_of_ne heq] using hroot)
        · rcases List.mem_cons.mp hcall with rfl | hcall
          · cases hrecording
          · exact .inr ⟨call, by simp [hcalls, hcall], hrecording⟩
  | @takeDrop event rest watchDir _ hcalls =>
      left
      rw [keyed_iff] at h ⊢
      refine h.imp_left fun hroot => ?_
      by_cases heq : path = watchDir
      · simp [heq] at hroot
      · simpa [Function.update_of_ne heq] using hroot
  | takeDir _ hcalls =>
      left
      rw [keyed_iff] at h ⊢
      refine h.imp_right ?_
      rintro ⟨call, hcall, hrecording⟩
      rw [List.mem_singleton.mp hcall] at hrecording
      cases hrecording

theorem not_keyed_of_forget {event : Event} {rest : List Event}
    (hcalls : s.calls = []) : (s.forget event rest path).keyed path = false := by
  simp [State.keyed, State.forget, State.read, hcalls]

/-- A watch ends with its registration, unless `add_watch` gives its inode
another path. -/
theorem watch_of_move {ino : ℕ} (hmove : Move fnmatchcase s action after out)
    (h : s.watch ino = some path) : after.watch ino = some path ∨
      after.keyed path = false ∨
      ∃ method dir wc rest entry, action = .work ∧
        s.calls = .addWatch method dir wc :: rest ∧
        s.fs.node dir = some entry ∧ entry.ino = ino ∧
        after.watch = update s.watch entry.ino (some dir) := by
  have hread : ∀ {event : Event}, event.mask ≠ .ignored →
      (if event.mask = .ignored then update s.watch event.ino none
        else s.watch) ino = some path := by
    intro event hmask
    rwa [if_neg hmask]
  cases hmove with
  | @addWatch method dir wc rest entry hcalls hnode =>
      by_cases heq : entry.ino = ino
      · exact .inr (.inr ⟨method, dir, wc, rest, entry, rfl, hcalls, hnode, heq,
          rfl⟩)
      · exact .inl ((Function.update_of_ne (Ne.symm heq) ..).trans h)
  | @takeLost event rest _ _ _ _ hwatch =>
      have hne : ino ≠ event.ino := by
        rintro rfl
        simp [h] at hwatch
      left
      change (if event.mask = .ignored then update s.watch event.ino none
        else s.watch) ino = some path
      split
      · rwa [Function.update_of_ne hne]
      · exact h
  | @takeDrop event rest watchDir _ hcalls _ _ hwatch =>
      by_cases hlast : event.mask = .ignored ∧ ino = event.ino
      · obtain rfl : watchDir = path := by simpa [hlast.2, hwatch] using h
        exact .inr (.inl (not_keyed_of_forget hcalls))
      · left
        change (if event.mask = .ignored then update s.watch event.ino none
          else s.watch) ino = some path
        split
        · rename_i hmask
          rwa [Function.update_of_ne fun heq => hlast ⟨hmask, heq⟩]
        · exact h
  | takeDir _ _ _ _ _ hmask => exact .inl (hread (by simp [hmask]))
  | takeSilent _ _ _ _ _ hdrops =>
      exact .inl (hread fun hmask => by simp [hmask, Mask.dropsWatch] at hdrops)
  | takeFile _ _ _ _ _ _ _ hmask =>
      exact .inl (hread fun heq => by simp [heq, maskToName] at hmask)
  | _ => exact .inl h

/-- Only `add_watch` brings a new watch. -/
theorem watch_before_of_move {ino : ℕ}
    (hmove : Move fnmatchcase s action after out)
    (h : after.watch ino = some path) : s.watch ino = some path ∨
      ∃ method wc rest entry, action = .work ∧
        s.calls = .addWatch method path wc :: rest ∧
        s.fs.node path = some entry ∧ entry.ino = ino := by
  have hread : ∀ {event : Event},
      (if event.mask = .ignored then update s.watch event.ino none
        else s.watch) ino = some path → s.watch ino = some path := by
    intro event hafter
    split at hafter
    · by_cases heq : ino = event.ino
      · simp [heq] at hafter
      · rwa [Function.update_of_ne heq] at hafter
    · exact hafter
  cases hmove with
  | @addWatch method dir wc rest entry hcalls hnode =>
      by_cases heq : ino = entry.ino
      · obtain rfl : dir = path := by simpa [heq] using h
        exact .inr ⟨method, wc, rest, entry, rfl, hcalls, hnode, heq.symm⟩
      · exact .inl ((Function.update_of_ne heq ..).symm.trans h)
  | takeLost | takeDrop | takeDir | takeSilent | takeFile =>
      exact .inl (hread h)
  | _ => exact .inl h

end Keys

/-! ## One watch for a path -/

/-- No path stands for two watches, and every key for one. -/
structure Separate (s : State) : Prop where
  bound : ∀ {ino path}, s.watch ino = some path → ino < s.fs.nextIno
  alone : ∀ {ino ino' path}, s.watch ino = some path →
    s.watch ino' = some path → ino = ino'
  watched : ∀ {path}, s.keyed path → ∃ ino, s.watch ino = some path

section Crossing

variable (fnmatchcase : String → String → Bool)

/-- The watcher comes to a directory, in `_add_dir_and_scan` or at an
`add_watch`, while another watch has its path or while it is still registered
under another path. -/
def crosses (s : State) : Action → Bool
  | .work =>
      match s.calls with
      | .enter .addDirAndScan dir wc :: _ =>
          !isIgnored fnmatchcase dir wc.path wc.ignore &&
            (s.fs.node dir).any fun entry =>
              entry.isDir && s.shares entry.ino dir
      | .addWatch _ dir _ :: _ =>
          (s.fs.node dir).any fun entry =>
            s.shares entry.ino dir || s.keyedElsewhere entry.ino dir
      | _ => false
  | _ => false

variable {fnmatchcase} {s after : State} {action : Action} {out : List Obs}

theorem Separate.not_shares (h : Separate s) {ino other : ℕ} {path : Path}
    (hshares : s.shares ino path = false)
    (hwatch : s.watch other = some path) : other = ino := by
  by_contra hne
  rw [State.shares, List.any_eq_false] at hshares
  have hnot := hshares other (List.mem_range.mpr (h.bound hwatch))
  simp [hne, hwatch] at hnot

theorem addWatch_of_not_crosses {method : Method} {dir : Path}
    {wc : WatchConfig} {rest : List Call} {entry : Node}
    (hcrosses : crosses fnmatchcase s .work = false)
    (hcalls : s.calls = .addWatch method dir wc :: rest)
    (hnode : s.fs.node dir = some entry) :
    s.shares entry.ino dir = false ∧ s.keyedElsewhere entry.ino dir = false := by
  simpa [crosses, hcalls, hnode] using hcrosses

theorem separate_start (fs : FsTree String) (watches : List WatchConfig) :
    Separate (start fs watches) where
  bound := fun h => by cases h
  alone := fun h => by cases h
  watched := by
    intro path h
    rw [keyed_iff] at h
    rcases h with hroot | ⟨call, hcall, hrecording⟩
    · cases hroot
    · obtain ⟨wc, -, rfl⟩ := List.mem_map.mp hcall
      cases hrecording

theorem Separate.of_move (h : Separate s)
    (hcrosses : crosses fnmatchcase s action = false)
    (hmove : Move fnmatchcase s action after out) : Separate after where
  bound := by
    intro ino path hwatch
    apply lt_of_lt_of_le _ hmove.nextIno_le
    rcases watch_before_of_move hmove hwatch with hwas | ⟨_, _, _, entry, -, -,
      hnode, rfl⟩
    · exact h.bound hwas
    · exact s.fs.fresh hnode
  alone := by
    intro ino ino' path hwatch hwatch'
    rcases watch_before_of_move hmove hwatch with hwas | ⟨_, _, _, entry, rfl,
      hcalls, hnode, rfl⟩
    · rcases watch_before_of_move hmove hwatch' with hwas' | ⟨_, _, _, entry,
        rfl, hcalls, hnode, rfl⟩
      · exact h.alone hwas hwas'
      · exact h.not_shares (addWatch_of_not_crosses hcrosses hcalls hnode).1 hwas
    · rcases watch_before_of_move hmove hwatch' with hwas' | ⟨_, _, _, entry', -,
        -, hnode', rfl⟩
      · exact (h.not_shares (addWatch_of_not_crosses hcrosses hcalls hnode).1
          hwas').symm
      · rw [Option.some.inj (hnode.symm.trans hnode')]
  watched := by
    intro path hkeyed
    rcases keyed_of_move hmove hkeyed with hwas | ⟨_, _, _, entry, -, -, -, hwatch⟩
    · obtain ⟨ino, hwatch⟩ := h.watched hwas
      rcases watch_of_move hmove hwatch with hafter | hlost | ⟨_, dir, _, _,
        entry, rfl, hcalls, hnode, rfl, hwatch'⟩
      · exact ⟨ino, hafter⟩
      · simp [hlost] at hkeyed
      · have helsewhere := (addWatch_of_not_crosses hcrosses hcalls hnode).2
        obtain rfl : path = dir := by
          by_contra hne
          simp [State.keyedElsewhere, hwatch, hne, hwas] at helsewhere
        exact ⟨entry.ino, by simp [hwatch']⟩
    · exact ⟨entry.ino, by simp [hwatch]⟩

variable {fs : FsTree String} {watches : List WatchConfig} {trace : List Obs}

theorem separate_of_reaches (hrun : Reaches (step fnmatchcase)
      (fun s action => crosses fnmatchcase s action = false)
      (start fs watches) trace s) : Separate s :=
  hrun.invariant (fun _ s => Separate s) (separate_start fs watches)
    fun h hcrosses hstep => h.of_move hcrosses (move_of_step hstep)

end Crossing

section Samples

end Samples

end MirrorMirage.Watcher
