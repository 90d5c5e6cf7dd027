import MirrorMirage.Core.Since
import MirrorMirage.Watcher.Tracking

/-!
# Files that come with a directory

A directory that is renamed into one that is not watched yet is found by the
scan of that one, and the files in it are reported.  `Awaited` says where a
watcher has such a file still before it: the directory of the file is not
watched yet, an open call will come to the file, or an event for it is among
the synthetic ones.
-/

namespace MirrorMirage.Watcher

open Function (update)
open MirrorMirage.FileTree MirrorMirage.Run MirrorMirage.Trace

/-! ## What is awaited -/

/-- The call was made in `__aenter__`. -/
def Call.isStartup : Call → Bool
  | .enter .addRecursive _ _ | .addWatch .addRecursive _ _
  | .record .addRecursive _ _ | .scandir .addRecursive _ _
  | .scanning .addRecursive _ _ _ => true
  | _ => false

/-- The call will come to the file. -/
def Call.WillReport (wc : WatchConfig) (dir : Path) (name : String) :
    Call → Prop
  | .record .addDirAndScan target wc' | .scandir .addDirAndScan target wc' =>
      target = dir ∧ wc' = wc
  | .scanning .addDirAndScan target wc' entries =>
      target = dir ∧ wc' = wc ∧ (name, false) ∈ entries
  | .file path wc' => path = dir ++ [name] ∧ wc' = wc
  | _ => False

inductive Awaited (wc : WatchConfig) (dir : Path) (name : String)
    (s : State) : Prop where
  | unwatched (h : ∀ ino, s.fs.node dir = some ⟨ino, true⟩ →
      s.watch ino = none)
  | call (call : Call) (hmem : call ∈ s.calls)
      (h : call.WillReport wc dir name)
  | synthetic (h : ("IN_MOVED_TO", dir ++ [name], wc.path) ∈ s.synthetic)

/-- The file has been reported, or it is no longer there. -/
def EndsArrival (wc : WatchConfig) (path : Path) (event : Obs) : Prop :=
  event = .emitted "IN_MOVED_TO" path wc.path ∨ event = .removed path ∨
    ∃ above, above <+: path ∧ event = .movedAway above

section Awaited

variable {wc : WatchConfig} {dir : Path} {name : String} {s after : State}

theorem Awaited.change (h : Awaited wc dir name s) {fs : FsTree String}
    {events last : List Event} (hdir : fs.node dir = s.fs.node dir) :
    Awaited wc dir name (s.change fs events last) := by
  cases h with
  | unwatched h => exact .unwatched fun ino hnode => h ino (hdir ▸ hnode)
  | call call hmem h => exact .call call hmem h
  | synthetic h => exact .synthetic h

/-- Neither the dictionaries nor the queue matter. -/
theorem Awaited.of_eq (h : Awaited wc dir name s) (hfs : after.fs = s.fs)
    (hwatch : after.watch = s.watch) (hcalls : after.calls = s.calls)
    (hsynthetic : after.synthetic = s.synthetic) :
    Awaited wc dir name after := by
  cases h with
  | unwatched h =>
      exact .unwatched fun ino hnode => by rw [hwatch, h ino (hfs ▸ hnode)]
  | call call hmem h => exact .call call (hcalls ▸ hmem) h
  | synthetic h => exact .synthetic (hsynthetic ▸ h)

theorem Awaited.replace (h : Awaited wc dir name s) {call : Call}
    {rest : List Call} (hcalls : s.calls = call :: rest) (more : List Call)
    (hmore : call.WillReport wc dir name →
      ∃ next ∈ more, next.WillReport wc dir name) :
    Awaited wc dir name { s with calls := more ++ rest } := by
  cases h with
  | unwatched h => exact .unwatched h
  | call found hmem h =>
      rw [hcalls] at hmem
      rcases List.mem_cons.mp hmem with rfl | hmem
      · obtain ⟨next, hnext, hreports⟩ := hmore h
        exact .call next (List.mem_append_left _ hnext) hreports
      · exact .call found (List.mem_append_right _ hmem) h
  | synthetic h => exact .synthetic h

/-- While events are read, only what is not watched is awaited. -/
theorem Awaited.read (h : Awaited wc dir name s) (hcalls : s.calls = [])
    (hsynthetic : s.synthetic = []) {event : Event} (hfs : after.fs = s.fs)
    (hwatch : after.watch =
      if event.mask = .ignored then update s.watch event.ino none
      else s.watch) :
    Awaited wc dir name after := by
  cases h with
  | unwatched h =>
      refine .unwatched fun ino hnode => ?_
      have hnone := h ino (hfs ▸ hnode)
      rw [hwatch]
      split
      · by_cases heq : ino = event.ino
        · simp [heq]
        · rw [Function.update_of_ne heq, hnone]
      · exact hnone
  | call found hmem _ => simp [hcalls] at hmem
  | synthetic h => simp [hsynthetic] at h

end Awaited

section Step

variable {fnmatchcase : String → String → Bool} {watches : List WatchConfig}
variable {s after : State} {action : Action} {out : List Obs}
variable {wc : WatchConfig} {dir : Path} {name : String}

/-- After `__aenter__` no call is left of it. -/
def State.Started (s : State) : Prop :=
  s.entered → ∀ call ∈ s.calls, call.isStartup = false

theorem State.Started.replace (h : s.Started) {call : Call} {rest : List Call}
    (hcalls : s.calls = call :: rest) (more : List Call)
    (hmore : call.isStartup = false → ∀ next ∈ more, next.isStartup = false)
    (hafter : after.calls = more ++ rest) (hentered : after.entered = s.entered) :
    after.Started := by
  intro hstarted next hnext
  have hall := h (hentered ▸ hstarted)
  rw [hafter] at hnext
  rcases List.mem_append.mp hnext with hnext | hnext
  · exact hmore (hall call (by simp [hcalls])) next hnext
  · exact hall next (by simp [hcalls, hnext])

theorem isStartup_of_visitEntry {method : Method} {entries : List (String × Bool)}
    {call : Call} (hmem : call ∈ entries.flatMap (visitEntry method dir wc))
    (hmethod : method = .addDirAndScan) : call.isStartup = false := by
  obtain ⟨⟨found, isDir⟩, -, hmem⟩ := List.mem_flatMap.mp hmem
  subst hmethod
  cases isDir <;> simp [visitEntry] at hmem <;> subst hmem <;> rfl

theorem started_move (h : s.Started)
    (hmove : Move fnmatchcase s action after out) : after.Started := by
  cases hmove with
  | skip hcalls | vanished hcalls | unlisted hcalls | fileIgnored hcalls
  | file hcalls => exact h.replace hcalls [] (by simp) rfl rfl
  | fail hcalls =>
      rcases hcalls with hcalls | hcalls <;>
        exact h.replace hcalls [] (by simp) rfl rfl
  | @check method dir wc _ hcalls =>
      refine h.replace hcalls [.addWatch method dir wc] ?_ rfl rfl
      cases method <;> simp [Call.isStartup]
  | @addWatch method dir wc _ _ hcalls =>
      refine h.replace hcalls [.record method dir wc] ?_ rfl rfl
      cases method <;> simp [Call.isStartup]
  | @record method dir wc _ hcalls =>
      refine h.replace hcalls [.scandir method dir wc] ?_ rfl rfl
      cases method <;> simp [Call.isStartup]
  | @scan method dir wc _ entries hcalls =>
      refine h.replace hcalls [.scanning method dir wc entries] ?_ rfl rfl
      cases method <;> simp [Call.isStartup]
  | @found method dir wc _ entries name entry hcalls =>
      refine h.replace hcalls
        [.scanning method dir wc (entries ++ [(name, entry.isDir)])] ?_ rfl rfl
      cases method <;> simp [Call.isStartup]
  | @listed method dir wc _ entries hcalls =>
      refine h.replace hcalls _ (fun hcall next hnext => ?_) rfl rfl
      cases method with
      | addRecursive => cases hcall
      | addDirAndScan => exact isStartup_of_visitEntry hnext rfl
  | enter hcalls => intro _ call hcall; simp [hcalls] at hcall
  | takeDir =>
      intro _ call hcall
      rw [List.mem_singleton.mp hcall]
      rfl
  | _ => exact h

theorem started_of_reaches {allowed : State → Action → Prop}
    {fs : FsTree String} {trace : List Obs}
    (hrun : Reaches (step fnmatchcase) allowed (start fs watches) trace s) :
    s.Started :=
  hrun.invariant (fun _ s => s.Started) (fun hentered => nomatch hentered)
    fun h _ hstep => started_move h (move_of_step hstep)

theorem entered_of_move (hmove : Move fnmatchcase s action after out)
    (h : s.entered ∨ .entered ∈ out) : after.entered := by
  cases hmove with
  | @rename _ _ _ _ _ entry =>
      cases hkind : entry.isDir <;> simpa [hkind] using h
  | enter => rfl
  | _ => simpa [State.read, State.released] using h

/-- A file that is neither removed nor moved stays, and its directory does. -/
theorem stays_of_move (hmove : Move fnmatchcase s action after out) {ino : ℕ}
    (hfile : s.fs.node (dir ++ [name]) = some ⟨ino, false⟩)
    (hkept : ∀ event ∈ out, ¬ EndsArrival wc (dir ++ [name]) event) :
    after.fs.node dir = s.fs.node dir ∧
      ∃ ino, after.fs.node (dir ++ [name]) = some ⟨ino, false⟩ := by
  cases hmove with
  | @insert _ target entry isDir _ _ _ hcan =>
      obtain ⟨parent, hparent⟩ := s.fs.parent (hfile ▸ Option.some_ne_none _)
      exact ⟨(s.fs.insert_node_of_eq_some hcan hparent).trans hparent.symm, ino,
        s.fs.insert_node_of_eq_some hcan hfile⟩
  | @remove _ target entry _ _ _ _ _ _ hleaf =>
      have hne : dir ++ [name] ≠ target ++ [entry] := by
        intro heq
        exact hkept _ (List.mem_singleton_self _) (.inr (.inl (by rw [heq])))
      have hne' : dir ≠ target ++ [entry] := by
        rintro rfl
        rw [s.fs.node_eq_none_of_isLeaf hleaf] at hfile
        cases hfile
      exact ⟨Function.update_of_ne hne' .., ino,
        (Function.update_of_ne hne ..).trans hfile⟩
  | @rename target target' entry entry' _ moved _ _ hentry _ hcan hkind =>
      have hsrc : ¬ target ++ [entry] <+: dir ++ [name] := fun habove =>
        hkept _ List.mem_cons_self (.inr (.inr ⟨_, habove, rfl⟩))
      have hdir : ¬ target' ++ [entry'] <+: dir := by
        rintro ⟨rel, rfl⟩
        have hnone := s.fs.node_eq_none_below hcan.2.2.1
          (List.append_ne_nil_of_right_ne_nil rel (List.cons_ne_nil name []))
        rw [← List.append_assoc, hfile] at hnone
        cases hnone
      refine ⟨FsTree.movedNode_other (fun habove =>
        hsrc (habove.trans (List.prefix_append _ _))) hdir, ?_⟩
      by_cases hdst : dir ++ [name] = target' ++ [entry']
      · -- another file takes its place
        have hmoved : s.fs.movedNode (target ++ [entry]) (target' ++ [entry'])
            (target' ++ [entry'] ++ []) = s.fs.node (target ++ [entry] ++ []) :=
          FsTree.movedNode_append []
        rw [List.append_nil, List.append_nil, hentry] at hmoved
        rw [← hdst, hfile] at hkind
        obtain ⟨ino', kind⟩ := moved
        obtain rfl : false = kind := by simpa using hkind
        refine ⟨ino', ?_⟩
        change s.fs.movedNode _ (target' ++ [entry']) (dir ++ [name]) = _
        rw [hdst, hmoved]
      · refine ⟨ino, (FsTree.movedNode_other hsrc fun hbelow => ?_).trans hfile⟩
        rcases List.prefix_concat_iff.mp hbelow with heq | hbelow
        · exact hdst heq.symm
        · exact hdir hbelow
  | _ => exact ⟨rfl, ino, hfile⟩

section Kept

variable (htracked : Tracked fnmatchcase watches s)
variable (hunnested : Unnested watches)
variable (hwc : wc ∈ watches) (hcovers : covers fnmatchcase wc dir)
variable (h : Awaited wc dir name s)
include htracked hunnested hwc hcovers h

theorem Awaited.addWatch (hstarted : s.Started) (hentered : s.entered)
    {method : Method} {target : Path} {wc' : WatchConfig} {rest : List Call}
    {entry : Node} (hcalls : s.calls = .addWatch method target wc' :: rest)
    (hnode : s.fs.node target = some entry) :
    Awaited wc dir name { s with
      watch := update s.watch entry.ino (some target)
      calls := .record method target wc' :: rest } := by
  have hmem : Call.addWatch method target wc' ∈ s.calls := by simp [hcalls]
  cases h with
  | unwatched h =>
      by_cases heq : target = dir
      · -- the directory will be scanned next
        subst heq
        obtain ⟨hwc', hcovers'⟩ := htracked.fits _ hmem
        obtain rfl := hunnested.eq_of_covers hwc' hwc hcovers' hcovers
        have hmethod := hstarted hentered _ hmem
        cases method with
        | addRecursive => cases hmethod
        | addDirAndScan =>
            exact .call (.record .addDirAndScan target wc')
              (List.mem_cons_self ..) ⟨rfl, rfl⟩
      · refine .unwatched fun ino hdir => ?_
        refine (Function.update_of_ne ?_ ..).trans (h ino hdir)
        rintro rfl
        exact heq (s.fs.unique hnode hdir rfl)
  | call found hfound h =>
      rw [hcalls] at hfound
      rcases List.mem_cons.mp hfound with rfl | hfound
      · exact absurd h id
      · exact .call found (List.mem_cons_of_mem _ hfound) h
  | synthetic h => exact .synthetic h

/-- As long as the file stays and no event for it is emitted, it is awaited. -/
theorem awaited_move (hstarted : s.Started) (hentered : s.entered)
    (hchild : covers fnmatchcase wc (dir ++ [name]))
    (hspares : spares fnmatchcase watches s action)
    (hmove : Move fnmatchcase s action after out) {ino : ℕ}
    (hfile : s.fs.node (dir ++ [name]) = some ⟨ino, false⟩)
    (hkept : ∀ event ∈ out, ¬ EndsArrival wc (dir ++ [name]) event) :
    Awaited wc dir name after := by
  have hdir := (stays_of_move hmove hfile hkept).1
  cases hmove with
  | insert => exact h.change hdir
  | remove => exact h.change hdir
  | close => exact h.change rfl
  | rename => exact h.change hdir
  | release => exact h.of_eq rfl rfl rfl rfl
  | fail => cases hspares
  | skip hcalls _ => exact h.replace hcalls [] (absurd · id)
  | check hcalls _ => exact h.replace hcalls [_] (absurd · id)
  | vanished hcalls _ => exact h.replace hcalls [] (absurd · id)
  | addWatch hcalls hnode =>
      exact h.addWatch htracked hunnested hwc hcovers hstarted hentered hcalls
        hnode
  | @record method target wc' rest hcalls =>
      refine (h.replace hcalls [.scandir method target wc'] ?_).of_eq rfl rfl rfl
        rfl
      intro hreports
      refine ⟨_, List.mem_singleton_self _, ?_⟩
      cases method with
      | addRecursive => exact absurd hreports id
      | addDirAndScan => exact hreports
  | @unlisted method target wc' rest hcalls hnot =>
      refine h.replace hcalls [] fun hreports => ?_
      cases method with
      | addRecursive => exact absurd hreports id
      | addDirAndScan =>
          obtain ⟨parent, hparent⟩ :=
            s.fs.parent (hfile ▸ Option.some_ne_none _)
          rw [hreports.1, FsTree.isDir, hparent] at hnot
          cases hnot
  | @listed method target wc' rest entries hcalls =>
      refine h.replace hcalls _ fun hreports => ?_
      cases method with
      | addRecursive => exact absurd hreports id
      | addDirAndScan =>
          obtain ⟨rfl, rfl, hentry⟩ := hreports
          exact ⟨.file (target ++ [name]) wc', List.mem_flatMap.mpr
            ⟨_, hentry, by simp [visitEntry]⟩, rfl, rfl⟩
  | @fileIgnored path wc' rest hcalls hignored =>
      refine h.replace hcalls [] fun hreports => ?_
      obtain ⟨rfl, rfl⟩ := hreports
      rw [(covers_child_iff hcovers).mp hchild] at hignored
      cases hignored
  | @file path wc' rest hcalls _ =>
      cases h with
      | unwatched h => exact .unwatched h
      | call found hmem hreports =>
          rw [hcalls] at hmem
          rcases List.mem_cons.mp hmem with rfl | hmem
          · obtain ⟨rfl, rfl⟩ := hreports
            exact .synthetic (by simp)
          · exact .call found hmem hreports
      | synthetic h => exact .synthetic (List.mem_append_left _ h)
  | @scan method target wc' rest entries hcalls _ _ hcomplete =>
      refine h.replace hcalls [.scanning method target wc' entries]
        fun hreports => ⟨_, List.mem_singleton_self _, ?_⟩
      cases method with
      | addRecursive => exact absurd hreports id
      | addDirAndScan =>
          obtain ⟨rfl, rfl⟩ := hreports
          exact ⟨rfl, rfl, hcomplete (s.fs.mem_listing_iff.mpr ⟨ino, hfile⟩)⟩
  | @found method target wc' rest entries name' entry hcalls _ =>
      refine h.replace hcalls
        [.scanning method target wc' (entries ++ [(name', entry.isDir)])]
        fun hreports => ⟨_, List.mem_singleton_self _, ?_⟩
      cases method with
      | addRecursive => exact absurd hreports id
      | addDirAndScan =>
          exact ⟨hreports.1, hreports.2.1, List.mem_append_left _ hreports.2.2⟩
  | enter => exact h.of_eq rfl rfl rfl rfl
  | takeLost _ hcalls hsynthetic | takeDrop _ hcalls hsynthetic
  | takeDir _ hcalls hsynthetic | takeSilent _ hcalls hsynthetic
  | takeFile _ hcalls hsynthetic => exact h.read hcalls hsynthetic rfl rfl
  | @emit maskName path root rest _ _ hsynthetic =>
      cases h with
      | unwatched h => exact .unwatched h
      | call found hmem hreports => exact .call found hmem hreports
      | synthetic h =>
          rw [hsynthetic] at h
          rcases List.mem_cons.mp h with heq | h
          · cases heq
            exact absurd (.inl rfl) (hkept _ (List.mem_singleton_self _))
          · exact .synthetic h

end Kept

/-! ## Arrivals -/

/-- A file that comes with a directory is awaited. -/
theorem awaited_of_arrived (hspares : spares fnmatchcase watches s action)
    (hmove : Move fnmatchcase s action after out) (hwc : wc ∈ watches)
    {path : Path} (hcovers : covers fnmatchcase wc path)
    (harrived : .arrived path ∈ out) : ∃ dir name, path = dir ++ [name] ∧
      covers fnmatchcase wc dir ∧ after.entered ∧
      (∃ ino, after.fs.node path = some ⟨ino, false⟩) ∧
      Awaited wc dir name after := by
  cases hmove with
  | @rename src dst name name' parent entry parent' _ hentry _ hcan _ =>
      rcases List.mem_cons.mp harrived with heq | harrived
      · cases heq
      split at harrived
      · rename_i hkind
        obtain ⟨found, hfound, heq⟩ := List.mem_map.mp harrived
        obtain rfl := Obs.arrived.inj heq
        obtain ⟨below, hbelow, rfl⟩ := List.mem_map.mp hfound
        obtain ⟨⟨rel, rfl⟩, hfile⟩ :
            src ++ [name] <+: below ∧ (s.fs.node below).any (!·.isDir) := by
          simpa using (List.mem_filter.mp hbelow).2
        rw [List.drop_left] at hcovers ⊢
        obtain ⟨⟨ino, kind⟩, hnode, hnot⟩ := (Option.any_eq_true _ _).mp hfile
        obtain rfl : kind = false := by simpa using hnot
        have hcovered : Covered fnmatchcase watches (dst ++ [name'] ++ rel) :=
          ⟨wc, hwc, hcovers⟩
        have hunwatched := unwatched_of_landed hspares hcovered hnode
        have hlanded : Covered fnmatchcase watches (dst ++ [name'] ++ []) :=
          (List.append_nil (dst ++ [name'])).symm ▸
            covered_of_landed hspares hcovered hnode
        have hsrc : s.fs.node (src ++ [name] ++ []) = some ⟨entry.ino, true⟩ :=
          by rw [List.append_nil, hentry, ← hkind]
        obtain ⟨hroots, hentered, -⟩ := landed_in_unwatched hspares hlanded hsrc
        rcases List.eq_nil_or_concat rel with rfl | ⟨init, last, rfl⟩
        · rw [List.append_nil, hentry] at hnode
          rw [Option.some.inj hnode] at hkind
          cases hkind
        rw [List.concat_eq_append, ← List.append_assoc] at hcovers hnode ⊢
        refine ⟨_, last, rfl, ?_, hentered, ⟨ino, ?_⟩, .unwatched ?_⟩
        · refine (covers_of_child hcovers).resolve_left fun heq => ?_
          exact hroots wc hwc (heq ▸ (List.prefix_append _ _).trans
            (List.prefix_append _ _))
        · rw [List.append_assoc] at hnode ⊢
          exact (FsTree.movedNode_append _).trans hnode
        · intro found hfound
          have hwas := (FsTree.movedNode_append init).symm.trans hfound
          exact not_holdsWatch_iff.mp hunwatched _ _ (List.prefix_append _ _)
            hwas
      · simp at harrived
  | _ => simp at harrived

end Step

/-- As long as what has come with a directory stays, it is awaited until it is
reported. -/
theorem awaited_of_reaches {fnmatchcase : String → String → Bool}
    {watches : List WatchConfig} (hunnested : Unnested watches)
    {fs : FsTree String} {trace : List Obs} {s : State}
    (hrun : Reaches (step fnmatchcase)
      (fun s action => spares fnmatchcase watches s action)
      (start fs watches) trace s) {wc : WatchConfig} (hwc : wc ∈ watches)
    {path : Path} (hcovers : covers fnmatchcase wc path)
    (hsince : Since (· = .arrived path) (EndsArrival wc path) trace) :
    ∃ dir name, path = dir ++ [name] ∧ covers fnmatchcase wc dir ∧ s.entered ∧
      (∃ ino, s.fs.node path = some ⟨ino, false⟩) ∧ Awaited wc dir name s := by
  induction hrun with
  | refl => exact absurd hsince not_since_nil
  | snoc hrun hspares hstep ih =>
      have hmove := move_of_step hstep
      rcases since_append.mp hsince with hnew | ⟨hold, hkept⟩
      · obtain ⟨event, hmem, rfl⟩ := hnew.exists_start
        exact awaited_of_arrived hspares hmove hwc hcovers hmem
      · obtain ⟨dir, name, rfl, hparent, hentered, ⟨ino, hfile⟩, hawaited⟩ :=
          ih hold
        exact ⟨dir, name, rfl, hparent, entered_of_move hmove (.inl hentered),
          (stays_of_move hmove hfile hkept).2,
          awaited_move (tracked_of_reaches hunnested hrun) hunnested hwc hparent
            hawaited (started_of_reaches hrun) hentered hcovers hspares hmove
            hfile hkept⟩

end MirrorMirage.Watcher
