import MirrorMirage.Watcher.Directories

/-!
# The watcher's bookkeeping

Whatever other processes do to the tree, a registered directory is covered by
the watch it is registered for, and every open call and every synthetic event
is about what such a directory has in it.
-/

namespace MirrorMirage.Watcher

open Function (update)
open MirrorMirage.FileTree MirrorMirage.Run

section Invariant

variable (fnmatchcase : String → String → Bool) (watches : List WatchConfig)

/-- A call is about a covered directory; once it lists the directory and
comes to what is in it, the directory is registered for its watch. -/
def Call.Holds (dirToConfig : Path → Option WatchConfig) : Call → Prop
  | .enter method dir wc =>
      (Call.enter method dir wc).Fits fnmatchcase watches
  | .addWatch _ dir wc | .record _ dir wc =>
      wc ∈ watches ∧ covers fnmatchcase wc dir ∧ dirToConfig dir = none
  | .scandir _ dir wc | .scanning _ dir wc _ => dirToConfig dir = some wc
  | .file path wc =>
      ∃ dir name, path = dir ++ [name] ∧ dirToConfig dir = some wc

/-- A synthetic event is about an entry of a registered directory that its
watch does not ignore. -/
def Backed (dirToConfig : Path → Option WatchConfig)
    (event : String × Path × Path) : Prop :=
  ∃ dir name wc, event = ("IN_MOVED_TO", dir ++ [name], wc.path) ∧
    dirToConfig dir = some wc ∧
    isIgnored fnmatchcase (dir ++ [name]) wc.path wc.ignore = false

structure Bookkept (s : State) : Prop where
  root : ∀ path, s.dirToRoot path = (s.dirToConfig path).map (·.path)
  config : ∀ {path wc}, s.dirToConfig path = some wc →
    wc ∈ watches ∧ covers fnmatchcase wc path
  shape : ∀ call ∈ s.calls.tail, call.isWaiting
  calls : ∀ call ∈ s.calls, call.Holds fnmatchcase watches s.dirToConfig
  synthetic : ∀ event ∈ s.synthetic, Backed fnmatchcase s.dirToConfig event

end Invariant

section Steps

variable {fnmatchcase : String → String → Bool} {watches : List WatchConfig}
variable {s after : State} {out : List Obs} {action : Action}
variable {call : Call} {rest : List Call}
variable {method : Method} {dir : Path} {wc : WatchConfig}

theorem bookkept_start (fs : FsTree String) :
    Bookkept fnmatchcase watches (start fs watches) where
  root := fun _ => rfl
  config := fun h => by cases h
  shape := by
    intro call hcall
    obtain ⟨wc, -, rfl⟩ := List.mem_map.mp (List.mem_of_mem_tail hcall)
    rfl
  calls := by
    intro call hcall
    obtain ⟨wc, hwc, rfl⟩ := List.mem_map.mp hcall
    exact ⟨hwc, .inl rfl⟩
  synthetic := fun event hevent => by cases hevent

/-- What does not touch the dictionaries, the calls and the synthetic events
keeps what holds of them. -/
theorem Bookkept.of_eq (h : Bookkept fnmatchcase watches s)
    (hroot : after.dirToRoot = s.dirToRoot)
    (hconfig : after.dirToConfig = s.dirToConfig)
    (hcalls : after.calls = s.calls)
    (hsynthetic : after.synthetic ⊆ s.synthetic) :
    Bookkept fnmatchcase watches after where
  root := by rw [hroot, hconfig]; exact h.root
  config := by rw [hconfig]; exact h.config
  shape := by rw [hcalls]; exact h.shape
  calls := by rw [hcalls, hconfig]; exact h.calls
  synthetic := by
    rw [hconfig]
    exact fun event hevent => h.synthetic event (hsynthetic hevent)

/-- The innermost call gives way to others. -/
theorem Bookkept.replace (h : Bookkept fnmatchcase watches s)
    (hcalls : s.calls = call :: rest) (more : List Call)
    (hshape : ∀ next ∈ more.tail, next.isWaiting)
    (hmore : ∀ next ∈ more, next.Holds fnmatchcase watches s.dirToConfig)
    (watch : ℕ → Option Path) (synthetic : List (String × Path × Path))
    (hsynthetic : ∀ event ∈ synthetic,
      Backed fnmatchcase s.dirToConfig event) :
    Bookkept fnmatchcase watches { s with
      watch := watch, calls := more ++ rest, synthetic := synthetic } where
  root := h.root
  config := h.config
  shape := by
    have hrest : ∀ next ∈ rest, next.isWaiting :=
      fun next hnext => h.shape next (by simpa [hcalls] using hnext)
    intro next hnext
    cases more with
    | nil => exact hrest next (List.mem_of_mem_tail hnext)
    | cons first others =>
        rcases List.mem_append.mp hnext with hnext | hnext
        · exact hshape next hnext
        · exact hrest next hnext
  calls := by
    intro next hnext
    rcases List.mem_append.mp hnext with hnext | hnext
    · exact hmore next hnext
    · exact h.calls next (by simp [hcalls, hnext])
  synthetic := hsynthetic

theorem Bookkept.dirToRoot_eq_none_iff (h : Bookkept fnmatchcase watches s) :
    s.dirToRoot dir = none ↔ s.dirToConfig dir = none := by
  rw [h.root, Option.map_eq_none_iff]

theorem Bookkept.check (h : Bookkept fnmatchcase watches s)
    (hcalls : s.calls = .enter method dir wc :: rest)
    (hskips : skips fnmatchcase s dir wc method = false) :
    Bookkept fnmatchcase watches
      { s with calls := .addWatch method dir wc :: rest } := by
  have hfits : (Call.enter method dir wc).Fits fnmatchcase watches :=
    h.calls (.enter method dir wc) (by simp [hcalls])
  obtain ⟨hcovers, hroot⟩ := covers_of_not_skips hfits hskips
  apply h.replace hcalls [.addWatch method dir wc] (by simp) _ _ _ h.synthetic
  intro next hnext
  rw [List.mem_singleton.mp hnext]
  exact ⟨hfits.1, hcovers, h.dirToRoot_eq_none_iff.mp hroot⟩

/-- Recording a directory that was not registered keeps what is known of the
others. -/
theorem Bookkept.record (h : Bookkept fnmatchcase watches s)
    (hcalls : s.calls = .record method dir wc :: rest) :
    Bookkept fnmatchcase watches { s with
      dirToRoot := update s.dirToRoot dir (some wc.path)
      dirToConfig := update s.dirToConfig dir (some wc)
      calls := .scandir method dir wc :: rest } := by
  obtain ⟨hwc, hcovers, hnone⟩ : wc ∈ watches ∧ covers fnmatchcase wc dir ∧
      s.dirToConfig dir = none :=
    h.calls (.record method dir wc) (by simp [hcalls])
  have hkept : ∀ {path other}, s.dirToConfig path = some other →
      update s.dirToConfig dir (some wc) path = some other := by
    intro path other hpath
    rw [Function.update_of_ne, hpath]
    rintro rfl
    simp [hnone] at hpath
  constructor
  · intro path
    by_cases hpath : path = dir
    · simp [hpath]
    · simpa [hpath] using h.root path
  · intro path other hpath
    by_cases heq : path = dir
    · subst heq
      obtain rfl : wc = other := by simpa using hpath
      exact ⟨hwc, hcovers⟩
    · exact h.config (by simpa [heq] using hpath)
  · intro next hnext
    exact h.shape next (by simpa [hcalls] using hnext)
  · intro next hnext
    rcases List.mem_cons.mp hnext with rfl | hnext
    · exact Function.update_self ..
    · have hwaiting := h.shape next (by simpa [hcalls] using hnext)
      have hholds := h.calls next (by simp [hcalls, hnext])
      cases next with
      | enter => exact hholds
      | file path other =>
          obtain ⟨parent, name, hpath, hparent⟩ := hholds
          exact ⟨parent, name, hpath, hkept hparent⟩
      | addWatch | record | scandir | scanning => cases hwaiting
  · intro event hevent
    obtain ⟨parent, name, other, hevent, hparent, hignored⟩ :=
      h.synthetic event hevent
    exact ⟨parent, name, other, hevent, hkept hparent, hignored⟩

theorem Bookkept.listed (h : Bookkept fnmatchcase watches s)
    {entries : List (String × Bool)}
    (hcalls : s.calls = .scanning method dir wc entries :: rest) :
    Bookkept fnmatchcase watches
      { s with calls := entries.flatMap (visitEntry method dir wc) ++ rest } := by
  have hconfig : s.dirToConfig dir = some wc :=
    h.calls (.scanning method dir wc entries) (by simp [hcalls])
  obtain ⟨hwc, hcovers⟩ := h.config hconfig
  apply h.replace hcalls _ _ _ _ _ h.synthetic
  · exact fun next hnext =>
      isWaiting_of_visitEntry (List.mem_of_mem_tail hnext)
  · intro next hnext
    obtain ⟨⟨name, isDir⟩, -, hmem⟩ := List.mem_flatMap.mp hnext
    cases isDir <;> cases method <;> simp [visitEntry] at hmem <;> subst hmem
    · exact ⟨dir, name, rfl, hconfig⟩
    · exact ⟨hwc, .inr ⟨dir, name, rfl, hcovers⟩⟩
    · exact ⟨hwc, .inr ⟨dir, name, rfl, hcovers⟩⟩

theorem Bookkept.next (h : Bookkept fnmatchcase watches s)
    (hmove : Move fnmatchcase s action after out) :
    Bookkept fnmatchcase watches after := by
  cases hmove with
  | insert | remove | close | rename | release =>
      exact h.of_eq rfl rfl rfl (List.Subset.refl _)
  | skip hcalls | vanished hcalls | unlisted hcalls | fileIgnored hcalls =>
      exact h.replace hcalls [] (by simp) (by simp) s.watch s.synthetic
        h.synthetic
  | fail hcalls =>
      rcases hcalls with hcalls | hcalls <;>
        exact h.replace hcalls [] (by simp) (by simp) s.watch s.synthetic
          h.synthetic
  | check hcalls hskips => exact h.check hcalls hskips
  | @addWatch method dir wc rest entry hcalls hnode =>
      apply h.replace hcalls [.record method dir wc] (by simp) _ _ _
        h.synthetic
      intro next hnext
      rw [List.mem_singleton.mp hnext]
      exact h.calls (.addWatch method dir wc) (by simp [hcalls])
  | record hcalls => exact h.record hcalls
  | listed hcalls => exact h.listed hcalls
  | @file path wc rest hcalls hignored =>
      apply h.replace hcalls [] (by simp) (by simp) s.watch
      intro event hevent
      rcases List.mem_append.mp hevent with hevent | hevent
      · exact h.synthetic event hevent
      · obtain ⟨dir, name, rfl, hconfig⟩ : ∃ dir name,
            path = dir ++ [name] ∧ s.dirToConfig dir = some wc :=
          h.calls (.file path wc) (by simp [hcalls])
        exact ⟨dir, name, wc, List.mem_singleton.mp hevent, hconfig, hignored⟩
  | @scan method dir wc rest entries hcalls hdir hsound hcomplete =>
      apply h.replace hcalls [.scanning method dir wc entries] (by simp) _ _ _
        h.synthetic
      intro next hnext
      rw [List.mem_singleton.mp hnext]
      exact h.calls (.scandir method dir wc) (by simp [hcalls])
  | @found method dir wc rest entries name entry hcalls hentry =>
      apply h.replace hcalls
        [.scanning method dir wc (entries ++ [(name, entry.isDir)])] (by simp)
        _ _ _ h.synthetic
      intro next hnext
      rw [List.mem_singleton.mp hnext]
      exact h.calls (.scanning method dir wc entries) (by simp [hcalls])
  | enter | takeLost | takeSilent | takeFile =>
      exact h.of_eq rfl rfl rfl (List.Subset.refl _)
  | @takeDrop event rest watchDir hentered hcalls hsynthetic _ _ _ =>
      constructor
      · intro path
        by_cases hpath : path = watchDir
        · simp [hpath]
        · simpa [hpath, State.read] using h.root path
      · intro path wc hconfig
        by_cases hpath : path = watchDir
        · simp [hpath] at hconfig
        · exact h.config (by simpa [hpath] using hconfig)
      · simp [State.read, hcalls]
      · simp [State.read, hcalls]
      · simp [State.read, hsynthetic]
  | @takeDir event rest watchDir wc hentered hcalls hsynthetic _ _ _ _ hconfig =>
      constructor
      · exact h.root
      · exact h.config
      · simp
      · intro call hcall
        obtain ⟨hwc, hcovers⟩ := h.config hconfig
        rw [List.mem_singleton.mp hcall]
        exact @fits_of_covers _ _ .addDirAndScan _ _ hwc hcovers event.name
      · exact h.synthetic
  | emit hentered hcalls hsynthetic =>
      refine h.of_eq rfl rfl rfl ?_
      rw [hsynthetic]
      exact List.subset_cons_self _ _

theorem bookkept_of_reaches {fs : FsTree String} {trace : List Obs}
    {allowed : State → Action → Prop}
    (hrun : Reaches (step fnmatchcase) allowed (start fs watches) trace s) :
    Bookkept fnmatchcase watches s :=
  hrun.invariant (fun _ s => Bookkept fnmatchcase watches s)
    (bookkept_start fs) fun h _ hstep => h.next (move_of_step hstep)

end Steps

end MirrorMirage.Watcher
