import MirrorMirage.Watcher.Operations

/-!
# The steps of the watcher

Each step of the watcher keeps `Tracked`, and so does every run whose steps
spare the watched part of the tree.
-/

namespace MirrorMirage.Watcher

open Function (update)
open MirrorMirage.FileTree MirrorMirage.Run

variable {fnmatchcase : String → String → Bool} {watches : List WatchConfig}
variable {s after : State} {call : Call} {rest : List Call}
variable {method : Method} {dir : Path} {wc : WatchConfig}

/-! ## Calls -/

theorem recording_eq_none (h : ∀ call ∈ s.calls, call.recording = none) :
    s.recording = none := by
  unfold State.recording
  cases hcalls : s.calls with
  | nil => rfl
  | cons call rest => exact h call (by simp [hcalls])

theorem recording_of_waiting (h : call.isWaiting) : call.recording = none := by
  cases call <;> first | rfl | cases h

/-- The innermost call gives way to others, which come to what it would have
come to. -/
theorem Tracked.replace (h : Tracked fnmatchcase watches s)
    (more : List Call) (hcalls : s.calls = call :: rest)
    (hcall : call.recording = none)
    (synthetic : List (String × Path × Path))
    (htail : ∀ next ∈ more.tail, next.isWaiting)
    (hmore : ∀ next ∈ more, next.Fits fnmatchcase watches ∧
      next.recording = none ∧ ∀ method dir wc,
        next = .addWatch method dir wc → s.dirToRoot dir = none)
    (hmeets : ∀ {dir name ino ino'}, Covered fnmatchcase watches dir →
      Covered fnmatchcase watches (dir ++ [name]) →
      s.fs.node dir = some ⟨ino, true⟩ → s.watch ino = some dir →
      s.fs.node (dir ++ [name]) = some ⟨ino', true⟩ → s.watch ino' = none →
      call.Meets dir (dir ++ [name]) →
        (∃ next ∈ more, next.Meets dir (dir ++ [name])) ∨
          ⟨ino, .create, true, some name⟩ ∈ s.queue)
    (hstart : ∀ {wc ino}, wc ∈ watches →
      s.fs.node wc.path = some ⟨ino, true⟩ → s.watch ino = none →
      (call = .enter .addRecursive wc.path wc ∨
        call = .addWatch .addRecursive wc.path wc) →
      ∃ next ∈ more, next = .enter .addRecursive wc.path wc ∨
        next = .addWatch .addRecursive wc.path wc) :
    Tracked fnmatchcase watches
      { s with calls := more ++ rest, synthetic := synthetic } := by
  have hrest : ∀ next ∈ rest, next.isWaiting :=
    fun next hnext => h.shape next (by simpa [hcalls] using hnext)
  have hrecording : s.recording = none := by
    simpa [State.recording, hcalls] using hcall
  have hrecording' : State.recording
      { s with calls := more ++ rest, synthetic := synthetic } = none := by
    refine recording_eq_none fun next hnext => ?_
    rcases List.mem_append.mp hnext with hnext | hnext
    · exact (hmore next hnext).2.1
    · exact recording_of_waiting (hrest next hnext)
  have hclaimed : ∀ {path}, State.Claimed
      { s with calls := more ++ rest, synthetic := synthetic } path ↔
        s.Claimed path := by
    intro path
    simp only [State.Claimed, hrecording, hrecording']
  refine { h with
    left := fun hmem hdrops => (h.left hmem hdrops).of_eq rfl rfl
    shape := ?_
    fits := ?_
    checked := ?_
    claimed := fun hlive => hclaimed.mpr (h.claimed hlive)
    pending := ?_
    start := ?_ }
  · intro next hnext
    cases more with
    | nil => exact hrest next (List.mem_of_mem_tail hnext)
    | cons first others =>
        rcases List.mem_append.mp hnext with hnext | hnext
        · exact htail next hnext
        · exact hrest next hnext
  · intro next hnext
    rcases List.mem_append.mp hnext with hnext | hnext
    · exact (hmore next hnext).1
    · exact h.fits next (by simp [hcalls, hnext])
  · intro method dir wc others heq
    have heq' : more ++ rest = .addWatch method dir wc :: others := heq
    cases more with
    | nil =>
        rw [List.nil_append] at heq'
        have hwaiting := hrest (.addWatch method dir wc) (by simp [heq'])
        cases hwaiting
    | cons first others' =>
        obtain ⟨rfl, -⟩ := List.cons.inj heq'
        exact (hmore _ (by simp)).2.2 method dir wc rfl
  · intro dir name ino ino' hdir hchild hnode hwatch hnode' hwatch'
    rcases h.pending hdir hchild hnode hwatch hnode' hwatch' with
      ⟨found, hmem, hfound⟩ | hannounced
    · rw [hcalls] at hmem
      rcases List.mem_cons.mp hmem with rfl | hmem
      · refine (hmeets hdir hchild hnode hwatch hnode' hwatch' hfound).imp_left
          fun ⟨next, hnext, hnextMeets⟩ => ?_
        exact ⟨next, List.mem_append_left _ hnext, hnextMeets⟩
      · exact .inl ⟨found, List.mem_append_right _ hmem, hfound⟩
    · exact .inr hannounced
  · intro wc ino hwc hnode hwatch
    obtain ⟨found, hmem, hfound⟩ := h.start hwc hnode hwatch
    rw [hcalls] at hmem
    rcases List.mem_cons.mp hmem with rfl | hmem
    · obtain ⟨next, hnext, hsame⟩ := hstart hwc hnode hwatch hfound
      exact ⟨next, List.mem_append_left _ hnext, hsame⟩
    · exact ⟨found, List.mem_append_right _ hmem, hfound⟩

/-- Where the watcher is not obstructed, a directory that is registered is
watched, or will be met again. -/
theorem announces_of_registered
    (hcalls : s.calls = .enter method dir wc :: rest)
    (hclear : s.obstructed = false) {ino : ℕ}
    (hnode : s.fs.node dir = some ⟨ino, true⟩) (hwatch : s.watch ino = none)
    (hroot : (s.dirToRoot dir).isSome) : s.announces dir := by
  simpa [State.obstructed, hcalls, hnode, hwatch, hroot] using hclear

/-- What the checks of the two methods let through is covered. -/
theorem covers_of_not_skips
    (hfits : (Call.enter method dir wc).Fits fnmatchcase watches)
    (hskips : skips fnmatchcase s dir wc method = false) :
    covers fnmatchcase wc dir ∧ s.dirToRoot dir = none := by
  obtain ⟨-, hcase⟩ := hfits
  by_cases hroot : dir = wc.path
  · subst hroot
    refine ⟨covers_path, ?_⟩
    cases method <;> simp_all [skips]
  · obtain ⟨parent, name, rfl, hparent⟩ := hcase.resolve_left hroot
    rw [covers_child_iff hparent]
    cases method <;> simp_all [skips]

/-- The reasons for which the two methods skip a directory. -/
theorem skips_iff_of_child {parent : Path} {name : String}
    (hskips : skips fnmatchcase s (parent ++ [name]) wc method)
    (hdir : s.fs.isDir (parent ++ [name]))
    (hcovers : covers fnmatchcase wc parent)
    (hchild : covers fnmatchcase wc (parent ++ [name])) :
    (s.dirToRoot (parent ++ [name])).isSome := by
  have hignored := (covers_child_iff hcovers).mp hchild
  cases method <;> simp_all [skips]

theorem tracked_skip (h : Tracked fnmatchcase watches s)
    (hunnested : Unnested watches) (hclear : s.obstructed = false)
    (hcalls : s.calls = .enter method dir wc :: rest)
    (hskips : skips fnmatchcase s dir wc method) :
    Tracked fnmatchcase watches { s with calls := rest } := by
  obtain ⟨hwc, hcase⟩ := h.fits (.enter method dir wc) (by simp [hcalls])
  refine h.replace [] hcalls rfl s.synthetic nofun nofun ?_ ?_
  · intro parent name ino ino' hparent hchild hnode hwatch hnode' hwatch' hmeets
    obtain rfl : dir = parent ++ [name] := hmeets
    obtain ⟨wc₁, hwc₁, hcovers₁⟩ := hparent
    obtain ⟨wc₂, hwc₂, hcovers₂⟩ := hchild
    have hcovers : covers fnmatchcase wc parent := by
      rcases hcase with hroot | ⟨parent', name', hsplit, hcovers⟩
      · exact absurd hroot (hunnested.child_ne hwc₁ hwc hcovers₁)
      · obtain ⟨rfl, -⟩ := List.append_inj' hsplit rfl
        exact hcovers
    have hregistered := skips_iff_of_child hskips
      (s.fs.isDir_iff.mpr ⟨ino', hnode'⟩) hcovers
      (hunnested.covers_child hwc hwc₂ hcovers hcovers₂)
    exact .inr (mem_of_announces hnode
      (announces_of_registered hcalls hclear hnode' hwatch' hregistered))
  · rintro wc' ino hwc' hnode hwatch (heq | heq)
    · obtain ⟨rfl, rfl, rfl⟩ := Call.enter.inj heq
      have hisDir := s.fs.isDir_iff.mpr ⟨ino, hnode⟩
      have hregistered : (s.dirToRoot wc.path).isSome := by
        simpa [skips, hisDir] using hskips
      obtain ⟨parent, name, other, hsplit, hother, -⟩ := exists_of_announces
        (announces_of_registered hcalls hclear hnode hwatch hregistered)
      obtain ⟨wc', hwc', hcovers⟩ := (h.watched hother).1
      exact absurd hsplit.symm (hunnested.child_ne hwc' hwc hcovers)
    · cases heq

theorem tracked_check (h : Tracked fnmatchcase watches s)
    (hcalls : s.calls = .enter method dir wc :: rest)
    (hskips : skips fnmatchcase s dir wc method = false) :
    Tracked fnmatchcase watches
      { s with calls := .addWatch method dir wc :: rest } := by
  have hfits := h.fits (.enter method dir wc) (by simp [hcalls])
  obtain ⟨hcovers, hroot⟩ := covers_of_not_skips hfits hskips
  refine h.replace [.addWatch method dir wc] hcalls rfl s.synthetic
    nofun ?_ ?_ ?_
  · intro next hnext
    obtain rfl := List.mem_singleton.mp hnext
    refine ⟨⟨hfits.1, hcovers⟩, rfl, fun method' dir' wc' heq => ?_⟩
    obtain ⟨-, rfl, -⟩ := Call.addWatch.inj heq
    exact hroot
  · intro parent name ino ino' _ _ _ _ _ _ hmeets
    exact .inl ⟨_, List.mem_singleton_self _, hmeets⟩
  · rintro wc' ino _ _ _ (heq | heq)
    · obtain ⟨rfl, rfl, rfl⟩ := Call.enter.inj heq
      exact ⟨_, List.mem_singleton_self _, .inr rfl⟩
    · cases heq

theorem tracked_vanished (h : Tracked fnmatchcase watches s)
    (hcalls : s.calls = .addWatch method dir wc :: rest)
    (hnode : s.fs.node dir = none) :
    Tracked fnmatchcase watches { s with calls := rest } := by
  refine h.replace [] hcalls rfl s.synthetic nofun nofun ?_ ?_
  · intro parent name ino ino' _ _ _ _ hchild _ hmeets
    obtain rfl : dir = parent ++ [name] := hmeets
    simp [hnode] at hchild
  · rintro wc' ino _ hroot _ (heq | heq)
    · cases heq
    · obtain ⟨rfl, rfl, rfl⟩ := Call.addWatch.inj heq
      simp [hnode] at hroot

theorem tracked_unlisted (h : Tracked fnmatchcase watches s)
    (hcalls : s.calls = .scandir method dir wc :: rest)
    (hdir : s.fs.isDir dir = false) :
    Tracked fnmatchcase watches { s with calls := rest } := by
  refine h.replace [] hcalls rfl s.synthetic nofun nofun ?_ nofun
  intro parent name ino ino' _ _ hnode _ _ _ hmeets
  obtain rfl : dir = parent := hmeets
  simp [FsTree.isDir, hnode] at hdir

theorem tracked_scan (h : Tracked fnmatchcase watches s)
    {entries : List (String × Bool)}
    (hcalls : s.calls = .scandir method dir wc :: rest)
    (hcomplete : s.fs.listing dir ⊆ entries) :
    Tracked fnmatchcase watches
      { s with calls := .scanning method dir wc entries :: rest } := by
  have hfits := h.fits (.scandir method dir wc) (by simp [hcalls])
  refine h.replace [.scanning method dir wc entries] hcalls rfl
    s.synthetic nofun ?_ ?_ nofun
  · intro next hnext
    obtain rfl := List.mem_singleton.mp hnext
    exact ⟨hfits, rfl, nofun⟩
  · intro parent name ino ino' _ _ _ _ hchild _ hmeets
    obtain rfl : dir = parent := hmeets
    refine .inl ⟨_, List.mem_singleton_self _, name, hcomplete ?_, rfl⟩
    exact s.fs.mem_listing_iff.mpr ⟨ino', hchild⟩

theorem tracked_found (h : Tracked fnmatchcase watches s)
    {entries : List (String × Bool)} (entry : String × Bool)
    (hcalls : s.calls = .scanning method dir wc entries :: rest) :
    Tracked fnmatchcase watches
      { s with calls := .scanning method dir wc (entries ++ [entry]) :: rest } := by
  have hfits := h.fits (.scanning method dir wc entries) (by simp [hcalls])
  refine h.replace [.scanning method dir wc (entries ++ [entry])]
    hcalls rfl s.synthetic nofun ?_ ?_ nofun
  · intro next hnext
    obtain rfl := List.mem_singleton.mp hnext
    exact ⟨hfits, rfl, nofun⟩
  · rintro parent name ino ino' _ _ _ _ _ _ ⟨found, hfound, heq⟩
    exact .inl ⟨_, List.mem_singleton_self _, found,
      List.mem_append_left _ hfound, heq⟩

theorem isWaiting_of_visitEntry {entries : List (String × Bool)}
    (hcall : call ∈ entries.flatMap (visitEntry method dir wc)) :
    call.isWaiting := by
  obtain ⟨⟨name, isDir⟩, -, hmem⟩ := List.mem_flatMap.mp hcall
  cases isDir <;> cases method <;> simp [visitEntry] at hmem <;> subst hmem <;>
    rfl

theorem tracked_listed (h : Tracked fnmatchcase watches s)
    {entries : List (String × Bool)}
    (hcalls : s.calls = .scanning method dir wc entries :: rest) :
    Tracked fnmatchcase watches
      { s with calls := entries.flatMap (visitEntry method dir wc) ++ rest } := by
  have hfits := h.fits (.scanning method dir wc entries) (by simp [hcalls])
  refine h.replace _ hcalls rfl s.synthetic ?_ ?_ ?_ nofun
  · exact fun next hnext =>
      isWaiting_of_visitEntry (List.mem_of_mem_tail hnext)
  · intro next hnext
    have hwaiting := isWaiting_of_visitEntry hnext
    refine ⟨?_, recording_of_waiting hwaiting, ?_⟩
    · obtain ⟨⟨name, isDir⟩, -, hmem⟩ := List.mem_flatMap.mp hnext
      cases isDir <;> cases method <;> simp [visitEntry] at hmem <;>
        subst hmem
      · exact ⟨hfits.1, dir, name, rfl, hfits.2⟩
      · exact ⟨hfits.1, .inr ⟨dir, name, rfl, hfits.2⟩⟩
      · exact ⟨hfits.1, .inr ⟨dir, name, rfl, hfits.2⟩⟩
    · rintro method' dir' wc' rfl
      cases hwaiting
  · rintro parent name ino ino' _ _ _ _ _ _ ⟨found, hfound, heq⟩
    refine .inl ⟨.enter method (dir ++ [found]) wc, ?_, heq⟩
    exact List.mem_flatMap.mpr ⟨_, hfound, by simp [visitEntry]⟩

theorem tracked_file (h : Tracked fnmatchcase watches s) {path : Path}
    (hcalls : s.calls = .file path wc :: rest)
    (synthetic : List (String × Path × Path)) :
    Tracked fnmatchcase watches
      { s with calls := rest, synthetic := synthetic } :=
  h.replace [] hcalls rfl synthetic nofun nofun
    (fun _ _ _ _ _ _ hmeets => absurd hmeets id) nofun

/-! ## A new watch -/

/-- `inotify_add_watch` has returned. -/
def State.newWatch (s : State) (ino : ℕ) (method : Method) (dir : Path)
    (wc : WatchConfig) (rest : List Call) : State :=
  { s with
    watch := update s.watch ino (some dir)
    calls := .record method dir wc :: rest }

section NewWatch

variable {ino : ℕ} {entry : Node} {path : Path}

theorem newWatch_watch (other : ℕ) :
    (s.newWatch ino method dir wc rest).watch other =
      if other = ino then some dir else s.watch other :=
  Function.update_apply ..

/-- The directory that is about to be watched has no watch. -/
theorem Tracked.fresh_of_checked (h : Tracked fnmatchcase watches s)
    (hcalls : s.calls = .addWatch method dir wc :: rest)
    (hnode : s.fs.node dir = some entry) : s.watch entry.ino = none := by
  have halive : s.Alive entry.ino dir := ⟨entry.isDir, hnode⟩
  have hfits := h.fits (.addWatch method dir wc) (by simp [hcalls])
  by_contra hne
  have hwatch := h.watch_of_ne_none ⟨wc, hfits⟩ halive hne
  rcases h.claimed ⟨_, hwatch, halive⟩ with hroot | hrecording
  · simp [h.checked hcalls] at hroot
  · simp [State.recording, hcalls, Call.recording] at hrecording

theorem newWatch_live (hfresh : s.watch ino = none) (halive : s.Alive ino dir) :
    (s.newWatch ino method dir wc rest).Live path ↔ path = dir ∨ s.Live path := by
  constructor
  · rintro ⟨other, hwas, halive'⟩
    rw [newWatch_watch] at hwas
    split at hwas
    · exact .inl (Option.some.inj hwas).symm
    · exact .inr ⟨other, hwas, halive'⟩
  · rintro (rfl | ⟨other, hwas, halive'⟩)
    · exact ⟨ino, by rw [newWatch_watch, if_pos rfl], halive⟩
    · refine ⟨other, ?_, halive'⟩
      rw [newWatch_watch, if_neg, hwas]
      rintro rfl
      simp [hfresh] at hwas

theorem newWatch_claimed (hcalls : s.calls = .addWatch method dir wc :: rest) :
    (s.newWatch ino method dir wc rest).Claimed path ↔
      path = dir ∨ s.Claimed path := by
  have hrecording : s.recording = none := by
    simp [State.recording, hcalls, Call.recording]
  have hnew : (s.newWatch ino method dir wc rest).recording = some dir := rfl
  have hroot : (s.newWatch ino method dir wc rest).dirToRoot = s.dirToRoot := rfl
  simp only [State.Claimed, hrecording, hnew, hroot, Option.some.injEq,
    reduceCtorEq, or_false]
  exact or_comm.trans (or_congr_left eq_comm)

theorem visited_newWatch (hcalls : s.calls = .addWatch method dir wc :: rest)
    {parent : Path} (hvisited : s.Visited parent path) (hne : path ≠ dir) :
    (s.newWatch ino method dir wc rest).Visited parent path := by
  obtain ⟨found, hmem, hmeets⟩ := hvisited
  rw [hcalls] at hmem
  rcases List.mem_cons.mp hmem with rfl | hmem
  · exact absurd hmeets.symm hne
  · exact ⟨found, List.mem_cons_of_mem _ hmem, hmeets⟩

theorem tracked_addWatch (h : Tracked fnmatchcase watches s)
    (hcalls : s.calls = .addWatch method dir wc :: rest)
    (hnode : s.fs.node dir = some entry) :
    Tracked fnmatchcase watches (s.newWatch entry.ino method dir wc rest) := by
  have hfresh := h.fresh_of_checked hcalls hnode
  have halive : s.Alive entry.ino dir := ⟨entry.isDir, hnode⟩
  have hfits := h.fits (.addWatch method dir wc) (by simp [hcalls])
  refine
    { watched := ?_
      left := ?_
      config := h.config
      root := h.root
      shape := ?_
      fits := ?_
      checked := nofun
      claimed := ?_
      pending := ?_
      start := ?_ }
  · intro ino path hwas
    rw [newWatch_watch] at hwas
    split at hwas
    · rename_i heq
      cases hwas
      subst heq
      exact ⟨⟨wc, hfits⟩, s.fs.fresh hnode,
        fun _ hwhere => State.Alive.path_eq hwhere halive⟩
    · exact h.watched hwas
  · intro event hmem hdrops
    have hleft := h.left hmem hdrops
    refine ⟨hleft.bound, fun hcovered => hleft.away hcovered, fun hend => ?_⟩
    rw [newWatch_watch, if_neg] at hend
    · exact hleft.ended hend
    · exact fun heq => hleft.away ⟨wc, hfits⟩ (heq ▸ halive)
  · intro next hnext
    have hnext' : next ∈ rest := hnext
    exact h.shape next (by simpa [hcalls] using hnext')
  · intro next hnext
    rcases List.mem_cons.mp hnext with rfl | hnext
    · exact hfits
    · exact h.fits next (by simp [hcalls, hnext])
  · intro path hpath
    rw [newWatch_claimed hcalls]
    exact ((newWatch_live hfresh halive).mp hpath).imp_right h.claimed
  · intro parent name ino ino' hparent hchild hisDir hwas hnode' hwas'
    have hne : ino' ≠ entry.ino := by
      rintro rfl
      rw [newWatch_watch, if_pos rfl] at hwas'
      cases hwas'
    rw [newWatch_watch, if_neg hne] at hwas'
    rw [newWatch_watch] at hwas
    split at hwas
    · -- the directory will be listed
      obtain rfl := Option.some.inj hwas
      exact .inl ⟨_, List.mem_cons_self, rfl⟩
    · refine (h.pending hparent hchild hisDir hwas hnode' hwas').imp_left
        fun hvisited => visited_newWatch hcalls hvisited ?_
      rintro rfl
      cases hnode.symm.trans hnode'
      exact hne rfl
  · intro wc' ino hwc' hroot hwas
    have hne : ino ≠ entry.ino := by
      rintro rfl
      rw [newWatch_watch, if_pos rfl] at hwas
      cases hwas
    rw [newWatch_watch, if_neg hne] at hwas
    obtain ⟨found, hmem, hfound⟩ := h.start hwc' hroot hwas
    rw [hcalls] at hmem
    rcases List.mem_cons.mp hmem with rfl | hmem
    · rcases hfound with heq | heq
      · cases heq
      · obtain ⟨-, rfl, -⟩ := Call.addWatch.inj heq
        cases hnode.symm.trans hroot
        exact absurd rfl hne
    · exact ⟨found, List.mem_cons_of_mem _ hmem, hfound⟩

end NewWatch

theorem tracked_record (h : Tracked fnmatchcase watches s)
    (hcalls : s.calls = .record method dir wc :: rest) :
    Tracked fnmatchcase watches { s with
      dirToRoot := update s.dirToRoot dir (some wc.path)
      dirToConfig := update s.dirToConfig dir (some wc)
      calls := .scandir method dir wc :: rest } := by
  have hfits := h.fits (.record method dir wc) (by simp [hcalls])
  have hrecording : s.recording = some dir := by
    simp [State.recording, hcalls, Call.recording]
  set after : State := { s with
    dirToRoot := update s.dirToRoot dir (some wc.path)
    dirToConfig := update s.dirToConfig dir (some wc)
    calls := .scandir method dir wc :: rest } with hafter
  have hclaimed : ∀ {path}, after.Claimed path ↔ s.Claimed path := by
    intro path
    have hnew : after.recording = none := rfl
    have hroot : after.dirToRoot path =
        if path = dir then some wc.path else s.dirToRoot path :=
      Function.update_apply ..
    simp only [State.Claimed, hrecording, hnew, hroot]
    by_cases heq : path = dir
    · simp [heq]
    · simp [heq, Ne.symm heq]
  refine { h with
    left := fun hmem hdrops => (h.left hmem hdrops).of_eq rfl rfl
    config := ?_
    root := ?_
    shape := ?_
    fits := ?_
    checked := nofun
    claimed := fun hlive => hclaimed.mpr (h.claimed hlive)
    pending := ?_
    start := ?_ }
  · intro path found hfound
    simp only [hafter, Function.update_apply] at hfound
    split at hfound
    · rename_i heq
      cases hfound
      exact heq ▸ hfits
    · exact h.config hfound
  · intro path
    simp only [hafter, Function.update_apply]
    split
    · rfl
    · exact h.root path
  · intro next hnext
    have hnext' : next ∈ rest := hnext
    exact h.shape next (by simpa [hcalls] using hnext')
  · intro next hnext
    rcases List.mem_cons.mp hnext with rfl | hnext
    · exact hfits
    · exact h.fits next (by simp [hcalls, hnext])
  · intro parent name ino ino' hparent hchild hnode hwatch hnode' hwatch'
    refine (h.pending hparent hchild hnode hwatch hnode' hwatch').imp_left ?_
    rintro ⟨found, hmem, hfound⟩
    rw [hcalls] at hmem
    rcases List.mem_cons.mp hmem with rfl | hmem
    · exact ⟨_, List.mem_cons_self, hfound⟩
    · exact ⟨found, List.mem_cons_of_mem _ hmem, hfound⟩
  · intro wc' ino hwc' hroot hwatch
    obtain ⟨found, hmem, hfound⟩ := h.start hwc' hroot hwatch
    rw [hcalls] at hmem
    rcases List.mem_cons.mp hmem with rfl | hmem
    · rcases hfound with heq | heq <;> cases heq
    · exact ⟨found, List.mem_cons_of_mem _ hmem, hfound⟩

/-! ## Events -/

theorem tracked_release (h : Tracked fnmatchcase watches s) {event : Event}
    (hlate : event ∈ s.late) : Tracked fnmatchcase watches (s.released event) :=
  { h with
    left := by
      intro other hmem hdrops
      refine (h.left ?_ hdrops).of_eq rfl rfl
      rcases hmem with hmem | hmem
      · rcases List.mem_append.mp hmem with hmem | hmem
        · exact .inl hmem
        · exact .inr (List.mem_singleton.mp hmem ▸ hlate)
      · exact .inr (List.mem_of_mem_erase hmem)
    pending := fun hdir hchild hnode hwatch hnode' hwatch' =>
      (h.pending hdir hchild hnode hwatch hnode' hwatch').imp_right
        (List.mem_append_left _) }

/-- An event is read and changes nothing else; `more` is the call it leads
to. -/
theorem tracked_next (h : Tracked fnmatchcase watches s) {event : Event}
    {events : List Event} {more : List Call} (hcalls : s.calls = [])
    (hqueue : s.queue = event :: events)
    (hmore : more = [] ∨ ∃ path wc, more = [.enter .addDirAndScan path wc] ∧
      (Call.enter .addDirAndScan path wc).Fits fnmatchcase watches)
    (hannounced : ∀ {dir name ino}, Covered fnmatchcase watches dir →
      s.fs.node dir = some ⟨ino, true⟩ → s.watch ino = some dir →
      event = ⟨ino, .create, true, some name⟩ →
        ∃ next ∈ more, next.Meets dir (dir ++ [name])) :
    Tracked fnmatchcase watches
      { s with queue := events, calls := more } := by
  set after : State := { s with queue := events, calls := more } with hafter
  have hrecording : s.recording = none := by
    simp [State.recording, hcalls]
  have hrecording' : after.recording = none := by
    rcases hmore with rfl | ⟨path, wc, rfl, -⟩ <;> rfl
  have hclaimed : ∀ {path}, after.Claimed path ↔ s.Claimed path := by
    intro path
    have hroot : after.dirToRoot path = s.dirToRoot path := rfl
    simp only [State.Claimed, hrecording, hrecording', hroot]
  refine
    { watched := h.watched
      left := ?_
      config := h.config
      root := h.root
      shape := ?_
      fits := ?_
      checked := ?_
      claimed := fun hlive => hclaimed.mpr (h.claimed hlive)
      pending := ?_
      start := ?_ }
  · intro other hmem hdrops
    refine (h.left (hmem.imp_left fun hmem => ?_) hdrops).of_eq rfl rfl
    rw [hqueue]
    exact List.mem_cons_of_mem _ hmem
  · rcases hmore with rfl | ⟨path, wc, rfl, -⟩ <;> exact nofun
  · rcases hmore with rfl | ⟨path, wc, rfl, hfits⟩
    · exact nofun
    · intro next hnext
      obtain rfl := List.mem_singleton.mp hnext
      exact hfits
  · rcases hmore with rfl | ⟨path, wc, rfl, -⟩ <;> exact nofun
  · intro dir name ino ino' hdir hchild hnode hwatch hnode' hwatch'
    rcases h.pending hdir hchild hnode hwatch hnode' hwatch' with
      ⟨found, hmem, -⟩ | hmem
    · simp [hcalls] at hmem
    · rw [hqueue] at hmem
      rcases List.mem_cons.mp hmem with heq | hmem
      · exact .inl (hannounced hdir hnode hwatch heq.symm)
      · exact .inr hmem
  · intro wc ino hwc hnode hwatch
    obtain ⟨found, hmem, -⟩ := h.start hwc hnode hwatch
    simp [hcalls] at hmem

/-- An event that drops the watch of a directory has been read. -/
def State.forget (s : State) (event : Event) (events : List Event) (dir : Path) :
    State :=
  { s.read event events with
    dirToRoot := update s.dirToRoot dir none
    dirToConfig := update s.dirToConfig dir none }

section Forget

variable {event : Event} {events : List Event} {path : Path}

theorem forget_watch (ino : ℕ) : (s.forget event events dir).watch ino =
    if event.mask = .ignored ∧ ino = event.ino then none else s.watch ino := by
  by_cases hlast : event.mask = .ignored
  · simp [State.forget, State.read, hlast, Function.update_apply]
  · simp [State.forget, State.read, hlast]

theorem watch_of_forget {ino : ℕ}
    (hfound : (s.forget event events dir).watch ino = some path) :
    s.watch ino = some path := by
  rw [forget_watch] at hfound
  split at hfound
  · cases hfound
  · exact hfound

theorem forget_claimed (hcalls : s.calls = []) :
    (s.forget event events dir).Claimed path ↔ path ≠ dir ∧ s.Claimed path := by
  have hrecording : s.recording = none := by
    simp [State.recording, hcalls]
  have hrecording' : (s.forget event events dir).recording = none := by
    simp [State.recording, State.forget, State.read, hcalls]
  have hroot : (s.forget event events dir).dirToRoot path =
      if path = dir then none else s.dirToRoot path :=
    Function.update_apply ..
  simp only [State.Claimed, hrecording, hrecording', hroot]
  by_cases heq : path = dir <;> simp [heq]

/-- What an event unregisters for one directory, no other needs. -/
theorem not_live_of_drop (hqueue : s.queue = event :: events)
    (hwatch : s.watch event.ino = some dir) (hdrops : event.mask.dropsWatch)
    (hseated : s.unseats = false) {ino : ℕ} (hne : ino ≠ event.ino)
    (hother : s.watch ino = some dir) : ¬ s.Alive ino dir := by
  rintro ⟨isDir, hnode⟩
  simp [State.unseats, hqueue, hwatch, hdrops, hnode, hne, hother] at hseated

theorem tracked_drop (h : Tracked fnmatchcase watches s) (hcalls : s.calls = [])
    (hqueue : s.queue = event :: events)
    (hwatch : s.watch event.ino = some dir) (hdrops : event.mask.dropsWatch)
    (hseated : s.unseats = false) :
    Tracked fnmatchcase watches (s.forget event events dir) := by
  have hleft := h.left (.inl (by simp [hqueue])) hdrops
  have hidle : (s.forget event events dir).calls = [] := by
    simp [State.forget, State.read, hcalls]
  -- the inode of the event is at no covered path
  have hunwatched : ∀ {ino path kind}, Covered fnmatchcase watches path →
      s.fs.node path = some ⟨ino, kind⟩ →
      (s.forget event events dir).watch ino = none → s.watch ino = none := by
    intro ino path kind hcovered hnode hnone
    rwa [forget_watch, if_neg] at hnone
    rintro ⟨-, rfl⟩
    exact hleft.away hcovered ⟨kind, hnode⟩
  refine
    { watched := fun hfound => h.watched (watch_of_forget hfound)
      left := ?_
      config := ?_
      root := ?_
      shape := by simp [hidle]
      fits := by simp [hidle]
      checked := by simp [hidle]
      claimed := ?_
      pending := ?_
      start := ?_ }
  · intro other hmem hother
    have hleft' := h.left (hmem.imp_left fun hmem => by
      rw [hqueue]; exact List.mem_cons_of_mem _ hmem) hother
    refine ⟨hleft'.bound, fun hcovered => hleft'.away hcovered, fun hend => ?_⟩
    rw [forget_watch] at hend
    by_cases hboth : event.mask = .ignored ∧ other.ino = event.ino
    · rw [hboth.2]
      exact hleft.ended (.inl hboth.1)
    · rw [if_neg hboth] at hend
      exact hleft'.ended hend
  · intro path found hfound
    simp only [State.forget, Function.update_apply] at hfound
    split at hfound
    · cases hfound
    · exact h.config hfound
  · intro path
    simp only [State.forget, Function.update_apply]
    split
    · rfl
    · exact h.root path
  · rintro path ⟨ino, hfound, halive⟩
    have hfound' := watch_of_forget hfound
    refine (forget_claimed hcalls).mpr ⟨?_, h.claimed ⟨ino, hfound', halive⟩⟩
    rintro rfl
    refine not_live_of_drop hqueue hwatch hdrops hseated ?_ hfound' halive
    rintro rfl
    exact hleft.away (h.watched hwatch).1 halive
  · intro parent name ino ino' hparent hchild hnode hfound hnode' hfound'
    rcases h.pending hparent hchild hnode (watch_of_forget hfound) hnode'
      (hunwatched hchild hnode' hfound') with ⟨found, hmem, -⟩ | hmem
    · simp [hcalls] at hmem
    · rw [hqueue] at hmem
      rcases List.mem_cons.mp hmem with rfl | hmem
      · cases hdrops
      · exact .inr hmem
  · intro wc' ino hwc' hnode hfound
    obtain ⟨found, hmem, -⟩ := h.start hwc' hnode
      (hunwatched ⟨wc', hwc', covers_path⟩ hnode hfound)
    simp [hcalls] at hmem

end Forget

theorem read_eq {event : Event} {events : List Event} (hcalls : s.calls = [])
    (hkeeps : event.mask.dropsWatch = false) :
    s.read event events = { s with queue := events, calls := [] } := by
  have hmask : event.mask ≠ .ignored := by
    rintro heq
    simp [heq, Mask.dropsWatch] at hkeeps
  simp [State.read, hmask, hcalls]

theorem read_eq_of_lost {event : Event} {events : List Event}
    (hcalls : s.calls = []) (hwatch : s.watch event.ino = none) :
    s.read event events = { s with queue := events, calls := [] } := by
  have hsame : update s.watch event.ino none = s.watch := by
    rw [← hwatch, Function.update_eq_self]
  simp [State.read, hsame, hcalls]

/-- A watched directory is registered when no call is open. -/
theorem Tracked.config_of_watch (h : Tracked fnmatchcase watches s)
    (hcalls : s.calls = []) {ino : ℕ} (hwatch : s.watch ino = some dir)
    (halive : s.Alive ino dir) : ∃ wc, s.dirToConfig dir = some wc := by
  have hclaimed := h.claimed ⟨ino, hwatch, halive⟩
  simp only [State.Claimed, State.recording, hcalls, List.head?_nil,
    Option.bind_none, reduceCtorEq, or_false, h.root, Option.isSome_map]
    at hclaimed
  exact Option.isSome_iff_exists.mp hclaimed

/-- A new call for an entry of a covered directory, or for the directory
itself. -/
theorem fits_of_covers (hwc : wc ∈ watches)
    (hcovers : covers fnmatchcase wc dir) (name : Option String) :
    (Call.enter method (dir ++ name.toList) wc).Fits fnmatchcase watches := by
  refine ⟨hwc, ?_⟩
  cases name with
  | some name => exact .inr ⟨dir, name, rfl, hcovers⟩
  | none =>
      simp only [Option.toList_none, List.append_nil]
      obtain ⟨rel, rfl⟩ := exists_rel_of_covers hcovers
      rcases List.eq_nil_or_concat rel with rfl | ⟨init, last, rfl⟩
      · exact .inl (List.append_nil _)
      · rw [List.concat_eq_append, ← List.append_assoc] at hcovers ⊢
        exact (covers_of_child hcovers).imp_right fun hparent =>
          ⟨_, _, rfl, hparent⟩

/-- No root is made anew. -/
theorem isRoot_of_spares {action : Action} {name : String} {isDir : Bool}
    (hspares : spares fnmatchcase watches s action)
    (haction : action = .mkdir dir name ∧ isDir = true ∨
      action = .create dir name ∧ isDir = false) (hdir : isDir = true) :
    isRoot watches (dir ++ [name]) = false := by
  rcases haction with ⟨rfl, -⟩ | ⟨-, hfile⟩
  · simpa [spares] using hspares
  · simp [hfile] at hdir

theorem tracked_move (h : Tracked fnmatchcase watches s)
    (hunnested : Unnested watches) {action : Action} {out : List Obs}
    (hspares : spares fnmatchcase watches s action)
    (hmove : Move fnmatchcase s action after out) :
    Tracked fnmatchcase watches after := by
  cases hmove with
  | insert haction hparent hcan =>
      exact tracked_change (disturbance_insert h
        (isRoot_of_spares hspares haction) hparent hcan) h
  | remove _ _ hentry hleaf =>
      exact tracked_change (disturbance_erase hentry hleaf) h
  | close => exact tracked_change disturbance_close h
  | rename _ hentry hparent' hcan _ =>
      exact tracked_change (disturbance_rename hspares hentry hparent' hcan) h
  | release _ hlate => exact tracked_release h hlate
  | skip hcalls hskips =>
      exact tracked_skip h hunnested (by simpa [spares] using hspares) hcalls
        hskips
  | check hcalls hskips => exact tracked_check h hcalls hskips
  | vanished hcalls hnode => exact tracked_vanished h hcalls hnode
  | addWatch hcalls hnode => exact tracked_addWatch h hcalls hnode
  | record hcalls => exact tracked_record h hcalls
  | unlisted hcalls hdir => exact tracked_unlisted h hcalls hdir
  | listed hcalls => exact tracked_listed h hcalls
  | fileIgnored hcalls _ => exact tracked_file h hcalls s.synthetic
  | file hcalls _ => exact tracked_file h hcalls _
  | scan hcalls _ _ hcomplete => exact tracked_scan h hcalls hcomplete
  | found hcalls _ => exact tracked_found h _ hcalls
  | fail => cases hspares
  | enter =>
      exact { h with
        left := fun hmem hdrops => (h.left hmem hdrops).of_eq rfl rfl }
  | @takeLost event events _ hcalls _ hqueue hwatch =>
      rw [read_eq_of_lost hcalls hwatch]
      refine tracked_next h hcalls hqueue (.inl rfl) ?_
      rintro dir name ino - - hsome rfl
      simp [hsome] at hwatch
  | takeDrop _ hcalls _ hqueue hwatch hdrops =>
      exact tracked_drop h hcalls hqueue hwatch hdrops
        (by simpa [spares] using hspares)
  | @takeDir event events watchDir wc _ hcalls _ hqueue hwatch hmask _ hconfig =>
      have hkeeps : event.mask.dropsWatch = false := by
        simp [hmask, Mask.dropsWatch]
      obtain ⟨hwc, hcovers⟩ := h.config hconfig
      rw [read_eq hcalls hkeeps]
      refine tracked_next h hcalls hqueue
        (.inr ⟨_, wc, rfl, fits_of_covers hwc hcovers event.name⟩) ?_
      rintro dir name ino - - hsome rfl
      obtain rfl := Option.some.inj (hwatch.symm.trans hsome)
      exact ⟨_, List.mem_singleton_self _, rfl⟩
  | @takeSilent event events watchDir _ hcalls _ hqueue hwatch hkeeps hdir _ =>
      rw [read_eq hcalls hkeeps]
      refine tracked_next h hcalls hqueue (.inl rfl) ?_
      rintro dir name ino - hnode hsome rfl
      obtain rfl := Option.some.inj (hwatch.symm.trans hsome)
      obtain ⟨wc, hconfig⟩ := h.config_of_watch hcalls hsome ⟨true, hnode⟩
      simp [hdir rfl rfl] at hconfig
  | @takeFile event events watchDir root maskName _ hcalls _ hqueue _ hfile _
      hmask =>
      have hkeeps : event.mask.dropsWatch = false := by
        revert hmask
        cases event.mask <;> simp [maskToName, Mask.dropsWatch]
      rw [read_eq hcalls hkeeps]
      refine tracked_next h hcalls hqueue (.inl rfl) ?_
      rintro dir name ino - - - rfl
      cases hfile
  | emit =>
      exact { h with
        left := fun hmem hdrops => (h.left hmem hdrops).of_eq rfl rfl }

theorem tracked_of_reaches (hunnested : Unnested watches) {fs : FsTree String}
    {trace : List Obs}
    (hrun : Reaches (step fnmatchcase)
      (fun s action => spares fnmatchcase watches s action)
      (start fs watches) trace s) : Tracked fnmatchcase watches s :=
  hrun.invariant (fun _ s => Tracked fnmatchcase watches s)
    (tracked_start fs) fun h hspares hstep =>
      tracked_move h hunnested hspares (move_of_step hstep)

end MirrorMirage.Watcher
