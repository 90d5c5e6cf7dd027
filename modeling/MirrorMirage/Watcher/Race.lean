import Mathlib.Data.List.TakeWhile
import MirrorMirage.Watcher.Growth

/-!
# The mkdir race

A file that is ready in a covered directory is owed an event until one for it
is emitted or the file is renamed away.  `Reporting` says where a watcher
still has the file before it: it is awaited as one that has come with its
directory is, or an event for it is in the queue.
-/

namespace MirrorMirage.Watcher

open Function (update)
open MirrorMirage.FileTree MirrorMirage.Run MirrorMirage.Trace

/-! ## What is owed -/

/-- The event, or the rename, that ends what is owed for the path. -/
def Settles (wc : WatchConfig) (path : Path) (event : Obs) : Prop :=
  event = .movedAway path ∨ event = .emitted "IN_MOVED_TO" path wc.path ∨
    event = .emitted "IN_CLOSE_WRITE" path wc.path

/-- Since `__aenter__` has returned the file has been ready, and nothing has
settled that. -/
def Owed (wc : WatchConfig) (path : Path) (trace : List Obs) : Prop :=
  Since (· = .ready path) (Settles wc path) (trace.dropWhile (· ≠ .entered))

section Owed

variable {wc : WatchConfig} {path : Path} {trace out : List Obs}

theorem Owed.append (h : Owed wc path (trace ++ out)) :
    .ready path ∈ out ∨
      (Owed wc path trace ∧ ∀ event ∈ out, ¬ Settles wc path event) := by
  rw [Owed, List.dropWhile_append] at h
  split at h
  · obtain ⟨event, hmem, rfl⟩ := h.exists_start
    exact .inl ((List.dropWhile_sublist _).subset hmem)
  · rcases since_append.mp h with hnew | hold
    · obtain ⟨event, hmem, rfl⟩ := hnew.exists_start
      exact .inl hmem
    · exact .inr hold

theorem Owed.entered (h : Owed wc path trace) : .entered ∈ trace := by
  by_contra hnot
  have hnil : trace.dropWhile (· ≠ .entered) = [] := by
    rw [List.dropWhile_eq_nil_iff]
    intro event hmem
    rw [decide_eq_true_eq]
    rintro rfl
    exact hnot hmem
  rw [Owed, hnil] at h
  exact not_since_nil h

theorem owed_of_ready {before after : List Obs} (hentered : .entered ∈ before)
    (hafter : ∀ event ∈ after, ¬ Settles wc path event) :
    Owed wc path (before ++ .ready path :: after) := by
  rw [Owed, List.dropWhile_append, if_neg]
  · exact ⟨_, _, after, rfl, rfl, hafter⟩
  · rw [List.isEmpty_iff, List.dropWhile_eq_nil_iff]
    intro hall
    simpa using hall _ hentered

end Owed

/-! ## Where the watcher still has the file before it -/

inductive Reporting (wc : WatchConfig) (dir : Path) (name : String)
    (s : State) : Prop where
  | awaited (h : Awaited wc dir name s)
  | queued (ino : ℕ) (mask : Mask) (hwatch : s.watch ino = some dir)
      (hmask : mask = .closeWrite ∨ mask = .movedTo)
      (h : ⟨ino, mask, false, some name⟩ ∈ s.queue)

section Step

variable {fnmatchcase : String → String → Bool} {watches : List WatchConfig}
variable {s after : State} {action : Action} {out : List Obs}
variable {wc : WatchConfig} {dir : Path} {name : String}

/-- The file is there, and the watcher still has it before it. -/
def Obliged (wc : WatchConfig) (dir : Path) (name : String) (s : State) :
    Prop :=
  (∃ ino, s.fs.node (dir ++ [name]) = some ⟨ino, false⟩) ∧
    Reporting wc dir name s

/-- An operation on the file is reported, or its directory is not watched. -/
theorem reporting_of_event (hgrowing : Growing watches s) {parent : Node}
    (hparent : s.fs.node dir = some parent) {fs : FsTree String}
    (hdir : fs.node dir = s.fs.node dir) {mask : Mask}
    {events last : List Event}
    (hmask : mask = .closeWrite ∨ mask = .movedTo)
    (hmem : ⟨parent.ino, mask, false, some name⟩ ∈ events) :
    Reporting wc dir name (s.change fs events last) := by
  cases hwatch : s.watch parent.ino with
  | none =>
      refine .awaited (.unwatched fun ino hnode => ?_)
      rw [change_fs, hdir, hparent] at hnode
      rw [← show parent.ino = ino from congrArg Node.ino (Option.some.inj hnode)]
      exact hwatch
  | some path =>
      obtain rfl := s.fs.unique hparent (hgrowing.watched hwatch) rfl
      refine .queued parent.ino mask hwatch hmask (List.mem_append_right _ ?_)
      exact mem_reported_iff.mpr ⟨hmem, by simp [hwatch]⟩

theorem obliged_of_ready (hgrowing : Growing watches s)
    (hpublishes : publishes s action)
    (hmove : Move fnmatchcase s action after out)
    (hready : .ready (dir ++ [name]) ∈ out) : Obliged wc dir name after := by
  have hmove' := hmove
  cases hmove with
  | @close target name' parent entry hparent hentry hkind =>
      obtain ⟨rfl, rfl⟩ : dir = target ∧ name = name' := by
        simpa using hready
      refine ⟨⟨entry.ino, hkind ▸ hentry⟩, ?_⟩
      exact reporting_of_event hgrowing hparent rfl (.inl rfl)
        (List.mem_cons_self ..)
  | @rename src target name' name'' parent entry parent' hparent hentry
      hparent' hcan hkind =>
      obtain ⟨hsrc, hfile⟩ := isDir_of_publishes hpublishes hentry
      obtain ⟨rfl, rfl⟩ : dir = target ∧ name = name'' := by
        simpa [hfile] using hready
      obtain ⟨ino, hdir⟩ := s.fs.isDir_iff.mp hcan.2.1
      refine ⟨⟨entry.ino, ?_⟩, reporting_of_event hgrowing hparent'
        ((node_of_publishes hpublishes hmove' hdir).trans hdir.symm)
        (.inr rfl) ?_⟩
      · rw [← hfile, change_fs, s.fs.move_node_of_isLeaf hcan
          (s.fs.isLeaf_of_not_isDir hsrc), if_pos rfl, hentry]
      · simp [renameEvents, hfile]
  | _ => simp at hready

/-- In such runs a file that is still awaited stays. -/
theorem settles_of_endsArrival (hpublishes : publishes s action)
    (hmove : Move fnmatchcase s action after out) {path : Path} {ino : ℕ}
    (hfile : s.fs.node path = some ⟨ino, false⟩) {event : Obs}
    (hmem : event ∈ out) (hends : EndsArrival wc path event) :
    Settles wc path event := by
  rcases hends with rfl | rfl | ⟨above, ⟨rel, rfl⟩, rfl⟩
  · exact .inr (.inl rfl)
  · cases hmove with
    | remove haction => rcases haction with rfl | rfl <;> cases hpublishes
    | @rename _ _ _ _ _ entry =>
        cases hkind : entry.isDir <;> simp [hkind] at hmem
    | _ => simp at hmem
  · cases hmove with
    | @rename src _ name' _ _ entry _ _ hentry =>
        obtain ⟨-, hkind⟩ := isDir_of_publishes hpublishes hentry
        obtain rfl : above = src ++ [name'] := by simpa [hkind] using hmem
        -- there is nothing below a file
        obtain rfl : rel = [] := by
          by_contra hrel
          obtain ⟨found, hdir⟩ :=
            s.fs.isDir_of_below hrel (hfile ▸ Option.some_ne_none _)
          rw [hentry] at hdir
          simp [Option.some.inj hdir] at hkind
        exact .inl (by rw [List.append_nil])
    | _ => simp at hmem

section Kept

variable (htracked : Tracked fnmatchcase watches s)
variable (hunnested : Unnested watches) (hgrowing : Growing watches s)
variable (hwc : wc ∈ watches) (hcovers : covers fnmatchcase wc dir)
include htracked hunnested hgrowing hwc hcovers

/-- An event for the file stays in the queue until it is emitted. -/
theorem reporting_of_queued (hpublishes : publishes s action)
    (hmove : Move fnmatchcase s action after out) {ino : ℕ} {mask : Mask}
    (hwatch : s.watch ino = some dir)
    (hmask : mask = .closeWrite ∨ mask = .movedTo)
    (hmem : ⟨ino, mask, false, some name⟩ ∈ s.queue)
    (hkept : ∀ event ∈ out, ¬ Settles wc (dir ++ [name]) event) :
    Reporting wc dir name after := by
  have hkeeps : mask.dropsWatch = false := by
    rcases hmask with rfl | rfl <;> rfl
  have hnext : ∀ {event events}, s.queue = event :: events →
      event ≠ ⟨ino, mask, false, some name⟩ →
        ⟨ino, mask, false, some name⟩ ∈ events := fun hqueue hne =>
    (List.mem_cons.mp (hqueue ▸ hmem)).resolve_left (Ne.symm hne)
  cases hmove with
  | insert | close | rename =>
      exact .queued ino mask hwatch hmask (List.mem_append_left _ hmem)
  | remove haction => rcases haction with rfl | rfl <;> cases hpublishes
  | release _ hlate => simp [hgrowing.late] at hlate
  | fail => cases hpublishes
  | addWatch _ hnode =>
      exact .queued ino mask (hgrowing.watch_update hnode hwatch) hmask hmem
  | @takeLost event events _ hcalls _ hqueue hlost =>
      obtain ⟨-, path, hpath, -⟩ := hgrowing.queued event (by simp [hqueue])
      simp [hlost] at hpath
  | @takeDrop event events watchDir _ hcalls _ hqueue _ hdrops =>
      simp [(hgrowing.queued event (by simp [hqueue])).1] at hdrops
  | @takeDir event events watchDir wc' _ hcalls _ hqueue _ hcreate =>
      rw [read_eq hcalls (by simp [hcreate, Mask.dropsWatch])]
      refine .queued ino mask hwatch hmask (hnext hqueue ?_)
      rintro rfl
      rcases hmask with rfl | rfl <;> cases hcreate
  | @takeSilent event events watchDir _ hcalls _ hqueue hwatch' hkeeps' _
      hnone =>
      rw [read_eq hcalls hkeeps']
      refine .queued ino mask hwatch hmask (hnext hqueue ?_)
      rintro rfl
      -- a watched directory is registered, so that the event is reported
      obtain rfl := Option.some.inj (hwatch'.symm.trans hwatch)
      obtain ⟨found, hfound⟩ := htracked.config_of_watch hcalls hwatch
        ⟨true, hgrowing.watched hwatch⟩
      have hroot := hnone rfl (by
        rcases hmask with rfl | rfl <;> simp [maskToName])
      simp [htracked.root, hfound] at hroot
  | @takeFile event events watchDir root maskName _ hcalls _ hqueue hwatch' _
      hroot hmaskName =>
      rw [read_eq hcalls (hgrowing.queued event (by simp [hqueue])).1]
      refine .queued ino mask hwatch hmask (hnext hqueue ?_)
      rintro rfl
      obtain rfl := Option.some.inj (hwatch'.symm.trans hwatch)
      obtain ⟨found, hfound, rfl⟩ :=
        Option.map_eq_some_iff.mp ((htracked.root _).symm.trans hroot)
      obtain ⟨hmem, hcovered⟩ := htracked.config hfound
      obtain rfl := hunnested.eq_of_covers hmem hwc hcovered hcovers
      refine hkept _ (List.mem_singleton_self _) ?_
      rcases hmask with rfl | rfl <;> cases hmaskName <;> simp [Settles]
  | _ => exact .queued ino mask hwatch hmask hmem

theorem reporting_move (hstarted : s.Started) (hentered : s.entered)
    (hchild : covers fnmatchcase wc (dir ++ [name]))
    (h : Reporting wc dir name s) (hpublishes : publishes s action)
    (hspares : spares fnmatchcase watches s action)
    (hmove : Move fnmatchcase s action after out) {ino : ℕ}
    (hfile : s.fs.node (dir ++ [name]) = some ⟨ino, false⟩)
    (hkept : ∀ event ∈ out, ¬ Settles wc (dir ++ [name]) event) :
    Reporting wc dir name after := by
  cases h with
  | awaited h =>
      refine .awaited (awaited_move htracked hunnested hwc hcovers h hstarted
        hentered hchild hspares hmove hfile fun event hmem hends =>
          hkept event hmem ?_)
      exact settles_of_endsArrival hpublishes hmove hfile hmem hends
  | queued ino mask hwatch hmask hmem =>
      exact reporting_of_queued htracked hunnested hgrowing hwc hcovers
        hpublishes hmove hwatch hmask hmem hkept

end Kept

/-- The roots are directories. -/
theorem not_ready_of_root (hgrowing : Growing watches s) (hwc : wc ∈ watches)
    (hpublishes : publishes s action)
    (hmove : Move fnmatchcase s action after out) :
    .ready wc.path ∉ out := by
  intro hmem
  have hafter := growing_move hgrowing hpublishes hmove
  obtain ⟨ino, hroot⟩ := after.fs.isDir_iff.mp (hafter.roots wc hwc)
  rcases List.eq_nil_or_concat wc.path with heq | ⟨dir, name, heq⟩
  · rw [heq] at hmem
    cases hmove with
    | @rename _ _ _ _ _ entry =>
        cases hkind : entry.isDir <;> simp [hkind] at hmem
    | _ => simp at hmem
  · rw [List.concat_eq_append] at heq
    rw [heq] at hmem hroot
    have hobliged : Obliged wc dir name after :=
      obliged_of_ready hgrowing hpublishes hmove hmem
    obtain ⟨⟨ino', hfile⟩, -⟩ := hobliged
    rw [hroot] at hfile
    cases hfile

end Step

section Runs

variable {fnmatchcase : String → String → Bool} {watches : List WatchConfig}
variable {fs : FsTree String} {trace : List Obs} {s : State}

theorem entered_of_reaches {allowed : State → Action → Prop}
    (hrun : Reaches (step fnmatchcase) allowed (start fs watches) trace s)
    (hentered : .entered ∈ trace) : s.entered := by
  refine hrun.invariant (fun trace s => .entered ∈ trace → s.entered) nofun
    (fun ih _ hstep hmem => ?_) hentered
  rcases List.mem_append.mp hmem with hmem | hmem
  · exact entered_of_move (move_of_step hstep) (.inl (ih hmem))
  · exact entered_of_move (move_of_step hstep) (.inr hmem)

variable (hunnested : Unnested watches)
variable (hroots : ∀ wc ∈ watches, fs.isDir wc.path)
include hunnested hroots

theorem obliged_of_reaches
    (hrun : Reaches (step fnmatchcase) (fun s action => publishes s action)
      (start fs watches) trace s) {wc : WatchConfig} (hwc : wc ∈ watches)
    {dir : Path} {name : String} (hcovers : covers fnmatchcase wc dir)
    (hchild : covers fnmatchcase wc (dir ++ [name]))
    (howed : Owed wc (dir ++ [name]) trace) : Obliged wc dir name s := by
  induction hrun with
  | refl => exact absurd howed.entered List.not_mem_nil
  | snoc hrun hpublishes hstep ih =>
      have hmove := move_of_step hstep
      have hgrowing := growing_of_reaches hroots hrun
      rcases howed.append with hready | ⟨howed, hkept⟩
      · exact obliged_of_ready hgrowing hpublishes hmove hready
      · obtain ⟨⟨ino, hfile⟩, hreporting⟩ := ih howed
        have htracked := tracked_of_reaches hunnested
          (reaches_of_publishes hroots hrun)
        have hspares := hgrowing.spares_of_publishes
          (separate_of_publishes hroots hrun) hpublishes hmove
        have hstays := stays_of_move hmove hfile fun event hmem hends =>
          hkept event hmem
            (settles_of_endsArrival hpublishes hmove hfile hmem hends)
        exact ⟨hstays.2,
          reporting_move htracked hunnested hgrowing hwc hcovers
            (started_of_reaches hrun) (entered_of_reaches hrun howed.entered)
            hchild hreporting hpublishes hspares hmove hfile hkept⟩

omit hunnested in
theorem not_ready_root_of_reaches
    (hrun : Reaches (step fnmatchcase) (fun s action => publishes s action)
      (start fs watches) trace s) {wc : WatchConfig} (hwc : wc ∈ watches) :
    .ready wc.path ∉ trace := by
  induction hrun with
  | refl => exact List.not_mem_nil
  | snoc hrun hpublishes hstep ih =>
      rw [List.mem_append, not_or]
      exact ⟨ih, not_ready_of_root (growing_of_reaches hroots hrun) hwc
        hpublishes (move_of_step hstep)⟩

/-- Whatever the order of the steps: once everything has been processed, a
file that was closed after writing or renamed into place, and not renamed away
since, has had an event. -/
theorem mkdir_race_is_closed {before later : List Obs} {path : Path}
    (hrun : Reaches (step fnmatchcase) (fun s action => publishes s action)
      (start fs watches) (before ++ .ready path :: later) s)
    (hentered : .entered ∈ before) (hstays : .movedAway path ∉ later)
    (hidle : s.idle) {wc : WatchConfig} (hwc : wc ∈ watches)
    (hcovers : covers fnmatchcase wc path) :
    .emitted "IN_MOVED_TO" path wc.path ∈ later ∨
      .emitted "IN_CLOSE_WRITE" path wc.path ∈ later := by
  by_contra hnone
  obtain ⟨hmoved, hclosed⟩ := not_or.mp hnone
  have howed : Owed wc path (before ++ .ready path :: later) := by
    refine owed_of_ready hentered fun event hmem hsettles => ?_
    rcases hsettles with rfl | rfl | rfl
    · exact hstays hmem
    · exact hmoved hmem
    · exact hclosed hmem
  obtain ⟨dir, name, rfl, hparent⟩ :
      ∃ dir name, path = dir ++ [name] ∧ covers fnmatchcase wc dir := by
    have hne : path ≠ wc.path := by
      rintro rfl
      exact not_ready_root_of_reaches hroots hrun hwc (by simp)
    obtain ⟨rel, hrel⟩ := exists_rel_of_covers hcovers
    rcases List.eq_nil_or_concat rel with rfl | ⟨init, last, rfl⟩
    · exact absurd (by simpa using hrel) hne
    · refine ⟨wc.path ++ init, last, by simpa using hrel, ?_⟩
      rw [hrel, List.concat_eq_append, ← List.append_assoc] at hcovers hne
      exact (covers_of_child hcovers).resolve_left hne
  obtain ⟨⟨ino, hfile⟩, hreporting⟩ :=
    obliged_of_reaches hunnested hroots hrun hwc hparent hcovers howed
  obtain ⟨-, hsettled, hsynthetic⟩ := idle_iff.mp hidle
  obtain ⟨hqueue, hcalls⟩ := settled_iff.mp hsettled
  cases hreporting with
  | awaited h =>
      cases h with
      | unwatched hunwatched =>
          obtain ⟨parent, hdir⟩ := s.fs.parent (hfile ▸ Option.some_ne_none _)
          obtain ⟨hwatch, -⟩ := (tracked_of_reaches hunnested
            (reaches_of_publishes hroots hrun)).registered_of_settled hunnested
              hsettled hwc hparent hdir
          simp [hunwatched parent hdir] at hwatch
      | call call hmem => simp [hcalls] at hmem
      | synthetic hmem => simp [hsynthetic] at hmem
  | queued _ _ _ _ hmem => simp [hqueue] at hmem

end Runs

/-- A directory is made and a file written in it before it is watched. -/
theorem mkdir_race_is_closed_sample : ∃ later s,
    Reaches (step fun _ _ => false) (fun s action => publishes s action)
      (start sampleTree [sampleWatch])
      ([.entered] ++ .ready ["/", "srv", "new", "f"] :: later) s ∧
    (.emitted "IN_MOVED_TO" ["/", "srv", "new", "f"] ["/", "srv"] ∈ later ∨
      .emitted "IN_CLOSE_WRITE" ["/", "srv", "new", "f"] ["/", "srv"] ∈
        later) := by
  obtain ⟨trace, s, hrun, hview⟩ := exists_reaches_of_execute
    (step fun _ _ => false) (start sampleTree [sampleWatch])
    (fun s action => publishes s action) (fun final => (final.1.idle, final.2))
    (true, [.entered, .ready ["/", "srv", "new", "f"],
      .emitted "IN_MOVED_TO" ["/", "srv", "new", "f"] ["/", "srv"]])
    [.work, .work, .work, .scan [], .work, .enter, .mkdir ["/", "srv"] "new",
      .create ["/", "srv", "new"] "f", .close ["/", "srv", "new"] "f", .take,
      .work, .work, .work, .scan [("f", false)], .work, .work, .emit]
    (by decide +kernel)
  obtain ⟨hidle, rfl⟩ := Prod.ext_iff.mp hview
  refine ⟨_, s, hrun, ?_⟩
  exact mkdir_race_is_closed (unnested_singleton sampleWatch) (by decide) hrun
    (List.mem_singleton_self _) (by decide) hidle
    (List.mem_singleton_self sampleWatch) (by decide)

end MirrorMirage.Watcher
