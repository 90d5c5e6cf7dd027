import MirrorMirage.Watcher.Bookkeeping

/-!
# Ignored directories stay silent

Nothing is assumed here of the tree, the watches and the queue: between any two
steps of the watcher all of them may be replaced, as by an overflow, by links,
or by events that come late or not at all, and its system calls may fail.  The
watcher still reports only what is directly in a registered directory, and a
registered directory is covered.  The exception is a path at which the watched
directory has given way to a file: its watch reports the file itself.
-/

namespace MirrorMirage.Watcher

open Function (update)
open MirrorMirage.FileTree MirrorMirage.Run

/-! ## The watcher in a world without rules -/

/-- What an inode reports about itself: that a file has been written, or that
its watch has to go. -/
def Event.isOfEntry (event : Event) : Bool :=
  event.name.isSome || event.mask = .closeWrite || event.mask.dropsWatch

/-- `isOpen` says that the watcher has its inotify descriptor. -/
structure Wild where
  state : State
  isOpen : Bool

inductive WildAction where
  | act (action : Action)
  /-- Anything becomes of the tree, the watches and the events. -/
  | world (fs : FsTree String) (watch : ℕ → Option Path)
      (queue late : List Event)
  /-- An exception leaves `__aenter__`, such as the `InotifyLimitError` of an
  `add_watch` without space. -/
  | raised
  /-- `__aexit__`. -/
  | exit
  /-- `__aenter__` is called again. -/
  | reopen

namespace Wild

def start (fs : FsTree String) (watches : List WatchConfig) : Wild where
  state := Watcher.start fs watches
  isOpen := true

def world (s : Wild) (fs : FsTree String) (watch : ℕ → Option Path)
    (queue late : List Event) : Option Wild :=
  if (queue ++ late).all Event.isOfEntry then
    some { s with
      state := { s.state with
        fs := fs, watch := watch, queue := queue, late := late } }
  else none

/-- The dictionaries stay as they are. -/
def raised (s : Wild) : Option Wild :=
  if s.isOpen ∧ s.state.entered = false then
    some ⟨{ s.state with calls := [] }, false⟩
  else none

def exit (s : Wild) : Option Wild :=
  if s.isOpen ∧ s.state.entered ∧ s.state.calls = [] then
    some ⟨{ s.state with
      dirToRoot := fun _ => none
      dirToConfig := fun _ => none
      synthetic := [] }, false⟩
  else none

def reopen (watches : List WatchConfig) (s : Wild) : Option Wild :=
  if s.isOpen then none
  else some ⟨{ s.state with
    watch := fun _ => none
    queue := []
    late := []
    calls := watches.map fun wc => .enter .addRecursive wc.path wc
    entered := false }, true⟩

def step (fnmatchcase : String → String → Bool) (watches : List WatchConfig)
    (s : Wild) : WildAction → Option (Wild × List Obs)
  | .act action =>
      if s.isOpen then
        (Watcher.step fnmatchcase s.state action).map fun result =>
          ({ s with state := result.1 }, result.2)
      else none
  | .world fs watch queue late => (s.world fs watch queue late).map (·, [])
  | .raised => s.raised.map (·, [])
  | .exit => s.exit.map (·, [])
  | .reopen => (s.reopen watches).map (·, [])

end Wild

section Steps

variable {fnmatchcase : String → String → Bool} {watches : List WatchConfig}
variable {s after : State} {out : List Obs} {action : Action}

/-! ## Events without a name -/

/-- All that waits in the queue, or will, is of an entry or an inode. -/
def State.OfEntry (s : State) : Prop :=
  ∀ event, event ∈ s.queue ∨ event ∈ s.late → event.isOfEntry

theorem isOfEntry_gone {ino : ℕ} {event : Event} (hmem : event ∈ gone ino) :
    event.isOfEntry := by
  rcases List.mem_pair.mp hmem with rfl | rfl <;> rfl

theorem State.OfEntry.change (h : s.OfEntry) {fs : FsTree String}
    {events last : List Event} (hevents : ∀ event ∈ events, event.isOfEntry)
    (hlast : ∀ event ∈ last, event.isOfEntry) :
    (s.change fs events last).OfEntry := by
  intro event hmem
  rw [change_queue, change_late, List.mem_append, List.mem_append] at hmem
  rcases hmem with (hmem | hmem) | (hmem | hmem)
  · exact h event (.inl hmem)
  · exact hevents event (mem_reported_iff.mp hmem).1
  · exact h event (.inr hmem)
  · exact hlast event (mem_reported_iff.mp hmem).1

theorem State.OfEntry.next (h : s.OfEntry)
    (hmove : Move fnmatchcase s action after out) : after.OfEntry := by
  have hread : ∀ {event rest}, s.queue = event :: rest →
      ∀ other, other ∈ rest ∨ other ∈ s.late → other.isOfEntry := by
    intro event rest hqueue other hmem
    refine h other (hmem.imp_left fun hmem => ?_)
    rw [hqueue]
    exact List.mem_cons_of_mem _ hmem
  cases hmove with
  | insert => exact h.change (by simp [Event.isOfEntry]) (by simp)
  | remove =>
      exact h.change (by simp [Event.isOfEntry]) fun _ hmem =>
        isOfEntry_gone hmem
  | close => exact h.change (by simp [Event.isOfEntry]) (by simp)
  | rename =>
      refine h.change ?_ fun event hmem => ?_
      · simp [renameEvents, Event.isOfEntry, Mask.dropsWatch]
      · obtain ⟨_, -, hmem⟩ := mem_replaced hmem
        exact isOfEntry_gone hmem
  | @release _ event _ hlate =>
      rintro other (hmem | hmem)
      · rcases List.mem_append.mp hmem with hmem | hmem
        · exact h other (.inl hmem)
        · exact h other (.inr (List.mem_singleton.mp hmem ▸ hlate))
      · exact h other (.inr (List.mem_of_mem_erase hmem))
  | takeLost _ _ _ hqueue | takeDrop _ _ _ hqueue | takeDir _ _ _ hqueue
  | takeSilent _ _ _ hqueue | takeFile _ _ _ hqueue => exact hread hqueue
  | _ => exact h

/-! ## Runs in the world without rules -/

theorem bookkept_of_calls (h : Bookkept fnmatchcase watches s)
    {calls : List Call} (hafter : after.calls = calls)
    (hroot : after.dirToRoot = s.dirToRoot)
    (hconfig : after.dirToConfig = s.dirToConfig)
    (hsynthetic : after.synthetic = s.synthetic)
    (hshape : ∀ call ∈ calls.tail, call.isWaiting)
    (hcalls : ∀ call ∈ calls, call.Holds fnmatchcase watches s.dirToConfig) :
    Bookkept fnmatchcase watches after where
  root := by rw [hroot, hconfig]; exact h.root
  config := by rw [hconfig]; exact h.config
  shape := by rw [hafter]; exact hshape
  calls := by rw [hafter, hconfig]; exact hcalls
  synthetic := by rw [hconfig, hsynthetic]; exact h.synthetic

theorem bookkept_of_wild {s after : Wild} {action : WildAction}
    (h : Bookkept fnmatchcase watches s.state ∧ s.state.OfEntry)
    (hstep : s.step fnmatchcase watches action = some (after, out)) :
    Bookkept fnmatchcase watches after.state ∧ after.state.OfEntry := by
  obtain ⟨hbook, hevents⟩ := h
  cases action with
  | act action =>
      simp only [Wild.step] at hstep
      split at hstep
      · obtain ⟨⟨next, obs⟩, hfound, heq⟩ := Option.map_eq_some_iff.mp hstep
        cases heq
        have hmove := move_of_step hfound
        exact ⟨hbook.next hmove, hevents.next hmove⟩
      · cases hstep
  | world fs watch queue late =>
      obtain ⟨next, hfound, heq⟩ := Option.map_eq_some_iff.mp hstep
      cases heq
      simp only [Wild.world] at hfound
      split at hfound <;> cases hfound
      rename_i hall
      exact ⟨hbook.of_eq rfl rfl rfl (List.Subset.refl _), fun event hmem =>
        List.all_eq_true.mp hall event (List.mem_append.mpr hmem)⟩
  | raised =>
      obtain ⟨next, hfound, heq⟩ := Option.map_eq_some_iff.mp hstep
      cases heq
      simp only [Wild.raised] at hfound
      split at hfound <;> cases hfound
      exact ⟨bookkept_of_calls hbook rfl rfl rfl rfl (by simp) (by simp),
        hevents⟩
  | exit =>
      obtain ⟨next, hfound, heq⟩ := Option.map_eq_some_iff.mp hstep
      cases heq
      simp only [Wild.exit] at hfound
      split at hfound <;> cases hfound
      rename_i hguard
      refine ⟨⟨fun _ => rfl, nofun, ?_, ?_, by simp⟩, hevents⟩
      · simp [hguard.2.2]
      · simp [hguard.2.2]
  | reopen =>
      obtain ⟨next, hfound, heq⟩ := Option.map_eq_some_iff.mp hstep
      cases heq
      simp only [Wild.reopen] at hfound
      split at hfound <;> cases hfound
      have hstart : Bookkept fnmatchcase watches (start s.state.fs watches) :=
        bookkept_start _
      refine ⟨bookkept_of_calls hbook rfl rfl rfl rfl hstart.shape ?_,
        by simp [State.OfEntry]⟩
      intro call hcall
      obtain ⟨wc, hwc, rfl⟩ := List.mem_map.mp hcall
      exact ⟨hwc, .inl rfl⟩

theorem bookkept_of_wild_reaches {fs : FsTree String} {trace : List Obs}
    {s : Wild} (hrun : Reaches (Wild.step fnmatchcase watches)
      (fun _ _ => True) (.start fs watches) trace s) :
    Bookkept fnmatchcase watches s.state ∧ s.state.OfEntry :=
  hrun.invariant
    (fun _ s => Bookkept fnmatchcase watches s.state ∧ s.state.OfEntry)
    ⟨bookkept_start fs, by simp [State.OfEntry, Wild.start, start]⟩
    fun h _ hstep => bookkept_of_wild h hstep

/-! ## Emitted events -/

/-- The event is about an entry of a registered directory; or it comes from
the kernel and is about a written file that is itself registered. -/
def Founded (fnmatchcase : String → String → Bool) (s : State)
    (action : WildAction) (maskName : String) (path root : Path) : Prop :=
  ∃ dir wc, s.dirToConfig dir = some wc ∧ s.dirToRoot dir = some root ∧
    root = wc.path ∧
    ((∃ name, path = dir ++ [name] ∧ (action = .act .emit →
        isIgnored fnmatchcase path wc.path wc.ignore = false)) ∨
      (path = dir ∧ action = .act .take ∧ maskName = "IN_CLOSE_WRITE"))

theorem Bookkept.founded (h : Bookkept fnmatchcase watches s)
    (hevents : s.OfEntry) (hmove : Move fnmatchcase s action after out)
    {maskName : String} {path root : Path}
    (hout : .emitted maskName path root ∈ out) :
    Founded fnmatchcase s (.act action) maskName path root := by
  cases hmove with
  | rename =>
      rcases List.mem_cons.mp hout with heq | hout
      · cases heq
      split at hout
      · obtain ⟨_, -, heq⟩ := List.mem_map.mp hout
        cases heq
      · simp at hout
  | @takeFile event rest watchDir watchRoot name _ _ _ hqueue _ _ hroot hmask =>
      obtain ⟨rfl, rfl, rfl⟩ : maskName = name ∧
          path = watchDir ++ event.name.toList ∧ root = watchRoot := by
        simpa using hout
      have hconfig := h.root watchDir
      rw [hroot] at hconfig
      obtain ⟨wc, hwc, rfl⟩ := Option.map_eq_some_iff.mp hconfig.symm
      refine ⟨watchDir, wc, hwc, hroot, rfl, ?_⟩
      cases hname : event.name with
      | some name =>
          refine .inl ⟨name, rfl, ?_⟩
          intro hemit
          cases hemit
      | none =>
          refine .inr ⟨List.append_nil _, rfl, ?_⟩
          have hentry := hevents event (.inl (by simp [hqueue]))
          cases hkind : event.mask <;>
            simp [Event.isOfEntry, hname, hkind, Mask.dropsWatch] at hentry <;>
            simp [hkind, maskToName] at hmask
          exact hmask.symm
  | @emit name other watchRoot rest _ _ hsynthetic =>
      obtain ⟨rfl, rfl, rfl⟩ : maskName = name ∧ path = other ∧
          root = watchRoot := by
        simpa using hout
      obtain ⟨dir, entry, wc, heq, hconfig, hignored⟩ :=
        h.synthetic (maskName, path, root) (by simp [hsynthetic])
      obtain ⟨rfl, rfl, rfl⟩ : maskName = "IN_MOVED_TO" ∧
          path = dir ++ [entry] ∧ root = wc.path := by
        simpa using heq
      refine ⟨dir, wc, hconfig, ?_, rfl, .inl ⟨entry, rfl, fun _ => hignored⟩⟩
      rw [h.root, hconfig, Option.map_some]
  | _ => simp at hout

/-- Only the watcher's own steps emit. -/
theorem move_of_emitted {s after : Wild} {action : WildAction}
    (hstep : s.step fnmatchcase watches action = some (after, out))
    {maskName : String} {path root : Path}
    (hout : .emitted maskName path root ∈ out) :
    ∃ own, action = .act own ∧
      Move fnmatchcase s.state own after.state out := by
  cases action with
  | act own =>
      simp only [Wild.step] at hstep
      split at hstep
      · obtain ⟨⟨next, obs⟩, hfound, heq⟩ := Option.map_eq_some_iff.mp hstep
        cases heq
        exact ⟨own, rfl, move_of_step hfound⟩
      · cases hstep
  | world | raised | exit | reopen =>
      obtain ⟨next, -, heq⟩ := Option.map_eq_some_iff.mp hstep
      cases heq
      cases hout

end Steps

/-- In every state of every run, whatever becomes of the tree, the watches and
the events, the two dictionaries have the same keys, a registered directory is
recorded with the root of its watch and lies in the part of the tree that this
watch covers, and whatever the watcher emits next is about an entry of a
registered directory or about a written file at a registered path; a synthetic
event is not about an ignored entry.  So nothing is reported from below a
directory that is ignored. -/
theorem ignored_directories_stay_silent
    {fnmatchcase : String → String → Bool} {watches : List WatchConfig}
    {fs : FsTree String} {trace : List Obs} {s : Wild}
    (hrun : Reaches (Wild.step fnmatchcase watches) (fun _ _ => True)
      (.start fs watches) trace s) :
    (∀ dir, s.state.dirToRoot dir = none ↔ s.state.dirToConfig dir = none) ∧
    (∀ dir wc, s.state.dirToConfig dir = some wc → wc ∈ watches ∧
      s.state.dirToRoot dir = some wc.path ∧ ∃ rel, dir = wc.path ++ rel ∧
        ∀ start, start <+: rel → start ≠ [] →
          Filter.matchesAnyGlob fnmatchcase start wc.ignore = false) ∧
    (∀ action after out maskName path root,
      s.step fnmatchcase watches action = some (after, out) →
      .emitted maskName path root ∈ out →
        Founded fnmatchcase s.state action maskName path root ∧
        ∃ wc ∈ watches, root = wc.path ∧ ∃ rel, path = wc.path ++ rel ∧
          ∀ start, start <+: rel → start ≠ [] → start ≠ rel →
            Filter.matchesAnyGlob fnmatchcase start wc.ignore = false) := by
  obtain ⟨h, hevents⟩ := bookkept_of_wild_reaches hrun
  refine ⟨fun dir => h.dirToRoot_eq_none_iff, ?_, ?_⟩
  · intro dir wc hconfig
    obtain ⟨hwc, hcovers⟩ := h.config hconfig
    obtain ⟨rel, rfl⟩ := exists_rel_of_covers hcovers
    exact ⟨hwc, by rw [h.root, hconfig, Option.map_some], rel, rfl,
      covers_append_iff.mp hcovers⟩
  · intro action after out maskName path root hstep hout
    obtain ⟨own, rfl, hmove⟩ := move_of_emitted hstep hout
    have hfounded := h.founded hevents hmove hout
    refine ⟨hfounded, ?_⟩
    obtain ⟨dir, wc, hconfig, -, hroot, hpath⟩ := hfounded
    obtain ⟨hwc, hcovers⟩ := h.config hconfig
    obtain ⟨rel, rfl⟩ := exists_rel_of_covers hcovers
    rw [covers_append_iff] at hcovers
    refine ⟨wc, hwc, hroot, ?_⟩
    rcases hpath with ⟨name, rfl, -⟩ | ⟨rfl, -⟩
    · refine ⟨rel ++ [name], by rw [List.append_assoc], ?_⟩
      intro start hstart hne hproper
      rcases List.prefix_concat_iff.mp hstart with rfl | hstart
      · exact absurd rfl hproper
      · exact hcovers start hstart hne
    · exact ⟨rel, rfl, fun start hstart hne _ => hcovers start hstart hne⟩

section Samples

def stagingWatch : WatchConfig where
  path := ["/", "srv"]
  ignore := [".~tmp~"]
  bindings := []

/-- The queue overflows, a directory that an ignore glob matches is made and is
not registered, and a file in another one is about to be emitted. -/
theorem ignored_directories_stay_silent_sample : ∃ trace s,
    Reaches (Wild.step (fun component segment => component = segment)
      [stagingWatch]) (fun _ _ => True) (.start sampleTree [stagingWatch]) trace
      s ∧
    s.state.dirToRoot ["/", "srv", ".~tmp~"] = none ∧
    Founded (fun component segment => component = segment) s.state (.act .emit)
      "IN_MOVED_TO" ["/", "srv", "new", "f"] ["/", "srv"] := by
  obtain ⟨trace, s, hrun, hview⟩ := exists_reaches_of_execute
    (Wild.step (fun component segment => component = segment) [stagingWatch])
    (.start sampleTree [stagingWatch]) (fun _ _ => True)
    (fun final => (final.1.state.dirToConfig ["/", "srv", ".~tmp~"],
      (final.1.step (fun component segment => component = segment)
        [stagingWatch] (.act .emit)).map Prod.snd))
    (none, some [.emitted "IN_MOVED_TO" ["/", "srv", "new", "f"]
      ["/", "srv"]])
    ([.work, .work, .work, .scan [], .work, .enter,
      .mkdir ["/", "srv"] "lost"].map WildAction.act ++
      [.world sampleTree (fun ino => if ino = 2 then some ["/", "srv"] else none)
        [] []] ++
      [.mkdir ["/", "srv"] ".~tmp~", .mkdir ["/", "srv"] "new",
      .create ["/", "srv", "new"] "f", .take, .work, .take, .work, .work,
      .work, .scan [("f", false)], .work, .work].map WildAction.act)
    (by decide +kernel)
  simp only [Prod.mk.injEq] at hview
  obtain ⟨hnone, hemit⟩ := hview
  obtain ⟨⟨after, out⟩, hstep, rfl⟩ := Option.map_eq_some_iff.mp hemit
  obtain ⟨hkeys, -, hemitted⟩ := ignored_directories_stay_silent hrun
  exact ⟨trace, s, hrun, (hkeys _).mpr hnone,
    (hemitted (.act .emit) after _ _ _ _ hstep (List.mem_singleton_self _)).1⟩

/-- The root of a watch is replaced by a file after `is_dir` and before
`add_watch`; a write of the file is reported, though no run registers the
directory in which it is. -/
theorem replaced_root_is_reported :
    (∃ trace s, Reaches (Wild.step (fun _ _ => false) [sampleWatch])
      (fun _ _ => True) (.start sampleTree [sampleWatch]) trace s ∧
      .emitted "IN_CLOSE_WRITE" ["/", "srv"] ["/", "srv"] ∈ trace) ∧
    ∀ trace s, Reaches (Wild.step (fun _ _ => false) [sampleWatch])
      (fun _ _ => True) (.start sampleTree [sampleWatch]) trace s →
        s.state.dirToConfig ["/"] = none := by
  constructor
  · obtain ⟨trace, s, hrun, hview⟩ := exists_reaches_of_execute
      (Wild.step (fun _ _ => false) [sampleWatch])
      (.start sampleTree [sampleWatch]) (fun _ _ => True) Prod.snd
      [.removed ["/", "srv"], .entered, .ready ["/", "srv"],
        .emitted "IN_CLOSE_WRITE" ["/", "srv"] ["/", "srv"]]
      ([.work, .rmdir ["/"] "srv", .create ["/"] "srv", .work, .work, .work,
        .enter, .close ["/"] "srv", .take].map WildAction.act)
      (by decide +kernel)
    obtain rfl : trace = _ := hview
    exact ⟨_, s, hrun, by simp⟩
  · intro trace s hrun
    rw [Option.eq_none_iff_forall_ne_some]
    intro wc hconfig
    obtain ⟨hwc, hcovers⟩ := (bookkept_of_wild_reaches hrun).1.config hconfig
    rw [List.mem_singleton.mp hwc] at hcovers
    revert hcovers
    decide

end Samples

end MirrorMirage.Watcher
