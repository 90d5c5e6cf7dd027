import Mathlib.Data.List.TakeWhile
import MirrorMirage.Watcher.Frames

/-!
# The paths of emitted events

A watch follows its inode, the watcher goes on calling it by the path of its
`add_watch`.  Beside the machine goes a record that the program does not have:
for each event in the queue the path at which the operation took place.
-/

namespace MirrorMirage.Watcher

open Function (update)
open MirrorMirage.FileTree MirrorMirage.Run

/-! ## The machine with its record -/

/-- `log` has the events of the queue, each with the path it is about. -/
structure Logged where
  state : State
  log : List (Event × Path)

/-- The path that the event of an inode is about. -/
def State.origin (s : State) (event : Event) : Path :=
  (s.fs.pathOf event.ino).getD [] ++ event.name.toList

namespace Logged

variable (s : Logged)

/-- The events that an action puts into the queue are about paths of the tree
before it. -/
def logAfter (after : State) : Action → List (Event × Path)
  | .take => s.log.tail
  | _ => s.log ++ (after.queue.drop s.state.queue.length).map fun event =>
      (event, s.state.origin event)

/-- What is observed when an event is read comes with the path it is about. -/
def step (fnmatchcase : String → String → Bool) (action : Action) :
    Option (Logged × List (Obs × Option Path)) :=
  (Watcher.step fnmatchcase s.state action).map fun result =>
    (⟨result.1, s.logAfter result.1 action⟩, result.2.map fun obs =>
      (obs, if action = .take then s.log.head?.map Prod.snd else none))

def start (fs : FsTree String) (watches : List WatchConfig) : Logged where
  state := Watcher.start fs watches
  log := []

end Logged

/-- The record changes nothing. -/
theorem exists_logged_of_reaches {fnmatchcase : String → String → Bool}
    {fs : FsTree String} {watches : List WatchConfig} {trace : List Obs}
    {s : State} (hrun : Reaches (step fnmatchcase) (fun _ _ => True)
      (start fs watches) trace s) :
    ∃ logged traceLogged, Reaches (Logged.step · fnmatchcase ·)
      (fun _ _ => True) (Logged.start fs watches) traceLogged logged ∧
      logged.state = s ∧ traceLogged.map Prod.fst = trace := by
  induction hrun with
  | refl => exact ⟨_, [], .refl, rfl, rfl⟩
  | @snoc trace state after action out _ _ hstep ih =>
      obtain ⟨logged, traceLogged, hlogged, rfl, rfl⟩ := ih
      refine ⟨_, _, hlogged.snoc trivial (Option.map_eq_some_iff.mpr
        ⟨_, hstep, rfl⟩), rfl, ?_⟩
      simp [Function.comp_def]

/-! ## Wrong names -/

/-- The event that unregisters a directory which has been renamed. -/
def movedSelf (ino : ℕ) : Event := ⟨ino, .moveSelf, false, none⟩

/-- The event is emitted if its directory is registered. -/
def Event.isReported (event : Event) : Bool :=
  !event.isDir && (maskToName event.mask).isSome

/-- The action renames a directory and, below it, an inode that is watched and
registered under the path it has. -/
def State.uproots (s : State) : Action → Bool
  | .rename dir name _ _ => (List.range s.fs.nextIno).any fun ino =>
      (s.watch ino).any fun path =>
        dir ++ [name] <+: path && path ≠ dir ++ [name] &&
          (s.fs.node path).any (·.ino = ino) && s.keyed path
  | _ => false

/-- Another inode is watched under the path but has moved away, and its
`IN_MOVE_SELF` has been read. -/
def State.outlived (s : State) (ino : ℕ) (path : Path) : Bool :=
  (List.range s.fs.nextIno).any fun other =>
    other ≠ ino && s.watch other = some path &&
      (s.fs.pathOf other).isSome && movedSelf other ∉ s.queue

/-- An event that waits in the queue would become one of the path, though it
is about another. -/
def Logged.relabels (s : Logged) (ino : ℕ) (path : Path) : Bool :=
  s.log.any fun entry => entry.1.isReported &&
    (entry.1.ino = ino || s.state.watch entry.1.ino = some path) &&
      entry.2 ≠ path ++ entry.1.name.toList

/-- A registered path comes to name what is not there. -/
def Logged.misnames (s : Logged) : Action → Bool
  | .work =>
      match s.state.calls with
      | .addWatch _ dir _ :: _ => (s.state.fs.node dir).any fun entry =>
          s.state.outlived entry.ino dir || s.relabels entry.ino dir
      | _ => false
  | action => s.state.uproots action

/-- Where a registered inode is not at its path, and where an event is not
about the path by which it will be called, the registration ends before. -/
structure Truthful (s : Logged) : Prop where
  queue : s.log.map Prod.fst = s.state.queue
  late : ∀ event ∈ s.state.late, event.mask.dropsWatch
  bound : ∀ {ino path}, s.state.watch ino = some path →
    ino < s.state.fs.nextIno
  home : ∀ {ino path other}, s.state.watch ino = some path →
    s.state.keyed path → s.state.Alive ino other →
      other = path ∨ movedSelf ino ∈ s.state.queue
  events : ∀ {event origin path},
    (event, origin) ∈ s.log.takeWhile (·.1 ≠ movedSelf event.ino) →
      event.isReported → s.state.watch event.ino = some path →
      s.state.keyed path → path ++ event.name.toList = origin

section Steps

variable {fnmatchcase : String → String → Bool}
variable {s : State} {after : State} {action : Action} {out : List Obs}

/-! ## Inodes and the queue -/

/-- What is alive was there before, or has come along with a rename. -/
theorem alive_of_move {ino : ℕ} {path : Path}
    (hmove : Move fnmatchcase s action after out) (hlt : ino < s.fs.nextIno)
    (h : after.Alive ino path) : s.Alive ino path ∨
      ∃ dir name dir' name' was, action = .rename dir name dir' name' ∧
        s.Alive ino was ∧ dir ++ [name] <+: was := by
  obtain ⟨kind, hnode⟩ := h
  cases hmove with
  | @insert _ dir name isDir _ _ _ hcan =>
      left
      change update s.fs.node (dir ++ [name]) _ path = _ at hnode
      by_cases heq : path = dir ++ [name]
      · rw [heq, Function.update_self] at hnode
        cases hnode
        exact absurd hlt (lt_irrefl _)
      · exact ⟨kind, by rwa [Function.update_of_ne heq] at hnode⟩
  | @remove _ dir name =>
      left
      change update s.fs.node (dir ++ [name]) none path = _ at hnode
      by_cases heq : path = dir ++ [name]
      · simp [heq] at hnode
      · exact ⟨kind, by rwa [Function.update_of_ne heq] at hnode⟩
  | @rename dir dir' name name' =>
      rcases FsTree.movedNode_eq_some hnode with ⟨rel, -, hwas⟩ | ⟨-, -, hwas⟩
      · exact .inr ⟨dir, name, dir', name', _, rfl, ⟨kind, hwas⟩,
          List.prefix_append _ _⟩
      · exact .inl ⟨kind, hwas⟩
  | _ => exact .inl ⟨kind, hnode⟩

theorem isReported_of_dropsWatch {event : Event} (h : event.mask.dropsWatch) :
    event.isReported = false := by
  revert h
  cases hmask : event.mask <;>
    simp [Mask.dropsWatch, Event.isReported, maskToName, hmask]

/-- The events of a rename are those of three inodes that are there. -/
theorem rename_sources {dir dir' : Path} {name name' : String}
    {parent entry parent' : Node} (hparent : s.fs.node dir = some parent)
    (hentry : s.fs.node (dir ++ [name]) = some entry)
    (hparent' : s.fs.node dir' = some parent') {event : Event}
    (hevent : event ∈ renameEvents parent entry parent' name name') :
    ∃ path, s.Alive event.ino path := by
  rcases mem_renameEvents hevent with ⟨hino, -⟩ | ⟨hino, -⟩ | ⟨hino, -⟩
  · exact ⟨dir, parent.isDir, hino ▸ hparent⟩
  · exact ⟨dir', parent'.isDir, hino ▸ hparent'⟩
  · exact ⟨dir ++ [name], entry.isDir, hino ▸ hentry⟩

/-- The late events drop watches. -/
theorem late_of_move (hmove : Move fnmatchcase s action after out)
    (hlate : ∀ event ∈ s.late, event.mask.dropsWatch) {event : Event}
    (hmem : event ∈ after.late) : event.mask.dropsWatch := by
  have hgone : ∀ {ino}, event ∈ gone ino → event.mask.dropsWatch := by
    intro ino hmem
    rcases List.mem_pair.mp hmem with rfl | rfl <;> rfl
  cases hmove with
  | insert | close =>
      exact hlate event (by simpa [State.reported] using hmem)
  | remove =>
      rcases List.mem_append.mp hmem with hmem | hmem
      · exact hlate event hmem
      · exact hgone (mem_reported_iff.mp hmem).1
  | rename =>
      rcases List.mem_append.mp hmem with hmem | hmem
      · exact hlate event hmem
      · obtain ⟨_, -, hmem⟩ := mem_replaced (mem_reported_iff.mp hmem).1
        exact hgone hmem
  | release => exact hlate event (List.mem_of_mem_erase hmem)
  | _ => exact hlate event hmem

/-- What an action does to the queue. -/
theorem queue_of_move (hmove : Move fnmatchcase s action after out)
    (hlate : ∀ event ∈ s.late, event.mask.dropsWatch) :
    (action ≠ .take ∧ ∃ events, after.queue = s.queue ++ events ∧
      ∀ event ∈ events, event.isReported →
        ∃ path, s.Alive event.ino path) ∨
    (action = .take ∧ ∃ event rest, s.queue = event :: rest ∧
      after.queue = rest ∧ ∀ path, event.mask.dropsWatch →
        s.watch event.ino = some path → after.keyed path = false) := by
  cases hmove with
  | @insert action dir name isDir parent haction hparent hcan =>
      refine .inl ⟨?_, _, rfl, fun event hevent _ => ?_⟩
      · rintro rfl
        rcases haction with ⟨haction, -⟩ | ⟨haction, -⟩ <;> cases haction
      · rw [List.mem_singleton.mp (mem_reported_iff.mp hevent).1]
        exact ⟨dir, parent.isDir, hparent⟩
  | @remove action dir name isDir parent entry haction hparent hentry hleaf =>
      refine .inl ⟨?_, _, rfl, fun event hevent _ => ?_⟩
      · rintro rfl
        rcases haction with haction | haction <;> cases haction
      · rw [List.mem_singleton.mp (mem_reported_iff.mp hevent).1]
        exact ⟨dir, parent.isDir, hparent⟩
  | @close dir name parent entry hparent hentry =>
      refine .inl ⟨by simp, _, rfl, fun event hevent _ => ?_⟩
      rcases List.mem_pair.mp (mem_reported_iff.mp hevent).1 with rfl | rfl
      · exact ⟨dir, parent.isDir, hparent⟩
      · exact ⟨dir ++ [name], entry.isDir, hentry⟩
  | rename hparent hentry hparent' =>
      exact .inl ⟨by simp, _, rfl, fun event hevent _ =>
        rename_sources hparent hentry hparent' (mem_reported_iff.mp hevent).1⟩
  | @release _ event _ hmem =>
      refine .inl ⟨by simp, [event], rfl, fun found hfound hreported => ?_⟩
      rw [List.mem_singleton.mp hfound,
        isReported_of_dropsWatch (hlate event hmem)] at hreported
      cases hreported
  | takeLost _ _ _ hqueue hwatch =>
      refine .inr ⟨rfl, _, _, hqueue, rfl, fun path _ hpath => ?_⟩
      simp [hwatch] at hpath
  | takeDrop _ hcalls _ hqueue hwatch =>
      refine .inr ⟨rfl, _, _, hqueue, rfl, fun path _ hpath => ?_⟩
      obtain rfl := Option.some.inj (hwatch.symm.trans hpath)
      exact not_keyed_of_forget hcalls
  | takeDir _ _ _ hqueue _ hmask =>
      refine .inr ⟨rfl, _, _, hqueue, rfl, fun path hdrops _ => ?_⟩
      simp [hmask, Mask.dropsWatch] at hdrops
  | takeSilent _ _ _ hqueue _ hkeeps =>
      refine .inr ⟨rfl, _, _, hqueue, rfl, fun path hdrops _ => ?_⟩
      simp [hkeeps] at hdrops
  | @takeFile event _ _ _ _ _ _ _ hqueue _ _ _ hmask =>
      refine .inr ⟨rfl, _, _, hqueue, rfl, fun path hdrops _ => ?_⟩
      cases heq : event.mask <;>
        simp [heq, Mask.dropsWatch, maskToName] at hdrops hmask
  | _ => exact .inl ⟨by simp, [], (List.append_nil _).symm, by simp⟩

theorem movedSelf_of_rename {ino : ℕ} {dir dir' : Path} {name name' : String}
    (hmove : Move fnmatchcase s (.rename dir name dir' name') after out)
    (halive : s.Alive ino (dir ++ [name])) (hwatch : s.watch ino ≠ none) :
    movedSelf ino ∈ after.queue := by
  obtain ⟨kind, hnode⟩ := halive
  cases hmove with
  | insert haction | remove haction => simp at haction
  | rename _ hentry =>
      obtain rfl := Option.some.inj (hnode.symm.trans hentry)
      refine List.mem_append_right _ (mem_reported_iff.mpr ⟨?_, hwatch⟩)
      simp [renameEvents, movedSelf]

theorem fs_of_work (hmove : Move fnmatchcase s .work after out) :
    after.fs = s.fs := by
  cases hmove with
  | insert haction | remove haction => simp at haction
  | _ => rfl

theorem queue_of_work (hmove : Move fnmatchcase s .work after out) :
    after.queue = s.queue := by
  cases hmove with
  | insert haction | remove haction => simp at haction
  | _ => rfl

end Steps

/-! ## One step -/

section Step

variable {fnmatchcase : String → String → Bool}
variable {s : Logged} {after : State} {action : Action} {out : List Obs}
variable {ino : ℕ} {dir path : Path}

theorem logAfter_of_append (haction : action ≠ .take) {events : List Event}
    (hqueue : after.queue = s.state.queue ++ events) :
    s.logAfter after action =
      s.log ++ events.map fun event => (event, s.state.origin event) := by
  cases action <;> simp_all [Logged.logAfter]

theorem mem_takeWhile_append {α : Type*} {p : α → Bool} {first more : List α}
    {a : α} (h : a ∈ (first ++ more).takeWhile p) :
    a ∈ first.takeWhile p ∨ (a ∈ more ∧ ∀ b ∈ first, p b) := by
  rw [List.takeWhile_append] at h
  split at h
  · rename_i hlength
    have hall : first.takeWhile p = first :=
      (List.takeWhile_prefix p).eq_of_length hlength
    rcases List.mem_append.mp h with h | h
    · exact .inl (hall.symm ▸ h)
    · exact .inr ⟨List.takeWhile_subset _ h, List.takeWhile_eq_self_iff.mp hall⟩
  · exact .inl h

theorem addWatch_of_not_misnames {method : Method} {wc : WatchConfig}
    {rest : List Call} {entry : Node} (hnames : s.misnames .work = false)
    (hcalls : s.state.calls = .addWatch method dir wc :: rest)
    (hnode : s.state.fs.node dir = some entry) :
    s.state.outlived entry.ino dir = false ∧
      s.relabels entry.ino dir = false := by
  simpa [Logged.misnames, hcalls, hnode] using hnames

theorem Truthful.not_uprooted (h : Truthful s) {name name' : String}
    {dir' : Path} (hnames : s.misnames (.rename dir name dir' name') = false)
    (hwatch : s.state.watch ino = some path) (hkeyed : s.state.keyed path)
    (halive : s.state.Alive ino path) (hbelow : dir ++ [name] <+: path) :
    path = dir ++ [name] := by
  obtain ⟨kind, hnode⟩ := halive
  by_contra hne
  change (List.range s.state.fs.nextIno).any _ = false at hnames
  rw [List.any_eq_false] at hnames
  have hnot := hnames ino (List.mem_range.mpr (h.bound hwatch))
  simp [hwatch, hbelow, hne, hnode, hkeyed] at hnot

theorem Truthful.movedSelf_of_not_outlived (h : Truthful s) {entry : ℕ}
    {other : Path} (houtlived : s.state.outlived entry path = false)
    (hne : ino ≠ entry) (hwatch : s.state.watch ino = some path)
    (halive : s.state.Alive ino other) : movedSelf ino ∈ s.state.queue := by
  by_contra hnone
  rw [State.outlived, List.any_eq_false] at houtlived
  have hnot := houtlived ino (List.mem_range.mpr (h.bound hwatch))
  have hpath := s.state.fs.pathOf_eq_some_iff.mpr halive
  simp [hne, hwatch, hpath, hnone] at hnot

/-- What ends a registration stays in the queue as long as that lasts. -/
theorem Truthful.movedSelf_of_move (h : Truthful s)
    (hmove : Move fnmatchcase s.state action after out)
    (hwatch : s.state.watch ino = some path) (hkeyed : after.keyed path)
    (hmem : movedSelf ino ∈ s.state.queue) : movedSelf ino ∈ after.queue := by
  rcases queue_of_move hmove h.late with ⟨-, events, hqueue, -⟩ |
    ⟨-, event, rest, hqueue, hrest, hends⟩
  · exact hqueue ▸ List.mem_append_left _ hmem
  · rw [hqueue] at hmem
    rcases List.mem_cons.mp hmem with rfl | hmem
    · simp [hends path rfl hwatch] at hkeyed
    · rwa [hrest]

theorem Truthful.home_of_move (h : Truthful s)
    (hnames : s.misnames action = false)
    (hmove : Move fnmatchcase s.state action after out) {other : Path}
    (hwatch : after.watch ino = some path) (hkeyed : after.keyed path)
    (halive : after.Alive ino other) :
    other = path ∨ movedSelf ino ∈ after.queue := by
  have hsame : ∀ {entry : Node}, action = .work →
      s.state.fs.node path = some entry → entry.ino = ino → other = path := by
    rintro entry rfl hnode rfl
    exact halive.path_eq ⟨entry.isDir, by rwa [fs_of_work hmove]⟩
  rcases watch_before_of_move hmove hwatch with hwas | ⟨_, _, _, entry, hwork,
    -, hnode, hino⟩
  · rcases keyed_of_move hmove hkeyed with hkeyed' | ⟨_, _, _, entry, hwork,
      hcalls, hnode, -⟩
    · rcases alive_of_move hmove (h.bound hwas) halive with hbefore | ⟨dir, name,
        dir', name', was, rfl, hbefore, hbelow⟩
      · exact (h.home hwas hkeyed' hbefore).imp_right
          (h.movedSelf_of_move hmove hwas hkeyed)
      · rcases h.home hwas hkeyed' hbefore with rfl | hqueue
        · have hself := h.not_uprooted hnames hwas hkeyed' hbefore hbelow
          right
          exact movedSelf_of_rename hmove (hself ▸ hbefore) (by simp [hwas])
        · exact .inr (h.movedSelf_of_move hmove hwas hkeyed hqueue)
    · by_cases heq : ino = entry.ino
      · exact .inl (hsame hwork hnode heq.symm)
      · subst hwork
        have houtlived := (addWatch_of_not_misnames hnames hcalls hnode).1
        have hbefore : s.state.Alive ino other := by
          obtain ⟨kind, hother⟩ := halive
          exact ⟨kind, by rwa [fs_of_work hmove] at hother⟩
        exact .inr (h.movedSelf_of_move hmove hwas hkeyed
          (h.movedSelf_of_not_outlived houtlived heq hwas hbefore))
  · exact .inl (hsame hwork hnode hino)

/-- An operation reports of inodes where they are. -/
theorem Truthful.reported (h : Truthful s) {event : Event} {origin : Path}
    {events : List Event}
    (hsources : ∀ event ∈ events, event.isReported →
      ∃ path, s.state.Alive event.ino path)
    (hmem : (event, origin) ∈ events.map fun event =>
      (event, s.state.origin event)) (hreported : event.isReported)
    (hqueue : movedSelf event.ino ∉ s.state.queue)
    (hwatch : s.state.watch event.ino = some path)
    (hkeyed : s.state.keyed path) : path ++ event.name.toList = origin := by
  obtain ⟨_, hevent, heq⟩ := List.mem_map.mp hmem
  cases heq
  obtain ⟨other, halive⟩ := hsources event hevent hreported
  have hpath : other = path :=
    (h.home hwatch hkeyed halive).resolve_right hqueue
  have horigin := s.state.fs.pathOf_eq_some_iff.mpr halive
  rw [State.origin, horigin, hpath, Option.getD_some]

/-- An `add_watch` lets no event wait that is about another path. -/
theorem Truthful.kept (h : Truthful s) (hnames : s.misnames action = false)
    (hmove : Move fnmatchcase s.state action after out) {event : Event}
    {origin : Path}
    (hmem : (event, origin) ∈ s.log.takeWhile (·.1 ≠ movedSelf event.ino))
    (hreported : event.isReported)
    (hwatch : after.watch event.ino = some path) (hkeyed : after.keyed path) :
    path ++ event.name.toList = origin := by
  have hnew : ∀ {method wc rest} {entry : Node}, action = .work →
      s.state.calls = .addWatch method path wc :: rest →
      s.state.fs.node path = some entry →
      (event.ino = entry.ino ∨ s.state.watch event.ino = some path) →
        path ++ event.name.toList = origin := by
    rintro method wc rest entry rfl hcalls hnode hwas
    have hrelabels := (addWatch_of_not_misnames hnames hcalls hnode).2
    by_contra hne
    rw [Logged.relabels, List.any_eq_false] at hrelabels
    have hnot := hrelabels _ (List.takeWhile_subset _ hmem)
    simp [hreported, hwas, Ne.symm hne] at hnot
  rcases watch_before_of_move hmove hwatch with hwas | ⟨_, _, _, entry, hwork,
    hcalls, hnode, hino⟩
  · rcases keyed_of_move hmove hkeyed with hkeyed' | ⟨_, _, _, entry, hwork,
      hcalls, hnode, -⟩
    · exact h.events hmem hreported hwas hkeyed'
    · exact hnew hwork hcalls hnode (.inr hwas)
  · exact hnew hwork hcalls hnode (.inl hino.symm)

theorem Truthful.events_of_move (h : Truthful s)
    (hnames : s.misnames action = false)
    (hmove : Move fnmatchcase s.state action after out) {event : Event}
    {origin : Path}
    (hmem : (event, origin) ∈
      (s.logAfter after action).takeWhile (·.1 ≠ movedSelf event.ino))
    (hreported : event.isReported)
    (hwatch : after.watch event.ino = some path) (hkeyed : after.keyed path) :
    path ++ event.name.toList = origin := by
  rcases queue_of_move hmove h.late with ⟨haction, events, hqueue, hsources⟩ |
    ⟨rfl, first, rest, hqueue, -, hends⟩
  · rw [logAfter_of_append haction hqueue] at hmem
    rcases mem_takeWhile_append hmem with hold | ⟨hnew, hnone⟩
    · exact h.kept hnames hmove hold hreported hwatch hkeyed
    · have hnot : movedSelf event.ino ∉ s.state.queue := by
        rw [← h.queue]
        intro hmoved
        obtain ⟨entry, hentry, heq⟩ := List.mem_map.mp hmoved
        simpa [heq] using hnone entry hentry
      have hwork : action ≠ .work := by
        rintro rfl
        rw [queue_of_work hmove, List.self_eq_append_right] at hqueue
        simp [hqueue] at hnew
      have hwas : s.state.watch event.ino = some path :=
        (watch_before_of_move hmove hwatch).resolve_right
          fun ⟨_, _, _, _, hwork', _⟩ => hwork hwork'
      have hkeyed' : s.state.keyed path :=
        (keyed_of_move hmove hkeyed).resolve_right
          fun ⟨_, _, _, _, hwork', _⟩ => hwork hwork'
      exact h.reported hsources hnew hreported hnot hwas hkeyed'
  · cases hlog : s.log with
    | nil =>
        have hempty := h.queue
        simp [hlog, hqueue] at hempty
    | cons entry later =>
        have hfirst : entry.1 = first := by
          have hsame := h.queue
          rw [hlog, hqueue] at hsame
          exact (List.cons.inj hsame).1
        rw [Logged.logAfter, hlog, List.tail_cons] at hmem
        by_cases hends' : first = movedSelf event.ino
        · have hwas : s.state.watch first.ino = some path := by
            rcases watch_before_of_move hmove hwatch with hwas | ⟨_, _, _, _,
              htake, -⟩
            · rwa [hends']
            · cases htake
          simp [hends path (by simp [hends', movedSelf, Mask.dropsWatch]) hwas]
            at hkeyed
        · apply h.kept hnames hmove _ hreported hwatch hkeyed
          rw [hlog, List.takeWhile_cons_of_pos (by simpa [hfirst] using hends')]
          exact List.mem_cons_of_mem _ hmem

theorem Truthful.of_move (h : Truthful s) (hnames : s.misnames action = false)
    (hmove : Move fnmatchcase s.state action after out) :
    Truthful ⟨after, s.logAfter after action⟩ where
  queue := by
    rcases queue_of_move hmove h.late with ⟨haction, events, hqueue, -⟩ |
      ⟨rfl, first, rest, hqueue, hrest, -⟩
    · simp [logAfter_of_append haction hqueue, hqueue, h.queue,
        Function.comp_def]
    · rw [Logged.logAfter, List.map_tail, h.queue, hqueue, hrest, List.tail_cons]
  late := fun event hmem => late_of_move hmove h.late hmem
  bound := by
    intro ino path hwatch
    apply lt_of_lt_of_le _ hmove.nextIno_le
    rcases watch_before_of_move hmove hwatch with hwas | ⟨_, _, _, entry, -, -,
      hnode, rfl⟩
    · exact h.bound hwas
    · exact s.state.fs.fresh hnode
  home := fun hwatch hkeyed halive =>
    h.home_of_move hnames hmove hwatch hkeyed halive
  events := fun hmem hreported hwatch hkeyed =>
    h.events_of_move hnames hmove hmem hreported hwatch hkeyed

/-- What is emitted at the reading of an event is what the event is about. -/
theorem Truthful.emitted (h : Truthful s)
    (hmove : Move fnmatchcase s.state .take after out) {maskName : String}
    {root : Path} (hmem : .emitted maskName path root ∈ out) :
    s.log.head?.map Prod.snd = some path := by
  cases hmove with
  | insert haction | remove haction => simp at haction
  | takeLost | takeDrop | takeDir | takeSilent => cases hmem
  | @takeFile event rest watchDir watchRoot _ _ _ _ hqueue hwatch hdir hroot
      hmask =>
      obtain ⟨-, rfl, -⟩ : _ ∧ path = watchDir ++ event.name.toList ∧ _ := by
        simpa using hmem
      cases hlog : s.log with
      | nil =>
          have hempty := h.queue
          simp [hlog, hqueue] at hempty
      | cons entry later =>
          obtain ⟨first, origin⟩ := entry
          obtain rfl : first = event := by
            have hsame := h.queue
            rw [hlog, hqueue] at hsame
            exact (List.cons.inj hsame).1
          have hne : first ≠ movedSelf first.ino := by
            intro heq
            rw [heq] at hmask
            cases hmask
          have hname := h.events
            (by rw [hlog, List.takeWhile_cons_of_pos (by simpa using hne)]
                exact List.mem_cons_self)
            (by simp [Event.isReported, hdir, hmask]) hwatch
            (keyed_iff.mpr (.inl (by simp [hroot])))
          rw [List.head?_cons, Option.map_some, hname]

end Step

/-! ## Every run -/

section Samples

end Samples

end MirrorMirage.Watcher
