import MirrorMirage.Watcher.Directories

/-!
# Overflows of the kernel's queue

An overflow takes a stretch of events out of the queue.  On the `Q_OVERFLOW`
that comes in their place `_iter` only logs, so the queue here does without
it.  What the watcher knows of the directories survives the loss unless a
directory that is not watched yet loses the creation event that would lead the
watcher to it.
-/

namespace MirrorMirage.Watcher

open Function (update)
open MirrorMirage.FileTree MirrorMirage.Run

inductive LossyAction where
  | act (action : Action)
  /-- The kernel drops `count` events, after the first `kept` ones. -/
  | overflow (kept count : ℕ)
  deriving DecidableEq, Repr

/-- The queue without `count` events after the first `kept` ones. -/
def State.lose (s : State) (kept count : ℕ) : State :=
  { s with queue := s.queue.take kept ++ (s.queue.drop kept).drop count }

def lossyStep (fnmatchcase : String → String → Bool) (s : State) :
    LossyAction → Option (State × List Obs)
  | .act action => step fnmatchcase s action
  | .overflow kept count => some (s.lose kept count, [])

/-- The event does not announce a covered directory that is still there and not
watched, or the watcher comes to the directory without it. -/
def canLose (fnmatchcase : String → String → Bool)
    (watches : List WatchConfig) (s : State) (event : Event) : Bool :=
  !(event.mask = .create && event.isDir &&
    event.name.any fun name => (s.watch event.ino).any fun dir =>
      isCovered fnmatchcase watches (dir ++ [name]) &&
        ((s.fs.node (dir ++ [name])).any fun entry =>
          entry.isDir && (s.watch entry.ino).isNone) &&
        !(s.announces (dir ++ [name]) || s.Visited dir (dir ++ [name])))

/-- The actions spare the watched part of the tree, and an overflow drops only
what can be lost. -/
def sparesLossy (fnmatchcase : String → String → Bool)
    (watches : List WatchConfig) (s : State) : LossyAction → Bool
  | .act action => spares fnmatchcase watches s action
  | .overflow kept count =>
      ((s.queue.drop kept).take count).all
        (canLose fnmatchcase watches (s.lose kept count))

/-- The next event unregisters the path of its watch, although a close in
another directory that is watched under the path is still to be read. -/
def State.silences (s : State) : Bool :=
  match s.queue with
  | [] => false
  | event :: rest => event.mask.dropsWatch &&
      (s.watch event.ino).any fun dir => rest.any fun other =>
        other.mask = .closeWrite && other.ino ≠ event.ino &&
          s.watch other.ino = some dir

/-- The actions spare the watched part of the tree, and the closes that wait in
the queue. -/
def sparesCloses (fnmatchcase : String → String → Bool)
    (watches : List WatchConfig) (s : State) (action : Action) : Bool :=
  spares fnmatchcase watches s action && !(action = .take && s.silences)

section Lose

variable {fnmatchcase : String → String → Bool} {watches : List WatchConfig}
variable {s : State} {before lost later : List Event} {path : Path}

/-- A directory whose creation event can be lost will be met. -/
theorem met_of_canLose {ino ino' : ℕ} {name : String}
    (hcovered : Covered fnmatchcase watches (path ++ [name]))
    (hparent : s.fs.node path = some ⟨ino, true⟩)
    (hwatch : s.watch ino = some path)
    (hnode : s.fs.node (path ++ [name]) = some ⟨ino', true⟩)
    (hwatch' : s.watch ino' = none)
    (hlost : canLose fnmatchcase watches s ⟨ino, .create, true, some name⟩) :
    s.Visited path (path ++ [name]) ∨
      ⟨ino, .create, true, some name⟩ ∈ s.queue := by
  have hmet : s.announces (path ++ [name]) ∨ s.Visited path (path ++ [name]) := by
    simpa [canLose, hwatch, hnode, hwatch', isCovered_iff.mpr hcovered]
      using hlost
  exact (hmet.imp_left (mem_of_announces hparent)).symm

theorem tracked_lose (h : Tracked fnmatchcase watches s)
    (hqueue : s.queue = before ++ (lost ++ later))
    (hlost : ∀ event ∈ lost, canLose fnmatchcase watches
      { s with queue := before ++ later } event) :
    Tracked fnmatchcase watches { s with queue := before ++ later } := by
  refine { h with left := ?_, pending := ?_ }
  · intro event hmem hdrops
    refine (h.left (hmem.imp_left fun hevent => ?_) hdrops).of_eq rfl rfl
    have hevent' : event ∈ before ++ later := hevent
    rw [hqueue]
    simp only [List.mem_append] at hevent' ⊢
    exact hevent'.imp_right Or.inr
  · intro dir name ino ino' hdir hchild hnode hwatch hnode' hwatch'
    rcases h.pending hdir hchild hnode hwatch hnode' hwatch' with
      hvisited | hmem
    · exact .inl hvisited
    · rw [hqueue, List.mem_append, List.mem_append] at hmem
      rcases hmem with hmem | hmem | hmem
      · exact .inr (List.mem_append_left _ hmem)
      · exact met_of_canLose hchild hnode hwatch hnode' hwatch' (hlost _ hmem)
      · exact .inr (List.mem_append_right _ hmem)

end Lose

/-! ## Runs -/

section Runs

variable {fnmatchcase : String → String → Bool} {watches : List WatchConfig}
variable {s after final : State} {trace : List Obs} {out : List Obs}
variable {dir : Path} {ino : ℕ} {wc : WatchConfig} {action : Action}

theorem tracked_of_lossy (hunnested : Unnested watches) {fs : FsTree String}
    (hrun : Reaches (lossyStep fnmatchcase)
      (fun s action => sparesLossy fnmatchcase watches s action)
      (start fs watches) trace s) : Tracked fnmatchcase watches s := by
  apply hrun.invariant (fun _ s => Tracked fnmatchcase watches s)
    (tracked_start fs)
  intro trace s action after out h hspares hstep
  cases action with
  | act action => exact tracked_move h hunnested hspares (move_of_step hstep)
  | overflow kept count =>
      cases hstep
      apply tracked_lose h _ (List.all_eq_true.mp hspares)
      rw [List.take_append_drop, List.take_append_drop]

/-- A watch stays under its path until the last event of its inode has been
read. -/
theorem Tracked.watch_of_move (h : Tracked fnmatchcase watches s)
    (hmove : Move fnmatchcase s action after out)
    (hwatch : s.watch ino = some dir)
    (hlast : ∀ event rest, s.queue = event :: rest → event.mask = .ignored →
      event.ino ≠ ino) : after.watch ino = some dir := by
  have hread : ∀ {event rest}, s.queue = event :: rest →
      (s.read event rest).watch ino = some dir := by
    intro event rest hqueue
    simp only [State.read]
    split
    · rename_i hmask
      rw [Function.update_of_ne (hlast event rest hqueue hmask).symm, hwatch]
    · exact hwatch
  cases hmove with
  | @addWatch method target wc rest entry hcalls hnode =>
      by_cases heq : ino = entry.ino
      · subst heq
        obtain ⟨hwc, hcovers⟩ :=
          h.fits (.addWatch method target wc) (by simp [hcalls])
        rw [← (h.watched hwatch).2.2 ⟨wc, hwc, hcovers⟩ ⟨entry.isDir, hnode⟩]
        exact Function.update_self ..
      · exact (Function.update_of_ne heq ..).trans hwatch
  | takeLost _ _ _ hqueue | takeDrop _ _ _ hqueue | takeDir _ _ _ hqueue
  | takeSilent _ _ _ hqueue | takeFile _ _ _ hqueue => exact hread hqueue
  | _ => exact hwatch

/-- The directory is registered until an event that drops the watch of its
inode is read. -/
theorem Tracked.root_of_move (h : Tracked fnmatchcase watches s)
    (hunnested : Unnested watches) (hwc : wc ∈ watches)
    (hcovers : covers fnmatchcase wc dir)
    (hmove : Move fnmatchcase s action after out)
    (hroot : s.dirToRoot dir = some wc.path)
    (hkeeps : ∀ event rest, action = .take → s.queue = event :: rest →
      s.watch event.ino = some dir → event.mask.dropsWatch = false) :
    after.dirToRoot dir = some wc.path := by
  cases hmove with
  | @record method target wc' rest hcalls =>
      by_cases heq : dir = target
      · subst heq
        obtain ⟨hwc', hcovers'⟩ :=
          h.fits (.record method dir wc') (by simp [hcalls])
        rw [hunnested.eq_of_covers hwc hwc' hcovers hcovers']
        exact Function.update_self ..
      · exact (Function.update_of_ne heq ..).trans hroot
  | @takeDrop event rest watchDir _ _ _ hqueue hother hdrops =>
      refine (Function.update_of_ne ?_ ..).trans hroot
      rintro rfl
      simp [hkeeps event rest rfl hqueue hother] at hdrops
  | _ => exact hroot

/-- What is watched comes to no covered path. -/
theorem Tracked.alive_of_move (h : Tracked fnmatchcase watches s)
    (hspares : spares fnmatchcase watches s action)
    (hmove : Move fnmatchcase s action after out)
    (hcovered : Covered fnmatchcase watches dir) (hwatch : s.watch ino ≠ none)
    (halive : after.Alive ino dir) : s.Alive ino dir := by
  cases hmove with
  | insert haction hparent hcan =>
      exact (disturbance_insert h (isRoot_of_spares hspares haction) hparent
        hcan).alive_of_change hcovered hwatch halive
  | remove _ _ hentry hleaf =>
      exact (disturbance_erase hentry hleaf).alive_of_change hcovered hwatch
        halive
  | rename _ hentry hparent' hcan _ =>
      exact (disturbance_rename hspares hentry hparent' hcan).alive_of_change
        hcovered hwatch halive
  | _ => exact halive

/-- The inode is watched under the path, and registered as long as it is
there. -/
def Kept (wc : WatchConfig) (dir : Path) (ino : ℕ) (s : State) : Prop :=
  s.watch ino = some dir ∧ (s.Alive ino dir → s.dirToRoot dir = some wc.path)

theorem Tracked.kept_of_move (h : Tracked fnmatchcase watches s)
    (hunnested : Unnested watches) (hwc : wc ∈ watches)
    (hcovers : covers fnmatchcase wc dir)
    (hspares : spares fnmatchcase watches s action)
    (hmove : Move fnmatchcase s action after out) (hkept : Kept wc dir ino s) :
    Kept wc dir ino after ∨ after.Gone ino := by
  by_cases hlast : ∀ event rest, s.queue = event :: rest →
      event.mask = .ignored → event.ino ≠ ino
  · refine .inl ⟨h.watch_of_move hmove hkept.1 hlast, fun halive => ?_⟩
    have hwas := h.alive_of_move hspares hmove ⟨wc, hwc, hcovers⟩
      (by simp [hkept.1]) halive
    refine h.root_of_move hunnested hwc hcovers hmove (hkept.2 hwas) fun event rest haction hqueue hother => ?_
    rw [Bool.eq_false_iff]
    intro hdrops
    have hmem : event ∈ s.queue := by simp [hqueue]
    subst haction
    refine not_live_of_drop hqueue hother hdrops (by simpa [spares] using hspares)
      ?_ hkept.1 hwas
    rintro rfl
    -- such an event comes when the inode has left
    exact (h.left (.inl hmem) hdrops).away ⟨wc, hwc, hcovers⟩ hwas
  · push Not at hlast
    obtain ⟨event, rest, hqueue, hmask, rfl⟩ := hlast
    have hmem : event ∈ s.queue := by simp [hqueue]
    have hleft := h.left (.inl hmem) (by simp [hmask, Mask.dropsWatch])
    exact .inr ((hleft.ended (.inl hmask)).next hleft.bound hmove)

/-- What a settled watcher has registered stays so as long as it is there. -/
theorem kept_of_later (hunnested : Unnested watches)
    (h : Tracked fnmatchcase watches s) (hwc : wc ∈ watches)
    (hcovers : covers fnmatchcase wc dir) (hkept : Kept wc dir ino s)
    (hrun : Reaches (step fnmatchcase)
      (fun s action => spares fnmatchcase watches s action) s trace final) :
    Tracked fnmatchcase watches final ∧ ino < final.fs.nextIno ∧
      (Kept wc dir ino final ∨ final.Gone ino) := by
  apply hrun.invariant (fun _ s => Tracked fnmatchcase watches s ∧
    ino < s.fs.nextIno ∧ (Kept wc dir ino s ∨ s.Gone ino))
  · exact ⟨h, (h.watched hkept.1).2.1, .inl hkept⟩
  · rintro trace s action after out ⟨h, hlt, hcase⟩ hspares hstep
    have hmove := move_of_step hstep
    refine ⟨tracked_move h hunnested hspares hmove,
      hlt.trans_le hmove.nextIno_le, ?_⟩
    rcases hcase with hkept | hgone
    · exact h.kept_of_move hunnested hwc hcovers hspares hmove hkept
    · exact .inr (hgone.next hlt hmove)

/-- The close has been emitted, or it is in the queue of a registered directory
and nothing before it drops the watch. -/
inductive Heard (wc : WatchConfig) (dir : Path) (name : String) (ino : ℕ)
    (trace : List Obs) (s : State) : Prop where
  | emitted (h : .emitted "IN_CLOSE_WRITE" (dir ++ [name]) wc.path ∈ trace)
  | queued (before later : List Event) (hwatch : s.watch ino = some dir)
      (hroot : s.dirToRoot dir = some wc.path)
      (hqueue : s.queue =
        before ++ ⟨ino, .closeWrite, false, some name⟩ :: later)
      (hbefore : ∀ event ∈ before, event.ino = ino →
        event.mask.dropsWatch = false)

/-- The queue loses its first event, or gets others at its end. -/
theorem Move.queue_of_move (hmove : Move fnmatchcase s action after out) :
    (∃ events, after.queue = s.queue ++ events) ∨
      ∃ event, s.queue = event :: after.queue := by
  cases hmove with
  | insert | remove | close | rename => exact .inl ⟨_, rfl⟩
  | release => exact .inl ⟨_, rfl⟩
  | takeLost _ _ _ hqueue | takeDrop _ _ _ hqueue | takeDir _ _ _ hqueue
  | takeSilent _ _ _ hqueue | takeFile _ _ _ hqueue => exact .inr ⟨_, hqueue⟩
  | _ => exact .inl ⟨[], (List.append_nil _).symm⟩

/-- When its turn comes, the close is emitted. -/
theorem emitted_of_close {name : String}
    (hmove : Move fnmatchcase s action after out)
    (hwatch : s.watch ino = some dir) (hroot : s.dirToRoot dir = some wc.path)
    (hqueue : s.queue =
      ⟨ino, .closeWrite, false, some name⟩ :: after.queue) :
    .emitted "IN_CLOSE_WRITE" (dir ++ [name]) wc.path ∈ out := by
  have hlength : s.queue.length = after.queue.length + 1 := by
    simpa using congrArg List.length hqueue
  cases hmove with
  | insert | remove | close | rename =>
      rw [change_queue, List.length_append] at hlength
      omega
  | takeLost _ _ _ hhead hlost =>
      obtain rfl := (List.cons.inj (hhead.symm.trans hqueue)).1
      simp [hwatch] at hlost
  | takeDrop _ _ _ hhead _ hdrops =>
      obtain rfl := (List.cons.inj (hhead.symm.trans hqueue)).1
      cases hdrops
  | takeDir _ _ _ hhead _ hmask =>
      obtain rfl := (List.cons.inj (hhead.symm.trans hqueue)).1
      cases hmask
  | takeSilent _ _ _ hhead hother _ _ hfile =>
      obtain rfl := (List.cons.inj (hhead.symm.trans hqueue)).1
      obtain rfl := Option.some.inj (hother.symm.trans hwatch)
      simp [hfile rfl rfl] at hroot
  | takeFile _ _ _ hhead hother _ hfound hmask =>
      obtain rfl := (List.cons.inj (hhead.symm.trans hqueue)).1
      obtain rfl := Option.some.inj (hother.symm.trans hwatch)
      obtain rfl := Option.some.inj (hfound.symm.trans hroot)
      cases hmask
      exact List.mem_singleton_self _
  | release => simp [State.released, Nat.add_assoc] at hlength
  | _ => simp at hlength

section Before

variable {name : String} {before later : List Event}
variable (hqueue : s.queue =
  before ++ ⟨ino, .closeWrite, false, some name⟩ :: later)
variable (hbefore : ∀ event ∈ before, event.ino = ino →
  event.mask.dropsWatch = false)
include hqueue hbefore

/-- Up to the close, no event drops the watch of the directory. -/
theorem keeps_of_ino {event : Event} {rest : List Event}
    (hhead : s.queue = event :: rest) (hino : event.ino = ino) :
    event.mask.dropsWatch = false := by
  rw [hqueue] at hhead
  cases before with
  | nil => rw [← (List.cons.inj hhead).1]; rfl
  | cons first before =>
      obtain rfl := (List.cons.inj hhead).1
      exact hbefore _ List.mem_cons_self hino

/-- Nor does one that is read unregister its path. -/
theorem keeps_of_sparesCloses
    (hspares : sparesCloses fnmatchcase watches s .take)
    (hwatch : s.watch ino = some dir) {event : Event} {rest : List Event}
    (hhead : s.queue = event :: rest) (hother : s.watch event.ino = some dir) :
    event.mask.dropsWatch = false := by
  by_cases hino : event.ino = ino
  · exact keeps_of_ino hqueue hbefore hhead hino
  · have hclose : ⟨ino, .closeWrite, false, some name⟩ ∈ rest := by
      have hmem : ⟨ino, .closeWrite, false, some name⟩ ∈ event :: rest := by
        simp [← hhead, hqueue]
      exact (List.mem_cons.mp hmem).resolve_left fun heq => hino (heq ▸ rfl)
    have hsilences : s.silences = false := by
      simpa [sparesCloses] using (Bool.and_eq_true_iff.mp hspares).2
    by_contra hdrops
    simp only [State.silences, hhead, hother, Bool.not_eq_false, Option.any_some,
      Bool.and_eq_false_imp, List.any_eq_false] at hsilences hdrops
    simpa [hwatch, Ne.symm hino] using hsilences hdrops _ hclose

end Before

theorem Heard.next {name : String} (h : Tracked fnmatchcase watches s)
    (hunnested : Unnested watches) (hwc : wc ∈ watches)
    (hcovers : covers fnmatchcase wc dir)
    (hspares : sparesCloses fnmatchcase watches s action)
    (hmove : Move fnmatchcase s action after out)
    (hheard : Heard wc dir name ino trace s) :
    Heard wc dir name ino (trace ++ out) after := by
  cases hheard with
  | emitted hemitted => exact .emitted (List.mem_append_left _ hemitted)
  | queued before later hwatch hroot hqueue hbefore =>
      have hwatch' := h.watch_of_move hmove hwatch fun event rest hhead hmask
        hino => by
          have hkeeps := keeps_of_ino hqueue hbefore hhead hino
          simp [hmask, Mask.dropsWatch] at hkeeps
      have hroot' := h.root_of_move hunnested hwc hcovers hmove hroot
        fun event rest haction => by
          subst haction
          exact keeps_of_sparesCloses hqueue hbefore hspares hwatch
      rcases hmove.queue_of_move with ⟨events, hafter⟩ | ⟨event, hhead⟩
      · refine .queued before (later ++ events) hwatch' hroot' ?_ hbefore
        rw [hafter, hqueue, List.append_assoc, List.cons_append]
      · cases before with
        | nil =>
            refine .emitted (List.mem_append_right _ ?_)
            rw [hqueue] at hhead
            obtain ⟨rfl, hrest⟩ := List.cons.inj hhead
            rw [List.nil_append, hrest] at hqueue
            exact emitted_of_close hmove hwatch hroot hqueue
        | cons first before =>
            rw [hqueue] at hhead
            exact .queued before later hwatch' hroot'
              (List.cons.inj hhead).2.symm fun event hevent =>
                hbefore event (List.mem_cons_of_mem _ hevent)

/-- A close in a registered directory is heard. -/
theorem heard_of_close {name : String} (h : Tracked fnmatchcase watches s)
    (hwc : wc ∈ watches) (hcovers : covers fnmatchcase wc dir)
    (hkept : Kept wc dir ino s) (hnode : s.fs.node dir = some ⟨ino, true⟩)
    (hclose : step fnmatchcase s (.close dir name) = some (after, out)) :
    Heard wc dir name ino [] after := by
  cases move_of_step hclose with
  | insert haction | remove haction => simp at haction
  | @close _ _ parent entry hparent =>
      obtain rfl := Option.some.inj (hparent.symm.trans hnode)
      refine .queued s.queue
        (s.reported [⟨entry.ino, .closeWrite, false, none⟩]) hkept.1
        (hkept.2 ⟨true, hnode⟩) ?_ fun event hevent hino => ?_
      · simp [State.reported, hkept.1]
      · rw [Bool.eq_false_iff]
        intro hdrops
        exact (h.left (.inl hevent) hdrops).away ⟨wc, hwc, hcovers⟩
          (hino ▸ ⟨true, hnode⟩)

end Runs

/-- In every run in which the watched part of the tree is spared and overflows
drop only what can be lost, once the watcher has processed the queue, every
covered directory is registered, and every later close of a file in it is
emitted before the watcher is idle again. -/
theorem coverage_survives_overflow {fnmatchcase : String → String → Bool}
    {watches : List WatchConfig} (hunnested : Unnested watches)
    {fs : FsTree String} {trace : List Obs} {s : State}
    (hrun : Reaches (lossyStep fnmatchcase)
      (fun s action => sparesLossy fnmatchcase watches s action)
      (start fs watches) trace s) (hsettled : s.settled)
    {wc : WatchConfig} (hwc : wc ∈ watches) {dir : Path} {ino : ℕ}
    (hcovers : covers fnmatchcase wc dir)
    (hnode : s.fs.node dir = some ⟨ino, true⟩) :
    s.dirToRoot dir = some wc.path ∧
    ∀ traceBefore before name after out traceAfter final,
      Reaches (step fnmatchcase)
        (fun s action => spares fnmatchcase watches s action) s traceBefore
        before →
      before.fs.node dir = some ⟨ino, true⟩ →
      step fnmatchcase before (.close dir name) = some (after, out) →
      Reaches (step fnmatchcase)
        (fun s action => sparesCloses fnmatchcase watches s action) after
        traceAfter final →
      final.idle →
        .emitted "IN_CLOSE_WRITE" (dir ++ [name]) wc.path ∈ traceAfter := by
  have h := tracked_of_lossy hunnested hrun
  obtain ⟨hwatch, hroot⟩ :=
    h.registered_of_settled hunnested hsettled hwc hcovers hnode
  refine ⟨hroot, ?_⟩
  intro traceBefore before name after out traceAfter final hbefore hstays hclose
    hafter hidle
  obtain ⟨hbeforeTracked, -, hcase⟩ := kept_of_later hunnested h hwc hcovers
    ⟨hwatch, fun _ => hroot⟩ hbefore
  have hheard : Heard wc dir name ino [] after :=
    heard_of_close hbeforeTracked hwc hcovers
      (hcase.resolve_right fun hgone => hgone dir ⟨true, hstays⟩) hstays hclose
  have hafterTracked : Tracked fnmatchcase watches after :=
    tracked_move hbeforeTracked hunnested rfl (move_of_step hclose)
  have hfinal : Tracked fnmatchcase watches final ∧
      Heard wc dir name ino traceAfter final := by
    apply hafter.invariant (fun trace s => Tracked fnmatchcase watches s ∧
      Heard wc dir name ino trace s) ⟨hafterTracked, hheard⟩
    rintro trace s action after out ⟨h, hheard⟩ hspares hstep
    have hmove := move_of_step hstep
    exact ⟨tracked_move h hunnested (Bool.and_eq_true_iff.mp hspares).1 hmove,
      hheard.next h hunnested hwc hcovers hspares hmove⟩
  cases hfinal.2 with
  | emitted hemitted => exact hemitted
  | queued before later _ _ hqueue =>
      obtain ⟨-, hsettled, -⟩ := idle_iff.mp hidle
      simp [(settled_iff.mp hsettled).1] at hqueue

section Samples

/-- Of the events of a new directory and a new file in the root, the second is
lost; then a file in the new directory is written. -/
theorem coverage_survives_overflow_sample : ∃ trace s traceAfter final,
    Reaches (lossyStep fun _ _ => false)
      (fun s action => sparesLossy (fun _ _ => false) [sampleWatch] s action)
      (start sampleTree [sampleWatch]) trace s ∧
    s.fs.isDir ["/", "srv", "new"] ∧
    Reaches (step fun _ _ => false)
      (fun s action => sparesCloses (fun _ _ => false) [sampleWatch] s action) s
      traceAfter final ∧
    .emitted "IN_CLOSE_WRITE" ["/", "srv", "new", "f"] ["/", "srv"] ∈
      traceAfter := by
  obtain ⟨trace, s, hrun, hview⟩ := exists_reaches_of_execute
    (lossyStep fun _ _ => false) (start sampleTree [sampleWatch])
    (fun s action => sparesLossy (fun _ _ => false) [sampleWatch] s action)
    (fun final => (final.1.settled,
      final.1.fs.isDir ["/", "srv", "new"],
      (step (fun _ _ => false) final.1
        (.close ["/", "srv", "new"] "f")).bind fun closed =>
          (execute (step fun _ _ => false)
            (fun s action => sparesCloses (fun _ _ => false) [sampleWatch] s
              action) closed.1 [.take]).map fun last => last.1.idle))
    (true, true, some true)
    (([.work, .work, .work, .scan [], .work, .enter, .mkdir ["/", "srv"] "new",
      .create ["/", "srv"] "g"].map LossyAction.act) ++ [.overflow 1 1] ++
      ([.take, .work, .work, .work, .scan [], .work,
        .create ["/", "srv", "new"] "f", .take].map LossyAction.act))
    (by decide +kernel)
  simp only [Prod.mk.injEq] at hview
  obtain ⟨hsettled, hdir, hlater⟩ := hview
  obtain ⟨⟨after, out⟩, hclose, hlater⟩ := Option.bind_eq_some_iff.mp hlater
  obtain ⟨⟨final, traceAfter⟩, htake, hidle⟩ := Option.map_eq_some_iff.mp hlater
  obtain ⟨ino, hnode⟩ := s.fs.isDir_iff.mp hdir
  have hafter := Reaches.refl.execute htake
  rw [List.nil_append] at hafter
  have hemitted := (coverage_survives_overflow (unnested_singleton sampleWatch)
    hrun hsettled (List.mem_singleton_self sampleWatch) (by decide) hnode).2
      [] s "f" after out traceAfter final .refl hnode hclose hafter hidle
  have hclosed : Reaches (step fun _ _ => false)
      (fun s action => sparesCloses (fun _ _ => false) [sampleWatch] s action) s
      ([] ++ out) after :=
    Reaches.refl.snoc rfl hclose
  exact ⟨trace, s, _, final, hrun, hdir, hclosed.trans hafter,
    List.mem_append_right _ hemitted⟩

/-- The actions spare the watched part of the tree; an overflow drops
whatever it drops. -/
def sparesActs (fnmatchcase : String → String → Bool)
    (watches : List WatchConfig) (s : State) : LossyAction → Bool
  | .act action => spares fnmatchcase watches s action
  | .overflow _ _ => true

/-- The creation event of a directory is lost; a later write in the directory
reaches the watcher in no way. -/
theorem overflow_hides_directory : ∃ trace s after,
    Reaches (lossyStep fun _ _ => false)
      (fun s action => sparesActs (fun _ _ => false) [sampleWatch] s action)
      (start sampleTree [sampleWatch]) trace s ∧ s.idle ∧
    s.fs.isDir ["/", "srv", "new"] ∧
    covers (fun _ _ => false) sampleWatch ["/", "srv", "new"] ∧
    step (fun _ _ => false) s (.close ["/", "srv", "new"] "f") =
      some (after, [.ready ["/", "srv", "new", "f"]]) ∧ after.idle := by
  obtain ⟨trace, s, hrun, hview⟩ := exists_reaches_of_execute
    (lossyStep fun _ _ => false) (start sampleTree [sampleWatch])
    (fun s action => sparesActs (fun _ _ => false) [sampleWatch] s action)
    (fun final => (final.1.idle, final.1.fs.isDir ["/", "srv", "new"],
      (step (fun _ _ => false) final.1
        (.close ["/", "srv", "new"] "f")).map fun closed =>
          (closed.1.idle, closed.2)))
    (true, true, some (true, [.ready ["/", "srv", "new", "f"]]))
    (([.work, .work, .work, .scan [], .work, .enter,
      .mkdir ["/", "srv"] "new"].map LossyAction.act) ++ [.overflow 0 1] ++
      [.act (.create ["/", "srv", "new"] "f")])
    (by decide +kernel)
  simp only [Prod.mk.injEq] at hview
  obtain ⟨hidle, hdir, hlater⟩ := hview
  obtain ⟨⟨after, out⟩, hclose, hout⟩ := Option.map_eq_some_iff.mp hlater
  obtain ⟨hafter, rfl⟩ := Prod.mk.inj hout
  exact ⟨trace, s, after, hrun, hidle, hdir, by decide, hclose, hafter⟩

end Samples

end MirrorMirage.Watcher
