import MirrorMirage.Batcher.Handover
import MirrorMirage.Daemon.Delivery
import MirrorMirage.Watcher.Paths

/-!
# From a purge back to a change of a file

What a worker gives to its provider is followed back through the daemon: the
row, the `enqueue` that wrote it, the `submit` calls that filled its batch, the
event that `_pipeline` took and the change that the event was about.
-/

namespace MirrorMirage.Daemon

open Function (update)
open MirrorMirage.Run
open MirrorMirage.Filter (EventKind)
open MirrorMirage.Publication (Steady Tells)

/-! ## From a target to the change -/

/-- Each directory that is watched is watched under its path. -/
def Placed (watcher : Watcher.State) : Prop :=
  ∀ {dir found node}, watcher.fs.node dir = some node →
    watcher.watch node.ino = some found → found = dir

/-- A change of this kind at the path asks for the target: the watch that owns
the path does not ignore it and flushes deletions if it is one, and the target
is one of a watch with the same root. -/
def Wanted (fnmatchcase : String → String → Bool) (watches : List WatchConfig)
    (kind : EventKind) (path : Path) (target : PurgeTarget) : Prop :=
  ∃ watch rel other,
    Filter.owner path (Filter.sortedWatches watches) = some (watch, rel) ∧
    Filter.matchesAnyGlob fnmatchcase rel watch.ignore = false ∧
    (kind = .delete → watch.flushOnDelete = true) ∧
    other ∈ watches ∧ other.path = watch.path ∧ target ∈ targetsOf other rel

/-- What waits in the kernel's queue and what has been submitted goes back to
changes that have been made. -/
structure Grounded (fnmatchcase : String → String → Bool)
    (watches : List WatchConfig) (start : Watcher.State)
    (trace : List Publication.Obs) (files : Publication.State) : Prop where
  steady : Steady start files.watcher
  queued : ∀ {event kind path}, event ∈ files.watcher.queue →
    Tells start kind path event → .changed kind path ∈ trace
  submitted : ∀ {kind targets target}, .submitted kind targets ∈ trace →
    target ∈ targets → ∃ path, .changed kind path ∈ trace ∧
      Wanted fnmatchcase watches kind path target

section Files

variable {fnmatchcase : String → String → Bool} {watches : List WatchConfig}
variable {start watcher after : Watcher.State} {dir path : Path}
variable {name : String} {mask : Watcher.Mask} {event : Watcher.Event}
variable {kind : EventKind} {target : PurgeTarget}
variable {files files' : Publication.State}
variable {trace found : List Publication.Obs}

/-- Nothing that is watched is renamed, nor anything above it. -/
def leavesWatched (watcher : Watcher.State) : Watcher.Action → Bool
  | .rename dir name _ _ => !watcher.holdsWatch (dir ++ [name])
  | _ => true

theorem placed_move (h : Placed watcher)
    (hbound : ∀ ino, watcher.watch ino ≠ none → ino < watcher.fs.nextIno)
    {action : Watcher.Action} {out : List Watcher.Obs}
    (hleaves : leavesWatched watcher action)
    (hmove : Watcher.Move fnmatchcase watcher action after out) :
    Placed after := by
  intro dir found node hnode hwatch
  have halive : after.Alive node.ino dir := ⟨node.isDir, hnode⟩
  rcases Watcher.watch_before_of_move hmove hwatch with
    hwas | ⟨_, _, _, entry, rfl, -, hentry, hino⟩
  · rcases Watcher.alive_of_move hmove (hbound _ (by simp [hwas])) halive with
      ⟨kind, hold⟩ | ⟨source, name, _, _, was, rfl, ⟨kind, hold⟩, hbelow⟩
    · exact h hold hwas
    · have hnone : watcher.holdsWatch (source ++ [name]) = false := by
        simpa [leavesWatched] using hleaves
      have hunwatched := Watcher.not_holdsWatch_iff.mp hnone was _ hbelow hold
      simp [hwas] at hunwatched
  · rw [Watcher.fs_of_work hmove] at hnode
    exact watcher.fs.unique hentry hnode hino

/-- As long as nothing watched is renamed, each directory that is watched is
watched under its path. -/
theorem placed_of_reaches {fs : FileTree.FsTree String}
    {seen : List Watcher.Obs}
    (hrun : Reaches (Watcher.step fnmatchcase)
      (fun watcher action => leavesWatched watcher action)
      (Watcher.start fs watches) seen watcher) : Placed watcher := by
  have hboth : Placed watcher ∧
      ∀ ino, watcher.watch ino ≠ none → ino < watcher.fs.nextIno := by
    refine hrun.invariant (fun _ watcher => Placed watcher ∧
      ∀ ino, watcher.watch ino ≠ none → ino < watcher.fs.nextIno) ?_ ?_
    · exact ⟨by rintro _ _ _ - ⟨⟩, fun _ hwatch => absurd rfl hwatch⟩
    · rintro _ watcher action after out ⟨hplaced, hbound⟩ hleaves hstep
      have hmove := Watcher.move_of_step hstep
      refine ⟨placed_move hplaced hbound hleaves hmove, fun ino hwatch => ?_⟩
      obtain ⟨found, hfound⟩ := Option.ne_none_iff_exists'.mp hwatch
      refine lt_of_lt_of_le ?_ hmove.nextIno_le
      rcases Watcher.watch_before_of_move hmove hfound with
        hwas | ⟨_, _, _, entry, -, -, hentry, rfl⟩
      · exact hbound ino (by simp [hwas])
      · exact watcher.fs.fresh hentry
  intro dir found node
  exact hboth.1

/-- What is emitted at the reading of an event is what the event tells. -/
theorem tells_of_take (h : Steady start watcher) {out : List Watcher.Obs}
    (hstep : Watcher.step fnmatchcase watcher .take = some (after, out))
    {maskName : String} {root : Path}
    (hmem : .emitted maskName path root ∈ out)
    (hkind : Filter.kindOf maskName = some kind) :
    ∃ event ∈ watcher.queue, Tells start kind path event := by
  cases Watcher.move_of_step hstep with
  | insert haction | remove haction => simp at haction
  | @takeFile event rest watchDir root' maskName' _ _ _ hqueue hwatch _ hroot
      hname =>
      obtain ⟨rfl, rfl, rfl⟩ : maskName = maskName' ∧ path = _ ∧ root = root' :=
        by simpa using hmem
      exact ⟨event, by simp [hqueue], watchDir, root, maskName,
        h.watch ▸ hwatch, h.dirToRoot ▸ hroot, rfl, hname, hkind⟩
  | _ => simp at hmem

/-- What the filter lets through, and for which watch. -/
theorem owner_of_normalize {maskName : String} {event : Filter.FsEvent}
    (hevent : Filter.normalize fnmatchcase watches maskName path =
      some event) :
    ∃ watch rel,
      Filter.owner path (Filter.sortedWatches watches) = some (watch, rel) ∧
      Filter.matchesAnyGlob fnmatchcase rel watch.ignore = false ∧
      Filter.kindOf maskName = some event.kind ∧
      (event.kind = .delete → watch.flushOnDelete = true) := by
  cases howner : Filter.owner path (Filter.sortedWatches watches) with
  | none => simp [Filter.normalize, howner] at hevent
  | some owner =>
      obtain ⟨watch, rel⟩ := owner
      rw [Filter.normalize_eq_ownEvent howner, Filter.ownEvent] at hevent
      split at hevent
      · cases hevent
      · rename_i hkept
        obtain ⟨kind, hkind, hown⟩ := Option.bind_eq_some_iff.mp hevent
        split at hown
        · cases hown
        · rename_i hflush
          cases hown
          exact ⟨watch, rel, rfl, by simpa using hkept, hkind, by
            simpa using hflush⟩

/-- The targets of an event are those of a watch with its root. -/
theorem targets_of_map {event : Filter.FsEvent} {targets : List PurgeTarget}
    {rel : Path} (hmap : Mapper.map watches event = some targets)
    (hrel : event.absPath = event.watchRoot ++ rel)
    (htarget : target ∈ targets) :
    ∃ other ∈ watches, other.path = event.watchRoot ∧
      target ∈ targetsOf other rel := by
  cases hlast : watches.reverse.find?
      (fun watch => decide (watch.path = event.watchRoot)) with
  | none =>
      obtain rfl : targets = [] := by
        simpa [Mapper.map, Mapper.byRoot, hlast] using hmap.symm
      simp at htarget
  | some other =>
      rw [map_eq_targetsOf hlast hrel] at hmap
      cases hmap
      exact ⟨other, by simpa using List.mem_of_find?_eq_some hlast,
        by simpa using List.find?_some hlast, htarget⟩

/-- A target that is submitted is asked for by what the watcher has yielded. -/
theorem wanted_of_pump {yielded : Watcher.Obs} {targets : List PurgeTarget}
    (hmem : .submitted kind targets ∈
      Publication.pump fnmatchcase watches yielded)
    (htarget : target ∈ targets) :
    ∃ maskName path root, yielded = .emitted maskName path root ∧
      Filter.kindOf maskName = some kind ∧
      Wanted fnmatchcase watches kind path target := by
  unfold Publication.pump at hmem
  split at hmem
  · rename_i maskName path root
    split at hmem
    · simp at hmem
    · rename_i event hevent
      split at hmem
      · rename_i mapped hmap
        obtain ⟨rfl, rfl⟩ : kind = event.kind ∧ targets = mapped := by
          simpa using hmem
        obtain ⟨watch, rel, howner, hkept, hkind, hflush⟩ :=
          owner_of_normalize hevent
        obtain ⟨habs, hroot⟩ := event_of_normalize hevent howner
        have hrel : event.absPath = event.watchRoot ++ rel := by
          rw [habs, hroot]
          exact (Filter.owner_eq_some_iff.mp howner).2
        obtain ⟨other, hother, hpath, hmem⟩ := targets_of_map hmap hrel htarget
        exact ⟨maskName, path, root, rfl, hkind, watch, rel, other, howner,
          hkept, hflush, hother, hpath.trans hroot, hmem⟩
      · simp at hmem
  · simp at hmem

theorem Grounded.take (h : Grounded fnmatchcase watches start trace files)
    (hstep : Publication.step fnmatchcase watches files .take =
      some (files', found)) :
    Grounded fnmatchcase watches start (trace ++ found) files' := by
  obtain ⟨⟨watcher, out⟩, htake, heq⟩ := Option.map_eq_some_iff.mp hstep
  cases heq
  obtain ⟨event, rest, hqueue, rfl, -⟩ := h.steady.take htake
  have hrest : ∀ later ∈ rest, later ∈ files.watcher.queue :=
    fun later hlater => hqueue ▸ List.mem_cons_of_mem _ hlater
  refine ⟨h.steady.of_queue fun later hlater =>
    h.steady.plain later (hrest later hlater), fun hevent htells => ?_,
    fun hmem htarget => ?_⟩
  · exact List.mem_append_left _ (h.queued (hrest _ hevent) htells)
  · rcases List.mem_append.mp hmem with hold | hnew
    · obtain ⟨path, hchanged, hwanted⟩ := h.submitted hold htarget
      exact ⟨path, List.mem_append_left _ hchanged, hwanted⟩
    · obtain ⟨yielded, hyielded, hpump⟩ := List.mem_flatMap.mp hnew
      obtain ⟨maskName, path, root, rfl, hkind, hwanted⟩ :=
        wanted_of_pump hpump htarget
      obtain ⟨event, hevent, htells⟩ :=
        tells_of_take h.steady htake hyielded hkind
      exact ⟨path, List.mem_append_left _ (h.queued hevent htells), hwanted⟩

end Files

/-! ## From a row to the target -/

/-- `_pipeline` has had the target from the mapper. -/
def Submitted (trace : List Obs) (target : PurgeTarget) : Prop :=
  ∃ kind targets, .files (.submitted kind targets) ∈ trace ∧ target ∈ targets

/-- The batcher has called `enqueue(cdn, urls)`. -/
def Enqueued (trace : List Obs) (cdn : String) (urls : List String) : Prop :=
  ∃ time, .batcher (.enqueued cdn urls time) ∈ trace

/-- What `_pipeline`, the `submit` calls, the `enqueue` calls and the rows have
that are not in the first table goes back to what was submitted and enqueued. -/
structure Sourced (first : Queue.Db) (trace : List Obs) (s : State) : Prop where
  pipeline : ∀ {target rest}, s.pipeline = .submitting target rest →
    ∀ other ∈ rest, Submitted trace other
  called : ∀ {call target},
    s.batcher.point (.submit call) = .submitLock target →
      Submitted trace target
  added : ∀ {cdn url time}, .batcher (.added cdn url time) ∈ trace →
    Submitted trace ⟨cdn, url⟩
  inserting : ∀ {call cdn urls now},
    (s.queue.enqueuer call).point = .inserting cdn urls now →
      Enqueued trace cdn urls
  rows : ∀ {id row}, s.queue.work.row id = some row →
    Holds first id row.cdnName row.urls ∨ Enqueued trace row.cdnName row.urls

section Rows

variable {retry : RetryConfig} {queue later : Queue.State}
variable {action : Queue.Action} {out : List Queue.Obs} {id : ℕ}
variable {row : Queue.Row}

/-- An update of one row leaves what the rows are about. -/
theorem row_of_modify {db : Queue.Db} {other : ℕ}
    {change : Queue.Row → Queue.Row}
    (hchange : ∀ row, (change row).cdnName = row.cdnName ∧
      (change row).urls = row.urls)
    (hrow : (db.modify other change).row id = some row) :
    Holds db id row.cdnName row.urls := by
  by_cases heq : id = other
  · subst heq
    obtain ⟨old, hold, rfl⟩ : ∃ old, db.row id = some old ∧
        change old = row := by simpa using hrow
    exact ⟨old, hold, (hchange old).1.symm, (hchange old).2.symm⟩
  · exact ⟨row, by simpa [heq] using hrow, rfl, rfl⟩

/-- Only the `INSERT` of an `enqueue` makes a new row. -/
theorem row_of_isWorker (hworker : isWorker action)
    (hstep : Queue.step retry queue action = some (later, out))
    (hrow : later.work.row id = some row) :
    Holds queue.work id row.cdnName row.urls := by
  cases Queue.move_of_step hstep with
  | start | reset | resetPost | resetCommit | run | insert | enqueueCommit
  | crash => cases hworker
  | @claim cdnName other =>
      simp only [Queue.Db.claim] at hrow
      split at hrow
      · split at hrow
        · have hclaimed : ∀ row : Queue.Row, row.claimed.cdnName = row.cdnName ∧
              row.claimed.urls = row.urls := fun _ => ⟨rfl, rfl⟩
          exact row_of_modify hclaimed hrow
        · exact ⟨row, hrow, rfl, rfl⟩
      · exact ⟨row, hrow, rfl, rfl⟩
  | settle => exact row_of_modify (fun row => by simp) hrow
  | _ => exact ⟨row, hrow, rfl, rfl⟩

end Rows

section Step

variable {cfg : DaemonConfig} {fnmatchcase : String → String → Bool}
variable {watches : List WatchConfig} {s after : State} {action : Action}
variable {trace out : List Obs} {target : PurgeTarget} {first : Queue.Db}
variable {call : ℕ} {cdn : String} {urls : List String}

theorem Submitted.append (h : Submitted trace target) :
    Submitted (trace ++ out) target := by
  obtain ⟨kind, targets, hmem, htarget⟩ := h
  exact ⟨kind, targets, List.mem_append_left _ hmem, htarget⟩

theorem Enqueued.append (h : Enqueued trace cdn urls) :
    Enqueued (trace ++ out) cdn urls := by
  obtain ⟨time, hmem⟩ := h
  exact ⟨time, List.mem_append_left _ hmem⟩

/-- A `submit` that waits for the lock has waited, or is new. -/
theorem submitLock_of_step (hkeys : Batcher.Consistent s.batcher)
    {own : Batcher.Action} {batcher : Batcher.State}
    {found : List Batcher.Obs}
    (hstep : Batcher.step cfg s.batcher own = some (batcher, found))
    (hpoint : batcher.point (.submit call) = .submitLock target) :
    s.batcher.point (.submit call) = .submitLock target ∨
      own = .submit call target := by
  rcases Batcher.submit_hops hkeys call (Batcher.move_of_step hstep) with
    hsame | hhops
  · exact .inl (hsame ▸ hpoint)
  · rw [hpoint] at hhops
    generalize s.batcher.point (.submit call) = point at hhops
    cases hhops with
    | called => exact .inr rfl
    | added hnext | returned hnext =>
        rcases hnext with hnext | hnext <;>
          simp [Batcher.Point.isEnqueueing] at hnext

/-- What is added was the target of a `submit`. -/
theorem submitLock_of_added {own : Batcher.Action} {batcher : Batcher.State}
    {found : List Batcher.Obs} {url : String} {time : ℚ}
    (hstep : Batcher.step cfg s.batcher own = some (batcher, found))
    (hmem : .added cdn url time ∈ found) :
    ∃ call, s.batcher.point (.submit call) = .submitLock ⟨cdn, url⟩ := by
  have hflushed : ∀ {batcher : Batcher.State} {task todo},
      .added cdn url time ∉ (Batcher.flushLocked batcher task todo).2 := by
    intro batcher task todo hmem
    rcases Batcher.flushLocked_cases batcher task todo with
      ⟨-, heq⟩ | ⟨-, _, _, -, -, -, heq⟩ <;> simp [heq] at hmem
  cases Batcher.move_of_step hstep with
  | @submit call added todo hlock hcancel hpoint =>
      rcases List.mem_cons.mp hmem with heq | hmem
      · obtain ⟨rfl, rfl, -⟩ := Batcher.Obs.added.inj heq
        exact ⟨call, hpoint⟩
      · exact absurd hmem hflushed
  | flush | enqueueReturn => exact absurd hmem hflushed
  | _ => simp at hmem

theorem submitted_of_targets {found : List Publication.Obs}
    (hmem : target ∈ targets found) :
    Submitted (trace ++ found.map .files) target := by
  obtain ⟨obs, hobs, htarget⟩ := List.mem_flatMap.mp hmem
  cases obs with
  | submitted kind targets =>
      exact ⟨kind, targets, List.mem_append_right _ (List.mem_map_of_mem hobs),
        htarget⟩
  | _ => simp at htarget

/-- A longer trace, whose additions are of targets that have been submitted. -/
theorem Sourced.append (h : Sourced first trace s)
    (hout : ∀ {cdn url time}, .batcher (.added cdn url time) ∈ out →
      Submitted trace ⟨cdn, url⟩) : Sourced first (trace ++ out) s where
  pipeline hpipeline other hother := (h.pipeline hpipeline other hother).append
  called hpoint := (h.called hpoint).append
  added hmem := by
    rcases List.mem_append.mp hmem with hold | hnew
    · exact (h.added hold).append
    · exact (hout hnew).append
  inserting hpoint := (h.inserting hpoint).append
  rows hrow := (h.rows hrow).imp_right Enqueued.append

/-- A step of a task of the batcher, before the queue gets to know of it. -/
theorem Sourced.batcher (h : Sourced first trace s)
    (hkeys : Batcher.Consistent s.batcher) {own : Batcher.Action}
    {batcher : Batcher.State} {found : List Batcher.Obs}
    (hown : ∀ call target, own ≠ .submit call target)
    (hstep : Batcher.step cfg s.batcher own = some (batcher, found)) :
    Sourced first (trace ++ found.map .batcher)
      { s with batcher := batcher } := by
  have hlonger : Sourced first (trace ++ found.map .batcher) s := by
    refine h.append fun hmem => ?_
    obtain ⟨obs, hobs, heq⟩ := List.mem_map.mp hmem
    cases heq
    obtain ⟨call, hpoint⟩ := submitLock_of_added hstep hobs
    exact h.called hpoint
  refine ⟨hlonger.pipeline, fun hpoint => ?_, hlonger.added,
    hlonger.inserting, hlonger.rows⟩
  rcases submitLock_of_step hkeys hstep hpoint with hpoint | heq
  · exact hlonger.called hpoint
  · exact absurd heq (hown _ _)

/-- A queue whose rows and calls are where they were. -/
theorem Sourced.queue (h : Sourced first trace s) {queue : Queue.State}
    (hrows : ∀ {id row}, queue.work.row id = some row →
      Holds s.queue.work id row.cdnName row.urls)
    (hinserting : ∀ {call cdn urls now},
      (queue.enqueuer call).point = .inserting cdn urls now →
        (s.queue.enqueuer call).point = .inserting cdn urls now) :
    Sourced first trace { s with queue := queue } where
  pipeline := h.pipeline
  called := h.called
  added := h.added
  inserting hpoint := h.inserting (hinserting hpoint)
  rows hrow := by
    obtain ⟨old, hold, hcdn, hurls⟩ := hrows hrow
    rw [← hcdn, ← hurls]
    exact h.rows hold

theorem Sourced.gotoEnqueue (h : Sourced first trace s)
    {queue : Queue.State} {call : ℕ} {point : Queue.EnqueuePoint}
    (hpoint : ∀ cdn urls now, point ≠ .inserting cdn urls now)
    (hwork : queue.work = s.queue.work)
    (hcalls : queue.enqueuer = (s.queue.gotoEnqueue call point).enqueuer) :
    Sourced first trace { s with queue := queue } := by
  refine h.queue (fun hrow => ⟨_, hwork ▸ hrow, rfl, rfl⟩)
    fun {other cdn urls now} hother => ?_
  rw [hcalls] at hother
  by_cases heq : other = call
  · subst heq
    exact absurd (by simpa [Queue.State.gotoEnqueue] using hother)
      (hpoint cdn urls now)
  · simpa [Queue.State.gotoEnqueue, heq] using hother

/-- A call of the batcher becomes a call of the queue. -/
theorem Sourced.calls (h : Sourced first trace s) {found : List Batcher.Obs}
    (hfound : ∀ obs ∈ found, .batcher obs ∈ trace)
    (hcalls : Calls s found after) : Sourced first trace after := by
  cases hcalls with
  | none => exact h
  | @one before cdn urls time hout =>
      refine ⟨h.pipeline, h.called, h.added, fun {call cdn' urls' now} hpoint =>
        ?_, h.rows⟩
      by_cases heq : call = s.enqueueCall + 1
      · subst heq
        obtain ⟨rfl, rfl, -⟩ : cdn = cdn' ∧ urls = urls' ∧ _ := by
          simpa using hpoint
        exact ⟨time, hfound _ (by simp [hout])⟩
      · exact h.inserting (by simpa [heq] using hpoint)

/-- The `INSERT` of an `enqueue`. -/
theorem Sourced.insert (h : Sourced first trace s) {now : ℚ}
    (hpoint : (s.queue.enqueuer call).point = .inserting cdn urls now) :
    Sourced first trace { s with
      queue := { s.queue.gotoEnqueue call (.inserted s.queue.work.nextId) with
        work := s.queue.work.insert cdn urls now } } := by
  have hgone : Sourced first trace { s with
      queue := s.queue.gotoEnqueue call (.inserted s.queue.work.nextId) } :=
    h.gotoEnqueue (by simp) rfl rfl
  refine ⟨h.pipeline, h.called, h.added, hgone.inserting,
    fun {id row} hrow => ?_⟩
  by_cases heq : id = s.queue.work.nextId
  · obtain rfl : _ = row := by simpa [Queue.Db.insert, heq] using hrow
    exact .inr (h.inserting hpoint)
  · exact h.rows (by simpa [Queue.Db.insert, heq] using hrow)

/-- A new `submit` call, with a target that has been submitted. -/
theorem Sourced.submits (h : Sourced first trace s)
    (hkeys : Batcher.Consistent s.batcher) {batcher : Batcher.State}
    {rest : List PurgeTarget} (hsubmits : Submits cfg s target batcher)
    (hsubmitted : ∀ other ∈ target :: rest, Submitted trace other) :
    Sourced first trace { s with
      pipeline := .submitting target rest
      submitCall := s.submitCall + 1
      batcher := batcher } := by
  refine ⟨fun hpipeline other hother => ?_, fun hpoint => ?_, h.added,
    h.inserting, h.rows⟩
  · obtain ⟨-, rfl⟩ : _ ∧ rest = _ := by simpa using hpipeline
    exact hsubmitted other (List.mem_cons_of_mem _ hother)
  · rcases submitLock_of_step hkeys hsubmits hpoint with hpoint | heq
    · exact h.called hpoint
    · obtain ⟨-, rfl⟩ := Batcher.Action.submit.inj heq
      exact hsubmitted _ List.mem_cons_self

theorem Interrupts.keeps {own : Batcher.Action} {queue : Queue.State}
    (h : Interrupts s own queue) : queue.work = s.queue.work ∧
      ∀ call, (queue.enqueuer call).point = (s.queue.enqueuer call).point := by
  cases h with
  | none => exact ⟨rfl, fun _ => rfl⟩
  | kill =>
      refine ⟨rfl, fun call => ?_⟩
      by_cases heq : call = s.enqueueCall
      · subst heq
        simp
      · simp [heq]

theorem Sourced.interrupts (h : Sourced first trace s) {own : Batcher.Action}
    {queue : Queue.State} (hinterrupts : Interrupts s own queue) :
    Sourced first trace { s with queue := queue } := by
  obtain ⟨hwork, hpoint⟩ := hinterrupts.keeps
  exact h.queue (fun hrow => ⟨_, hwork ▸ hrow, rfl, rfl⟩)
    fun hinserting => (hpoint _).symm.trans hinserting

/-- The steps of the thread of the connection and of a call that goes on. -/
theorem Sourced.enqueuer (h : Sourced first trace s) {queue : Queue.State}
    {found : List Queue.Obs}
    (hstep : Queue.step cfg.retry s.queue (.execEnqueue call) =
        some (queue, found) ∨
      Queue.step cfg.retry s.queue (.resumeEnqueue call) =
        some (queue, found)) :
    Sourced first trace { s with queue := queue } := by
  rcases hstep with hstep | hstep
  · obtain ⟨-, ⟨cdn, urls, now, hpoint, rfl⟩ | ⟨id, -, rfl⟩⟩ :=
      Queue.execEnqueue_cases hstep
    · exact h.insert hpoint
    · exact h.gotoEnqueue (by simp) rfl rfl
  · obtain ⟨-, -, ⟨id, -, rfl⟩ | ⟨id, -, rfl⟩⟩ :=
      Queue.resumeEnqueue_cases hstep <;>
      exact h.gotoEnqueue (by simp) rfl rfl

theorem sourced_move (hkeys : Batcher.Consistent s.batcher)
    (h : Sourced first trace s)
    (hmove : Move cfg fnmatchcase watches s action after out) :
    Sourced first (trace ++ out) after := by
  have hfiles : ∀ {found : List Publication.Obs},
      Sourced first (trace ++ found.map .files) s :=
    fun {found} => h.append (by simp)
  cases hmove with
  | files =>
      exact ⟨hfiles.pipeline, hfiles.called, hfiles.added, hfiles.inserting,
        hfiles.rows⟩
  | raise | pass =>
      exact ⟨(fun hpipeline => by cases hpipeline), hfiles.called, hfiles.added,
        hfiles.inserting, hfiles.rows⟩
  | @read files found target rest batcher hreading htake htargets hsubmits =>
      have hsubmitted := hfiles.submits hkeys hsubmits
        fun other hother => submitted_of_targets (htargets ▸ hother)
      exact ⟨hsubmitted.pipeline, hsubmitted.called, hsubmitted.added,
        hsubmitted.inserting, hsubmitted.rows⟩
  | finish =>
      rw [List.append_nil]
      exact ⟨(fun hpipeline => by cases hpipeline), h.called, h.added,
        h.inserting, h.rows⟩
  | submit hpipeline hreturned hsubmits =>
      rw [List.append_nil]
      exact h.submits hkeys hsubmits (h.pipeline hpipeline)
  | @batcher own batcher found queue after hown hbatcher hinterrupts hcalls =>
      have hown' : ∀ call target, own ≠ .submit call target := by
        rintro call target rfl
        cases hown
      have hstepped := (h.interrupts hinterrupts).batcher hkeys hown' hbatcher
      exact hstepped.calls
        (fun obs hobs => List.mem_append_right _ (List.mem_map_of_mem hobs))
        hcalls
  | exec hpoint hqueue =>
      exact (h.append (by simp)).enqueuer (.inl hqueue)
  | @commit call id queue found hpoint hqueue =>
      have hstored : ∀ {cdn url time}, .batcher (.added cdn url time) ∉
          found.map Obs.queue ++ storedRow s.queue.work id := by
        intro cdn url time hmem
        simp only [storedRow] at hmem
        split at hmem <;> simp at hmem
      have hthread := (h.append fun hmem => absurd hmem hstored).enqueuer
        (.inl hqueue)
      rw [← List.append_assoc]
      rcases recordCommit_cases cfg s call with heq | ⟨task, -, -, hcommit⟩
      · rw [heq, List.map_nil, List.append_nil]
        exact hthread
      · exact hthread.batcher hkeys (by simp) hcommit
  | resume hlock hcancel hpoint hqueue =>
      rw [List.append_nil]
      exact h.enqueuer (.inr hqueue)
  | @enqueueReturn task id queue batcher returned after hlock hcancel hpoint
      hqueue hbatcher hcalls =>
      have hstepped := (h.enqueuer (.inr hqueue)).batcher hkeys (by simp)
        hbatcher
      exact hstepped.calls
        (fun obs hobs => List.mem_append_right _ (List.mem_map_of_mem hobs))
        hcalls
  | queue hworker hqueue =>
      have hcalls := enqueuer_of_isWorker hworker hqueue
      exact (h.append (by simp)).queue (row_of_isWorker hworker hqueue)
        fun hpoint => by rwa [hcalls] at hpoint

end Step

/-! ## Whole runs -/

section Runs

variable {cfg : DaemonConfig} {fnmatchcase : String → String → Bool}
variable {watches : List WatchConfig} {start s : State} {trace : List Obs}
variable {target : PurgeTarget} {cdn url : String} {urls : List String}
variable {allowed : State → Action → Prop}

theorem sourced_of_run (hstart : Starts cfg start)
    (hcalls : ∀ call, (start.queue.enqueuer call).point = .absent)
    (hrun : Reaches (step cfg fnmatchcase watches) allowed start trace s) :
    Sourced start.queue.work trace s := by
  obtain ⟨now, hbatcher⟩ := hstart.batcher
  refine hrun.invariant_along (Sourced start.queue.work) ?_
    fun hearlier h _ hstep => ?_
  · refine ⟨fun hpipeline => ?_, fun hpoint => ?_, by simp, fun hpoint => ?_,
      fun hrow => .inl ⟨_, hrow, rfl, rfl⟩⟩
    · simp [hstart.pipeline] at hpipeline
    · simp [hbatcher, Batcher.init] at hpoint
    · simp [hcalls] at hpoint
  · have hkeys := (joint_of_reaches hstart.joint hearlier).keys
    exact sourced_move hkeys h (move_of_step hkeys hstep)

/-- What is in a batch has been submitted for its CDN. -/
theorem submitted_of_enqueued (hstart : Starts cfg start)
    (hcalls : ∀ call, (start.queue.enqueuer call).point = .absent)
    (hrun : Reaches (step cfg fnmatchcase watches) allowed start trace s)
    (henqueued : Enqueued trace cdn urls) (hurl : url ∈ urls) :
    Submitted trace ⟨cdn, url⟩ := by
  obtain ⟨now, hbatcher⟩ := hstart.batcher
  have hbatches : Reaches (Batcher.step cfg) (fun _ _ => True) start.batcher
      (trace.filterMap seenBatcher) s.batcher :=
    batcher_of_reaches hstart.joint hrun fun _ _ _ => trivial
  rw [hbatcher] at hbatches
  obtain ⟨time, hmem⟩ := henqueued
  obtain ⟨before, after, hsplit⟩ :=
    List.append_of_mem (mem_seenBatcher.mpr hmem)
  obtain ⟨earlier, added, between, rfl, hadds, -⟩ :=
    (Batcher.handedOver_of_reaches hbatches).taken before _ after hsplit cdn url
      ⟨rfl, hurl⟩
  have hadded : .batcher added ∈ trace :=
    mem_seenBatcher.mp (by simp [hsplit])
  cases added with
  | added =>
      obtain ⟨rfl, rfl⟩ := hadds
      exact (sourced_of_run hstart hcalls hrun).added hadded
  | _ => cases hadds

end Runs

section Samples

end Samples

end MirrorMirage.Daemon
