import MirrorMirage.Batcher.Invariant
import MirrorMirage.Core.Sweep

/-!
# What a failing CDN keeps `flush_all` from

`flush_all` visits the buffers in a loop that an exception of `enqueue` leaves,
and `run` catches it only around the whole call: the buffers behind the one
that failed are not flushed (`failing_cdn_stops_drain`).  The drain is complete
if and only if no failing buffer has another one to flush behind it
(`drain_isolates_cdns_iff`).
-/

namespace MirrorMirage.Batcher

open Function (update)
open MirrorMirage.Run MirrorMirage.Sweep

/-- The batch of an `enqueue` call. -/
def Obs.handedOver : Obs → Option (String × List String)
  | .enqueued cdn urls _ => some (cdn, urls)
  | _ => none

/-- The batch of a row that has been committed. -/
def Obs.storedBatch : Obs → Option (String × List String)
  | .committed cdn urls => some (cdn, urls)
  | _ => none

/-- The batches passed to `enqueue`, in order. -/
def calls (trace : List Obs) : List (String × List String) :=
  trace.filterMap Obs.handedOver

/-- The batches in committed rows, in order. -/
def rows (trace : List Obs) : List (String × List String) :=
  trace.filterMap Obs.storedBatch

/-- The `enqueue` that the task awaits is one that fails. -/
def Point.fails (failing : String → Bool) : Point → Bool
  | .enqueueing cdn _ _ _ => failing cdn
  | _ => false

/-- The task flushes and has not ended.  Nobody cancels it, and its `enqueue`
raises for the failing CDNs and for no others. -/
def flushing (failing : String → Bool) (task : Task) (s : State)
    (action : Action) : Bool :=
  !(s.point task).isEnded &&
    match action with
    | .enqueueRaise other => other ≠ task || (s.point task).fails failing
    | .commit other => other ≠ task || !(s.point task).fails failing
    | .cancel other | .deliver other => other ≠ task
    | _ => true

/-- The tasks that come to `flush_all`. -/
def Task.flushesAll : Task → Prop
  | .flushAll _ | .run => True
  | _ => False

theorem Task.flushesAll.isEnded_afterFlush {task : Task}
    (h : task.flushesAll) : (afterFlush task).isEnded := by
  cases task <;> first | rfl | exact h.elim

/-- Since the flush began in `start`: one call with all of every buffer that
was not empty, and a row for it unless its CDN fails. -/
structure DrainsAll (failing : String → Bool) (start : State)
    (trace : List Obs) : Prop where
  called : ∀ cdn, start.buffers cdn ≠ [] →
    (calls trace).filter (·.1 = cdn) = [(cdn, start.buffers cdn)]
  stored : ∀ cdn, start.buffers cdn ≠ [] → failing cdn = false →
    (rows trace).filter (·.1 = cdn) = [(cdn, start.buffers cdn)]

/-- The buffer has something to flush. -/
def due (start : State) (cdn : String) : Bool := start.buffers cdn ≠ []

/-- No buffer with URLs comes, in the order of the dictionary, after one with
URLs whose CDN fails. -/
def Isolated (failing : String → Bool) (start : State) : Prop :=
  Unhindered (due start) failing start.cdns

/-! ## What a flush has ahead of it -/

def batchesOf (start : State) (cdns : List String) :
    List (String × List String) :=
  cdns.map fun cdn => (cdn, start.buffers cdn)

/-- The CDNs whose buffers are still to be taken. -/
def ahead (failing : String → Bool) (start : State) : Point → List String
  | .enqueueing cdn _ _ rest =>
      if failing cdn then [] else visited (due start) failing rest
  | _ => []

/-- The CDN whose row is still to be committed. -/
def unsettled (failing : String → Bool) : Point → List String
  | .enqueueing cdn _ committed _ =>
      if failing cdn || committed then [] else [cdn]
  | _ => []

structure Flushing (failing : String → Bool) (task : Task) (start : State)
    (trace : List Obs) (s : State) : Prop where
  keys : Consistent s
  spared : s.cancelling task = false
  going : (s.point task).isEnded ∨ ∃ cdn committed rest,
    s.point task = .enqueueing cdn (start.buffers cdn) committed rest ∧
      (committed = true → failing cdn = false) ∧ rest.Nodup ∧
      ∀ other ∈ rest, s.buffers other = start.buffers other
  called : calls trace ++ batchesOf start (ahead failing start (s.point task)) =
    batchesOf start (visited (due start) failing start.cdns)
  stored : rows trace ++ batchesOf start (unsettled failing (s.point task) ++
      (ahead failing start (s.point task)).filter (!failing ·)) =
    batchesOf start ((visited (due start) failing start.cdns).filter
      (!failing ·))

section Flushing

variable {failing : String → Bool} {task : Task} {start s after : State}
variable {trace : List Obs} {cdn : String} {point : Point}

/-- A step of another task while the lock is held. -/
theorem Flushing.of_frame (h : Flushing failing task start trace s)
    (hkeys : Consistent after) (hspared : after.cancelling task = false)
    (hbuffers : after.buffers = s.buffers)
    (hpoint : after.point task = s.point task) :
    Flushing failing task start (trace ++ []) after where
  keys := hkeys
  spared := hspared
  going := by
    rw [hpoint, hbuffers]
    exact h.going
  called := by
    rw [hpoint, List.append_nil]
    exact h.called
  stored := by
    rw [hpoint, List.append_nil]
    exact h.stored

/-- The flushes of the buffers in `todo`, up to the next await. -/
theorem flushing_flushLocked (htask : task.flushesAll)
    (hkeys : Consistent s) (hspared : s.cancelling task = false)
    (hwas : s.point task ≠ .absent)
    (hlock : s.lock = none ∨ s.lock = some task) {todo : List String}
    (hnodup : todo.Nodup)
    (hbuffers : ∀ cdn ∈ todo, s.buffers cdn = start.buffers cdn)
    (hcalled : calls trace ++ batchesOf start (visited (due start) failing todo) =
      batchesOf start (visited (due start) failing start.cdns))
    (hstored : rows trace ++ batchesOf start
        ((visited (due start) failing todo).filter (!failing ·)) =
      batchesOf start ((visited (due start) failing start.cdns).filter
        (!failing ·))) :
    Flushing failing task start (trace ++ (flushLocked s task todo).2)
      (flushLocked s task todo).1 := by
  have hflush : ∀ cdn urls rest,
      task.owns (.enqueueing cdn urls false rest) :=
    fun cdn urls rest => owns_enqueueing task cdn urls false rest
  have hkeys' : Consistent (flushLocked s task todo).1 :=
    consistent_flushLocked hkeys hflush hwas hlock
  have hspared' : (flushLocked s task todo).1.cancelling task = false := by
    rcases flushLocked_cases s task todo with
      ⟨-, heq⟩ | ⟨-, cdn, rest, -, -, -, heq⟩ <;> simpa [heq] using hspared
  rcases flushLocked_cases s task todo with
    ⟨hempty, heq⟩ | ⟨skipped, cdn, rest, rfl, hskipped, hbuffer, heq⟩
  · rw [heq] at hkeys' hspared' ⊢
    have hnone : visited (due start) failing todo = [] :=
      visited_eq_nil fun cdn hcdn => by
        simp [due, ← hbuffers cdn hcdn, hempty cdn hcdn]
    rw [hnone] at hcalled hstored
    have hended : (s.leave task (afterFlush task)).point task =
        afterFlush task := by simp
    refine ⟨hkeys', hspared', .inl ?_, ?_, ?_⟩ <;> rw [hended]
    · exact htask.isEnded_afterFlush
    · cases task <;> simpa [afterFlush, ahead] using hcalled
    · cases task <;> simpa [afterFlush, ahead, unsettled] using hstored
  · rw [heq] at hkeys' hspared' ⊢
    have hsame : s.buffers cdn = start.buffers cdn := hbuffers cdn (by simp)
    have hnow : visited (due start) failing (skipped ++ cdn :: rest) =
        cdn :: if failing cdn then [] else visited (due start) failing rest := by
      rw [visited_skip fun other hother => ?_, visited_cons]
      · simpa [due, ← hsame] using hbuffer
      · simp [due, ← hbuffers other (by simp [hother]), hskipped other hother]
    rw [hnow] at hcalled hstored
    have hpoint : (takeBuffer s task cdn rest).point task =
        .enqueueing cdn (start.buffers cdn) false rest := by simp [hsame]
    have hrest := (List.nodup_cons.mp (List.nodup_append.mp hnodup).2.1)
    refine ⟨hkeys', hspared', .inr ⟨cdn, false, rest, hpoint, by simp,
      hrest.2, fun other hother => ?_⟩, ?_, ?_⟩
    · have hne : other ≠ cdn := fun heq => hrest.1 (heq ▸ hother)
      simpa [hne] using hbuffers other (by simp [hother])
    · rw [hpoint, hsame, ← hcalled]
      simp [calls, Obs.handedOver, ahead, batchesOf]
    · rw [hpoint, ← hstored]
      cases hfails : failing cdn <;>
        simp [rows, Obs.storedBatch, ahead, unsettled, batchesOf, hfails]

theorem Flushing.commit (h : Flushing failing task start trace s)
    (hkeys : Consistent (s.goto task point)) {urls rest : List String}
    (hpoint : s.point task = .enqueueing cdn urls false rest)
    (hafter : point = .enqueueing cdn urls true rest)
    (hfails : failing cdn = false) :
    Flushing failing task start (trace ++ [.committed cdn urls])
      (s.goto task point) := by
  obtain ⟨_, _, _, hgoing, -, hrest⟩ :=
    h.going.resolve_left (by simp [hpoint, Point.isEnded])
  cases hpoint.symm.trans hgoing
  have hcalled := h.called
  have hstored := h.stored
  rw [hpoint] at hcalled hstored
  subst hafter
  refine ⟨hkeys, h.spared,
    .inr ⟨cdn, true, rest, by simp, fun _ => hfails, hrest⟩, ?_, ?_⟩
  · simpa [ahead, calls, List.filterMap_cons, Obs.handedOver] using hcalled
  · simpa [ahead, unsettled, hfails, rows, Obs.storedBatch, batchesOf] using
      hstored

/-- A failure leaves nothing to be done. -/
theorem Flushing.raise (h : Flushing failing task start trace s)
    (htask : task.flushesAll)
    (hkeys : Consistent (s.leave task (afterRaise task)))
    {urls rest : List String}
    (hpoint : s.point task = .enqueueing cdn urls false rest)
    (hfails : failing cdn) :
    Flushing failing task start (trace ++ [])
      (s.leave task (afterRaise task)) := by
  have hcalled := h.called
  have hstored := h.stored
  rw [hpoint] at hcalled hstored
  refine ⟨hkeys, h.spared, .inl ?_, ?_, ?_⟩
  · cases task <;> simp [afterRaise, Point.isEnded]
  · cases task <;> simpa [afterRaise, ahead, hfails] using hcalled
  · cases task <;>
      simpa [afterRaise, ahead, unsettled, hfails] using hstored

/-- After a success the flush goes on to the buffers behind it. -/
theorem Flushing.next (h : Flushing failing task start trace s)
    (htask : task.flushesAll) {urls rest : List String}
    (hpoint : s.point task = .enqueueing cdn urls true rest) :
    Flushing failing task start (trace ++ (flushLocked s task rest).2)
      (flushLocked s task rest).1 := by
  obtain ⟨_, _, _, hgoing, hsettled, hnodup, hbuffers⟩ :=
    h.going.resolve_left (by simp [hpoint, Point.isEnded])
  cases hpoint.symm.trans hgoing
  have hfails := hsettled rfl
  have hcalled := h.called
  have hstored := h.stored
  rw [hpoint] at hcalled hstored
  apply flushing_flushLocked htask h.keys h.spared (by simp [hpoint])
    (.inr (h.keys.holder task (by simp [hpoint, Point.isEnqueueing]))) hnodup
    hbuffers
  · simpa [ahead, hfails] using hcalled
  · simpa [ahead, unsettled, hfails] using hstored

/-- A step of the flushing task or of another one. -/
theorem flushing_step {cfg : DaemonConfig} {action : Action} {out : List Obs}
    (h : Flushing failing task start trace s) (htask : task.flushesAll)
    (hflushing : flushing failing task s action)
    (hstep : step cfg s action = some (after, out)) :
    Flushing failing task start (trace ++ out) after := by
  have hmove := move_of_step hstep
  have hkeys := consistent_move h.keys hmove
  simp only [flushing, Bool.and_eq_true, Bool.not_eq_true'] at hflushing
  obtain ⟨hbusy, hflushing⟩ := hflushing
  obtain ⟨cdn, committed, rest, hpoint, hgoing⟩ :=
    h.going.resolve_left (by simp [hbusy])
  have hlock : s.lock = some task :=
    h.keys.holder task (by simp [hpoint, Point.isEnqueueing])
  -- a task inside `enqueue` is this one, any other is another one
  have hself : ∀ other, (s.point other).isEnqueueing → other = task := by
    intro other hwhere
    exact Option.some.inj ((h.keys.holder other hwhere).symm.trans hlock)
  have hmoved : ∀ other {point : Point} {next : State},
      (s.point other).isEnqueueing = false → Consistent next →
      next.cancelling task = s.cancelling task → next.buffers = s.buffers →
      next.point = update s.point other point →
      Flushing failing task start (trace ++ []) next := by
    intro other point next hwhere hnext hcancelling hbuffers hafter
    apply h.of_frame hnext (hcancelling.trans h.spared) hbuffers
    rw [hafter, Function.update_of_ne]
    rintro rfl
    simp [hpoint, Point.isEnqueueing] at hwhere
  cases hmove with
  | tick => exact h.of_frame hkeys h.spared rfl rfl
  | submitCall hwhere | flushAllCall hwhere | timeout hwhere
  | gathered hwhere =>
      exact hmoved _ (by simp [hwhere, Point.isEnqueueing]) hkeys rfl rfl rfl
  | submit hfree | recheck hfree | flush hfree => simp [hlock] at hfree
  | @wake cdn _ _ hwhere =>
      refine hmoved (.debounce cdn) ?_ hkeys rfl rfl rfl
      rcases hwhere with hwhere | ⟨_, hwhere⟩ <;>
        simp [hwhere, Point.isEnqueueing]
  | @commit other _ _ _ hwhere =>
      obtain rfl := hself other (by simp [hwhere, Point.isEnqueueing])
      exact h.commit hkeys hwhere rfl
        (by simpa [hwhere, Point.fails] using hflushing)
  | @enqueueReturn other _ _ _ hwhere =>
      obtain rfl := hself other (by simp [hwhere, Point.isEnqueueing])
      exact h.next htask hwhere
  | @enqueueRaise other _ _ _ hwhere =>
      obtain rfl := hself other (by simp [hwhere, Point.isEnqueueing])
      exact h.raise htask hkeys hwhere
        (by simpa [hwhere, Point.fails] using hflushing)
  | @cancel other =>
      have hne : task ≠ other := by
        rintro rfl
        simp at hflushing
      exact h.of_frame hkeys (by simpa [hne] using h.spared) rfl rfl
  | shutdown _ hwhere =>
      refine h.of_frame hkeys ?_ rfl rfl
      cases task with
      | flushAll call => exact h.spared
      | run => simp [hpoint] at hwhere
      | _ => exact htask.elim
  | deliverRun _ hwhere =>
      refine hmoved .run (by simp [hwhere, Point.isEnqueueing]) hkeys ?_ rfl rfl
      cases task with
      | flushAll call => rfl
      | run => simp [hpoint] at hwhere
      | _ => exact htask.elim
  | @deliver other =>
      have hne : task ≠ other := by
        rintro rfl
        simp at hflushing
      exact h.of_frame hkeys h.spared rfl (by simp [hne])

/-- How far the flush is from its end. -/
def Point.left : Point → ℕ
  | .enqueueing _ _ committed rest =>
      2 * rest.length + if committed then 1 else 2
  | _ => 0

theorem left_flushLocked (htask : task.flushesAll) (todo : List String) :
    ((flushLocked s task todo).1.point task).left ≤ 2 * todo.length := by
  rcases flushLocked_cases s task todo with
    ⟨-, heq⟩ | ⟨skipped, cdn, rest, rfl, -, -, heq⟩
  · rw [heq]
    cases task <;> simp [afterFlush, Point.left]
  · rw [heq]
    simp only [takeBuffer_point, Function.update_self, Point.left,
      List.length_append, List.length_cons, Bool.false_eq_true, if_false]
    omega

/-- While it has not ended, the flush can go on. -/
theorem Flushing.progress (cfg : DaemonConfig)
    (h : Flushing failing task start trace s) (htask : task.flushesAll)
    (hbusy : ¬ (s.point task).isEnded) :
    ∃ action after out, flushing failing task s action ∧
      step cfg s action = some (after, out) ∧
        (after.point task).left < (s.point task).left := by
  obtain ⟨cdn, committed, rest, hpoint, hsettled, -⟩ :=
    h.going.resolve_left hbusy
  cases committed with
  | true =>
      have hstep : step cfg s (.enqueueReturn task) =
          some (flushLocked s task rest) := by simp [step, hpoint, h.spared]
      refine ⟨_, _, _, by simp [flushing, hpoint, Point.isEnded], hstep, ?_⟩
      rw [hpoint]
      exact lt_of_le_of_lt (left_flushLocked htask rest)
        (Nat.lt_succ_self (2 * rest.length))
  | false =>
      cases hfails : failing cdn with
      | true =>
          have hstep : step cfg s (.enqueueRaise task) =
              some (s.leave task (afterRaise task), []) := by
            simp [step, hpoint, h.spared]
          refine ⟨_, _, _, by
            simp [flushing, hpoint, Point.isEnded, Point.fails, hfails],
            hstep, ?_⟩
          rw [hpoint]
          cases task <;> simp [afterRaise, Point.left]
      | false =>
          have hstep : step cfg s (.commit task) = some (s.goto task
              (.enqueueing cdn (start.buffers cdn) true rest),
                [.committed cdn (start.buffers cdn)]) := by
            simp [step, hpoint, h.spared]
          refine ⟨_, _, _, by
            simp [flushing, hpoint, Point.isEnded, Point.fails, hfails],
            hstep, ?_⟩
          simp [hpoint, Point.left]

end Flushing

/-! ## What has been flushed in the end -/

section Drained

variable {failing : String → Bool} {start : State} {trace : List Obs}

theorem filter_batchesOf {cdns : List String} (hnodup : cdns.Nodup)
    {cdn : String} (hmem : cdn ∈ cdns) :
    (batchesOf start cdns).filter (·.1 = cdn) =
      [(cdn, start.buffers cdn)] := by
  have hone : cdns.filter (· = cdn) = [cdn] := by
    rw [List.filter_eq, List.count_eq_one_of_mem hnodup hmem,
      List.replicate_one]
  rw [batchesOf, List.filter_map]
  exact congrArg (List.map _) hone

theorem mem_of_filter_batchesOf {cdns : List String} {cdn : String}
    {batch : String × List String}
    (hfilter : (batchesOf start cdns).filter (·.1 = cdn) = [batch]) :
    cdn ∈ cdns := by
  have hmem : batch ∈ (batchesOf start cdns).filter (·.1 = cdn) := by
    simp [hfilter]
  obtain ⟨hbatch, hcdn⟩ := List.mem_filter.mp hmem
  obtain ⟨found, hfound, rfl⟩ := List.mem_map.mp hbatch
  obtain rfl : found = cdn := by simpa using hcdn
  exact hfound

/-- The calls that were made are complete if and only if nothing hindered the
sweep. -/
theorem drainsAll_iff (hnodup : start.cdns.Nodup)
    (hknown : ∀ cdn, start.buffers cdn ≠ [] → cdn ∈ start.cdns)
    (hcalled : calls trace =
      batchesOf start (visited (due start) failing start.cdns))
    (hstored : rows trace =
      batchesOf start ((visited (due start) failing start.cdns).filter
        (!failing ·))) :
    DrainsAll failing start trace ↔ Isolated failing start := by
  rw [Isolated, unhindered_iff hnodup]
  have hvisited : (visited (due start) failing start.cdns).Nodup :=
    hnodup.sublist visited_sublist
  constructor
  · intro hdrains cdn _ hdue
    have hone := hdrains.called cdn (by simpa [due] using hdue)
    rw [hcalled] at hone
    exact mem_of_filter_batchesOf hone
  · intro hall
    have hmem : ∀ cdn, start.buffers cdn ≠ [] →
        cdn ∈ visited (due start) failing start.cdns :=
      fun cdn hbuffer => hall cdn (hknown cdn hbuffer)
        (by simpa [due] using hbuffer)
    refine ⟨fun cdn hbuffer => ?_, fun cdn hbuffer hfails => ?_⟩
    · rw [hcalled]
      exact filter_batchesOf hvisited (hmem cdn hbuffer)
    · rw [hstored]
      exact filter_batchesOf (hvisited.filter _)
        (List.mem_filter.mpr ⟨hmem cdn hbuffer, by simp [hfails]⟩)

end Drained

/-! ## Every drain -/

/-- The keys of a dictionary are distinct. -/
theorem nodup_cdns_move {cfg : DaemonConfig} {s after : State}
    {action : Action} {out : List Obs} (h : s.cdns.Nodup)
    (hmove : Move cfg s action after out) : after.cdns.Nodup := by
  have hflush : ∀ (s : State) task todo,
      (flushLocked s task todo).1.cdns = s.cdns := by
    intro s task todo
    rcases flushLocked_cases s task todo with
      ⟨-, heq⟩ | ⟨-, cdn, rest, -, -, -, heq⟩ <;> simp [heq]
  cases hmove with
  | @submit call target =>
      rw [hflush, addTarget_cdns, openBuffer]
      split
      · exact h
      · rename_i hnew
        simpa [List.nodup_append] using ⟨h, fun cdn hcdn heq =>
          hnew (heq ▸ hcdn)⟩
  | @recheck cdn =>
      obtain ⟨point, heq, -⟩ := recheck_cases cfg s cdn
      rwa [heq]
  | flush | enqueueReturn => rwa [hflush]
  | _ => exact h

/-- A task that waits for the lock of `flush_all` starts the sweep with it. -/
theorem flushing_start {cfg : DaemonConfig} {failing : String → Bool}
    {s after : State} {task : Task} {out : List Obs} (hkeys : Consistent s)
    (hnodup : s.cdns.Nodup) (hpoint : s.point task = .flushAllLock)
    (hstep : step cfg s (.acquire task) = some (after, out)) :
    task.flushesAll ∧ Flushing failing task s out after := by
  have htask : task.flushesAll := by
    have howned := hkeys.owned task
    rw [hpoint] at howned
    cases task <;> first | exact trivial | simp [Task.owns] at howned
  cases move_of_step hstep with
  | submit _ _ hwhere => simp [hpoint] at hwhere
  | recheck _ _ hwhere => simp [hpoint] at hwhere
  | flush hlock hspared hwhere =>
      rcases hwhere with ⟨_, -, hwhere, -⟩ | ⟨-, rfl⟩
      · simp [hpoint] at hwhere
      · refine ⟨htask, ?_⟩
        have hflushing := @flushing_flushLocked failing task s s [] htask hkeys
          hspared (by simp [hpoint]) (.inl hlock) s.cdns hnodup
          (fun _ _ => rfl) rfl rfl
        exact hflushing

/-- For every reachable state in which a call of `flush_all`, or `run` on its
way through the shutdown, gets the lock, and for every set of CDNs whose
`enqueue` raises: the flush comes to its end, and then it has called `enqueue`
once with all of every buffer, if and only if no CDN that fails has a buffer
with URLs behind its own. -/
theorem drain_isolates_cdns_iff {cfg : DaemonConfig} {now : ℚ}
    {trace out : List Obs} {s after : State} {task : Task}
    (hrun : Reaches (step cfg) (fun _ _ => True) (init now) trace s)
    (hpoint : s.point task = .flushAllLock)
    (hstep : step cfg s (.acquire task) = some (after, out))
    (failing : String → Bool) :
    (∃ trace' s', Reaches (step cfg)
        (fun s action => flushing failing task s action) after trace' s' ∧
      (s'.point task).isEnded) ∧
    ∀ trace' s', Reaches (step cfg)
        (fun s action => flushing failing task s action) after trace' s' →
      (s'.point task).isEnded →
        (DrainsAll failing s (out ++ trace') ↔ Isolated failing s) := by
  have hkeys := consistent_of_reaches hrun
  have hnodup : s.cdns.Nodup :=
    hrun.invariant (fun _ s => s.cdns.Nodup) List.nodup_nil
      fun h _ hstep => nodup_cdns_move h (move_of_step hstep)
  obtain ⟨htask, hstart⟩ :=
    @flushing_start cfg failing s after task out hkeys hnodup hpoint hstep
  constructor
  · apply exists_reaches_of_measure
      (fun s' => ∃ trace', Flushing failing task s trace' s') _
      (fun s' => (s'.point task).left) _ ⟨_, hstart⟩
    rintro s' ⟨trace', hflushing⟩ hbusy
    obtain ⟨action, next, new, hallowed, hnext, hleft⟩ :=
      hflushing.progress cfg htask hbusy
    exact ⟨action, next, new, hallowed, hnext,
      ⟨_, flushing_step hflushing htask hallowed hnext⟩, hleft⟩
  · intro trace' s' hflush hended
    have hflushing : Flushing failing task s (out ++ trace') s' := by
      apply hflush.invariant fun trace' s' =>
        Flushing failing task s (out ++ trace') s'
      · simpa using hstart
      · intro trace' s' action next new h hallowed hnext
        rw [← List.append_assoc]
        exact flushing_step h htask hallowed hnext
    have hcalled := hflushing.called
    have hstored := hflushing.stored
    cases hend : s'.point task with
    | ended outcome =>
        rw [hend] at hcalled hstored
        simp only [ahead, unsettled, batchesOf, List.map_nil,
          List.append_nil, List.filter_nil] at hcalled hstored
        exact drainsAll_iff hnodup hkeys.known hcalled hstored
    | _ => simp [hend, Point.isEnded] at hended

section Samples

/-- Two CDNs with a URL each, when the shutdown has come to the drain. -/
def twoBuffers : Option (State × List Obs) :=
  execute (step {}) (fun _ _ => True) (init 0)
    [.submit 0 ⟨"a", "/x"⟩, .acquire (.submit 0), .submit 1 ⟨"b", "/y"⟩,
      .acquire (.submit 1), .shutdown, .deliver .run,
      .deliver (.debounce "a"), .deliver (.debounce "b"), .gathered]

/-- The last buffer fails. -/
theorem drain_isolates_cdns_iff_sample :
    ∃ trace s after out trace' s',
      Reaches (step {}) (fun _ _ => True) (init 0) trace s ∧
      step {} s (.acquire .run) = some (after, out) ∧
      Reaches (step {}) (fun s action => flushing (· = "b") .run s action)
        after trace' s' ∧
      s.cdns = ["a", "b"] ∧ DrainsAll (· = "b") s (out ++ trace') := by
  have hreplay : (twoBuffers.bind fun final =>
      (step {} final.1 (.acquire .run)).map fun _ =>
        (final.1.cdns, final.1.point .run)) =
          some (["a", "b"], .flushAllLock) := by decide +kernel
  obtain ⟨⟨s, trace⟩, hfinal, hreplay⟩ := Option.bind_eq_some_iff.mp hreplay
  obtain ⟨⟨after, out⟩, hstep, hview⟩ := Option.map_eq_some_iff.mp hreplay
  obtain ⟨hcdns, hpoint⟩ := Prod.ext_iff.mp hview
  have hrun : Reaches (step {}) (fun _ _ => True) (init 0) trace s :=
    Reaches.refl.execute hfinal
  obtain ⟨⟨trace', s', hflush, hended⟩, hiff⟩ :=
    drain_isolates_cdns_iff hrun hpoint hstep (· = "b")
  refine ⟨trace, s, after, out, trace', s', hrun, hstep, hflush, hcdns,
    (hiff trace' s' hflush hended).mpr ?_⟩
  intro before cdn rest hsplit _ hfails
  obtain rfl : cdn = "b" := by simpa using hfails
  rw [show s.cdns = ["a", "b"] from hcdns] at hsplit
  rcases before with - | ⟨first, - | ⟨second, before⟩⟩ <;> simp_all

/-- The first buffer fails, and the other one is not flushed. -/
theorem failing_cdn_stops_drain :
    ∃ trace s after out trace' s',
      Reaches (step {}) (fun _ _ => True) (init 0) trace s ∧
      s.point .run = .flushAllLock ∧ s.buffers "b" = ["/y"] ∧
      step {} s (.acquire .run) = some (after, out) ∧
      Reaches (step {}) (fun s action => flushing (· = "a") .run s action)
        after trace' s' ∧
      (s'.point .run).isEnded ∧ calls (out ++ trace') = [("a", ["/x"])] ∧
      ¬ DrainsAll (· = "a") s (out ++ trace') := by
  have hreplay : (twoBuffers.bind fun final =>
      (step {} final.1 (.acquire .run)).bind fun next =>
        (execute (step {}) (fun s action => flushing (· = "a") .run s action)
          next.1 [.enqueueRaise .run]).map fun last =>
            decide (final.1.point .run = .flushAllLock ∧
              final.1.buffers "b" = ["/y"] ∧
              (last.1.point .run).isEnded ∧
              calls (next.2 ++ last.2) = [("a", ["/x"])])) = some true := by
    decide +kernel
  obtain ⟨⟨s, trace⟩, hfinal, hreplay⟩ := Option.bind_eq_some_iff.mp hreplay
  obtain ⟨⟨after, out⟩, hstep, hreplay⟩ := Option.bind_eq_some_iff.mp hreplay
  obtain ⟨⟨s', trace'⟩, hlast, hview⟩ := Option.map_eq_some_iff.mp hreplay
  obtain ⟨hpoint, hbuffer, hended, hcalls⟩ := of_decide_eq_true hview
  refine ⟨trace, s, after, out, trace', s', Reaches.refl.execute hfinal, hpoint,
    hbuffer, hstep, Reaches.refl.execute hlast, hended, hcalls, fun hdrains => ?_⟩
  have hcalled := hdrains.called "b" (by rw [hbuffer]; simp)
  rw [show calls (out ++ trace') = [("a", ["/x"])] from hcalls] at hcalled
  simp at hcalled

end Samples

end MirrorMirage.Batcher
