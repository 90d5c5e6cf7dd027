import MirrorMirage.Batcher.Invariant
import MirrorMirage.Core.Since

/-!
# Buffers and batches within bounds

Whatever fails or is cancelled, the four dictionaries of the batcher agree and
a buffer never holds as much as a full batch: `submit` takes a full buffer in
the same turn, and `_flush_locked` clears all of it before its await.
-/

namespace MirrorMirage.Batcher

open Function (update)
open MirrorMirage.Run MirrorMirage.Trace

def Obs.Fills (cdn : String) : Obs → Prop
  | .added cdn' _ _ => cdn' = cdn
  | _ => False

def Obs.Empties (cdn : String) : Obs → Prop
  | .enqueued cdn' _ _ => cdn' = cdn
  | _ => False

/-- A URL was added for the CDN since its buffer was last taken. -/
def Filled (cdn : String) (trace : List Obs) : Prop :=
  Since (Obs.Fills cdn) (Obs.Empties cdn) trace

/-- The submit at the given time found the buffer empty, which has not been
taken since. -/
def OpenedAt (cdn : String) (time : ℚ) (trace : List Obs) : Prop :=
  ∃ before url after, trace = before ++ .added cdn url time :: after ∧
    ¬ Filled cdn before ∧ ∀ event ∈ after, ¬ event.Empties cdn

/-- The size of a full batch; a cap that is not positive means one URL. -/
def batchCap (cfg : DaemonConfig) : ℤ := max 1 cfg.batchMaxSize

/-- A batch that may be passed to `enqueue`. -/
def FitsBatch (cfg : DaemonConfig) (urls : List String) : Prop :=
  urls ≠ [] ∧ urls.Nodup ∧ (urls.length : ℤ) ≤ batchCap cfg

/-- The dictionaries against the trace. -/
structure Stocked (cfg : DaemonConfig) (trace : List Obs) (s : State) :
    Prop where
  nodup : ∀ cdn, (s.buffers cdn).Nodup
  atMost : ∀ cdn, ((s.buffers cdn).length : ℤ) ≤ batchCap cfg
  filled : ∀ cdn, s.buffers cdn ≠ [] ↔ Filled cdn trace
  opened : ∀ cdn time, s.firstAdded cdn = some time → OpenedAt cdn time trace
  ordered : ∀ cdn first, s.firstAdded cdn = some first →
    ∃ last, s.lastAdded cdn = some last ∧ first ≤ last ∧ last ≤ s.now
  batches : ∀ cdn urls time, .enqueued cdn urls time ∈ trace →
    FitsBatch cfg urls

/-- Every buffer has room for a URL. -/
def HasRoom (cfg : DaemonConfig) (s : State) : Prop :=
  ∀ cdn, ((s.buffers cdn).length : ℤ) < batchCap cfg

theorem OpenedAt.append {cdn : String} {time : ℚ} {trace out : List Obs}
    (h : OpenedAt cdn time trace) (hout : ∀ event ∈ out, ¬ event.Empties cdn) :
    OpenedAt cdn time (trace ++ out) := by
  obtain ⟨before, url, after, rfl, hempty, hafter⟩ := h
  refine ⟨before, url, after ++ out, by simp, hempty, fun event hevent => ?_⟩
  exact (List.mem_append.mp hevent).elim (hafter event) (hout event)

theorem stocked_init (cfg : DaemonConfig) (now : ℚ) :
    Stocked cfg [] (init now) := by
  constructor <;> simp [init, Filled, batchCap]

section Updates

variable {cfg : DaemonConfig} {trace out : List Obs} {s after : State}

theorem Stocked.of_eq (h : Stocked cfg trace s)
    (hbuffers : after.buffers = s.buffers)
    (hfirst : after.firstAdded = s.firstAdded)
    (hlast : after.lastAdded = s.lastAdded) (hnow : s.now ≤ after.now)
    (hquiet : ∀ event ∈ out, ∀ cdn, ¬ event.Fills cdn ∧ ¬ event.Empties cdn) :
    Stocked cfg (trace ++ out) after where
  nodup := hbuffers ▸ h.nodup
  atMost := hbuffers ▸ h.atMost
  filled := by
    intro cdn
    rw [hbuffers, Filled, since_append_of_silent fun event hevent =>
      hquiet event hevent cdn]
    exact h.filled cdn
  opened := by
    intro cdn time htime
    rw [hfirst] at htime
    exact (h.opened cdn time htime).append fun event hevent =>
      (hquiet event hevent cdn).2
  ordered := by
    intro cdn first hsome
    rw [hfirst] at hsome
    obtain ⟨last, hlast', hle, hbefore⟩ := h.ordered cdn first hsome
    exact ⟨last, hlast ▸ hlast', hle, hbefore.trans hnow⟩
  batches := by
    intro cdn urls time hmem
    rcases List.mem_append.mp hmem with hmem | hmem
    · exact h.batches cdn urls time hmem
    · exact absurd rfl (hquiet _ hmem cdn).2

theorem Stocked.openBuffer (h : Stocked cfg trace s) (hkeys : Consistent s)
    (cdn : String) : Stocked cfg trace (openBuffer s cdn) := by
  have hopen : Stocked cfg (trace ++ []) (Batcher.openBuffer s cdn) :=
    h.of_eq (openBuffer_buffers hkeys cdn) (by simp) (by simp) (by simp)
      (by simp)
  rwa [List.append_nil] at hopen

/-- A target goes into a buffer that has room for it. -/
theorem Stocked.addTarget (h : Stocked cfg trace s)
    (hroom : HasRoom cfg s) (target : PurgeTarget) :
    Stocked cfg (trace ++ [.added target.cdnName target.url s.now])
      (addTarget s target) where
  nodup := addTarget_nodup h.nodup target
  atMost := by
    intro cdn
    by_cases heq : cdn = target.cdnName
    · subst heq
      have hlength := length_addTarget_le s target
      have hless := hroom target.cdnName
      omega
    · rw [addTarget_buffers_of_ne s target heq]
      exact h.atMost cdn
  filled := by
    intro cdn
    rw [Filled, since_append, since_singleton]
    by_cases heq : cdn = target.cdnName
    · subst heq
      exact iff_of_true (addTarget_buffers_ne_nil s target) (.inl rfl)
    · rw [addTarget_buffers_of_ne s target heq, h.filled cdn]
      simp [Obs.Fills, Obs.Empties, Ne.symm heq, Filled]
  opened := by
    intro cdn time htime
    have hquiet : ∀ event ∈ [Obs.added target.cdnName target.url s.now],
        ¬ event.Empties cdn := by simp [Obs.Empties]
    simp only [Batcher.addTarget] at htime
    split at htime
    · rename_i hempty
      by_cases heq : cdn = target.cdnName
      · subst heq
        obtain rfl : s.now = time := by simpa using htime
        exact ⟨trace, target.url, [], rfl,
          fun hfilled => (h.filled _).mpr hfilled hempty, by simp⟩
      · rw [Function.update_of_ne heq] at htime
        exact (h.opened cdn time htime).append hquiet
    · exact (h.opened cdn time htime).append hquiet
  ordered := by
    intro cdn first hfirst
    by_cases heq : cdn = target.cdnName
    · subst heq
      refine ⟨s.now, by simp, ?_, le_rfl⟩
      simp only [Batcher.addTarget] at hfirst
      split at hfirst
      · simp only [Function.update_self, Option.some.injEq] at hfirst
        exact hfirst.ge
      · obtain ⟨last, -, hle, hnow⟩ := h.ordered _ first hfirst
        exact hle.trans hnow
    · have hold : s.firstAdded cdn = some first := by
        simp only [Batcher.addTarget] at hfirst
        split at hfirst
        · rwa [Function.update_of_ne heq] at hfirst
        · exact hfirst
      obtain ⟨last, hlast, hle⟩ := h.ordered cdn first hold
      exact ⟨last, by simpa [heq] using hlast, hle⟩
  batches := by
    intro cdn urls time hmem
    exact h.batches cdn urls time (by simpa using hmem)

/-- A buffer that is taken makes a batch. -/
theorem Stocked.takeBuffer (h : Stocked cfg trace s) (task : Task)
    {cdn : String} (hbuffer : s.buffers cdn ≠ []) (rest : List String) :
    Stocked cfg (trace ++ [.enqueued cdn (s.buffers cdn) s.now])
      (takeBuffer s task cdn rest) where
  nodup := by
    intro other
    by_cases heq : other = cdn <;> simp [heq, h.nodup other]
  atMost := by
    intro other
    by_cases heq : other = cdn
    · simp [heq, batchCap]
    · simpa [heq] using h.atMost other
  filled := by
    intro other
    rw [Filled, since_append, since_singleton]
    by_cases heq : other = cdn
    · simp [heq, Obs.Fills, Obs.Empties]
    · simpa [heq, Obs.Fills, Obs.Empties, Ne.symm heq, Filled] using
        h.filled other
  opened := by
    intro other time htime
    have heq : other ≠ cdn := by
      rintro rfl
      simp at htime
    exact (h.opened other time (by simpa [heq] using htime)).append
      (by simpa [Obs.Empties] using heq.symm)
  ordered := by
    intro other first hfirst
    have heq : other ≠ cdn := by
      rintro rfl
      simp at hfirst
    simpa [heq] using h.ordered other first (by simpa [heq] using hfirst)
  batches := by
    intro other urls time hmem
    rcases List.mem_append.mp hmem with hmem | hmem
    · exact h.batches other urls time hmem
    · cases List.mem_singleton.mp hmem
      exact ⟨hbuffer, h.nodup cdn, h.atMost cdn⟩

theorem Stocked.flushLocked (h : Stocked cfg trace s) (task : Task)
    (todo : List String) :
    Stocked cfg (trace ++ (flushLocked s task todo).2)
      (flushLocked s task todo).1 := by
  rcases flushLocked_cases s task todo with
    ⟨-, heq⟩ | ⟨-, cdn, rest, -, -, hbuffer, heq⟩
  · rw [heq]
    exact h.of_eq rfl rfl rfl le_rfl (by simp)
  · rw [heq]
    exact h.takeBuffer task hbuffer rest

theorem HasRoom.of_eq (h : HasRoom cfg s) (hbuffers : after.buffers = s.buffers) :
    HasRoom cfg after :=
  fun cdn => hbuffers ▸ h cdn

/-- A buffer that is taken has room again. -/
theorem HasRoom.takeBuffer {cdn : String}
    (h : ∀ other ≠ cdn, ((s.buffers other).length : ℤ) < batchCap cfg)
    (task : Task) (rest : List String) :
    HasRoom cfg (takeBuffer s task cdn rest) := by
  intro other
  by_cases heq : other = cdn
  · simp [heq, batchCap]
  · simpa [heq] using h other heq

theorem HasRoom.flushLocked (h : HasRoom cfg s) (task : Task)
    (todo : List String) : HasRoom cfg (flushLocked s task todo).1 := by
  rcases flushLocked_cases s task todo with
    ⟨-, heq⟩ | ⟨-, cdn, rest, -, -, -, heq⟩
  · rw [heq]
    exact h.of_eq rfl
  · rw [heq]
    exact HasRoom.takeBuffer (fun other _ => h other) task rest

end Updates

section Run

variable {cfg : DaemonConfig} {trace out : List Obs} {s after : State}
variable {action : Action}

/-- A submit adds to a buffer with room, and takes it once it is full. -/
theorem stocked_submit (h : Stocked cfg trace s) (hroom : HasRoom cfg s)
    (hkeys : Consistent s) {call : ℕ}
    (hstep : step cfg s (.acquire (.submit call)) = some (after, out)) :
    Stocked cfg (trace ++ out) after ∧ HasRoom cfg after := by
  obtain ⟨target, added, -, -, hadded, hcase⟩ := submit_of_step hkeys hstep
  have hopened : HasRoom cfg (openBuffer s target.cdnName) :=
    hroom.of_eq (openBuffer_buffers hkeys _)
  have hstocked : Stocked cfg
      (trace ++ [.added target.cdnName target.url s.now]) added := by
    rw [hadded, ← openBuffer_now s target.cdnName]
    exact (h.openBuffer hkeys _).addTarget hopened target
  have hothers : ∀ other ≠ target.cdnName,
      ((added.buffers other).length : ℤ) < batchCap cfg := by
    intro other hother
    rw [hadded, addTarget_buffers_of_ne _ _ hother]
    exact hopened other
  rcases hcase with ⟨-, hafter, hout⟩ | ⟨hfree, hafter, hout⟩
  · have hbuffer : added.buffers target.cdnName ≠ [] := by
      rw [hadded]
      exact addTarget_buffers_ne_nil _ _
    have hnow : added.now = s.now := by simp [hadded]
    rw [hafter, hout, ← hnow, ← List.singleton_append, ← List.append_assoc]
    rw [← hnow] at hstocked
    exact ⟨hstocked.takeBuffer _ hbuffer _, HasRoom.takeBuffer hothers _ _⟩
  · rw [hafter, hout]
    constructor
    · rw [← List.append_nil (trace ++ _)]
      exact hstocked.of_eq rfl rfl rfl le_rfl (by simp)
    · intro other
      by_cases heq : other = target.cdnName
      · subst heq
        exact lt_of_lt_of_le hfree (le_max_right _ _)
      · exact hothers other heq

theorem stocked_step (h : Stocked cfg trace s) (hroom : HasRoom cfg s)
    (hkeys : Consistent s) (hstep : step cfg s action = some (after, out)) :
    Stocked cfg (trace ++ out) after ∧ HasRoom cfg after := by
  cases move_of_step hstep with
  | tick hnow => exact ⟨h.of_eq rfl rfl rfl hnow (by simp), hroom⟩
  | submit => exact stocked_submit h hroom hkeys hstep
  | @recheck cdn =>
      obtain ⟨point, heq, -⟩ := recheck_cases cfg s cdn
      rw [heq]
      exact ⟨h.of_eq rfl rfl rfl le_rfl (by simp), hroom⟩
  | flush | enqueueReturn =>
      exact ⟨h.flushLocked _ _, hroom.flushLocked _ _⟩
  | commit =>
      exact ⟨h.of_eq rfl rfl rfl le_rfl (by simp [Obs.Fills, Obs.Empties]),
        hroom⟩
  | _ => exact ⟨h.of_eq rfl rfl rfl le_rfl (by simp), hroom⟩

/-- What holds of the dictionaries and of the batches passed to `enqueue`. -/
structure InBounds (cfg : DaemonConfig) (trace : List Obs) (s : State) :
    Prop where
  room : ∀ cdn, ((s.buffers cdn).length : ℤ) < max 1 cfg.batchMaxSize
  firstKeys : ∀ cdn, (s.firstAdded cdn).isSome ↔ s.buffers cdn ≠ []
  lastKeys : ∀ cdn, (s.lastAdded cdn).isSome ↔ s.buffers cdn ≠ []
  ordered : ∀ cdn first last, s.firstAdded cdn = some first →
    s.lastAdded cdn = some last → first ≤ last ∧ last ≤ s.now
  /-- The first time is that of the submit that made the buffer non-empty. -/
  filled : ∀ cdn, s.buffers cdn ≠ [] ↔ Filled cdn trace
  opened : ∀ cdn first, s.firstAdded cdn = some first →
    OpenedAt cdn first trace
  /-- The reads of `_wake`, `_first_added` and `_last_added` find their key. -/
  wakeKey : ∀ cdn, s.point (.debounce cdn) ≠ .absent → cdn ∈ s.cdns
  timeKeys : ∀ cdn, (recheck cfg s cdn).point (.debounce cdn) ≠ .ended .raised
  batches : ∀ cdn urls time, .enqueued cdn urls time ∈ trace → urls ≠ [] ∧
    urls.Nodup ∧ (urls.length : ℤ) ≤ max 1 cfg.batchMaxSize

/-- While the keys are there, the inner loop of a debounce task does not
raise. -/
theorem recheck_not_raised (hkeys : Consistent s) (cdn : String) :
    (recheck cfg s cdn).point (.debounce cdn) ≠ .ended .raised := by
  unfold recheck
  split
  · simp
  · rename_i hbuffer
    obtain ⟨last, hlast⟩ :=
      Option.isSome_iff_exists.mp ((hkeys.last cdn).mpr hbuffer)
    obtain ⟨first, hfirst⟩ :=
      Option.isSome_iff_exists.mp ((hkeys.first cdn).mpr hbuffer)
    simp only [hlast, hfirst]
    split <;> simp

/-- In every state of every run, with any failures, cancellations and batch
size, the dictionaries and all batches so far are in bounds. -/
theorem buffers_and_batches_are_in_bounds {cfg : DaemonConfig} {now : ℚ}
    {trace : List Obs} {s : State}
    (hrun : Reaches (step cfg) (fun _ _ => True) (init now) trace s) :
    InBounds cfg trace s := by
  have hkeys := consistent_of_reaches hrun
  obtain ⟨hstocked, hroom⟩ : Stocked cfg trace s ∧ HasRoom cfg s := by
    apply hrun.invariant_along fun trace s =>
      Stocked cfg trace s ∧ HasRoom cfg s
    · exact ⟨stocked_init cfg now, by simp [HasRoom, init, batchCap]⟩
    · intro trace s action after out hearlier h _ hstep
      exact stocked_step h.1 h.2 (consistent_of_reaches hearlier) hstep
  refine ⟨hroom, hkeys.first, hkeys.last, fun cdn first last hfirst hlast => ?_,
    hstocked.filled, hstocked.opened, fun cdn => (hkeys.debounced cdn).mp,
    recheck_not_raised hkeys, hstocked.batches⟩
  obtain ⟨last', hlast', hle⟩ := hstocked.ordered cdn first hfirst
  cases hlast.symm.trans hlast'
  exact hle

/-- A batch size that is not positive: every submit makes a batch of one URL;
here the second one fails. -/
theorem buffers_and_batches_are_in_bounds_sample :
    ∃ trace s, Reaches (step { batchMaxSize := -3 }) (fun _ _ => True)
        (init 0) trace s ∧
      trace = [.added "a" "/x" 0, .enqueued "a" ["/x"] 0,
        .committed "a" ["/x"], .added "a" "/y" 5, .enqueued "a" ["/y"] 5] ∧
      InBounds { batchMaxSize := -3 } trace s := by
  obtain ⟨trace, s, hrun, htrace⟩ := exists_reaches_of_execute
    (step { batchMaxSize := -3 }) (init 0) (fun _ _ => True) (·.2)
    [.added "a" "/x" 0, .enqueued "a" ["/x"] 0, .committed "a" ["/x"],
      .added "a" "/y" 5, .enqueued "a" ["/y"] 5]
    [.submit 0 ⟨"a", "/x"⟩, .acquire (.submit 0), .commit (.submit 0),
      .enqueueReturn (.submit 0), .tick 5, .submit 1 ⟨"a", "/y"⟩,
      .acquire (.submit 1), .enqueueRaise (.submit 1)]
    (by decide +kernel)
  exact ⟨trace, s, hrun, htrace, buffers_and_batches_are_in_bounds hrun⟩

end Run

end MirrorMirage.Batcher
