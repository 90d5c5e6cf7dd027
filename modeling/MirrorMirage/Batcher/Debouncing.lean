import MirrorMirage.Batcher.Rest

/-!
# The batcher as a debouncer for each CDN

In a timely run the batches of a CDN are those of a debouncer that reads the
submits to this CDN alone.
-/

namespace MirrorMirage.Batcher

open Function (update)
open MirrorMirage.Run

/-! ## One debouncer for each CDN -/

/-- The submits to a CDN. -/
def Obs.entry (cdn : String) : Obs → Option (ℚ × String)
  | .added cdn' url time => if cdn' = cdn then some (time, url) else none
  | _ => none

/-- The batches of a CDN. -/
def Obs.batch (cdn : String) : Obs → Option (ℚ × Finset String)
  | .enqueued cdn' urls time =>
      if cdn' = cdn then some (time, urls.toFinset) else none
  | _ => none

def debouncer (cdn : String) (trace : List Obs) (s : State) :
    Debounce.State ℚ String where
  pending := s.pending cdn
  batches := trace.filterMap (Obs.batch cdn)

@[simp] theorem debouncer_pending (cdn : String) (trace : List Obs)
    (s : State) : (debouncer cdn trace s).pending = s.pending cdn := rfl

/-- The batcher follows a debouncer on the submits of each CDN. -/
def Debounces (cfg : DaemonConfig) (trace : List Obs) (s : State) : Prop :=
  ∀ cdn, Debounce.Follows (limits cfg) s.now
    (trace.filterMap (Obs.entry cdn)) (debouncer cdn trace s)

section Debounces

variable {cfg : DaemonConfig} {trace out : List Obs} {s after : State}

/-- A step that neither adds nor flushes anything. -/
theorem Debounces.of_eq (h : Debounces cfg trace s)
    (hnow : s.now ≤ after.now) (hpending : after.pending = s.pending)
    (hquiet : ∀ event ∈ out, ∀ cdn, event.entry cdn = none ∧
      event.batch cdn = none) : Debounces cfg (trace ++ out) after := by
  intro cdn
  have hentries : out.filterMap (Obs.entry cdn) = [] :=
    List.filterMap_eq_nil_iff.mpr fun event hevent => (hquiet event hevent cdn).1
  have hbatches : out.filterMap (Obs.batch cdn) = [] :=
    List.filterMap_eq_nil_iff.mpr fun event hevent => (hquiet event hevent cdn).2
  have hsame := (h cdn).later hnow
  simpa [debouncer, hentries, hbatches, hpending] using hsame

/-- A debounce task flushes its buffer at the deadline. -/
theorem Debounces.flush (h : Debounces cfg trace s) {cdn : String}
    {pending : Debounce.Pending ℚ String}
    (hpending : s.pending cdn = some pending)
    (hdue : pending.deadline (limits cfg) = s.now) :
    Debounces cfg (trace ++ [.enqueued cdn (s.buffers cdn) s.now])
      (takeBuffer s (.debounce cdn) cdn []) := by
  intro other
  have hnow : (takeBuffer s (.debounce cdn) cdn []).now = s.now := rfl
  by_cases heq : other = cdn
  · subst heq
    have hflushed := (h other).flush hpending hdue
    rw [pending_items hpending] at hflushed
    have hnone : (takeBuffer s (.debounce other) other []).pending other =
        none := by simp [State.pending]
    simpa [debouncer, hnone, Obs.entry, Obs.batch, List.filterMap_cons]
      using hflushed
  · have hsame : (takeBuffer s (.debounce cdn) cdn []).pending other =
        s.pending other :=
      pending_congr (by simp [heq]) (by simp [heq]) (by simp [heq])
    simpa [debouncer, hsame, Obs.entry, Obs.batch, List.filterMap_cons,
      Ne.symm heq] using h other

/-- A submit goes to the debouncer of its CDN and to no other. -/
theorem Debounces.submit (h : Debounces cfg trace s) (hkeys : Consistent s)
    (htidy : Tidy s) {call : ℕ}
    (hstep : step cfg s (.acquire (.submit call)) = some (after, out))
    (hearly : ∀ target pending, s.point (.submit call) = .submitLock target →
      s.pending target.cdnName = some pending →
        s.now < pending.deadline (limits cfg)) :
    Debounces cfg (trace ++ out) after := by
  obtain ⟨target, added, hpoint, -, hadded, hcase⟩ := submit_of_step hkeys hstep
  have hpending : added.pending target.cdnName =
      some (Debounce.collect s.now target.url (s.pending target.cdnName)) := by
    rw [hadded, addTarget_pending (consistent_openBuffer hkeys _),
      openBuffer_pending hkeys, openBuffer_now]
  have hcard : (Debounce.collect s.now target.url
      (s.pending target.cdnName)).items.card =
        (added.buffers target.cdnName).length := by
    rw [pending_items hpending]
    apply List.toFinset_card_of_nodup
    rw [hadded]
    exact (tidy_addTarget (tidy_openBuffer htidy hkeys _) _).nodup _
  have hother : ∀ cdn, cdn ≠ target.cdnName →
      added.pending cdn = s.pending cdn := by
    intro cdn hcdn
    rw [hadded, addTarget_pending_of_ne hcdn, openBuffer_pending hkeys]
  have hnow : added.now = s.now := by simp [hadded]
  intro cdn
  by_cases heq : cdn = target.cdnName
  · subst heq
    have hsubmitted := (h target.cdnName).submit
      (fun pending hsome => hearly target pending hpoint hsome) target.url
    rcases hcase with ⟨hfull, rfl, rfl⟩ | ⟨hfull, rfl, rfl⟩
    · have hsize : (limits cfg).size ≤ (Debounce.collect s.now target.url
          (s.pending target.cdnName)).items.card := by
        rw [hcard]
        exact Int.toNat_le.mpr hfull
      have hnone : (takeBuffer added (.submit call) target.cdnName []).pending
          target.cdnName = none := by simp [State.pending]
      rw [Debounce.State.add, debouncer_pending, if_pos hsize,
        pending_items hpending] at hsubmitted
      simpa [debouncer, hnone, Obs.entry, Obs.batch, List.filterMap_cons, hnow]
        using hsubmitted
    · have hsize : ¬ (limits cfg).size ≤ (Debounce.collect s.now target.url
          (s.pending target.cdnName)).items.card := by
        rw [hcard]
        exact fun hle => hfull.not_ge (Int.toNat_le.mp hle)
      have hsame : (added.leave (.submit call) (.ended .returned)).pending
          target.cdnName = added.pending target.cdnName := rfl
      rw [Debounce.State.add, debouncer_pending, if_neg hsize] at hsubmitted
      simpa [debouncer, hsame, hpending, Obs.entry, Obs.batch,
        List.filterMap_cons, hnow] using hsubmitted
  · have hquiet : ∀ event ∈ out, event.entry cdn = none ∧
        event.batch cdn = none := by
      rcases hcase with ⟨-, -, rfl⟩ | ⟨-, -, rfl⟩ <;>
        simp [Obs.entry, Obs.batch, Ne.symm heq]
    have hsame : after.pending cdn = s.pending cdn := by
      rcases hcase with ⟨-, rfl, -⟩ | ⟨-, rfl, -⟩
      · rw [← hother cdn heq]
        exact pending_congr (by simp [heq]) (by simp [heq]) (by simp [heq])
      · exact hother cdn heq
    have hafter : after.now = s.now := by
      rcases hcase with ⟨-, rfl, -⟩ | ⟨-, rfl, -⟩ <;> exact hnow
    have hentries : out.filterMap (Obs.entry cdn) = [] :=
      List.filterMap_eq_nil_iff.mpr fun event hevent => (hquiet event hevent).1
    have hbatches : out.filterMap (Obs.batch cdn) = [] :=
      List.filterMap_eq_nil_iff.mpr fun event hevent => (hquiet event hevent).2
    simpa [debouncer, hentries, hbatches, hsame, hafter] using h cdn

end Debounces

/-! ## One step -/

section Step

variable {cfg : DaemonConfig} {trace out : List Obs} {s after : State}
variable {action : Action}

theorem Debounces.step (h : Debounces cfg trace s) (htimed : Timed cfg s)
    (htimely : Timely cfg s action)
    (hstep : step cfg s action = some (after, out)) :
    Debounces cfg (trace ++ out) after := by
  have hsmooth := htimely.isSmooth
  have hmove := move_of_step hstep
  cases hmove with
  | tick hnow => exact h.of_eq hnow rfl (by simp)
  | flushAllCall => exact htimely.elim
  | submit =>
      apply h.submit htimed.keys htimed.tidy hstep
      intro target pending hpoint hpending
      exact htimed.onTime.lt_deadline htimely hpoint pending hpending
  | @recheck cdn =>
      obtain ⟨point, heq, -⟩ := recheck_cases cfg s cdn
      rw [heq]
      exact h.of_eq le_rfl rfl (by simp)
  | flush hlock hcancel hpoint =>
      rcases hpoint with ⟨cdn, rfl, hpoint, rfl⟩ | ⟨hpoint, -⟩
      · obtain ⟨pending, hpending, hdue⟩ := htimed.onTime.due hpoint
        have hbuffer := buffer_ne_nil htimed.keys hpending
        simp only [flushLocked, hbuffer, if_false]
        exact h.flush hpending hdue
      · exact absurd hpoint (htimed.tidy.idle _).1
  | commit => exact h.of_eq le_rfl rfl (by simp [Obs.entry, Obs.batch])
  | enqueueReturn hpoint =>
      rw [htimed.tidy.single hpoint]
      exact h.of_eq le_rfl rfl (by simp [flushLocked])
  | submitCall | wake | timeout | gathered =>
      exact h.of_eq le_rfl rfl (by simp)
  | _ => simp [Action.isSmooth] at hsmooth

end Step

/-! ## Every run -/

theorem debounces_of_reaches {cfg : DaemonConfig} {now : ℚ} {trace : List Obs}
    {s : State} (hquiet : 0 < cfg.batchQuietWindowSeconds)
    (hage : 0 < cfg.batchMaxAgeSeconds)
    (hrun : Reaches (step cfg) (Timely cfg) (init now) trace s) :
    Debounces cfg trace s := by
  apply hrun.invariant_along (Debounces cfg) fun _ => Debounce.follows_nil
  intro trace s action after out hearlier h htimely hstep
  exact h.step (timed_of_reaches hquiet hage hearlier).1 htimely hstep

/-- At rest nothing that is pending is due. -/
theorem early_of_resting {cfg : DaemonConfig} {s : State} (htimed : Timed cfg s)
    (hresting : Resting cfg s) (cdn : String) (trace : List Obs) :
    (debouncer cdn trace s).Early (limits cfg) s.now := by
  intro pending hpending
  obtain ⟨hwake, deadline, hpoint⟩ := hresting.timedWait htimed.keys htimed.tidy
    htimed.watched (buffer_ne_nil htimed.keys hpending)
  rcases htimed.onTime.waiting hpoint with
    ⟨hset, -⟩ | ⟨-, other, hother, hdeadline⟩
  · simp [hwake] at hset
  · obtain rfl := Option.some.inj (hother.symm.trans hpending)
    exact hdeadline ▸ hresting.asleep cdn deadline hpoint

/-- In every run in which the tasks take no time, the tasks come to rest
between any two submits and ticks of the clock, and whenever they are at rest
the batches of a CDN are those of a debouncer that has read the submits to this
CDN and nothing else. -/
theorem batcher_debounces_each_cdn {cfg : DaemonConfig} {now : ℚ}
    {trace : List Obs} {s : State}
    (hquiet : 0 < cfg.batchQuietWindowSeconds)
    (hage : 0 < cfg.batchMaxAgeSeconds)
    (hrun : Reaches (step cfg) (Timely cfg) (init now) trace s) :
    (∃ later final, Reaches (step cfg)
        (fun s action => Timely cfg s action ∧ action.isInternal) s later final ∧
      Resting cfg final) ∧
    (Resting cfg s → ∀ cdn, trace.filterMap (Obs.batch cdn) =
      Debounce.batches (limits cfg) s.now
        (trace.filterMap (Obs.entry cdn))) := by
  have hdebounces := debounces_of_reaches hquiet hage hrun
  obtain ⟨htimed, tasks, hcovers⟩ := timed_of_reaches hquiet hage hrun
  constructor
  · exact comes_to_rest hquiet hage htimed hcovers
  · intro hresting cdn
    exact (hdebounces cdn).batches_eq (early_of_resting htimed hresting cdn trace)

/-- Two submits to one CDN, the second of which puts the flush off, while a
submit to another CDN is flushed at its own deadline. -/
theorem batcher_debounces_each_cdn_sample :
    ∃ trace s, Reaches (step {}) (Timely {}) (init 0) trace s ∧
      Resting {} s ∧
      trace.filterMap (Obs.entry "a") = [(0, "/x"), (4, "/y")] ∧
      trace.filterMap (Obs.batch "a") = [(14, {"/x", "/y"})] ∧
      Debounce.batches (limits {}) 14 [(0, "/x"), (4, "/y")] =
        [(14, {"/x", "/y"})] := by
  let listed : List Task :=
    [.submit 0, .submit 1, .submit 2, .debounce "a", .debounce "b"]
  obtain ⟨trace, s, hreplay, hview⟩ := exists_reaches_of_execute (step {})
    (init 0) (fun s action => timelyCheck {} listed s action)
    (fun final => (final.2.filterMap (Obs.entry "a"),
      final.2.filterMap (Obs.batch "a"), final.1.now,
      decide (∀ task ∈ listed, task.waits {} final.1)))
    ([(0, "/x"), (4, "/y")], [(14, {"/x", "/y"})], 14, true)
    [.submit 0 ⟨"a", "/x"⟩, .acquire (.submit 0), .wake "a",
      .acquire (.debounce "a"), .tick 2,
      .submit 1 ⟨"b", "/z"⟩, .acquire (.submit 1), .wake "b",
      .acquire (.debounce "b"), .tick 4,
      .submit 2 ⟨"a", "/y"⟩, .acquire (.submit 2), .wake "a",
      .acquire (.debounce "a"), .tick 12,
      .timeout "b", .acquire (.debounce "b"), .commit (.debounce "b"),
      .enqueueReturn (.debounce "b"), .tick 14,
      .timeout "a", .acquire (.debounce "a"), .commit (.debounce "a"),
      .enqueueReturn (.debounce "a")]
    (by decide +kernel)
  simp only [Prod.mk.injEq] at hview
  obtain ⟨hentries, hbatches, hnow, hwaits⟩ := hview
  obtain ⟨hrun, htimed, hcovers⟩ :=
    reaches_of_check (by decide) (by decide) hreplay
  have hresting : Resting {} s := by
    apply resting_of_waits htimed.tidy hcovers
    simpa using of_decide_eq_true hwaits
  have hsame := (batcher_debounces_each_cdn (by decide) (by decide) hrun).2
    hresting "a"
  rw [hentries, hbatches, hnow] at hsame
  exact ⟨trace, s, hrun, hresting, hentries, hbatches, hsame.symm⟩

end MirrorMirage.Batcher
