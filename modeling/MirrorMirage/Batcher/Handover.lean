import MirrorMirage.Core.Since
import MirrorMirage.Batcher.Invariant

/-!
# The batcher hands every URL over, and hands over nothing else

A buffer holds exactly the URLs that were added and have not been taken by an
`enqueue` since (`mem_buffers_iff_since`), in every state of every run.  Both
directions of the hand-over are read off this one invariant.
-/

namespace MirrorMirage.Batcher

open Function (update)
open MirrorMirage.Run MirrorMirage.Trace

/-- Added and not taken since. -/
def Outstanding (cdn url : String) (trace : List Obs) : Prop :=
  Since (Obs.Adds cdn url) (Obs.Takes cdn url) trace

/-- The buffers hold what is outstanding, and every batch that was enqueued
was outstanding when it was. -/
structure HandedOver (trace : List Obs) (s : State) : Prop where
  held : ∀ cdn url, url ∈ s.buffers cdn ↔ Outstanding cdn url trace
  taken : Justified (fun before event => ∀ cdn url, event.Takes cdn url →
    Outstanding cdn url before) trace

theorem handedOver_of_silent {trace out : List Obs} {s after : State}
    (h : HandedOver trace s) (hbuffers : after.buffers = s.buffers)
    (hsilent : ∀ event ∈ out, ∀ cdn url,
      ¬ event.Adds cdn url ∧ ¬ event.Takes cdn url) :
    HandedOver (trace ++ out) after := by
  constructor
  · intro cdn url
    rw [hbuffers, h.held, Outstanding, Outstanding, since_append_of_silent]
    exact fun event hevent => hsilent event hevent cdn url
  · rw [justified_append]
    refine ⟨h.taken, ?_⟩
    rintro before event later rfl cdn url htakes
    exact absurd htakes (hsilent event (by simp) cdn url).2

/-- One addition: the buffer gains the URL, nothing is taken. -/
theorem handedOver_added {trace : List Obs} {s : State}
    (h : HandedOver trace s) (hkeys : Consistent s) (target : PurgeTarget)
    (time : ℚ) :
    HandedOver (trace ++ [.added target.cdnName target.url time])
      (addTarget (openBuffer s target.cdnName) target) := by
  constructor
  · intro cdn url
    rw [mem_addTarget_buffers, openBuffer_buffers hkeys, h.held, Outstanding, Outstanding,
      since_append, since_singleton]
    simp only [Obs.Adds, Obs.Takes, List.mem_singleton, forall_eq,
      not_false_eq_true, and_true]
    constructor
    · rintro (hold | ⟨rfl, rfl⟩)
      · exact .inr hold
      · exact .inl ⟨rfl, rfl⟩
    · rintro (⟨rfl, rfl⟩ | hold)
      · exact .inr ⟨rfl, rfl⟩
      · exact .inl hold
  · rw [justified_append, justified_singleton]
    exact ⟨h.taken, fun _ _ htakes => htakes.elim⟩

/-- A series of flushes takes at most one buffer, and all of it. -/
theorem handedOver_flushLocked {trace : List Obs} {s : State}
    (h : HandedOver trace s) (task : Task) (todo : List String) :
    HandedOver (trace ++ (flushLocked s task todo).2)
      (flushLocked s task todo).1 := by
  rcases flushLocked_cases s task todo with
    ⟨-, heq⟩ | ⟨-, cdn, rest, -, -, -, heq⟩
  · rw [heq]
    exact handedOver_of_silent h rfl (by simp)
  · rw [heq]
    constructor
    · intro other url
      rw [Outstanding, since_append, since_singleton]
      simp only [Obs.Adds, Obs.Takes, takeBuffer_buffers, List.mem_singleton,
        forall_eq, false_or]
      by_cases hother : other = cdn
      · subst hother
        simp only [Function.update_self, List.not_mem_nil, true_and, false_iff,
          not_and_not_right]
        exact fun hsince => (h.held other url).mpr hsince
      · have hne : ¬ cdn = other := fun heq => hother heq.symm
        simpa [Function.update_apply, hother, hne, Outstanding] using
          h.held other url
    · rw [justified_append, justified_singleton]
      refine ⟨h.taken, ?_⟩
      rintro other url ⟨rfl, hurl⟩
      simpa using (h.held cdn url).mp hurl

theorem handedOver_move {cfg : DaemonConfig} {trace out : List Obs}
    {s after : State} {action : Action} (h : HandedOver trace s)
    (hkeys : Consistent s) (hmove : Move cfg s action after out) :
    HandedOver (trace ++ out) after := by
  cases hmove with
  | submit hlock hcancel hpoint htodo =>
      rw [← List.singleton_append, ← List.append_assoc]
      exact handedOver_flushLocked (handedOver_added h hkeys _ _) _ _
  | flush => exact handedOver_flushLocked h _ _
  | enqueueReturn => exact handedOver_flushLocked h _ _
  | @recheck cdn =>
      obtain ⟨point, heq, -⟩ := recheck_cases cfg s cdn
      exact handedOver_of_silent h (by simp [heq]) (by simp)
  | commit =>
      exact handedOver_of_silent h rfl (by simp [Obs.Adds, Obs.Takes])
  | _ => exact handedOver_of_silent h rfl (by simp)

theorem handedOver_of_reaches {cfg : DaemonConfig}
    {allowed : State → Action → Prop} {now : ℚ} {trace : List Obs} {s : State}
    (hrun : Reaches (step cfg) allowed (init now) trace s) :
    HandedOver trace s := by
  apply hrun.invariant_along HandedOver
  · exact ⟨by simp [init, Outstanding], justified_nil⟩
  · intro trace state action after out hearlier h _ hstep
    exact handedOver_move h (consistent_of_reaches hearlier)
      (move_of_step hstep)

/-- In every run, whatever the order of the tasks: a URL that a submit has
added stays in its buffer until an `enqueue` for that CDN with that URL starts
after the addition; and every URL of an `enqueue` was added for that CDN after
the last `enqueue` for it that contained the URL. -/
theorem batcher_loses_and_invents_nothing {cfg : DaemonConfig} {now : ℚ}
    {trace : List Obs} {s : State}
    (hrun : Reaches (step cfg) (fun _ action => action.isSmooth) (init now)
      trace s) (cdn url : String) :
    (∀ before event after, trace = before ++ event :: after →
      event.Adds cdn url → (∀ later ∈ after, ¬ later.Takes cdn url) →
        url ∈ s.buffers cdn) ∧
    (∀ before event after, trace = before ++ event :: after →
      event.Takes cdn url → ∃ earlier submitted between,
        before = earlier ++ submitted :: between ∧ submitted.Adds cdn url ∧
          ∀ later ∈ between, ¬ later.Takes cdn url) := by
  have h := handedOver_of_reaches hrun
  constructor
  · intro before event after hsplit hadds hstop
    exact (h.held cdn url).mpr ⟨before, event, after, hsplit, hadds, hstop⟩
  · intro before event after hsplit htakes
    exact h.taken before event after hsplit cdn url htakes

/-- Two submits to one CDN, the second of which reaches the size cap. -/
theorem batcher_loses_and_invents_nothing_sample :
    ∃ trace s, Reaches (step { batchMaxSize := 2 })
        (fun _ action => action.isSmooth) (init 0) trace s ∧
      trace = [.added "a" "/x" 0, .added "a" "/y" 0,
        .enqueued "a" ["/x", "/y"] 0] ∧
      ∃ (earlier : List Obs) (submitted : Obs) (between : List Obs),
        [Obs.added "a" "/x" 0, Obs.added "a" "/y" 0] =
            earlier ++ submitted :: between ∧
          submitted.Adds "a" "/x" ∧
          ∀ later ∈ between, ¬ later.Takes "a" "/x" := by
  obtain ⟨trace, s, hrun, htrace⟩ := exists_reaches_of_execute
    (step { batchMaxSize := 2 }) (init 0)
    (fun _ action => action.isSmooth) (·.2)
    [.added "a" "/x" 0, .added "a" "/y" 0, .enqueued "a" ["/x", "/y"] 0]
    [.submit 0 ⟨"a", "/x"⟩, .submit 1 ⟨"a", "/y"⟩, .acquire (.submit 0),
      .acquire (.submit 1)]
    (by decide +kernel)
  exact ⟨trace, s, hrun, htrace,
    (batcher_loses_and_invents_nothing hrun "a" "/x").2 _ _ [] htrace
      ⟨rfl, by simp⟩⟩

end MirrorMirage.Batcher
