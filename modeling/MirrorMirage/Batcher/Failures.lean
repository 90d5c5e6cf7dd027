import MirrorMirage.Batcher.Shutdown
import MirrorMirage.Batcher.Wakeup

/-!
# What a failing `enqueue` costs

The documentation has the batcher drop the batch of an `enqueue` that fails,
log and go on.  Nothing in the code catches the error, except around the
`flush_all` of `run`: it ends the debounce task, for which `submit` makes no
other, or leaves `submit` for the pipeline (`raise_costs_the_cdn`).
`failure_costs_one_batch` says which failures cost their batch only.
-/

namespace MirrorMirage.Batcher

open Function (update)
open MirrorMirage.Run MirrorMirage.Trace

/-! ## Dropped batches on the trace -/

inductive Report where
  | seen (event : Obs)
  /-- The `enqueue` of the batch has raised, or a cancellation has ended it,
  before its row was committed. -/
  | lost (cdn : String) (urls : List String)
  deriving DecidableEq, Repr

def Report.Adds (cdn url : String) : Report → Prop
  | .seen event => event.Adds cdn url
  | _ => False

/-- The URL is in a row, or in the batch of a call that has raised or been
cancelled before its commit. -/
def Report.Settles (cdn url : String) : Report → Prop
  | .seen event => event.Commits cdn url
  | .lost cdn' urls => cdn' = cdn ∧ url ∈ urls

/-- What a step with the given observations reports. -/
def reportsOf (s : State) (action : Action) (out : List Obs) : List Report :=
  out.map .seen ++
    (dropped s action).toList.map fun batch => .lost batch.1 batch.2

/-- The machine of the batcher, with the batches that it loses. -/
def report (cfg : DaemonConfig) : StepFn State Action Report :=
  fun s action => (step cfg s action).map fun next =>
    (next.1, reportsOf s action next.2)

theorem report_eq_some {cfg : DaemonConfig} {s after : State} {action : Action}
    {reports : List Report} (h : report cfg s action = some (after, reports)) :
    ∃ out, step cfg s action = some (after, out) ∧
      reports = reportsOf s action out := by
  obtain ⟨⟨after', out⟩, hstep, heq⟩ := Option.map_eq_some_iff.mp h
  cases heq
  exact ⟨out, hstep, rfl⟩

/-! ## Failures that cost one batch -/

/-- The `enqueue` that raises is one of `flush_all`, or the daemon is being
shut down and it is one of a debounce task or the last one of `run`. -/
def endures (s : State) : Task → Bool
  | .submit _ => false
  | .debounce _ => s.shutdown
  | .flushAll _ => true
  | .run =>
      match s.point .run with
      | .enqueueing _ _ _ rest => rest.all (s.buffers · = [])
      | _ => true

def Action.cancels : Action → Bool
  | .cancel _ => true
  | _ => false

/-- Nobody but the daemon cancels, and every `enqueue` that raises is
endured. -/
def enduring (s : State) : Action → Bool
  | .enqueueRaise task => endures s task
  | action => !action.cancels

/-- What failures may not do: lose a URL that was in no lost batch, raise in
a submit, or end the debounce task of a CDN while the daemon is up. -/
structure Unharmed (cfg : DaemonConfig) (reports : List Report) (s : State) :
    Prop where
  kept : ∀ cdn url,
    Since (Report.Adds cdn url) (Report.Settles cdn url) reports →
      Carried s cdn url
  drained : (s.point .run).isEnded → ∀ cdn url, ¬ Carried s cdn url
  unraised : ∀ call, s.point (.submit call) ≠ .ended .raised
  alive : s.shutdown = false → ∀ cdn ∈ s.cdns,
    s.point (.debounce cdn) ≠ .absent ∧
      (s.point (.debounce cdn)).isEnded = false ∧
      (s.buffers cdn ≠ [] → Attended cfg s cdn)

/-! ## What holds while failures are endured -/

/-- Before the shutdown nobody is cancelled and the debounce tasks are as in a
run without failures. -/
structure Sound (cfg : DaemonConfig) (s : State) : Prop where
  calm : s.shutdown = false → ∀ task, s.cancelling task = false
  unraised : ∀ call, s.point (.submit call) ≠ .ended .raised
  watched : s.shutdown = false → Watched cfg s

section Sound

variable {cfg : DaemonConfig} {s after : State} {action : Action}
variable {out : List Obs}

theorem sound_init (cfg : DaemonConfig) (now : ℚ) : Sound cfg (init now) where
  calm := fun _ _ => rfl
  unraised := by simp [init]
  watched := fun _ => watched_init cfg now

/-- A task of another kind moves, or a submit moves without an error. -/
theorem unraised_of_update (h : ∀ call, s.point (.submit call) ≠ .ended .raised)
    {task : Task} {point : Point} (hafter : after.point = update s.point task point)
    (hpoint : ∀ call, task = .submit call → point ≠ .ended .raised) (call : ℕ) :
    after.point (.submit call) ≠ .ended .raised := by
  by_cases heq : .submit call = task
  · rw [hafter, heq, Function.update_self]
    exact hpoint call heq.symm
  · rw [hafter, Function.update_of_ne heq]
    exact h call

theorem unraised_flushLocked (h : ∀ call, s.point (.submit call) ≠ .ended .raised)
    (task : Task) (todo : List String) (call : ℕ) :
    (flushLocked s task todo).1.point (.submit call) ≠ .ended .raised := by
  rcases flushLocked_cases s task todo with
    ⟨-, heq⟩ | ⟨-, cdn, rest, -, -, -, heq⟩
  · rw [heq]
    apply unraised_of_update h rfl
    rintro call' rfl
    simp [afterFlush]
  · rw [heq]
    exact unraised_of_update h rfl (by simp) call

theorem unraised_move (h : ∀ call, s.point (.submit call) ≠ .ended .raised)
    (hallowed : enduring s action) (hmove : Move cfg s action after out)
    (call : ℕ) : after.point (.submit call) ≠ .ended .raised := by
  cases hmove with
  | tick | cancel | shutdown => exact h call
  | @submit _ target =>
      apply unraised_flushLocked
      intro other
      rw [addTarget_point, openBuffer_point_of_ne (by simp)]
      exact h other
  | @recheck cdn =>
      obtain ⟨point, heq, -⟩ := recheck_cases cfg s cdn
      rw [heq]
      exact unraised_of_update h rfl (by simp) call
  | flush | enqueueReturn => exact unraised_flushLocked h _ _ call
  | @enqueueRaise task =>
      apply unraised_of_update h rfl
      rintro other rfl
      simp [enduring, endures] at hallowed
  | _ => exact unraised_of_update h rfl (by simp) call

/-- Before the shutdown only `flush_all` may fail. -/
theorem watched_of_enduring (h : Sound cfg s) (hkeys : Consistent s)
    (hup : s.shutdown = false) (hup' : after.shutdown = false)
    (hallowed : enduring s action) (hmove : Move cfg s action after out) :
    Watched cfg after := by
  have hwatched := h.watched hup
  by_cases hsmooth : action.isSmooth
  · exact watched_move hwatched hkeys hsmooth hmove
  · cases hmove with
    | @enqueueRaise task =>
        cases task with
        | submit | debounce => simp [enduring, endures, hup] at hallowed
        | _ => exact watched_of_frame hwatched rfl rfl rfl rfl (by simp)
    | cancel => simp [enduring, Action.cancels] at hallowed
    | shutdown => cases hup'
    | deliverRun hcancel | deliver _ hcancel =>
        simp [h.calm hup] at hcancel
    | _ => simp [Action.isSmooth] at hsmooth

theorem calm_move (h : Sound cfg s) (hallowed : enduring s action)
    (hmove : Move cfg s action after out) (hup : after.shutdown = false) :
    s.shutdown = false ∧ ∀ task, after.cancelling task = false := by
  have hsame : after.shutdown = s.shutdown → after.cancelling = s.cancelling →
      s.shutdown = false ∧ ∀ task, after.cancelling task = false := by
    intro hshutdown hcancelling
    rw [hcancelling]
    exact ⟨hshutdown ▸ hup, h.calm (hshutdown ▸ hup)⟩
  cases hmove with
  | submit =>
      obtain ⟨hshutdown, hcancelling⟩ := flushLocked_shutdown
        (addTarget (openBuffer s _) _) (.submit _) _
      exact hsame (by simpa using hshutdown) (by simpa using hcancelling)
  | @recheck cdn =>
      obtain ⟨point, heq, -⟩ := recheck_cases cfg s cdn
      exact hsame (by simp [heq]) (by simp [heq])
  | flush | enqueueReturn =>
      obtain ⟨hshutdown, hcancelling⟩ := flushLocked_shutdown s _ _
      exact hsame hshutdown hcancelling
  | cancel => simp [enduring, Action.cancels] at hallowed
  | shutdown => cases hup
  | deliverRun hcancel =>
      have hcalm := h.calm hup .run
      simp [hcalm] at hcancel
  | _ => exact hsame rfl rfl

theorem sound_move (h : Sound cfg s) (hkeys : Consistent s)
    (hallowed : enduring s action) (hmove : Move cfg s action after out) :
    Sound cfg after where
  calm := fun hup => (calm_move h hallowed hmove hup).2
  unraised := unraised_move h.unraised hallowed hmove
  watched := fun hup => watched_of_enduring h hkeys
    (calm_move h hallowed hmove hup).1 hup hallowed hmove

end Sound

/-! ## Every run -/

/-- What was added and neither committed nor lost since is still carried. -/
def Owed (reports : List Report) (s : State) : Prop :=
  ∀ cdn url, Since (Report.Adds cdn url) (Report.Settles cdn url) reports →
    Carried s cdn url

section Run

variable {cfg : DaemonConfig} {s after : State} {action : Action}
variable {reports new : List Report}

theorem owed_step (h : Owed reports s) (hkeys : Consistent s)
    (hstep : report cfg s action = some (after, new)) :
    Owed (reports ++ new) after := by
  obtain ⟨out, hnext, rfl⟩ := report_eq_some hstep
  have hmove := move_of_step hnext
  intro cdn url hsince
  rcases since_append.mp hsince with hnew | ⟨hold, hstop⟩
  · obtain ⟨report, hmem, hadds⟩ := hnew.exists_start
    rcases List.mem_append.mp hmem with hseen | hlost
    · obtain ⟨event, hevent, rfl⟩ := List.mem_map.mp hseen
      exact carried_of_added hkeys hmove hevent hadds
    · obtain ⟨batch, -, rfl⟩ := List.mem_map.mp hlost
      exact hadds.elim
  · rcases carried_move (h cdn url hold) hkeys hmove with
      hcarried | ⟨event, hevent, hcommits⟩ | ⟨urls, hdropped, hurl⟩
    · exact hcarried
    · exact absurd hcommits (hstop (.seen event) (by simp [reportsOf, hevent]))
    · exact absurd ⟨rfl, hurl⟩ (hstop (.lost cdn urls) (by simp [reportsOf, hdropped]))

theorem endured_run (hallowed : enduring s action) :
    action = .enqueueRaise .run → ∀ {cdn urls committed rest},
      s.point .run = .enqueueing cdn urls committed rest →
        ∀ other ∈ rest, s.buffers other = [] := by
  rintro rfl cdn urls committed rest hpoint
  simpa [enduring, endures, hpoint] using hallowed

/-- A failure that is not endured leaves a submit that has raised, a CDN without
its task, or a buffer that nobody flushes any more. -/
theorem raise_harms (hkeys : Consistent s) {task : Task} {out : List Obs}
    (hstep : step cfg s (.enqueueRaise task) = some (after, out))
    (hharm : endures s task = false) : ¬ Unharmed cfg reports after := by
  intro hunharmed
  cases move_of_step hstep with
  | enqueueRaise hpoint =>
      cases task with
      | submit call => exact hunharmed.unraised call (by simp [afterRaise])
      | debounce cdn =>
          have hcdn := (hkeys.debounced cdn).mp (by simp [hpoint])
          have halive := (hunharmed.alive hharm cdn hcdn).2.1
          simp [afterRaise, Point.isEnded] at halive
      | flushAll => cases hharm
      | run =>
          simp only [endures, hpoint, List.all_eq_false] at hharm
          obtain ⟨cdn, -, hbuffer⟩ := hharm
          obtain ⟨url, hurl⟩ := List.exists_mem_of_ne_nil (s.buffers cdn)
            (by simpa using hbuffer)
          exact hunharmed.drained (by simp [afterRaise, Point.isEnded]) cdn url
            (.inl hurl)

end Run

theorem unharmed_of_reaches {cfg : DaemonConfig} {now : ℚ}
    {reports : List Report} {s : State}
    (hrun : Reaches (report cfg) (fun s action => enduring s action) (init now)
      reports s) : Unharmed cfg reports s ∧ Consistent s := by
  obtain ⟨howed, hdraining, hkeys, hsound⟩ : Owed reports s ∧ Draining s ∧
      Consistent s ∧ Sound cfg s := by
    apply hrun.invariant fun reports s =>
      Owed reports s ∧ Draining s ∧ Consistent s ∧ Sound cfg s
    · exact ⟨by simp [Owed], draining_init now, consistent_init now,
        sound_init cfg now⟩
    · intro reports s action after new ⟨howed, hdraining, hkeys, hsound⟩
        hallowed hreport
      obtain ⟨out, hstep, -⟩ := report_eq_some hreport
      have hmove := move_of_step hstep
      exact ⟨owed_step howed hkeys hreport,
        draining_move hdraining hkeys (endured_run hallowed) hmove,
        consistent_move hkeys hmove, sound_move hsound hkeys hallowed hmove⟩
  refine ⟨⟨howed, hdraining.not_carried, hsound.unraised, ?_⟩, hkeys⟩
  intro hup cdn hcdn
  exact ⟨(hkeys.debounced cdn).mpr hcdn, (hsound.watched hup).alive cdn,
    (hsound.watched hup).attended cdn⟩

/-- In every run whose failures are endured, a failure costs the batch that was
passed to the call and nothing else; and the next failure does harm if and only
if it is not endured. -/
theorem failure_costs_one_batch {cfg : DaemonConfig} {now : ℚ}
    {reports : List Report} {s : State}
    (hrun : Reaches (report cfg) (fun s action => enduring s action) (init now)
      reports s) :
    Unharmed cfg reports s ∧
    ∀ {task} after new, report cfg s (.enqueueRaise task) = some (after, new) →
      (Unharmed cfg (reports ++ new) after ↔ endures s task) := by
  obtain ⟨hunharmed, hkeys⟩ := unharmed_of_reaches hrun
  refine ⟨hunharmed, fun {task} after new hreport => ⟨?_, ?_⟩⟩
  · intro hafter
    by_contra hharm
    obtain ⟨out, hstep, -⟩ := report_eq_some hreport
    exact raise_harms hkeys hstep (by simpa using hharm) hafter
  · intro hendures
    have hallowed : enduring s (.enqueueRaise task) := hendures
    exact (unharmed_of_reaches (hrun.snoc hallowed hreport)).1

/-- `flush_all` fails for one CDN while another has a URL in its buffer, which
is flushed at its deadline. -/
theorem failure_costs_one_batch_sample :
    ∃ reports s, Reaches (report {}) (fun s action => enduring s action)
        (init 0) reports s ∧
      reports = [.seen (.added "a" "/x" 0), .seen (.added "b" "/y" 0),
        .seen (.enqueued "a" ["/x"] 0), .lost "a" ["/x"],
        .seen (.enqueued "b" ["/y"] 10)] ∧
      Unharmed {} reports s := by
  obtain ⟨reports, s, hrun, hreports⟩ := exists_reaches_of_execute (report {})
    (init 0) (fun s action => enduring s action) (·.2)
    [.seen (.added "a" "/x" 0), .seen (.added "b" "/y" 0),
      .seen (.enqueued "a" ["/x"] 0), .lost "a" ["/x"],
      .seen (.enqueued "b" ["/y"] 10)]
    [.submit 0 ⟨"a", "/x"⟩, .acquire (.submit 0), .submit 1 ⟨"b", "/y"⟩,
      .acquire (.submit 1), .flushAll 0, .acquire (.flushAll 0),
      .enqueueRaise (.flushAll 0), .wake "b", .acquire (.debounce "b"),
      .tick 10, .timeout "b", .acquire (.debounce "b")]
    (by decide +kernel)
  exact ⟨reports, s, hrun, hreports, (failure_costs_one_batch hrun).1⟩

/-- A disk that is full twice.  The debounce task of one CDN is gone, so that
its next URL stays in the buffer long after its deadline; the submit that fills
the buffer of another CDN raises. -/
theorem raise_costs_the_cdn :
    ∃ reports s, Reaches (report { batchMaxSize := 2 })
        (fun _ action => !action.cancels) (init 0) reports s ∧
      (s.shutdown = false ∧ s.now = 100 ∧
        "a" ∈ s.cdns ∧ s.point (.debounce "a") = .ended .raised ∧
        s.buffers "a" = ["/y"] ∧ s.lastAdded "a" = some 10 ∧
        s.point (.submit 3) = .ended .raised) ∧
      ¬ Unharmed { batchMaxSize := 2 } reports s := by
  obtain ⟨reports, s, hrun, hview⟩ := exists_reaches_of_execute
    (report { batchMaxSize := 2 }) (init 0) (fun _ action => !action.cancels)
    (fun final => decide (final.1.shutdown = false ∧ final.1.now = 100 ∧
      "a" ∈ final.1.cdns ∧ final.1.point (.debounce "a") = .ended .raised ∧
      final.1.buffers "a" = ["/y"] ∧ final.1.lastAdded "a" = some 10 ∧
      final.1.point (.submit 3) = .ended .raised)) true
    [.submit 0 ⟨"a", "/x"⟩, .acquire (.submit 0), .wake "a",
      .acquire (.debounce "a"), .tick 10, .timeout "a",
      .acquire (.debounce "a"), .enqueueRaise (.debounce "a"),
      .submit 1 ⟨"a", "/y"⟩, .acquire (.submit 1),
      .submit 2 ⟨"b", "/p"⟩, .acquire (.submit 2),
      .submit 3 ⟨"b", "/q"⟩, .acquire (.submit 3),
      .enqueueRaise (.submit 3), .tick 100]
    (by decide +kernel)
  have hstate := of_decide_eq_true hview
  refine ⟨reports, s, hrun, hstate, fun hunharmed => ?_⟩
  exact hunharmed.unraised 3 hstate.2.2.2.2.2.2

end MirrorMirage.Batcher
