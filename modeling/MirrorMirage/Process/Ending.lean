import MirrorMirage.Process.Stages

/-!
# How the process ends

Once its task group is aborted the process can always end by itself: the tasks
end, the group sees them end, and the queue is closed (`aborts_come_to_an_end`).
A process that nobody signals never ends with exit code 0, so that whoever
restarts failed processes restarts it, and one in which nothing fails ends
after a signal only (`exit_code_tells_the_cause`).
-/

namespace MirrorMirage.Process

open MirrorMirage.Daemon (Closed Holds Live)
open MirrorMirage.Run
open MirrorMirage.TaskGroup (Exit Group)

/-- What is left to do of a process whose group is aborted; nobody signals or
kills it any more. -/
def Action.finishes : Action → Bool
  | .daemon (.queue (.killWorker _)) => true
  | .daemon action => action.closes
  | .done _ _ | .leave | .closed => true
  | _ => false

/-- How many tasks the group waits for. -/
def Phase.waits : Phase → ℕ
  | .grouped group => group.tasks.length
  | _ => 0

section Finishing

variable {cfg : Config} {dryRun : Bool}
variable {fnmatchcase : String → String → Bool}
variable {group : Group Child String} {s d : Daemon.State}
variable {action : Daemon.Action}

theorem goesOn_of_closes {tasks : List Child} (h : action.closes) :
    goesOn tasks action := by
  unfold Daemon.Action.closes at h
  split at h <;> first | rfl | cases h

theorem finishes_of_closes (h : action.closes) :
    (Action.daemon action).finishes := by
  unfold Action.finishes
  split
  · rfl
  · rename_i heq
    cases heq
    exact h
  all_goals simp_all

/-- A worker ends. -/
theorem exists_kill {cdnName : String} (hmem : .worker cdnName ∈ group.tasks) :
    ∃ queue, Process.step cfg dryRun fnmatchcase ⟨.grouped group, d⟩
        (.daemon (.queue (.killWorker cdnName))) =
        some (⟨.grouped group, { d with queue := queue }⟩, []) ∧
      (queue.worker cdnName).alive = false ∧
      queue.committed = d.queue.committed := by
  refine ⟨{ d.queue with
    worker := Function.update d.queue.worker cdnName
      { d.queue.worker cdnName with alive := false } }, ?_, by simp, rfl⟩
  simp [step, goesOn, child?, hmem, Daemon.step, Daemon.isWorker, Queue.step]

/-- The group sees a task end that has ended without an error. -/
theorem step_done {child : Child} (haborting : group.aborting = true)
    (hmem : child ∈ group.tasks) (hended : hasEnded true d child none) :
    step cfg dryRun fnmatchcase ⟨.grouped group, d⟩ (.done child none) =
      some (⟨.grouped (group.done child none), d⟩, []) := by
  have hregroup : regroup cfg fnmatchcase d group (group.done child none) =
      some ⟨.grouped (group.done child none), d⟩ := by
    simp [regroup, Group.done]
  simp only [step, hmem, haborting, hended, and_self, if_true, hregroup,
    Option.map_some, Option.toList_none, List.map_nil]

/-- The daemon has nothing left to do, and the group has yet to see it. -/
structure Resting (cfg : Config) (fnmatchcase : String → String → Bool)
    (errors : List String) (table : Queue.Db) (group : Group Child String)
    (d : Daemon.State) : Prop where
  orderly : Orderly cfg fnmatchcase ⟨.grouped group, d⟩
  closed : Closed d
  aborting : group.aborting = true
  errors : group.errors = errors
  table : d.queue.committed = table

section Resting

variable {errors : List String} {table : Queue.Db}

theorem Resting.of_done (h : Resting cfg fnmatchcase errors table group d)
    {child : Child} (horderly : Orderly cfg fnmatchcase
      ⟨.grouped (group.done child none), d⟩) :
    Resting cfg fnmatchcase errors table (group.done child none) d :=
  ⟨horderly, h.closed, by simp [Group.done, h.aborting],
    by simp [Group.done, h.errors], h.table⟩

/-- A task that has ended is seen. -/
theorem Resting.exists_done (h : Resting cfg fnmatchcase errors table group d)
    {child : Child} (hmem : child ∈ group.tasks)
    (hended : hasEnded true d child none) :
    ∃ trace next,
      Reaches (step cfg dryRun fnmatchcase) (fun _ action => action.finishes)
        ⟨.grouped group, d⟩ trace ⟨.grouped next, d⟩ ∧
      Resting cfg fnmatchcase errors table next d ∧
      next.tasks.length < group.tasks.length := by
  have hstep := @step_done cfg dryRun fnmatchcase group d child h.aborting hmem
    hended
  exact ⟨_, _, Reaches.refl.snoc rfl hstep,
    h.of_done (orderly_step h.orderly hstep), Group.length_done_lt hmem⟩

theorem hasEnded_pipeline (hup : Up cfg fnmatchcase d) (hclosed : Closed d) :
    hasEnded true d .pipeline none := by
  obtain ⟨start, trace, hstart, hrun⟩ := hup
  have hpiped := Daemon.piped_of_reaches hstart hrun
  cases hpipeline : d.pipeline with
  | reading => simp [hasEnded, hpipeline]
  | ended => exact absurd hpipeline hpiped.alive
  | submitting target rest =>
      simpa [hasEnded, hpipeline] using
        hclosed.tasks _ (hpiped.called hpipeline)

/-- As long as the group waits for a task, it can see one end. -/
theorem Resting.exists_turn (h : Resting cfg fnmatchcase errors table group d)
    (hbusy : group.tasks ≠ []) :
    ∃ trace next d',
      Reaches (step cfg dryRun fnmatchcase) (fun _ action => action.finishes)
        ⟨.grouped group, d⟩ trace ⟨.grouped next, d'⟩ ∧
      Resting cfg fnmatchcase errors table next d' ∧
      next.tasks.length < group.tasks.length := by
  obtain ⟨child, hmem⟩ := List.exists_mem_of_ne_nil _ hbusy
  have hseen := (h.orderly.grouped rfl).1
  cases child with
  | batcher =>
      obtain ⟨trace, next, hrun, hnext⟩ :=
        @Resting.exists_done cfg dryRun fnmatchcase group d errors table h
          .batcher hmem (by simp [hasEnded, h.closed.run])
      exact ⟨trace, next, d, hrun, hnext⟩
  | pipeline =>
      obtain ⟨trace, next, hrun, hnext⟩ :=
        @Resting.exists_done cfg dryRun fnmatchcase group d errors table h
          .pipeline hmem (hasEnded_pipeline hseen.up h.closed)
      exact ⟨trace, next, d, hrun, hnext⟩
  | worker cdnName =>
      obtain ⟨queue, hkill, hdead, htable⟩ :=
        @exists_kill cfg dryRun fnmatchcase group d cdnName hmem
      have hkilled : Resting cfg fnmatchcase errors table group
          { d with queue := queue } :=
        ⟨orderly_step h.orderly hkill, ⟨h.closed.run, h.closed.tasks,
          h.closed.free, h.closed.empty⟩, h.aborting, h.errors,
          htable.trans h.table⟩
      obtain ⟨trace, next, hrun, hnext⟩ :=
        @Resting.exists_done cfg dryRun fnmatchcase group _ errors table hkilled
          (.worker cdnName) hmem (by simp [hasEnded, hdead])
      have hfirst : Reaches (step cfg dryRun fnmatchcase)
          (fun _ action => action.finishes) _ _ _ :=
        Reaches.refl.snoc rfl hkill
      exact ⟨_, next, _, hfirst.trans hrun, hnext⟩

/-- The group comes to see all its tasks end. -/
theorem Resting.comes_to_exit
    (h : Resting cfg fnmatchcase errors table group d) : ∃ trace last final,
    Reaches (step cfg dryRun fnmatchcase) (fun _ action => action.finishes)
      ⟨.grouped group, d⟩ trace ⟨.grouped last, final⟩ ∧
    Resting cfg fnmatchcase errors table last final ∧ last.tasks = [] := by
  obtain ⟨trace, state, hrun, ⟨last, final, rfl, hresting⟩, hempty⟩ :=
    @exists_reaches_of_runs _ _ _ (step cfg dryRun fnmatchcase)
      (fun _ action => action.finishes) ⟨.grouped group, d⟩
      (fun state => ∃ group d, state = ⟨.grouped group, d⟩ ∧
        Resting cfg fnmatchcase errors table group d)
      (fun state => ∀ group, state.phase = .grouped group → group.tasks = [])
      (fun state => state.phase.waits) (by
        rintro _ ⟨group, d, rfl, hresting⟩ hbusy
        have htasks : group.tasks ≠ [] := fun hnone => hbusy (by
          rintro _ ⟨⟩
          exact hnone)
        obtain ⟨trace, next, d', hrun, hnext, hlt⟩ :=
          @Resting.exists_turn cfg dryRun fnmatchcase group d errors table
            hresting htasks
        exact ⟨trace, _, hrun, ⟨next, d', rfl, hnext⟩, hlt⟩)
      ⟨group, d, rfl, h⟩
  exact ⟨trace, last, final, hrun, hresting, hempty last rfl⟩

/-- The wait for an aborted group ends with its errors or the cancellation. -/
theorem Resting.exists_exit (h : Resting cfg fnmatchcase errors table group d)
    (htasks : group.tasks = []) : ∃ exit, group.exit? = some exit ∧
      ofExit exit = if errors = [] then .cancelled
        else ofExit (.failed errors) := by
  have hcoherent := (h.orderly.grouped rfl).1.coherent
  obtain ⟨exit, hexit⟩ : ∃ exit, group.exit? = some exit :=
    ⟨_, if_pos htasks⟩
  refine ⟨exit, hexit, ?_⟩
  rcases (Group.exit_cases hcoherent hexit).2 with
    ⟨rfl, herrors⟩ | ⟨rfl, herrors, -⟩ | ⟨-, hcalm⟩
  · rw [h.errors] at herrors ⊢
    rw [if_neg herrors]
  · rw [← h.errors, if_pos herrors]
    rfl
  · simp [h.aborting] at hcalm

end Resting

end Finishing

/-- Once the task group is aborted, from every state of every run, over any
number of processes, some continuation without a further signal ends the
process: everything that was in a buffer is then in the table that the next
process finds, and `daemon.run` ends with the errors of its tasks, or, if there
are none, as cancelled. -/
theorem aborts_come_to_an_end {cfg : Config} {dryRun : Bool}
    {fnmatchcase : String → String → Bool} {files : Publication.State}
    {now now' : ℚ} {trace : List Obs} {s : State}
    {group : Group Child String}
    (hrun : Reaches (step cfg dryRun fnmatchcase) (fun _ _ => True)
      (init files now now') trace s) (hphase : s.phase = .grouped group)
    (haborting : group.aborting = true) :
    ∃ more final how,
      Reaches (step cfg dryRun fnmatchcase) (fun _ action => action.finishes) s
        more final ∧
      final.phase = .ended how ∧
      (how = if group.errors = [] then .cancelled
        else ofExit (.failed group.errors)) ∧
      ∀ {cdn url}, url ∈ s.daemon.batcher.buffers cdn →
        ∃ id urls row, .daemon (.stored id cdn urls) ∈ more ∧ url ∈ urls ∧
          final.daemon.queue.committed.row id = some row ∧
          row.cdnName = cdn ∧ row.urls = urls := by
  obtain ⟨phase, d⟩ := s
  obtain rfl : phase = .grouped group := hphase
  have horderly := orderly_of_reaches hrun
  obtain ⟨hseen, hsame⟩ := horderly.grouped rfl
  have hleaving := hseen.up.leaving (hsame.symm.trans haborting)
  obtain ⟨first, rest, hfirst, -, hclosed, hall⟩ :=
    @Daemon.Leaving.exists_closed cfg.daemon fnmatchcase cfg.watches d hleaving
      hseen.up.handed
  have hlift : Reaches (step cfg dryRun fnmatchcase)
      (fun _ action => action.finishes) ⟨.grouped group, d⟩
        (first.map .daemon) ⟨.grouped group, rest⟩ :=
    reaches_of_daemon (fun hcloses => ⟨goesOn_of_closes hcloses,
      finishes_of_closes hcloses⟩) hfirst
  have hresting : Resting cfg fnmatchcase group.errors rest.queue.committed
      group rest :=
    ⟨hlift.invariant (fun _ s => Orderly cfg fnmatchcase s) horderly
      fun horderly _ hstep => orderly_step horderly hstep, hclosed, haborting,
      rfl, rfl⟩
  obtain ⟨second, last, final, hsecond, hlast, htasks⟩ :=
    @Resting.comes_to_exit cfg dryRun fnmatchcase group rest _ _ hresting
  obtain ⟨exit, hexit, hhow⟩ := hlast.exists_exit htasks
  have hleave : step cfg dryRun fnmatchcase ⟨.grouped last, final⟩ .leave =
      some (⟨.closing (ofExit exit), final⟩, [.closes]) := by
    simp only [step, hexit, Option.map_some]
  have hclose : step cfg dryRun fnmatchcase ⟨.closing (ofExit exit), final⟩
      .closed = some (⟨.ended (ofExit exit), final⟩, []) := rfl
  refine ⟨_, _, ofExit exit,
    (((hlift.trans hsecond).snoc rfl hleave).snoc rfl hclose), rfl, hhow, ?_⟩
  intro cdn url hurl
  obtain ⟨id, urls, hstored, hmem, row, hrow⟩ := hall hurl
  refine ⟨id, urls, row, ?_, hmem, hlast.table ▸ hrow⟩
  simp [hstored]

/-- A target is in its buffer when the signal arrives. -/
theorem aborts_come_to_an_end_sample : ∃ trace s more final,
    Reaches (step sampleConfig true fun _ _ => false) (fun _ _ => True)
      (init Publication.sampleStart 0 0) trace s ∧
    Reaches (step sampleConfig true fun _ _ => false)
      (fun _ action => action.finishes) s more final ∧
    final.phase = .ended .cancelled ∧
    ∃ id urls, .daemon (.stored id "fastly" urls) ∈ more ∧
      "https://x/pkg" ∈ urls := by
  obtain ⟨trace, s, hrun, hview⟩ := exists_reaches_of_execute
    (step sampleConfig true fun _ _ => false)
    (init Publication.sampleStart 0 0) (fun _ _ => True)
    (fun final => (final.1.phase, final.1.daemon.batcher.buffers "fastly"))
    (.grouped ⟨[.worker "fastly", .batcher, .pipeline], true, [], true⟩,
      ["https://x/pkg"])
    (sampleBoot ++
      [.daemon (.files (.create ["/", "stage"] "pkg")),
        .daemon (.files (.rename ["/", "stage"] "pkg" ["/", "srv"] "pkg")),
        .daemon .read, .daemon (.batcher (.acquire (.submit 1))), .signal])
    (by decide +kernel)
  obtain ⟨hphase, hbuffer⟩ := Prod.ext_iff.mp hview
  obtain ⟨more, final, how, hmore, hended, rfl, hall⟩ :=
    aborts_come_to_an_end hrun hphase rfl
  have hurl : "https://x/pkg" ∈ s.daemon.batcher.buffers "fastly" := by
    rw [show s.daemon.batcher.buffers "fastly" = _ from hbuffer]
    exact List.mem_singleton_self _
  obtain ⟨id, urls, row, hstored, hmem, -⟩ := hall hurl
  exact ⟨trace, s, more, final, hrun, hmore, hended, id, urls, hstored, hmem⟩

/-! ## The exit code -/

/-- Another process takes the place of this one. -/
def Action.isLaunch : Action → Bool
  | .launch _ => true
  | _ => false

/-- What the end is owed to. -/
def Explains (trace : List Obs) : RunEnd → Prop
  | .returned => False
  | .cancelled => .signalled ∈ trace
  | .inotifyLimitError _ | .otherError _ => ∃ text, .failed text ∈ trace

/-- What has happened in this process, up to the phase that it is in. -/
def Accounts (trace : List Obs) : Phase → Prop
  | .opening | .recovering => True
  | .grouped group =>
      (group.propagates = true → .signalled ∈ trace) ∧
        (group.errors ≠ [] → ∃ text, .failed text ∈ trace)
  | .closing how | .ended how => Explains trace how

section Accounts

variable {cfg : Config} {dryRun : Bool}
variable {fnmatchcase : String → String → Bool}
variable {s after : State} {action : Action} {out trace : List Obs}
variable {phase : Phase} {how : RunEnd}

theorem Explains.append (h : Explains trace how) (out : List Obs) :
    Explains (trace ++ out) how := by
  cases how with
  | returned => exact h
  | cancelled => exact List.mem_append_left _ h
  | _ =>
      obtain ⟨text, hmem⟩ := h
      exact ⟨text, List.mem_append_left _ hmem⟩

theorem Accounts.append (h : Accounts trace phase) (out : List Obs) :
    Accounts (trace ++ out) phase := by
  cases phase with
  | opening | recovering => trivial
  | grouped group =>
      refine ⟨fun hcancelled => List.mem_append_left _ (h.1 hcancelled),
        fun herrors => ?_⟩
      obtain ⟨text, hmem⟩ := h.2 herrors
      exact ⟨text, List.mem_append_left _ hmem⟩
  | closing | ended => exact Explains.append h out

/-- An abort changes the group only. -/
theorem phase_of_regroup {s : Daemon.State} {group next : Group Child String}
    (h : regroup cfg fnmatchcase s group next = some after) :
    after.phase = .grouped next := by
  unfold regroup at h
  split at h
  · cases h
    rfl
  · obtain ⟨aborted, -, rfl⟩ := Option.map_eq_some_iff.mp h
    rfl

/-- A stage ends with what has happened. -/
theorem explains_of_cause (horderly : Orderly cfg fnmatchcase s)
    (h : Accounts trace s.phase) (hcause : Cause s action out how) :
    Explains (trace ++ out) how := by
  cases hcause with
  | signalled hphase hmem => exact List.mem_append_right _ hmem
  | @failed _ _ _ text hphase hhow hmem =>
      rcases hhow with rfl | rfl <;>
        exact ⟨text, List.mem_append_right _ hmem⟩
  | kept hphase =>
      rcases hphase with hphase | hphase <;>
        exact Explains.append (by rwa [hphase] at h) _
  | left hphase hexit =>
      obtain ⟨hseen, haborting⟩ := horderly.grouped hphase
      rw [hphase] at h
      refine Explains.append ?_ _
      obtain ⟨htasks, ⟨rfl, herrors⟩ | ⟨rfl, -, hcancelled⟩ | ⟨-, hcalm⟩⟩ :=
        Group.exit_cases hseen.coherent hexit
      · exact h.2 herrors
      · exact h.1 hcancelled
      · have hended := (hseen.finished htasks).closed.run
        have hdown := hseen.up.draining.down fun hblocked => by
          simp [hblocked, Batcher.Point.isEnded] at hended
        simp [hcalm, ← haborting] at hdown

theorem accounts_move (horderly : Orderly cfg fnmatchcase s)
    (h : Accounts trace s.phase) (hsame : action.isLaunch = false)
    (hmove : Move cfg dryRun fnmatchcase s action after out) :
    Accounts (trace ++ out) after.phase := by
  cases hmove with
  | launch => cases hsame
  | close hphase hcause =>
      have hexplains := explains_of_cause horderly h hcause
      rcases hphase with rfl | rfl <;> exact hexplains
  | boot => trivial
  | enter => simp [Accounts, Group.enter]
  | cancel hphase hregroup =>
      rw [hphase] at h
      rw [phase_of_regroup hregroup]
      refine ⟨by simp, fun herrors => ?_⟩
      obtain ⟨text, hmem⟩ := h.2 (by simpa using herrors)
      exact ⟨text, List.mem_append_left _ hmem⟩
  | @done _ _ error _ hphase hended hregroup =>
      rw [hphase] at h
      rw [phase_of_regroup hregroup]
      refine ⟨fun hcancelled => List.mem_append_left _ (h.1 hcancelled),
        fun herrors => ?_⟩
      cases error with
      | none =>
          obtain ⟨text, hmem⟩ := h.2 (by simpa [Group.done] using herrors)
          exact ⟨text, List.mem_append_left _ hmem⟩
      | some text => exact ⟨text, by simp⟩
  | daemon hphase | thread hphase =>
      rw [hphase] at h
      exact h.append _

theorem explains_of_reaches {start : State} {earlier : List Obs}
    {files : Publication.State} {now now' : ℚ}
    (hstart : Reaches (step cfg dryRun fnmatchcase) (fun _ _ => True)
      (init files now now') earlier start) (hopening : start.phase = .opening)
    (hrun : Reaches (step cfg dryRun fnmatchcase)
      (fun _ action => action.isLaunch = false) start trace s)
    (hended : s.phase = .ended how) : Explains trace how := by
  have haccounts := hrun.invariant
    (fun trace s => Orderly cfg fnmatchcase s ∧ Accounts trace s.phase)
    ⟨orderly_of_reaches hstart, by simp [hopening, Accounts]⟩
    fun hboth hsame hstep => ⟨orderly_step hboth.1 hstep,
      accounts_move hboth.1 hboth.2 hsame (move_of_step hstep)⟩
  simpa [hended, Accounts] using haccounts.2

end Accounts

/-- In each process whose configuration is accepted: if no stage and no task
raises, `daemon.run` ends after a signal only, and the exit code is 0; and if
nobody signals the process, something has raised, and it does not exit with
code 0. -/
theorem exit_code_tells_the_cause {cfg : Config} {dryRun : Bool}
    {fnmatchcase : String → String → Bool} {files : Publication.State}
    {now now' : ℚ} {earlier trace : List Obs} {start s : State} {how : RunEnd}
    {outside : Loader.Outside} {configPath secretsPath : String}
    (hload : Loader.load outside configPath secretsPath = .ok cfg)
    (hstart : Reaches (step cfg dryRun fnmatchcase) (fun _ _ => True)
      (init files now now') earlier start) (hopening : start.phase = .opening)
    (hrun : Reaches (step cfg dryRun fnmatchcase)
      (fun _ action => action.isLaunch = false) start trace s)
    (hended : s.phase = .ended how) :
    ((∀ text, .failed text ∉ trace) → .signalled ∈ trace ∧
      Loader.main outside configPath secretsPath false (fun _ => suppress how) =
        .exit 0 none) ∧
    (.signalled ∉ trace → (∃ text, .failed text ∈ trace) ∧ ∀ printed,
      Loader.main outside configPath secretsPath false (fun _ => suppress how) ≠
        .exit 0 printed) := by
  have hexplains := explains_of_reaches hstart hopening hrun hended
  cases how with
  | returned => exact hexplains.elim
  | cancelled =>
      refine ⟨fun _ => ⟨hexplains, ?_⟩, fun hcalm => absurd hexplains hcalm⟩
      simp [Loader.main, hload, suppress]
  | inotifyLimitError text | otherError text =>
      obtain ⟨cause, hcause⟩ := hexplains
      refine ⟨fun hnone => absurd hcause (hnone cause),
        fun _ => ⟨⟨cause, hcause⟩, ?_⟩⟩
      simp [Loader.main, hload, suppress]

/-- The kernel allows too few watches. -/
theorem exit_code_tells_the_cause_sample : ∃ trace s how,
    Reaches (step (Providers.Build.sampleLoaded "api_token") false
      fun _ _ => false) (fun _ action => action.isLaunch = false)
      (init Publication.sampleStart 0 0) trace s ∧
    s.phase = .ended how ∧ .signalled ∉ trace ∧
    ∀ printed, Loader.main (Providers.Build.sampleOutside "api_token")
      "config.yaml" "secrets.yaml" false (fun _ => suppress how) ≠
        .exit 0 printed := by
  obtain ⟨trace, s, hrun, hview⟩ := exists_reaches_of_execute
    (step (Providers.Build.sampleLoaded "api_token") false fun _ _ => false)
    (init Publication.sampleStart 0 0) (fun _ action => action.isLaunch = false)
    (fun final => (final.1.phase, decide (.signalled ∈ final.2)))
    (.ended (.inotifyLimitError "too few watches"), false)
    [.opened, .boot, .boot, .boot,
      .enter (.inotifyLimitError "too few watches"), .closed]
    (by decide +kernel)
  obtain ⟨hended, hcalm⟩ := Prod.ext_iff.mp hview
  have hunsignalled : .signalled ∉ trace := of_decide_eq_false hcalm
  exact ⟨trace, s, _, hrun, hended, hunsignalled,
    ((exit_code_tells_the_cause (by decide +kernel) .refl rfl hrun hended).2
      hunsignalled).2⟩

end MirrorMirage.Process
