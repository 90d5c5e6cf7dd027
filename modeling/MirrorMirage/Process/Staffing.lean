import MirrorMirage.Daemon.Origin
import MirrorMirage.Process.Lives

/-!
# Every job has a worker

The CDN of a job is that of a binding, since only targets of bindings come into
a buffer, and `load` accepts no binding of an unknown CDN.  So each row that is
ever in the table has a worker in each process that comes up
(`every_job_has_a_worker`).
-/

namespace MirrorMirage.Process

open MirrorMirage.Daemon (Enqueued Holds Sourced Starts Submitted seenBatcher
  seenFiles)
open MirrorMirage.Filter (EventKind)
open MirrorMirage.Providers.Build (Provider buildProviders
  keys_of_buildProviders)
open MirrorMirage.Run

/-! ## From a row to a binding -/

section Bindings

variable {cfg : DaemonConfig} {fnmatchcase : String → String → Bool}
variable {watches : List WatchConfig} {start s : Daemon.State}
variable {trace : List Daemon.Obs} {target : PurgeTarget}
variable {allowed : Daemon.State → Daemon.Action → Prop}

/-- A binding of a watch is for the CDN. -/
def Bound (watches : List WatchConfig) (cdn : String) : Prop :=
  ∃ watch ∈ watches, ∃ binding ∈ watch.bindings, binding.cdn = cdn

/-- Only the reading of an event submits targets. -/
theorem pump_of_submitted {files files' : Publication.State}
    {action : Publication.Action} {found : List Publication.Obs}
    {kind : EventKind} {targets : List PurgeTarget}
    (hstep : Publication.step fnmatchcase watches files action =
      some (files', found)) (hmem : .submitted kind targets ∈ found) :
    ∃ yielded, .submitted kind targets ∈
      Publication.pump fnmatchcase watches yielded := by
  cases action with
  | take =>
      obtain ⟨result, -, heq⟩ := Option.map_eq_some_iff.mp hstep
      cases heq
      obtain ⟨yielded, -, hpump⟩ := List.mem_flatMap.mp hmem
      exact ⟨yielded, hpump⟩
  | rename dir name dir' name' =>
      simp only [Publication.step, Publication.renameFile] at hstep
      split at hstep
      · cases hstep
      · split at hstep <;> cases hstep
        simp at hmem
  | close | unlink =>
      simp only [Publication.step] at hstep
      split at hstep <;> cases hstep
      simp at hmem
  | link =>
      simp only [Publication.step] at hstep
      split at hstep
      · cases hstep
      · obtain ⟨added, -, heq⟩ := Option.map_eq_some_iff.mp hstep
        cases heq
        simp at hmem
  | _ =>
      obtain ⟨added, -, heq⟩ := Option.map_eq_some_iff.mp hstep
      cases heq
      simp at hmem

/-- A target that has been submitted is one of a binding. -/
theorem bound_of_submitted (hstart : Starts cfg start)
    (hrun : Reaches (Daemon.step cfg fnmatchcase watches) allowed start trace s)
    (hsubmitted : Submitted trace target) : Bound watches target.cdnName := by
  obtain ⟨kind, targets, hmem, htarget⟩ := hsubmitted
  obtain ⟨yielded, hpump⟩ := (Daemon.files_of_reaches hstart hrun).invariant
    (fun seen _ => ∀ {kind targets}, .submitted kind targets ∈ seen →
      ∃ yielded, .submitted kind targets ∈
        Publication.pump fnmatchcase watches yielded) (by simp)
    (fun hold _ hstep kind targets hmem => by
      rcases List.mem_append.mp hmem with hmem | hmem
      · exact hold hmem
      · exact pump_of_submitted hstep hmem) (Daemon.mem_seenFiles.mpr hmem)
  obtain ⟨_, _, _, _, _, _, _, watch, _, _, _, hwatch, _, hmapped⟩ :=
    Daemon.wanted_of_pump hpump htarget
  obtain ⟨binding, hbinding, rfl⟩ := List.mem_map.mp hmapped
  exact ⟨watch, hwatch, binding, hbinding, rfl⟩

/-- The batcher calls `enqueue` with URLs only. -/
theorem ne_nil_of_enqueued {before after : Batcher.State}
    {own : Batcher.Action} {found : List Batcher.Obs} {cdn : String}
    {urls : List String} {time : ℚ}
    (hstep : Batcher.step cfg before own = some (after, found))
    (hmem : .enqueued cdn urls time ∈ found) : urls ≠ [] := by
  have hflushed : ∀ {batcher : Batcher.State} {task todo},
      .enqueued cdn urls time ∈ (Batcher.flushLocked batcher task todo).2 →
        urls ≠ [] := by
    intro batcher task todo hmem
    rcases Batcher.flushLocked_cases batcher task todo with
      ⟨-, heq⟩ | ⟨_, other, _, _, _, hbuffer, heq⟩
    · simp [heq] at hmem
    · obtain ⟨rfl, rfl, -⟩ :
          cdn = other ∧ urls = batcher.buffers other ∧ _ := by
        simpa [heq] using hmem
      exact hbuffer
  cases Batcher.move_of_step hstep with
  | submit =>
      rcases List.mem_cons.mp hmem with heq | hmem
      · cases heq
      · exact hflushed hmem
  | flush | enqueueReturn => exact hflushed hmem
  | _ => simp at hmem

/-- What the batcher has enqueued is for the CDN of a binding. -/
theorem bound_of_enqueued (hstart : Starts cfg start)
    (hcalls : ∀ call, (start.queue.enqueuer call).point = .absent)
    (hrun : Reaches (Daemon.step cfg fnmatchcase watches) allowed start trace s)
    {cdn : String} {urls : List String} (henqueued : Enqueued trace cdn urls) :
    Bound watches cdn := by
  obtain ⟨time, hmem⟩ := henqueued
  have hbatches : Reaches (Batcher.step cfg) (fun _ _ => True) start.batcher
      (trace.filterMap seenBatcher) s.batcher :=
    Daemon.batcher_of_reaches hstart.joint hrun fun _ _ _ => trivial
  have hurls : urls ≠ [] := hbatches.invariant
    (fun seen _ => ∀ {cdn urls time}, .enqueued cdn urls time ∈ seen →
      urls ≠ []) (by simp)
    (fun hold _ hstep cdn urls time hmem => by
      rcases List.mem_append.mp hmem with hmem | hmem
      · exact hold hmem
      · exact ne_nil_of_enqueued hstep hmem) (Daemon.mem_seenBatcher.mpr hmem)
  obtain ⟨url, hurl⟩ := List.exists_mem_of_ne_nil _ hurls
  exact bound_of_submitted hstart hrun
    (Daemon.submitted_of_enqueued hstart hcalls hrun ⟨time, hmem⟩ hurl)

end Bindings

/-! ## Whole runs -/

section Runs

variable {cfg : Config} {dryRun : Bool}
variable {fnmatchcase : String → String → Bool}
variable {s after : State} {action : Action} {out : List Obs}

/-- Each row that the tasks see is of a CDN with a provider, and so it was when
the group was entered. -/
structure Staffed (cfg : Config) (fnmatchcase : String → String → Bool)
    (s : Daemon.State) : Prop where
  rows : ∀ {id row}, s.queue.work.row id = some row →
    row.cdnName ∈ cfg.cdns.keys
  up : s.queue.phase = .running → ∃ start trace, Starts cfg.daemon start ∧
    (∀ call, (start.queue.enqueuer call).point = .absent) ∧
    (∀ {id row}, start.queue.work.row id = some row →
      row.cdnName ∈ cfg.cdns.keys) ∧
    Reaches (Daemon.step cfg.daemon fnmatchcase cfg.watches) (fun _ _ => True)
      start trace s

/-- Outside of the group rows stay what they are about. -/
theorem cdnName_of_step {retry : RetryConfig} {queue later : Queue.State}
    {own : Queue.Action} {found : List Queue.Obs} (hsound : Queue.Sound queue)
    (hown : Daemon.serves own = false)
    (hstep : Queue.step retry queue own = some (later, found)) {id : ℕ}
    {row : Queue.Row} (hrow : later.work.row id = some row) :
    ∃ row', queue.work.row id = some row' ∧ row'.cdnName = row.cdnName := by
  cases Queue.move_of_step hstep with
  | start | resetPost | resetCommit | run | enqueuer => exact ⟨row, hrow, rfl⟩
  | reset =>
      obtain ⟨row', hrow', rfl⟩ := Option.map_eq_some_iff.mp hrow
      exact ⟨row', hrow', by simp⟩
  | crash =>
      obtain ⟨row', hrow', hfollows⟩ := hsound.follows hrow
      exact ⟨row', hrow', hfollows.cdnName⟩
  | _ => simp [Daemon.serves] at hown

/-- What `load` accepts has no binding of an unknown CDN. -/
theorem bindings_of_load {outside : Loader.Outside}
    {configPath secretsPath : String}
    (hload : Loader.load outside configPath secretsPath = .ok cfg)
    (cdn : String) (hbound : Bound cfg.watches cdn) : cdn ∈ cfg.cdns.keys := by
  obtain ⟨config, secrets, haccepts⟩ := Loader.load_eq_ok_iff.mp hload
  obtain ⟨pairs, -, rfl⟩ := haccepts.credentials
  obtain ⟨watch, hwatch, binding, hbinding, rfl⟩ := hbound
  exact haccepts.bindings watch hwatch binding hbinding

theorem staffed_step (hbindings : ∀ cdn, Bound cfg.watches cdn →
      cdn ∈ cfg.cdns.keys) (horderly : Orderly cfg fnmatchcase s)
    (h : Staffed cfg fnmatchcase s.daemon)
    (hstep : step cfg dryRun fnmatchcase s action = some (after, out)) :
    Staffed cfg fnmatchcase after.daemon := by
  have hthrough := through_of_step horderly hstep
  obtain ⟨now, seen, htable⟩ := horderly.table
  generalize after.daemon = later at hthrough ⊢
  cases hthrough with
  | none => exact h
  | queue hown hqueue hstarts =>
      have hrows : ∀ {id row}, later.queue.work.row id = some row →
          row.cdnName ∈ cfg.cdns.keys := by
        intro id row hrow
        obtain ⟨row', hrow', hname⟩ :=
          cdnName_of_step (Queue.sound_of_reaches htable) hown hqueue hrow
        exact hname ▸ h.rows hrow'
      refine ⟨hrows, fun hrunning => ?_⟩
      obtain ⟨hstart, hcalls⟩ := hstarts hrunning
      exact ⟨later, [], hstart, hcalls, hrows, .refl⟩
  | daemon hup hdaemon =>
      obtain ⟨start, trace, hstart, hcalls, hfirst, hrun⟩ :=
        h.up hup.joint.running
      have hlater := hrun.snoc trivial hdaemon
      refine ⟨fun {id row} hrow => ?_, fun _ =>
        ⟨start, _, hstart, hcalls, hfirst, hlater⟩⟩
      rcases (Daemon.sourced_of_run hstart hcalls hlater).rows hrow with
        ⟨row', hrow', hname, -⟩ | henqueued
      · exact hname ▸ hfirst hrow'
      · exact hbindings _ (bound_of_enqueued hstart hcalls hlater henqueued)

end Runs

/-- Over any number of processes with an accepted configuration, whatever
signals, failures and kills there are: for each row that is ever in the table,
the task group of a process whose providers are built has a worker. -/
theorem every_job_has_a_worker {cfg : Config} {dryRun : Bool}
    {fnmatchcase : String → String → Bool} {files : Publication.State}
    {now now' : ℚ} {trace : List Obs} {s : State}
    {outside : Loader.Outside} {configPath secretsPath : String}
    {providers : Dict String Provider}
    (hload : Loader.load outside configPath secretsPath = .ok cfg)
    (hproviders : buildProviders cfg dryRun = .ok providers)
    (hrun : Reaches (step cfg dryRun fnmatchcase) (fun _ _ => True)
      (init files now now') trace s) {id : ℕ} {row : Queue.Row}
    (hrow : s.daemon.queue.committed.row id = some row) :
    .worker row.cdnName ∈ children providers := by
  have hbindings := bindings_of_load hload
  obtain ⟨horderly, hstaffed⟩ := hrun.invariant
    (fun _ s => Orderly cfg fnmatchcase s ∧ Staffed cfg fnmatchcase s.daemon)
    ⟨orderly_init files now now', by simp [init, Queue.init], by
      simp [init, Queue.init]⟩
    fun hboth _ hstep => ⟨orderly_step hboth.1 hstep,
      staffed_step hbindings hboth.1 hboth.2 hstep⟩
  obtain ⟨_, _, htable⟩ := horderly.table
  obtain ⟨row', hrow', hfollows⟩ :=
    (Queue.sound_of_reaches htable).follows hrow
  have hkey : row.cdnName ∈ providers.keys := by
    rw [keys_of_buildProviders hproviders, ← hfollows.cdnName]
    exact hstaffed.rows hrow'
  exact List.mem_append_left _ (List.mem_map_of_mem hkey)

/-- An accepted configuration with the CDN and the watch of the others. -/
def staffedOutside : Loader.Outside :=
  { Providers.Build.sampleOutside "fastly" with
    safeLoad := fun _ => .value (.dict
      [(.str "fastly", .dict [(.str "api_token", .str "x")] (.ok ""))] (.ok ""))
    modelValidate := fun _ => .value hastyConfig
    pathExists := fun _ => .ok true }

/-- What `load` returns of it. -/
def staffedConfig : Config :=
  { hastyConfig with
    credentials := Dict.empty.set "fastly" (Dict.empty.set "api_token" "x") }

/-- A job has been stored, and the process has been killed. -/
theorem every_job_has_a_worker_sample : ∃ trace s row,
    Loader.load staffedOutside "config.yaml" "secrets.yaml" =
      .ok staffedConfig ∧
    Reaches (step staffedConfig false fun _ _ => false) (fun _ _ => True)
      (init Publication.sampleStart 0 0) trace s ∧
    s.daemon.queue.committed.row 1 = some row ∧
    ∃ providers, buildProviders staffedConfig false = .ok providers ∧
      .worker row.cdnName ∈ children providers := by
  obtain ⟨trace, s, hrun, hrow⟩ := exists_reaches_of_execute
    (step staffedConfig false fun _ _ => false)
    (init Publication.sampleStart 0 0) (fun _ _ => True)
    (fun final => final.1.daemon.queue.committed.row 1)
    (some ⟨"fastly", ["https://x/pkg"], 0, 0, 0, .pending, none⟩)
    (sampleBoot ++
      [.daemon (.files (.create ["/", "stage"] "pkg")),
        .daemon (.files (.rename ["/", "stage"] "pkg" ["/", "srv"] "pkg")),
        .daemon .read, .daemon (.batcher (.acquire (.submit 1))),
        .daemon (.exec 1), .daemon .resume, .daemon (.exec 1), .launch 5])
    (by decide +kernel)
  have hload : Loader.load staffedOutside "config.yaml" "secrets.yaml" =
      .ok staffedConfig := by decide +kernel
  obtain ⟨providers, hproviders⟩ : ∃ providers,
      buildProviders staffedConfig false = .ok providers := ⟨_, rfl⟩
  exact ⟨trace, s, _, hload, hrun, hrow, providers, hproviders,
    every_job_has_a_worker hload hproviders hrun hrow⟩

end MirrorMirage.Process
