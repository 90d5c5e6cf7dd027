import MirrorMirage.Daemon.Purge
import MirrorMirage.Process.Stages

/-!
# From one process to the next

What one process has stored the next one purges: whatever signals, failures and
kills there have been, a new process that comes up can close every job that any
process has stored for a CDN with a provider
(`stored_urls_outlive_the_process`).
-/

namespace MirrorMirage.Process

open MirrorMirage.Daemon (Holds Starts)
open MirrorMirage.Providers (PurgeResult)
open MirrorMirage.Providers.Build (Provider buildProviders
  keys_of_buildProviders)
open MirrorMirage.Run
open MirrorMirage.TaskGroup (Group)

section Steps

variable {cfg : Config} {dryRun : Bool}
variable {fnmatchcase : String → String → Bool}
variable {s after : State} {action : Action} {out : List Obs}

/-- What a step of the process does to the daemon: nothing, a step of the queue
outside of the group, the last of which starts the daemon, or a step of the
daemon, of which the process shows what it shows. -/
inductive Through (cfg : Config) (fnmatchcase : String → String → Bool)
    (s : Daemon.State) (out : List Obs) : Daemon.State → Prop where
  | none (hout : ∀ obs, .daemon obs ∉ out) : Through cfg fnmatchcase s out s
  | queue {own : Queue.Action} {found : List Queue.Obs} {after : Daemon.State}
      (hown : Daemon.serves own = false)
      (hstep : Queue.step cfg.daemon.retry s.queue own =
        some (after.queue, found))
      (hstarts : after.queue.phase = .running → Starts cfg.daemon after ∧
        ∀ call, (after.queue.enqueuer call).point = .absent)
      (hout : ∀ obs, .daemon obs ∉ out) : Through cfg fnmatchcase s out after
  | daemon {own : Daemon.Action} {found : List Daemon.Obs}
      {after : Daemon.State} (hup : Up cfg fnmatchcase s)
      (hstep : Daemon.step cfg.daemon fnmatchcase cfg.watches s own =
        some (after, found))
      (hout : ∀ obs, .daemon obs ∈ out ↔ obs ∈ found) :
      Through cfg fnmatchcase s out after

theorem through_of_queueStep {own : Queue.Action} {daemon : Daemon.State}
    (hown : Daemon.serves own = false)
    (hstep : queueStep cfg s.daemon own = some daemon) {later : Daemon.State}
    (hlater : later.queue = daemon.queue)
    (hstarts : later.queue.phase = .running → Starts cfg.daemon later ∧
      ∀ call, (later.queue.enqueuer call).point = .absent) :
    Through cfg fnmatchcase s.daemon [] later := by
  obtain ⟨queue, found, hqueue, rfl⟩ := exists_queueStep hstep
  have hsame : Queue.step cfg.daemon.retry s.daemon.queue own =
      some (later.queue, found) := by rw [hqueue, hlater]
  exact .queue hown hsame hstarts (by simp)

theorem through_of_regroup {group next : Group Child String}
    (hup : Up cfg fnmatchcase s.daemon)
    (hregroup : regroup cfg fnmatchcase s.daemon group next = some after)
    (hout : ∀ obs, .daemon obs ∉ out) :
    Through cfg fnmatchcase s.daemon out after.daemon := by
  unfold regroup at hregroup
  split at hregroup
  · cases hregroup
    exact .none hout
  · obtain ⟨aborted, habort, rfl⟩ := Option.map_eq_some_iff.mp hregroup
    exact .daemon hup (step_of_abort habort).2 (by simpa using hout)

theorem through_of_step (h : Orderly cfg fnmatchcase s)
    (hstep : step cfg dryRun fnmatchcase s action = some (after, out)) :
    Through cfg fnmatchcase s.daemon out after.daemon := by
  have hafter := orderly_step h hstep
  cases move_of_step hstep with
  | launch hlaunch =>
      obtain ⟨crashed, hcrash, rfl⟩ := Option.map_eq_some_iff.mp hlaunch
      exact @through_of_queueStep cfg fnmatchcase s .crash _ rfl hcrash _ rfl
        fun hrunning => absurd ((hafter.opening rfl).2.symm.trans hrunning)
          (by simp)
  | close hphase hcause hout => exact .none hout
  | @boot _ own _ hphase hboot =>
      have hown : Daemon.serves own = false := by
        rcases hphase with ⟨-, rfl⟩ | ⟨-, rfl, -⟩ <;> rfl
      exact through_of_queueStep hown hboot rfl fun hrunning =>
        absurd hrunning (hafter.recovering rfl).2
  | enter hphase hreset hproviders hidle hboot =>
      exact through_of_queueStep rfl hboot rfl fun _ =>
        starts_of_boot h (h.recovering hphase).1 hidle hreset hboot
  | cancel hphase hregroup | done hphase _ hregroup =>
      exact through_of_regroup (h.grouped hphase).1.up hregroup (by simp)
  | daemon hphase hgoes hnext =>
      exact .daemon (h.grouped hphase).1.up hnext (by simp)
  | thread hphase hthread hnext =>
      have hfinished :=
        h.closing (.inl hphase) (running_of_thread hthread hnext)
      exact .daemon hfinished.up hnext (by simp)

end Steps

/-! ## What is remembered -/

/-- What the processes so far have stored is in the table, and the process has
shown each answer of a provider that the queue knows of. -/
structure Remembers (cfg : Config) (trace : List Obs) (queue : Queue.State) :
    Prop where
  answers : ∃ now seen, Reaches (Queue.step cfg.daemon.retry) (fun _ _ => True)
      (Queue.init now) seen queue ∧
    ∀ {obs id status}, obs ∈ seen → obs.Closes cfg.daemon.retry id status →
      .daemon (.queue obs) ∈ trace
  stored : ∀ {id cdn urls}, .daemon (.stored id cdn urls) ∈ trace →
    Holds queue.committed id cdn urls

section Remembering

variable {cfg : Config} {dryRun : Bool}
variable {fnmatchcase : String → String → Bool}
variable {s after : State} {action : Action} {out trace : List Obs}

theorem Remembers.sound {queue : Queue.State} (h : Remembers cfg trace queue) :
    Queue.Sound queue := by
  obtain ⟨now, seen, hrun, -⟩ := h.answers
  exact Queue.sound_of_reaches hrun

/-- A row is about the same URLs in whatever process. -/
theorem holds_of_reaches {retry : RetryConfig} {queue later : Queue.State}
    {allowed : Queue.State → Queue.Action → Prop} {seen : List Queue.Obs}
    (hsound : Queue.Sound queue)
    (hrun : Reaches (Queue.step retry) allowed queue seen later) {id : ℕ}
    {cdn : String} {urls : List String}
    (h : Holds queue.committed id cdn urls) :
    Holds later.committed id cdn urls := by
  obtain ⟨row, hrow, rfl, rfl⟩ := h
  obtain ⟨row', hrow', hsurvives⟩ := Queue.survives_of_reaches hsound hrun hrow
  exact ⟨row', hrow', hsurvives.cdnName, hsurvives.urls⟩

/-- The queue has gone on, and what it has seen is shown. -/
theorem Remembers.append {queue later : Queue.State}
    (h : Remembers cfg trace queue)
    {seen : List Queue.Obs}
    (hrun : Reaches (Queue.step cfg.daemon.retry) (fun _ _ => True) queue seen
      later)
    (hseen : ∀ {obs id status}, obs ∈ seen →
      obs.Closes cfg.daemon.retry id status → .daemon (.queue obs) ∈ out)
    (hstored : ∀ {id cdn urls}, .daemon (.stored id cdn urls) ∈ out →
      Holds later.committed id cdn urls) :
    Remembers cfg (trace ++ out) later where
  answers := by
    obtain ⟨now, earlier, hearlier, hanswers⟩ := h.answers
    refine ⟨now, earlier ++ seen, hearlier.trans hrun, fun hmem hcloses => ?_⟩
    rcases List.mem_append.mp hmem with hmem | hmem
    · exact List.mem_append_left _ (hanswers hmem hcloses)
    · exact List.mem_append_right _ (hseen hmem hcloses)
  stored hmem := by
    rcases List.mem_append.mp hmem with hmem | hmem
    · exact holds_of_reaches h.sound hrun (h.stored hmem)
    · exact hstored hmem

/-- Outside of the group no provider answers. -/
theorem not_closes_of_step {retry : RetryConfig} {queue later : Queue.State}
    {own : Queue.Action} {found : List Queue.Obs}
    (hown : Daemon.serves own = false)
    (hstep : Queue.step retry queue own = some (later, found))
    {obs : Queue.Obs} (hmem : obs ∈ found) {id : ℕ} {status : Queue.Status} :
    ¬ obs.Closes retry id status := by
  cases Queue.move_of_step hstep with
  | start | resetCommit =>
      obtain rfl := List.mem_singleton.mp hmem
      exact not_false
  | reset | resetPost | run | enqueuer | crash => simp at hmem
  | _ => simp [Daemon.serves] at hown

theorem remembers_step (horderly : Orderly cfg fnmatchcase s)
    (h : Remembers cfg trace s.daemon.queue)
    (hstep : step cfg dryRun fnmatchcase s action = some (after, out)) :
    Remembers cfg (trace ++ out) after.daemon.queue := by
  have hthrough := through_of_step horderly hstep
  generalize after.daemon = later at hthrough ⊢
  cases hthrough with
  | none hout =>
      exact h.append .refl (by simp) fun hmem => absurd hmem (hout _)
  | queue hown hqueue _ hout =>
      exact h.append (Reaches.refl.snoc trivial hqueue)
        (fun hmem hcloses => absurd hcloses
          (not_closes_of_step hown hqueue (by simpa using hmem)))
        fun hmem => absurd hmem (hout _)
  | daemon hup hdaemon hout =>
      have hmove := Daemon.move_of_step hup.joint.keys hdaemon
      refine h.append (hmove.queue_run.mono fun _ _ _ => trivial)
        (fun hmem _ => (hout _).mpr (Daemon.mem_seenQueue.mp hmem))
        fun hmem => ?_
      have hrun : Reaches (Daemon.step cfg.daemon fnmatchcase cfg.watches)
          (fun _ _ => True) s.daemon _ later :=
        Reaches.refl.snoc trivial hdaemon
      exact Daemon.holds_of_stored hup.joint hrun
        (by simpa using (hout _).mp hmem)

theorem remembers_of_reaches {files : Publication.State} {now now' : ℚ}
    {allowed : State → Action → Prop}
    (hrun : Reaches (step cfg dryRun fnmatchcase) allowed (init files now now')
      trace s) :
    Orderly cfg fnmatchcase s ∧ Remembers cfg trace s.daemon.queue := by
  refine hrun.invariant (fun trace s => Orderly cfg fnmatchcase s ∧
    Remembers cfg trace s.daemon.queue)
    ⟨orderly_init files now now', ⟨⟨now', [], .refl, by simp⟩, by simp⟩⟩ ?_
  exact fun hboth _ hstep => ⟨orderly_step hboth.1 hstep,
    remembers_step hboth.1 hboth.2 hstep⟩

end Remembering

/-! ## The next process -/

/-- What a new process does until the worker of one CDN is done: it comes up
on these files, and the provider gives the answers. -/
def Recovers (answer : Queue.State → Queue.Job → Except String PurgeResult)
    (cdn : String) (files : Publication.State) (s : State) : Action → Prop
  | .opened | .boot => True
  | .enter (.watching found) => found = files
  | .daemon (.queue own) => Queue.serving answer cdn s.daemon.queue own
  | _ => False

section Recovering

variable {cfg : Config} {dryRun : Bool}
variable {fnmatchcase : String → String → Bool}
variable {s : State} {cdn : String} {files : Publication.State}
variable {answer : Queue.State → Queue.Job → Except String PurgeResult}

variable {d : Daemon.State}

/-- `reset_in_flight` moves on. -/
theorem exists_boot {phase next : Queue.Phase}
    (hnext : (phase, next) ∈ [(.resetting, .reset), (.reset, .resetCommitting),
      (.resetCommitting, .resetCommitted)])
    (hphase : d.queue.phase = phase) :
    ∃ later, step cfg dryRun fnmatchcase ⟨.recovering, d⟩ .boot =
        some (⟨.recovering, later⟩, []) ∧ later.queue.phase = next := by
  obtain ⟨queue, found, hstep, hqueue⟩ : ∃ queue found,
      Queue.step cfg.daemon.retry d.queue .boot = some (queue, found) ∧
        queue.phase = next := by
    simp only [List.mem_cons, Prod.mk.injEq, List.not_mem_nil, or_false]
      at hnext
    rcases hnext with ⟨rfl, rfl⟩ | ⟨rfl, rfl⟩ | ⟨rfl, rfl⟩ <;>
      simp [Queue.step, hphase]
  have hbusy : phase ≠ .resetCommitted := by
    rintro rfl
    simp at hnext
  exact ⟨{ d with queue := queue }, by
    simp [step, queueStep, hstep, hphase, hbusy], hqueue⟩

/-- The workers are started. -/
theorem exists_enter {providers : Dict String Provider}
    (hproviders : buildProviders cfg dryRun = .ok providers)
    (hidle : files.watcher.idle) (hphase : d.queue.phase = .resetCommitted) :
    ∃ up, step cfg dryRun fnmatchcase ⟨.recovering, d⟩
        (.enter (.watching files)) =
          some (⟨.grouped (Group.enter (children providers)), up⟩, []) ∧
      up.queue.phase = .running ∧ (up.queue.worker cdn).alive := by
  obtain ⟨queue, found, hstep, hrunning, halive⟩ : ∃ queue found,
      Queue.step cfg.daemon.retry d.queue .boot = some (queue, found) ∧
        queue.phase = .running ∧ (queue.worker cdn).alive := by
    simp [Queue.step, hphase]
  exact ⟨⟨files, d.pipeline, d.submitCall, d.batcher, d.enqueueCall, queue⟩, by
    simp [step, enter, hproviders, hidle, queueStep, hstep, hphase], hrunning,
    halive⟩

/-- A process that is launched at any time comes up, with all its workers. -/
theorem exists_restart {providers : Dict String Provider}
    (hproviders : buildProviders cfg dryRun = .ok providers)
    (hidle : files.watcher.idle) (s : State) (now : ℚ) :
    ∃ fresh up, step cfg dryRun fnmatchcase s (.launch now) =
        some (fresh, []) ∧
      Reaches (step cfg dryRun fnmatchcase) (Recovers answer cdn files) fresh []
        ⟨.grouped (Group.enter (children providers)), up⟩ ∧
      up.queue.phase = .running ∧ (up.queue.worker cdn).alive := by
  obtain ⟨down, hlaunch, hdown⟩ : ∃ down,
      step cfg dryRun fnmatchcase s (.launch now) =
        some (⟨.opening, down⟩, []) ∧ down.queue.phase = .down :=
    ⟨_, rfl, rfl⟩
  obtain ⟨first, hopened, hfirst⟩ : ∃ first,
      step cfg dryRun fnmatchcase ⟨.opening, down⟩ .opened =
        some (⟨.recovering, first⟩, []) ∧ first.queue.phase = .resetting :=
    ⟨{ down with queue := { down.queue with phase := .resetting } }, by
      simp [step, queueStep, Queue.step, hdown], rfl⟩
  obtain ⟨second, hreset, hsecond⟩ := @exists_boot cfg dryRun fnmatchcase _ _
    .reset (by simp) hfirst
  obtain ⟨third, hpost, hthird⟩ := @exists_boot cfg dryRun fnmatchcase _ _
    .resetCommitting (by simp) hsecond
  obtain ⟨last, hcommit, hlast⟩ := @exists_boot cfg dryRun fnmatchcase _ _
    .resetCommitted (by simp) hthird
  obtain ⟨up, henter, hup⟩ := @exists_enter cfg dryRun fnmatchcase cdn files
    last providers hproviders hidle hlast
  have hboots : ∀ {s : State}, Recovers answer cdn files s .boot :=
    fun {_} => trivial
  have hopens : Reaches (step cfg dryRun fnmatchcase)
      (Recovers answer cdn files) _ _ _ :=
    Reaches.refl.snoc (by exact trivial) hopened
  exact ⟨⟨.opening, down⟩, up, hlaunch,
    (((hopens.snoc hboots hreset).snoc hboots hpost).snoc hboots hcommit).snoc
      (by exact rfl) henter, hup⟩

/-- The worker of the CDN goes on in the group. -/
theorem reaches_of_serving {group : Group Child String}
    (hmem : .worker cdn ∈ group.tasks) {more : List Queue.Obs}
    {final : Queue.State}
    (hrun : Reaches (Queue.step cfg.daemon.retry) (Queue.serving answer cdn)
      d.queue more final) :
    Reaches (step cfg dryRun fnmatchcase) (Recovers answer cdn files)
      ⟨.grouped group, d⟩ ((more.map Daemon.Obs.queue).map .daemon)
      ⟨.grouped group, { d with queue := final }⟩ := by
  refine reaches_of_daemon (fun {s own} hserving => ?_)
    (Daemon.reaches_of_serving hrun)
  obtain ⟨own, rfl, hserving⟩ := hserving
  refine ⟨?_, hserving⟩
  cases own with
  | tick | execWorker => rfl
  | resumeWorker other =>
      obtain rfl : other = cdn := hserving
      simpa [goesOn, child?] using hmem
  | purgeEnd other outcome =>
      obtain rfl : other = cdn := hserving.1
      simpa [goesOn, child?] using hmem
  | _ => exact hserving.elim

end Recovering

/-- Whatever signals, failures and kills there have been, in any number of
processes: a new process that is launched at any time, as long as its providers
are built and its watcher is entered, can come to a state in which each job
that any process has stored for a CDN with a provider is done, after an answer
that was ok, or failed, after one that is final or was the last. -/
theorem stored_urls_outlive_the_process {cfg : Config} {dryRun : Bool}
    {fnmatchcase : String → String → Bool} {files found : Publication.State}
    {now now' : ℚ} {trace : List Obs} {s : State} {cdn : String}
    {providers : Dict String Provider}
    (hmax : cfg.daemon.retry.maxAttempts ≤ 1025)
    (hproviders : buildProviders cfg dryRun = .ok providers)
    (hcdn : cdn ∈ cfg.cdns.keys)
    (hrun : Reaches (step cfg dryRun fnmatchcase) (fun _ _ => True)
      (init files now now') trace s)
    (later : ℚ) (hidle : found.watcher.idle)
    (answer : Queue.State → Queue.Job → Except String PurgeResult) :
    ∃ fresh more final,
      step cfg dryRun fnmatchcase s (.launch later) = some (fresh, []) ∧
      Reaches (step cfg dryRun fnmatchcase) (Recovers answer cdn found) fresh
        more final ∧
      ∀ {id urls}, .daemon (.stored id cdn urls) ∈ trace → ∃ row obs,
        final.daemon.queue.committed.row id = some row ∧
        row.cdnName = cdn ∧ row.urls = urls ∧
        .daemon (.queue obs) ∈ trace ++ more ∧
        obs.Closes cfg.daemon.retry id row.status := by
  obtain ⟨fresh, up, hlaunch, hboot, hrunning, halive⟩ :=
    @exists_restart cfg dryRun fnmatchcase cdn found answer providers hproviders
      hidle s later
  have hup := (hrun.snoc trivial hlaunch).trans
    (hboot.mono fun _ _ _ => trivial)
  obtain ⟨_, seen, hqueue, -⟩ := (remembers_of_reaches hup).2.answers
  obtain ⟨rest, final, hrest, -, -, hfinished⟩ :=
    (Queue.served_of_reaches hqueue hrunning halive).exists_finished hmax answer
  have hmem : .worker cdn ∈
      (Group.enter (children providers) : Group Child String).tasks := by
    rw [← keys_of_buildProviders hproviders] at hcdn
    simp [Group.enter, children, hcdn]
  have hworks := @reaches_of_serving cfg dryRun fnmatchcase cdn found answer up
    _ hmem rest final hrest
  obtain ⟨-, hend⟩ :=
    remembers_of_reaches (hup.trans (hworks.mono fun _ _ _ => trivial))
  refine ⟨fresh, _, _, hlaunch, hboot.trans hworks,
    fun {id urls} hstored => ?_⟩
  obtain ⟨row, hrow, hname, hurls⟩ : Holds final.committed id cdn urls :=
    hend.stored (by simpa using hstored)
  obtain ⟨_, _, hall, hshown⟩ := hend.answers
  obtain ⟨obs, hobs, hcloses⟩ := (Queue.accounted_of_reaches
    (Queue.sound_init _) (Queue.accounted_init _) hall).rows (.inr hrow)
      (hfinished _ row hrow hname) (Nat.zero_le _)
  exact ⟨row, obs, hrow, hname, hurls, by simpa using hshown hobs hcloses,
    hcloses⟩

/-- Every target is a batch. -/
def hastyConfig : Config := { sampleConfig with daemon := Daemon.sampleConfig }

/-- The process is killed before the worker has claimed the job, and the
provider will fail once. -/
theorem stored_urls_outlive_the_process_sample : ∃ trace s fresh more final,
    Reaches (step hastyConfig true fun _ _ => false) (fun _ _ => True)
      (init Publication.sampleStart 0 0) trace s ∧
    step hastyConfig true (fun _ _ => false) s (.launch 0) =
      some (fresh, []) ∧
    Reaches (step hastyConfig true fun _ _ => false)
      (Recovers Queue.flaky "fastly" Publication.sampleStart) fresh more
        final ∧
    ∃ row obs, final.daemon.queue.committed.row 1 = some row ∧
      row.urls = ["https://x/pkg"] ∧
      .daemon (.queue obs) ∈ trace ++ more ∧
      obs.Closes hastyConfig.daemon.retry 1 row.status := by
  obtain ⟨trace, s, hrun, hview⟩ := exists_reaches_of_execute
    (step hastyConfig true fun _ _ => false)
    (init Publication.sampleStart 0 0) (fun _ _ => True)
    (fun final => decide (.daemon (.stored 1 "fastly" ["https://x/pkg"]) ∈
      final.2)) true
    (sampleBoot ++
      [.daemon (.files (.create ["/", "stage"] "pkg")),
        .daemon (.files (.rename ["/", "stage"] "pkg" ["/", "srv"] "pkg")),
        .daemon .read, .daemon (.batcher (.acquire (.submit 1))),
        .daemon (.exec 1), .daemon .resume, .daemon (.exec 1)])
    (by decide +kernel)
  obtain ⟨providers, hproviders⟩ : ∃ providers,
      buildProviders hastyConfig true = .ok providers := ⟨_, rfl⟩
  have hcdn : "fastly" ∈ hastyConfig.cdns.keys := by decide
  have hidle : Publication.sampleStart.watcher.idle := by decide
  obtain ⟨fresh, more, final, hlaunch, hmore, hall⟩ :=
    stored_urls_outlive_the_process (by decide) hproviders hcdn hrun 0 hidle
      Queue.flaky
  obtain ⟨row, obs, hrow, -, hurls, hobs, hcloses⟩ :=
    hall (of_decide_eq_true hview)
  exact ⟨trace, s, fresh, more, final, hrun, hlaunch, hmore, row, obs, hrow,
    hurls, hobs, hcloses⟩

end MirrorMirage.Process
