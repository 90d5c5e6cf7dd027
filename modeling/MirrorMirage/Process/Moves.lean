import MirrorMirage.Process.Model

/-!
# What one step of the process can do

`Move` lists the accepted actions by what they do to the daemon: a stage ends,
which leaves the daemon alone, the queue comes up, the group is entered, goes on
or is aborted, or the daemon itself takes a step.  `move_of_step` reads it off
`step`.
-/

namespace MirrorMirage.Process

open MirrorMirage.Providers.Build (Provider buildProviders)
open MirrorMirage.TaskGroup (Exit Group)

/-- Why a stage ends with `how`. -/
inductive Cause (s : State) : Action → List Obs → RunEnd → Prop where
  | signalled {out : List Obs} (hphase : s.phase = .opening ∨
        s.phase = .recovering ∨ ∃ how, s.phase = .closing how)
      (hmem : .signalled ∈ out) : Cause s .signal out .cancelled
  | failed {action : Action} {out : List Obs} {how : RunEnd} {text : String}
      (hphase : s.phase = .opening ∨ s.phase = .recovering ∨
        ∃ how, s.phase = .closing how)
      (hhow : how = .inotifyLimitError text ∨ how = .otherError text)
      (hmem : .failed text ∈ out) : Cause s action out how
  | kept {action : Action} {out : List Obs} {how : RunEnd}
      (hphase : s.phase = .closing how ∨ s.phase = .ended how) :
      Cause s action out how
  | left {group : Group Child String} {exit : Exit String} {out : List Obs}
      (hphase : s.phase = .grouped group) (hexit : group.exit? = some exit) :
      Cause s .leave out (ofExit exit)

section Machine

variable (cfg : Config) (dryRun : Bool)
variable (fnmatchcase : String → String → Bool)

/-- The accepted actions with what they are to the daemon. -/
inductive Move (s : State) : Action → State → List Obs → Prop where
  | launch {now : ℚ} {after : State}
      (hlaunch : launch cfg s.daemon now = some after) :
      Move s (.launch now) after []
  | close {action : Action} {out : List Obs} {how : RunEnd} {phase : Phase}
      (hphase : phase = .closing how ∨ phase = .ended how)
      (hcause : Cause s action out how) (hout : ∀ obs, .daemon obs ∉ out) :
      Move s action ⟨phase, s.daemon⟩ out
  | boot {action : Action} {own : Queue.Action} {daemon : Daemon.State}
      (hphase : s.phase = .opening ∧ own = .start ∨
        s.phase = .recovering ∧ own = .boot ∧
          s.daemon.queue.phase ≠ .resetCommitted)
      (hboot : queueStep cfg s.daemon own = some daemon) :
      Move s action ⟨.recovering, daemon⟩ []
  | enter {files : Publication.State} {providers : Dict String Provider}
      {daemon : Daemon.State} (hphase : s.phase = .recovering)
      (hreset : s.daemon.queue.phase = .resetCommitted)
      (hproviders : buildProviders cfg dryRun = .ok providers)
      (hidle : files.watcher.idle)
      (hboot : queueStep cfg s.daemon .boot = some daemon) :
      Move s (.enter (.watching files))
        ⟨.grouped (Group.enter (children providers)),
          { daemon with files := files }⟩ []
  | cancel {group : Group Child String} {after : State}
      (hphase : s.phase = .grouped group)
      (hregroup : regroup cfg fnmatchcase s.daemon group group.cancel =
        some after) :
      Move s .signal after [.signalled]
  | done {group : Group Child String} {child : Child} {error : Option String}
      {after : State} (hphase : s.phase = .grouped group)
      (hended : hasEnded group.aborting s.daemon child error)
      (hregroup : regroup cfg fnmatchcase s.daemon group
        (group.done child error) = some after) :
      Move s (.done child error) after (error.toList.map .failed)
  | daemon {group : Group Child String} {own : Daemon.Action}
      {daemon : Daemon.State} {out : List Daemon.Obs}
      (hphase : s.phase = .grouped group) (hgoes : goesOn group.tasks own)
      (hstep : Daemon.step cfg.daemon fnmatchcase cfg.watches s.daemon own =
        some (daemon, out)) :
      Move s (.daemon own) ⟨.grouped group, daemon⟩ (out.map .daemon)
  | thread {how : RunEnd} {own : Daemon.Action} {daemon : Daemon.State}
      {out : List Daemon.Obs} (hphase : s.phase = .closing how)
      (hthread : isThread own)
      (hstep : Daemon.step cfg.daemon fnmatchcase cfg.watches s.daemon own =
        some (daemon, out)) :
      Move s (.daemon own) ⟨.closing how, daemon⟩ (out.map .daemon)

end Machine

section Moves

variable {cfg : Config} {dryRun : Bool}
variable {fnmatchcase : String → String → Bool}
variable {s after : State} {action : Action} {out : List Obs}

theorem move_of_signal
    (h : step cfg dryRun fnmatchcase s .signal = some (after, out)) :
    Move cfg dryRun fnmatchcase s .signal after out := by
  simp only [step] at h
  split at h
  · rename_i hphase
    cases h
    exact .close (.inr rfl) (.signalled (.inl hphase) (by simp)) (by simp)
  · rename_i hphase
    cases h
    exact .close (.inl rfl) (.signalled (.inr (.inl hphase)) (by simp))
      (by simp)
  · rename_i group hphase
    obtain ⟨next, hregroup, heq⟩ := Option.map_eq_some_iff.mp h
    cases heq
    exact .cancel hphase hregroup
  · rename_i how hphase
    cases h
    exact .close (.inr rfl) (.signalled (.inr (.inr ⟨how, hphase⟩)) (by simp))
      (by simp)
  · rename_i how hphase
    cases h
    exact .close (.inr rfl) (.kept (.inr hphase)) (by simp)

theorem move_of_enter {entered : Entered} (hphase : s.phase = .recovering)
    (hreset : s.daemon.queue.phase = .resetCommitted)
    (h : enter cfg dryRun s.daemon entered = some (after, out)) :
    Move cfg dryRun fnmatchcase s (.enter entered) after out := by
  unfold enter at h
  split at h
  · cases h
    exact .close (.inl rfl) (.failed (.inr (.inl hphase)) (.inr rfl) (by simp))
      (by simp)
  · rename_i providers hproviders
    split at h
    · cases h
      exact .close (.inl rfl)
        (.failed (.inr (.inl hphase)) (.inl rfl) (by simp)) (by simp)
    · cases h
      exact .close (.inl rfl)
        (.failed (.inr (.inl hphase)) (.inr rfl) (by simp)) (by simp)
    · split at h
      · rename_i hidle
        obtain ⟨daemon, hboot, heq⟩ := Option.map_eq_some_iff.mp h
        cases heq
        exact .enter hphase hreset hproviders hidle hboot
      · cases h

theorem move_of_daemon {own : Daemon.Action}
    (h : step cfg dryRun fnmatchcase s (.daemon own) = some (after, out)) :
    Move cfg dryRun fnmatchcase s (.daemon own) after out := by
  simp only [step] at h
  split at h
  · rename_i group hphase
    split at h
    · obtain ⟨⟨daemon, found⟩, hstep, heq⟩ := Option.map_eq_some_iff.mp h
      cases heq
      exact .daemon hphase ‹_› hstep
    · cases h
  · rename_i how hphase
    split at h
    · obtain ⟨⟨daemon, found⟩, hstep, heq⟩ := Option.map_eq_some_iff.mp h
      cases heq
      exact .thread hphase ‹_› hstep
    · cases h
  · cases h

theorem move_of_step
    (h : step cfg dryRun fnmatchcase s action = some (after, out)) :
    Move cfg dryRun fnmatchcase s action after out := by
  cases action with
  | launch now =>
      simp only [step] at h
      obtain ⟨next, hlaunch, heq⟩ := Option.map_eq_some_iff.mp h
      cases heq
      exact .launch hlaunch
  | signal => exact move_of_signal h
  | opened =>
      simp only [step] at h
      split at h
      · obtain ⟨daemon, hboot, heq⟩ := Option.map_eq_some_iff.mp h
        cases heq
        exact .boot (.inl ⟨‹_›, rfl⟩) hboot
      · cases h
  | boot =>
      simp only [step] at h
      split at h
      · rename_i hphase
        obtain ⟨daemon, hboot, heq⟩ := Option.map_eq_some_iff.mp h
        cases heq
        exact .boot (.inr ⟨hphase.1, rfl, hphase.2⟩) hboot
      · cases h
  | enter entered =>
      simp only [step] at h
      split at h
      · rename_i hphase
        exact move_of_enter hphase.1 hphase.2 h
      · cases h
  | fail text =>
      simp only [step] at h
      split at h
      · rename_i hphase
        cases h
        exact .close (.inr rfl) (.failed (.inl hphase) (.inr rfl) (by simp))
          (by simp)
      · rename_i hphase
        cases h
        exact .close (.inl rfl)
          (.failed (.inr (.inl hphase)) (.inr rfl) (by simp)) (by simp)
      · rename_i how hphase
        cases h
        exact .close (.inr rfl)
          (.failed (.inr (.inr ⟨how, hphase⟩)) (.inr rfl) (by simp)) (by simp)
      · cases h
  | daemon own => exact move_of_daemon h
  | done child error =>
      simp only [step] at h
      split at h
      · rename_i group hphase
        split at h
        · rename_i hended
          obtain ⟨next, hregroup, heq⟩ := Option.map_eq_some_iff.mp h
          cases heq
          exact .done hphase hended.2 hregroup
        · cases h
      · cases h
  | leave =>
      simp only [step] at h
      split at h
      · rename_i group hphase
        obtain ⟨exit, hexit, heq⟩ := Option.map_eq_some_iff.mp h
        cases heq
        exact .close (.inl rfl) (.left hphase hexit) (by simp)
      · cases h
  | closed =>
      simp only [step] at h
      split at h
      · rename_i how hphase
        cases h
        exact .close (.inr rfl) (.kept (.inl hphase)) (by simp)
      · cases h

end Moves

end MirrorMirage.Process
