import Mathlib.Data.Finset.Max
import MirrorMirage.Providers.GcpRequests

/-!
# The quota of the GCP provider

The limiter counts a request from its admission on, but the POST is sent only
after the waits for the semaphore and the token, so that POST requests bunch up
(`quota_is_exceeded`).  The quota is kept in the runs in which the limiter
admits a task only while it would also have room if each request counted from
the end of these waits; wherever it admits one without that room, more than the
quota may be sent at once (`quota_is_kept`).  When nobody waits, there is that
room (`hasRoom_of_prompt`).
-/

namespace MirrorMirage.Providers.GcpQuota

open MirrorMirage.Run
open MirrorMirage.UrlParse (Tables)

/-- The limiter has admitted the task, and its request waits for the semaphore
or the token. -/
def Point.waits (tables : Tables) : Point → Bool
  | .semaphore url => (Gcp.body tables url).isSome
  | .token _ => true
  | _ => false

/-- The requests whose waits ended less than a window ago. -/
def State.recent (quota : Quota) (s : State) : List Sent :=
  s.sent.filter (s.now < ·.time + quota.windowSeconds)

/-- The requests that wait, or have waited until less than a window ago. -/
def State.counting (quota : Quota) (tables : Tables) (s : State) : ℕ :=
  (s.tasksAt (Point.waits tables)).card + (s.recent quota).length

/-- If the limiter admits a task that has a request to send, there is room for
it among the requests that are counted from the end of their waits. -/
def hasRoom (quota : Quota) (tables : Tables) (s : State) : Action → Bool
  | .acquire task =>
      match (s.point task).entering with
      | some url => (Gcp.body tables url).isNone ||
          (acquire quota s.now s.calls).1 ≠ .admitted ||
            s.counting quota tables < quota.quotaPerMinute
      | none => true
  | _ => true

/-- The POST requests sent in the half-open window that begins at `start`. -/
def sentWithin (s : State) (start window : ℚ) : List Sent :=
  s.sent.filter fun request =>
    start ≤ request.time ∧ request.time < start + window

/-! ## With room for every admission -/

/-- What counts is within the quota, and so is every window so far. -/
structure Bounded (quota : Quota) (tables : Tables) (s : State) : Prop where
  pooled : Pooled quota s
  past : ∀ request ∈ s.sent, request.time ≤ s.now
  counting : s.counting quota tables ≤ quota.quotaPerMinute
  windows : ∀ start, (sentWithin s start quota.windowSeconds).length ≤
    quota.quotaPerMinute

section Bounded

variable {quota : Quota} {tables : Tables} {s after : State} {action : Action}
variable {task : ℕ} {point : Point} {url : String} {body : Gcp.Body}

theorem bounded_init (quota : Quota) (tables : Tables) (now : ℚ) :
    Bounded quota tables (init quota now) where
  pooled := pooled_init quota now
  past := by simp [init]
  counting := by
    simp [State.counting, State.tasksAt, State.recent, init, Point.waits]
  windows := by simp [sentWithin, init]

/-- A step that sends nothing and makes no more requests count. -/
theorem Bounded.of_sent_eq (h : Bounded quota tables s)
    (hpooled : Pooled quota after) (hsent : after.sent = s.sent)
    (hnow : s.now ≤ after.now)
    (hwaits : (after.tasksAt (Point.waits tables)).card +
      (s.recent quota).length ≤ quota.quotaPerMinute) :
    Bounded quota tables after where
  pooled := hpooled
  past := fun request hrequest =>
    (h.past request (hsent ▸ hrequest)).trans hnow
  counting := by
    refine le_trans (Nat.add_le_add_left (List.Sublist.length_le ?_) _) hwaits
    unfold State.recent
    rw [hsent]
    refine List.monotone_filter_right _ fun request hrecent => ?_
    simp only [decide_eq_true_eq] at hrecent ⊢
    exact hnow.trans_lt hrecent
  windows := by
    intro start
    rw [sentWithin, hsent]
    exact h.windows start

/-- A task goes on without sending anything. -/
theorem Bounded.goto (h : Bounded quota tables s)
    (hpooled : Pooled quota after)
    (hsame : point.waits tables = (s.point task).waits tables)
    (hspawned : after.spawned = s.spawned)
    (hpoints : after.point = (s.goto task point).point)
    (hsent : after.sent = s.sent) (hnow : after.now = s.now) :
    Bounded quota tables after := by
  refine h.of_sent_eq hpooled hsent hnow.ge ?_
  have hkept : after.tasksAt (Point.waits tables) =
      s.tasksAt (Point.waits tables) := by
    rw [← tasksAt_goto_of_eq hsame]
    unfold State.tasksAt
    rw [hspawned, hpoints]
    rfl
  rw [hkept]
  exact h.counting

theorem waits_of_entering (hentering : point.entering = some url) :
    point.waits tables = false := by
  cases point <;> simp_all [Point.entering, Point.waits]

theorem Bounded.admitted (h : Bounded quota tables s)
    (hentering : (s.point task).entering = some url) {calls : List ℚ}
    (hpooled : Pooled quota
      { s.goto task (.semaphore url) with calls := calls })
    (hroom : (Gcp.body tables url).isSome →
      s.counting quota tables < quota.quotaPerMinute) :
    Bounded quota tables
      { s.goto task (.semaphore url) with calls := calls } := by
  have hwaits : (s.point task).waits tables = false :=
    waits_of_entering hentering
  cases hbody : (Gcp.body tables url).isSome with
  | false =>
      exact h.goto hpooled (by rw [hwaits, Point.waits, hbody]) rfl rfl rfl rfl
  | true =>
      refine h.of_sent_eq hpooled rfl le_rfl ?_
      have hcard := card_tasksAt_goto_succ (.semaphore url)
        (h.pooled.lt_spawned rfl (entering_ne hentering).1)
        (show (Point.semaphore url).waits tables from hbody) hwaits
      have hlt : (s.tasksAt (Point.waits tables)).card +
          (s.recent quota).length < quota.quotaPerMinute := hroom hbody
      change ((s.goto task (.semaphore url)).tasksAt _).card + _ ≤ _
      omega

/-- A request that is sent has been counted, and the other ones in a window
with it are recent. -/
theorem Bounded.sent (h : Bounded quota tables s)
    (hpoint : s.point task = .token body)
    (hpooled : Pooled quota { s.goto task .posting with
      sent := s.sent ++ [⟨body, s.now⟩] }) :
    Bounded quota tables { s.goto task .posting with
      sent := s.sent ++ [⟨body, s.now⟩] } := by
  have hcard := card_tasksAt_goto_add .posting
    (h.pooled.lt_spawned hpoint (by simp)) rfl
    (show (s.point task).waits tables by rw [hpoint]; rfl)
  have hcounting : (s.tasksAt (Point.waits tables)).card +
      (s.recent quota).length ≤ quota.quotaPerMinute := h.counting
  refine ⟨hpooled, fun request hrequest => ?_, ?_, fun start => ?_⟩
  · rcases List.mem_append.mp hrequest with hrequest | hrequest
    · exact h.past request hrequest
    · rw [List.mem_singleton.mp hrequest]
      exact le_rfl
  · have hrecent : (State.recent quota { s.goto task .posting with
        sent := s.sent ++ [⟨body, s.now⟩] }).length ≤
          (s.recent quota).length + 1 := by
      unfold State.recent
      rw [List.filter_append, List.length_append]
      exact Nat.add_le_add_left (List.length_filter_le _ _) _
    change ((s.goto task .posting).tasksAt _).card + _ ≤ _
    omega
  · unfold sentWithin
    rw [List.filter_append, List.length_append]
    by_cases hwithin : start ≤ s.now ∧ s.now < start + quota.windowSeconds
    · have hrecent : (sentWithin s start quota.windowSeconds).length ≤
          (s.recent quota).length := by
        refine (List.monotone_filter_right _ fun request hstart => ?_).length_le
        simp only [decide_eq_true_eq] at hstart ⊢
        exact hwithin.2.trans_le (add_le_add_left hstart.1 _)
      have hone := List.length_filter_le (fun request : Sent =>
        decide (start ≤ request.time ∧
          request.time < start + quota.windowSeconds)) [⟨body, s.now⟩]
      rw [List.length_singleton] at hone
      exact le_trans (Nat.add_le_add hrecent hone) (by omega)
    · have hnone : [(⟨body, s.now⟩ : Sent)].filter (fun request =>
          decide (start ≤ request.time ∧
            request.time < start + quota.windowSeconds)) = [] := by
        simpa using hwithin
      rw [hnone]
      exact h.windows start

theorem bounded_move (h : Bounded quota tables s)
    (hroom : hasRoom quota tables s action)
    (hmove : Move quota tables s action after) :
    Bounded quota tables after := by
  have hpooled := pooled_move h.pooled hmove
  cases hmove with
  | tick hle => exact h.of_sent_eq hpooled rfl hle h.counting
  | purge =>
      refine h.of_sent_eq hpooled rfl le_rfl ?_
      rw [tasksAt_spawn fun _ => rfl]
      exact h.counting
  | admitted hentering hpass =>
      refine h.admitted hentering hpooled fun hbody => ?_
      simpa [hasRoom, hentering, hpass, Option.isNone_iff_eq_none,
        Option.isSome_iff_ne_none.mp hbody] using hroom
  | wait hentering | raised hentering =>
      exact h.goto hpooled (by rw [waits_of_entering hentering]; rfl) rfl rfl
        rfl rfl
  | refused hpoint _ hbody | parsed hpoint _ hbody =>
      exact h.goto hpooled (by simp [hpoint, Point.waits, hbody]) rfl rfl rfl
        rfl
  | sent hpoint => exact h.sent hpoint hpooled
  | @unauthorized task body hpoint =>
      refine h.of_sent_eq hpooled rfl le_rfl ?_
      have hcard := card_tasksAt_goto_add .done
        (h.pooled.lt_spawned hpoint (by simp)) rfl
        (show (s.point task).waits tables by rw [hpoint]; rfl)
      have hcounting : (s.tasksAt (Point.waits tables)).card +
          (s.recent quota).length ≤ quota.quotaPerMinute := h.counting
      change ((s.goto task .done).tasksAt _).card + _ ≤ _
      omega
  | answered hpoint =>
      exact h.goto hpooled (by rw [hpoint]; rfl) rfl rfl rfl rfl

end Bounded

/-! ## Without it -/

/-- Nothing counts that was sent later than now. -/
structure Counted (quota : Quota) (tables : Tables) (count : ℕ) (s : State) :
    Prop where
  pooled : Pooled quota s
  past : ∀ request ∈ s.sent, request.time ≤ s.now
  counting : s.counting quota tables = count

section Counted

variable {quota : Quota} {tables : Tables} {s after : State} {action : Action}
variable {count : ℕ}

theorem past_move (hpast : ∀ request ∈ s.sent, request.time ≤ s.now)
    (hmove : Move quota tables s action after) :
    ∀ request ∈ after.sent, request.time ≤ after.now := by
  cases hmove with
  | tick hle => exact fun request hrequest => (hpast request hrequest).trans hle
  | sent =>
      intro request hrequest
      rcases List.mem_append.mp hrequest with hrequest | hrequest
      · exact hpast request hrequest
      · rw [List.mem_singleton.mp hrequest]
        exact le_rfl
  | _ => exact hpast

/-- Past the limiter a request counts as long as no time passes. -/
theorem Counted.move (h : Counted quota tables count s)
    (hwindow : 0 < quota.windowSeconds) (hserves : action.serves)
    (hmove : Move quota tables s action after) :
    Counted quota tables count after := by
  have hpooled := pooled_move h.pooled hmove
  have hpast := past_move h.past hmove
  have hcounting : (s.tasksAt (Point.waits tables)).card +
      (s.recent quota).length = count := h.counting
  have hkept : ∀ {task point}, (point : Point).waits tables =
      (s.point task).waits tables →
        ((s.goto task point).tasksAt (Point.waits tables)).card +
          (s.recent quota).length = count :=
    fun hsame => by rw [tasksAt_goto_of_eq hsame, hcounting]
  refine ⟨hpooled, hpast, ?_⟩
  cases hmove with
  | tick | purge | admitted | wait | raised | unauthorized => cases hserves
  | refused hpoint _ hbody | parsed hpoint _ hbody =>
      exact hkept (by simp [hpoint, Point.waits, hbody])
  | answered hpoint => exact hkept (by rw [hpoint]; rfl)
  | @sent task body hpoint =>
      have hcard := card_tasksAt_goto_add .posting
        (h.pooled.lt_spawned hpoint (by simp)) rfl
        (show (s.point task).waits tables by rw [hpoint]; rfl)
      have hrecent : (State.recent quota { s.goto task .posting with
          sent := s.sent ++ [⟨body, s.now⟩] }).length =
            (s.recent quota).length + 1 := by
        unfold State.recent
        rw [List.filter_append, List.length_append]
        simp [State.goto, hwindow]
        rfl
      change ((s.goto task .posting).tasksAt _).card + _ = count
      omega

/-- The requests that wait are all sent at once. -/
theorem Counted.exists_sent (h : Counted quota tables count s)
    (hwindow : 0 < quota.windowSeconds) (hconcurrency : 0 < quota.concurrency) :
    ∃ trace final, Reaches (step quota tables)
      (fun _ action => action.serves) s trace final ∧
      Counted quota tables count final ∧
        final.tasksAt (Point.waits tables) = ∅ := by
  refine exists_reaches_of_runs (Counted quota tables count)
    (fun s => s.tasksAt (Point.waits tables) = ∅) State.remaining
    (fun {s} hcounted hwaits => ?_) h
  obtain ⟨task, htask⟩ := Finset.nonempty_iff_ne_empty.mpr hwaits
  have hadmitted : (s.point task).isAdmitted := by
    have hpoint := (mem_tasksAt.mp htask).2
    cases heq : s.point task <;>
      simp_all [Point.waits, Point.isAdmitted]
  have hserve : CanServe quota tables s :=
    hcounted.pooled.canServe hconcurrency hadmitted
  obtain ⟨action, after, hserves, hstep, hless⟩ := hserve
  exact ⟨_, after, Reaches.refl.snoc hserves hstep,
    hcounted.move hwindow hserves (move_of_step hstep), hless⟩

/-- All recent requests are in one window. -/
theorem exists_window (quota : Quota)
    (hpast : ∀ request ∈ s.sent, request.time ≤ s.now) : ∃ start,
      (s.recent quota).length ≤
        (sentWithin s start quota.windowSeconds).length := by
  by_cases hnone : s.recent quota = []
  · exact ⟨s.now, by simp [hnone]⟩
  obtain ⟨first, hfirst, hleast⟩ := (s.recent quota).toFinset.exists_min_image
    Sent.time (List.toFinset_nonempty_iff _ |>.mpr hnone)
  rw [List.mem_toFinset, State.recent, List.mem_filter, decide_eq_true_eq]
    at hfirst
  refine ⟨first.time, ?_⟩
  unfold sentWithin State.recent
  rw [← List.countP_eq_length_filter, ← List.countP_eq_length_filter]
  refine List.countP_mono_left fun request hrequest hrecent => ?_
  have hmem : request ∈ (s.recent quota).toFinset :=
    List.mem_toFinset.mpr (List.mem_filter.mpr ⟨hrequest, hrecent⟩)
  rw [decide_eq_true_eq]
  exact ⟨hleast request hmem, (hpast request hrequest).trans_lt hfirst.2⟩

/-- What counts can all be in one window before any time passes. -/
theorem Counted.exists_window (h : Counted quota tables count s)
    (hwindow : 0 < quota.windowSeconds) (hconcurrency : 0 < quota.concurrency) :
    ∃ trace final start, Reaches (step quota tables)
      (fun _ action => action.serves) s trace final ∧
      count ≤ (sentWithin final start quota.windowSeconds).length := by
  obtain ⟨trace, final, hrun, hfinal, hnone⟩ :=
    h.exists_sent hwindow hconcurrency
  obtain ⟨start, hle⟩ := GcpQuota.exists_window quota hfinal.past
  have hcounting := hfinal.counting
  rw [State.counting, hnone, Finset.card_empty, zero_add] at hcounting
  exact ⟨trace, final, start, hrun, hcounting ▸ hle⟩

/-- An admission without room makes more requests count than the quota. -/
theorem counting_of_admitted (h : Pooled quota s) {task : ℕ}
    (hroom : hasRoom quota tables s (.acquire task) = false)
    (hmove : Move quota tables s (.acquire task) after) :
    quota.quotaPerMinute < after.counting quota tables := by
  have hfull : ∀ {url}, (s.point task).entering = some url →
      (Gcp.body tables url).isSome ∧
        (acquire quota s.now s.calls).1 = .admitted ∧
          quota.quotaPerMinute ≤ s.counting quota tables := by
    intro url hentering
    simpa [hasRoom, hentering, Option.isSome_iff_ne_none, and_assoc] using hroom
  cases hmove with
  | wait hentering hpass | raised hentering hpass =>
      have hadmitted := (hfull hentering).2.1
      simp [hpass] at hadmitted
  | @admitted task url calls hentering hpass =>
      obtain ⟨hbody, -, hle⟩ := hfull hentering
      have hcard := card_tasksAt_goto_succ (.semaphore url)
        (h.lt_spawned rfl (entering_ne hentering).1)
        (show (Point.semaphore url).waits tables from hbody)
        (waits_of_entering hentering)
      change _ < ((s.goto task (.semaphore url)).tasksAt _).card +
        (s.recent quota).length
      have hcounting : quota.quotaPerMinute ≤
          (s.tasksAt (Point.waits tables)).card + (s.recent quota).length := hle
      omega

end Counted

/-! ## When nobody waits -/

/-- No time passes while a request waits. -/
def isPrompt (tables : Tables) (s : State) : Action → Prop
  | .tick _ => s.tasksAt (Point.waits tables) = ∅
  | _ => True

/-- The limiter remembers all that counts. -/
structure Prompt (quota : Quota) (tables : Tables) (s : State) : Prop where
  pooled : Pooled quota s
  past : ∀ request ∈ s.sent, request.time ≤ s.now
  remembered : ∀ cutoff, s.now - quota.windowSeconds ≤ cutoff →
    cutoff < s.now → (s.tasksAt (Point.waits tables)).card +
      (s.sent.filter (cutoff < ·.time)).length ≤
        (s.calls.filter (cutoff < ·)).length

section Prompt

variable {quota : Quota} {tables : Tables} {s after : State} {action : Action}

theorem acquire_snd (quota : Quota) (now : ℚ) (calls : List ℚ) :
    (acquire quota now calls).2 = (acquire quota now calls).1.record now
      (calls.dropWhile (· ≤ now - quota.windowSeconds)) := by
  unfold acquire
  dsimp only
  split
  · rfl
  · split <;> simp_all [Pass.record]

theorem length_dropWhile_lt {now : ℚ} {calls : List ℚ}
    (hadmitted : (acquire quota now calls).1 = .admitted) :
    (calls.dropWhile (· ≤ now - quota.windowSeconds)).length <
      quota.quotaPerMinute := by
  unfold acquire at hadmitted
  dsimp only at hadmitted
  split at hadmitted
  · assumption
  · split at hadmitted <;> cases hadmitted

/-- What is forgotten is not after the cutoff. -/
theorem filter_dropWhile {old cutoff : ℚ} (hle : old ≤ cutoff)
    (calls : List ℚ) :
    (calls.dropWhile (· ≤ old)).filter (cutoff < ·) =
      calls.filter (cutoff < ·) := by
  induction calls with
  | nil => rfl
  | cons call calls ih =>
      by_cases hold : call ≤ old
      · have hnot : ¬ cutoff < call := not_lt.mpr (hold.trans hle)
        simp [hold, ih, hnot]
      · simp [hold]

/-- A step that makes no request count, with the limiter's memory of the
window. -/
theorem Prompt.of_calls (h : Prompt quota tables s) (hpooled : Pooled quota after)
    (hnow : after.now = s.now) (hsent : after.sent = s.sent)
    (hwaits : (after.tasksAt (Point.waits tables)).card ≤
      (s.tasksAt (Point.waits tables)).card)
    (hcalls : after.calls = s.calls ∨
      after.calls = s.calls.dropWhile (· ≤ s.now - quota.windowSeconds)) :
    Prompt quota tables after where
  pooled := hpooled
  past := by
    rw [hsent, hnow]
    exact h.past
  remembered := by
    intro cutoff hfrom hto
    rw [hnow] at hfrom hto
    have hsame : after.calls.filter (cutoff < ·) =
        s.calls.filter (cutoff < ·) := by
      rcases hcalls with heq | heq <;> rw [heq]
      exact filter_dropWhile hfrom _
    rw [hsent, hsame]
    exact (Nat.add_le_add_right hwaits _).trans (h.remembered cutoff hfrom hto)

theorem prompt_move (h : Prompt quota tables s)
    (hprompt : isPrompt tables s action)
    (hmove : Move quota tables s action after) :
    Prompt quota tables after := by
  have hpooled := pooled_move h.pooled hmove
  have hpast := past_move h.past hmove
  have hsnd := acquire_snd quota s.now s.calls
  have hsame : ∀ {task point}, (point : Point).waits tables =
      (s.point task).waits tables →
        ((s.goto task point).tasksAt (Point.waits tables)).card ≤
          (s.tasksAt (Point.waits tables)).card :=
    fun hsame => (congrArg Finset.card (tasksAt_goto_of_eq hsame)).le
  cases hmove with
  | @tick time hle =>
      refine ⟨hpooled, hpast, fun cutoff hfrom hto => ?_⟩
      have hnone : s.tasksAt (Point.waits tables) = ∅ := hprompt
      by_cases hcutoff : cutoff < s.now
      · exact h.remembered cutoff ((sub_le_sub_right hle _).trans hfrom) hcutoff
      · have hsent : s.sent.filter (cutoff < ·.time) = [] := by
          rw [List.filter_eq_nil_iff]
          intro request hrequest
          simpa using (h.past request hrequest).trans (not_lt.mp hcutoff)
        change (s.tasksAt _).card + (s.sent.filter _).length ≤ _
        rw [hnone, hsent]
        exact Nat.zero_le _
  | purge =>
      exact h.of_calls hpooled rfl rfl (by rw [tasksAt_spawn fun _ => rfl])
        (.inl rfl)
  | @admitted task url calls hentering hpass =>
      rw [hpass] at hsnd
      refine ⟨hpooled, hpast, fun cutoff hfrom hto => ?_⟩
      have hafter : s.now - quota.windowSeconds ≤ cutoff := hfrom
      have hbefore : cutoff < s.now := hto
      have hwaits : ((s.goto task (.semaphore url)).tasksAt
          (Point.waits tables)).card ≤
            (s.tasksAt (Point.waits tables)).card + 1 := by
        cases hbody : (Gcp.body tables url).isSome with
        | false =>
            refine (hsame ?_).trans (Nat.le_succ _)
            rw [waits_of_entering hentering, Point.waits, hbody]
        | true =>
            exact (card_tasksAt_goto_succ (.semaphore url)
              (h.pooled.lt_spawned rfl (entering_ne hentering).1)
              (show (Point.semaphore url).waits tables from hbody)
              (waits_of_entering hentering)).le
      have hone : (calls.filter (cutoff < ·)).length =
          (s.calls.filter (cutoff < ·)).length + 1 := by
        rw [show calls = _ from hsnd, Pass.record, List.filter_append,
          List.length_append, filter_dropWhile hafter]
        simp [hbefore]
      have hremembered := h.remembered cutoff hafter hbefore
      change ((s.goto task (.semaphore url)).tasksAt _).card +
        (s.sent.filter _).length ≤ (calls.filter _).length
      omega
  | wait hentering hpass | raised hentering hpass =>
      rw [hpass] at hsnd
      exact h.of_calls hpooled rfl rfl
        (hsame (by rw [waits_of_entering hentering]; rfl)) (.inr hsnd)
  | refused hpoint _ hbody | parsed hpoint _ hbody =>
      exact h.of_calls hpooled rfl rfl
        (hsame (by simp [hpoint, Point.waits, hbody])) (.inl rfl)
  | @sent task body hpoint =>
      have hcard := card_tasksAt_goto_add .posting
        (h.pooled.lt_spawned hpoint (by simp)) rfl
        (show (s.point task).waits tables by rw [hpoint]; rfl)
      refine ⟨hpooled, hpast, fun cutoff hfrom hto => ?_⟩
      have hremembered := h.remembered cutoff hfrom hto
      have hone := List.length_filter_le
        (fun request : Sent => decide (cutoff < request.time))
        [⟨body, s.now⟩]
      rw [List.length_singleton] at hone
      change ((s.goto task .posting).tasksAt _).card +
        ((s.sent ++ [_]).filter _).length ≤ (s.calls.filter _).length
      rw [List.filter_append, List.length_append]
      omega
  | @unauthorized task body hpoint =>
      have hcard := card_tasksAt_goto_add .done
        (h.pooled.lt_spawned hpoint (by simp)) rfl
        (show (s.point task).waits tables by rw [hpoint]; rfl)
      exact h.of_calls hpooled rfl rfl (hcard ▸ Nat.le_succ _) (.inl rfl)
  | answered hpoint =>
      exact h.of_calls hpooled rfl rfl (hsame (by rw [hpoint]; rfl)) (.inl rfl)

/-- As long as no request waits for the semaphore or the token, what the limiter
counts is enough: it has room wherever it admits a task. -/
theorem hasRoom_of_prompt {now : ℚ} {trace : List Empty}
    (hwindow : 0 < quota.windowSeconds)
    (hrun : Reaches (step quota tables) (isPrompt tables) (init quota now)
      trace s) (action : Action) : hasRoom quota tables s action := by
  have hprompt : Prompt quota tables s := by
    refine hrun.invariant (fun _ s => Prompt quota tables s)
      ⟨pooled_init quota now, by simp [init], fun cutoff _ _ => ?_⟩
      fun h hprompt hstep => prompt_move h hprompt (move_of_step hstep)
    simp [State.tasksAt, init, Point.waits]
  unfold hasRoom
  split
  · split
    · rename_i url hentering
      by_cases hadmitted : (acquire quota s.now s.calls).1 = .admitted
      · have hremembered := hprompt.remembered
          (s.now - quota.windowSeconds) le_rfl (sub_lt_self _ hwindow)
        rw [← filter_dropWhile le_rfl s.calls] at hremembered
        have hrecent : s.recent quota = s.sent.filter
            (s.now - quota.windowSeconds < ·.time) :=
          List.filter_congr fun request _ => by
            rw [decide_eq_decide, sub_lt_iff_lt_add]
        have hlt : s.counting quota tables < quota.quotaPerMinute := by
          rw [State.counting, hrecent]
          exact (hremembered.trans (List.length_filter_le _ _)).trans_lt
            (length_dropWhile_lt hadmitted)
        simp [hlt]
      · simp [hadmitted]
    · rfl
  · rfl

end Prompt

/-- In every run of any `purge` calls in which the limiter admits a task only
while there is room for it among the requests that wait for the semaphore or
the token, or have waited until less than a window ago, every half-open window
has at most `quota_per_minute` POST requests.  And wherever it admits a task
without that room, the tasks can go on to more in one window before any time
passes. -/
theorem quota_is_kept {quota : Quota} {tables : Tables} {now : ℚ} :
    (∀ {trace s}, Reaches (step quota tables)
        (fun s action => hasRoom quota tables s action) (init quota now) trace
        s → ∀ start, (sentWithin s start quota.windowSeconds).length ≤
          quota.quotaPerMinute) ∧
    (0 < quota.windowSeconds → 0 < quota.concurrency →
      ∀ {trace s task after out}, Reaches (step quota tables) (fun _ _ => True)
        (init quota now) trace s →
      step quota tables s (.acquire task) = some (after, out) →
      hasRoom quota tables s (.acquire task) = false →
        ∃ more final start, Reaches (step quota tables)
          (fun _ action => action.serves) after more final ∧
          quota.quotaPerMinute <
            (sentWithin final start quota.windowSeconds).length) := by
  constructor
  · intro trace s hrun
    exact (hrun.invariant (fun _ s => Bounded quota tables s)
      (bounded_init quota tables now) fun h hroom hstep =>
        bounded_move h hroom (move_of_step hstep)).windows
  · intro hwindow hconcurrency trace s task after out hrun hstep hroom
    have hpooled := pooled_of_reaches hrun
    have hpast : ∀ request ∈ s.sent, request.time ≤ s.now :=
      hrun.invariant (fun _ s => ∀ request ∈ s.sent, request.time ≤ s.now)
        (by simp [init]) fun hpast _ hstep => past_move hpast (move_of_step hstep)
    have hmove := move_of_step hstep
    have hcounted : Counted quota tables (after.counting quota tables) after :=
      ⟨pooled_move hpooled hmove, past_move hpast hmove, rfl⟩
    obtain ⟨more, final, start, hmore, hle⟩ :=
      hcounted.exists_window hwindow hconcurrency
    exact ⟨more, final, start, hmore,
      (counting_of_admitted hpooled hroom hmove).trans_le hle⟩

/-- Two URLs under a quota of one: the second is admitted a window after the
first has got its token, or before that. -/
theorem quota_is_kept_sample :
    (∃ trace s, Reaches (step { quotaPerMinute := 1 } UrlParse.asciiTables)
        (fun s action => hasRoom { quotaPerMinute := 1 } UrlParse.asciiTables s
          action) (init { quotaPerMinute := 1 } 0) trace s ∧
      s.sent.map Sent.time = [5, 65] ∧ (sentWithin s 5 60).length ≤ 1) ∧
    ∃ trace s more final start,
      Reaches (step { quotaPerMinute := 1 } UrlParse.asciiTables)
        (fun _ _ => True) (init { quotaPerMinute := 1 } 0) trace s ∧
      Reaches (step { quotaPerMinute := 1 } UrlParse.asciiTables)
        (fun _ action => action.serves) s more final ∧
      1 < (sentWithin final start 60).length := by
  have hkept := @quota_is_kept { quotaPerMinute := 1 } UrlParse.asciiTables 0
  constructor
  · obtain ⟨trace, s, hrun, hsent⟩ := exists_reaches_of_execute
      (step { quotaPerMinute := 1 } UrlParse.asciiTables)
      (init { quotaPerMinute := 1 } 0)
      (fun s action => hasRoom { quotaPerMinute := 1 } UrlParse.asciiTables s
        action) (fun final => final.1.sent.map Sent.time) [5, 65]
      [.purge ["http://a/x", "http://a/y"], .acquire 0, .acquire 1,
        .enterSemaphore 0, .tick 5, .token 0, .tick 65, .acquire 1,
        .enterSemaphore 1, .token 1]
      (by decide +kernel)
    exact ⟨trace, s, hrun, hsent, hkept.1 hrun 5⟩
  · obtain ⟨trace, s, hrun, hview⟩ := exists_reaches_of_execute
      (step { quotaPerMinute := 1 } UrlParse.asciiTables)
      (init { quotaPerMinute := 1 } 0) (fun _ _ => True)
      (fun final => ((step { quotaPerMinute := 1 } UrlParse.asciiTables final.1
        (.acquire 1)).isSome, hasRoom { quotaPerMinute := 1 }
          UrlParse.asciiTables final.1 (.acquire 1))) (true, false)
      [.purge ["http://a/x", "http://a/y"], .acquire 0, .acquire 1,
        .enterSemaphore 0, .tick 60]
      (by decide +kernel)
    obtain ⟨hsome, hroom⟩ := Prod.ext_iff.mp hview
    obtain ⟨⟨after, out⟩, hstep⟩ := Option.isSome_iff_exists.mp hsome
    obtain ⟨more, final, start, hmore, hlt⟩ :=
      hkept.2 (by decide) (by decide) hrun hstep hroom
    exact ⟨_, after, more, final, start, hrun.snoc trivial hstep, hmore, hlt⟩

/-- The first of two requests waits a whole window for its token, so that both
are sent at once. -/
theorem quota_is_exceeded :
    ∃ trace s, Reaches (step { quotaPerMinute := 1 } UrlParse.asciiTables)
        (fun _ _ => True) (init { quotaPerMinute := 1 } 0) trace s ∧
      s.sent.map Sent.time = [60, 60] ∧
      ¬ (sentWithin s 60 60).length ≤ 1 := by
  obtain ⟨trace, s, hrun, hview⟩ := exists_reaches_of_execute
    (step { quotaPerMinute := 1 } UrlParse.asciiTables)
    (init { quotaPerMinute := 1 } 0) (fun _ _ => True)
    (fun final => (final.1.sent.map Sent.time,
      (sentWithin final.1 60 60).length)) ([60, 60], 2)
    [.purge ["http://a/x", "http://a/y"], .acquire 0, .acquire 1,
      .enterSemaphore 0, .tick 60, .acquire 1, .enterSemaphore 1, .token 0,
      .token 1]
    (by decide +kernel)
  obtain ⟨hsent, hlength⟩ := Prod.ext_iff.mp hview
  exact ⟨trace, s, hrun, hsent, by
    rw [show (sentWithin s 60 60).length = 2 from hlength]
    decide⟩

end MirrorMirage.Providers.GcpQuota
