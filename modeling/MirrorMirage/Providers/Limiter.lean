import Mathlib.Tactic.Linarith
import Mathlib.Tactic.Ring
import MirrorMirage.Core.SlidingWindow
import MirrorMirage.Providers.GcpQuota

/-!
# The sliding-window limiter

`_SlidingWindowLimiter` of `providers/gcp.py` by itself: any number of
concurrent `acquire` calls, each of which goes through the lock until a pass
admits it.  There is no `await` between the lock's two ends, so a pass is one
step; a sleep may end at any moment.
-/

namespace MirrorMirage.Providers

open Function (update)
open MirrorMirage.Run MirrorMirage.SlidingWindow
open MirrorMirage.Providers.GcpQuota (Pass Quota)

/-- What a limiter is created with; nothing checks the capacity. -/
structure Limiter where
  capacity : ℤ
  windowSeconds : ℚ

namespace Limiter

/-- The body of `acquire` under its lock, and the deque it leaves. -/
def pass (limiter : Limiter) (now : ℚ) (calls : List ℚ) :
    Pass × List ℚ :=
  let cutoff := now - limiter.windowSeconds
  let calls := calls.dropWhile (· ≤ cutoff)
  if (calls.length : ℤ) < limiter.capacity then (.admitted, calls ++ [now])
  else
    match calls with
    | [] => (.raised, [])
    | oldest :: _ =>
        (.wait (max 0 (oldest + limiter.windowSeconds - now)), calls)

/-- The limiter that a provider makes for itself. -/
def ofQuota (quota : Quota) : Limiter where
  capacity := quota.quotaPerMinute
  windowSeconds := quota.windowSeconds

theorem acquire_eq_pass (quota : Quota) (now : ℚ) (calls : List ℚ) :
    GcpQuota.acquire quota now calls = (ofQuota quota).pass now calls := by
  unfold GcpQuota.acquire pass ofQuota
  dsimp only
  generalize calls.dropWhile (· ≤ now - quota.windowSeconds) = kept
  cases kept <;> simp only [Nat.cast_lt]

/-- Where an `acquire` call is. -/
inductive Caller where
  | absent
  | entering
  | sleeping (deadline : ℚ)
  | admitted
  | raised
  deriving DecidableEq, Repr

/-- The history of `admissions` is recorded for the statements only. -/
structure State where
  now : ℚ
  calls : List ℚ
  caller : ℕ → Caller
  admissions : List ℚ

def init (now : ℚ) : State where
  now := now
  calls := []
  caller := fun _ => .absent
  admissions := []

inductive Action where
  | tick (time : ℚ)
  /-- `acquire()` is called. -/
  | acquire (task : ℕ)
  /-- A call goes through the lock, for the first time or after a sleep. -/
  | pass (task : ℕ)
  deriving DecidableEq, Repr

/-- Where a pass at `now` leaves its caller. -/
def afterPass (now : ℚ) : Pass → Caller
  | .admitted => .admitted
  | .wait seconds => .sleeping (now + seconds)
  | .raised => .raised

def Caller.waits : Caller → Bool
  | .entering | .sleeping _ => true
  | _ => false

def step (limiter : Limiter) (s : State) :
    Action → Option (State × List Empty)
  | .tick time =>
      if s.now ≤ time then some ({ s with now := time }, []) else none
  | .acquire task =>
      if s.caller task = .absent then
        some ({ s with caller := update s.caller task .entering }, [])
      else none
  | .pass task =>
      if (s.caller task).waits then
        let passed := limiter.pass s.now s.calls
        some ({ s with
          calls := passed.2
          caller := update s.caller task (afterPass s.now passed.1)
          admissions := passed.1.record s.now s.admissions }, [])
      else none

/-- The calls admitted at the times that satisfy `near`. -/
def admittedAt (s : State) (near : ℚ → Bool) : List ℚ :=
  s.admissions.filter near

/-! ## The invariant -/

/-- The deque is the recent part of an ordered history, and short. -/
structure Exact (limiter : Limiter) (s : State) : Prop where
  tracks : Tracks limiter.capacity.toNat limiter.windowSeconds s.now
    s.admissions s.calls
  sorted : s.admissions.Pairwise (· ≤ ·)
  past : ∀ time ∈ s.admissions, time ≤ s.now
  short : s.calls.length ≤ limiter.capacity.toNat

theorem exact_init (limiter : Limiter) (now : ℚ) :
    Exact limiter (init now) := by
  constructor <;> simp [init, tracks_nil]

section Pass

variable {limiter : Limiter} {s : State}

/-- The calls of the window that ends now. -/
def recent (limiter : Limiter) (s : State) : List ℚ :=
  admittedAt s fun time =>
    s.now - limiter.windowSeconds < time ∧ time ≤ s.now

theorem Exact.trimmed (h : Exact limiter s) :
    s.calls.dropWhile (· ≤ s.now - limiter.windowSeconds) =
      recent limiter s := by
  rw [h.tracks.dropWhile_eq_filter h.sorted]
  refine List.filter_congr fun time htime => ?_
  simp [h.past time htime]

theorem Exact.recent_le (h : Exact limiter s) :
    (recent limiter s).length ≤ limiter.capacity.toNat := by
  rw [← h.trimmed]
  exact (List.dropWhile_sublist _).length_le.trans h.short

/-- A pass decides by the calls of the last window. -/
theorem Exact.pass_eq (h : Exact limiter s) :
    limiter.pass s.now s.calls =
      if ((recent limiter s).length : ℤ) < limiter.capacity then
        (.admitted, recent limiter s ++ [s.now])
      else
        match recent limiter s with
        | [] => (.raised, [])
        | oldest :: _ =>
            (.wait (max 0 (oldest + limiter.windowSeconds - s.now)),
              recent limiter s) := by
  simp only [pass, h.trimmed]

/-- A caller that has to wait comes back when the oldest call of a full window
has aged out. -/
theorem Exact.pass_outcome (h : Exact limiter s)
    (hcapacity : 1 ≤ limiter.capacity) :
    ((recent limiter s).length < limiter.capacity ∧
        (limiter.pass s.now s.calls).1 = .admitted) ∨
      ∃ oldest rest, recent limiter s = oldest :: rest ∧
        (recent limiter s).length = limiter.capacity ∧
        (limiter.pass s.now s.calls).1 =
          .wait (oldest + limiter.windowSeconds - s.now) := by
  rw [h.pass_eq]
  have hle := h.recent_le
  split
  · exact .inl ⟨‹_›, rfl⟩
  · rename_i hfull
    have hlength : ((recent limiter s).length : ℤ) = limiter.capacity := by
      omega
    cases hrecent : recent limiter s with
    | nil =>
        rw [hrecent, List.length_nil, Nat.cast_zero] at hlength
        omega
    | cons oldest rest =>
        refine .inr ⟨oldest, rest, rfl, by rw [← hrecent, hlength], ?_⟩
        have hmem : oldest ∈ recent limiter s := by simp [hrecent]
        simp only [recent, admittedAt, List.mem_filter, decide_eq_true_eq]
          at hmem
        have hahead : 0 ≤ oldest + limiter.windowSeconds - s.now := by
          linarith [hmem.2.1]
        simp only [max_eq_right hahead]

/-- A pass keeps the deque the recent part of the history. -/
theorem Exact.after_pass (h : Exact limiter s) {caller : ℕ → Caller} :
    Exact limiter { s with
      calls := (limiter.pass s.now s.calls).2
      caller := caller
      admissions := (limiter.pass s.now s.calls).1.record s.now
        s.admissions } := by
  have hforget := h.tracks.forget
  rw [h.trimmed] at hforget
  have hle := h.recent_le
  rw [h.pass_eq]
  by_cases hroom : ((recent limiter s).length : ℤ) < limiter.capacity
  · have hlt : (recent limiter s).length < limiter.capacity.toNat := by omega
    rw [if_pos hroom]
    refine ⟨hforget.record hlt, ?_, ?_, ?_⟩
    · simpa [Pass.record, List.pairwise_append] using ⟨h.sorted, h.past⟩
    · intro time htime
      rcases List.mem_append.mp htime with htime | htime
      · exact h.past time htime
      · exact (List.mem_singleton.mp htime).le
    · rw [List.length_append, List.length_singleton]
      exact hlt
  · rw [if_neg hroom]
    generalize recent limiter s = kept at hforget hle ⊢
    cases kept with
    | nil => exact ⟨hforget, h.sorted, h.past, by simp⟩
    | cons oldest rest => exact ⟨hforget, h.sorted, h.past, hle⟩

end Pass

theorem exact_step {limiter : Limiter} {s after : State} {action : Action}
    {out : List Empty} (h : Exact limiter s)
    (hstep : step limiter s action = some (after, out)) :
    Exact limiter after := by
  cases action with
  | tick time =>
      simp only [step] at hstep
      split at hstep
      · rename_i hlater
        cases hstep
        exact ⟨h.tracks.later hlater, h.sorted,
          fun past hpast => (h.past past hpast).trans hlater, h.short⟩
      · cases hstep
  | acquire task =>
      simp only [step] at hstep
      split at hstep <;> cases hstep
      exact ⟨h.tracks, h.sorted, h.past, h.short⟩
  | pass task =>
      simp only [step] at hstep
      split at hstep <;> cases hstep
      exact h.after_pass

theorem exact_of_reaches {limiter : Limiter} {now : ℚ} {trace : List Empty}
    {s : State} (hrun : Reaches (step limiter) (fun _ _ => True) (init now)
      trace s) : Exact limiter s :=
  hrun.invariant (fun _ s => Exact limiter s) (exact_init limiter now)
    fun h _ hstep => exact_step h hstep

/-! ## Every window -/

/-- Calls less than a window apart are no more than the capacity. -/
theorem Exact.admittedAt_le {limiter : Limiter} {s : State}
    (h : Exact limiter s) (near : ℚ → Bool)
    (hnear : ∀ first second, near first → near second →
      second < first + limiter.windowSeconds) :
    ((admittedAt s near).length : ℤ) ≤ max 0 limiter.capacity := by
  have hle := h.tracks.spaced.length_filter_le near hnear
  simp only [admittedAt]
  omega

/-- A caller that a pass sends to sleep has met a full window, and is to come
back when its oldest call has aged out. -/
theorem Exact.delayed_iff {limiter : Limiter} {s after : State} {task : ℕ}
    {out : List Empty} (h : Exact limiter s)
    (hcapacity : 1 ≤ limiter.capacity)
    (hstep : step limiter s (.pass task) = some (after, out)) :
    ((∃ deadline, after.caller task = .sleeping deadline) ↔
        (recent limiter s).length = limiter.capacity) ∧
      ((recent limiter s).length < limiter.capacity →
        after.caller task = .admitted) ∧
      ∀ deadline, after.caller task = .sleeping deadline →
        ∃ oldest ∈ recent limiter s,
          (∀ time ∈ recent limiter s, oldest ≤ time) ∧
            deadline = oldest + limiter.windowSeconds := by
  have hcaller : after.caller task =
      afterPass s.now (limiter.pass s.now s.calls).1 := by
    simp only [step] at hstep
    split at hstep <;> cases hstep
    exact Function.update_self ..
  rw [hcaller]
  rcases h.pass_outcome hcapacity with
    ⟨hroom, hpass⟩ | ⟨oldest, rest, hrecent, hfull, hpass⟩
  · rw [hpass]
    refine ⟨⟨?_, fun hfull => ?_⟩, fun _ => rfl, ?_⟩
    · rintro ⟨deadline, hdeadline⟩
      simp [afterPass] at hdeadline
    · omega
    · intro deadline hdeadline
      simp [afterPass] at hdeadline
  · rw [hpass]
    refine ⟨⟨fun _ => hfull, fun _ => ⟨_, rfl⟩⟩, fun hroom => ?_, ?_⟩
    · omega
    · intro deadline hdeadline
      have hsorted : (oldest :: rest).Pairwise (· ≤ ·) := by
        rw [← hrecent]
        exact h.sorted.sublist List.filter_sublist
      refine ⟨oldest, by simp [hrecent], ?_, ?_⟩
      · intro time htime
        rw [hrecent] at htime
        rcases List.mem_cons.mp htime with rfl | htime
        · exact le_rfl
        · exact (List.pairwise_cons.mp hsorted).1 time htime
      · simp only [afterPass, Caller.sleeping.injEq] at hdeadline
        rw [← hdeadline]
        ring

/-- In every run of any `acquire` calls: no half-open window has more than
`capacity` of them, the deque is ordered and short and has every call of the
last window, and a pass delays its caller exactly if the window is full. -/
theorem limiter_is_exact {limiter : Limiter} {now : ℚ} {trace : List Empty}
    {s : State} (hrun : Reaches (step limiter) (fun _ _ => True) (init now)
      trace s) :
    (∀ start,
      ((admittedAt s fun time =>
          start ≤ time ∧ time < start + limiter.windowSeconds).length : ℤ) ≤
        max 0 limiter.capacity ∧
      ((admittedAt s fun time =>
          start < time ∧ time ≤ start + limiter.windowSeconds).length : ℤ) ≤
        max 0 limiter.capacity) ∧
    s.calls.Pairwise (· ≤ ·) ∧
    (s.calls.length : ℤ) ≤ max 0 limiter.capacity ∧
    (recent limiter s).Sublist s.calls ∧
    ∀ task after out, 1 ≤ limiter.capacity →
      step limiter s (.pass task) = some (after, out) →
        ((∃ deadline, after.caller task = .sleeping deadline) ↔
          (recent limiter s).length = limiter.capacity) ∧
        ((recent limiter s).length < limiter.capacity →
          after.caller task = .admitted) ∧
        ∀ deadline, after.caller task = .sleeping deadline →
          ∃ oldest ∈ recent limiter s,
            (∀ time ∈ recent limiter s, oldest ≤ time) ∧
              deadline = oldest + limiter.windowSeconds := by
  have h := exact_of_reaches hrun
  refine ⟨fun start => ⟨?_, ?_⟩, ?_, ?_, ?_, ?_⟩
  · refine h.admittedAt_le _ fun first second hfirst hsecond => ?_
    simp only [decide_eq_true_eq] at hfirst hsecond
    linarith [hfirst.1, hsecond.2]
  · refine h.admittedAt_le _ fun first second hfirst hsecond => ?_
    simp only [decide_eq_true_eq] at hfirst hsecond
    linarith [hfirst.1, hsecond.2]
  · obtain ⟨forgotten, hsplit, -⟩ := h.tracks.recent
    have hsorted := h.sorted
    rw [hsplit] at hsorted
    exact (List.pairwise_append.mp hsorted).2.1
  · have hshort := h.short
    omega
  · rw [← h.trimmed]
    exact List.dropWhile_sublist _
  · exact fun task after out hcapacity hstep => h.delayed_iff hcapacity hstep

/-- Three calls at a limiter of two: the third is to wait until the first has
aged out. -/
theorem limiter_is_exact_sample :
    ∃ trace s, Reaches (step ⟨2, 60⟩) (fun _ _ => True) (init 0) trace s ∧
      s.admissions = [0, 5] ∧ s.calls.Pairwise (· ≤ ·) ∧
      (s.calls.length : ℤ) ≤ max 0 2 ∧
      ∀ after out, step ⟨2, 60⟩ s (.pass 2) = some (after, out) →
        ∃ deadline, after.caller 2 = .sleeping deadline := by
  obtain ⟨trace, s, hrun, hview⟩ := exists_reaches_of_execute
    (step ⟨2, 60⟩) (init 0) (fun _ _ => True)
    (fun final => (final.1.admissions, (recent ⟨2, 60⟩ final.1).length))
    ([0, 5], 2)
    [.acquire 0, .acquire 1, .acquire 2, .pass 0, .tick 5, .pass 1]
    (by decide +kernel)
  obtain ⟨hadmissions, hfull⟩ := Prod.ext_iff.mp hview
  obtain ⟨-, hsorted, hshort, -, hdelayed⟩ := limiter_is_exact hrun
  refine ⟨trace, s, hrun, hadmissions, hsorted, hshort, fun after out hstep =>
    (hdelayed 2 after out (by decide) hstep).1.mpr ?_⟩
  exact congrArg Nat.cast hfull

end Limiter

end MirrorMirage.Providers
