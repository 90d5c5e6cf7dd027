import Mathlib.Algebra.Order.Group.Defs
import Mathlib.Data.Finset.Card
import Mathlib.Data.Finset.Insert

/-!
# A debouncer

It collects items and passes them on in batches.  A batch goes out with the
item that fills it, else when nothing has been added for a quiet time or when
its first item has waited for the maximal age.  `run` reads the batches off a
timed sequence of items.

A machine that debounces is compared with `run` by `Follows`: it has done what
the items ask for and may or may not have passed on what has become due since.
-/

namespace MirrorMirage.Debounce

variable {Time Item : Type*}

structure Limits (Time : Type*) where
  quiet : Time
  age : Time
  size : ℕ

/-- The items since the last batch, with the times of the first and of the
latest addition. -/
structure Pending (Time Item : Type*) where
  items : Finset Item
  first : Time
  latest : Time

structure State (Time Item : Type*) where
  pending : Option (Pending Time Item)
  batches : List (Time × Finset Item)

section Definitions

variable [Add Time] [LinearOrder Time] [DecidableEq Item]

def Pending.deadline (limits : Limits Time) (pending : Pending Time Item) :
    Time :=
  min (pending.latest + limits.quiet) (pending.first + limits.age)

def collect (now : Time) (item : Item) :
    Option (Pending Time Item) → Pending Time Item
  | none => ⟨{item}, now, now⟩
  | some pending =>
      { pending with
        items := insert item pending.items
        latest := now }

namespace State

variable (limits : Limits Time) (now : Time) (s : State Time Item)

/-- The batch whose deadline has come by `now` goes out at its deadline. -/
def elapse : State Time Item :=
  match s.pending with
  | none => s
  | some pending =>
      if pending.deadline limits ≤ now then
        ⟨none, s.batches ++ [(pending.deadline limits, pending.items)]⟩
      else s

def add (item : Item) : State Time Item :=
  let pending := collect now item s.pending
  if limits.size ≤ pending.items.card then
    ⟨none, s.batches ++ [(now, pending.items)]⟩
  else ⟨some pending, s.batches⟩

def submit (entry : Time × Item) : State Time Item :=
  (s.elapse limits entry.1).add limits entry.1 entry.2

end State

def run (limits : Limits Time) (entries : List (Time × Item)) :
    State Time Item :=
  entries.foldl (State.submit limits) ⟨none, []⟩

/-- The batches that have gone out by `now`. -/
def batches (limits : Limits Time) (now : Time) (entries : List (Time × Item)) :
    List (Time × Finset Item) :=
  ((run limits entries).elapse limits now).batches

/-- Nothing that is pending is due. -/
def State.Early (limits : Limits Time) (now : Time) (s : State Time Item) :
    Prop :=
  ∀ pending, s.pending = some pending → now < pending.deadline limits

def Follows (limits : Limits Time) (now : Time)
    (entries : List (Time × Item)) (s : State Time Item) : Prop :=
  s = run limits entries ∨ s = (run limits entries).elapse limits now

end Definitions

section Elapse

variable [Add Time] [LinearOrder Time]
variable {limits : Limits Time} {now : Time} {s : State Time Item}
variable {pending : Pending Time Item}

theorem elapse_of_early (h : s.Early limits now) : s.elapse limits now = s := by
  unfold State.elapse
  split
  · rfl
  · rename_i pending hpending
    exact if_neg (h pending hpending).not_ge

theorem elapse_of_due (hpending : s.pending = some pending)
    (hdue : pending.deadline limits ≤ now) : s.elapse limits now =
      ⟨none, s.batches ++ [(pending.deadline limits, pending.items)]⟩ := by
  simp [State.elapse, hpending, hdue]

theorem elapse_cases (s : State Time Item) : s.Early limits now ∨
    ∃ pending, s.pending = some pending ∧ pending.deadline limits ≤ now := by
  cases hpending : s.pending with
  | none => exact .inl fun pending h => by simp [hpending] at h
  | some pending =>
      rcases lt_or_ge now (pending.deadline limits) with hearly | hdue
      · refine .inl fun other hother => ?_
        rw [hpending] at hother
        exact Option.some.inj hother ▸ hearly
      · exact .inr ⟨pending, rfl, hdue⟩

end Elapse

/-! ## Following a debouncer -/

section Following

variable [Add Time] [LinearOrder Time] [DecidableEq Item]
variable {limits : Limits Time} {now : Time} {s : State Time Item}
variable {entries : List (Time × Item)} {pending : Pending Time Item}

theorem run_concat (entry : Time × Item) :
    run limits (entries ++ [entry]) = (run limits entries).submit limits entry :=
  List.foldl_concat ..

theorem follows_nil : Follows limits now ([] : List (Time × Item)) ⟨none, []⟩ :=
  .inl rfl

theorem Follows.later (h : Follows limits now entries s) {time : Time}
    (htime : now ≤ time) : Follows limits time entries s := by
  rcases h with h | h
  · exact .inl h
  · rcases elapse_cases (run limits entries) with hearly | ⟨pending, hpending, hdue⟩
    · exact .inl (h.trans (elapse_of_early hearly))
    · right
      rw [h, elapse_of_due hpending hdue,
        elapse_of_due hpending (hdue.trans htime)]

/-- Where nothing is due, everything that was due has gone out. -/
theorem Follows.eq_elapse (h : Follows limits now entries s)
    (hearly : s.Early limits now) : s = (run limits entries).elapse limits now := by
  rcases h with h | h
  · rw [← h, elapse_of_early hearly]
  · exact h

theorem Follows.batches_eq (h : Follows limits now entries s)
    (hearly : s.Early limits now) : s.batches = batches limits now entries :=
  congrArg State.batches (h.eq_elapse hearly)

theorem Follows.submit (h : Follows limits now entries s)
    (hearly : s.Early limits now) (item : Item) :
    Follows limits now (entries ++ [(now, item)]) (s.add limits now item) := by
  left
  rw [run_concat, State.submit, ← h.eq_elapse hearly]

/-- What is pending goes out at its deadline. -/
theorem Follows.flush (h : Follows limits now entries s)
    (hpending : s.pending = some pending)
    (hdue : pending.deadline limits = now) :
    Follows limits now entries ⟨none, s.batches ++ [(now, pending.items)]⟩ := by
  have hrun : s = run limits entries := by
    rcases h with h | h
    · exact h
    · rcases elapse_cases (run limits entries) with hearly | ⟨other, hother, hpast⟩
      · exact h.trans (elapse_of_early hearly)
      · rw [h, elapse_of_due hother hpast] at hpending
        cases hpending
  right
  rw [← hrun, elapse_of_due hpending hdue.le, hdue]

end Following

end MirrorMirage.Debounce
