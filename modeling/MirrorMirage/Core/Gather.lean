import Mathlib.Data.List.ReduceOption

/-!
# Gathering concurrent results

A gather of several tasks waits for all of them, in whatever order they end,
and returns their results in the order of the tasks; the first task that fails
ends it.  `order` lists the tasks as they end.  Neither the results nor
whether there are any depends on it (`gather_ok`).
-/

namespace MirrorMirage.Gather

variable {Error Result : Type*}

/-- `none` says that some task has not ended. -/
def fill (outcomes : List (Except Error Result)) :
    List (Option Result) → List ℕ → Option (Except Error (List Result))
  | slots, [] =>
      if slots.all Option.isSome then some (.ok slots.reduceOption) else none
  | slots, place :: rest =>
      match outcomes[place]? with
      | none => fill outcomes slots rest
      | some (.error error) => some (.error error)
      | some (.ok result) => fill outcomes (slots.set place (some result)) rest

def gather (outcomes : List (Except Error Result)) (order : List ℕ) :
    Option (Except Error (List Result)) :=
  fill outcomes (outcomes.map fun _ => none) order

/-- Every slot that is filled holds the result of its task. -/
def Matches (outcomes : List (Except Error Result))
    (slots : List (Option Result)) : Prop :=
  slots.length = outcomes.length ∧
    ∀ (place : ℕ) (result : Result), slots[place]? = some (some result) →
      outcomes[place]? = some (Except.ok result)

variable {outcomes : List (Except Error Result)}
variable {slots : List (Option Result)} {order : List ℕ}

theorem matches_start : Matches outcomes (outcomes.map fun _ => none) := by
  refine ⟨by simp, fun place result hslot => ?_⟩
  rw [List.getElem?_map] at hslot
  obtain ⟨_, -, heq⟩ := Option.map_eq_some_iff.mp hslot
  cases heq

theorem Matches.set (h : Matches outcomes slots) {place : ℕ} {result : Result}
    (hresult : outcomes[place]? = some (Except.ok result)) :
    Matches outcomes (slots.set place (some result)) := by
  refine ⟨by simp [h.1], fun other found hslot => ?_⟩
  by_cases hsame : place = other
  · subst hsame
    rw [List.getElem?_set_self'] at hslot
    obtain ⟨_, -, heq⟩ := Option.map_eq_some_iff.mp hslot
    cases heq
    exact hresult
  · rw [List.getElem?_set_ne hsame] at hslot
    exact h.2 other found hslot

theorem Matches.complete (h : Matches outcomes slots)
    (hall : slots.all Option.isSome) :
    outcomes = slots.reduceOption.map .ok := by
  have hslots : slots = slots.reduceOption.map some := by
    clear h
    induction slots with
    | nil => rfl
    | cons slot slots ih =>
        obtain ⟨hslot, hrest⟩ : slot.isSome ∧ slots.all Option.isSome := by
          simpa using hall
        obtain ⟨result, rfl⟩ := Option.isSome_iff_exists.mp hslot
        rw [List.reduceOption_cons_of_some, List.map_cons, ← ih hrest]
  refine List.ext_getElem? fun place => ?_
  by_cases hplace : place < slots.length
  · have hlength : place < slots.reduceOption.length := by
      rwa [hslots, List.length_map] at hplace
    have hfilled : slots[place]? =
        some (some slots.reduceOption[place]) := by
      conv_lhs => rw [hslots]
      simp
    rw [h.2 place _ hfilled, List.getElem?_map,
      List.getElem?_eq_getElem hlength, Option.map_some]
  · have hlength : slots.length = slots.reduceOption.length := by
      conv_lhs => rw [hslots]
      simp
    have hmatch := h.1
    rw [List.getElem?_eq_none (by omega), List.getElem?_eq_none (by
      rw [List.length_map]
      omega)]

/-- A gather that returns has the results of all tasks, in their order. -/
theorem gather_ok {results : List Result}
    (hgather : gather outcomes order = some (.ok results)) :
    outcomes = results.map .ok := by
  have hfill : ∀ slots, Matches outcomes slots →
      fill outcomes slots order = some (.ok results) →
        outcomes = results.map .ok := by
    clear hgather
    induction order with
    | nil =>
        intro slots hmatches hfill
        simp only [fill] at hfill
        split at hfill
        · cases hfill
          exact hmatches.complete ‹_›
        · cases hfill
    | cons place rest ih =>
        intro slots hmatches hfill
        simp only [fill] at hfill
        split at hfill
        · exact ih slots hmatches hfill
        · cases hfill
        · exact ih _ (hmatches.set ‹_›) hfill
  exact hfill _ matches_start hgather

/-- A gather that fails has a task that did. -/
theorem gather_error {error : Error}
    (hgather : gather outcomes order = some (.error error)) :
    .error error ∈ outcomes := by
  have hfill : ∀ slots, fill outcomes slots order = some (.error error) →
      .error error ∈ outcomes := by
    clear hgather
    induction order with
    | nil =>
        intro slots hfill
        simp only [fill] at hfill
        split at hfill <;> cases hfill
    | cons place rest ih =>
        intro slots hfill
        simp only [fill] at hfill
        split at hfill
        · exact ih slots hfill
        · rename_i found
          cases hfill
          exact List.mem_of_getElem? found
        · exact ih _ hfill
  exact hfill _ hgather

/-- Once every task has ended, the gather has. -/
theorem gather_isSome (hall : ∀ place < outcomes.length, place ∈ order) :
    (gather outcomes order).isSome := by
  have hfill : ∀ slots, slots.length = outcomes.length →
      (∀ place < outcomes.length, slots[place]? = some none → place ∈ order) →
        (fill outcomes slots order).isSome := by
    clear hall
    induction order with
    | nil =>
        intro slots hlength hopen
        have hfilled : slots.all Option.isSome := by
          rw [List.all_eq_true]
          intro slot hslot
          obtain ⟨place, hplace, rfl⟩ := List.getElem_of_mem hslot
          by_contra hnone
          have hopen' := hopen place (by omega) (by
            rw [List.getElem?_eq_getElem hplace]
            simpa using hnone)
          cases hopen'
        simp [fill, hfilled]
    | cons place rest ih =>
        intro slots hlength hopen
        simp only [fill]
        split
        · rename_i hnone
          refine ih slots hlength fun other hother hslot => ?_
          rcases List.mem_cons.mp (hopen other hother hslot) with rfl | hmem
          · simp [List.getElem?_eq_getElem hother] at hnone
          · exact hmem
        · rfl
        · refine ih _ (by simp [hlength]) fun other hother hslot => ?_
          by_cases hsame : place = other
          · subst hsame
            rw [List.getElem?_set_self'] at hslot
            obtain ⟨_, -, heq⟩ := Option.map_eq_some_iff.mp hslot
            cases heq
          · rw [List.getElem?_set_ne hsame] at hslot
            rcases List.mem_cons.mp (hopen other hother hslot) with rfl | hmem
            · exact absurd rfl hsame
            · exact hmem
  exact hfill _ (by simp) fun place hplace _ => hall place hplace

/-! ## One request for each input -/

section FanOut

variable {Input Request Reply : Type*}
variable (request : Input → Option Request) (read : Reply → Result)
variable (invalid : Input → Error)

/-- A task that builds a request, sends it and reads the reply; an input that
has no request raises `invalid`. -/
def perform (reply : Reply) (input : Input) : Except Error Result :=
  match request input with
  | none => .error (invalid input)
  | some _ => .ok (read reply)

/-- The requests of the tasks for `inputs`, with their replies. -/
def requests : (ℕ → Reply) → List Input → List (Request × Reply)
  | _, [] => []
  | reply, input :: rest =>
      let later := requests (fun place => reply (place + 1)) rest
      match request input with
      | none => later
      | some sent => (sent, reply 0) :: later

variable {request read invalid}

/-- When no task raises, the results are the readings of the replies, and
every input has its request. -/
theorem requests_of_results {inputs : List Input} {reply : ℕ → Reply}
    {results : List Result}
    (hall : (inputs.mapIdx fun place input =>
      perform request read invalid (reply place) input) = results.map .ok) :
    results = (requests request reply inputs).map (fun sent => read sent.2) ∧
      ∀ input ∈ inputs, ∃ sent ∈ requests request reply inputs,
        request input = some sent.1 := by
  induction inputs generalizing results reply with
  | nil =>
      obtain rfl : results = [] := by simpa using hall.symm
      simp [requests]
  | cons input rest ih =>
      rw [List.mapIdx_cons] at hall
      cases results with
      | nil => simp at hall
      | cons first results =>
          rw [List.map_cons, List.cons.injEq] at hall
          obtain ⟨hfirst, hrest⟩ := hall
          obtain ⟨hresults, hsent⟩ := ih hrest
          unfold perform at hfirst
          split at hfirst
          · cases hfirst
          · rename_i sent hrequest
            cases hfirst
            simp only [requests, hrequest, List.map_cons, ← hresults, true_and]
            intro other hother
            rcases List.mem_cons.mp hother with rfl | hother
            · exact ⟨_, .head _, hrequest⟩
            · obtain ⟨later, hlater, heq⟩ := hsent other hother
              exact ⟨later, .tail _ hlater, heq⟩

/-- Inputs that all have a request make no task raise. -/
theorem ok_of_requests {inputs : List Input} {reply : ℕ → Reply}
    {order : List ℕ} {gathered : Except Error (List Result)}
    (hall : ∀ input ∈ inputs, request input ≠ none)
    (hgather : gather (inputs.mapIdx fun place input =>
      perform request read invalid (reply place) input) order =
        some gathered) : ∃ results, gathered = .ok results := by
  cases gathered with
  | ok results => exact ⟨results, rfl⟩
  | error error =>
      obtain ⟨place, hplace, hraised⟩ :=
        List.mem_mapIdx.mp (gather_error hgather)
      have hinput := hall _ (List.getElem_mem hplace)
      unfold perform at hraised
      split at hraised
      · exact absurd ‹_› hinput
      · cases hraised

theorem requests_map {Cause : Type*} (reading : Cause → Reply)
    (cause : ℕ → Cause) (inputs : List Input) :
    requests request (fun place => reading (cause place)) inputs =
      (requests request cause inputs).map fun sent =>
        (sent.1, reading sent.2) := by
  induction inputs generalizing cause with
  | nil => rfl
  | cons input rest ih =>
      simp only [requests]
      split <;> simp [ih fun place => cause (place + 1)]

end FanOut

end MirrorMirage.Gather
