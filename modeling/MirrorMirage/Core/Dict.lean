import Mathlib.Data.List.Forall2
import Mathlib.Data.List.Nodup

/-!
# Dictionaries in the order of insertion

A dictionary lists its items in the order in which their keys were first
written, one item for each key.  A loop that writes an item for each of its
elements and may fail at any of them ends with a dictionary if and only if it
fails at none, and then with what the elements give, the last one of a key
winning.
-/

namespace MirrorMirage

universe u

namespace Fallible

variable {Element Error : Type*} {Value After : Type u}

theorem bind_eq_ok_iff {first : Except Error Value}
    {next : Value → Except Error After} {after : After} :
    (first >>= next) = .ok after ↔
      ∃ value, first = .ok value ∧ next value = .ok after := by
  cases first <;> simp [bind, Except.bind]

theorem mapM_eq_ok_iff {f : Element → Except Error Value}
    {elements : List Element} {values : List Value} :
    elements.mapM f = .ok values ↔
      List.Forall₂ (fun element value => f element = .ok value) elements
        values := by
  induction elements generalizing values with
  | nil => simp [pure, Except.pure, eq_comm]
  | cons element elements ih =>
      simp only [List.mapM_cons, bind_eq_ok_iff, ih, pure, Except.pure,
        Except.ok.injEq, List.forall₂_cons_left_iff]
      constructor
      · rintro ⟨value, hvalue, rest, hrest, rfl⟩
        exact ⟨value, rest, hvalue, hrest, rfl⟩
      · rintro ⟨value, rest, hvalue, hrest, rfl⟩
        exact ⟨value, hvalue, rest, hrest, rfl⟩

theorem exists_mapM_eq_ok_iff {f : Element → Except Error Value}
    {elements : List Element} :
    (∃ values, elements.mapM f = .ok values) ↔
      ∀ element ∈ elements, ∃ value, f element = .ok value := by
  induction elements with
  | nil => simp [pure, Except.pure]
  | cons element elements ih =>
      simp only [List.mapM_cons, bind_eq_ok_iff, pure, Except.pure,
        Except.ok.injEq, List.forall_mem_cons, ← ih]
      constructor
      · rintro ⟨_, value, hvalue, rest, hrest, rfl⟩
        exact ⟨⟨value, hvalue⟩, rest, hrest⟩
      · rintro ⟨⟨value, hvalue⟩, rest, hrest⟩
        exact ⟨_, value, hvalue, rest, hrest, rfl⟩

theorem forM_eq_ok_iff {f : Element → Except Error Unit}
    {elements : List Element} :
    elements.forM f = .ok () ↔ ∀ element ∈ elements, f element = .ok () := by
  induction elements with
  | nil => simp [pure, Except.pure]
  | cons element elements ih =>
      rw [List.forM_eq_forM] at ih ⊢
      simp [bind_eq_ok_iff, Unique.exists_iff, ih]

end Fallible

structure Dict (Key Value : Type*) where
  items : List (Key × Value)
  nodup : (items.map Prod.fst).Nodup
  deriving DecidableEq

namespace Dict

variable {Element Error : Type*} {Key Value : Type u} {d : Dict Key Value}
variable {key other : Key} {value : Value} {pairs : List (Key × Value)}

def empty : Dict Key Value := ⟨[], List.nodup_nil⟩

def keys (d : Dict Key Value) : List Key := d.items.map Prod.fst

theorem nodup_keys (d : Dict Key Value) : d.keys.Nodup := d.nodup

@[simp]
theorem keys_empty : (empty : Dict Key Value).keys = [] := rfl

variable [DecidableEq Key]

def get? (d : Dict Key Value) (key : Key) : Option Value := d.items.lookup key

/-- The items after `d[key] = value`: a known key keeps its place. -/
def write (key : Key) (value : Value) : List (Key × Value) → List (Key × Value)
  | [] => [(key, value)]
  | item :: items =>
      if item.1 = key then (key, value) :: items
      else item :: write key value items

theorem map_fst_write (items : List (Key × Value)) :
    (write key value items).map Prod.fst =
      if key ∈ items.map Prod.fst then items.map Prod.fst
      else items.map Prod.fst ++ [key] := by
  induction items with
  | nil => rfl
  | cons item items ih =>
      by_cases hkey : item.1 = key
      · simp [write, hkey]
      · simp only [write, hkey, if_false, List.map_cons, ih, List.mem_cons,
          Ne.symm hkey, false_or]
        split <;> rfl

theorem lookup_write (items : List (Key × Value)) :
    (write key value items).lookup other =
      if other = key then some value else items.lookup other := by
  induction items with
  | nil => by_cases hother : other = key <;> simp [write, hother]
  | cons item items ih =>
      obtain ⟨first, old⟩ := item
      by_cases hkey : first = key
      · subst hkey
        by_cases hother : other = first
        · simp [write, hother]
        · have hskip : (other == first) = false := beq_false_of_ne hother
          simp [write, List.lookup_cons, hother, hskip]
      · by_cases hother : other = first
        · subst hother
          simp [write, hkey]
        · have hskip : (other == first) = false := beq_false_of_ne hother
          simp [write, List.lookup_cons, hkey, hskip, ih]

def set (d : Dict Key Value) (key : Key) (value : Value) : Dict Key Value where
  items := write key value d.items
  nodup := by
    rw [map_fst_write]
    split
    · exact d.nodup
    · exact List.nodup_append_comm.mp (List.nodup_cons.mpr ⟨‹_›, d.nodup⟩)

theorem keys_set : (d.set key value).keys =
    if key ∈ d.keys then d.keys else d.keys ++ [key] :=
  map_fst_write d.items

@[simp]
theorem get?_set : (d.set key value).get? other =
    if other = key then some value else d.get? other :=
  lookup_write d.items

theorem mem_keys_iff : key ∈ d.keys ↔ ∃ value, d.get? key = some value := by
  have hsome := List.lookup_isSome_iff (l := d.items) (k := key)
  rw [← Option.isSome_iff_exists]
  simp only [keys, get?, hsome, List.mem_map, beq_iff_eq]
  exact ⟨fun ⟨item, hitem, hkey⟩ => ⟨item, hitem, hkey.symm⟩,
    fun ⟨item, hitem, hkey⟩ => ⟨item, hitem, hkey.symm⟩⟩

/-- `dict.update`, and the loop `d[key] = value` over given pairs. -/
def update (d : Dict Key Value) (pairs : List (Key × Value)) :
    Dict Key Value :=
  pairs.foldl (fun d pair => d.set pair.1 pair.2) d

@[simp]
theorem update_nil : d.update [] = d := rfl

@[simp]
theorem update_cons (pair : Key × Value) :
    d.update (pair :: pairs) = (d.set pair.1 pair.2).update pairs := rfl

theorem mem_keys_update : key ∈ (d.update pairs).keys ↔
    key ∈ d.keys ∨ key ∈ pairs.map Prod.fst := by
  induction pairs generalizing d with
  | nil => simp
  | cons pair pairs ih =>
      rw [update_cons, ih, keys_set, List.map_cons, List.mem_cons]
      split
      · rename_i hknown
        constructor
        · tauto
        · rintro (hkey | rfl | hkey)
          · exact .inl hkey
          · exact .inl hknown
          · exact .inr hkey
      · simp [or_assoc]

theorem get?_update_of_notMem (hkey : key ∉ pairs.map Prod.fst) :
    (d.update pairs).get? key = d.get? key := by
  induction pairs generalizing d with
  | nil => rfl
  | cons pair pairs ih =>
      simp only [List.map_cons, List.mem_cons, not_or] at hkey
      rw [update_cons, ih hkey.2, get?_set, if_neg hkey.1]

/-- Of pairs with one key each, all are found. -/
theorem get?_update_of_mem (hnodup : (pairs.map Prod.fst).Nodup)
    (hpair : (key, value) ∈ pairs) :
    (d.update pairs).get? key = some value := by
  induction pairs generalizing d with
  | nil => cases hpair
  | cons pair pairs ih =>
      obtain ⟨hfresh, hrest⟩ := List.nodup_cons.mp hnodup
      rw [update_cons]
      rcases List.mem_cons.mp hpair with rfl | hpair
      · rw [get?_update_of_notMem hfresh, get?_set, if_pos rfl]
      · exact ih hrest hpair

/-- New keys go to the end, in their order. -/
theorem keys_update (hnodup : (d.keys ++ pairs.map Prod.fst).Nodup) :
    (d.update pairs).keys = d.keys ++ pairs.map Prod.fst := by
  induction pairs generalizing d with
  | nil => simp
  | cons pair pairs ih =>
      have hfresh : pair.1 ∉ d.keys := by
        intro hknown
        exact (List.nodup_append.mp hnodup).2.2 _ hknown _ (by simp) rfl
      have hkeys : (d.set pair.1 pair.2).keys = d.keys ++ [pair.1] := by
        rw [keys_set, if_neg hfresh]
      rw [update_cons, ih (by simpa [hkeys] using hnodup), hkeys]
      simp

/-! ## Items from the elements of a list -/

section Elements

variable {elements : List Element} {element : Element}
variable (place : Element → Key) (Good : Element → Value → Prop)

omit [DecidableEq Key] in
theorem map_fst_of_forall₂ (h : List.Forall₂ (fun element pair =>
      pair.1 = place element ∧ Good element pair.2) elements pairs) :
    pairs.map Prod.fst = elements.map place := by
  induction h with
  | nil => rfl
  | cons hpair _ ih => rw [List.map_cons, List.map_cons, hpair.1, ih]

omit [DecidableEq Key] in
theorem exists_mem_of_forall₂ (h : List.Forall₂ (fun element pair =>
      pair.1 = place element ∧ Good element pair.2) elements pairs)
    (helement : element ∈ elements) :
    ∃ value, (place element, value) ∈ pairs ∧ Good element value := by
  induction h with
  | nil => cases helement
  | cons hpair _ ih =>
      rcases List.mem_cons.mp helement with rfl | helement
      · exact ⟨_, List.mem_cons.mpr (.inl (by rw [← hpair.1])), hpair.2⟩
      · obtain ⟨value, hvalue, hgood⟩ := ih helement
        exact ⟨value, List.mem_cons_of_mem _ hvalue, hgood⟩

/-- Elements with different keys all find their items in the dictionary. -/
theorem exists_get?_update (h : List.Forall₂ (fun element pair =>
      pair.1 = place element ∧ Good element pair.2) elements pairs)
    (hnodup : (elements.map place).Nodup) (helement : element ∈ elements) :
    ∃ value, (d.update pairs).get? (place element) = some value ∧
      Good element value := by
  obtain ⟨value, hvalue, hgood⟩ :=
    exists_mem_of_forall₂ place Good h helement
  rw [← map_fst_of_forall₂ place Good h] at hnodup
  exact ⟨value, get?_update_of_mem hnodup hvalue, hgood⟩

/-- The loop `for element in elements: d[key] = value`, where `f` computes the
key and the value. -/
def collect (d : Dict Key Value) (f : Element → Except Error (Key × Value))
    (elements : List Element) : Except Error (Dict Key Value) :=
  elements.foldlM (fun d element => do
    let pair ← f element
    return d.set pair.1 pair.2) d

/-- Nothing is seen of what a failed loop has written. -/
theorem collect_eq_ok_iff {f : Element → Except Error (Key × Value)}
    {after : Dict Key Value} :
    d.collect f elements = .ok after ↔
      ∃ pairs, elements.mapM f = .ok pairs ∧ d.update pairs = after := by
  induction elements generalizing d with
  | nil => simp [collect, pure, Except.pure]
  | cons element elements ih =>
      have hcons : d.collect f (element :: elements) = (f element >>=
          fun pair => (d.set pair.1 pair.2).collect f elements) := by
        simp [collect, List.foldlM_cons]
      simp only [hcons, List.mapM_cons, Fallible.bind_eq_ok_iff, ih, pure,
        Except.pure, Except.ok.injEq]
      constructor
      · rintro ⟨pair, hpair, pairs, hpairs, rfl⟩
        exact ⟨pair :: pairs, ⟨pair, hpair, pairs, hpairs, rfl⟩, rfl⟩
      · rintro ⟨_, ⟨pair, hpair, pairs, hpairs, rfl⟩, rfl⟩
        exact ⟨pair, hpair, pairs, hpairs, rfl⟩

theorem exists_collect_iff {f : Element → Except Error (Key × Value)} :
    (∃ after, d.collect f elements = .ok after) ↔
      ∀ element ∈ elements, ∃ pair, f element = .ok pair := by
  rw [← Fallible.exists_mapM_eq_ok_iff]
  simp only [collect_eq_ok_iff]
  constructor
  · rintro ⟨_, pairs, hpairs, -⟩
    exact ⟨pairs, hpairs⟩
  · rintro ⟨pairs, hpairs⟩
    exact ⟨_, pairs, hpairs, rfl⟩

end Elements

end Dict

end MirrorMirage
