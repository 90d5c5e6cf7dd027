import Mathlib.Computability.Language
import Mathlib.Data.List.Forall2

/-!
# Aligning a pattern with a sequence

A pattern is a sequence of segments.  A wild segment covers any run of
symbols, any other one symbol that fits it.  A pattern is aligned with a
sequence by cutting all of it into what the segments cover, in order.  Such
sequences make up the product of the languages of the segments, from whose
algebra the laws of wild segments come.
-/

namespace MirrorMirage.Alignment

variable {Segment Symbol : Type*}
variable (wild : Segment → Prop) (fits : Symbol → Segment → Prop)

/-- The segment may cover the block. -/
def Covers (segment : Segment) (block : List Symbol) : Prop :=
  ¬ wild segment → ∃ symbol, block = [symbol] ∧ fits symbol segment

/-- The sequence can be cut into blocks that the segments cover. -/
def Aligned (pattern : List Segment) (symbols : List Symbol) : Prop :=
  ∃ blocks : List (List Symbol), blocks.flatten = symbols ∧
    List.Forall₂ (Covers wild fits) pattern blocks

/-- The blocks that a segment may cover. -/
def blocksOf (segment : Segment) : Language Symbol :=
  {block | Covers wild fits segment block}

variable {wild fits} {segment other : Segment}
variable {pattern before after : List Segment} {symbols : List Symbol}

theorem blocksOf_of_wild (hwild : wild segment) :
    blocksOf wild fits segment = (⊤ : Language Symbol) := by
  ext block
  exact iff_of_true (absurd hwild) trivial

theorem aligned_iff_mem_prod : Aligned wild fits pattern symbols ↔
    symbols ∈ (pattern.map (blocksOf wild fits)).prod := by
  induction pattern generalizing symbols with
  | nil =>
      rw [List.map_nil, List.prod_nil, Language.mem_one]
      constructor
      · rintro ⟨blocks, rfl, hcovers⟩
        rw [List.forall₂_nil_left_iff.mp hcovers, List.flatten_nil]
      · rintro rfl
        exact ⟨[], rfl, .nil⟩
  | cons segment pattern ih =>
      rw [List.map_cons, List.prod_cons, Language.mem_mul]
      constructor
      · rintro ⟨blocks, rfl, hcovers⟩
        obtain ⟨block, rest, hblock, hrest, rfl⟩ :=
          List.forall₂_cons_left_iff.mp hcovers
        exact ⟨block, hblock, rest.flatten, ih.mp ⟨rest, rfl, hrest⟩, rfl⟩
      · rintro ⟨block, hblock, tail, htail, rfl⟩
        obtain ⟨rest, rfl, hrest⟩ := ih.mpr htail
        exact ⟨block :: rest, rfl, .cons hblock hrest⟩

theorem aligned_nil : Aligned wild fits [] symbols ↔ symbols = [] :=
  aligned_iff_mem_prod.trans (Language.mem_one symbols)

/-- A wild segment may cover any beginning. -/
theorem aligned_cons_of_wild (hwild : wild segment) :
    Aligned wild fits (segment :: pattern) symbols ↔
      ∃ rest, rest <:+ symbols ∧ Aligned wild fits pattern rest := by
  simp only [aligned_iff_mem_prod, List.map_cons, List.prod_cons,
    Language.mem_mul, blocksOf_of_wild hwild]
  constructor
  · rintro ⟨block, -, rest, hrest, rfl⟩
    exact ⟨rest, List.suffix_append block rest, hrest⟩
  · rintro ⟨rest, ⟨block, rfl⟩, hrest⟩
    exact ⟨block, trivial, rest, hrest, rfl⟩

/-- Any other segment covers the first symbol. -/
theorem aligned_cons_of_not_wild (hwild : ¬ wild segment) :
    Aligned wild fits (segment :: pattern) symbols ↔
      ∃ symbol rest, symbols = symbol :: rest ∧ fits symbol segment ∧
        Aligned wild fits pattern rest := by
  simp only [aligned_iff_mem_prod, List.map_cons, List.prod_cons,
    Language.mem_mul]
  constructor
  · rintro ⟨block, hblock, rest, hrest, rfl⟩
    obtain ⟨symbol, rfl, hfits⟩ := hblock hwild
    exact ⟨symbol, rest, rfl, hfits, hrest⟩
  · rintro ⟨symbol, rest, rfl, hfits, hrest⟩
    exact ⟨[symbol], fun _ => ⟨symbol, rfl, hfits⟩, rest, hrest, rfl⟩

/-- Two wild segments in a row cover what one of them does. -/
theorem aligned_wild_wild (hsegment : wild segment) (hother : wild other) :
    Aligned wild fits (before ++ segment :: other :: after) symbols ↔
      Aligned wild fits (before ++ segment :: after) symbols := by
  have htop : (⊤ : Language Symbol) * ⊤ = ⊤ := by
    ext block
    exact iff_of_true ⟨[], trivial, block, trivial, rfl⟩ trivial
  simp only [aligned_iff_mem_prod, List.map_append, List.map_cons,
    List.prod_append, List.prod_cons, blocksOf_of_wild hsegment,
    blocksOf_of_wild hother]
  rw [← mul_assoc ⊤ ⊤, htop]

/-- A wild segment may cover nothing. -/
theorem Aligned.insert_wild (hwild : wild segment)
    (h : Aligned wild fits (before ++ after) symbols) :
    Aligned wild fits (before ++ segment :: after) symbols := by
  rw [aligned_iff_mem_prod] at h ⊢
  simp only [List.map_append, List.map_cons, List.prod_append, List.prod_cons,
    blocksOf_of_wild hwild, Language.mem_mul] at h ⊢
  obtain ⟨front, hfront, back, hback, rfl⟩ := h
  exact ⟨front, hfront, back, ⟨[], trivial, back, hback, rfl⟩, rfl⟩

/-- A wild segment at the end covers whatever follows. -/
theorem Aligned.extend (hwild : wild segment)
    (h : Aligned wild fits (before ++ [segment]) symbols)
    (later : List Symbol) :
    Aligned wild fits (before ++ [segment]) (symbols ++ later) := by
  rw [aligned_iff_mem_prod] at h ⊢
  simp only [List.map_append, List.map_cons, List.map_nil, List.prod_append,
    List.prod_singleton, blocksOf_of_wild hwild, Language.mem_mul] at h ⊢
  obtain ⟨front, hfront, back, -, rfl⟩ := h
  exact ⟨front, hfront, back ++ later, trivial, by simp⟩

end MirrorMirage.Alignment
