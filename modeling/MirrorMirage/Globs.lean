import MirrorMirage.Core.Alignment
import MirrorMirage.Filter

/-!
# The language of the glob matcher

`_gm` collapses runs of `**`, returns early at a last `**` and backtracks over
the remaining ones.  All of it decides whether a pattern can be aligned with
the whole path.
-/

namespace MirrorMirage.Filter

open MirrorMirage.Alignment

def IsWild (segment : String) : Prop := segment = "**"

theorem isWild_stars : IsWild "**" := rfl

/-- The segments of a pattern can be aligned with the components: `**` covers
a run of them, any other segment one that it matches. -/
def Fits (fnmatchcase : String → String → Bool) (segments : List String)
    (components : List String) : Prop :=
  Aligned IsWild
    (fun component segment => fnmatchcase component segment = true)
    segments components

section Language

variable {fnmatchcase : String → String → Bool} {segment : String}
variable {segments components : List String}

theorem fits_nil : Fits fnmatchcase [] components ↔ components = [] :=
  aligned_nil

theorem fits_wild : Fits fnmatchcase ("**" :: segments) components ↔
    ∃ rest, rest <:+ components ∧ Fits fnmatchcase segments rest :=
  aligned_cons_of_wild isWild_stars

theorem fits_cons (hsegment : ¬ segment = "**") :
    Fits fnmatchcase (segment :: segments) components ↔
      ∃ component rest, components = component :: rest ∧
        fnmatchcase component segment = true ∧
          Fits fnmatchcase segments rest :=
  aligned_cons_of_not_wild hsegment

theorem fits_wild_wild {before after : List String} :
    Fits fnmatchcase (before ++ "**" :: "**" :: after) components ↔
      Fits fnmatchcase (before ++ "**" :: after) components :=
  aligned_wild_wild isWild_stars isWild_stars

theorem Fits.insert_wild {before after : List String}
    (h : Fits fnmatchcase (before ++ after) components) :
    Fits fnmatchcase (before ++ "**" :: after) components :=
  Aligned.insert_wild isWild_stars h

theorem Fits.extend (h : Fits fnmatchcase (segments ++ ["**"]) components)
    (below : List String) :
    Fits fnmatchcase (segments ++ ["**"]) (components ++ below) :=
  Aligned.extend isWild_stars h below

theorem gm_iff_fits : gm fnmatchcase segments components ↔
    Fits fnmatchcase segments components := by
  induction segments generalizing components with
  | nil => simp [gm, fits_nil]
  | cons segment later ih =>
      by_cases hsegment : segment = "**"
      · subst hsegment
        cases later with
        | nil =>
            -- the early return at a last `**`
            exact iff_of_true rfl
              (fits_wild.mpr ⟨[], List.nil_suffix, fits_nil.mpr rfl⟩)
        | cons next pp =>
            by_cases hnext : next = "**"
            · -- a run of `**` loses one
              subst hnext
              have hrun : Fits fnmatchcase ("**" :: "**" :: pp) components ↔
                  Fits fnmatchcase ("**" :: pp) components :=
                @fits_wild_wild _ _ [] pp
              rw [hrun, ← ih]
              simp [gm]
            · rw [fits_wild]
              simp [gm, hnext, ih]
      · rw [fits_cons hsegment]
        cases components with
        | nil => cases later <;> simp [gm, hsegment]
        | cons component rest =>
            cases later with
            | nil => simp [gm, hsegment, fits_nil, and_comm]
            | cons next pp => simp [gm, hsegment, ih]

theorem matchesAnyGlob_iff {patterns : List String} :
    matchesAnyGlob fnmatchcase components patterns ↔
      ∃ pattern ∈ patterns,
        Fits fnmatchcase (splitSlash pattern) components := by
  simp [matchesAnyGlob, gm_iff_fits]

/-- `(stem + "/**").split("/")` ends in a segment `**`. -/
theorem splitSlash_append (stem : String) :
    splitSlash (stem ++ "/**") = splitSlash stem ++ ["**"] := by
  have hsplit : (stem.toList ++ '/' :: ['*', '*']).splitOn '/' =
      stem.toList.splitOn '/' ++ ['*', '*'].splitOn '/' :=
    List.splitOn_append_cons_self _ _
  simp only [splitSlash, String.toList_append]
  exact (congrArg (List.map String.ofList) hsplit).trans List.map_append

end Language

/-- For all path components and patterns: the matcher says yes if and only if
some pattern can be aligned with the whole path.  A run of `**` is as good as
one, a `**` may cover nothing, and a pattern that ends in `/**` matches every
extension of a path that it matches. -/
theorem globs_decide_their_language (fnmatchcase : String → String → Bool)
    (relParts : List String) :
    (∀ patterns, matchesAnyGlob fnmatchcase relParts patterns ↔
      ∃ pattern ∈ patterns, Fits fnmatchcase (splitSlash pattern) relParts) ∧
    (∀ before after, gm fnmatchcase (before ++ "**" :: "**" :: after) relParts =
      gm fnmatchcase (before ++ "**" :: after) relParts) ∧
    (∀ before after, gm fnmatchcase (before ++ after) relParts →
      gm fnmatchcase (before ++ "**" :: after) relParts) ∧
    ∀ stem, matchesAnyGlob fnmatchcase relParts [stem ++ "/**"] →
      ∀ below, matchesAnyGlob fnmatchcase (relParts ++ below)
        [stem ++ "/**"] := by
  refine ⟨fun _ => matchesAnyGlob_iff, fun before after => ?_,
    fun before after h => ?_, fun stem h below => ?_⟩
  · rw [Bool.eq_iff_iff, gm_iff_fits, gm_iff_fits, fits_wild_wild]
  · rw [gm_iff_fits] at h ⊢
    exact h.insert_wild
  · simp only [matchesAnyGlob_iff, List.mem_singleton, exists_eq_left,
      splitSlash_append] at h ⊢
    exact h.extend below

theorem globs_decide_their_language_sample :
    matchesAnyGlob (fun component segment => decide (component = segment))
      (["a", ".~tmp~", "b"] ++ ["c", "d"]) ["**/.~tmp~" ++ "/**"] :=
  (globs_decide_their_language _ _).2.2.2 "**/.~tmp~" (by decide +kernel)
    ["c", "d"]

end MirrorMirage.Filter
