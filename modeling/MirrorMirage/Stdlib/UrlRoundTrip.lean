import MirrorMirage.Core.Gluing
import MirrorMirage.Stdlib.UrlParse

/-!
# What `urlunparse` gives back

`urlparse` removes some characters and cuts what follows the netloc at the first
`#`, `?` and, in the last segment, `;`; `urlunparse` puts a mark back only if
something follows it.  The text comes back as it was exactly if it `IsStable`:
it has no character that is removed and no mark that introduces nothing.
-/

namespace MirrorMirage.UrlParse

open MirrorMirage.Gluing

/-! ## One mark -/

/-- Cut at the first mark, treat what stands before it, and put the mark back
unless nothing follows it. -/
def rejoin (mark : Char) (inner : List Char → List Char) (text : List Char) :
    List Char :=
  inner (splitAt mark text).1 ++ marked mark (splitAt mark text).2

/-- A mark in the text introduces something, and what stands before it is
`good`. -/
def Keeps (mark : Char) (good : List Char → Prop) (text : List Char) : Prop :=
  (mark ∈ text → (splitAt mark text).2 ≠ []) ∧ good (splitAt mark text).1

instance {mark : Char} {good : List Char → Prop} [DecidablePred good] :
    DecidablePred (Keeps mark good) := fun text =>
  inferInstanceAs (Decidable
    ((mark ∈ text → (splitAt mark text).2 ≠ []) ∧ good (splitAt mark text).1))

section Mark

variable {mark : Char} {inner : List Char → List Char}
variable {good : List Char → Prop} {text before after : List Char}

theorem splitAt_append_mark (hbefore : mark ∉ before) :
    splitAt mark (before ++ mark :: after) = (before, after) := by
  rw [splitAt_append hbefore]
  simp [splitAt]

theorem splitAt_marked (hbefore : mark ∉ before) :
    splitAt mark (before ++ marked mark after) = (before, after) := by
  unfold marked
  split
  · rename_i hafter
    rw [List.append_nil, splitAt_of_not_mem hbefore, hafter]
  · exact splitAt_append_mark hbefore

theorem rejoin_sublist (hinner : ∀ text, (inner text).Sublist text) :
    (rejoin mark inner text).Sublist text := by
  by_cases hmem : mark ∈ text
  · obtain ⟨before, after, rfl, hbefore⟩ := List.eq_append_cons_of_mem hmem
    rw [rejoin, splitAt_append_mark hbefore]
    refine (hinner before).append ?_
    unfold marked
    split
    · exact List.nil_sublist _
    · exact List.Sublist.refl _
  · rw [rejoin, splitAt_of_not_mem hmem]
    simpa [marked] using hinner text

theorem rejoin_eq_self_iff (hinner : ∀ text, (inner text).Sublist text) :
    rejoin mark inner text = text ↔
      Keeps mark (fun text => inner text = text) text := by
  by_cases hmem : mark ∈ text
  · obtain ⟨before, after, rfl, hbefore⟩ := List.eq_append_cons_of_mem hmem
    simp only [rejoin, Keeps, splitAt_append_mark hbefore, hmem, true_imp_iff]
    by_cases hafter : after = []
    · refine iff_of_false (fun heq => ?_) (fun h => h.1 hafter)
      have hlength := congrArg List.length heq
      have hle := (hinner before).length_le
      simp only [hafter, marked, if_true, List.length_append, List.length_nil,
        List.length_singleton] at hlength
      omega
    · simp [marked, hafter]
  · simp [rejoin, Keeps, splitAt_of_not_mem hmem, hmem, marked]

/-- What is put together again is as it should be. -/
theorem keeps_rejoin (hinner : ∀ text, (inner text).Sublist text)
    (hgood : ∀ text, good (inner text)) : Keeps mark good (rejoin mark inner text) := by
  have hsplit : splitAt mark (rejoin mark inner text) =
      (inner (splitAt mark text).1, (splitAt mark text).2) := by
    refine splitAt_marked fun hmem => ?_
    have hcut := List.mem_takeWhile_imp ((hinner _).subset hmem)
    simp at hcut
  refine ⟨fun hmem hnone => ?_, by rw [hsplit]; exact hgood _⟩
  have hwhole := splitAt_fst_eq_self_iff.not.mpr (not_not.mpr hmem)
  rw [hsplit] at hwhole hnone
  replace hnone : (splitAt mark text).2 = [] := hnone
  exact hwhole (by simp [rejoin, hnone, marked])

theorem rooted_splitAt (hmark : mark ≠ '/') (h : Rooted '/' text) :
    Rooted '/' (splitAt mark text).1 := by
  obtain ⟨rest, rfl⟩ := h
  exact ⟨rest.takeWhile (· ≠ mark), by simp [splitAt, hmark.symm]⟩

/-- The part that a mark introduces is not empty when an end follows. -/
theorem glues_keeps (hmark : mark ≠ '/') (hglues : Glues '/' good) :
    Glues '/' (Keeps mark good) := by
  intro front tail other htail hother hwell hgood
  by_cases hmem : mark ∈ front
  · obtain ⟨before, after, rfl, hbefore⟩ := List.eq_append_cons_of_mem hmem
    rw [List.append_assoc, List.cons_append] at hwell ⊢
    rw [Keeps, splitAt_append_mark hbefore] at hwell ⊢
    exact ⟨fun _ => List.append_ne_nil_of_right_ne_nil _
      (List.ne_nil_of_mem hother.mem), hwell.2⟩
  · rw [Keeps, splitAt_append hmem] at hwell ⊢
    refine ⟨fun hin => hgood.1 ?_, hglues front _ _ (rooted_splitAt hmark htail)
      (rooted_splitAt hmark hother) hwell.2 hgood.2⟩
    exact (List.mem_append.mp hin).resolve_left hmem

end Mark

/-! ## The params of a path -/

/-- A path after its params are cut off and put back. -/
def rejoinParams (path : List Char) : List Char :=
  (splitParams path).1 ++ marked ';' (splitParams path).2

def KeepsParams (path : List Char) : Prop :=
  Keeps ';' (fun _ => True) (path.rtakeWhile (· ≠ '/'))

instance : DecidablePred KeepsParams := fun path =>
  inferInstanceAs (Decidable
    (Keeps ';' (fun _ => True) (path.rtakeWhile (· ≠ '/'))))

section Params

variable {path : List Char}

/-- Only the last segment is treated. -/
theorem rejoinParams_eq : rejoinParams path = path.rdropWhile (· ≠ '/') ++
    rejoin ';' id (path.rtakeWhile (· ≠ '/')) := by
  simp [rejoinParams, splitParams, rejoin]

theorem slash_not_mem_segment : '/' ∉ path.rtakeWhile (· ≠ '/') := by
  intro hmem
  simpa using List.mem_rtakeWhile_imp hmem

/-- Another last segment in the place of that of the path. -/
theorem segment_replaced {segment : List Char} (hsegment : '/' ∉ segment) :
    (path.rdropWhile (· ≠ '/') ++ segment).rtakeWhile (· ≠ '/') =
      segment := by
  have hpass : ∀ char ∈ segment.reverse, decide (char ≠ '/') = true := by
    intro char hchar
    simpa using fun heq : char = '/' =>
      hsegment (heq ▸ List.mem_reverse.mp hchar)
  have hstop : (path.rdropWhile (· ≠ '/')).rtakeWhile (· ≠ '/') = [] :=
    List.rtakeWhile_eq_nil_iff.mpr (List.rdropWhile_last_not _ _)
  rw [List.rtakeWhile, List.reverse_eq_nil_iff] at hstop
  rw [List.rtakeWhile, List.reverse_append,
    List.takeWhile_append_of_pos hpass, hstop]
  simp

theorem id_sublist (text : List Char) : (id text).Sublist text :=
  List.Sublist.refl text

theorem rejoinParams_sublist (path : List Char) :
    (rejoinParams path).Sublist path := by
  have hsplit : path.rdropWhile (· ≠ '/') ++ path.rtakeWhile (· ≠ '/') = path :=
    List.rdropWhile_append_rtakeWhile
  rw [rejoinParams_eq]
  conv_rhs => rw [← hsplit]
  exact (List.Sublist.refl _).append (rejoin_sublist id_sublist)

theorem rejoinParams_eq_self_iff : rejoinParams path = path ↔
    KeepsParams path := by
  have hsplit : path.rdropWhile (· ≠ '/') ++ path.rtakeWhile (· ≠ '/') = path :=
    List.rdropWhile_append_rtakeWhile
  have hself : rejoinParams path = path ↔
      rejoin ';' id (path.rtakeWhile (· ≠ '/')) =
        path.rtakeWhile (· ≠ '/') := by
    rw [rejoinParams_eq]
    conv_lhs => rhs; rw [← hsplit]
    rw [List.append_cancel_left_eq]
  rw [hself, rejoin_eq_self_iff id_sublist]
  simp [KeepsParams, Keeps]

theorem keepsParams_rejoinParams : KeepsParams (rejoinParams path) := by
  have hsegment : '/' ∉ rejoin ';' id (path.rtakeWhile (· ≠ '/')) :=
    fun hmem => slash_not_mem_segment ((rejoin_sublist id_sublist).subset hmem)
  rw [KeepsParams, rejoinParams_eq, segment_replaced hsegment]
  exact keeps_rejoin id_sublist fun _ => trivial

/-- The last segment is one of the end. -/
theorem glues_keepsParams : Glues '/' KeepsParams := by
  rintro front _ _ - ⟨rest, rfl⟩ - hgood
  have hsame : ∀ before : List Char, KeepsParams (before ++ '/' :: rest) ↔
      KeepsParams rest := by
    intro before
    rw [KeepsParams, (segment_append_slash before).1, KeepsParams]
  exact (hsame front).mpr ((hsame []).mp hgood)

end Params

/-! ## What follows the netloc -/

/-- What becomes of it between `urlparse` and `urlunparse`. -/
def rejoined (tail : List Char) : List Char :=
  rejoin '#' (rejoin '?' rejoinParams) (tail.filter (!isRemoved ·))

/-- No character is removed, and no mark introduces nothing. -/
def IsStable (tail : List Char) : Prop :=
  (∀ char ∈ tail, isRemoved char = false) ∧
    Keeps '#' (Keeps '?' KeepsParams) tail

instance : DecidablePred IsStable := fun tail =>
  have : Decidable (∀ char ∈ tail, isRemoved char = false) :=
    List.decidableBAll _ _
  inferInstanceAs (Decidable ((∀ char ∈ tail, isRemoved char = false) ∧
    Keeps '#' (Keeps '?' KeepsParams) tail))

section Tail

variable {tail : List Char}

theorem rejoined_eq_self_iff : rejoined tail = tail ↔ IsStable tail := by
  have hquery : ∀ text, (rejoin '?' rejoinParams text).Sublist text :=
    fun _ => rejoin_sublist rejoinParams_sublist
  have hkeeps : rejoin '#' (rejoin '?' rejoinParams) tail = tail ↔
      Keeps '#' (Keeps '?' KeepsParams) tail := by
    simp only [rejoin_eq_self_iff hquery, Keeps,
      rejoin_eq_self_iff rejoinParams_sublist, rejoinParams_eq_self_iff]
  constructor
  · intro heq
    have hclean : tail.filter (!isRemoved ·) = tail := by
      have hsublist : (rejoined tail).Sublist (tail.filter (!isRemoved ·)) :=
        rejoin_sublist hquery
      rw [heq] at hsublist
      exact List.filter_sublist.eq_of_length_le hsublist.length_le
    rw [rejoined, hclean] at heq
    exact ⟨fun char hchar => by
      simpa using List.filter_eq_self.mp hclean char hchar, hkeeps.mp heq⟩
  · rintro ⟨hclean, hwell⟩
    rw [rejoined, List.filter_eq_self.mpr fun char hchar => by
      simp [hclean char hchar]]
    exact hkeeps.mpr hwell

/-- A second round changes nothing. -/
theorem isStable_rejoined : IsStable (rejoined tail) := by
  have hquery : ∀ text, (rejoin '?' rejoinParams text).Sublist text :=
    fun _ => rejoin_sublist rejoinParams_sublist
  refine ⟨fun char hchar => ?_, keeps_rejoin hquery fun _ =>
    keeps_rejoin rejoinParams_sublist fun _ => keepsParams_rejoinParams⟩
  have hmem := (rejoin_sublist hquery).subset hchar
  simpa using (List.mem_filter.mp hmem).2

theorem glues_isStable : Glues '/' IsStable := by
  have hglues : Glues '/' (Keeps '#' (Keeps '?' KeepsParams)) :=
    glues_keeps (by decide) (glues_keeps (by decide) glues_keepsParams)
  intro front tail other htail hother hwell hgood
  refine ⟨fun char hchar => ?_,
    hglues front tail other htail hother hwell.2 hgood.2⟩
  rcases List.mem_append.mp hchar with hchar | hchar
  · exact hwell.1 char (List.mem_append_left _ hchar)
  · exact hgood.1 char hchar

theorem rooted_splitParams {path : List Char} (h : Rooted '/' path) :
    Rooted '/' (splitParams path).1 := by
  obtain ⟨rest, rfl⟩ := h
  exact ⟨(splitParams rest).1,
    congrArg Prod.fst (splitParams_append_slash [])⟩

theorem rooted_filter {text : List Char} (h : Rooted '/' text) :
    Rooted '/' (text.filter (!isRemoved ·)) := by
  obtain ⟨rest, rfl⟩ := h
  exact ⟨rest.filter (!isRemoved ·), by simp [show isRemoved '/' = false by rfl]⟩

theorem rooted_rejoined (h : Rooted '/' tail) : Rooted '/' (rejoined tail) := by
  have hmarks : '#' ≠ '/' ∧ '?' ≠ '/' := by decide
  have hpath := rooted_splitParams (rooted_splitAt hmarks.2
    (rooted_splitAt hmarks.1 (rooted_filter h)))
  exact ((hpath.append _).append _).append _

end Tail

/-- A parse result with a rooted path is put together in one way, whatever its
netloc is. -/
theorem urlunparse_rooted {parsed : ParseResult}
    (hscheme : parsed.scheme ≠ [] ∧ parsed.scheme ∈ usesNetloc)
    (hpath : Rooted '/' parsed.path) :
    urlunparse parsed = parsed.scheme ++ ':' :: '/' :: '/' :: (parsed.netloc ++
      (parsed.path ++ marked ';' parsed.params ++ marked '?' parsed.query ++
        marked '#' parsed.fragment)) := by
  obtain ⟨rest, hrest⟩ := hpath
  unfold urlunparse
  simp only [hrest, hscheme.1, hscheme.2, List.cons_append, List.head?_cons,
    if_false]
  by_cases hnetloc : parsed.netloc = []
  · -- the two slashes come back by one branch or the other
    simp [hnetloc, hscheme.1]
  · simp [hnetloc]

end MirrorMirage.UrlParse
