import Mathlib.Data.Set.Finite.Lemmas
import Mathlib.Data.Set.Finite.List

/-!
# Texts glued at a separator

A property of texts `Glues` when it can be seen piece by piece: a front that
goes well with one rooted end goes well with every rooted end that is good by
itself.  If all ends are put behind all heads, and each text so made can also be
had with an end that is good, then all ends were good (`good_of_complete`):
otherwise a head would have to end in a front that goes well with no end, and
then another, longer one, without an end.
-/

namespace MirrorMirage.Gluing

variable {α : Type*} (slash : α)

/-- The text starts with the separator. -/
def Rooted (text : List α) : Prop := ∃ rest, text = slash :: rest

def Glues (good : List α → Prop) : Prop :=
  ∀ front tail other, Rooted slash tail → Rooted slash other →
    good (front ++ tail) → good other → good (front ++ other)

/-- The front goes well with no end. -/
def Spoils (good : List α → Prop) (front : List α) : Prop :=
  ∀ tail, Rooted slash tail → ¬ good (front ++ tail)

variable {slash} {good : List α → Prop}

theorem Rooted.append {text : List α} (h : Rooted slash text) (more : List α) :
    Rooted slash (text ++ more) := by
  obtain ⟨rest, rfl⟩ := h
  exact ⟨rest ++ more, rfl⟩

theorem Rooted.mem {text : List α} (h : Rooted slash text) : slash ∈ text := by
  obtain ⟨rest, rfl⟩ := h
  exact List.mem_cons_self

/-- What a rooted text begins with is empty or rooted. -/
theorem Rooted.of_append {text more : List α} (h : Rooted slash (text ++ more))
    (htext : text ≠ []) : Rooted slash text := by
  obtain ⟨rest, hrest⟩ := h
  obtain ⟨first, others, rfl⟩ := List.exists_cons_of_ne_nil htext
  exact ⟨others, by rw [(List.cons.inj hrest).1]⟩

theorem Spoils.append {front more : List α} (h : Spoils slash good front)
    (hmore : Rooted slash more) : Spoils slash good (front ++ more) := by
  intro tail _
  rw [List.append_assoc]
  exact h _ (hmore.append tail)

/-- A front that makes a good end bad spoils every end. -/
theorem Glues.spoils (hglues : Glues slash good) {front tail : List α}
    (htail : Rooted slash tail) (hgood : good tail)
    (hbad : ¬ good (front ++ tail)) : Spoils slash good front :=
  fun other hother hglued =>
    hbad (hglues front other tail hother htail hglued hgood)

/-- If a front spoils every end and its beginning does not, the rest of it
does. -/
theorem Glues.spoils_rest (hglues : Glues slash good) {front more : List α}
    (hmore : Rooted slash more) (hfront : ¬ Spoils slash good front)
    (hspoils : Spoils slash good (front ++ more)) :
    Spoils slash good more := by
  simp only [Spoils, not_forall, not_not] at hfront
  obtain ⟨other, hother, hwell⟩ := hfront
  intro tail htail hgood
  refine hspoils tail htail ?_
  rw [List.append_assoc]
  exact hglues front other (more ++ tail) hother (hmore.append tail) hwell hgood

/-- Texts without a separator are told apart by what they are glued to. -/
theorem eq_of_append_rooted [DecidableEq α] {first second tail tail' : List α}
    (hfirst : slash ∉ first) (hsecond : slash ∉ second)
    (htail : Rooted slash tail) (htail' : Rooted slash tail')
    (heq : first ++ tail = second ++ tail') : first = second := by
  obtain ⟨rest, rfl⟩ := htail
  obtain ⟨rest', rfl⟩ := htail'
  have htake : ∀ {text rest : List α}, slash ∉ text →
      (text ++ slash :: rest).takeWhile (· ≠ slash) = text := by
    intro text rest htext
    rw [List.takeWhile_append_of_pos (by
      intro char hchar
      simpa using fun hslash : char = slash => htext (hslash ▸ hchar))]
    simp
  rw [← htake hfirst, heq, htake hsecond]

section Complete

variable {Site : Type*} (plain tail shown : Site → List α)
variable (sites : List Site) (heads : List (List α))

/-- Every end behind every head is one of the shown ends behind a head. -/
def Complete : Prop :=
  ∀ site ∈ sites, ∀ head ∈ plain site :: heads,
    ∃ other ∈ sites, ∃ head' ∈ plain other :: heads,
      head ++ tail site = head' ++ shown other

/-- A head behind `start` that no other one leads to by a front that goes
well with some end. -/
structure Extends (slash : α) (good : List α → Prop) (heads : List (List α))
    (start head : List α) : Prop where
  mem : head ∈ start :: heads
  split : ∃ front, head = start ++ front ∧ (front = [] ∨ Rooted slash front)
  spoils : ∀ other ∈ start :: heads, ∀ front, Rooted slash front →
    head = other ++ front → Spoils slash good front

theorem extends_start {start : List α} (hplain : slash ∉ start) :
    Extends slash good heads start start where
  mem := List.mem_cons_self
  split := ⟨[], by simp, .inl rfl⟩
  spoils := by
    intro other _ front hfront heq
    exact absurd (heq ▸ List.mem_append_right other hfront.mem) hplain

variable {plain tail shown sites heads}

theorem mem_heads_of_slash {start head : List α} (hplain : slash ∉ start)
    (hmem : head ∈ start :: heads) (hslash : slash ∈ head) : head ∈ heads := by
  rcases List.mem_cons.mp hmem with rfl | hknown
  · exact absurd hslash hplain
  · exact hknown

/-- The shortest of the heads that continue `head` by a front that spoils. -/
theorem Extends.exists_longer (hglues : Glues slash good)
    {start head longer front : List α} (hplain : slash ∉ start)
    (h : Extends slash good heads start head) (hlonger : longer ∈ heads)
    (heq : longer = head ++ front) (hfront : Rooted slash front)
    (hspoils : Spoils slash good front) :
    ∃ next, Extends slash good heads start next ∧
      head.length < next.length := by
  let continued : Set (List α) := {next | next ∈ heads ∧ ∃ front,
    Rooted slash front ∧ Spoils slash good front ∧ next = head ++ front}
  have hfinite : continued.Finite :=
    (List.finite_toSet heads).subset fun next hnext => hnext.1
  obtain ⟨next, ⟨hnext, front, hfront, hspoils, rfl⟩, hleast⟩ :=
    Set.exists_min_image continued List.length hfinite
      ⟨longer, hlonger, front, hfront, hspoils, heq⟩
  obtain ⟨before, hbefore, hrooted⟩ := h.split
  have hpositive : 0 < front.length := List.length_pos_of_mem hfront.mem
  refine ⟨head ++ front, ⟨.tail _ hnext, ⟨before ++ front, ?_, ?_⟩, ?_⟩, ?_⟩
  · rw [hbefore, List.append_assoc]
  · rcases hrooted with rfl | hrooted
    · exact .inr hfront
    · exact .inr (hrooted.append front)
  · intro other hother last hlast hsplit
    rcases List.append_eq_append_iff.mp hsplit with
      ⟨between, hotherEq, hfrontEq⟩ | ⟨between, hheadEq, hlastEq⟩
    · -- the other head lies between the two
      by_cases hempty : between = []
      · rw [hempty, List.nil_append] at hfrontEq
        exact hfrontEq ▸ hspoils
      · have hbetween : Rooted slash between :=
          Rooted.of_append (hfrontEq ▸ hfront) hempty
        have hknown : other ∈ heads := mem_heads_of_slash hplain hother
          (hotherEq ▸ List.mem_append_right _ hbetween.mem)
        refine hglues.spoils_rest hlast (fun hbad => ?_) (hfrontEq ▸ hspoils)
        have hle := hleast other ⟨hknown, between, hbetween, hbad, hotherEq⟩
        rw [hsplit, List.length_append] at hle
        have := List.length_pos_of_mem hlast.mem
        omega
    · -- the other head is shorter than both
      by_cases hempty : between = []
      · rw [hempty, List.nil_append] at hlastEq
        exact hlastEq ▸ hspoils
      · have hbetween : Rooted slash between :=
          Rooted.of_append (hlastEq ▸ hlast) hempty
        rw [hlastEq]
        exact (h.spoils other hother between hbetween hheadEq).append hfront
  · rw [List.length_append]
    omega

variable [DecidableEq α]

/-- As long as an end is not good, there is a longer head. -/
theorem Extends.next (hglues : Glues slash good)
    (hplain : ∀ site ∈ sites, slash ∉ plain site)
    (htail : ∀ site ∈ sites, Rooted slash (tail site))
    (hshown : ∀ site ∈ sites, Rooted slash (shown site) ∧ good (shown site))
    (hcomplete : Complete plain tail shown sites heads) {site : Site}
    (hsite : site ∈ sites) (hbad : ¬ good (tail site)) {head : List α}
    (h : Extends slash good heads (plain site) head) :
    ∃ next, Extends slash good heads (plain site) next ∧
      head.length < next.length := by
  obtain ⟨other, hother, head', hhead', heq⟩ := hcomplete site hsite head h.mem
  obtain ⟨hrooted, hgood⟩ := hshown other hother
  rcases List.append_eq_append_iff.mp heq with
    ⟨front, hhead, htailEq⟩ | ⟨front, hhead, hshownEq⟩
  · -- the end is cut: what it loses to the head spoils
    have hne : front ≠ [] := by
      rintro rfl
      rw [List.nil_append] at htailEq
      exact hbad (htailEq ▸ hgood)
    have hfront : Rooted slash front :=
      Rooted.of_append (htailEq ▸ htail site hsite) hne
    have hknown : head' ∈ heads :=
      mem_heads_of_slash (hplain other hother) hhead'
        (hhead ▸ List.mem_append_right _ hfront.mem)
    exact h.exists_longer hglues (hplain site hsite) hknown hhead hfront
      (hglues.spoils hrooted hgood (htailEq ▸ hbad))
  · -- the head is cut: the front that it loses goes well with the end
    exfalso
    have hne : front ≠ [] := by
      rintro rfl
      rw [List.nil_append] at hshownEq
      exact hbad (hshownEq ▸ hgood)
    have hfront : Rooted slash front :=
      Rooted.of_append (hshownEq ▸ hrooted) hne
    have hwell : good (front ++ tail site) := hshownEq ▸ hgood
    have hspoils : Spoils slash good front := by
      rcases List.mem_cons.mp hhead' with hsame | hknown
      · obtain ⟨before, hbefore, hempty | hbeforeRooted⟩ := h.split
        · refine absurd ?_ (hplain site hsite)
          rw [hempty, List.append_nil] at hbefore
          rw [← hbefore, hhead]
          exact List.mem_append_right _ hfront.mem
        · have hstart : plain site = head' := by
            refine eq_of_append_rooted (hplain site hsite)
              (hsame ▸ hplain other hother) hbeforeRooted hfront ?_
            rw [← hbefore, hhead]
          exact h.spoils head' (hstart ▸ List.mem_cons_self) front hfront hhead
      · exact h.spoils head' (.tail _ hknown) front hfront hhead
    exact hspoils (tail site) (htail site hsite) hwell

/-- The ends are good if each of them, behind each head, can be shown. -/
theorem good_of_complete (hglues : Glues slash good)
    (hplain : ∀ site ∈ sites, slash ∉ plain site)
    (htail : ∀ site ∈ sites, Rooted slash (tail site))
    (hshown : ∀ site ∈ sites, Rooted slash (shown site) ∧ good (shown site))
    (hcomplete : Complete plain tail shown sites heads) {site : Site}
    (hsite : site ∈ sites) : good (tail site) := by
  by_contra hbad
  let chain : Set (List α) := {head | Extends slash good heads (plain site) head}
  have hfinite : chain.Finite :=
    (List.finite_toSet (plain site :: heads)).subset fun head h => h.mem
  obtain ⟨longest, hlongest, hmost⟩ :=
    Set.exists_max_image chain List.length hfinite
      ⟨plain site, extends_start heads (hplain site hsite)⟩
  obtain ⟨next, hnext, hlt⟩ := Extends.next hglues hplain htail hshown
    hcomplete hsite hbad hlongest
  have hle := hmost next hnext
  omega

end Complete

end MirrorMirage.Gluing
