import MirrorMirage.Providers.Addresses
import MirrorMirage.Stdlib.UrlRoundTrip

/-!
# The expansion across domains

`_expand_urls_across_domains` of `providers/fastly.py` takes each URL apart and
puts it together again, for its own host and for each domain.  What it returns
has every URL as it was given, and its copies under the domains, exactly if
there are no domains or each URL is one that `urlunparse` gives back as it was
(`expansion_is_exact_iff`).
-/

namespace MirrorMirage.Providers.Fastly

open MirrorMirage.Gluing MirrorMirage.UrlParse

/-- A URL such as the mapper writes: the prefix without its trailing slashes,
a slash, and a text of any characters. -/
structure MappedUrl (tables : Tables) where
  pre : HttpPrefix tables
  name : List Char

namespace MappedUrl

variable {tables : Tables} (url : MappedUrl tables)

/-- What follows the network location. -/
def tail : List Char := url.pre.basePath ++ '/' :: url.name

/-- The URL with another network location, and nothing else changed. -/
def withNetloc (host : List Char) : String :=
  String.ofList (url.pre.scheme ++ ':' :: '/' :: '/' :: (host ++ url.tail))

def text : String := url.withNetloc url.pre.netloc

/-- The URL as the expansion writes it for a host. -/
def rewritten (host : List Char) : String :=
  String.ofList (url.pre.scheme.map Char.toLower ++ ':' :: '/' :: '/' ::
    (host ++ rejoined url.tail))

/-- The scheme is in lower case, and what follows the network location is given
back as it was. -/
def IsStable : Prop :=
  url.pre.scheme.map Char.toLower = url.pre.scheme ∧
    UrlParse.IsStable url.tail

instance : DecidablePred (@IsStable tables) := fun url =>
  inferInstanceAs (Decidable (_ ∧ UrlParse.IsStable url.tail))

/-- The targets of the mapper are such URLs. -/
theorem text_eq_targetUrl (pre : HttpPrefix tables) {binding : Binding}
    (htext : binding.urlPrefix = pre.text) (file : RelFile) :
    (MappedUrl.mk pre file.text).text =
      Mapper.targetUrl binding file.parts := by
  rw [← String.toList_inj, toList_targetUrl pre htext]
  simp [text, withNetloc, tail]

theorem rooted_tail : Rooted '/' url.tail := url.pre.basePath_append url.name

theorem slash_not_mem_netloc : '/' ∉ url.pre.netloc := fun hmem => by
  simpa [isNetlocEnd] using (url.pre.netloc_plain '/' hmem).1

/-- The scheme and the rest of a URL are told apart by the first colon. -/
theorem scheme_eq {scheme scheme' rest rest' : List Char}
    (hscheme : ':' ∉ scheme) (hscheme' : ':' ∉ scheme')
    (heq : scheme ++ ':' :: rest = scheme' ++ ':' :: rest') :
    scheme = scheme' ∧ rest = rest' := by
  have hsame : scheme = scheme' :=
    eq_of_append_rooted hscheme hscheme' ⟨rest, rfl⟩ ⟨rest', rfl⟩ heq
  subst hsame
  exact ⟨rfl, (List.cons.inj (List.append_cancel_left heq)).2⟩

theorem colon_not_mem_scheme : ':' ∉ url.pre.scheme := fun hmem =>
  (isSchemeChar_apart (url.pre.scheme_chars ':' hmem)).2.1 rfl

theorem colon_not_mem_lower : ':' ∉ url.pre.scheme.map Char.toLower := by
  rcases url.pre.isHttp with heq | heq <;> rw [heq] <;> decide

theorem lower_lower : (url.pre.scheme.map Char.toLower).map Char.toLower =
    url.pre.scheme.map Char.toLower := by
  rcases url.pre.isHttp with heq | heq <;> rw [heq] <;> decide

/-- A stable URL is written as it was. -/
theorem IsStable.rewritten {url : MappedUrl tables} (h : url.IsStable)
    (host : List Char) : url.rewritten host = url.withNetloc host := by
  rw [MappedUrl.rewritten, withNetloc, h.1, rejoined_eq_self_iff.mpr h.2]

/-- What one URL is expanded to. -/
theorem variants_text {domains : List String} (hdomains : domains ≠ []) :
    variants tables domains url.text =
      some ((url.pre.netloc :: domains.map String.toList).map
        url.rewritten) := by
  have hscheme : url.pre.scheme.map Char.toLower ≠ [] ∧
      url.pre.scheme.map Char.toLower ∈ usesNetloc := by
    rcases url.pre.isHttp with heq | heq <;> rw [heq] <;> decide
  have hpath : Rooted '/' (readPath url.tail) := by
    have hmarks : '#' ≠ '/' ∧ '?' ≠ '/' := by decide
    exact rooted_splitParams (rooted_splitAt hmarks.2
      (rooted_splitAt hmarks.1 (rooted_filter url.rooted_tail)))
  rw [variants, if_neg hdomains, text, withNetloc, String.toList_ofList,
    urlparse_append url.pre url.rooted_tail]
  simp only [Option.map_some, List.map_cons, List.map_map,
    String.toList_ofList, Option.some.injEq, List.cons.injEq]
  have hwritten : ∀ host, String.ofList (urlunparse ⟨url.pre.scheme.map
      Char.toLower, host, readPath url.tail,
        (splitParams (cutQuery url.tail).1).2, (cutQuery url.tail).2,
        (cutFragment url.tail).2⟩) = url.rewritten host := by
    intro host
    rw [urlunparse_rooted hscheme hpath]
    rfl
  exact ⟨hwritten _, List.map_congr_left fun domain _ => hwritten _⟩

end MappedUrl

section Expansion

variable {tables : Tables} {urls : List (MappedUrl tables)}
variable {domains expanded : List String}

/-- Every URL as it was given, and under each domain. -/
def Asked (urls : List (MappedUrl tables)) (domains : List String)
    (text : String) : Prop :=
  ∃ url ∈ urls, text = url.text ∨
    ∃ domain ∈ domains, text = url.withNetloc domain.toList

/-- The expansion returns what is asked for, each URL once. -/
def ExpandsExactly (urls : List (MappedUrl tables)) (domains : List String) :
    Prop :=
  ∃ expanded, expandUrlsAcrossDomains tables (urls.map MappedUrl.text)
      domains = some expanded ∧
    expanded.Nodup ∧ ∀ text, text ∈ expanded ↔ Asked urls domains text

/-- What is asked for is each URL under each of the hosts. -/
theorem asked_iff {text : String} : Asked urls domains text ↔
    ∃ url ∈ urls, ∃ host ∈ url.pre.netloc :: domains.map String.toList,
      text = url.withNetloc host := by
  simp [Asked, MappedUrl.text]

/-- With domains, the expansion returns each URL rewritten for each host. -/
theorem expandUrls_spec (hdomains : domains ≠ []) :
    ∃ expanded, expandUrlsAcrossDomains tables (urls.map MappedUrl.text)
        domains = some expanded ∧
      expanded.Nodup ∧ ∀ text, text ∈ expanded ↔
        ∃ url ∈ urls, ∃ host ∈ url.pre.netloc :: domains.map String.toList,
          text = url.rewritten host := by
  have hvariants : ∀ text ∈ urls.map MappedUrl.text, ∃ found,
      variants tables domains text = some found := by
    intro text htext
    obtain ⟨url, -, rfl⟩ := List.mem_map.mp htext
    exact ⟨_, url.variants_text hdomains⟩
  obtain ⟨expanded, hexpanded⟩ := exists_expandFrom hvariants []
  obtain ⟨hnodup, -, hmem⟩ := expandFrom_spec hexpanded
  refine ⟨expanded, by rw [expandUrlsAcrossDomains, if_neg hdomains, hexpanded],
    hnodup List.nodup_nil, fun text => ?_⟩
  rw [hmem]
  simp [MappedUrl.variants_text _ hdomains, eq_comm]

/-- If every URL comes back for every host, each of them is stable. -/
theorem stable_of_asked
    (hasked : ∀ text, Asked urls domains text →
      ∃ url ∈ urls, ∃ host ∈ url.pre.netloc :: domains.map String.toList,
        text = url.rewritten host) {url : MappedUrl tables}
    (hurl : url ∈ urls) : url.IsStable := by
  have hfound : ∀ site ∈ urls, ∀ head ∈ site.pre.netloc ::
      domains.map String.toList, ∃ other ∈ urls,
        ∃ head' ∈ other.pre.netloc :: domains.map String.toList,
          site.pre.scheme = other.pre.scheme.map Char.toLower ∧
            head ++ site.tail = head' ++ rejoined other.tail := by
    intro site hsite head hhead
    obtain ⟨other, hother, head', hhead', heq⟩ :=
      hasked _ (asked_iff.mpr ⟨site, hsite, head, hhead, rfl⟩)
    rw [MappedUrl.withNetloc, MappedUrl.rewritten, String.ofList_inj] at heq
    obtain ⟨hscheme, hrest⟩ := MappedUrl.scheme_eq site.colon_not_mem_scheme
      other.colon_not_mem_lower heq
    exact ⟨other, hother, head', hhead', hscheme,
      (List.cons.inj (List.cons.inj hrest).2).2⟩
  constructor
  · obtain ⟨other, -, -, -, hscheme, -⟩ :=
      hfound url hurl _ List.mem_cons_self
    rw [hscheme, other.lower_lower]
  · have hcomplete : Complete (fun url : MappedUrl tables => url.pre.netloc)
        MappedUrl.tail (fun url => rejoined url.tail) urls
          (domains.map String.toList) := by
      intro site hsite head hhead
      obtain ⟨other, hother, head', hhead', -, heq⟩ :=
        hfound site hsite head hhead
      exact ⟨other, hother, head', hhead', heq⟩
    exact good_of_complete glues_isStable
      (fun site _ => site.slash_not_mem_netloc) (fun site _ => site.rooted_tail)
      (fun site _ => ⟨rooted_rejoined site.rooted_tail, isStable_rejoined⟩)
      hcomplete hurl

/-- For all distinct URLs and all domains: the expansion has each URL as it was
given and under each domain, nothing else, and nothing twice, if and only if
there are no domains or every URL is stable. -/
theorem expansion_is_exact_iff
    (hdistinct : (urls.map MappedUrl.text).Nodup) :
    ExpandsExactly urls domains ↔
      domains = [] ∨ ∀ url ∈ urls, url.IsStable := by
  by_cases hdomains : domains = []
  · subst hdomains
    refine iff_of_true ⟨_, by simp [expandUrlsAcrossDomains], hdistinct,
      fun text => ?_⟩ (.inl rfl)
    simp [Asked, eq_comm]
  · obtain ⟨expanded, hexpanded, hnodup, hmem⟩ :=
      @expandUrls_spec tables urls domains hdomains
    constructor
    · rintro ⟨expanded', hexpanded', -, hmem'⟩
      obtain rfl : expanded = expanded' :=
        Option.some.inj (hexpanded.symm.trans hexpanded')
      exact .inr fun url hurl => stable_of_asked
        (fun text htext => (hmem text).mp ((hmem' text).mpr htext)) hurl
    · intro hstable
      replace hstable := hstable.resolve_left hdomains
      refine ⟨expanded, hexpanded, hnodup, fun text => ?_⟩
      rw [hmem, asked_iff]
      refine exists_congr fun url => and_congr_right fun hurl =>
        exists_congr fun host => and_congr_right fun _ => ?_
      rw [(hstable url hurl).rewritten]

end Expansion

/-- Two files with a query in their names, under two domains, one of which is
the host of the URLs. -/
theorem expansion_is_exact_iff_sample :
    ExpandsExactly [⟨rootPrefix, "a?b".toList⟩, ⟨rootPrefix, "c;d/e".toList⟩]
        ["x", "y"] ∧
      expandUrlsAcrossDomains asciiTables
          ["https://x/a?b", "https://x/c;d/e"] ["x", "y"] =
        some ["https://x/a?b", "https://y/a?b", "https://x/c;d/e",
          "https://y/c;d/e"] :=
  ⟨(expansion_is_exact_iff (by decide +kernel)).mpr
    (.inr (by decide +kernel)), by decide +kernel⟩

/-- The file `a?` is served as `/a?`: with a domain its URL is purged under
neither host. -/
theorem expansion_drops_question_mark :
    (MappedUrl.mk rootPrefix "a?".toList).text = "https://x/a?" ∧
      expandUrlsAcrossDomains asciiTables ["https://x/a?"] ["y"] =
        some ["https://x/a", "https://y/a"] ∧
      ¬ ∀ (tables : Tables) (urls : List (MappedUrl tables))
        (domains : List String), (urls.map MappedUrl.text).Nodup →
          ExpandsExactly urls domains := by
  have hexpanded : expandUrlsAcrossDomains asciiTables ["https://x/a?"] ["y"] =
      some ["https://x/a", "https://y/a"] := by decide +kernel
  have htext : (MappedUrl.mk rootPrefix "a?".toList).text = "https://x/a?" := by
    decide +kernel
  refine ⟨htext, hexpanded, fun hclaim => ?_⟩
  obtain ⟨expanded, hfound, -, hmem⟩ :=
    hclaim asciiTables [⟨rootPrefix, "a?".toList⟩] ["y"] (by simp)
  rw [List.map_singleton, htext, hexpanded] at hfound
  cases hfound
  have hasked : Asked [⟨rootPrefix, "a?".toList⟩] ["y"] "https://x/a?" :=
    ⟨_, List.mem_singleton_self _, .inl htext.symm⟩
  have hlost := (hmem "https://x/a?").mpr hasked
  revert hlost
  decide +kernel

end MirrorMirage.Providers.Fastly
