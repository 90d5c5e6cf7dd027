import MirrorMirage.Mapper
import MirrorMirage.Providers.CloudFront
import MirrorMirage.Providers.Fastly
import MirrorMirage.Providers.Gcp

/-!
# Which object a purge addresses

`Mapper.map` concatenates a URL and each provider takes it apart again with
`urlparse`.  What survives is the file's path up to the first character that
means something in a URL (`readPath`), so the request names the file exactly
when its path has no such character (`purge_names_file_iff`).
-/

namespace MirrorMirage.Providers

open MirrorMirage.UrlParse

/-! ## Prefixes and files -/

/-- A `url_prefix` that is an http(s) URL without query and fragment. -/
structure HttpPrefix (tables : Tables) where
  scheme : List Char
  netloc : List Char
  path : List Char
  isHttp : scheme.map Char.toLower = "http".toList ∨
    scheme.map Char.toLower = "https".toList
  netloc_ne_nil : netloc ≠ []
  netloc_accepted : acceptsNetloc tables netloc = true
  netloc_plain : ∀ char ∈ netloc,
    isNetlocEnd char = false ∧ isRemoved char = false
  path_rooted : ∀ first more, path = first :: more → first = '/'
  path_plain : ∀ char ∈ path, char ≠ '?' ∧ char ≠ '#' ∧ isRemoved char = false

namespace HttpPrefix

variable {tables : Tables} (pre : HttpPrefix tables)

def text : String :=
  String.ofList (pre.scheme ++ ':' :: '/' :: '/' :: (pre.netloc ++ pre.path))

/-- The path of the prefix, without trailing slashes. -/
def basePath : List Char := pre.path.rdropWhile (· = '/')

theorem scheme_chars : ∀ char ∈ pre.scheme, isSchemeChar char := by
  intro char hchar
  apply isSchemeChar_of_toLower
  have hlower : char.toLower ∈ pre.scheme.map Char.toLower :=
    List.mem_map_of_mem hchar
  have hall : (pre.scheme.map Char.toLower).all isSchemeChar := by
    rcases pre.isHttp with heq | heq <;> rw [heq] <;> decide
  exact List.all_eq_true.mp hall _ hlower

theorem scheme_first :
    ∃ first more, pre.scheme = first :: more ∧ first.isAlpha := by
  have hhttp := pre.isHttp
  cases hscheme : pre.scheme with
  | nil =>
      rw [hscheme] at hhttp
      exact absurd hhttp (by decide)
  | cons first more =>
      refine ⟨first, more, rfl, isAlpha_of_toLower ?_⟩
      rw [hscheme, List.map_cons] at hhttp
      rcases hhttp with heq | heq <;>
        rw [(List.cons.inj heq).1] <;> decide

theorem basePath_rooted {first : Char} {more : List Char}
    (hbase : pre.basePath = first :: more) : first = '/' := by
  obtain ⟨tail, htail⟩ := List.rdropWhile_prefix (· = '/') pre.path
  rw [show pre.path.rdropWhile (· = '/') = first :: more from hbase] at htail
  exact pre.path_rooted first (more ++ tail) htail.symm

theorem mem_of_mem_basePath {char : Char} (hchar : char ∈ pre.basePath) :
    char ∈ pre.path :=
  (List.rdropWhile_prefix (· = '/') pre.path).subset hchar

end HttpPrefix

/-- A file under a watch root, by the components of its relative path. -/
structure RelFile where
  parts : Path
  parts_ne_nil : parts ≠ []
  part_valid : ∀ part ∈ parts, part ≠ "" ∧ '/' ∉ part.toList ∧
    Char.ofNat 0 ∉ part.toList

/-- The relative path as a text. -/
def RelFile.text (file : RelFile) : List Char :=
  (Pathlib.asPosix file.parts).toList

theorem RelFile.text_eq (file : RelFile) : file.text =
    ['/'].intercalate (file.parts.map String.toList) := by
  rw [text, Pathlib.asPosix, if_neg file.parts_ne_nil,
    String.toList_intercalate]
  rfl

/-- Distinct files have distinct paths. -/
theorem RelFile.parts_eq_of_text_eq {file other : RelFile}
    (htext : file.text = other.text) : file.parts = other.parts := by
  have hsplit : ∀ file : RelFile, file.text.splitOn '/' =
      file.parts.map String.toList := by
    intro file
    rw [file.text_eq]
    refine List.splitOn_intercalate '/' ?_ (by simpa using file.parts_ne_nil)
    intro part hpart
    obtain ⟨text, htext, rfl⟩ := List.mem_map.mp hpart
    exact (file.part_valid text htext).2.1
  have hmap : file.parts.map String.toList = other.parts.map String.toList := by
    rw [← hsplit, ← hsplit, htext]
  exact List.map_injective_iff.mpr (fun _ _ => String.toList_inj.mp) hmap

/-! ## What the parser leaves of a relative path -/

/-- The first two cuts of `urlparse` through what the mapper wrote. -/
def cutFragment (text : List Char) : List Char × List Char :=
  splitAt '#' (text.filter (!isRemoved ·))

def cutQuery (text : List Char) : List Char × List Char :=
  splitAt '?' (cutFragment text).1

/-- The path that `urlparse` reads where the mapper wrote `text`. -/
def readPath (text : List Char) : List Char :=
  (splitParams (cutQuery text).1).1

/-- A text that `urlparse` reads as it stands. -/
def isPlain (text : List Char) : Prop :=
  (∀ char ∈ text, isRemoved char = false) ∧ '#' ∉ text ∧ '?' ∉ text ∧
    ';' ∉ text.rtakeWhile (· ≠ '/')

instance : DecidablePred isPlain := fun text =>
  have : Decidable (∀ char ∈ text, isRemoved char = false) :=
    List.decidableBAll _ _
  inferInstanceAs (Decidable ((∀ char ∈ text, isRemoved char = false) ∧
    '#' ∉ text ∧ '?' ∉ text ∧ ';' ∉ text.rtakeWhile (· ≠ '/')))

/-- Every step of the parser may only shorten the path, so one that is read
as it stands passes all of them untouched. -/
theorem readPath_eq_self_iff {text : List Char} :
    readPath text = text ↔ isPlain text := by
  constructor
  · intro hread
    have hlength := congrArg List.length hread
    have hparams : (readPath text).length ≤ (cutQuery text).1.length :=
      length_splitParams_fst_le
    have hquery : (cutQuery text).1.length ≤ (cutFragment text).1.length :=
      length_splitAt_fst_le
    have hfragment : (cutFragment text).1.length ≤
        (text.filter (!isRemoved ·)).length := length_splitAt_fst_le
    have hfilter : (text.filter (!isRemoved ·)).length ≤ text.length :=
      List.length_filter_le ..
    have hclean : text.filter (!isRemoved ·) = text :=
      List.filter_sublist.eq_of_length (by omega)
    have hcut : (cutFragment text).1 = text := by
      refine ((List.takeWhile_prefix _).eq_of_length ?_ :
        (cutFragment text).1 = text.filter (!isRemoved ·)).trans hclean
      change (cutFragment text).1.length = _
      omega
    have hask : (cutQuery text).1 = text := by
      refine ((List.takeWhile_prefix _).eq_of_length ?_ :
        (cutQuery text).1 = (cutFragment text).1).trans hcut
      change (cutQuery text).1.length = _
      omega
    refine ⟨fun char hchar => ?_, ?_, ?_, ?_⟩
    · simpa using List.filter_eq_self.mp hclean char hchar
    · rwa [cutFragment, hclean, splitAt_fst_eq_self_iff] at hcut
    · rwa [cutQuery, hcut, splitAt_fst_eq_self_iff] at hask
    · rwa [readPath, hask, splitParams_fst_eq_self_iff] at hread
  · rintro ⟨hclean, hhash, hask, hparams⟩
    have hfilter : text.filter (!isRemoved ·) = text :=
      List.filter_eq_self.mpr fun char hchar => by simp [hclean char hchar]
    rw [readPath, cutQuery, cutFragment, hfilter,
      splitAt_fst_eq_self_iff.mpr hhash, splitAt_fst_eq_self_iff.mpr hask,
      splitParams_fst_eq_self_iff.mpr hparams]

theorem cutQuery_snd {text : List Char} (hplain : isPlain text) :
    (cutQuery text).2 = [] := by
  obtain ⟨hclean, hhash, hask, -⟩ := hplain
  have hfilter : text.filter (!isRemoved ·) = text :=
    List.filter_eq_self.mpr fun char hchar => by simp [hclean char hchar]
  rw [cutQuery, cutFragment, hfilter, splitAt_of_not_mem hhash,
    splitAt_of_not_mem hask]

/-! ## The URL of a file -/

section Target

variable {tables : Tables} (pre : HttpPrefix tables)

/-- The trailing slashes of the prefix are those of its path. -/
theorem rstripSlash_text : (Mapper.rstripSlash pre.text).toList =
    pre.scheme ++ ':' :: '/' :: '/' :: (pre.netloc ++ pre.basePath) := by
  have hstrip : ∀ (before path : List Char),
      before.rdropWhile (· = '/') = before →
      (before ++ path).rdropWhile (· = '/') =
        before ++ path.rdropWhile (· = '/') := by
    intro before path hbefore
    induction path using List.reverseRecOn with
    | nil => simpa using hbefore
    | append_singleton path last ih =>
        rw [← List.append_assoc]
        by_cases hlast : last = '/'
        · rw [List.rdropWhile_concat_pos _ _ _ (by simpa using hlast),
            List.rdropWhile_concat_pos _ _ _ (by simpa using hlast), ih]
        · rw [List.rdropWhile_concat_neg _ _ _ (by simpa using hlast),
            List.rdropWhile_concat_neg _ _ _ (by simpa using hlast),
            List.append_assoc]
  have hnetloc : (pre.scheme ++ ':' :: '/' :: '/' :: pre.netloc).rdropWhile
      (· = '/') = pre.scheme ++ ':' :: '/' :: '/' :: pre.netloc := by
    rw [List.rdropWhile_eq_self_iff]
    intro _
    have hlast : (pre.scheme ++ ':' :: '/' :: '/' :: pre.netloc).getLast
        (by simp) = pre.netloc.getLast pre.netloc_ne_nil := by
      simp [pre.netloc_ne_nil, List.getLast_cons]
    rw [hlast]
    have hplain := (pre.netloc_plain _
      (List.getLast_mem pre.netloc_ne_nil)).1
    simp only [isNetlocEnd, Bool.or_eq_false_iff, decide_eq_false_iff_not] at hplain
    simpa using hplain.1.1
  have happend := hstrip _ pre.path hnetloc
  rw [Mapper.rstripSlash, HttpPrefix.text, String.toList_ofList,
    String.toList_ofList, HttpPrefix.basePath]
  simpa using happend

/-- What is read from a URL of the scheme and the netloc. -/
theorem urlparse_append {tail : List Char}
    (htail : ∃ more, tail = '/' :: more) :
    urlparse tables
        (pre.scheme ++ ':' :: '/' :: '/' :: (pre.netloc ++ tail)) =
      some ⟨pre.scheme.map Char.toLower, pre.netloc, readPath tail,
        (splitParams (cutQuery tail).1).2, (cutQuery tail).2,
        (cutFragment tail).2⟩ := by
  have hstart : (pre.scheme ++ ':' :: '/' :: '/' ::
      (pre.netloc ++ tail)).dropWhile (· ≤ ' ') =
        pre.scheme ++ ':' :: '/' :: '/' :: (pre.netloc ++ tail) := by
    obtain ⟨first, more, hscheme, -⟩ := pre.scheme_first
    have hfirst := (isSchemeChar_apart (pre.scheme_chars first
      (by simp [hscheme]))).1
    rw [hscheme, List.cons_append, List.dropWhile_cons_of_neg (by
      simpa using hfirst)]
  have hclean : (pre.scheme ++ ':' :: '/' :: '/' ::
      (pre.netloc ++ tail)).filter (!isRemoved ·) =
        pre.scheme ++ ':' :: '/' :: '/' ::
          (pre.netloc ++ tail.filter (!isRemoved ·)) := by
    have hscheme : pre.scheme.filter (!isRemoved ·) = pre.scheme :=
      List.filter_eq_self.mpr fun char hchar => by
        simp [(isSchemeChar_apart (pre.scheme_chars char hchar)).2.2]
    have hnetloc : pre.netloc.filter (!isRemoved ·) = pre.netloc :=
      List.filter_eq_self.mpr fun char hchar => by
        simp [(pre.netloc_plain char hchar).2]
    have hmarks : isRemoved ':' = false ∧ isRemoved '/' = false := by decide
    simp [List.filter_append, hscheme, hnetloc, hmarks]
  have hrest : ∃ first more, tail.filter (!isRemoved ·) = first :: more ∧
      isNetlocEnd first := by
    obtain ⟨more, rfl⟩ := htail
    exact ⟨'/', more.filter (!isRemoved ·),
      by simp [show isRemoved '/' = false by rfl], by decide⟩
  have hscheme : pre.scheme.map Char.toLower ∈ usesParams := by
    rcases pre.isHttp with heq | heq <;> rw [heq] <;> decide
  rw [urlparse]
  simp only [hstart, hclean, splitScheme_append pre.scheme_first
    pre.scheme_chars, splitNetloc_append (fun char hchar =>
      (pre.netloc_plain char hchar).1) hrest, pre.netloc_accepted, if_true,
    hscheme]
  rfl

/-- Text without a mark before a slash is passed over. -/
theorem cut_append {before : List Char}
    (hplain : ∀ char ∈ before, char ≠ '?' ∧ char ≠ '#' ∧ isRemoved char = false)
    (text : List Char) :
    cutFragment (before ++ '/' :: text) =
        (before ++ '/' :: (cutFragment text).1, (cutFragment text).2) ∧
      cutQuery (before ++ '/' :: text) =
        (before ++ '/' :: (cutQuery text).1, (cutQuery text).2) := by
  have hclean : (before ++ '/' :: text).filter (!isRemoved ·) =
      (before ++ ['/']) ++ text.filter (!isRemoved ·) := by
    have hbefore : before.filter (!isRemoved ·) = before :=
      List.filter_eq_self.mpr fun char hchar => by
        simp [(hplain char hchar).2.2]
    simp [List.filter_append, hbefore, show isRemoved '/' = false by rfl]
  have hunmarked : '#' ∉ before ++ ['/'] ∧ '?' ∉ before ++ ['/'] := by
    constructor <;> intro hmem <;>
      rcases List.mem_append.mp hmem with hmem | hmem
    · exact (hplain _ hmem).2.1 rfl
    · simp at hmem
    · exact (hplain _ hmem).1 rfl
    · simp at hmem
  have hfragment : cutFragment (before ++ '/' :: text) =
      (before ++ '/' :: (cutFragment text).1, (cutFragment text).2) := by
    rw [cutFragment, hclean, splitAt_append hunmarked.1, List.append_assoc]
    rfl
  refine ⟨hfragment, ?_⟩
  rw [cutQuery, hfragment, List.append_cons, splitAt_append hunmarked.2,
    List.append_assoc]
  rfl

/-- What the mapper writes for a file. -/
theorem toList_targetUrl {binding : Binding}
    (htext : binding.urlPrefix = pre.text) (file : RelFile) :
    (Mapper.targetUrl binding file.parts).toList =
      pre.scheme ++ ':' :: '/' :: '/' ::
        (pre.netloc ++ (pre.basePath ++ '/' :: file.text)) := by
  rw [Mapper.targetUrl, htext, String.toList_append, String.toList_append,
    rstripSlash_text, RelFile.text]
  simp

/-- A text after the path of the prefix is rooted. -/
theorem HttpPrefix.basePath_append (text : List Char) :
    ∃ more, pre.basePath ++ '/' :: text = '/' :: more := by
  cases hbase : pre.basePath with
  | nil => exact ⟨text, rfl⟩
  | cons first more =>
      exact ⟨more ++ '/' :: text, by rw [pre.basePath_rooted hbase]; rfl⟩

/-- What the providers read from the URL of a file. -/
theorem urlparse_target {binding : Binding}
    (htext : binding.urlPrefix = pre.text) (file : RelFile) :
    urlparse tables (Mapper.targetUrl binding file.parts).toList =
      some ⟨pre.scheme.map Char.toLower, pre.netloc,
        pre.basePath ++ '/' :: readPath file.text,
        (splitParams (cutQuery file.text).1).2, (cutQuery file.text).2,
        (cutFragment file.text).2⟩ := by
  obtain ⟨hfragment, hquery⟩ := @cut_append pre.basePath
    (fun char hchar => pre.path_plain char (pre.mem_of_mem_basePath hchar))
    file.text
  rw [toList_targetUrl pre htext, urlparse_append pre (pre.basePath_append _),
    readPath, hfragment, hquery, splitParams_append_slash]
  rfl

/-! ## The requests -/

/-- The object that a file is served as: path of the prefix, slash, relative
path. -/
def objectPath (file : RelFile) : String :=
  String.ofList (pre.basePath ++ '/' :: file.text)

/-- The requests that the providers build for `url` name the object. -/
def Addresses (file : RelFile) (url : String) : Prop :=
  Fastly.purgeEndpoint tables url = some (Fastly.fastlyApiBase ++ "/purge/" ++
      (String.ofList pre.netloc ++ objectPath pre file)) ∧
    CloudFront.pathOf tables url = some (objectPath pre file) ∧
    (Gcp.body tables url).map (·.path) = some (objectPath pre file)

variable {binding : Binding}

theorem purgeEndpoint_target (htext : binding.urlPrefix = pre.text)
    (file : RelFile) :
    Fastly.purgeEndpoint tables (Mapper.targetUrl binding file.parts) =
      some (Fastly.fastlyApiBase ++ "/purge/" ++ String.ofList (pre.netloc ++
        (pre.basePath ++ '/' :: readPath file.text) ++
          marked '?' (cutQuery file.text).2)) := by
  rw [Fastly.purgeEndpoint, urlparse_target pre htext]
  rfl

theorem pathOf_target (htext : binding.urlPrefix = pre.text)
    (file : RelFile) :
    CloudFront.pathOf tables (Mapper.targetUrl binding file.parts) =
      some (String.ofList (pre.basePath ++ '/' :: readPath file.text)) := by
  rw [CloudFront.pathOf, urlparse_target pre htext]
  simp

theorem body_target (htext : binding.urlPrefix = pre.text)
    (file : RelFile) :
    (Gcp.body tables (Mapper.targetUrl binding file.parts)).map (·.path) =
      some (String.ofList (pre.basePath ++ '/' :: readPath file.text)) := by
  rw [Gcp.body, urlparse_target pre htext]
  simp [Gcp.pathOr]

theorem addresses_iff_isPlain (htext : binding.urlPrefix = pre.text)
    (file : RelFile) :
    Addresses pre file (Mapper.targetUrl binding file.parts) ↔
      isPlain file.text := by
  rw [← readPath_eq_self_iff]
  constructor
  · rintro ⟨-, hpath, -⟩
    rw [pathOf_target pre htext, Option.some.injEq, objectPath,
      String.ofList_inj, List.append_cancel_left_eq] at hpath
    exact (List.cons.inj hpath).2
  · intro hread
    refine ⟨?_, ?_, ?_⟩
    · rw [purgeEndpoint_target pre htext, hread,
        cutQuery_snd (readPath_eq_self_iff.mp hread), objectPath,
        ← String.ofList_append]
      simp [marked]
    · rw [pathOf_target pre htext, hread, objectPath]
    · rw [body_target pre htext, hread, objectPath]

theorem objectPath_injective {file other : RelFile}
    (hobject : objectPath pre file = objectPath pre other) :
    file.parts = other.parts := by
  rw [objectPath, objectPath, String.ofList_inj,
    List.append_cancel_left_eq] at hobject
  exact RelFile.parts_eq_of_text_eq (List.cons.inj hobject).2

end Target

/-- No provider builds the same request for the two URLs. -/
def RequestsDiffer (tables : Tables) (url other : String) : Prop :=
  Fastly.purgeEndpoint tables url ≠ Fastly.purgeEndpoint tables other ∧
    CloudFront.pathOf tables url ≠ CloudFront.pathOf tables other ∧
    (Gcp.body tables url).map (·.path) ≠ (Gcp.body tables other).map (·.path)

theorem requestsDiffer_of_addresses {tables : Tables}
    {pre : HttpPrefix tables} {file other : RelFile} {url url' : String}
    (hne : file.parts ≠ other.parts) (hfile : Addresses pre file url)
    (hother : Addresses pre other url') : RequestsDiffer tables url url' := by
  have hobject : objectPath pre file ≠ objectPath pre other :=
    fun heq => hne (objectPath_injective pre heq)
  refine ⟨?_, ?_, ?_⟩
  · rw [hfile.1, hother.1]
    simpa using hobject
  · rw [hfile.2.1, hother.2.1]
    simpa using hobject
  · rw [hfile.2.2, hother.2.2]
    simpa using hobject

theorem map_event {watches : List WatchConfig} {root rel : Path}
    {bindings : List Binding} {place : ℕ} {binding : Binding}
    (hroot : Mapper.byRoot watches root = some bindings)
    (hbinding : bindings[place]? = some binding)
    (kind : Filter.EventKind) :
    ∃ targets, Mapper.map watches ⟨kind, root ++ rel, root⟩ = some targets ∧
      targets[place]? = some ⟨binding.cdn, Mapper.targetUrl binding rel⟩ := by
  have hne : bindings ≠ [] := by
    rintro rfl
    simp at hbinding
  refine ⟨bindings.map fun binding =>
    ⟨binding.cdn, Mapper.targetUrl binding rel⟩, ?_, ?_⟩
  · simp [Mapper.map, hroot, hne]
  · simp [hbinding]

/-- For a binding under an http(s) prefix and two distinct files under the
watch root: the requests built for the URLs that `Mapper.map` produces name
the two files, and differ, exactly when both paths are plain. -/
theorem purge_names_file_iff {tables : Tables} (pre : HttpPrefix tables)
    {watches : List WatchConfig} {root : Path} {bindings : List Binding}
    {place : ℕ} {binding : Binding}
    (hroot : Mapper.byRoot watches root = some bindings)
    (hbinding : bindings[place]? = some binding)
    (htext : binding.urlPrefix = pre.text) (kind : Filter.EventKind)
    {file other : RelFile} (hne : file.parts ≠ other.parts) :
    ∃ targets targets' target target',
      Mapper.map watches ⟨kind, root ++ file.parts, root⟩ = some targets ∧
      Mapper.map watches ⟨kind, root ++ other.parts, root⟩ = some targets' ∧
      targets[place]? = some target ∧ targets'[place]? = some target' ∧
      ((Addresses pre file target.url ∧ Addresses pre other target'.url ∧
          RequestsDiffer tables target.url target'.url) ↔
        (isPlain file.text ∧ isPlain other.text)) := by
  obtain ⟨targets, hmap, htarget⟩ :=
    @map_event _ _ file.parts _ _ _ hroot hbinding kind
  obtain ⟨targets', hmap', htarget'⟩ :=
    @map_event _ _ other.parts _ _ _ hroot hbinding kind
  refine ⟨targets, targets', _, _, hmap, hmap', htarget, htarget', ?_⟩
  rw [← addresses_iff_isPlain pre htext, ← addresses_iff_isPlain pre htext]
  exact ⟨fun h => ⟨h.1, h.2.1⟩, fun h =>
    ⟨h.1, h.2, requestsDiffer_of_addresses hne h.1 h.2⟩⟩

/-- The prefix `https://x/`. -/
def rootPrefix : HttpPrefix asciiTables where
  scheme := "https".toList
  netloc := "x".toList
  path := "/".toList
  isHttp := by decide
  netloc_ne_nil := by decide
  netloc_accepted := by decide
  netloc_plain := by
    intro char hchar
    obtain rfl : char = 'x' := List.mem_singleton.mp hchar
    decide
  path_rooted := by
    intro first more hpath
    exact (List.cons.inj hpath).1.symm
  path_plain := by
    intro char hchar
    obtain rfl : char = '/' := List.mem_singleton.mp hchar
    decide

/-- Two files with plain names. -/
theorem purge_names_file_iff_sample :
    ∃ targets targets' target target',
      Mapper.map [⟨["/", "srv"], [], false, [⟨"cdn", "https://x/"⟩]⟩]
        ⟨.invalidate, ["/", "srv"] ++ ["a", "b"], ["/", "srv"]⟩ =
          some targets ∧
      Mapper.map [⟨["/", "srv"], [], false, [⟨"cdn", "https://x/"⟩]⟩]
        ⟨.invalidate, ["/", "srv"] ++ ["c"], ["/", "srv"]⟩ = some targets' ∧
      targets[0]? = some target ∧ targets'[0]? = some target' ∧
      RequestsDiffer asciiTables target.url target'.url := by
  let file : RelFile := ⟨["a", "b"], by decide, by decide⟩
  let other : RelFile := ⟨["c"], by decide, by decide⟩
  have hroot : Mapper.byRoot
      [⟨["/", "srv"], [], false, [⟨"cdn", "https://x/"⟩]⟩] ["/", "srv"] =
        some [⟨"cdn", "https://x/"⟩] := by decide
  have hbinding : [Binding.mk "cdn" "https://x/"][0]? =
      some ⟨"cdn", "https://x/"⟩ := rfl
  have htext : "https://x/" = rootPrefix.text := by decide +kernel
  have hne : file.parts ≠ other.parts := by decide
  obtain ⟨targets, targets', target, target', hmap, hmap', htarget, htarget',
    hiff⟩ := purge_names_file_iff rootPrefix hroot hbinding htext .invalidate
      hne
  exact ⟨targets, targets', target, target', hmap, hmap', htarget, htarget',
    (hiff.mpr ⟨by decide +kernel, by decide +kernel⟩).2.2⟩

/-- The file `a#b` is served as `/a#b`, and its URL leads every provider to
the object `/a`, which is the file `a`. -/
theorem purge_names_other_file :
    Mapper.map [⟨["/", "srv"], [], false, [⟨"cdn", "https://x/"⟩]⟩]
        ⟨.invalidate, ["/", "srv", "a#b"], ["/", "srv"]⟩ =
      some [⟨"cdn", "https://x/a#b"⟩] ∧
    Mapper.map [⟨["/", "srv"], [], false, [⟨"cdn", "https://x/"⟩]⟩]
        ⟨.invalidate, ["/", "srv", "a"], ["/", "srv"]⟩ =
      some [⟨"cdn", "https://x/a"⟩] ∧
    CloudFront.pathOf asciiTables "https://x/a#b" = some "/a" ∧
    CloudFront.pathOf asciiTables "https://x/a" = some "/a" ∧
    Gcp.body asciiTables "https://x/a#b" = some ⟨"/a", "x"⟩ ∧
    Gcp.body asciiTables "https://x/a" = some ⟨"/a", "x"⟩ ∧
    Fastly.purgeEndpoint asciiTables "https://x/a#b" =
      some "https://api.fastly.com/purge/x/a" ∧
    Fastly.purgeEndpoint asciiTables "https://x/a" =
      some "https://api.fastly.com/purge/x/a" := by
  decide +kernel

end MirrorMirage.Providers
