import Mathlib.Data.List.DropRight

/-!
# `urllib.parse`

`urlparse`, `urlunparse` and the `hostname` of a parse result, over the
characters of the text.  What these functions take from the Unicode tables
(the normalization check of a netloc, the literal addresses in brackets, the
texts of their errors, lower case) is a parameter.
-/

namespace MirrorMirage.UrlParse

/-- The checks of `_checknetloc` and `_check_bracketed_netloc` with the texts
of their errors, `str.lower`, and what `repr` leaves as it is. -/
structure Tables where
  checkNetloc : List Char → Bool
  netlocError : List Char → String
  lower : List Char → List Char
  isPrintable : Char → Bool

/-- The tables for netlocs of ASCII letters, digits, dots and hyphens, where
the checks accept everything. -/
def asciiTables : Tables where
  checkNetloc := fun _ => true
  netlocError := fun _ => ""
  lower := List.map Char.toLower
  isPrintable := fun char => ' ' ≤ char && char ≤ '~'

structure ParseResult where
  scheme : List Char
  netloc : List Char
  path : List Char
  params : List Char
  query : List Char
  fragment : List Char
  deriving DecidableEq, Repr

/-- Split at the first `mark`, which belongs to neither part. -/
def splitAt (mark : Char) (text : List Char) : List Char × List Char :=
  (text.takeWhile (· ≠ mark), (text.dropWhile (· ≠ mark)).drop 1)

/-- The characters that `urlsplit` removes wherever they stand. -/
def isRemoved (char : Char) : Bool :=
  char = '\t' || char = '\r' || char = '\n'

def isSchemeChar (char : Char) : Bool :=
  char.isAlphanum || char = '+' || char = '-' || char = '.'

/-- A scheme is what stands before the first colon, if it may be one. -/
def splitScheme (url : List Char) : List Char × List Char :=
  match url.takeWhile (· ≠ ':'), url.dropWhile (· ≠ ':') with
  | first :: more, _ :: rest =>
      if first.isAlpha && (first :: more).all isSchemeChar then
        ((first :: more).map Char.toLower, rest)
      else ([], url)
  | _, _ => ([], url)

def isNetlocEnd (char : Char) : Bool :=
  char = '/' || char = '?' || char = '#'

def splitNetloc : List Char → List Char × List Char
  | '/' :: '/' :: rest =>
      (rest.takeWhile (!isNetlocEnd ·), rest.dropWhile (!isNetlocEnd ·))
  | url => ([], url)

/-- The `;params` of the last segment of a path. -/
def splitParams (path : List Char) : List Char × List Char :=
  let segment := splitAt ';' (path.rtakeWhile (· ≠ '/'))
  (path.rdropWhile (· ≠ '/') ++ segment.1, segment.2)

def usesParams : List (List Char) :=
  ["", "ftp", "hdl", "prospero", "http", "imap", "https", "shttp", "rtsp",
    "rtsps", "rtspu", "sip", "sips", "mms", "sftp", "tel"].map String.toList

def acceptsNetloc (tables : Tables) (netloc : List Char) : Bool :=
  netloc = [] ||
    ((netloc.contains '[' == netloc.contains ']') && tables.checkNetloc netloc)

/-- The text of the `ValueError` of a netloc that is refused. -/
def refusal (tables : Tables) (netloc : List Char) : String :=
  if netloc.contains '[' == netloc.contains ']' then tables.netlocError netloc
  else "Invalid IPv6 URL"

/-- `none` is the `ValueError` of a netloc that is refused. -/
def urlparse (tables : Tables) (url : List Char) : Option ParseResult :=
  let url := (url.dropWhile (· ≤ ' ')).filter (!isRemoved ·)
  let (scheme, url) := splitScheme url
  let (netloc, url) := splitNetloc url
  if acceptsNetloc tables netloc then
    let (url, fragment) := splitAt '#' url
    let (url, query) := splitAt '?' url
    let (path, params) :=
      if scheme ∈ usesParams then splitParams url else (url, [])
    some ⟨scheme, netloc, path, params, query, fragment⟩
  else none

/-- The text of the `ValueError` that `urlparse` raises. -/
def urlparseError (tables : Tables) (url : List Char) : String :=
  let url := (url.dropWhile (· ≤ ' ')).filter (!isRemoved ·)
  refusal tables (splitNetloc (splitScheme url).2).1

/-- The `ValueError` of the first URL of a batch that is refused. -/
def firstError (tables : Tables) (urls : List String) : String :=
  ((urls.find? fun url => (urlparse tables url.toList).isNone).map fun url =>
    urlparseError tables url.toList).getD ""

def usesNetloc : List (List Char) :=
  ["", "ftp", "http", "gopher", "nntp", "telnet", "imap", "wais", "file",
    "mms", "https", "shttp", "snews", "prospero", "rtsp", "rtsps", "rtspu",
    "rsync", "svn", "svn+ssh", "sftp", "nfs", "git", "git+ssh", "ws", "wss",
    "itms-services"].map String.toList

/-- `mark` and the part that follows it, unless that is empty. -/
def marked (mark : Char) (part : List Char) : List Char :=
  if part = [] then [] else mark :: part

def urlunparse (parsed : ParseResult) : List Char :=
  let url := parsed.path ++ marked ';' parsed.params
  let url :=
    if parsed.netloc ≠ [] then
      ['/', '/'] ++ parsed.netloc ++
        (if url ≠ [] ∧ url.head? ≠ some '/' then '/' :: url else url)
    else if ['/', '/'] <+: url then ['/', '/'] ++ url
    else if parsed.scheme ≠ [] ∧ parsed.scheme ∈ usesNetloc ∧
        (url = [] ∨ url.head? = some '/') then ['/', '/'] ++ url
    else url
  (if parsed.scheme = [] then [] else parsed.scheme ++ [':']) ++ url ++
    marked '?' parsed.query ++ marked '#' parsed.fragment

/-- `parsed.hostname or ""`: the host without user, port and brackets, in
lower case up to a zone. -/
def hostname (tables : Tables) (parsed : ParseResult) : List Char :=
  let hostinfo := parsed.netloc.rtakeWhile (· ≠ '@')
  let host :=
    if '[' ∈ hostinfo then (splitAt ']' (splitAt '[' hostinfo).2).1
    else (splitAt ':' hostinfo).1
  tables.lower (host.takeWhile (· ≠ '%')) ++ host.dropWhile (· ≠ '%')

/-! ## Characters of a scheme -/

theorem isSchemeChar_apart {char : Char} (h : isSchemeChar char) :
    ¬ char ≤ ' ' ∧ char ≠ ':' ∧ isRemoved char = false := by
  have halpha : char.isAlpha = (char.isUpper || char.isLower) := rfl
  have hupper : char.isUpper =
      decide (char.val ≥ 'A'.val ∧ char.val ≤ 'Z'.val) := rfl
  have hlower : char.isLower =
      (decide (char.val ≥ 'a'.val) && decide (char.val ≤ 'z'.val)) := rfl
  simp only [isSchemeChar, Char.isAlphanum, halpha, hupper, hlower,
    Char.isDigit, isRemoved, Char.le_def, Char.ext_iff, ne_eq,
    Bool.or_eq_true, Bool.and_eq_true, decide_eq_true_eq,
    UInt32.le_iff_toNat_le, UInt32.ext_iff, ge_iff_le,
    decide_eq_false_iff_not, Bool.or_eq_false_iff, Char.reduceVal,
    UInt32.reduceToNat] at h ⊢
  omega

theorem isAlpha_of_isUpper {char : Char} (h : char.isUpper) :
    char.isAlpha := by
  change (char.isUpper || char.isLower) = true
  rw [h, Bool.true_or]

theorem isAlpha_of_toLower {char : Char} (h : char.toLower.isAlpha) :
    char.isAlpha := by
  unfold Char.toLower at h
  split at h
  · exact isAlpha_of_isUpper (decide_eq_true ‹_›)
  · exact h

theorem isSchemeChar_of_toLower {char : Char}
    (h : isSchemeChar char.toLower) : isSchemeChar char := by
  unfold Char.toLower at h
  split at h
  · have halpha : char.isAlpha := isAlpha_of_isUpper (decide_eq_true ‹_›)
    simp [isSchemeChar, Char.isAlphanum, halpha]
  · exact h

/-- A scheme before a colon is split off in lower case. -/
theorem splitScheme_append {scheme rest : List Char}
    (hfirst : ∃ first more, scheme = first :: more ∧ first.isAlpha)
    (hchars : ∀ char ∈ scheme, isSchemeChar char) :
    splitScheme (scheme ++ ':' :: rest) = (scheme.map Char.toLower, rest) := by
  obtain ⟨first, more, rfl, halpha⟩ := hfirst
  have hpass : ∀ char ∈ first :: more, decide (char ≠ ':') = true := by
    intro char hchar
    simpa using (isSchemeChar_apart (hchars char hchar)).2.1
  have hfirst := hchars first (.head _)
  have hmore : ∀ char ∈ more, isSchemeChar char := fun char hchar =>
    hchars char (.tail _ hchar)
  unfold splitScheme
  rw [List.takeWhile_append_of_pos hpass, List.dropWhile_append_of_pos hpass]
  simpa [halpha, hfirst] using hmore

/-! ## Splitting -/

section Split

variable {mark : Char} {text tail : List Char}

/-- Text without the mark is passed over. -/
theorem splitAt_append (htext : mark ∉ text) :
    splitAt mark (text ++ tail) =
      (text ++ (splitAt mark tail).1, (splitAt mark tail).2) := by
  have hpass : ∀ char ∈ text, decide (char ≠ mark) = true := by
    intro char hchar
    have hne : char ≠ mark := fun heq => htext (heq ▸ hchar)
    simpa using hne
  simp only [splitAt, List.takeWhile_append_of_pos hpass,
    List.dropWhile_append_of_pos hpass]

theorem splitAt_of_not_mem (htext : mark ∉ text) :
    splitAt mark text = (text, []) := by
  have happend : splitAt mark (text ++ []) = _ := splitAt_append htext
  simpa [splitAt] using happend

/-- Only text without the mark survives the split whole. -/
theorem splitAt_fst_eq_self_iff :
    (splitAt mark text).1 = text ↔ mark ∉ text := by
  constructor
  · intro h
    simpa using List.takeWhile_eq_self_iff.mp h mark
  · exact fun h => by rw [splitAt_of_not_mem h]

theorem length_splitAt_fst_le : (splitAt mark text).1.length ≤ text.length :=
  (List.takeWhile_sublist _).length_le

theorem splitParams_fst_eq_self_iff :
    (splitParams text).1 = text ↔ ';' ∉ text.rtakeWhile (· ≠ '/') := by
  have hsplit : text.rdropWhile (· ≠ '/') ++ text.rtakeWhile (· ≠ '/') = text :=
    List.rdropWhile_append_rtakeWhile
  rw [← splitAt_fst_eq_self_iff]
  simp only [splitParams]
  conv_lhs => rhs; rw [← hsplit]
  rw [List.append_cancel_left_eq]

theorem length_splitParams_fst_le :
    (splitParams text).1.length ≤ text.length := by
  have hsplit : (text.rdropWhile (· ≠ '/') ++
      text.rtakeWhile (· ≠ '/')).length = text.length :=
    congrArg List.length List.rdropWhile_append_rtakeWhile
  have hle : (splitAt ';' (text.rtakeWhile (· ≠ '/'))).1.length ≤
      (text.rtakeWhile (· ≠ '/')).length := length_splitAt_fst_le
  simp only [splitParams, List.length_append] at hsplit ⊢
  omega

theorem splitNetloc_append {netloc rest : List Char}
    (hnetloc : ∀ char ∈ netloc, isNetlocEnd char = false)
    (hrest : ∃ first more, rest = first :: more ∧ isNetlocEnd first) :
    splitNetloc ('/' :: '/' :: (netloc ++ rest)) = (netloc, rest) := by
  obtain ⟨first, more, rfl, hend⟩ := hrest
  have hpass : ∀ char ∈ netloc, (!isNetlocEnd char) = true := by
    intro char hchar
    simp [hnetloc char hchar]
  simp [splitNetloc, List.takeWhile_append_of_pos hpass,
    List.dropWhile_append_of_pos hpass, hend]

/-- The last segment is that of what follows a slash. -/
theorem segment_append_slash (before : List Char) :
    (before ++ '/' :: text).rtakeWhile (· ≠ '/') =
        text.rtakeWhile (· ≠ '/') ∧
      (before ++ '/' :: text).rdropWhile (· ≠ '/') =
        before ++ '/' :: text.rdropWhile (· ≠ '/') := by
  induction text using List.reverseRecOn with
  | nil => simp [List.rtakeWhile, List.rdropWhile]
  | append_singleton text last ih =>
      have hsplit : before ++ '/' :: (text ++ [last]) =
          before ++ '/' :: text ++ [last] := by simp
      rw [hsplit]
      by_cases hlast : last = '/'
      · subst hlast
        simp [List.rtakeWhile, List.rdropWhile]
      · rw [List.rtakeWhile_concat_pos _ _ _ (by simpa using hlast),
          List.rdropWhile_concat_pos _ _ _ (by simpa using hlast),
          List.rtakeWhile_concat_pos _ _ _ (by simpa using hlast),
          List.rdropWhile_concat_pos _ _ _ (by simpa using hlast)]
        exact ⟨by rw [ih.1], ih.2⟩

/-- Params are those of the last segment, whatever stands before a slash. -/
theorem splitParams_append_slash (before : List Char) :
    splitParams (before ++ '/' :: text) =
      (before ++ '/' :: (splitParams text).1, (splitParams text).2) := by
  obtain ⟨hsegment, hbefore⟩ := @segment_append_slash text before
  simp only [splitParams, hsegment, hbefore]
  simp

end Split

end MirrorMirage.UrlParse
