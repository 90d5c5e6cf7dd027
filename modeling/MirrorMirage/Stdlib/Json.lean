import Mathlib.Data.List.Basic

/-!
# `json.dumps` and `json.loads` on lists of strings

The default encoder and decoder of Python, over the code points of a text.  A
Python string may hold surrogates, as `os.fsdecode` makes them of bytes that
are no UTF-8.  The encoder escapes each of them by itself, and the decoder
joins a high and a low one that follow each other as escapes (`joined`).
Other JSON values than lists of strings are refused here.
-/

namespace MirrorMirage.Json

/-- The code points of a Python string. -/
abbrev Text := List ℕ

def isHigh (code : ℕ) : Bool := 0xd800 ≤ code && code ≤ 0xdbff

def isLow (code : ℕ) : Bool := 0xdc00 ≤ code && code ≤ 0xdfff

/-- The code point of a surrogate pair. -/
def joinPair (high low : ℕ) : ℕ :=
  0x10000 + (high - 0xd800) * 0x400 + (low - 0xdc00)

/-! ## The encoder -/

def hexDigit (value : ℕ) : ℕ :=
  if value < 10 then 0x30 + value else 0x57 + value

/-- `\\u` and four hexadecimal digits. -/
def unicodeEscape (unit : ℕ) : Text :=
  [0x5c, 0x75, hexDigit (unit / 4096), hexDigit (unit / 256 % 16),
    hexDigit (unit / 16 % 16), hexDigit (unit % 16)]

/-- The characters that are written as they are: printable ASCII but for the
quote and the backslash. -/
def isPlain (code : ℕ) : Bool :=
  0x20 ≤ code && code ≤ 0x7e && code != 0x22 && code != 0x5c

/-- The letter after the backslash in the escapes of two characters. -/
def shortEscape : ℕ → Option ℕ
  | 0x5c => some 0x5c
  | 0x22 => some 0x22
  | 0x08 => some 0x62
  | 0x0c => some 0x66
  | 0x0a => some 0x6e
  | 0x0d => some 0x72
  | 0x09 => some 0x74
  | _ => none

/-- `py_encode_basestring_ascii` on one code point. -/
def escape (code : ℕ) : Text :=
  if isPlain code then [code]
  else
    match shortEscape code with
    | some letter => [0x5c, letter]
    | none =>
        if code < 0x10000 then unicodeEscape code
        else unicodeEscape (0xd800 + (code - 0x10000) / 0x400) ++
          unicodeEscape (0xdc00 + (code - 0x10000) % 0x400)

def encodeString (text : Text) : Text :=
  0x22 :: (text.flatMap escape ++ [0x22])

/-- `json.dumps` of a list of strings. -/
def dumps : List Text → Text
  | [] => [0x5b, 0x5d]
  | first :: rest => 0x5b :: (encodeString first ++
      (rest.flatMap (fun item => 0x2c :: 0x20 :: encodeString item) ++ [0x5d]))

/-! ## The decoder -/

def hexValue (code : ℕ) : Option ℕ :=
  if 0x30 ≤ code && code ≤ 0x39 then some (code - 0x30)
  else if 0x61 ≤ code && code ≤ 0x66 then some (code - 0x57)
  else if 0x41 ≤ code && code ≤ 0x46 then some (code - 0x37)
  else none

/-- The value of four hexadecimal digits. -/
def unitValue (a b c d : ℕ) : Option ℕ :=
  match hexValue a, hexValue b, hexValue c, hexValue d with
  | some a, some b, some c, some d => some (a * 4096 + b * 256 + c * 16 + d)
  | _, _, _, _ => none

/-- What a backslash and this letter stand for. -/
def unescape : ℕ → Option ℕ
  | 0x22 => some 0x22
  | 0x5c => some 0x5c
  | 0x2f => some 0x2f
  | 0x62 => some 0x08
  | 0x66 => some 0x0c
  | 0x6e => some 0x0a
  | 0x72 => some 0x0d
  | 0x74 => some 0x09
  | _ => none

/-- The characters of a string after its opening quote, those from a `\u` escape
marked, and what comes after its closing quote. -/
def scanUnits : Text → Option (List (Bool × ℕ) × Text)
  | [] => none
  | 0x22 :: rest => some ([], rest)
  | 0x5c :: 0x75 :: a :: b :: c :: d :: rest =>
      match unitValue a b c d with
      | none => none
      | some unit => (scanUnits rest).map fun found =>
          ((true, unit) :: found.1, found.2)
  | 0x5c :: letter :: rest =>
      match unescape letter with
      | none => none
      | some code => (scanUnits rest).map fun found =>
          ((false, code) :: found.1, found.2)
  | code :: rest =>
      if code < 0x20 || code = 0x5c then none
      else (scanUnits rest).map fun found => ((false, code) :: found.1, found.2)

/-- Two escapes that are a surrogate pair are one character. -/
def joinUnits : List (Bool × ℕ) → Text
  | [] => []
  | [unit] => [unit.2]
  | high :: low :: rest =>
      if high.1 && low.1 && isHigh high.2 && isLow low.2 then
        joinPair high.2 low.2 :: joinUnits rest
      else high.2 :: joinUnits (low :: rest)

/-- `py_scanstring` with its default of `strict`. -/
def scanString (text : Text) : Option (Text × Text) :=
  (scanUnits text).map fun found => (joinUnits found.1, found.2)

def isSpace (code : ℕ) : Bool :=
  code = 0x20 || code = 0x09 || code = 0x0a || code = 0x0d

def skipSpaces (text : Text) : Text := text.dropWhile isSpace

/-- The loop of `JSONArray`; each item takes at least one character. -/
def scanItems : ℕ → Text → Option (List Text × Text)
  | fuel + 1, 0x22 :: rest =>
      match scanString rest with
      | none => none
      | some (item, rest) =>
          match skipSpaces rest with
          | 0x5d :: rest => some ([item], rest)
          | 0x2c :: rest => (scanItems fuel (skipSpaces rest)).map fun found =>
              (item :: found.1, found.2)
          | _ => none
  | _, _ => none

/-- An array of strings after its opening bracket. -/
def scanArray (text : Text) : Option (List Text × Text) :=
  match skipSpaces text with
  | 0x5d :: rest => some ([], rest)
  | text => scanItems text.length text

/-- `json.loads`, where `none` is an error or another value. -/
def loads (text : Text) : Option (List Text) :=
  match skipSpaces text with
  | 0x5b :: rest =>
      match scanArray rest with
      | some (items, rest) => if skipSpaces rest = [] then some items else none
      | none => none
  | _ => none

/-! ## One code point -/

/-- What the decoder makes of the escapes of one code point. -/
def units (code : ℕ) : List (Bool × ℕ) :=
  if isPlain code || (shortEscape code).isSome then [(false, code)]
  else if code < 0x10000 then [(true, code)]
  else [(true, 0xd800 + (code - 0x10000) / 0x400),
    (true, 0xdc00 + (code - 0x10000) % 0x400)]

section Units

variable {code unit letter : ℕ} {text rest : Text}

theorem hexValue_hexDigit {value : ℕ} (hvalue : value < 16) :
    hexValue (hexDigit value) = some value := by
  revert value
  decide

theorem unitValue_hexDigits (hunit : unit < 0x10000) :
    unitValue (hexDigit (unit / 4096)) (hexDigit (unit / 256 % 16))
      (hexDigit (unit / 16 % 16)) (hexDigit (unit % 16)) = some unit := by
  have hfirst : unit / 4096 < 16 := by omega
  simp only [unitValue, hexValue_hexDigit hfirst,
    hexValue_hexDigit (Nat.mod_lt _ (by decide : 0 < 16)), Option.some.injEq]
  omega

theorem scanUnits_unicodeEscape (hunit : unit < 0x10000) (rest : Text) :
    scanUnits (unicodeEscape unit ++ rest) = (scanUnits rest).map fun found =>
      ((true, unit) :: found.1, found.2) := by
  simp [unicodeEscape, scanUnits, unitValue_hexDigits hunit]

theorem unescape_of_shortEscape (hshort : shortEscape code = some letter) :
    unescape letter = some code ∧ letter ≠ 0x75 := by
  unfold shortEscape at hshort
  split at hshort <;> cases hshort <;> decide

theorem isPlain_iff : isPlain code = true ↔
    0x20 ≤ code ∧ code ≤ 0x7e ∧ code ≠ 0x22 ∧ code ≠ 0x5c := by
  simp [isPlain, and_assoc]

theorem scanUnits_cons (hspace : 0x20 ≤ code) (hquote : code ≠ 0x22)
    (hslash : code ≠ 0x5c) (rest : Text) :
    scanUnits (code :: rest) = (scanUnits rest).map fun found =>
      ((false, code) :: found.1, found.2) := by
  rw [scanUnits.eq_def]
  split
  · simp_all
  · simp_all
  · simp_all
  · simp_all
  · rename_i heq
    cases heq
    rw [if_neg (by simp [hslash, hspace])]

theorem scanUnits_letter (hletter : letter ≠ 0x75)
    (hback : unescape letter = some code) (rest : Text) :
    scanUnits (0x5c :: letter :: rest) = (scanUnits rest).map fun found =>
      ((false, code) :: found.1, found.2) := by
  rw [scanUnits.eq_def]
  split
  · simp_all
  · simp_all
  · simp_all
  · rename_i heq
    cases heq
    rw [hback]
  · rename_i hother heq
    cases heq
    exact (hother letter rest rfl rfl).elim

/-- The decoder takes in what the encoder has made of a code point. -/
theorem scanUnits_escape (hcode : code < 0x110000) (rest : Text) :
    scanUnits (escape code ++ rest) = (scanUnits rest).map fun found =>
      (units code ++ found.1, found.2) := by
  unfold escape units
  cases hplain : isPlain code with
  | true =>
      obtain ⟨hspace, -, hquote, hslash⟩ := isPlain_iff.mp hplain
      simpa using scanUnits_cons hspace hquote hslash rest
  | false =>
      cases hshort : shortEscape code with
      | some letter =>
          obtain ⟨hback, hletter⟩ := unescape_of_shortEscape hshort
          simpa using scanUnits_letter hletter hback rest
      | none =>
          by_cases hbmp : code < 0x10000
          · simpa [hbmp] using scanUnits_unicodeEscape hbmp rest
          · have hhigh : 0xd800 + (code - 0x10000) / 0x400 < 0x10000 := by omega
            have hlow : 0xdc00 + (code - 0x10000) % 0x400 < 0x10000 := by omega
            simp [hbmp, scanUnits_unicodeEscape hhigh,
              scanUnits_unicodeEscape hlow, Function.comp_def]

end Units

/-! ## Strings -/

/-- A text with each surrogate pair made one code point. -/
def joined : Text → Text
  | [] => []
  | [code] => [code]
  | high :: low :: rest =>
      if isHigh high && isLow low then joinPair high low :: joined rest
      else high :: joined (low :: rest)

/-- No low surrogate follows a high one. -/
def Unpaired (text : Text) : Prop :=
  text.IsChain fun high low => ¬ (isHigh high ∧ isLow low)

section Strings

variable {code : ℕ} {text rest : Text} {marked : Bool}

theorem scanUnits_encode (hcodes : ∀ code ∈ text, code < 0x110000)
    (rest : Text) :
    scanUnits (text.flatMap escape ++ 0x22 :: rest) =
      some (text.flatMap units, rest) := by
  induction text with
  | nil => simp [scanUnits]
  | cons code text ih =>
      have hrest := ih fun other hother => hcodes other (by simp [hother])
      simp only [List.flatMap_cons, List.append_assoc,
        scanUnits_escape (hcodes code (by simp)), hrest, Option.map_some]

/-- A character that begins no pair. -/
theorem joinUnits_cons (hfirst : marked = false ∨ isHigh code = false)
    (found : List (Bool × ℕ)) :
    joinUnits ((marked, code) :: found) = code :: joinUnits found := by
  cases found with
  | nil => rfl
  | cons low found =>
      rw [joinUnits, if_neg]
      rcases hfirst with hfirst | hfirst <;> simp [hfirst]

theorem isHigh_iff : isHigh code = true ↔ 0xd800 ≤ code ∧ code ≤ 0xdbff := by
  simp [isHigh]

theorem isLow_iff : isLow code = true ↔ 0xdc00 ≤ code ∧ code ≤ 0xdfff := by
  simp [isLow]

theorem shortEscape_eq_none (hcode : 0x5d ≤ code) : shortEscape code = none := by
  unfold shortEscape
  split <;> first | omega | rfl

/-- A code point is one unit, marked if it is a surrogate, or a pair. -/
inductive Coded (code : ℕ) : List (Bool × ℕ) → Prop where
  | single {marked : Bool} (hmarked : isHigh code ∨ isLow code → marked = true) :
      Coded code [(marked, code)]
  | pair {high low : ℕ} (hhigh : isHigh high) (hlow : isLow low)
      (hcode : joinPair high low = code) (hplane : isHigh code = false) :
      Coded code [(true, high), (true, low)]

theorem coded_units (hcode : code < 0x110000) : Coded code (units code) := by
  unfold units
  split
  · rename_i hshort
    refine .single fun hsurrogate => ?_
    have hlarge : 0xd800 ≤ code := by
      rcases hsurrogate with h | h
      · exact (isHigh_iff.mp h).1
      · exact Nat.le_trans (by decide) (isLow_iff.mp h).1
    have hplain : isPlain code = false := by
      rw [Bool.eq_false_iff, Ne, isPlain_iff]
      omega
    simp [hplain, shortEscape_eq_none (by omega : 0x5d ≤ code)] at hshort
  · split
    · exact .single fun _ => rfl
    · refine .pair (isHigh_iff.mpr ?_) (isLow_iff.mpr ?_) ?_ ?_
      · omega
      · omega
      · unfold joinPair
        omega
      · rw [Bool.eq_false_iff, Ne, isHigh_iff]
        omega

theorem isLow_eq_false (hhigh : isHigh code) : isLow code = false := by
  rw [Bool.eq_false_iff, Ne, isLow_iff]
  have := isHigh_iff.mp hhigh
  omega

/-- A high surrogate that is followed by no low one. -/
theorem joinUnits_of_not_low {low : ℕ} (hlow : isLow low = false)
    {found : List (Bool × ℕ)} (hcoded : Coded low found)
    (others : List (Bool × ℕ)) :
    joinUnits ((marked, code) :: (found ++ others)) =
      code :: joinUnits (found ++ others) := by
  cases hcoded with
  | single hmarked => simp [joinUnits, hlow]
  | pair hhigh => simp [joinUnits, isLow_eq_false hhigh]

/-- The units of a code point are joined to it, where the next one does not
make a pair of it. -/
theorem joinUnits_coded {found : List (Bool × ℕ)} (hcoded : Coded code found)
    {others : List (Bool × ℕ)} (halone : isHigh code →
      joinUnits ((true, code) :: others) = code :: joinUnits others) :
    joinUnits (found ++ others) = code :: joinUnits others := by
  cases hcoded with
  | @single marked hmarked =>
      cases hhigh : isHigh code with
      | false => exact joinUnits_cons (.inr hhigh) others
      | true =>
          rw [hmarked (.inl hhigh)]
          exact halone hhigh
  | pair hhigh hlow hcode => simp [joinUnits, hhigh, hlow, hcode]

theorem joinUnits_units (hcodes : ∀ code ∈ text, code < 0x110000) :
    joinUnits (text.flatMap units) = joined text := by
  induction text using joined.induct with
  | case1 => rfl
  | case2 code =>
      have hcoded := coded_units (hcodes code (by simp))
      simpa [joinUnits, joined] using
        @joinUnits_coded code _ hcoded [] fun _ => rfl
  | case3 high low rest hpair ih =>
      have hrest := ih fun code hcode => hcodes code (by simp [hcode])
      have hfirst := coded_units (hcodes high (by simp))
      have hsecond := coded_units (hcodes low (by simp))
      obtain ⟨hhigh, hlow⟩ : isHigh high ∧ isLow low := by simpa using hpair
      simp only [List.flatMap_cons, joined, hpair, if_true, ← hrest]
      generalize units high = first at hfirst
      generalize units low = second at hsecond
      cases hfirst with
      | pair _ _ _ hplane => simp [hhigh] at hplane
      | single hmarked =>
          cases hsecond with
          | pair hhigh' _ hcode =>
              have hplane := isLow_iff.mp hlow
              unfold joinPair at hcode
              omega
          | single hmarked' =>
              simp [joinUnits, hmarked (.inl hhigh), hmarked' (.inr hlow), hhigh,
                hlow]
  | case4 high low rest hpair ih =>
      have hrest := ih fun code hcode => hcodes code
        (List.mem_cons_of_mem _ hcode)
      have hfirst := coded_units (hcodes high (by simp))
      have hsecond := coded_units (hcodes low (by simp))
      rw [List.flatMap_cons, joined, if_neg hpair, ← hrest]
      refine joinUnits_coded hfirst fun hhigh => ?_
      rw [List.flatMap_cons]
      exact joinUnits_of_not_low (by simpa [hhigh] using hpair) hsecond _

theorem scanString_encode (hcodes : ∀ code ∈ text, code < 0x110000)
    (rest : Text) :
    scanString (text.flatMap escape ++ 0x22 :: rest) =
      some (joined text, rest) := by
  rw [scanString, scanUnits_encode hcodes, Option.map_some,
    joinUnits_units hcodes]

theorem joined_eq_iff (hcodes : ∀ code ∈ text, code < 0x110000) :
    joined text = text ↔ Unpaired text := by
  induction text using joined.induct with
  | case1 => simp [joined, Unpaired]
  | case2 code => simp [joined, Unpaired]
  | case3 high low rest hpair ih =>
      obtain ⟨hhigh, hlow⟩ : isHigh high ∧ isLow low := by simpa using hpair
      refine iff_of_false (fun heq => ?_) fun hunpaired => ?_
      · rw [joined, if_pos hpair] at heq
        have hcode := (List.cons.inj heq).1
        have hplane := isHigh_iff.mp hhigh
        unfold joinPair at hcode
        omega
      · exact (List.isChain_cons_cons.mp hunpaired).1 ⟨hhigh, hlow⟩
  | case4 high low rest hpair ih =>
      have hrest := ih fun code hcode => hcodes code
        (List.mem_cons_of_mem _ hcode)
      have hfirst : ¬ (isHigh high ∧ isLow low) := by simpa using hpair
      rw [joined, if_neg hpair, List.cons_inj_right, hrest, Unpaired, Unpaired,
        List.isChain_cons_cons]
      exact (and_iff_right hfirst).symm

end Strings

/-! ## Lists -/

section Lists

variable {items : List Text} {first : Text} {rest : Text}

theorem skipSpaces_cons {code : ℕ} (hspace : isSpace code = false)
    (rest : Text) : skipSpaces (code :: rest) = code :: rest := by
  simp [skipSpaces, hspace]

/-- One item, whatever comes after it. -/
theorem scanItems_encodeString (hfirst : ∀ code ∈ first, code < 0x110000)
    (fuel : ℕ) (rest : Text) :
    scanItems (fuel + 1) (encodeString first ++ rest) =
      match skipSpaces rest with
      | 0x5d :: rest => some ([joined first], rest)
      | 0x2c :: rest => (scanItems fuel (skipSpaces rest)).map fun found =>
          (joined first :: found.1, found.2)
      | _ => none := by
  have hscan : scanString (first.flatMap escape ++ 0x22 :: rest) =
      some (joined first, rest) := scanString_encode hfirst rest
  simp only [encodeString, List.cons_append, List.append_assoc, List.nil_append,
    scanItems, hscan]

theorem scanItems_encode (hfirst : ∀ code ∈ first, code < 0x110000)
    (hitems : ∀ item ∈ items, ∀ code ∈ item, code < 0x110000) {fuel : ℕ}
    (hfuel : items.length < fuel) (rest : Text) :
    scanItems fuel (encodeString first ++
        (items.flatMap (fun item => 0x2c :: 0x20 :: encodeString item) ++
          0x5d :: rest)) =
      some ((first :: items).map joined, rest) := by
  obtain ⟨fuel, rfl⟩ := Nat.exists_eq_succ_of_ne_zero (Nat.ne_zero_of_lt hfuel)
  induction items generalizing first fuel with
  | nil =>
      rw [scanItems_encodeString hfirst]
      simp [skipSpaces, isSpace]
  | cons item items ih =>
      obtain ⟨fuel, rfl⟩ := Nat.exists_eq_succ_of_ne_zero
        (Nat.ne_zero_of_lt (Nat.lt_of_succ_lt_succ hfuel))
      have hrest := ih (hitems item (by simp))
        (fun other hother => hitems other (by simp [hother])) fuel
        (Nat.lt_of_succ_lt_succ hfuel)
      have hspaces : ∀ more, skipSpaces (0x20 :: (encodeString item ++ more)) =
          encodeString item ++ more := fun more => by
        simp [skipSpaces, encodeString, isSpace]
      rw [scanItems_encodeString hfirst]
      simp only [List.flatMap_cons, List.cons_append, List.append_assoc,
        skipSpaces_cons (by decide : isSpace 0x2c = false), hspaces, hrest,
        Option.map_some, List.map_cons]

theorem length_lt_length_encode (first : Text) (items : List Text) :
    items.length < (encodeString first ++ (items.flatMap
      (fun item => 0x2c :: 0x20 :: encodeString item) ++ [0x5d])).length := by
  have hitems : items.length ≤ (items.flatMap
      fun item => 0x2c :: 0x20 :: encodeString item).length := by
    induction items with
    | nil => simp
    | cons item items ih =>
        simp only [List.flatMap_cons, List.length_append, List.length_cons]
        omega
  simp only [List.length_append, List.length_cons]
  omega

theorem scanArray_of_quote (rest : Text) : scanArray (0x22 :: rest) =
    scanItems (0x22 :: rest).length (0x22 :: rest) := by
  rw [scanArray, skipSpaces_cons (by decide)]
  rfl

/-- Reading back joins the pairs. -/
theorem loads_dumps_eq
    (hitems : ∀ item ∈ items, ∀ code ∈ item, code < 0x110000) :
    loads (dumps items) = some (items.map joined) := by
  cases items with
  | nil => rfl
  | cons first items =>
      have hscan := scanItems_encode (hitems first (by simp))
        (fun item hitem => hitems item (List.mem_cons_of_mem _ hitem))
        (length_lt_length_encode first items) []
      have harray : scanArray (encodeString first ++ (items.flatMap
          (fun item => 0x2c :: 0x20 :: encodeString item) ++ [0x5d])) =
            some ((first :: items).map joined, []) := by
        rw [← hscan]
        exact scanArray_of_quote _
      rw [loads, dumps, skipSpaces_cons (by decide)]
      simp only [harray]
      rfl

theorem loads_dumps_iff
    (hitems : ∀ item ∈ items, ∀ code ∈ item, code < 0x110000) :
    loads (dumps items) = some items ↔ ∀ item ∈ items, Unpaired item := by
  have hmap : items.map joined = items ↔ ∀ item ∈ items, joined item = item := by
    simpa using @List.map_inj_left _ _ items joined id
  rw [loads_dumps_eq hitems, Option.some.injEq, hmap]
  exact forall₂_congr fun item hitem => joined_eq_iff (hitems item hitem)

/-! ## The characters of a list -/

/-- Printable ASCII. -/
def Printable (text : Text) : Prop := ∀ code ∈ text, 0x20 ≤ code ∧ code ≤ 0x7e

theorem Printable.append {text other : Text} (h : Printable text)
    (hother : Printable other) : Printable (text ++ other) := by
  intro code hcode
  exact (List.mem_append.mp hcode).elim (h code) (hother code)

theorem Printable.flatMap {α : Type*} {list : List α} {write : α → Text}
    (h : ∀ entry ∈ list, Printable (write entry)) :
    Printable (list.flatMap write) := by
  intro code hcode
  obtain ⟨entry, hentry, hcode⟩ := List.mem_flatMap.mp hcode
  exact h entry hentry code hcode

theorem hexDigit_printable {value : ℕ} (hvalue : value < 16) :
    0x20 ≤ hexDigit value ∧ hexDigit value ≤ 0x7e := by
  revert value
  decide

theorem printable_unicodeEscape {unit : ℕ} (hunit : unit < 0x10000) :
    Printable (unicodeEscape unit) := by
  have hdigit : ∀ value, value < 16 →
      0x20 ≤ hexDigit value ∧ hexDigit value ≤ 0x7e :=
    fun _ => hexDigit_printable
  intro code hcode
  simp only [unicodeEscape, List.mem_cons, List.not_mem_nil, or_false] at hcode
  rcases hcode with rfl | rfl | rfl | rfl | rfl | rfl
  · decide
  · decide
  all_goals exact hdigit _ (by omega)

theorem printable_escape {code : ℕ} (hcode : code < 0x110000) :
    Printable (escape code) := by
  unfold escape
  split
  · rename_i hplain
    obtain ⟨hspace, htilde, -⟩ := isPlain_iff.mp hplain
    simpa [Printable] using ⟨hspace, htilde⟩
  · split
    · rename_i letter hshort
      unfold shortEscape at hshort
      split at hshort <;> cases hshort <;> simp [Printable]
    · split
      · exact printable_unicodeEscape ‹_›
      · exact (printable_unicodeEscape (by omega)).append
          (printable_unicodeEscape (by omega))

theorem printable_encodeString (hfirst : ∀ code ∈ first, code < 0x110000) :
    Printable (encodeString first) := by
  have hbody : Printable (first.flatMap escape) :=
    .flatMap fun code hcode => printable_escape (hfirst code hcode)
  have hquote : Printable [0x22] := by simp [Printable]
  exact hquote.append (hbody.append hquote)

theorem printable_dumps
    (hitems : ∀ item ∈ items, ∀ code ∈ item, code < 0x110000) :
    Printable (dumps items) := by
  cases items with
  | nil => simp [Printable, dumps]
  | cons first items =>
      have hopen : Printable [0x5b] := by simp [Printable]
      have hcomma : Printable [0x2c, 0x20] := by simp [Printable]
      have hclose : Printable [0x5d] := by simp [Printable]
      have hrest : Printable (items.flatMap
          fun item => 0x2c :: 0x20 :: encodeString item) :=
        .flatMap fun item hitem => hcomma.append
          (printable_encodeString (hitems item (List.mem_cons_of_mem _ hitem)))
      exact hopen.append ((printable_encodeString (hitems first (by simp))).append
        (hrest.append hclose))

end Lists

end MirrorMirage.Json
