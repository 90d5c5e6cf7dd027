import Mathlib.Data.List.Basic

/-!
# `repr` of a text

How Python writes a `str` as a literal.  Which characters are printable, from
the Unicode tables, is a parameter.
-/

namespace MirrorMirage.Stdlib

def backslash : Char := Char.ofNat 0x5c
def apostrophe : Char := Char.ofNat 0x27
def quotationMark : Char := Char.ofNat 0x22

/-- A number in hexadecimal digits, filled up with zeros. -/
def hexDigits (width value : ℕ) : List Char :=
  let digits := Nat.toDigits 16 value
  List.replicate (width - digits.length) '0' ++ digits

def reprChar (isPrintable : Char → Bool) (quote char : Char) : List Char :=
  if char = quote || char = backslash then [backslash, char]
  else if char = '\t' then [backslash, 't']
  else if char = '\n' then [backslash, 'n']
  else if char = '\r' then [backslash, 'r']
  else if isPrintable char then [char]
  else if char.toNat < 0x100 then backslash :: 'x' :: hexDigits 2 char.toNat
  else if char.toNat < 0x10000 then backslash :: 'u' :: hexDigits 4 char.toNat
  else backslash :: 'U' :: hexDigits 8 char.toNat

/-- The quote is an apostrophe, unless the text has one and no quotation
mark. -/
def reprQuote (text : List Char) : Char :=
  if text.contains apostrophe && !text.contains quotationMark then quotationMark
  else apostrophe

def reprText (isPrintable : Char → Bool) (text : String) : String :=
  let quote := reprQuote text.toList
  String.ofList (quote :: text.toList.flatMap (reprChar isPrintable quote) ++
    [quote])

end MirrorMirage.Stdlib
