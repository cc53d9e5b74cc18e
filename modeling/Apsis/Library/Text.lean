/-
# Text

A Python string is a sequence of code points. It is modelled as a list of
characters, so that slicing, searching and comparing are the list operations of
the same name and every function on text can be evaluated. The methods of `str`
and the conversion `int` follow the language reference, with the tables of
Unicode 16.
-/

import Mathlib.Data.Int.Notation
import Mathlib.Data.List.Basic

namespace Apsis.Library

/-- A string, as the sequence of its code points. -/
abbrev Text := List Char

namespace Text

/-- U+0000, the one code point that PostgreSQL stores in no text column. -/
def nul : Char := Char.ofNat 0

/-- Whether a string contains U+0000. -/
def hasNul (text : Text) : Bool := text.contains nul

@[simp]
theorem hasNul_append (first second : Text) :
    hasNul (first ++ second) = (hasNul first || hasNul second) := by
  simp [hasNul]

/-- A joined text contains U+0000 exactly if one of its parts does. -/
theorem hasNul_intercalate {separator : Text} (hsep : hasNul separator = false)
    (parts : List Text) :
    hasNul (List.intercalate separator parts) = parts.any hasNul := by
  induction parts with
  | nil => rfl
  | cons part parts ih =>
      cases parts with
      | nil => simp
      | cons next parts =>
          rw [List.intercalate_cons_cons, hasNul_append, hasNul_append, hsep, ih]
          simp

/-- `text[:n]` -/
def firstChars (n : ℕ) (text : Text) : Text := text.take n

/-- `text[start:stop]` -/
def slice (start stop : ℕ) (text : Text) : Text := (text.take stop).drop start

/-- `text[-n:]`, for positive `n`. -/
def lastChars (n : ℕ) (text : Text) : Text := text.drop (text.length - n)

theorem hasNul_firstChars {n : ℕ} {text : Text} (h : hasNul text = false) :
    hasNul (firstChars n text) = false := by
  simp only [hasNul, List.contains_eq_mem, decide_eq_false_iff_not] at h ⊢
  exact fun hmem => h (List.mem_of_mem_take hmem)

/-! ## White space and lines -/

/-- `str.isspace`, for one character. -/
def isSpace (c : Char) : Bool :=
  [0x9, 0xa, 0xb, 0xc, 0xd, 0x1c, 0x1d, 0x1e, 0x1f, 0x20, 0x85, 0xa0, 0x1680, 0x2000, 0x2001,
    0x2002, 0x2003, 0x2004, 0x2005, 0x2006, 0x2007, 0x2008, 0x2009, 0x200a, 0x2028, 0x2029,
    0x202f, 0x205f, 0x3000].contains c.toNat

/-- The characters at which `str.splitlines` ends a line. -/
def isLineBoundary (c : Char) : Bool :=
  [0xa, 0xb, 0xc, 0xd, 0x1c, 0x1d, 0x1e, 0x85, 0x2028, 0x2029].contains c.toNat

/-- `str.lstrip` -/
def lstrip (text : Text) : Text := text.dropWhile isSpace

/-- `str.rstrip` -/
def rstrip (text : Text) : Text := (text.reverse.dropWhile isSpace).reverse

/-- `str.strip` -/
def strip (text : Text) : Text := rstrip (lstrip text)

/-- The lines of the rest of a text, the first of which has begun with `line`,
in reverse. A carriage return and a line feed are one boundary. -/
def splitlinesFrom (line : Text) : Text → List Text
  | [] => if line.isEmpty then [] else [line.reverse]
  | '\r' :: '\n' :: rest => line.reverse :: splitlinesFrom [] rest
  | c :: rest =>
      if isLineBoundary c then line.reverse :: splitlinesFrom [] rest
      else splitlinesFrom (c :: line) rest

/-- `str.splitlines` -/
def splitlines (text : Text) : List Text := splitlinesFrom [] text

/-- `text.startswith(start)` -/
def startswith (text start : Text) : Bool := start.isPrefixOf text

/-! ## Numbers -/

/-- The decimal digits zero of all scripts; the other nine follow each. -/
def decimalZeros : List ℕ :=
  [0x30, 0x660, 0x6f0, 0x7c0, 0x966, 0x9e6, 0xa66, 0xae6, 0xb66, 0xbe6, 0xc66, 0xce6, 0xd66,
    0xde6, 0xe50, 0xed0, 0xf20, 0x1040, 0x1090, 0x17e0, 0x1810, 0x1946, 0x19d0, 0x1a80, 0x1a90,
    0x1b50, 0x1bb0, 0x1c40, 0x1c50, 0xa620, 0xa8d0, 0xa900, 0xa9d0, 0xa9f0, 0xaa50, 0xabf0,
    0xff10, 0x104a0, 0x10d30, 0x10d40, 0x11066, 0x110f0, 0x11136, 0x111d0, 0x112f0, 0x11450,
    0x114d0, 0x11650, 0x116c0, 0x116d0, 0x116da, 0x11730, 0x118e0, 0x11950, 0x11bf0, 0x11c50,
    0x11d50, 0x11da0, 0x11f50, 0x16130, 0x16a60, 0x16ac0, 0x16b50, 0x16d70, 0x1ccf0, 0x1d7ce,
    0x1d7d8, 0x1d7e2, 0x1d7ec, 0x1d7f6, 0x1e140, 0x1e2f0, 0x1e4f0, 0x1e5f1, 0x1e950, 0x1fbf0]

/-- The value of a decimal digit of any script. -/
def decimalValue (c : Char) : Option ℕ :=
  (decimalZeros.find? fun base => decide (base ≤ c.toNat ∧ c.toNat < base + 10)).map
    fun base => c.toNat - base

/-- White space as `int` sees it: that of ASCII without the four separators, and
any beyond ASCII. -/
def isIntSpace (c : Char) : Bool :=
  isSpace c && !(decide (0x1c ≤ c.toNat) && decide (c.toNat ≤ 0x1f))

/-- The number whose digits so far make up `value`. Two digits may have one
underscore between them. -/
def digitsFrom (value : ℕ) : Text → Option ℕ
  | [] => some value
  | '_' :: c :: rest => (decimalValue c).bind fun digit => digitsFrom (10 * value + digit) rest
  | c :: rest => (decimalValue c).bind fun digit => digitsFrom (10 * value + digit) rest

/-- A sequence of digits, the first of which is no underscore. -/
def digits : Text → Option ℕ
  | [] => none
  | c :: rest => (decimalValue c).bind fun digit => digitsFrom digit rest

/-- `int(text)`, in base ten; `none` is the `ValueError`. -/
def toInt (text : Text) : Option ℤ :=
  match ((text.dropWhile isIntSpace).reverse.dropWhile isIntSpace).reverse with
  | '+' :: rest => (digits rest).map fun value => (value : ℤ)
  | '-' :: rest => (digits rest).map fun value => -(value : ℤ)
  | unsigned => (digits unsigned).map fun value => (value : ℤ)

end Text

end Apsis.Library
