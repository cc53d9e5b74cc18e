/-
# Splitting URLs

`str.partition`, `str.rpartition` and `urllib.parse.urlsplit`. What the latter takes for the
authority goes up to the first slash, question mark or number sign. Tabs and line breaks are
removed from a URL before it is split, which makes no difference to where it is.
-/

import Mathlib.Data.List.TakeWhile
import Apsis.Library.Text

namespace Apsis.Library.Url

/-! ## Separators -/

/-- `text.partition(separator)`, without the separator. -/
def partition (separator : Char) (text : Text) : Text × Text :=
  (text.takeWhile fun c => decide (c ≠ separator),
    (text.dropWhile fun c => decide (c ≠ separator)).tail)

/-- `text.rpartition(separator)`, without the separator. -/
def rpartition (separator : Char) (text : Text) : Text × Text :=
  ((text.reverse.dropWhile fun c => decide (c ≠ separator)).tail.reverse,
    (text.reverse.takeWhile fun c => decide (c ≠ separator)).reverse)

section Separators

variable {separator : Char} {before after : Text}

theorem takeWhile_append_cons {p : Char → Bool} (hbefore : ∀ c ∈ before, p c = true)
    (hstop : p separator = false) :
    (before ++ separator :: after).takeWhile p = before := by
  rw [List.takeWhile_append_of_pos hbefore, List.takeWhile_cons_of_neg (by simp [hstop]),
    List.append_nil]

theorem dropWhile_append_cons {p : Char → Bool} (hbefore : ∀ c ∈ before, p c = true)
    (hstop : p separator = false) :
    (before ++ separator :: after).dropWhile p = separator :: after := by
  rw [List.dropWhile_append_of_pos hbefore, List.dropWhile_cons_of_neg (by simp [hstop])]

theorem partition_append (h : separator ∉ before) :
    partition separator (before ++ separator :: after) = (before, after) := by
  have hbefore : ∀ c ∈ before, decide (c ≠ separator) = true := fun c hmem =>
    decide_eq_true fun hsame => h (hsame ▸ hmem)
  rw [partition, takeWhile_append_cons hbefore (by simp), dropWhile_append_cons hbefore (by simp),
    List.tail_cons]

theorem partition_of_notMem (h : separator ∉ before) :
    partition separator before = (before, []) := by
  have hbefore : ∀ c ∈ before, decide (c ≠ separator) = true := fun c hmem =>
    decide_eq_true fun hsame => h (hsame ▸ hmem)
  rw [partition, List.takeWhile_eq_self_iff.mpr hbefore, List.dropWhile_eq_nil_iff.mpr hbefore,
    List.tail_nil]

theorem rpartition_append (h : separator ∉ after) :
    rpartition separator (before ++ separator :: after) = (before, after) := by
  have hparts : partition separator (after.reverse ++ separator :: before.reverse) =
      (after.reverse, before.reverse) := partition_append (by simpa using h)
  rw [partition, Prod.mk.injEq] at hparts
  have hreverse : (before ++ separator :: after).reverse =
      after.reverse ++ separator :: before.reverse := by simp
  rw [rpartition, hreverse, hparts.1, hparts.2, List.reverse_reverse, List.reverse_reverse]

theorem rpartition_of_notMem (h : separator ∉ after) :
    rpartition separator after = ([], after) := by
  have hparts : partition separator after.reverse = (after.reverse, []) :=
    partition_of_notMem (by simpa using h)
  rw [partition, Prod.mk.injEq] at hparts
  rw [rpartition, hparts.1, hparts.2, List.reverse_nil, List.reverse_reverse]

/-- The last separator. -/
theorem exists_append_of_mem {text : Text} (h : separator ∈ text) :
    ∃ before after, text = before ++ separator :: after ∧ separator ∉ after := by
  obtain ⟨after, before, hreverse, hnot⟩ :=
    List.eq_append_cons_of_mem (List.mem_reverse.mpr h)
  refine ⟨before.reverse, after.reverse, ?_, by simpa using hnot⟩
  rw [← List.reverse_reverse text, hreverse]
  simp

end Separators

/-! ## The parts of a URL -/

/-- The authority ends here. -/
def isDelimiter (c : Char) : Bool := c = '/' || c = '?' || c = '#'

/-- Tabs and line breaks. -/
def isUnsafe (c : Char) : Bool := c = '\t' || c = '\r' || c = '\n'

/-- A URL without the characters that are removed from it. -/
def cleaned (url : Text) : Text := url.filter fun c => !isUnsafe c

/-- The text up to the first delimiter. -/
def authority (text : Text) : Text := text.takeWhile fun c => !isDelimiter c

/-- The text from the first delimiter on. -/
def beyond (text : Text) : Text := text.dropWhile fun c => !isDelimiter c

structure SplitResult where
  scheme : Text
  netloc : Text
  path : Text
  query : Text
  fragment : Text
  deriving DecidableEq

/-- The scheme in small letters, and what follows the colon. -/
def splitScheme (url : Text) : Text × Text :=
  let scheme := url.takeWhile fun c => decide (c ≠ ':')
  match scheme, url.dropWhile fun c => decide (c ≠ ':') with
  | first :: _, _ :: rest =>
      if first.isAlpha && scheme.all fun c => c.isAlphanum || c = '+' || c = '-' || c = '.' then
        (scheme.map Char.toLower, rest)
      else ([], url)
  | _, _ => ([], url)

/-- The authority, if there is one, and what follows it. -/
def splitNetloc : Text → Text × Text
  | '/' :: '/' :: rest => (authority rest, beyond rest)
  | url => ([], url)

/-- The path, the query and the fragment. -/
def splitPath (url : Text) : Text × Text × Text :=
  let (url, fragment) := partition '#' url
  let (path, query) := partition '?' url
  (path, query, fragment)

/-- `urllib.parse.urlsplit(url)`; `none` is the `ValueError`. What it demands of the brackets
and of the normalized characters of an authority is a parameter. -/
def urlsplit (checkNetloc : Text → Bool) (url : Text) : Option SplitResult :=
  let (scheme, url) := splitScheme (cleaned (url.dropWhile fun c => decide (c.toNat ≤ 0x20)))
  let (netloc, url) := splitNetloc url
  let (path, query, fragment) := splitPath url
  if checkNetloc netloc then some ⟨scheme, netloc, path, query, fragment⟩ else none

section Parts

variable {text : Text}

@[simp]
theorem authority_append_beyond (text : Text) : authority text ++ beyond text = text :=
  List.takeWhile_append_dropWhile

theorem isDelimiter_of_mem_authority {c : Char} (h : c ∈ authority text) :
    isDelimiter c = false := by
  simpa using List.mem_takeWhile_imp h

@[simp]
theorem cleaned_append (first second : Text) :
    cleaned (first ++ second) = cleaned first ++ cleaned second := List.filter_append ..

theorem cleaned_cons {c : Char} (h : isUnsafe c = false) (text : Text) :
    cleaned (c :: text) = c :: cleaned text := List.filter_cons_of_pos (by simp [h])

theorem mem_cleaned {c : Char} : c ∈ cleaned text ↔ c ∈ text ∧ isUnsafe c = false := by
  simp [cleaned]

theorem length_cleaned_le (text : Text) : (cleaned text).length ≤ text.length :=
  List.length_filter_le ..

theorem cleaned_eq_self (h : ∀ c ∈ text, isUnsafe c = false) : cleaned text = text :=
  List.filter_eq_self.mpr fun c hmem => by simp [h c hmem]

/-- No delimiter is removed. -/
theorem isUnsafe_of_isDelimiter {c : Char} (h : isDelimiter c = true) : isUnsafe c = false := by
  simp only [isDelimiter, Bool.or_eq_true, decide_eq_true_eq] at h
  rcases h with (rfl | rfl) | rfl <;> decide

theorem isUnsafe_or_not_isDelimiter :
    (fun c => !!isUnsafe c || !isDelimiter c) = fun c => !isDelimiter c := by
  ext c
  cases hdelimiter : isDelimiter c with
  | false => simp
  | true => simp [isUnsafe_of_isDelimiter hdelimiter]

/-- It makes no difference whether a text is cleaned before it is split. -/
theorem authority_cleaned (text : Text) : authority (cleaned text) = cleaned (authority text) := by
  rw [authority, cleaned, List.takeWhile_filter, isUnsafe_or_not_isDelimiter]
  rfl

theorem beyond_cleaned (text : Text) : beyond (cleaned text) = cleaned (beyond text) := by
  rw [beyond, cleaned, List.dropWhile_filter, isUnsafe_or_not_isDelimiter]
  rfl

section Split

variable {before after : Text} {separator : Char} (hbefore : ∀ c ∈ before, isDelimiter c = false)
include hbefore

theorem authority_append_cons (hsep : isDelimiter separator = false) :
    authority (before ++ separator :: after) = before ++ separator :: authority after := by
  rw [authority, List.takeWhile_append_of_pos (by simpa using hbefore),
    List.takeWhile_cons_of_pos (by simp [hsep])]
  rfl

theorem beyond_append_cons (hsep : isDelimiter separator = false) :
    beyond (before ++ separator :: after) = beyond after := by
  rw [beyond, List.dropWhile_append_of_pos (by simpa using hbefore),
    List.dropWhile_cons_of_pos (by simp [hsep])]
  rfl

theorem authority_append_delimiter (hdelimiter : isDelimiter separator = true) :
    authority (before ++ separator :: after) = before :=
  takeWhile_append_cons (by simpa using hbefore) (by simp [hdelimiter])

end Split

/-- What is beyond a delimiter is not in the authority. -/
theorem mem_of_mem_authority {before after : Text} {delimiter c : Char}
    (hdelimiter : isDelimiter delimiter = true)
    (h : c ∈ authority (before ++ delimiter :: after)) : c ∈ before := by
  induction before with
  | nil =>
      rw [authority, List.nil_append, List.takeWhile_cons_of_neg (by simp [hdelimiter])] at h
      cases h
  | cons first before ih =>
      rw [authority, List.cons_append, List.takeWhile_cons] at h
      split at h
      · rcases List.mem_cons.mp h with rfl | hmem
        · exact List.mem_cons_self
        · exact List.mem_cons_of_mem first (ih hmem)
      · cases h

/-- Where the authority of a text ends that has a delimiter. -/
theorem exists_delimiter {c : Char} (hmem : c ∈ text) (hdelimiter : isDelimiter c = true) :
    ∃ delimiter after, text = authority text ++ delimiter :: after ∧
      isDelimiter delimiter = true := by
  cases hbeyond : beyond text with
  | nil =>
      have hall := authority_append_beyond text
      rw [hbeyond, List.append_nil] at hall
      rw [← hall] at hmem
      rw [isDelimiter_of_mem_authority hmem] at hdelimiter
      cases hdelimiter
  | cons delimiter after =>
      refine ⟨delimiter, after, by rw [← hbeyond, authority_append_beyond], ?_⟩
      have hhead := List.head?_dropWhile_not (fun c => !isDelimiter c) text
      unfold beyond at hbeyond
      rw [hbeyond] at hhead
      simpa using hhead

theorem urlsplit_postgresql (checkNetloc : Text → Bool) (text : Text) :
    urlsplit checkNetloc ("postgresql://".toList ++ text) =
      if checkNetloc (cleaned (authority text)) then
        some ⟨"postgresql".toList, cleaned (authority text),
          (splitPath (cleaned (beyond text))).1, (splitPath (cleaned (beyond text))).2.1,
          (splitPath (cleaned (beyond text))).2.2⟩
      else none := by
  have hcleaned : cleaned (("postgresql://".toList ++ text).dropWhile fun c =>
      decide (c.toNat ≤ 0x20)) = "postgresql://".toList ++ cleaned text := rfl
  have hscheme : splitScheme ("postgresql://".toList ++ cleaned text) =
      ("postgresql".toList, '/' :: '/' :: cleaned text) := rfl
  simp only [urlsplit, hcleaned, hscheme, splitNetloc, authority_cleaned, beyond_cleaned]

end Parts

end Apsis.Library.Url
