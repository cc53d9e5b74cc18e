/-
# Lines

How `str.splitlines` and the `strip` methods go together. A text either is a line or
begins with one and a line boundary (`lines_induction`), and what is proved about texts
here is proved along that.

`content` gives the lines of a text that are not blank. Stripping the text itself takes
away nothing else than white space at the beginning of the first and at the end of the
last of them (`content_lstrip`, `content_rstrip`).
-/

import Mathlib.Data.List.DropRight
import Apsis.Library.Text

namespace Apsis.Library.Text

/-! ## White space -/

/-- The text is nothing but white space. -/
def IsBlank (text : Text) : Prop := ∀ c ∈ text, isSpace c = true

instance (text : Text) : Decidable (IsBlank text) := inferInstanceAs (Decidable (∀ _ ∈ _, _))

@[simp]
theorem isBlank_nil : IsBlank [] := fun _ hmem => by cases hmem

theorem isBlank_append {first second : Text} :
    IsBlank (first ++ second) ↔ IsBlank first ∧ IsBlank second := by
  simp only [IsBlank, List.mem_append, or_imp, forall_and]

theorem lstrip_eq_nil_iff {text : Text} : lstrip text = [] ↔ IsBlank text :=
  List.dropWhile_eq_nil_iff

theorem rstrip_eq_nil_iff {text : Text} : rstrip text = [] ↔ IsBlank text :=
  List.rdropWhile_eq_nil_iff

theorem lstrip_append {first : Text} (second : Text) (h : ¬ IsBlank first) :
    lstrip (first ++ second) = lstrip first ++ second := by
  rw [lstrip, List.dropWhile_append, if_neg]
  · rfl
  · rw [List.isEmpty_iff]
    exact fun hnil => h (lstrip_eq_nil_iff.mp hnil)

theorem lstrip_append_of_isBlank {first : Text} (second : Text) (h : IsBlank first) :
    lstrip (first ++ second) = lstrip second :=
  List.dropWhile_append_of_pos h

theorem rstrip_append {second : Text} (first : Text) (h : ¬ IsBlank second) :
    rstrip (first ++ second) = first ++ rstrip second := by
  rw [rstrip, List.reverse_append, List.dropWhile_append, if_neg]
  · rw [List.reverse_append, List.reverse_reverse]
    rfl
  · rw [List.isEmpty_iff, List.dropWhile_eq_nil_iff]
    exact fun hall => h fun c hmem => hall c (List.mem_reverse.mpr hmem)

theorem rstrip_append_of_isBlank {second : Text} (first : Text) (h : IsBlank second) :
    rstrip (first ++ second) = rstrip first := by
  rw [rstrip, List.reverse_append, List.dropWhile_append_of_pos]
  · rfl
  · exact fun c hmem => h c (List.mem_reverse.mp hmem)

/-- What `rstrip` takes away. -/
theorem exists_rstrip_append (text : Text) :
    ∃ after, text = rstrip text ++ after ∧ IsBlank after :=
  ⟨text.rtakeWhile isSpace, List.rdropWhile_append_rtakeWhile.symm,
    fun _ hmem => List.mem_rtakeWhile_imp hmem⟩

@[simp]
theorem lstrip_lstrip (text : Text) : lstrip (lstrip text) = lstrip text :=
  List.dropWhile_idempotent isSpace text

@[simp]
theorem rstrip_rstrip (text : Text) : rstrip (rstrip text) = rstrip text :=
  List.rdropWhile_idempotent isSpace text

theorem isBlank_lstrip {text : Text} : IsBlank (lstrip text) ↔ IsBlank text := by
  rw [← lstrip_eq_nil_iff, lstrip_lstrip, lstrip_eq_nil_iff]

theorem isBlank_rstrip {text : Text} : IsBlank (rstrip text) ↔ IsBlank text := by
  rw [← rstrip_eq_nil_iff, rstrip_rstrip, rstrip_eq_nil_iff]

@[simp]
theorem strip_eq_nil_iff {text : Text} : strip text = [] ↔ IsBlank text := by
  rw [strip, rstrip_eq_nil_iff, isBlank_lstrip]

theorem isBlank_strip {text : Text} : IsBlank (strip text) ↔ IsBlank text := by
  rw [strip, isBlank_rstrip, isBlank_lstrip]

@[simp]
theorem strip_lstrip (text : Text) : strip (lstrip text) = strip text := by
  rw [strip, lstrip_lstrip, strip]

@[simp]
theorem strip_rstrip (text : Text) : strip (rstrip text) = strip text := by
  obtain ⟨after, htext, hafter⟩ := exists_rstrip_append text
  by_cases hblank : IsBlank (rstrip text)
  · rw [strip_eq_nil_iff.mpr hblank, strip_eq_nil_iff.mpr (isBlank_rstrip.mp hblank)]
  · calc strip (rstrip text)
        = rstrip (lstrip (rstrip text) ++ after) := (rstrip_append_of_isBlank _ hafter).symm
      _ = strip (rstrip text ++ after) := by rw [strip, lstrip_append after hblank]
      _ = strip text := by rw [← htext]

/-- White space around a text does not count. -/
theorem strip_append_append {before after : Text} (text : Text) (hbefore : IsBlank before)
    (hafter : IsBlank after) : strip (before ++ text ++ after) = strip text := by
  rw [← strip_rstrip, rstrip_append_of_isBlank _ hafter, strip_rstrip, strip,
    lstrip_append_of_isBlank _ hbefore, strip]

/-! ## Line boundaries -/

/-- There is no line boundary in the text. -/
def IsLine (text : Text) : Prop := ∀ c ∈ text, isLineBoundary c = false

instance (text : Text) : Decidable (IsLine text) := inferInstanceAs (Decidable (∀ _ ∈ _, _))

/-- Between a line and the rest of the text stands one line boundary. A carriage return
and a line feed are taken together. -/
inductive IsBreak : Text → Text → Prop
  | pair (rest : Text) : IsBreak ['\r', '\n'] rest
  | single {c : Char} {rest : Text} (hboundary : isLineBoundary c = true)
      (hpair : c = '\r' → rest.head? ≠ some '\n') : IsBreak [c] rest

theorem IsLine.mono {text text' : Text} (h : IsLine text) (hsub : text' ⊆ text) : IsLine text' :=
  fun c hmem => h c (hsub hmem)

theorem IsLine.lstrip {line : Text} (h : IsLine line) : IsLine (lstrip line) :=
  h.mono (List.dropWhile_suffix _).subset

theorem IsLine.rstrip {line : Text} (h : IsLine line) : IsLine (rstrip line) :=
  h.mono (List.rdropWhile_prefix isSpace line).subset

theorem IsLine.strip {line : Text} (h : IsLine line) : IsLine (strip line) :=
  h.lstrip.rstrip

/-- Every line boundary is white space. -/
theorem isSpace_of_isLineBoundary {c : Char} (h : isLineBoundary c = true) :
    isSpace c = true := by
  have hall : ∀ n ∈ [0xa, 0xb, 0xc, 0xd, 0x1c, 0x1d, 0x1e, 0x85, 0x2028, 0x2029],
      isSpace (Char.ofNat n) = true := by
    decide
  rw [isLineBoundary, List.contains_eq_mem, decide_eq_true_eq] at h
  have hspace := hall c.toNat h
  rwa [Char.ofNat_toNat] at hspace

/-- The line boundary stays one when white space is taken away after it. -/
theorem IsBreak.rstrip {ending rest : Text} (h : IsBreak ending rest) :
    IsBreak ending (rstrip rest) := by
  cases h with
  | pair => exact .pair _
  | single hboundary hpair =>
      refine .single hboundary fun hreturn hhead => hpair hreturn ?_
      obtain ⟨after, htext, -⟩ := exists_rstrip_append rest
      rw [htext, List.head?_append, hhead]
      rfl

theorem IsBreak.isBlank {ending rest : Text} (h : IsBreak ending rest) : IsBlank ending := by
  cases h with
  | pair =>
      intro c hmem
      rcases List.mem_cons.mp hmem with rfl | hmem
      · rfl
      · rw [List.mem_singleton.mp hmem]
        rfl
  | single hboundary _ =>
      intro c hmem
      rw [List.mem_singleton.mp hmem]
      exact isSpace_of_isLineBoundary hboundary

/-- A text is a line, or it begins with one and a line boundary. -/
theorem isLine_or_break (text : Text) : IsLine text ∨ ∃ line ending rest,
    text = line ++ (ending ++ rest) ∧ IsLine line ∧ IsBreak ending rest := by
  induction text with
  | nil => exact Or.inl fun c hmem => by cases hmem
  | cons c text ih =>
      by_cases hboundary : isLineBoundary c = true
      · refine Or.inr ?_
        by_cases hpair : c = '\r' ∧ text.head? = some '\n'
        · obtain ⟨rfl, hnext⟩ := hpair
          obtain ⟨rest, rfl⟩ := List.head?_eq_some_iff.mp hnext
          exact ⟨[], _, rest, rfl, fun c hmem => (by cases hmem), .pair rest⟩
        · rw [not_and] at hpair
          exact ⟨[], [c], text, rfl, fun c hmem => (by cases hmem), .single hboundary hpair⟩
      · rw [Bool.not_eq_true] at hboundary
        have hcons : ∀ line, IsLine line → IsLine (c :: line) := by
          intro line hline d hmem
          rcases List.mem_cons.mp hmem with rfl | hmem
          · exact hboundary
          · exact hline d hmem
        rcases ih with hline | ⟨line, ending, rest, rfl, hline, hbreak⟩
        · exact Or.inl (hcons text hline)
        · exact Or.inr ⟨c :: line, ending, rest, rfl, hcons line hline, hbreak⟩

/-- Induction along the lines of a text. -/
theorem lines_induction {P : Text → Prop} (line : ∀ line, IsLine line → P line)
    (next : ∀ line ending rest, IsLine line → IsBreak ending rest → P rest →
      P (line ++ (ending ++ rest))) (text : Text) : P text := by
  induction hlength : text.length using Nat.strong_induction_on generalizing text with
  | _ n ih =>
      rcases isLine_or_break text with hline | ⟨first, ending, rest, rfl, hline, hbreak⟩
      · exact line text hline
      · apply next first ending rest hline hbreak
        apply ih rest.length _ rest rfl
        have hpos : 0 < ending.length := by
          cases hbreak <;> simp
        rw [← hlength, List.length_append, List.length_append]
        lia

/-! ## Splitting -/

theorem splitlinesFrom_line {line : Text} (hline : IsLine line) (acc : Text) :
    splitlinesFrom acc line =
      if (acc.reverse ++ line).isEmpty then [] else [acc.reverse ++ line] := by
  induction line generalizing acc with
  | nil => simp [splitlinesFrom]
  | cons c line ih =>
      have hc : isLineBoundary c = false := hline c List.mem_cons_self
      have hnot : c ≠ '\r' := by
        rintro rfl
        revert hc
        decide
      rw [splitlinesFrom.eq_3 _ _ _ (fun _ hsame _ => hnot hsame), hc]
      simp [ih (hline.mono (List.subset_cons_self c line))]

theorem splitlinesFrom_break {line ending rest : Text} (hline : IsLine line)
    (hbreak : IsBreak ending rest) (acc : Text) :
    splitlinesFrom acc (line ++ (ending ++ rest)) = (acc.reverse ++ line) :: splitlines rest := by
  induction line generalizing acc with
  | nil =>
      cases hbreak with
      | pair => simp [splitlinesFrom, splitlines]
      | @single c _ hboundary hpair =>
          rw [List.nil_append, List.singleton_append, splitlinesFrom.eq_3]
          · simp [hboundary, splitlines]
          · rintro rest' hsame rfl
            exact hpair hsame rfl
  | cons c line ih =>
      have hc : isLineBoundary c = false := hline c List.mem_cons_self
      have hnot : c ≠ '\r' := by
        rintro rfl
        revert hc
        decide
      rw [List.cons_append, splitlinesFrom.eq_3 _ _ _ (fun _ hsame _ => hnot hsame), hc]
      simp [ih (hline.mono (List.subset_cons_self c line))]

/-- A single line, if it is not empty. -/
theorem splitlines_line {line : Text} (hline : IsLine line) :
    splitlines line = if line.isEmpty then [] else [line] := by
  simpa [splitlines] using splitlinesFrom_line hline []

/-- The first line is what stands before the first line boundary. -/
theorem splitlines_break {line ending rest : Text} (hline : IsLine line)
    (hbreak : IsBreak ending rest) :
    splitlines (line ++ (ending ++ rest)) = line :: splitlines rest := by
  simpa [splitlines] using splitlinesFrom_break hline hbreak []

/-- There is no line boundary in a line. -/
theorem isLine_of_mem_splitlines {text line : Text} (hmem : line ∈ splitlines text) :
    IsLine line := by
  induction text using lines_induction with
  | line text hline =>
      rw [splitlines_line hline] at hmem
      split at hmem
      · cases hmem
      · rwa [List.mem_singleton.mp hmem]
  | next first ending rest hline hbreak ih =>
      rw [splitlines_break hline hbreak] at hmem
      rcases List.mem_cons.mp hmem with rfl | hmem
      · exact hline
      · exact ih hmem

/-! ## The lines that are not blank -/

/-- The lines of a text that are not blank. -/
def content (text : Text) : List Text :=
  (splitlines text).filter fun line => !(strip line).isEmpty

theorem content_line {line : Text} (hline : IsLine line) :
    content line = if IsBlank line then [] else [line] := by
  rw [content, splitlines_line hline]
  by_cases hblank : IsBlank line
  · by_cases hempty : line = []
    · simp [hempty]
    · simp [hblank, hempty, List.isEmpty_iff, strip_eq_nil_iff.mpr hblank]
  · have hempty : line ≠ [] := by
      rintro rfl
      exact hblank isBlank_nil
    have hstrip : strip line ≠ [] := fun hnil => hblank (strip_eq_nil_iff.mp hnil)
    simp [hblank, hempty, hstrip, List.isEmpty_iff]

theorem content_break {line ending rest : Text} (hline : IsLine line)
    (hbreak : IsBreak ending rest) : content (line ++ (ending ++ rest)) =
      if IsBlank line then content rest else line :: content rest := by
  rw [content, splitlines_break hline hbreak, List.filter_cons]
  by_cases hblank : IsBlank line
  · rw [strip_eq_nil_iff.mpr hblank, if_pos hblank]
    rfl
  · have hstrip : strip line ≠ [] := fun hnil => hblank (strip_eq_nil_iff.mp hnil)
    simp [hblank, hstrip, content]

theorem isLine_of_mem_content {text line : Text} (hmem : line ∈ content text) : IsLine line :=
  isLine_of_mem_splitlines (List.mem_filter.mp hmem).1

theorem not_isBlank_of_mem_content {text line : Text} (hmem : line ∈ content text) :
    ¬ IsBlank line := by
  intro hblank
  have hstrip := (List.mem_filter.mp hmem).2
  rw [strip_eq_nil_iff.mpr hblank] at hstrip
  cases hstrip

/-- A text without such lines is blank. -/
theorem content_eq_nil_iff {text : Text} : content text = [] ↔ IsBlank text := by
  induction text using lines_induction with
  | line line hline =>
      rw [content_line hline]
      by_cases hblank : IsBlank line <;> simp [hblank]
  | next line ending rest hline hbreak ih =>
      rw [content_break hline hbreak, isBlank_append, isBlank_append]
      by_cases hblank : IsBlank line
      · simp [hblank, ih, hbreak.isBlank]
      · simp [hblank]

/-- White space before a text is taken from its first line, after the blank ones. -/
theorem content_lstrip (text : Text) :
    content (lstrip text) = (content text).modifyHead lstrip := by
  induction text using lines_induction with
  | line line hline =>
      rw [content_line hline, content_line hline.lstrip]
      by_cases hblank : IsBlank line
      · rw [if_pos (isBlank_lstrip.mpr hblank), if_pos hblank]
        rfl
      · rw [if_neg (mt isBlank_lstrip.mp hblank), if_neg hblank]
        rfl
  | next line ending rest hline hbreak ih =>
      rw [content_break hline hbreak]
      by_cases hblank : IsBlank line
      · rw [lstrip_append_of_isBlank _ hblank, lstrip_append_of_isBlank _ hbreak.isBlank,
          if_pos hblank, ih]
      · rw [lstrip_append _ hblank, content_break hline.lstrip hbreak, if_neg hblank,
          if_neg (mt isBlank_lstrip.mp hblank)]
        rfl

/-- White space after a text is taken from the end of its last line, before the blank
ones. -/
theorem content_rstrip (text : Text) :
    (content (rstrip text)).map rstrip = (content text).map rstrip := by
  induction text using lines_induction with
  | line line hline =>
      rw [content_line hline, content_line hline.rstrip]
      by_cases hblank : IsBlank line
      · rw [if_pos (isBlank_rstrip.mpr hblank), if_pos hblank]
      · rw [if_neg (mt isBlank_rstrip.mp hblank), if_neg hblank]
        simp
  | next line ending rest hline hbreak ih =>
      by_cases hrest : IsBlank rest
      · -- The line is the last one that is not blank.
        have hall : IsBlank (ending ++ rest) := isBlank_append.mpr ⟨hbreak.isBlank, hrest⟩
        rw [rstrip_append_of_isBlank _ hall, content_break hline hbreak,
          content_eq_nil_iff.mpr hrest, content_line hline.rstrip]
        by_cases hblank : IsBlank line
        · rw [if_pos (isBlank_rstrip.mpr hblank), if_pos hblank]
        · rw [if_neg (mt isBlank_rstrip.mp hblank), if_neg hblank]
          simp
      · have htail : ¬ IsBlank (ending ++ rest) := fun hall => hrest (isBlank_append.mp hall).2
        have hbreak' : IsBreak ending (rstrip rest) := hbreak.rstrip
        rw [rstrip_append _ htail, rstrip_append _ hrest, content_break hline hbreak,
          content_break hline hbreak']
        by_cases hblank : IsBlank line
        · rw [if_pos hblank, if_pos hblank, ih]
        · rw [if_neg hblank, if_neg hblank, List.map_cons, List.map_cons, ih]

end Apsis.Library.Text
