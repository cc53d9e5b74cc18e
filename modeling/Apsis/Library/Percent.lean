/-
# Percent-decoding

`urllib.parse.unquote`. A percent sign with two hexadecimal digits stands for a byte, every
other character for itself. The bytes are read as UTF-8, and where they are none, the longest
part that might have become a character is replaced by U+FFFD. A character that stands for
itself ends the sequence before it, so no byte is taken together with one beyond it.

What is decoded can be compared by its length, and this also when characters that are no part
of an escape are left out: this may bring about new escapes, but it undoes none, and what is
decoded gets shorter by as many characters at least.
-/

import Mathlib.Data.List.Count
import Apsis.Library.Text

namespace Apsis.Library.Percent

/-! ## Escapes -/

/-- The value of a hexadecimal digit. -/
def hexValue (c : Char) : Option ℕ :=
  if 0x30 ≤ c.toNat ∧ c.toNat ≤ 0x39 then some (c.toNat - 0x30)
  else if 0x41 ≤ c.toNat ∧ c.toNat ≤ 0x46 then some (c.toNat - 0x37)
  else if 0x61 ≤ c.toNat ∧ c.toNat ≤ 0x66 then some (c.toNat - 0x57)
  else none

/-- The byte that two hexadecimal digits stand for. -/
def byteOf (high low : Char) : Option ℕ :=
  (hexValue high).bind fun first => (hexValue low).map fun second => 16 * first + second

/-- What a text consists of. -/
inductive Token
  | byte (value : ℕ)
  | char (c : Char)
  deriving DecidableEq

/-- The text with its escapes read. -/
def tokens : Text → List Token
  | '%' :: high :: low :: rest =>
      match byteOf high low with
      | some value => .byte value :: tokens rest
      | none => .char '%' :: tokens (high :: low :: rest)
  | c :: rest => .char c :: tokens rest
  | [] => []

/-- The character is no part of an escape. -/
def IsPlain (c : Char) : Prop := c ≠ '%' ∧ hexValue c = none

instance (c : Char) : Decidable (IsPlain c) := inferInstanceAs (Decidable (_ ∧ _))

theorem tokens_escape {high low : Char} {value : ℕ} (h : byteOf high low = some value)
    (rest : Text) : tokens ('%' :: high :: low :: rest) = .byte value :: tokens rest := by
  rw [tokens, h]

/-- No escape begins with the first character. -/
def StandsForItself (c : Char) (rest : Text) : Prop :=
  c = '%' → ∀ high low rest', rest = high :: low :: rest' → byteOf high low = none

theorem tokens_char {c : Char} {rest : Text} (h : StandsForItself c rest) :
    tokens (c :: rest) = .char c :: tokens rest := by
  rw [tokens.eq_def]
  split
  · next heq =>
      cases heq
      rw [h rfl _ _ _ rfl]
  · next heq =>
      cases heq
      rfl
  · next heq => cases heq

theorem tokens_cons_of_ne {c : Char} (hne : c ≠ '%') (rest : Text) :
    tokens (c :: rest) = .char c :: tokens rest :=
  tokens_char fun heq => absurd heq hne

/-- A text is read from the left, an escape at a time or a character. -/
@[elab_as_elim]
theorem escape_induction {motive : Text → Prop} (nil : motive [])
    (escape : ∀ high low value rest, byteOf high low = some value → motive rest →
      motive ('%' :: high :: low :: rest))
    (char : ∀ c rest, StandsForItself c rest → motive rest → motive (c :: rest))
    (text : Text) : motive text := by
  induction text using tokens.induct with
  | case1 high low rest value hbyte ih => exact escape high low value rest hbyte ih
  | case2 high low rest hbyte ih =>
      refine char _ _ (fun _ _ _ _ heq => ?_) ih
      cases heq
      exact hbyte
  | case3 c rest hchar ih =>
      exact char c rest (fun hpercent high low rest' heq =>
        (hchar high low rest' hpercent heq).elim) ih
  | case4 => exact nil

theorem hexValue_of_byteOf {high low : Char} {value : ℕ} (h : byteOf high low = some value) :
    hexValue high ≠ none ∧ hexValue low ≠ none := by
  unfold byteOf at h
  constructor
  · intro hnone
    rw [hnone] at h
    cases h
  · intro hnone
    rw [hnone] at h
    cases hhigh : hexValue high <;> rw [hhigh] at h <;> cases h

theorem ne_percent_of_hexValue {c : Char} (h : hexValue c ≠ none) : c ≠ '%' := by
  rintro rfl
  exact h (by decide)

/-- A plain character separates what is before it from what is after it. -/
theorem tokens_append {c : Char} (hplain : IsPlain c) (before after : Text) :
    tokens (before ++ c :: after) = tokens before ++ .char c :: tokens after := by
  induction before using escape_induction with
  | nil => exact tokens_cons_of_ne hplain.1 after
  | escape high low value rest hbyte ih =>
      rw [tokens_escape hbyte, List.cons_append, List.cons_append, List.cons_append,
        tokens_escape hbyte, ih, List.cons_append]
  | char first rest hfirst ih =>
      rw [tokens_char hfirst, List.cons_append, List.cons_append, tokens_char, ih]
      intro hpercent high low rest' heq
      by_contra hnone
      obtain ⟨value, hbyte⟩ := Option.ne_none_iff_exists'.mp hnone
      obtain ⟨hhigh, hlow⟩ := hexValue_of_byteOf hbyte
      match rest, heq with
      | [], heq =>
          cases heq
          exact hhigh hplain.2
      | [_], heq =>
          cases heq
          exact hlow hplain.2
      | _ :: _ :: more, heq =>
          cases heq
          exact hnone (hfirst hpercent _ _ _ rfl)

/-! ## UTF-8 -/

/-- U+FFFD -/
def replacement : Char := Char.ofNat 0xfffd

/-- The beginning of a character that takes more than one byte. -/
structure Pending where
  value : ℕ
  /-- How many bytes there are after the next one. -/
  more : ℕ
  /-- The bounds of the next byte. -/
  low : ℕ
  high : ℕ
  continuation : 0x80 ≤ low ∧ high ≤ 0xbf
  /-- The character will not be one of ASCII. -/
  large : 0x80 ≤ value * 64 + (low - 0x80) ∨ (0 < more ∧ 2 ≤ value * 64 + (low - 0x80))

/-- A byte at which a character begins. -/
def start (byte : ℕ) : Text × Option Pending :=
  if byte < 0x80 then ([Char.ofNat byte], none)
  else if _ : 0xc2 ≤ byte ∧ byte ≤ 0xdf then
    ([], some ⟨byte - 0xc0, 0, 0x80, 0xbf, by lia, by lia⟩)
  else if byte = 0xe0 then ([], some ⟨0, 1, 0xa0, 0xbf, by lia, by lia⟩)
  else if byte = 0xed then ([], some ⟨0xd, 1, 0x80, 0x9f, by lia, by lia⟩)
  else if _ : 0xe1 ≤ byte ∧ byte ≤ 0xef then
    ([], some ⟨byte - 0xe0, 1, 0x80, 0xbf, by lia, by lia⟩)
  else if byte = 0xf0 then ([], some ⟨0, 2, 0x90, 0xbf, by lia, by lia⟩)
  else if byte = 0xf4 then ([], some ⟨4, 2, 0x80, 0x8f, by lia, by lia⟩)
  else if _ : 0xf1 ≤ byte ∧ byte ≤ 0xf3 then
    ([], some ⟨byte - 0xf0, 2, 0x80, 0xbf, by lia, by lia⟩)
  else ([replacement], none)

/-- The characters that a byte completes, and what is begun after it. -/
def step : Option Pending → ℕ → Text × Option Pending
  | none, byte => start byte
  | some pending, byte =>
      if h : pending.low ≤ byte ∧ byte ≤ pending.high then
        match hmore : pending.more with
        | 0 => ([Char.ofNat (pending.value * 64 + (byte - 0x80))], none)
        | more + 1 =>
            ([], some ⟨pending.value * 64 + (byte - 0x80), more, 0x80, 0xbf, by lia, by
              have hlarge := pending.large
              have hlow := pending.continuation
              lia⟩)
      else (replacement :: (start byte).1, (start byte).2)

/-- No character begins at a continuation byte. -/
theorem start_continuation {byte : ℕ} (hlow : 0x80 ≤ byte) (hhigh : byte ≤ 0xbf) :
    start byte = ([replacement], none) := by
  unfold start
  rw [if_neg (by lia), dif_neg (by lia), if_neg (by lia), if_neg (by lia), dif_neg (by lia),
    if_neg (by lia), if_neg (by lia), dif_neg (by lia)]

/-- What has been begun does not become a character. -/
def flush : Option Pending → Text
  | none => []
  | some _ => [replacement]

def render : Option Pending → List Token → Text
  | pending, [] => flush pending
  | pending, .char c :: rest => flush pending ++ c :: render none rest
  | pending, .byte value :: rest =>
      (step pending value).1 ++ render (step pending value).2 rest

/-- `unquote(text)` -/
def unquote (text : Text) : Text := render none (tokens text)

@[simp]
theorem unquote_nil : unquote [] = [] := rfl

/-! ## What is decoded -/

theorem render_append {c : Char} (pending : Option Pending) (before after : List Token) :
    render pending (before ++ .char c :: after) =
      render pending before ++ c :: render none after := by
  induction before generalizing pending with
  | nil => rfl
  | cons token before ih =>
      cases token with
      | byte value => simp only [List.cons_append, render, ih, List.append_assoc]
      | char first => simp only [List.cons_append, render, ih, List.append_assoc]

theorem unquote_append {c : Char} (hplain : IsPlain c) (before after : Text) :
    unquote (before ++ c :: after) = unquote before ++ c :: unquote after := by
  rw [unquote, tokens_append hplain, render_append, unquote, unquote]

/-- What has been begun adds at most one character. -/
theorem length_render_some_le (pending : Pending) (rest : List Token) :
    (render (some pending) rest).length ≤ (render none rest).length + 1 := by
  induction rest generalizing pending with
  | nil => exact Nat.le_refl 1
  | cons token rest ih =>
      cases token with
      | char c => simp [render, flush]
      | byte value =>
          simp only [render, step, List.length_append]
          split
          · next hfits =>
              have hcontinuation := pending.continuation
              rw [start_continuation (by lia) (by lia)]
              split
              · simp
              · next more hmore =>
                  have hle := ih ⟨pending.value * 64 + (value - 0x80), more, 0x80, 0xbf, by lia, by
                    have hlarge := pending.large
                    have hlow := pending.continuation
                    lia⟩
                  simp only [List.length_nil, List.length_singleton]
                  omega
          · simp only [List.length_cons]
            omega

theorem length_render_byte (value : ℕ) : (render none [.byte value]).length ≤ 1 := by
  simp only [render, step]
  unfold start
  split_ifs <;> simp [flush]

theorem length_render_append_le (pending : Option Pending) (before after : List Token) :
    (render pending (before ++ after)).length ≤
      (render pending before).length + (render none after).length := by
  induction before generalizing pending with
  | nil =>
      cases pending with
      | none => simp [render]
      | some pending =>
          have hle := length_render_some_le pending after
          simp [render, flush]
          lia
  | cons token before ih =>
      cases token with
      | byte value =>
          have hle := ih (step pending value).2
          simp only [List.cons_append, render, List.length_append]
          lia
      | char c =>
          have hle := ih none
          simp only [List.cons_append, render, List.length_append, List.length_cons]
          lia

/-! ## Leaving characters out -/

section Filter

variable {keep : Char → Bool}

/-- Leaving characters out may make an escape of a percent sign. -/
theorem tokens_filter_char {c : Char} {rest : Text} (hc : keep c = true)
    (hchar : StandsForItself c rest) :
    tokens ((c :: rest).filter keep) = .char c :: tokens (rest.filter keep) ∨
    c = '%' ∧ ∃ high low value after, hexValue high ≠ none ∧ hexValue low ≠ none ∧
      tokens (rest.filter keep) = .char high :: .char low :: tokens after ∧
      tokens ((c :: rest).filter keep) = .byte value :: tokens after := by
  rw [List.filter_cons_of_pos hc]
  by_cases hstands : StandsForItself c (rest.filter keep)
  · exact Or.inl (tokens_char hstands)
  · unfold StandsForItself at hstands
    push Not at hstands
    obtain ⟨rfl, high, low, after, hrest, hnone⟩ := hstands
    obtain ⟨value, hbyte⟩ := Option.ne_none_iff_exists'.mp hnone
    obtain ⟨hhigh, hlow⟩ := hexValue_of_byteOf hbyte
    refine Or.inr ⟨rfl, high, low, value, after, hhigh, hlow, ?_, ?_⟩
    · rw [hrest, tokens_cons_of_ne (ne_percent_of_hexValue hhigh),
        tokens_cons_of_ne (ne_percent_of_hexValue hlow)]
    · rw [hrest, tokens_escape hbyte]

variable (hkeep : ∀ c, keep c = false → IsPlain c)
include hkeep

theorem keep_of_not_isPlain {c : Char} (h : ¬ IsPlain c) : keep c = true := by
  rw [← Bool.not_eq_false]
  exact fun hfalse => h (hkeep c hfalse)

theorem filter_escape {high low : Char} {value : ℕ} (h : byteOf high low = some value)
    (rest : Text) :
    ('%' :: high :: low :: rest).filter keep = '%' :: high :: low :: rest.filter keep := by
  obtain ⟨hhigh, hlow⟩ := hexValue_of_byteOf h
  rw [List.filter_cons_of_pos (keep_of_not_isPlain hkeep fun hplain => hplain.1 rfl),
    List.filter_cons_of_pos (keep_of_not_isPlain hkeep fun hplain => hhigh hplain.2),
    List.filter_cons_of_pos (keep_of_not_isPlain hkeep fun hplain => hlow hplain.2)]

/-- What is left out is missing from what is decoded. -/
theorem length_render_filter (before : List Token) (text : Text) :
    (render none (before ++ tokens (text.filter keep))).length + text.length ≤
      (render none (before ++ tokens text)).length + (text.filter keep).length := by
  induction text using escape_induction generalizing before with
  | nil => exact Nat.le_refl _
  | escape high low value rest hbyte ih =>
      have hle := ih (before ++ [.byte value])
      rw [List.append_assoc, List.append_assoc] at hle
      rw [filter_escape hkeep hbyte, tokens_escape hbyte, tokens_escape hbyte]
      exact Nat.add_le_add_right hle 3
  | char first rest hfirst ih =>
      rw [tokens_char hfirst, render_append, List.length_append, List.length_cons,
        List.length_cons]
      cases hdropped : keep first with
      | false =>
          have hle := ih before
          have happend := length_render_append_le none before (tokens rest)
          rw [List.filter_cons_of_neg (by simp [hdropped])]
          lia
      | true =>
          have hle := ih []
          rw [List.nil_append, List.nil_append] at hle
          have hlength : ((first :: rest).filter keep).length = (rest.filter keep).length + 1 := by
            rw [List.filter_cons_of_pos hdropped, List.length_cons]
          rcases tokens_filter_char hdropped hfirst with htokens | hescape
          · rw [htokens, render_append, List.length_append, List.length_cons]
            lia
          · -- One byte takes the place of three characters.
            obtain ⟨rfl, high, low, value, after, -, -, hsplit, htokens⟩ := hescape
            have happend := length_render_append_le none before ([.byte value] ++ tokens after)
            have hbyte := length_render_append_le none [.byte value] (tokens after)
            have hone := length_render_byte value
            rw [hsplit] at hle
            simp only [render, flush, List.nil_append, List.length_cons] at hle
            rw [htokens]
            rw [List.singleton_append] at happend hbyte
            lia

theorem length_unquote_filter (text : Text) :
    (unquote (text.filter keep)).length + text.length ≤
      (unquote text).length + (text.filter keep).length :=
  length_render_filter hkeep [] text

end Filter

end Apsis.Library.Percent
