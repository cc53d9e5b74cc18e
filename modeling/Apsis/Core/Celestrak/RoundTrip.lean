/-
# Rendering and parsing TLE records

`_parse_records` strips the body, every line and every name, drops blank lines and cuts
what is left into groups of three. `Groups` is what that amounts to, and
`parseRecords_eq_ok` says that it is all: the records are the groups of the lines that
are not blank, and a body is accepted exactly if there are such groups.

From this both directions of the round trip follow. A rendering has the groups of its
records, however it is laid out, and records that were parsed can be rendered.
-/

import Apsis.Core.Celestrak.Http
import Apsis.Library.Lines

namespace Apsis.Core.Celestrak

open Apsis.Library Apsis.Library.Text

/-! ## Groups of three lines -/

/-- The lines are groups of three, and these are their records. -/
inductive Groups : List Text → List TleRecord → Prop
  | nil : Groups [] []
  | cons {name line1 line2 : Text} {lines : List Text} {records : List TleRecord}
      (hline1 : startswith line1 "1 ".toList = true)
      (hline2 : startswith line2 "2 ".toList = true) (hrest : Groups lines records) :
      Groups (name :: line1 :: line2 :: lines) (⟨strip name, line1, line2⟩ :: records)

/-- The three lines of a record. -/
def TleRecord.parts (record : TleRecord) : List Text := [record.name, record.line1, record.line2]

theorem Groups.length_eq {lines : List Text} {records : List TleRecord}
    (h : Groups lines records) : lines.length = 3 * records.length := by
  induction h with
  | nil => rfl
  | cons _ _ _ ih =>
      simp only [List.length_cons, ih]
      lia

theorem length_mod_three {name line1 line2 : Text} {lines : List Text}
    (h : (name :: line1 :: line2 :: lines).length % 3 = 0) : lines.length % 3 = 0 := by
  simp only [List.length_cons] at h
  lia

/-- Of the first line only the stripped name counts. -/
theorem Groups.rename {name name' : Text} {lines : List Text} {records : List TleRecord}
    (h : Groups (name :: lines) records) (hsame : strip name = strip name') :
    Groups (name' :: lines) records := by
  cases h with
  | cons hline1 hline2 hrest =>
      rw [hsame]
      exact .cons hline1 hline2 hrest

/-- The loop of `_parse_records` finds the groups. -/
theorem recordsOf_eq_ok {lines : List Text} {records : List TleRecord}
    (hlength : lines.length % 3 = 0) : recordsOf lines = .ok records ↔ Groups lines records := by
  induction lines using recordsOf.induct generalizing records with
  | case1 name line1 line2 lines hbad =>
      rw [recordsOf, if_pos hbad]
      constructor
      · intro h
        cases h
      · rintro ⟨⟩
        simp_all
  | case2 name line1 line2 lines hgood error herror ih =>
      rw [recordsOf, if_neg hgood, herror]
      constructor
      · intro h
        cases h
      · intro h
        cases h with
        | cons _ _ hrest =>
            rw [← ih (length_mod_three hlength), herror] at hrest
            cases hrest
  | case3 name line1 line2 lines hgood rest hrest ih =>
      rw [recordsOf, if_neg hgood, hrest]
      simp only [Bool.or_eq_true, Bool.not_eq_true', not_or, Bool.not_eq_false] at hgood
      have hgroups := (ih (length_mod_three hlength)).mp hrest
      constructor
      · intro h
        cases h
        exact .cons hgood.1 hgood.2 hgroups
      · intro h
        cases h with
        | cons _ _ hother =>
            rw [← ih (length_mod_three hlength), hrest] at hother
            cases hother
            rfl
  | case4 lines hnot =>
      have hnil : lines = [] := by
        match lines, hnot with
        | [], _ => rfl
        | [_], _ => simp at hlength
        | [_, _], _ => simp at hlength
        | name :: line1 :: line2 :: lines, hnot => exact absurd rfl (hnot name line1 line2 lines)
      subst hnil
      constructor
      · intro h
        cases h
        exact .nil
      · intro h
        cases h
        rfl

/-- White space before the first line does not matter, since that line is a name. -/
theorem groups_modifyHead {lines : List Text} {records : List TleRecord} :
    Groups ((lines.modifyHead lstrip).map rstrip) records ↔ Groups (lines.map rstrip) records := by
  cases lines with
  | nil => rfl
  | cons first lines =>
      have hsame : strip (rstrip (lstrip first)) = strip (rstrip first) := by simp
      rw [List.modifyHead_cons, List.map_cons, List.map_cons]
      exact ⟨fun h => h.rename hsame, fun h => h.rename hsame.symm⟩

/-- **What `_parse_records` accepts.** A body whose lines, without the blank ones, are
groups of three, at least one. -/
theorem parseRecords_eq_ok {body : Text} {records : List TleRecord} :
    parseRecords body = .ok records ↔
      records ≠ [] ∧ Groups ((content body).map rstrip) records := by
  have hlines : ((splitlines (strip body)).filter fun line => !(strip line).isEmpty).map rstrip =
      ((content body).modifyHead lstrip).map rstrip := by
    show (content (strip body)).map rstrip = _
    rw [strip, content_rstrip, content_lstrip]
  unfold parseRecords
  dsimp only
  rw [hlines, ← groups_modifyHead]
  split
  · next hnothing =>
      -- There is not even one group.
      constructor
      · intro h
        cases h
      · rintro ⟨hsome, hgroups⟩
        exfalso
        have hfew : ((content (strip body)).map rstrip).length ≤ 1 := by
          rcases hnothing with hempty | hmarker
          · rw [List.isEmpty_iff.mp hempty]
            decide
          · rw [hmarker]
            decide
        have hcount := hgroups.length_eq
        rw [← hlines] at hcount
        have hpos := List.length_pos_iff.mpr hsome
        change (List.map rstrip (content (strip body))).length = _ at hcount
        lia
  · next hsomething =>
      split
      · next hlength =>
          constructor
          · intro h
            cases h
          · rintro ⟨-, hgroups⟩
            rw [hgroups.length_eq, Nat.mul_mod_right] at hlength
            exact absurd rfl hlength
      · next hlength =>
          rw [recordsOf_eq_ok (not_not.mp hlength)]
          refine ⟨fun hgroups => ⟨?_, hgroups⟩, And.right⟩
          rintro rfl
          -- A body that is not blank has a line that is not blank.
          rw [← hlines] at hgroups
          have hcontent : content (strip body) = [] :=
            List.map_eq_nil_iff.mp (List.eq_nil_of_length_eq_zero hgroups.length_eq)
          have hblank : IsBlank (strip body) := content_eq_nil_iff.mp hcontent
          rw [isBlank_strip, ← strip_eq_nil_iff] at hblank
          exact hsomething (Or.inl (List.isEmpty_iff.mpr hblank))

/-! ## Renderings -/

/-- A TLE line with this number. -/
structure IsTleLine (number : Text) (line : Text) : Prop where
  start : startswith line number = true
  isLine : IsLine line
  last : ∃ c, line.getLast? = some c ∧ isSpace c = false

/-- A record that a body can carry as it is. -/
structure IsPrintable (record : TleRecord) : Prop where
  nonblank : ¬ IsBlank record.name
  trimmed : strip record.name = record.name
  isLine : IsLine record.name
  line1 : IsTleLine "1 ".toList record.line1
  line2 : IsTleLine "2 ".toList record.line2

/-- The end of a line. -/
inductive LineEnding
  | lf
  | crlf

def LineEnding.text : LineEnding → Text
  | .lf => ['\n']
  | .crlf => ['\r', '\n']

/-- A body of these lines, and of a last line without an ending. -/
def written : List (Text × LineEnding) → Text → Text
  | [], last => last
  | (line, ending) :: lines, last => line ++ (ending.text ++ written lines last)

/-- A line that is blank. -/
def IsBlankLine (line : Text) : Prop := IsLine line ∧ IsBlank line

/-- The lines show the records, each as a group of three lines with its name between
spaces, and with blank lines anywhere. -/
inductive Layout : List TleRecord → List Text → Prop
  | nil : Layout [] []
  | blank {line : Text} {records : List TleRecord} {lines : List Text}
      (hblank : IsBlankLine line) (hrest : Layout records lines) : Layout records (line :: lines)
  | group {record : TleRecord} {records : List TleRecord} {between between' lines : List Text}
      (before after : ℕ) (hbetween : ∀ line ∈ between, IsBlankLine line)
      (hbetween' : ∀ line ∈ between', IsBlankLine line) (hrest : Layout records lines) :
      Layout (record :: records)
        ((List.replicate before ' ' ++ record.name ++ List.replicate after ' ') :: (between ++
          record.line1 :: (between' ++ record.line2 :: lines)))

/-- The body is a rendering of the records. -/
def Renders (records : List TleRecord) (body : Text) : Prop :=
  ∃ lines last, body = written lines last ∧ Layout records (lines.map Prod.fst ++ [last])

/-- The rendering that CelesTrak gives, apart from the padding of the names. -/
def render (records : List TleRecord) : Text :=
  written (records.flatMap fun record => record.parts.map fun line => (line, .crlf)) []

section Lines

variable {number line : Text}

theorem IsTleLine.rstrip_eq (h : IsTleLine number line) : rstrip line = line := by
  obtain ⟨c, hlast, hspace⟩ := h.last
  apply List.rdropWhile_eq_self_iff.mpr
  intro hne
  rw [List.getLast?_eq_some_getLast hne, Option.some.injEq] at hlast
  rw [hlast, hspace]
  exact Bool.false_ne_true

theorem IsTleLine.not_isBlank (h : IsTleLine number line) : ¬ IsBlank line := by
  obtain ⟨c, hlast, hspace⟩ := h.last
  intro hblank
  rw [hblank c (List.mem_of_getLast? hlast)] at hspace
  cases hspace

theorem isBlank_replicate (n : ℕ) : IsBlank (List.replicate n ' ') := by
  intro c hmem
  rw [List.eq_of_mem_replicate hmem]
  decide

theorem isLine_replicate (n : ℕ) : IsLine (List.replicate n ' ') := by
  intro c hmem
  rw [List.eq_of_mem_replicate hmem]
  decide

theorem isBreak_text (ending : LineEnding) (rest : Text) : IsBreak ending.text rest := by
  cases ending with
  | lf => exact .single (by decide) fun hreturn => absurd hreturn (by decide)
  | crlf => exact .pair rest

/-- The lines of a body that are not blank. -/
theorem content_written {lines : List (Text × LineEnding)} {last : Text}
    (hlines : ∀ line ∈ lines.map Prod.fst ++ [last], IsLine line) :
    content (written lines last) =
      (lines.map Prod.fst ++ [last]).filter fun line => ¬ IsBlank line := by
  induction lines with
  | nil =>
      rw [written, content_line (hlines last (by simp))]
      by_cases hblank : IsBlank last <;> simp [hblank]
  | cons first lines ih =>
      obtain ⟨line, ending⟩ := first
      have hrest := ih fun other hmem => hlines other (List.mem_cons_of_mem line hmem)
      rw [written, content_break (hlines line List.mem_cons_self) (isBreak_text ending _), hrest]
      by_cases hblank : IsBlank line <;> simp [hblank]

end Lines

section Layout

variable {records : List TleRecord} {lines : List Text}

/-- There is no line boundary inside the lines. -/
theorem Layout.isLine (h : Layout records lines) (hprintable : ∀ r ∈ records, IsPrintable r) :
    ∀ line ∈ lines, IsLine line := by
  induction h with
  | nil =>
      intro line hmem
      cases hmem
  | blank hblank _ ih =>
      intro line hmem
      rcases List.mem_cons.mp hmem with rfl | hmem
      · exact hblank.1
      · exact ih hprintable line hmem
  | @group record records between between' lines before after hbetween hbetween' _ ih =>
      have hrecord := hprintable record List.mem_cons_self
      have hrest := ih fun r hmem => hprintable r (List.mem_cons_of_mem record hmem)
      intro line hmem
      simp only [List.mem_cons, List.mem_append] at hmem
      rcases hmem with rfl | hmem | rfl | hmem | rfl | hmem
      · intro c hc
        simp only [List.mem_append] at hc
        rcases hc with (hc | hc) | hc
        · exact isLine_replicate before c hc
        · exact hrecord.isLine c hc
        · exact isLine_replicate after c hc
      · exact (hbetween line hmem).1
      · exact hrecord.line1.isLine
      · exact (hbetween' line hmem).1
      · exact hrecord.line2.isLine
      · exact hrest line hmem

/-- Blank lines are left out. -/
theorem filter_append_of_blank {between lines : List Text}
    (hbetween : ∀ line ∈ between, IsBlankLine line) :
    (between ++ lines).filter (fun line => ¬ IsBlank line) =
      lines.filter fun line => ¬ IsBlank line := by
  rw [List.filter_append, List.filter_eq_nil_iff.mpr, List.nil_append]
  intro line hmem
  simp [(hbetween line hmem).2]

/-- Without its blank lines, a layout consists of the groups of its records. -/
theorem Layout.groups (h : Layout records lines) (hprintable : ∀ r ∈ records, IsPrintable r) :
    Groups ((lines.filter fun line => ¬ IsBlank line).map rstrip) records := by
  induction h with
  | nil => exact .nil
  | blank hblank _ ih =>
      rw [List.filter_cons_of_neg (by simp [hblank.2])]
      exact ih hprintable
  | @group record records between between' lines before after hbetween hbetween' _ ih =>
      have hrecord := hprintable record List.mem_cons_self
      have hrest := ih fun r hmem => hprintable r (List.mem_cons_of_mem record hmem)
      have hname : ¬ IsBlank (List.replicate before ' ' ++ record.name ++
          List.replicate after ' ') := by
        simp only [isBlank_append]
        exact fun hall => hrecord.nonblank hall.1.2
      have hstrip : strip (rstrip (List.replicate before ' ' ++ record.name ++
          List.replicate after ' ')) = record.name := by
        rw [strip_rstrip, strip_append_append _ (isBlank_replicate before)
          (isBlank_replicate after), hrecord.trimmed]
      rw [List.filter_cons_of_pos (by simpa using hname), filter_append_of_blank hbetween,
        List.filter_cons_of_pos (by simpa using hrecord.line1.not_isBlank),
        filter_append_of_blank hbetween',
        List.filter_cons_of_pos (by simpa using hrecord.line2.not_isBlank), List.map_cons,
        List.map_cons, List.map_cons, hrecord.line1.rstrip_eq, hrecord.line2.rstrip_eq]
      have hgroups := @Groups.cons (rstrip (List.replicate before ' ' ++ record.name ++
        List.replicate after ' ')) _ _ _ _ hrecord.line1.start hrecord.line2.start hrest
      rwa [hstrip] at hgroups

/-- The plain rendering is a layout. -/
theorem layout_render (records : List TleRecord) : Layout records
    ((records.flatMap fun record => record.parts.map fun line =>
      (line, LineEnding.crlf)).map Prod.fst ++ [[]]) := by
  induction records with
  | nil => exact .blank ⟨fun c hmem => (by cases hmem), isBlank_nil⟩ .nil
  | cons record records ih =>
      have hgroup := @Layout.group record records [] [] _ 0 0
        (fun _ hmem => by cases hmem) (fun _ hmem => by cases hmem) ih
      simpa [TleRecord.parts] using hgroup

end Layout

/-! ## The round trip -/

/-- Nothing of the body is lost in the records. -/
structure IsLossless (fetch : Response → Except CelestrakError (List TleRecord)) (body : Text)
    (records : List TleRecord) : Prop where
  nonempty : records ≠ []
  printable : ∀ record ∈ records, IsPrintable record
  /-- The lines that are not blank are those of the records, in order. -/
  lines : (content body).map strip = records.flatMap TleRecord.parts
  /-- Every rendering of the records gives them again. -/
  again : ∀ body', Renders records body' → fetch (.received 200 body') = .ok records
  /-- There is such a rendering. -/
  rendered : Renders records (render records)

/-- Rendering and fetching are inverse to each other. -/
structure RoundTrips (fetch : Response → Except CelestrakError (List TleRecord)) : Prop where
  /-- Every rendering of printable records gives these records. -/
  parses : ∀ records body, records ≠ [] → (∀ record ∈ records, IsPrintable record) →
    Renders records body → fetch (.received 200 body) = .ok records
  /-- Records come from a response with status 200 that carries just them. -/
  returns : ∀ response records, fetch response = .ok records →
    ∃ body, response = .received 200 body ∧ IsLossless fetch body records
  /-- Every response that carries no records is an error of the driver. -/
  raises : ∀ response, (∀ body records, response = .received 200 body →
    ¬ IsLossless fetch body records) → ∃ error, fetch response = .error error

/-- What is read from a body, line by line. -/
theorem Groups.printable {lines : List Text} {records : List TleRecord} (h : Groups lines records)
    (hlines : ∀ line ∈ lines, IsLine line ∧ ¬ IsBlank line ∧ rstrip line = line) :
    (∀ record ∈ records, IsPrintable record) ∧
      lines.map strip = records.flatMap TleRecord.parts := by
  have htle : ∀ {digit : Char} {line : Text}, isSpace digit = false →
      (IsLine line ∧ ¬ IsBlank line ∧ rstrip line = line) →
      startswith line [digit, ' '] = true →
      IsTleLine [digit, ' '] line ∧ strip line = line := by
    rintro digit line hdigit ⟨hline, hnot, hstripped⟩ hstart
    obtain ⟨rest, rfl⟩ := List.isPrefixOf_iff_prefix.mp hstart
    have hne : [digit, ' '] ++ rest ≠ [] := List.cons_ne_nil _ _
    refine ⟨⟨hstart, hline, _, List.getLast?_eq_some_getLast hne, ?_⟩, ?_⟩
    · exact Bool.eq_false_iff.mpr (List.rdropWhile_eq_self_iff.mp hstripped hne)
    · rw [strip, lstrip, List.cons_append, List.dropWhile_cons_of_neg (by simp [hdigit])]
      exact hstripped
  induction h with
  | nil => exact ⟨fun _ hmem => (by cases hmem), rfl⟩
  | @cons name line1 line2 lines records hline1 hline2 _ ih =>
      obtain ⟨hprintable, hmap⟩ := ih fun line hmem => hlines line (by simp [hmem])
      obtain ⟨hname, hnonblank, -⟩ := hlines name (by simp)
      obtain ⟨htle1, hstrip1⟩ := htle (by decide) (hlines line1 (by simp)) hline1
      obtain ⟨htle2, hstrip2⟩ := htle (by decide) (hlines line2 (by simp)) hline2
      constructor
      · intro record hmem
        rcases List.mem_cons.mp hmem with rfl | hmem
        · refine ⟨mt isBlank_strip.mp hnonblank, ?_, hname.strip, htle1, htle2⟩
          show strip (rstrip (lstrip name)) = _
          rw [strip_rstrip, strip_lstrip]
        · exact hprintable record hmem
      · simp [hmap, hstrip1, hstrip2, TleRecord.parts]

/-- What `fetch_group` accepts. -/
theorem fetchGroup_eq_ok {response : Response} {records : List TleRecord} :
    fetchGroup response = .ok records ↔ ∃ body, response = .received 200 body ∧ records ≠ [] ∧
      Groups ((content body).map rstrip) records := by
  constructor
  · intro h
    unfold fetchGroup at h
    split at h
    · cases h
    next body hget =>
    refine ⟨body, ?_, parseRecords_eq_ok.mp h⟩
    cases response with
    | failed => cases hget
    | received status text =>
        simp only [get] at hget
        split at hget
        · cases hget
        split at hget
        · cases hget
        split at hget
        · cases hget
        split at hget
        · cases hget
        · next hstatus =>
            cases hget
            rw [not_not.mp hstatus]
  · rintro ⟨body, rfl, hparse⟩
    rw [← parseRecords_eq_ok] at hparse
    have hmarker : strip body ≠ notFoundBody := by
      intro hmarker
      rw [parseRecords, hmarker] at hparse
      simp at hparse
    simp [fetchGroup, get, hmarker, hparse]

theorem fetchGroup_of_renders {records : List TleRecord} {body : Text} (hsome : records ≠ [])
    (hprintable : ∀ record ∈ records, IsPrintable record) (hrenders : Renders records body) :
    fetchGroup (.received 200 body) = .ok records := by
  obtain ⟨lines, last, rfl, hlayout⟩ := hrenders
  refine fetchGroup_eq_ok.mpr ⟨_, rfl, hsome, ?_⟩
  rw [content_written (hlayout.isLine hprintable)]
  exact hlayout.groups hprintable

theorem isLossless_of_groups {body : Text} {records : List TleRecord} (hsome : records ≠ [])
    (hgroups : Groups ((content body).map rstrip) records) :
    IsLossless fetchGroup body records := by
  obtain ⟨hprintable, hmap⟩ := hgroups.printable fun stripped hmem => by
    obtain ⟨line, hline, rfl⟩ := List.mem_map.mp hmem
    exact ⟨(isLine_of_mem_content hline).rstrip,
      mt isBlank_rstrip.mp (not_isBlank_of_mem_content hline), rstrip_rstrip line⟩
  refine ⟨hsome, hprintable, ?_, fun body' => fetchGroup_of_renders hsome hprintable,
    _, _, rfl, layout_render records⟩
  rw [← hmap, List.map_map]
  exact List.map_congr_left fun line _ => (strip_rstrip line).symm

/-- **The round trip.** Rendered records are fetched as they are, and what is fetched can
be rendered; nothing is lost in between, and all else is an error. -/
theorem fetchGroup_roundTrips : RoundTrips fetchGroup where
  parses _ _ := fetchGroup_of_renders
  returns response records h := by
    obtain ⟨body, hresponse, hsome, hgroups⟩ := fetchGroup_eq_ok.mp h
    exact ⟨body, hresponse, isLossless_of_groups hsome hgroups⟩
  raises response hnone := by
    cases hfetch : fetchGroup response with
    | error error => exact ⟨error, rfl⟩
    | ok records =>
        obtain ⟨body, hresponse, hsome, hgroups⟩ := fetchGroup_eq_ok.mp hfetch
        exact absurd (isLossless_of_groups hsome hgroups) (hnone body records hresponse)

/-- A name between spaces, a blank line inside a group, and both line endings. -/
example : fetchGroup (.received 200 "\n ISS  \r\n1 25544U\n \n2 25544 51\r\n".toList) =
    .ok [⟨"ISS".toList, "1 25544U".toList, "2 25544 51".toList⟩] := by decide

end Apsis.Core.Celestrak
