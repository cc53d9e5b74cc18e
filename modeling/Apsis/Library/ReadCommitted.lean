/-
# A table under READ COMMITTED

Every row is kept with the transaction that inserted it and the one that has
deleted it, if any. Nothing is taken out of the table except by a rollback, so
what a transaction can see is a matter of which transactions have committed: a
statement takes the list of the committed ones when it starts, and this list is
its snapshot.

A `DELETE` marks the rows that its snapshot shows it, one after the other. It
passes over a row that a transaction has deleted and committed since, and it
cannot end while one is marked by a transaction that is still open. An `INSERT`
is refused by a conflicting row, and waits while an open transaction may still
bring one about or take one away.

`Cleared` is what an ended `DELETE` leaves behind. It survives whatever other
transactions do, and `current_commit_iff` says what it is good for.
-/

import Mathlib.Data.List.Basic

namespace Apsis.Library

universe u v

/-- A row with the marks of the transactions that wrote it. -/
structure Version (ρ : Type u) (ξ : Type v) where
  row : ρ
  insertedBy : ξ
  deletedBy : Option ξ

/-- A table and the transactions that have committed, the latest first. -/
structure Store (ρ : Type u) (ξ : Type v) where
  versions : List (Version ρ ξ)
  committed : List ξ

variable {ρ : Type u} {ξ : Type v}

/-- A transaction sees its own writes, and those of the transactions in its
snapshot. -/
def Sees (snapshot : List ξ) (x y : ξ) : Prop := y = x ∨ y ∈ snapshot

instance [DecidableEq ξ] (snapshot : List ξ) (x y : ξ) : Decidable (Sees snapshot x y) :=
  inferInstanceAs (Decidable (_ ∨ _))

namespace Version

/-- The row is there for a statement of `x` with this snapshot. -/
def IsVisible (snapshot : List ξ) (x : ξ) (version : Version ρ ξ) : Prop :=
  Sees snapshot x version.insertedBy ∧ ∀ y ∈ version.deletedBy, ¬ Sees snapshot x y

/-- For `x` the row is gone for good. -/
def IsDead (snapshot : List ξ) (x : ξ) (version : Version ρ ξ) : Prop :=
  Sees snapshot x version.insertedBy ∧ ∃ y ∈ version.deletedBy, Sees snapshot x y

/-- The row is there for everyone. -/
def IsCurrent (committed : List ξ) (version : Version ρ ξ) : Prop :=
  version.insertedBy ∈ committed ∧ ∀ y ∈ version.deletedBy, y ∉ committed

variable [DecidableEq ξ]

instance (snapshot : List ξ) (x : ξ) (version : Version ρ ξ) :
    Decidable (version.IsVisible snapshot x) :=
  inferInstanceAs (Decidable (_ ∧ _))

instance (snapshot : List ξ) (x : ξ) (version : Version ρ ξ) :
    Decidable (version.IsDead snapshot x) :=
  inferInstanceAs (Decidable (_ ∧ _))

instance (committed : List ξ) (version : Version ρ ξ) :
    Decidable (version.IsCurrent committed) :=
  inferInstanceAs (Decidable (_ ∧ _))

/-- The row after a rollback of the transaction that may have deleted it. -/
def restore (x : ξ) (version : Version ρ ξ) : Version ρ ξ :=
  if version.deletedBy = some x then { version with deletedBy := none } else version

end Version

/-- How an `INSERT` ends. -/
inductive Insertion (ρ : Type u) (ξ : Type v)
  | /-- It waits for an open transaction. -/
    waits
  | /-- A unique constraint refuses it. -/
    refused
  | inserted (store : Store ρ ξ)

namespace Store

section Statements

variable [DecidableEq ξ] (s : Store ρ ξ) (x : ξ)

/-- `DELETE .. WHERE p` marks the row at this place. -/
def deleteAt (snapshot : List ξ) (p : ρ → Bool) (index : ℕ) : Option (Store ρ ξ) :=
  match s.versions[index]? with
  | none => none
  | some version =>
      if p version.row = true ∧ version.IsVisible snapshot x ∧ version.deletedBy = none then
        some { s with versions := s.versions.set index { version with deletedBy := some x } }
      else none

/-- The `DELETE` may end: every row that it sees and that meets the condition has
been deleted, by `x` or by a transaction that has committed. -/
def DeleteEnds (snapshot : List ξ) (p : ρ → Bool) : Prop :=
  ∀ version ∈ s.versions, p version.row = true → Sees snapshot x version.insertedBy →
    ∃ y ∈ version.deletedBy, Sees s.committed x y

instance (snapshot : List ξ) (p : ρ → Bool) : Decidable (s.DeleteEnds x snapshot p) :=
  inferInstanceAs (Decidable (∀ _ ∈ _, _))

/-- `INSERT`, where `conflicts` tells which rows the unique constraints keep
apart. -/
def insert (conflicts : ρ → ρ → Bool) (row : ρ) : Insertion ρ ξ :=
  if ∃ version ∈ s.versions, conflicts version.row row = true ∧
      version.IsVisible s.committed x ∧ version.deletedBy = none then .refused
  else if ∃ version ∈ s.versions, conflicts version.row row = true ∧
      ¬ version.IsDead s.committed x then .waits
  else .inserted { s with versions := s.versions ++ [⟨row, x, none⟩] }

/-- `COMMIT` -/
def commit : Store ρ ξ := { s with committed := x :: s.committed }

/-- `ROLLBACK` -/
def rollback : Store ρ ξ where
  versions := (s.versions.filter fun version => decide (version.insertedBy ≠ x)).map
    (Version.restore x)
  committed := s.committed

/-- The rows that are there for everyone and meet a condition. -/
def current (p : ρ → Bool) : List ρ :=
  (s.versions.filter fun version =>
    p version.row && decide (version.IsCurrent s.committed)).map Version.row

/-- The rows that `x` has written and that meet a condition. -/
def written (p : ρ → Bool) : List ρ :=
  (s.versions.filter fun version =>
    p version.row && decide (version.insertedBy = x)).map Version.row

end Statements

/-- Replacing an element by one that is filtered and read in the same way. -/
theorem map_filter_set {α : Type u} {β : Type v} {l : List α} {index : ℕ} {a b : α}
    (h : l[index]? = some a) {q : α → Bool} {f : α → β} (hq : q b = q a) (hf : f b = f a) :
    ((l.set index b).filter q).map f = (l.filter q).map f := by
  induction l generalizing index with
  | nil => rfl
  | cons first rest ih =>
      cases index with
      | zero =>
          rw [List.getElem?_cons_zero, Option.some.injEq] at h
          subst h
          by_cases hfirst : q first <;> simp [hq, hf, hfirst]
      | succ index =>
          rw [List.getElem?_cons_succ] at h
          by_cases hfirst : q first <;> simp [hfirst, ih h]

/-! ## What the statements leave alone -/

section Frame

variable [DecidableEq ξ] {s s' : Store ρ ξ} {x : ξ}

theorem deleteAt_eq_some {snapshot : List ξ} {p : ρ → Bool} {index : ℕ} :
    s.deleteAt x snapshot p index = some s' ↔ ∃ version, s.versions[index]? = some version ∧
      p version.row = true ∧ version.IsVisible snapshot x ∧ version.deletedBy = none ∧
      s' = { s with versions := s.versions.set index { version with deletedBy := some x } } := by
  unfold deleteAt
  split
  · next hnone => simp [hnone]
  · next version hversion =>
      simp only [hversion, Option.some.injEq, Option.ite_none_right_eq_some, exists_eq_left']
      constructor
      · rintro ⟨⟨hrow, hvisible, hdeleted⟩, rfl⟩
        exact ⟨hrow, hvisible, hdeleted, rfl⟩
      · rintro ⟨hrow, hvisible, hdeleted, rfl⟩
        exact ⟨⟨hrow, hvisible, hdeleted⟩, rfl⟩

/-- A row after the mark is a row before it, or it is the marked one. -/
theorem mem_of_mem_deleteAt {snapshot : List ξ} {p : ρ → Bool} {index : ℕ}
    (h : s.deleteAt x snapshot p index = some s') {version : Version ρ ξ}
    (hmem : version ∈ s'.versions) : version ∈ s.versions ∨
      ∃ before ∈ s.versions, p before.row = true ∧ before.IsVisible snapshot x ∧
        version = { before with deletedBy := some x } := by
  obtain ⟨before, hbefore, hrow, hvisible, -, rfl⟩ := deleteAt_eq_some.mp h
  rcases List.mem_or_eq_of_mem_set hmem with hmem | rfl
  · exact Or.inl hmem
  · exact Or.inr ⟨before, List.mem_of_getElem? hbefore, hrow, hvisible, rfl⟩

theorem deleteAt_committed {snapshot : List ξ} {p : ρ → Bool} {index : ℕ}
    (h : s.deleteAt x snapshot p index = some s') : s'.committed = s.committed := by
  obtain ⟨_, -, -, -, -, rfl⟩ := deleteAt_eq_some.mp h
  rfl

theorem written_deleteAt {snapshot : List ξ} {p : ρ → Bool} {index : ℕ}
    (h : s.deleteAt x snapshot p index = some s') (y : ξ) (q : ρ → Bool) :
    s'.written y q = s.written y q := by
  obtain ⟨before, hbefore, -, -, -, rfl⟩ := deleteAt_eq_some.mp h
  exact map_filter_set hbefore rfl rfl

theorem insert_eq_inserted {conflicts : ρ → ρ → Bool} {row : ρ}
    (h : s.insert x conflicts row = .inserted s') :
    s' = { s with versions := s.versions ++ [⟨row, x, none⟩] } := by
  unfold insert at h
  split at h
  · cases h
  · split at h
    · cases h
    · cases h
      rfl

/-- What an `INSERT` waits for. -/
theorem exists_of_insert_waits {conflicts : ρ → ρ → Bool} {row : ρ}
    (h : s.insert x conflicts row = .waits) : ∃ version ∈ s.versions,
      ¬ (version.IsVisible s.committed x ∧ version.deletedBy = none) ∧
      ¬ version.IsDead s.committed x := by
  unfold insert at h
  split at h
  · cases h
  · next hfree =>
      split at h
      · next hwaits =>
          obtain ⟨version, hmem, hconflict, halive⟩ := hwaits
          exact ⟨version, hmem, fun hseen => hfree ⟨version, hmem, hconflict, hseen⟩, halive⟩
      · cases h

theorem mem_rollback {version : Version ρ ξ} :
    version ∈ (s.rollback x).versions ↔
      ∃ before ∈ s.versions, before.insertedBy ≠ x ∧ before.restore x = version := by
  simp [rollback, and_assoc]

theorem written_insert {conflicts : ρ → ρ → Bool} {row : ρ}
    (h : s.insert x conflicts row = .inserted s') (y : ξ) (q : ρ → Bool) :
    s'.written y q = s.written y q ++ if x = y ∧ q row = true then [row] else [] := by
  rw [insert_eq_inserted h]
  by_cases hown : x = y <;> by_cases hrow : q row <;> simp [written, hown, hrow]

@[simp]
theorem restore_row (version : Version ρ ξ) : (version.restore x).row = version.row := by
  unfold Version.restore
  split <;> rfl

@[simp]
theorem restore_insertedBy (version : Version ρ ξ) :
    (version.restore x).insertedBy = version.insertedBy := by
  unfold Version.restore
  split <;> rfl

theorem mem_deletedBy_restore {version : Version ρ ξ} {y : ξ} :
    y ∈ (version.restore x).deletedBy ↔ y ∈ version.deletedBy ∧ y ≠ x := by
  unfold Version.restore
  split
  · next hdeleted =>
      simp only [Option.mem_def, hdeleted, Option.some.injEq]
      constructor
      · intro h
        cases h
      · rintro ⟨rfl, hne⟩
        exact absurd rfl hne
  · next hdeleted =>
      constructor
      · intro h
        refine ⟨h, ?_⟩
        rintro rfl
        exact hdeleted h
      · exact And.left

/-- A rollback of a transaction that has marked nothing changes nothing. -/
theorem rollback_eq_self (hnone : ∀ version ∈ s.versions,
    version.insertedBy ≠ x ∧ version.deletedBy = none) : s.rollback x = s := by
  have hfilter : (s.versions.filter fun version => decide (version.insertedBy ≠ x)) = s.versions :=
    List.filter_eq_self.mpr fun version hmem => decide_eq_true (hnone version hmem).1
  have hrestore : ∀ version ∈ s.versions, version.restore x = version := fun version hmem => by
    rw [Version.restore, (hnone version hmem).2, if_neg (by simp)]
  rw [rollback, hfilter, List.map_congr_left hrestore, List.map_id']

/-- Reading what is left after a rollback. -/
theorem map_filter_rollback {q q' : Version ρ ξ → Bool}
    (hq : ∀ version ∈ s.versions,
      (decide (version.insertedBy ≠ x) && q (version.restore x)) = q' version) :
    ((s.rollback x).versions.filter q).map Version.row =
      (s.versions.filter q').map Version.row := by
  have hrow : (Version.row ∘ Version.restore x : Version ρ ξ → ρ) = Version.row := by
    ext version
    exact restore_row version
  simp only [rollback, List.filter_map, List.filter_filter, List.map_map, hrow]
  congr 1
  apply List.filter_congr
  intro version hmem
  rw [← hq version hmem, Bool.and_comm]
  rfl

theorem written_rollback {y : ξ} (hne : y ≠ x) (q : ρ → Bool) :
    (s.rollback x).written y q = s.written y q := by
  apply map_filter_rollback
  intro version _
  by_cases hown : version.insertedBy = y <;> simp [hown, hne]

theorem written_rollback_self (q : ρ → Bool) : (s.rollback x).written x q = [] := by
  simp only [written, List.map_eq_nil_iff, List.filter_eq_nil_iff]
  intro version hmem
  obtain ⟨before, -, hne, rfl⟩ := mem_rollback.mp hmem
  simp [hne]

/-! ## What a `DELETE` leaves behind -/

/-- Every row of the snapshot that meets the condition has been deleted, by `x` or
by a transaction that has committed. -/
def Cleared (s : Store ρ ξ) (x : ξ) (snapshot : List ξ) (p : ρ → Bool) : Prop :=
  ∀ version ∈ s.versions, p version.row = true → version.insertedBy ∈ snapshot →
    ∃ y ∈ version.deletedBy, Sees s.committed x y

variable {snapshot : List ξ} {p : ρ → Bool}

omit [DecidableEq ξ] in
theorem DeleteEnds.cleared (hends : s.DeleteEnds x snapshot p) : s.Cleared x snapshot p :=
  fun version hmem hrow hinserted => hends version hmem hrow (Or.inr hinserted)

omit [DecidableEq ξ] in
theorem Cleared.commit (hcleared : s.Cleared x snapshot p) (y : ξ) :
    (s.commit y).Cleared x snapshot p := by
  intro version hmem hrow hinserted
  obtain ⟨z, hz, hsees⟩ := hcleared version hmem hrow hinserted
  exact ⟨z, hz, hsees.imp_right (List.mem_cons_of_mem y)⟩

theorem Cleared.deleteAt (hcleared : s.Cleared x snapshot p) {y : ξ} {snapshot' : List ξ}
    {q : ρ → Bool} {index : ℕ} (h : s.deleteAt y snapshot' q index = some s') :
    s'.Cleared x snapshot p := by
  obtain ⟨before, hbefore, -, -, hdeleted, rfl⟩ := deleteAt_eq_some.mp h
  intro version hmem hrow hinserted
  rcases List.mem_or_eq_of_mem_set hmem with hmem | rfl
  · exact hcleared version hmem hrow hinserted
  · -- The marked row was not deleted, so the snapshot does not have it.
    obtain ⟨z, hz, -⟩ := hcleared before (List.mem_of_getElem? hbefore) hrow hinserted
    rw [hdeleted] at hz
    cases hz

theorem Cleared.insert (hcleared : s.Cleared x snapshot p) {y : ξ} (hnew : y ∉ snapshot)
    {conflicts : ρ → ρ → Bool} {row : ρ} (h : s.insert y conflicts row = .inserted s') :
    s'.Cleared x snapshot p := by
  rw [insert_eq_inserted h]
  intro version hmem hrow hinserted
  rcases List.mem_append.mp hmem with hmem | hmem
  · exact hcleared version hmem hrow hinserted
  · rw [List.mem_singleton.mp hmem] at hinserted
    exact absurd hinserted hnew

theorem Cleared.rollback (hcleared : s.Cleared x snapshot p) {y : ξ} (hne : y ≠ x)
    (hopen : y ∉ s.committed) : (s.rollback y).Cleared x snapshot p := by
  intro version hmem hrow hinserted
  obtain ⟨before, hbefore, -, rfl⟩ := mem_rollback.mp hmem
  rw [restore_row] at hrow
  rw [restore_insertedBy] at hinserted
  obtain ⟨z, hz, hsees⟩ := hcleared before hbefore hrow hinserted
  refine ⟨z, mem_deletedBy_restore.mpr ⟨hz, ?_⟩, hsees⟩
  rintro rfl
  exact hsees.elim hne hopen

omit [DecidableEq ξ] in
/-- A row that an ended `DELETE` had in its snapshot is not there for anyone once
the transaction has committed. -/
theorem Cleared.not_isCurrent (hcleared : s.Cleared x snapshot p) (hcommitted : x ∈ s.committed)
    {version : Version ρ ξ} (hmem : version ∈ s.versions) (hrow : p version.row = true)
    (hinserted : version.insertedBy ∈ snapshot) : ¬ version.IsCurrent s.committed := by
  intro hcurrent
  obtain ⟨y, hy, hsees⟩ := hcleared version hmem hrow hinserted
  rcases hsees with rfl | hsees
  · exact hcurrent.2 y hy hcommitted
  · exact hcurrent.2 y hy hsees

/-! ## Rows of a single transaction -/

/-- Among the rows that meet a condition, those that are there for everyone are
exactly those that `x` has written. -/
def Exactly (s : Store ρ ξ) (x : ξ) (p : ρ → Bool) : Prop :=
  ∀ version ∈ s.versions, p version.row = true →
    (version.IsCurrent s.committed ↔ version.insertedBy = x)

theorem Exactly.current_eq (hexactly : s.Exactly x p) : s.current p = s.written x p := by
  unfold current written
  congr 1
  apply List.filter_congr
  intro version hmem
  cases hrow : p version.row with
  | false => rfl
  | true =>
      rw [Bool.true_and, Bool.true_and, decide_eq_decide]
      exact hexactly version hmem hrow

omit [DecidableEq ξ] in
/-- The commit of a transaction that has neither inserted nor deleted the row. -/
theorem isCurrent_cons_iff {version : Version ρ ξ} {committed : List ξ}
    (hinserted : version.insertedBy ≠ x) (hdeleted : version.deletedBy ≠ some x) :
    version.IsCurrent (x :: committed) ↔ version.IsCurrent committed := by
  simp only [Version.IsCurrent, List.mem_cons, hinserted, false_or, not_or]
  refine and_congr_right fun _ => ⟨fun h y hy => (h y hy).2, fun h y hy => ⟨?_, h y hy⟩⟩
  rintro rfl
  exact hdeleted hy

/-- The mark of an open transaction is not seen, and neither is that it goes. -/
theorem isCurrent_restore_iff {y : ξ} {committed : List ξ} (hopen : y ∉ committed)
    (version : Version ρ ξ) :
    (version.restore y).IsCurrent committed ↔ version.IsCurrent committed := by
  simp only [Version.IsCurrent, restore_insertedBy, mem_deletedBy_restore]
  refine and_congr_right fun _ => ⟨fun h z hz hcommitted => ?_, fun h z hz => h z hz.1⟩
  refine h z ⟨hz, ?_⟩ hcommitted
  rintro rfl
  exact hopen hcommitted

omit [DecidableEq ξ] in
/-- **Replacement.** If the snapshot had every row that is there when `x` commits,
the rows that are there afterwards are those that `x` has written. -/
theorem Cleared.exactly_commit (hcleared : s.Cleared x snapshot p)
    (hseen : ∀ version ∈ s.versions, p version.row = true → version.IsCurrent s.committed →
      version.insertedBy ∈ snapshot)
    (hown : ∀ version ∈ s.versions, version.insertedBy = x → version.deletedBy = none) :
    (s.commit x).Exactly x p := by
  intro version hmem hrow
  constructor
  · rintro ⟨hinserted, hdeleted⟩
    rcases List.mem_cons.mp hinserted with hown | hinserted
    · exact hown
    · have hcurrent : version.IsCurrent s.committed :=
        ⟨hinserted, fun y hy hcommitted => hdeleted y hy (List.mem_cons_of_mem x hcommitted)⟩
      obtain ⟨y, hy, hsees⟩ := hcleared version hmem hrow (hseen version hmem hrow hcurrent)
      exact absurd (List.mem_cons.mpr hsees) (hdeleted y hy)
  · intro hinserted
    refine ⟨List.mem_cons.mpr (Or.inl hinserted), fun y hy => ?_⟩
    rw [hown version hmem hinserted] at hy
    cases hy

section Open

variable {y : ξ} (hopen : y ∉ s.committed)
include hopen

/-- A mark changes nothing for the others before its transaction commits. -/
theorem Exactly.deleteAt (hexactly : s.Exactly x p) {q : ρ → Bool} {index : ℕ}
    (h : s.deleteAt y snapshot q index = some s') : s'.Exactly x p := by
  obtain ⟨before, hbefore, -, -, hdeleted, rfl⟩ := deleteAt_eq_some.mp h
  intro version hmem hrow
  rcases List.mem_or_eq_of_mem_set hmem with hmem | rfl
  · exact hexactly version hmem hrow
  · have hsame : ({ before with deletedBy := some y } : Version ρ ξ).IsCurrent s.committed ↔
        before.IsCurrent s.committed := by
      simp [Version.IsCurrent, hdeleted, hopen]
    exact hsame.trans (hexactly before (List.mem_of_getElem? hbefore) hrow)

/-- Nor does an inserted row. -/
theorem Exactly.insert (hexactly : s.Exactly x p) (hx : x ∈ s.committed)
    {conflicts : ρ → ρ → Bool} {row : ρ} (h : s.insert y conflicts row = .inserted s') :
    s'.Exactly x p := by
  rw [insert_eq_inserted h]
  intro version hmem hrow
  rcases List.mem_append.mp hmem with hmem | hmem
  · exact hexactly version hmem hrow
  · rw [List.mem_singleton.mp hmem]
    constructor
    · rintro ⟨hinserted, -⟩
      exact absurd hinserted hopen
    · rintro rfl
      exact absurd hx hopen

/-- Nor does a rollback. -/
theorem Exactly.rollback (hexactly : s.Exactly x p) : (s.rollback y).Exactly x p := by
  intro version hmem hrow
  obtain ⟨before, hbefore, -, rfl⟩ := mem_rollback.mp hmem
  rw [restore_row] at hrow
  rw [restore_insertedBy, ← hexactly before hbefore hrow]
  exact isCurrent_restore_iff hopen before

end Open

/-! ## What is there for everyone -/

/-- The commit of a transaction that has no marks on the rows that meet the
condition. -/
theorem current_commit {q : ρ → Bool} (hunmarked : ∀ version ∈ s.versions, q version.row = true →
    version.insertedBy ≠ x ∧ version.deletedBy ≠ some x) :
    (s.commit x).current q = s.current q := by
  unfold current
  congr 1
  apply List.filter_congr
  intro version hmem
  cases hrow : q version.row with
  | false => rfl
  | true =>
      obtain ⟨hinserted, hdeleted⟩ := hunmarked version hmem hrow
      rw [Bool.true_and, Bool.true_and, decide_eq_decide]
      exact isCurrent_cons_iff hinserted hdeleted

section Uncommitted

variable {y : ξ} (hopen : y ∉ s.committed)
include hopen

/-- Nobody sees the marks of an open transaction. -/
theorem current_deleteAt {q : ρ → Bool} {index : ℕ}
    (h : s.deleteAt y snapshot q index = some s') (r : ρ → Bool) : s'.current r = s.current r := by
  obtain ⟨before, hbefore, -, -, hdeleted, rfl⟩ := deleteAt_eq_some.mp h
  apply map_filter_set hbefore
  · simp [Version.IsCurrent, hdeleted, hopen]
  · rfl

/-- Nor the rows that it has inserted. -/
theorem current_insert {conflicts : ρ → ρ → Bool} {row : ρ}
    (h : s.insert y conflicts row = .inserted s') (r : ρ → Bool) : s'.current r = s.current r := by
  rw [insert_eq_inserted h]
  simp [current, Version.IsCurrent, hopen]

/-- Nor that it is rolled back. -/
theorem current_rollback (r : ρ → Bool) : (s.rollback y).current r = s.current r := by
  apply map_filter_rollback
  intro version _
  have hrestored := isCurrent_restore_iff hopen version
  have hcommitted : (s.rollback y).committed = s.committed := rfl
  by_cases hown : version.insertedBy = y
  · have hnot : ¬ version.IsCurrent s.committed := fun hcurrent => hopen (hown ▸ hcurrent.1)
    simp [hown, hnot]
  · simp [hown, hcommitted, hrestored]

end Uncommitted

/-! ## Whose marks there are -/

/-- Every mark in the table is that of a transaction of this kind. -/
def MarkedBy (s : Store ρ ξ) (live : ξ → Prop) : Prop :=
  ∀ version ∈ s.versions, live version.insertedBy ∧ ∀ y ∈ version.deletedBy, live y

variable {live : ξ → Prop}

omit [DecidableEq ξ] in
theorem MarkedBy.mono (hmarked : s.MarkedBy live) {live' : ξ → Prop}
    (hmono : ∀ y, live y → live' y) : s.MarkedBy live' :=
  fun version hmem => ⟨hmono _ (hmarked version hmem).1,
    fun y hy => hmono y ((hmarked version hmem).2 y hy)⟩

theorem MarkedBy.deleteAt (hmarked : s.MarkedBy live) (hlive : live x) {index : ℕ}
    (h : s.deleteAt x snapshot p index = some s') : s'.MarkedBy live := by
  intro version hmem
  rcases mem_of_mem_deleteAt h hmem with hmem | ⟨before, hbefore, -, -, rfl⟩
  · exact hmarked version hmem
  · refine ⟨(hmarked before hbefore).1, fun y hy => ?_⟩
    cases hy
    exact hlive

theorem MarkedBy.insert (hmarked : s.MarkedBy live) (hlive : live x)
    {conflicts : ρ → ρ → Bool} {row : ρ} (h : s.insert x conflicts row = .inserted s') :
    s'.MarkedBy live := by
  rw [insert_eq_inserted h]
  intro version hmem
  rcases List.mem_append.mp hmem with hmem | hmem
  · exact hmarked version hmem
  · rw [List.mem_singleton.mp hmem]
    refine ⟨hlive, fun y hy => ?_⟩
    cases hy

/-- A rollback takes away every mark of its transaction. -/
theorem MarkedBy.rollback (hmarked : s.MarkedBy live) :
    (s.rollback x).MarkedBy fun y => live y ∧ y ≠ x := by
  intro version hmem
  obtain ⟨before, hbefore, hne, rfl⟩ := mem_rollback.mp hmem
  refine ⟨?_, fun y hy => ?_⟩
  · rw [restore_insertedBy]
    exact ⟨(hmarked before hbefore).1, hne⟩
  · obtain ⟨hy, hne⟩ := mem_deletedBy_restore.mp hy
    exact ⟨(hmarked before hbefore).2 y hy, hne⟩

end Frame

/-! ## Unique constraints -/

section Constraints

variable {conflicts : ρ → ρ → Bool} {s s' : Store ρ ξ} {x : ξ}

/-- Of two rows that the constraints keep apart, the earlier one had been deleted when the
later one was inserted, by the same transaction or by one that has committed. -/
def KeepsApart (s : Store ρ ξ) (conflicts : ρ → ρ → Bool) : Prop :=
  s.versions.Pairwise fun earlier later => conflicts earlier.row later.row = true →
    ∃ y ∈ earlier.deletedBy, Sees s.committed later.insertedBy y

theorem KeepsApart.commit (h : s.KeepsApart conflicts) : (s.commit x).KeepsApart conflicts := by
  refine h.imp fun hpair hconflict => ?_
  obtain ⟨y, hy, hsees⟩ := hpair hconflict
  exact ⟨y, hy, hsees.imp_right (List.mem_cons_of_mem x)⟩

variable [DecidableEq ξ]

theorem KeepsApart.deleteAt (h : s.KeepsApart conflicts) {snapshot : List ξ} {p : ρ → Bool}
    {index : ℕ} (hdelete : s.deleteAt x snapshot p index = some s') : s'.KeepsApart conflicts := by
  obtain ⟨version, hversion, -, -, hfree, rfl⟩ := deleteAt_eq_some.mp hdelete
  obtain ⟨hindex, rfl⟩ := List.getElem?_eq_some_iff.mp hversion
  refine List.pairwise_iff_getElem.mpr fun i j hi hj hij => ?_
  simp only [List.length_set] at hi hj
  have hpair := List.pairwise_iff_getElem.mp h i j hi hj hij
  simp only [List.getElem_set]
  split
  · next hsame =>
      -- A row without a mark has no later rival.
      subst hsame
      rw [if_neg (Nat.ne_of_lt hij)]
      intro hconflict
      obtain ⟨y, hy, -⟩ := hpair hconflict
      rw [hfree] at hy
      cases hy
  · split
    · next hsame =>
        subst hsame
        exact hpair
    · exact hpair

theorem KeepsApart.insert (h : s.KeepsApart conflicts) {row : ρ}
    (hinsert : s.insert x conflicts row = .inserted s') : s'.KeepsApart conflicts := by
  have hdead : ∀ version ∈ s.versions, conflicts version.row row = true →
      version.IsDead s.committed x := by
    intro version hmem hconflict
    unfold Store.insert at hinsert
    split at hinsert
    · cases hinsert
    · split at hinsert
      · cases hinsert
      · next hnone =>
          by_contra halive
          exact hnone ⟨version, hmem, hconflict, halive⟩
  rw [insert_eq_inserted hinsert]
  refine List.pairwise_append.mpr ⟨h, List.pairwise_singleton _ _, ?_⟩
  intro version hmem later hlater hconflict
  rw [List.mem_singleton.mp hlater] at hconflict ⊢
  exact (hdead version hmem hconflict).2

theorem KeepsApart.rollback (h : s.KeepsApart conflicts) (hopen : x ∉ s.committed) :
    (s.rollback x).KeepsApart conflicts := by
  refine List.pairwise_map.mpr (List.Pairwise.imp_of_mem ?_ (h.filter _))
  intro earlier later _ hlater hpair hconflict
  rw [restore_row, restore_row] at hconflict
  have hother : later.insertedBy ≠ x := of_decide_eq_true (List.mem_filter.mp hlater).2
  obtain ⟨y, hy, hsees⟩ := hpair hconflict
  refine ⟨y, mem_deletedBy_restore.mpr ⟨hy, ?_⟩, by rwa [restore_insertedBy]⟩
  rintro rfl
  exact hsees.elim (fun hown => hother hown.symm) hopen

/-- Rows that are there for everyone do not conflict. -/
theorem KeepsApart.current (h : s.KeepsApart conflicts) (p : ρ → Bool) :
    (s.current p).Pairwise fun earlier later => conflicts earlier later = false := by
  refine List.pairwise_map.mpr (List.Pairwise.imp_of_mem ?_ (h.filter _))
  intro earlier later hearlier hlater hpair
  have hcurrent : ∀ version : Version ρ ξ,
      version ∈ s.versions.filter (fun version =>
        p version.row && decide (version.IsCurrent s.committed)) →
      version.IsCurrent s.committed := fun version hmem =>
    of_decide_eq_true (Bool.and_eq_true_iff.mp (List.mem_filter.mp hmem).2).2
  rw [← Bool.not_eq_true]
  intro hconflict
  obtain ⟨y, hy, hsees⟩ := hpair hconflict
  apply (hcurrent earlier hearlier).2 y hy
  rcases hsees with rfl | hcommitted
  · exact (hcurrent later hlater).1
  · exact hcommitted

end Constraints

end Store

end Apsis.Library
