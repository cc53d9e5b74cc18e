/-
# Tables with a primary key

A table is a list of rows no two of which share a key. The key is a field of the
row, given by a function, and uniqueness is part of the type: a table that
breaks its primary key cannot be built. `UPDATE .. SET .. WHERE ..` is `update`,
which never touches the key, and a row is read by its key with `find?`.

`find?_update` is the one fact about updates that proofs need: looking a row up
after an update is looking it up before and then applying the assignment where
the row met the condition.
-/

import Mathlib.Data.List.Nodup

namespace Apsis.Library

universe u v

/-- Rows of type `ρ` with distinct keys. -/
structure Table {κ : Type u} {ρ : Type v} (key : ρ → κ) where
  /-- The rows, in no particular order as far as the table is concerned. -/
  rows : List ρ
  /-- The primary key constraint. -/
  nodup : (rows.map key).Nodup

namespace Table

variable {κ : Type u} {ρ : Type v} {key : ρ → κ}

/-- A key identifies its row. -/
theorem eq_of_key_eq (t : Table key) {r r' : ρ} (hr : r ∈ t.rows) (hr' : r' ∈ t.rows)
    (hkey : key r = key r') : r = r' :=
  List.inj_on_of_nodup_map t.nodup hr hr' hkey

/-- `UPDATE .. SET f WHERE p`, for an assignment that leaves the key alone. -/
def update (t : Table key) (p : ρ → Bool) (f : ρ → ρ) (hkey : ∀ r, key (f r) = key r) :
    Table key where
  rows := t.rows.map fun r => if p r then f r else r
  nodup := by
    have hsame : (key ∘ fun r => if p r then f r else r) = key := by
      funext r
      by_cases hp : p r <;> simp [hp, hkey]
    rw [List.map_map, hsame]
    exact t.nodup

variable [DecidableEq κ]

/-- The row with a given key. -/
def find? (t : Table key) (k : κ) : Option ρ := t.rows.find? fun r => key r = k

theorem find?_eq_some_iff (t : Table key) {k : κ} {r : ρ} :
    t.find? k = some r ↔ r ∈ t.rows ∧ key r = k := by
  constructor
  · intro h
    exact ⟨List.mem_of_find?_eq_some h, by simpa using List.find?_some h⟩
  · rintro ⟨hmem, hk⟩
    cases hfind : t.find? k with
    | none =>
        have hall := List.find?_eq_none.mp hfind r hmem
        simp [hk] at hall
    | some r' =>
        have hr' : key r' = k := by simpa using List.find?_some hfind
        rw [t.eq_of_key_eq (List.mem_of_find?_eq_some hfind) hmem (hr'.trans hk.symm)]

theorem key_of_find? {t : Table key} {k : κ} {r : ρ} (h : t.find? k = some r) :
    key r = k := (t.find?_eq_some_iff.mp h).2

theorem find?_key {t : Table key} {r : ρ} (h : r ∈ t.rows) : t.find? (key r) = some r :=
  t.find?_eq_some_iff.mpr ⟨h, rfl⟩

theorem find?_eq_none_iff (t : Table key) {k : κ} :
    t.find? k = none ↔ k ∉ t.rows.map key := by
  simp [find?, List.find?_eq_none]

/-- Reading a row back after an update. -/
theorem find?_update (t : Table key) (p : ρ → Bool) (f : ρ → ρ)
    (hkey : ∀ r, key (f r) = key r) (k : κ) :
    (t.update p f hkey).find? k = (t.find? k).map fun r => if p r then f r else r := by
  have hpred : ((fun r => decide (key r = k)) ∘ fun r => if p r then f r else r) =
      fun r => decide (key r = k) := by
    funext r
    by_cases hp : p r <;> simp [hp, hkey]
  simp only [find?, update, List.find?_map, hpred]

omit [DecidableEq κ] in
/-- An update that does not change whether rows meet a condition. -/
theorem countP_update (t : Table key) (p : ρ → Bool) {f : ρ → ρ}
    (hkey : ∀ r, key (f r) = key r) {q : ρ → Bool} (hq : ∀ r, q (f r) = q r) :
    (t.update p f hkey).rows.countP q = t.rows.countP q := by
  rw [update, List.countP_map]
  apply List.countP_congr
  intro r _
  by_cases hp : p r <;> simp [hp, hq]

/-- An update of a single row that no longer meets a condition. -/
theorem countP_update_key (t : Table key) {k : κ} {f : ρ → ρ} (hkey : ∀ r, key (f r) = key r)
    {q : ρ → Bool} {r : ρ} (hfind : t.find? k = some r) (hbefore : q r = true)
    (hafter : q (f r) = false) :
    (t.update (fun r => decide (key r = k)) f hkey).rows.countP q + 1 = t.rows.countP q := by
  obtain ⟨hmem, rfl⟩ := t.find?_eq_some_iff.mp hfind
  obtain ⟨before, after, hrows⟩ := List.append_of_mem hmem
  have hnodup := t.nodup
  rw [hrows, List.map_append, List.map_cons] at hnodup
  obtain ⟨-, hrest, hdisjoint⟩ := List.nodup_append.mp hnodup
  -- No other row has its key.
  have hother : ∀ other ∈ before ++ after, key other ≠ key r := by
    intro other hother
    rcases List.mem_append.mp hother with hbefore | hafter
    · exact hdisjoint _ (List.mem_map_of_mem hbefore) _ List.mem_cons_self
    · intro hsame
      exact (List.nodup_cons.mp hrest).1 (hsame ▸ List.mem_map_of_mem hafter)
  have hsame : ∀ part : List ρ, (∀ other ∈ part, other ∈ before ++ after) →
      part.countP (q ∘ fun other => if decide (key other = key r) = true then f other else other) =
        part.countP q := by
    intro part hpart
    apply List.countP_congr
    intro other hmem
    simp [hother other (hpart other hmem)]
  rw [update, List.countP_map, hrows, List.countP_append, List.countP_append, List.countP_cons,
    List.countP_cons, hsame before fun _ => List.mem_append_left after,
    hsame after fun _ => List.mem_append_right before]
  simp [hbefore, hafter, Nat.add_assoc]

/-- `INSERT`, which fails when the key is taken. -/
def insert? (t : Table key) (r : ρ) : Option (Table key) :=
  if hfresh : key r ∈ t.rows.map key then none
  else some
    { rows := t.rows ++ [r]
      nodup := by
        rw [List.map_append, List.map_singleton, ← List.concat_eq_append]
        exact List.Nodup.concat hfresh t.nodup }

theorem insert?_eq_some {t t' : Table key} {r : ρ} (h : t.insert? r = some t') :
    t.find? (key r) = none ∧ t'.rows = t.rows ++ [r] := by
  unfold insert? at h
  split at h
  · simp at h
  · next hfresh =>
      cases h
      exact ⟨t.find?_eq_none_iff.mpr hfresh, rfl⟩

/-- A row with a new key is inserted. -/
theorem exists_insert? {t : Table key} {r : ρ} (hnone : t.find? (key r) = none) :
    ∃ t', t.insert? r = some t' :=
  ⟨_, dif_neg (t.find?_eq_none_iff.mp hnone)⟩

/-- Reading back after an insertion. -/
theorem find?_of_insert? {t t' : Table key} {r : ρ} (h : t.insert? r = some t') (k : κ) :
    t'.find? k = if key r = k then some r else t.find? k := by
  obtain ⟨hnone, hrows⟩ := insert?_eq_some h
  by_cases hk : key r = k
  · rw [if_pos hk, find?_eq_some_iff, hrows]
    exact ⟨by simp, hk⟩
  · simp [find?, hrows, List.find?_append, hk]

end Table

end Apsis.Library
