/-
# Reading a table page by page

A page is what `ORDER BY key OFFSET offset LIMIT limit` returns. A client asks for one page
after the other while rows are being inserted, so a row may move to a later place, but never
to an earlier one.

That is enough not to miss it. The number of smaller keys is the place of a row, and as long
as the row has not been received, its place is not below the next offset.
-/

import Mathlib.Data.List.Nodup
import Mathlib.Data.List.Perm.Subperm
import Mathlib.Data.List.Sort

namespace Apsis.Library

universe u v

variable {ρ : Type u} {κ : Type v} [LinearOrder κ] (key : ρ → κ)

/-- `ORDER BY key` -/
def inOrder (rows : List ρ) : List ρ := rows.insertionSort (Order.Preimage key (· ≤ ·))

/-- `OFFSET offset LIMIT limit` -/
def page (rows : List ρ) (limit offset : ℕ) : List ρ := ((inOrder key rows).drop offset).take limit

/-- How many rows have a smaller key. -/
def rank (rows : List ρ) (k : κ) : ℕ := rows.countP fun r => decide (key r < k)

variable {key} {rows : List ρ} {r : ρ} {k : κ} {limit offset : ℕ}

theorem inOrder_perm (key : ρ → κ) (rows : List ρ) : (inOrder key rows).Perm rows :=
  List.perm_insertionSort _ _

/-- Distinct keys come in increasing order. -/
theorem pairwise_inOrder (hnodup : (rows.map key).Nodup) :
    (inOrder key rows).Pairwise fun a b => key a < key b := by
  have hsorted := List.pairwise_insertionSort (Order.Preimage key (· ≤ ·)) rows
  have hdistinct : (inOrder key rows).Pairwise fun a b => key a ≠ key b :=
    List.pairwise_map.mp (((inOrder_perm key rows).map key).nodup_iff.mpr hnodup)
  exact hsorted.imp₂ (fun _ _ => lt_of_le_of_ne) hdistinct

/-- In increasing order, the place of a row is the number of smaller ones. -/
theorem countP_of_pairwise {l : List ρ} (hsorted : l.Pairwise fun a b => key a < key b) {i : ℕ}
    (hi : l[i]? = some r) : l.countP (fun a => decide (key a < key r)) = i := by
  induction l generalizing i with
  | nil => cases hi
  | cons first rest ih =>
      obtain ⟨hfirst, hrest⟩ := List.pairwise_cons.mp hsorted
      cases i with
      | zero =>
          cases hi
          rw [List.countP_eq_zero]
          intro a hmem
          rw [decide_eq_true_iff, not_lt]
          rcases List.mem_cons.mp hmem with rfl | hmem
          · exact le_rfl
          · exact le_of_lt (hfirst a hmem)
      | succ i =>
          have hsmaller := hfirst r (List.mem_of_getElem? hi)
          rw [List.countP_cons_of_pos (by simpa using hsmaller), ih hrest hi]

/-- A row stands at its rank. -/
theorem getElem?_rank (hnodup : (rows.map key).Nodup) (hmem : r ∈ rows) :
    (inOrder key rows)[rank key rows (key r)]? = some r := by
  obtain ⟨i, hi⟩ := List.mem_iff_getElem?.mp ((inOrder_perm key rows).mem_iff.mpr hmem)
  rw [rank, ← (inOrder_perm key rows).countP_eq, countP_of_pairwise (pairwise_inOrder hnodup) hi]
  exact hi

theorem mem_page (hnodup : (rows.map key).Nodup) (hmem : r ∈ rows)
    (hlow : offset ≤ rank key rows (key r)) (hhigh : rank key rows (key r) < offset + limit) :
    r ∈ page key rows limit offset := by
  apply List.mem_of_getElem? (i := rank key rows (key r) - offset)
  rw [page, List.getElem?_take_of_lt (by lia), List.getElem?_drop, Nat.add_sub_cancel' hlow]
  exact getElem?_rank hnodup hmem

/-- More keys, higher ranks. -/
theorem rank_le_rank {rows' : List ρ} (hnodup : (rows.map key).Nodup)
    (hmore : ∀ r ∈ rows, key r ∈ rows'.map key) : rank key rows k ≤ rank key rows' k := by
  have hcount : ∀ l : List ρ,
      rank key l k = ((l.map key).filter fun k' => decide (k' < k)).length := by
    intro l
    rw [rank, ← List.countP_eq_length_filter, List.countP_map]
    rfl
  rw [hcount, hcount]
  apply (List.Nodup.subperm (hnodup.filter _) _).length_le
  intro k' hk'
  obtain ⟨hmem, hlt⟩ := List.mem_filter.mp hk'
  obtain ⟨r, hr, rfl⟩ := List.mem_map.mp hmem
  exact List.mem_filter.mpr ⟨hmore r hr, hlt⟩

/-! ## While rows are inserted -/

section Growing

variable {tables : ℕ → List ρ}

omit [LinearOrder κ] in
/-- A key stays as long as none is deleted. -/
theorem mem_keys_of_le (hgrow : ∀ i, ∀ r ∈ tables i, key r ∈ (tables (i + 1)).map key)
    (hmem : k ∈ (tables 0).map key) (i : ℕ) : k ∈ (tables i).map key := by
  induction i with
  | zero => exact hmem
  | succ i ih =>
      obtain ⟨r, hr, rfl⟩ := List.mem_map.mp ih
      exact hgrow i r hr

/-- The step lemma: a key that has not been received is not below the next offset. -/
theorem received_or_le_rank (limit : ℕ) (hnodup : ∀ i, ((tables i).map key).Nodup)
    (hgrow : ∀ i, ∀ r ∈ tables i, key r ∈ (tables (i + 1)).map key)
    (hmem : k ∈ (tables 0).map key) (i : ℕ) :
    (∃ j < i, ∃ r ∈ page key (tables j) limit (j * limit), key r = k) ∨
      i * limit ≤ rank key (tables i) k := by
  induction i with
  | zero => exact Or.inr (by simp)
  | succ i ih =>
      rcases ih with ⟨j, hj, hreceived⟩ | hlow
      · exact Or.inl ⟨j, Nat.lt_succ_of_lt hj, hreceived⟩
      · by_cases hhigh : rank key (tables i) k < i * limit + limit
        · obtain ⟨r, hr, rfl⟩ := List.mem_map.mp (mem_keys_of_le hgrow hmem i)
          exact Or.inl ⟨i, Nat.lt_succ_self i, r, mem_page (hnodup i) hr hlow hhigh, rfl⟩
        · have hmore := rank_le_rank (k := k) (hnodup i) (hgrow i)
          exact Or.inr (by lia)

/-- When a page comes back short, every key of the first table has been received. -/
theorem exists_mem_page (hnodup : ∀ i, ((tables i).map key).Nodup)
    (hgrow : ∀ i, ∀ r ∈ tables i, key r ∈ (tables (i + 1)).map key)
    (hmem : k ∈ (tables 0).map key) {n : ℕ}
    (hshort : (page key (tables n) limit (n * limit)).length < limit) :
    ∃ i ≤ n, ∃ r ∈ page key (tables i) limit (i * limit), key r = k := by
  rcases received_or_le_rank limit hnodup hgrow hmem n with
    ⟨i, hi, hreceived⟩ | hlow
  · exact ⟨i, Nat.le_of_lt hi, hreceived⟩
  · obtain ⟨r, hr, rfl⟩ := List.mem_map.mp (mem_keys_of_le hgrow hmem n)
    -- A short page goes up to the last row.
    have hplace : rank key (tables n) (key r) < (inOrder key (tables n)).length :=
      (List.getElem?_eq_some_iff.mp (getElem?_rank (hnodup n) hr)).1
    rw [page, List.length_take, List.length_drop] at hshort
    exact ⟨n, Nat.le_refl n, r, mem_page (hnodup n) hr hlow (by lia), rfl⟩

end Growing

/-! ## While nothing changes -/

/-- The pages together are the beginning of the table. -/
theorem flatMap_page (n : ℕ) :
    (List.range n).flatMap (fun i => page key rows limit (i * limit)) =
      (inOrder key rows).take (n * limit) := by
  induction n with
  | zero => simp
  | succ n ih =>
      rw [List.range_succ, List.flatMap_append, ih, List.flatMap_singleton, page, Nat.succ_mul,
        List.take_add]

theorem length_page : (page key rows limit offset).length = min limit (rows.length - offset) := by
  rw [page, List.length_take, List.length_drop, (inOrder_perm key rows).length_eq]

end Apsis.Library
