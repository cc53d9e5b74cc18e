/-
# Paging through the satellites

`list_paginated` orders the satellites by id, and their ids are random, so a satellite that
is inserted while a client goes through the pages may come anywhere in the order. The client
asks for the offsets 0, `limit`, 2 · `limit` and so on until a page comes back short.
-/

import Apsis.Library.Paging
import Apsis.Tracking.Ingest

namespace Apsis.Tracking

open Apsis.Library Apsis.Core

/-! ## The endpoint -/

/-- `BaseRepo.list_paginated` of the satellites: the page and the total. The two statements
may see different tables. -/
def listPaginated (counted listed : SatelliteTable) (limit offset : ℕ) : List Satellite × ℕ :=
  (page Satellite.id listed.rows limit offset, counted.rows.length)

/-- `SatelliteRead`, without its timestamps. -/
structure SatelliteRead where
  id : Uuid
  noradId : ℤ
  name : Text
  epoch : Time
  deriving DecidableEq

/-- `SatelliteRead.model_validate` -/
def readOf (satellite : Satellite) : SatelliteRead where
  id := satellite.id
  noradId := satellite.noradId
  name := satellite.name
  epoch := satellite.epoch

/-- The item tells a client which satellite it is, by its id, and what its row says. -/
structure SatelliteRead.Describes (item : SatelliteRead) (satellite : Satellite) : Prop where
  id : item.id = satellite.id
  noradId : item.noradId = satellite.noradId
  name : item.name = satellite.name
  epoch : item.epoch = satellite.epoch

/-- `SatelliteListResponse` -/
structure SatelliteListResponse where
  items : List SatelliteRead
  total : ℕ
  limit : ℕ
  offset : ℕ
  deriving DecidableEq

/-- `list_satellites`; `none` is the answer to a limit that the query does not allow. -/
def listSatellites (counted listed : SatelliteTable) (limit offset : ℕ) :
    Option SatelliteListResponse :=
  if 1 ≤ limit ∧ limit ≤ 100 then
    let (items, total) := listPaginated counted listed limit offset
    some ⟨items.map readOf, total, limit, offset⟩
  else none

/-! ## The client -/

/-- Satellites are inserted, one or more or none. -/
def Inserts : SatelliteTable → SatelliteTable → Prop :=
  Relation.ReflTransGen fun before after => ∃ satellite, before.create satellite = some after

/-- What the requests of a client see: the tables that the statements of the request with
number `i` read, the count first. -/
structure Paging where
  counted : ℕ → SatelliteTable
  listed : ℕ → SatelliteTable
  within : ∀ i, Inserts (counted i) (listed i)
  between : ∀ i, Inserts (listed i) (counted (i + 1))

/-- The answer to the request with number `i`. -/
def Paging.answer (paging : Paging) (limit i : ℕ) : List Satellite × ℕ :=
  listPaginated (paging.counted i) (paging.listed i) limit (i * limit)

/-- The request with number `n` is the last one: its page comes back short, and the ones
before it were full. -/
def Paging.EndsAt (paging : Paging) (limit n : ℕ) : Prop :=
  (∀ i < n, limit ≤ (paging.answer limit i).1.length) ∧ (paging.answer limit n).1.length < limit

instance (paging : Paging) (limit n : ℕ) : Decidable (paging.EndsAt limit n) :=
  inferInstanceAs (Decidable (_ ∧ _))

/-- The rows of the pages up to the request with number `n`. -/
def Paging.received (paging : Paging) (limit n : ℕ) : List Satellite :=
  (List.range (n + 1)).flatMap fun i => (paging.answer limit i).1

/-- What `list_satellites` answers to the request with number `i`. -/
def Paging.response (paging : Paging) (limit i : ℕ) : Option SatelliteListResponse :=
  listSatellites (paging.counted i) (paging.listed i) limit (i * limit)

/-- The items that a client of the endpoint has received up to the request with number `n`. -/
def Paging.items (paging : Paging) (limit n : ℕ) : List SatelliteRead :=
  (List.range (n + 1)).flatMap fun i => (paging.response limit i).elim [] (·.items)

/-- No satellite is inserted. -/
def Paging.IsStill (paging : Paging) : Prop :=
  ∀ i, (paging.counted i).rows = (paging.counted 0).rows ∧
    (paging.listed i).rows = (paging.counted 0).rows

/-- `list_paginated` comes to all satellites that were there at the first request. If none is
inserted, the pages do come to an end, with every satellite once, in the order of their ids,
and every total is their number. -/
structure Paging.Complete (paging : Paging) (limit : ℕ) : Prop where
  misses : ∀ n, paging.EndsAt limit n →
    ∀ satellite ∈ (paging.counted 0).rows, satellite ∈ paging.received limit n
  ends : paging.IsStill → ∃ n, paging.EndsAt limit n
  ordered : paging.IsStill → ∀ n, paging.EndsAt limit n →
    (paging.received limit n).Perm (paging.counted 0).rows ∧
      (paging.received limit n).Pairwise (fun first second => first.id < second.id)
  total : paging.IsStill → ∀ i, (paging.answer limit i).2 = (paging.counted 0).rows.length

/-- The same, as a client of the endpoint sees it: by the items of the responses. -/
structure Paging.Served (paging : Paging) (limit : ℕ) : Prop where
  /-- A page of the endpoint is as long as that of `list_paginated`. -/
  responses : ∀ i, ∃ response, paging.response limit i = some response ∧
    response.items.length = (paging.answer limit i).1.length ∧
    response.limit = limit ∧ response.offset = i * limit
  misses : ∀ n, paging.EndsAt limit n → ∀ satellite ∈ (paging.counted 0).rows,
    ∃ item ∈ paging.items limit n, item.Describes satellite
  ordered : paging.IsStill → ∀ n, paging.EndsAt limit n →
    (∀ item ∈ paging.items limit n, ∃ satellite ∈ (paging.counted 0).rows,
      item.Describes satellite) ∧
      (paging.items limit n).length = (paging.counted 0).rows.length ∧
      (paging.items limit n).Pairwise fun first second => first.id < second.id
  total : paging.IsStill → ∀ i response, paging.response limit i = some response →
    response.total = (paging.counted 0).rows.length

/-! ## Completeness -/

/-- Insertions leave what is there. -/
theorem Inserts.subset {before after : SatelliteTable} (h : Inserts before after) :
    ∀ satellite ∈ before.rows, satellite ∈ after.rows := by
  induction h with
  | refl => exact fun _ hmem => hmem
  | tail _ hcreate ih =>
      obtain ⟨new, hcreate⟩ := hcreate
      intro satellite hmem
      rw [(SatelliteTable.rows_of_create hcreate).2.2]
      exact List.mem_append_left _ (ih satellite hmem)

section Client

variable {paging : Paging} {limit n : ℕ}

/-- A satellite that is listed is listed ever after. -/
theorem Paging.mem_listed_of_mem {satellite : Satellite} {i : ℕ}
    (hmem : satellite ∈ (paging.listed i).rows) : satellite ∈ (paging.listed (i + 1)).rows :=
  (paging.within (i + 1)).subset satellite ((paging.between i).subset satellite hmem)

theorem Paging.mem_listed {satellite : Satellite} (hmem : satellite ∈ (paging.counted 0).rows)
    (i : ℕ) : satellite ∈ (paging.listed i).rows := by
  induction i with
  | zero => exact (paging.within 0).subset satellite hmem
  | succ i ih => exact paging.mem_listed_of_mem ih

theorem Paging.mem_received {satellite : Satellite} (hmem : satellite ∈ (paging.counted 0).rows)
    (hend : paging.EndsAt limit n) : satellite ∈ paging.received limit n := by
  obtain ⟨i, hi, item, hitem, hid⟩ : ∃ i ≤ n,
      ∃ item ∈ page Satellite.id (paging.listed i).rows limit (i * limit), item.id = satellite.id :=
    exists_mem_page (fun i => (paging.listed i).ids)
      (fun _ _ hmem => List.mem_map_of_mem (paging.mem_listed_of_mem hmem))
      (List.mem_map_of_mem (paging.mem_listed hmem 0)) hend.2
  -- The item has the id of the satellite, and both are rows of one table.
  have hlisted : item ∈ (paging.listed i).rows :=
    (inOrder_perm _ _).mem_iff.mp (List.mem_of_mem_drop (List.mem_of_mem_take hitem))
  have hsame : item = satellite :=
    List.inj_on_of_nodup_map (paging.listed i).ids hlisted (paging.mem_listed hmem i) hid
  exact List.mem_flatMap.mpr ⟨i, List.mem_range.mpr (Nat.lt_succ_of_le hi), hsame ▸ hitem⟩

theorem Paging.length_answer (hstill : paging.IsStill) (i : ℕ) :
    (paging.answer limit i).1.length = min limit ((paging.counted 0).rows.length - i * limit) := by
  rw [Paging.answer, listPaginated, length_page, (hstill i).2]

/-- The last page is the one with the last satellite, or an empty one after it. -/
theorem Paging.exists_endsAt (hlimit : 1 ≤ limit) (hstill : paging.IsStill) :
    ∃ n, paging.EndsAt limit n := by
  have hdivide := Nat.div_add_mod (paging.counted 0).rows.length limit
  have hrest := Nat.mod_lt (paging.counted 0).rows.length hlimit
  rw [Nat.mul_comm] at hdivide
  refine ⟨(paging.counted 0).rows.length / limit, fun i hi => ?_, ?_⟩
  · rw [paging.length_answer hstill]
    have hfull : (i + 1) * limit ≤ (paging.counted 0).rows.length / limit * limit :=
      Nat.mul_le_mul_right limit hi
    rw [Nat.succ_mul] at hfull
    lia
  · rw [paging.length_answer hstill]
    lia

theorem Paging.received_eq (hstill : paging.IsStill) (hend : paging.EndsAt limit n) :
    paging.received limit n = inOrder Satellite.id (paging.counted 0).rows := by
  have hpages : paging.received limit n = (List.range (n + 1)).flatMap fun i =>
      page Satellite.id (paging.counted 0).rows limit (i * limit) := by
    refine List.flatMap_congr fun i _ => ?_
    rw [Paging.answer, listPaginated, (hstill i).2]
  have hshort := hend.2
  rw [paging.length_answer hstill] at hshort
  rw [hpages, flatMap_page, List.take_of_length_le]
  rw [(inOrder_perm _ _).length_eq, Nat.succ_mul]
  lia

/-! ### What the responses show -/

theorem describes_readOf (satellite : Satellite) : (readOf satellite).Describes satellite :=
  ⟨rfl, rfl, rfl, rfl⟩

/-- A limit that the query allows is answered with the page of `list_paginated`. -/
theorem Paging.response_eq (hlimit : 1 ≤ limit) (hmost : limit ≤ 100) (i : ℕ) :
    paging.response limit i = some ⟨(paging.answer limit i).1.map readOf,
      (paging.answer limit i).2, limit, i * limit⟩ :=
  if_pos ⟨hlimit, hmost⟩

theorem Paging.items_eq (hlimit : 1 ≤ limit) (hmost : limit ≤ 100) (n : ℕ) :
    paging.items limit n = (paging.received limit n).map readOf := by
  rw [Paging.items, Paging.received, List.map_flatMap]
  refine List.flatMap_congr fun i _ => ?_
  rw [paging.response_eq hlimit hmost]
  rfl

/-- A client of the endpoint receives what `list_paginated` comes to. -/
theorem Paging.Complete.served (hcomplete : paging.Complete limit) (hlimit : 1 ≤ limit)
    (hmost : limit ≤ 100) : paging.Served limit := by
  constructor
  · exact fun i => ⟨_, paging.response_eq hlimit hmost i, List.length_map _, rfl, rfl⟩
  · intro n hend satellite hmem
    rw [paging.items_eq hlimit hmost]
    exact ⟨_, List.mem_map_of_mem (hcomplete.misses n hend satellite hmem),
      describes_readOf satellite⟩
  · intro hstill n hend
    obtain ⟨hperm, hsorted⟩ := hcomplete.ordered hstill n hend
    rw [paging.items_eq hlimit hmost]
    refine ⟨fun item hitem => ?_, ?_, List.pairwise_map.mpr hsorted⟩
    · obtain ⟨satellite, hmem, rfl⟩ := List.mem_map.mp hitem
      exact ⟨satellite, hperm.mem_iff.mp hmem, describes_readOf satellite⟩
    · rw [List.length_map, hperm.length_eq]
  · intro hstill i response hresponse
    rw [paging.response_eq hlimit hmost, Option.some.injEq] at hresponse
    rw [← hresponse]
    exact hcomplete.total hstill i

end Client

/-- `list_paginated` comes to every satellite. -/
theorem Paging.complete {limit : ℕ} (hlimit : 1 ≤ limit) (paging : Paging) :
    paging.Complete limit := by
  constructor
  · exact fun n hend satellite hmem => paging.mem_received hmem hend
  · exact fun hstill => paging.exists_endsAt hlimit hstill
  · intro hstill n hend
    rw [paging.received_eq hstill hend]
    exact ⟨inOrder_perm _ _, pairwise_inOrder (paging.counted 0).ids⟩
  · exact fun hstill i => congrArg List.length (hstill i).1

/-- **No satellite is missed.** For every limit from 1 on, every table of satellites and all
insertions between the statements, `list_paginated` comes to every satellite. Where the
endpoint allows the limit, its client receives an item for each of them. -/
theorem paging_complete {limit : ℕ} (hlimit : 1 ≤ limit) (paging : Paging) :
    paging.Complete limit ∧ (limit ≤ 100 → paging.Served limit) :=
  ⟨paging.complete hlimit, (paging.complete hlimit).served hlimit⟩

/-- A table of satellites with these ids, which are their catalog numbers as well. -/
def satellitesOf (ids : List ℕ) (hnodup : ids.Nodup) : SatelliteTable where
  rows := ids.map fun id => ⟨id, id, "OBJECT".toList, "1 ".toList, "2 ".toList, 0⟩
  nodup := by
    rw [List.map_map]
    exact hnodup.map Nat.cast_injective
  ids := by
    rw [List.map_map]
    exact (List.map_id ids).symm ▸ hnodup

/-- After the first request, a satellite is inserted before all others. -/
def shiftedPaging : Paging where
  counted i := if i = 0 then satellitesOf [10, 20, 30] (by decide)
    else satellitesOf [10, 20, 30, 5] (by decide)
  listed i := if i = 0 then satellitesOf [10, 20, 30] (by decide)
    else satellitesOf [10, 20, 30, 5] (by decide)
  within _ := .refl
  between i := by
    by_cases hzero : i = 0
    · rw [if_pos hzero, if_neg (Nat.succ_ne_zero i)]
      exact .single ⟨⟨5, 5, "OBJECT".toList, "1 ".toList, "2 ".toList, 0⟩, rfl⟩
    · rw [if_neg hzero, if_neg (Nat.succ_ne_zero i)]
      exact .refl

/-- The client gets one satellite twice and misses none. -/
theorem shifted_complete : shiftedPaging.Complete 2 ∧ shiftedPaging.Served 2 ∧
    shiftedPaging.EndsAt 2 2 ∧
    (shiftedPaging.items 2 2).map (fun item => (item.id, item.noradId, item.name)) =
      [(10, 10, "OBJECT".toList), (20, 20, "OBJECT".toList), (20, 20, "OBJECT".toList),
        (30, 30, "OBJECT".toList)] := by
  obtain ⟨hcomplete, hserved⟩ := @paging_complete 2 (by decide) shiftedPaging
  refine ⟨hcomplete, hserved (by decide), ?_, ?_⟩
  · decide +kernel
  · decide +kernel

end Apsis.Tracking
