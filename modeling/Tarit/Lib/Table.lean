import Mathlib.Algebra.BigOperators.Group.List.Basic
import Mathlib.Algebra.Group.Pi.Basic
import Mathlib.Data.List.Nodup
import Mathlib.Tactic.Abel

/-!
# Tables with a primary key

A table is a list of rows no two of which have the same key. Looking a key up gives the one
row that has it, and the lookups of a table after an insert, an update and a delete are told
from those before it. So is the tally of a table: the weights of its rows added up.
-/
namespace Tarit.Lib

open List

structure Table {α κ : Type} (key : α → κ) where
  rows : List α
  nodup : (rows.map key).Nodup

namespace Table

variable {α κ : Type} {key : α → κ}

instance : EmptyCollection (Table key) := ⟨[], nodup_nil⟩

variable {r row : α} {k : κ} {cond : α → Bool} {t : Table key}

def filter (t : Table key) (p : α → Bool) : Table key where
  rows := t.rows.filter p
  nodup := t.nodup.sublist (filter_sublist.map key)

def update (t : Table key) (cond : α → Bool) (set : α → α) (hset : ∀ r, key (set r) = key r) :
    Table key where
  rows := t.rows.map fun r => if cond r then set r else r
  nodup := by
    have hkeys : (key ∘ fun r => if cond r then set r else r) = key := by
      funext r
      show key (if cond r then set r else r) = key r
      split
      · exact hset r
      · rfl
    rw [map_map, hkeys]
    exact t.nodup

variable [DecidableEq κ]

def find? (t : Table key) (k : κ) : Option α := t.rows.find? fun r => key r = k

/-- Add a row if no row has its key. -/
def insert (t : Table key) (row : α) : Table key :=
  if h : key row ∈ t.rows.map key then t
  else ⟨t.rows ++ [row], by
    rw [map_append, map_singleton]
    exact nodup_append_comm.mp (nodup_cons.mpr ⟨h, t.nodup⟩)⟩

theorem find?_eq_some_iff : t.find? k = some r ↔ r ∈ t.rows ∧ key r = k := by
  constructor
  · intro h
    have hk := List.find?_some h
    exact ⟨mem_of_find?_eq_some h, of_decide_eq_true hk⟩
  · intro ⟨hr, hk⟩
    cases h : t.find? k with
    | none =>
      have hne := List.find?_eq_none.mp h r hr
      exact absurd (decide_eq_true hk) hne
    | some r' =>
      have hr' := List.find?_some h
      rw [inj_on_of_nodup_map t.nodup (mem_of_find?_eq_some h) hr
        ((of_decide_eq_true hr').trans hk.symm)]

theorem find?_eq_none_iff : t.find? k = none ↔ k ∉ t.rows.map key := by
  rw [find?, List.find?_eq_none]
  simp [mem_map]

theorem find?_filter (p : α → Bool) : (t.filter p).find? k = (t.find? k).filter p := by
  ext r
  simp [find?_eq_some_iff, filter, Option.filter_eq_some_iff, and_comm, and_left_comm]

theorem find?_update {set : α → α} (hset : ∀ r, key (set r) = key r) :
    (t.update cond set hset).find? k = (t.find? k).map fun r => if cond r then set r else r := by
  have hkey (r : α) : key (if cond r then set r else r) = key r := by
    split
    · exact hset r
    · rfl
  ext r
  rw [find?_eq_some_iff, Option.map_eq_some_iff]
  constructor
  · intro ⟨hr, hk⟩
    obtain ⟨r', hr', rfl⟩ := mem_map.mp hr
    exact ⟨r', t.find?_eq_some_iff.mpr ⟨hr', (hkey r').symm.trans hk⟩, rfl⟩
  · intro ⟨r', hr', h⟩
    obtain ⟨hmem, hk⟩ := t.find?_eq_some_iff.mp hr'
    subst h
    exact ⟨mem_map_of_mem hmem, (hkey r').trans hk⟩

theorem mem_insert (h : t.find? (key row) = none) :
    r ∈ (t.insert row).rows ↔ r ∈ t.rows ∨ r = row := by
  rw [insert, dif_neg (t.find?_eq_none_iff.mp h), mem_append, mem_singleton]

theorem find?_insert (t : Table key) (h : t.find? (key row) = none) (k : κ) :
    (t.insert row).find? k = if k = key row then some row else t.find? k := by
  ext r
  rw [find?_eq_some_iff, t.mem_insert h]
  split
  · next hk =>
    subst hk
    constructor
    · rintro ⟨hr | rfl, hkey⟩
      · exact absurd (hkey ▸ mem_map_of_mem hr) (t.find?_eq_none_iff.mp h)
      · rfl
    · intro hr
      cases hr
      exact ⟨.inr rfl, rfl⟩
  · next hk =>
    rw [find?_eq_some_iff]
    constructor
    · rintro ⟨hr | rfl, hkey⟩
      · exact ⟨hr, hkey⟩
      · exact absurd hkey.symm hk
    · exact fun ⟨hr, hkey⟩ => ⟨.inl hr, hkey⟩

/-! ## Statements on one row -/

theorem rows_of_find? (h : t.find? k = some r) :
    ∃ before after, t.rows = before ++ r :: after ∧ ∀ x ∈ before ++ after, key x ≠ k := by
  obtain ⟨hr, hk⟩ := t.find?_eq_some_iff.mp h
  obtain ⟨before, after, hrows⟩ := append_of_mem hr
  refine ⟨before, after, hrows, fun x hx hkey => ?_⟩
  have hnodup := t.nodup
  rw [hrows, map_append, map_cons] at hnodup
  have hnotMem := (nodup_middle.mp hnodup).notMem
  rw [← map_append, mem_map] at hnotMem
  exact hnotMem ⟨x, hx, hkey.trans hk.symm⟩

theorem filter_of_find? (hcond : ∀ x, cond x → key x = k) :
    t.rows.filter cond = ((t.find? k).filter cond).toList := by
  cases h : t.find? k with
  | none =>
    refine filter_eq_nil_iff.mpr fun x hx hc => ?_
    have hk := t.find?_eq_none_iff.mp h
    exact hk (hcond x hc ▸ mem_map_of_mem hx)
  | some r =>
    obtain ⟨before, after, hrows, hother⟩ := t.rows_of_find? h
    have hnone (l : List α) (hl : l ⊆ before ++ after) : l.filter cond = [] :=
      filter_eq_nil_iff.mpr fun x hx hc => hother x (hl hx) (hcond x hc)
    rw [hrows, filter_append, filter_cons, hnone before (subset_append_left _ _),
      hnone after (subset_append_right _ _)]
    cases hc : cond r with
    | false => simp [hc]
    | true => simp [hc, Option.filter]

section Tally
variable {M : Type} [AddCommGroup M] {t : Table key} {w : α → M}

def tally (t : Table key) (w : α → M) : M := (t.rows.map w).sum

theorem tally_insert (h : t.find? (key row) = none) :
    (t.insert row).tally w = t.tally w + w row := by
  rw [tally, insert, dif_neg (t.find?_eq_none_iff.mp h), map_append, sum_append]
  exact congrArg _ (add_zero _)

theorem tally_update {set : α → α} (hset : ∀ r, key (set r) = key r)
    (h : t.find? k = some r) (hcond : ∀ x, cond x → key x = k) (hr : cond r = true) :
    (t.update cond set hset).tally w = t.tally w - w r + w (set r) := by
  obtain ⟨before, after, hrows, hother⟩ := t.rows_of_find? h
  have hsame (l : List α) (hl : l ⊆ before ++ after) :
      (l.map fun x => if cond x then set x else x) = l := by
    refine (map_congr_left fun x hx => if_neg fun hc => ?_).trans (map_id' l)
    exact hother x (hl hx) (hcond x hc)
  show ((t.rows.map fun x => if cond x then set x else x).map w).sum = (t.rows.map w).sum - w r + _
  rw [hrows, map_append, map_cons,
    hsame before (subset_append_left _ _), hsame after (subset_append_right _ _), if_pos hr]
  simp only [map_append, map_cons, sum_append, sum_cons]
  abel

omit [DecidableEq κ] in
theorem tally_update_of_eq {set : α → α} (hset : ∀ r, key (set r) = key r)
    {w : α → M} (hw : ∀ r, w (set r) = w r) : (t.update cond set hset).tally w = t.tally w := by
  show ((t.rows.map fun x => if cond x then set x else x).map w).sum = (t.rows.map w).sum
  rw [map_map]
  refine congrArg List.sum (map_congr_left fun x _ => ?_)
  show w (if cond x then set x else x) = w x
  split
  · exact hw x
  · rfl

theorem tally_filter {p : α → Bool} (h : t.find? k = some r)
    (hp : ∀ x, key x ≠ k → p x) (hr : p r = false) :
    (t.filter p).tally w = t.tally w - w r := by
  obtain ⟨before, after, hrows, hother⟩ := t.rows_of_find? h
  have hsame (l : List α) (hl : l ⊆ before ++ after) : l.filter p = l :=
    filter_eq_self.mpr fun x hx => hp x (hother x (hl hx))
  show ((t.rows.filter p).map w).sum = (t.rows.map w).sum - w r
  rw [hrows, filter_append, filter_cons,
    hsame before (subset_append_left _ _), hsame after (subset_append_right _ _), hr]
  simp only [Bool.false_eq_true, if_false, map_append, map_cons, sum_append,
    sum_cons]
  abel

end Tally

end Table

end Tarit.Lib
