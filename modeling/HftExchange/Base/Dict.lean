import Mathlib.Data.List.AList
import Mathlib.Algebra.Order.BigOperators.Group.List
import Mathlib.Tactic.Ring

set_option autoImplicit false

namespace Base

abbrev Dict (κ β : Type) : Type := AList (fun _ : κ => β)

namespace Dict

section
variable {κ β : Type}

def total (weight : κ → β → Int) (dict : Dict κ β) : Int :=
    (dict.entries.map fun entry => weight entry.1 entry.2).sum

variable [DecidableEq κ]

theorem total_erase (weight : κ → β → Int) (dict : Dict κ β) (key : κ) (value : β)
    (found : dict.lookup key = some value) :
    total weight (dict.erase key) = total weight dict - weight key value := by
  have inside : key ∈ dict.entries.keys := AList.lookup_isSome.mp (by simp [found])
  obtain ⟨other, before, after, _, entries, erased⟩ := List.exists_of_kerase inside
  have same : other = value := by
    have member : (⟨key, other⟩ : Sigma fun _ : κ => β) ∈ dict.entries := by simp [entries]
    have known : dict.lookup key = some other := AList.mem_lookup_iff.mpr member
    exact Option.some.inj (known.symm.trans found)
  subst same
  have left : (dict.erase key).entries = before ++ after := erased
  simp only [total, left, entries, List.map_append, List.map_cons, List.sum_append, List.sum_cons]
  ring

theorem total_insert (weight : κ → β → Int) (dict : Dict κ β) (key : κ) (value : β)
    (fresh : dict.lookup key = none) :
    total weight (dict.insert key value) = total weight dict + weight key value := by
  have outside : key ∉ dict := AList.lookup_eq_none.mp fresh
  simp only [total, AList.entries_insert_of_notMem outside, List.map_cons, List.sum_cons]
  ring

theorem total_replace (weight : κ → β → Int) (dict : Dict κ β) (key : κ) (old value : β)
    (found : dict.lookup key = some old) :
    total weight (dict.insert key value) = total weight dict - weight key old + weight key value := by
  have erased := total_erase weight dict key old found
  have same : total weight (dict.insert key value) = weight key value + total weight (dict.erase key) := by
    simp only [total, AList.entries_insert, List.map_cons, List.sum_cons]
    rfl
  rw [same, erased]
  ring

theorem mem_entries_iff (dict : Dict κ β) (key : κ) (value : β) :
    (⟨key, value⟩ : Sigma fun _ : κ => β) ∈ dict.entries ↔ dict.lookup key = some value :=
  AList.mem_lookup_iff.symm

theorem total_le (light heavy : κ → β → Int) (dict : Dict κ β)
    (each : ∀ key value, dict.lookup key = some value → light key value ≤ heavy key value) :
    total light dict ≤ total heavy dict := by
  refine List.sum_le_sum fun entry inside => ?_
  exact each entry.1 entry.2 ((mem_entries_iff dict entry.1 entry.2).mp inside)

theorem total_zero (weight : κ → β → Int) (dict : Dict κ β)
    (each : ∀ key value, dict.lookup key = some value → weight key value = 0) : total weight dict = 0 := by
  refine List.sum_eq_zero fun amount member => ?_
  obtain ⟨⟨key, value⟩, inside, rfl⟩ := List.mem_map.mp member
  exact each key value ((mem_entries_iff dict key value).mp inside)

theorem single_le_total (weight : κ → β → Int) (dict : Dict κ β) (key : κ) (value : β)
    (found : dict.lookup key = some value)
    (each : ∀ key value, dict.lookup key = some value → 0 ≤ weight key value) :
    weight key value ≤ total weight dict := by
  refine List.single_le_sum (fun amount member => ?_) _ ?_
  · obtain ⟨⟨k, v⟩, inside, rfl⟩ := List.mem_map.mp member
    exact each k v ((mem_entries_iff dict k v).mp inside)
  · exact List.mem_map.mpr ⟨⟨key, value⟩, (mem_entries_iff dict key value).mpr found, rfl⟩

theorem total_eq_sum {α : Type} (weight : κ → β → Int) (dict : Dict κ β) (list : List α)
    (key : α → κ) (amount : α → Int)
    (distinct : (list.map key).Nodup) (present : ∀ item ∈ list, ∃ value, dict.lookup (key item) = some value ∧
      weight (key item) value = amount item)
    (covered : ∀ k value, dict.lookup k = some value → weight k value ≠ 0 → k ∈ list.map key) :
    total weight dict = (list.map amount).sum := by
  induction list generalizing dict with
  | nil =>
      refine total_zero weight dict fun k value there => ?_
      by_contra nonzero
      exact absurd (covered k value there nonzero) (by simp)
  | cons item rest ih =>
      obtain ⟨value, found, weighs⟩ := present item (by simp)
      obtain ⟨outside, distinct'⟩ :=
        List.nodup_cons.mp (by simpa using distinct : (key item :: rest.map key).Nodup)
      have erased := total_erase weight dict (key item) value found
      have others : ∀ other ∈ rest, key other ≠ key item := fun other member same =>
        outside (same ▸ List.mem_map_of_mem member)
      have smaller := ih (dict.erase (key item)) distinct' (fun other member => by
        obtain ⟨v, there, same⟩ := present other (List.mem_cons_of_mem _ member)
        exact ⟨v, by rw [AList.lookup_erase_ne (others other member)]; exact there, same⟩)
          (fun k v there nonzero => by
        have different : k ≠ key item := by
          rintro rfl
          simp at there
        rw [AList.lookup_erase_ne different] at there
        rcases List.mem_cons.mp
          (by simpa using covered k v there nonzero : k ∈ key item :: rest.map key)
          with same | later
        · exact absurd same different
        · exact later)
      rw [List.map_cons, List.sum_cons, ← smaller, erased, weighs]
      ring

end

end Dict

end Base
