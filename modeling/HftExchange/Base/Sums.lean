import Mathlib

set_option autoImplicit false

namespace Base

theorem sum_update {ι α M : Type} [DecidableEq ι] [AddCommMonoid M] (cells : Finset ι)
    (weight : α → M) (f : ι → α) (i : ι) (value : α)
    (inside : i ∈ cells) :
    ∑ j ∈ cells, weight (Function.update f i value j) + weight (f i) = ∑ j ∈
      cells, weight (f j) + weight value := by
  have others : ∑ j ∈ cells.erase i, weight (Function.update f i value j) = ∑ j ∈
      cells.erase i, weight (f j) :=
    Finset.sum_congr rfl fun j outside => by rw [Function.update_of_ne (Finset.ne_of_mem_erase outside)]
  rw [← Finset.add_sum_erase cells _ inside, ← Finset.add_sum_erase cells (fun j => weight (f j))
    inside, others, Function.update_self]
  abel

section
variable {α β M : Type} [AddCommMonoid M] (measure : List β → M) (empty : measure [] = 0)
  (append : ∀ first second, measure (first ++ second) = measure first + measure second)
    (part : α → List β) (keys : List α)

include empty append

theorem measure_flatMap : measure (keys.flatMap part) = (keys.map fun key => measure (part key)).sum := by
  induction keys with
  | nil => exact empty
  | cons key keys ih => rw [List.flatMap_cons, append, ih, List.map_cons, List.sum_cons]

theorem measure_single (key : α) (distinct : keys.Nodup) (inside : key ∈ keys)
    (others : ∀ other ∈ keys, other ≠ key → measure (part other) = 0) :
    measure (keys.flatMap part) = measure (part key) := by
  obtain ⟨before, after, rfl⟩ := List.append_of_mem inside
  obtain ⟨_, _, apart⟩ := List.nodup_append.mp distinct
  have silent : ∀ some_ : List α, (∀ other ∈ some_, other ≠ key ∧ other ∈ before ++ key :: after) →
      measure (some_.flatMap part) = 0 := by
    intro some_ known
    rw [measure_flatMap measure empty append, List.sum_eq_zero]
    intro value member
    obtain ⟨other, there, rfl⟩ := List.mem_map.mp member
    exact others other (known other there).2 (known other there).1
  have first := silent before fun other member =>
    ⟨apart other member key List.mem_cons_self, List.mem_append_left _ member⟩
  have last := silent after fun other member =>
    ⟨fun same => (List.nodup_cons.mp (List.nodup_append.mp distinct).2.1).1 (same ▸ member),
    List.mem_append_right _ (List.mem_cons_of_mem _ member)⟩
  rw [List.flatMap_append, append, List.flatMap_cons, append, first, last, zero_add, add_zero]

end

theorem le_map_parts {α β : Type} (f : α → β) (wanted : Multiset β) (all : Multiset α)
    (less : wanted ≤ all.map f) :
    ∃ part ≤ all, part.map f = wanted := by
  induction wanted, all using Quotient.inductionOn₂ with
  | h wanted all =>
      obtain ⟨same, perm, inside⟩ := less
      obtain ⟨part, sub, rfl⟩ := List.sublist_map_iff.mp inside
      exact ⟨part, sub.subperm, Multiset.coe_eq_coe.mpr perm⟩

theorem sum_parts {ι α M : Type} [AddCommMonoid M] (cells : Finset ι) (parts : ι → Multiset α)
    (weight : α → M) :
    ((∑ i ∈ cells, parts i).map weight).sum = ∑ i ∈ cells, ((parts i).map weight).sum :=
  map_sum (Multiset.sumAddMonoidHom.comp (Multiset.mapAddMonoidHom weight)) parts cells

theorem filter_map_all {α β : Type} (parts : Multiset α) (f : α → Option β) (g : α → β)
    (all : ∀ x ∈ parts, f x = some (g x)) :
    parts.filterMap f = parts.map g := by
  induction parts using Quotient.inductionOn with
  | h parts => exact congrArg _ (List.filterMap_eq_map_iff_forall_eq_some.mpr all)

end Base
