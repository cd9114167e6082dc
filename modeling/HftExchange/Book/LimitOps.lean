import HftExchange.Book.OrderBook

set_option autoImplicit false

namespace HftExchange

open Base

theorem limit_add_linked (limit : Limit) (links : Links) (cells : List Slot) (o : Slot)
    (linked : Linked links limit.head limit.tail cells) (fresh : o ∉ cells) (distinct : cells.Nodup) :
    Linked (limit.add links o).2 (limit.add links o).1.head (limit.add links o).1.tail (cells ++ [o]) := by
  cases tail : limit.tail with
  | none =>
      have empty : cells = [] := by
        rw [← List.getLast?_eq_none_iff, ← linked.last, tail]
      subst empty
      refine ⟨?_, ?_, ?_⟩ <;> simp [Limit.add, tail, Segment]
  | some last =>
      have final : cells.getLast? = some last := linked.last.symm.trans tail
      have member : last ∈ cells := List.mem_of_getLast? final
      have different : last ≠ o := fun same => fresh (same ▸ member)
      refine ⟨?_, ?_, ?_⟩
      · cases cells with
        | nil => cases final
        | cons first rest => simp [Limit.add, tail, linked.first]
      · simp [Limit.add, tail]
      · rw [segment_append]
        refine ⟨?_, ?_, ?_, trivial⟩
        · apply segment_retarget_after links _ none none _ cells distinct linked.chain
          · intro cell inside
            have other : cell ≠ o := fun same => fresh (same ▸ inside)
            simp [Limit.add, tail, other]
          · intro cell inside inner
            have other : cell ≠ o := fun same => fresh (same ▸ inside)
            have notLast : cell ≠ last := fun same => inner (same ▸ final)
            simp [Limit.add, tail, other, notLast]
          · intro cell isLast
            cases final.symm.trans isLast
            simp [Limit.add, tail, different]
        · simp [Limit.add, tail, final]
        · simp [Limit.add, tail]

theorem limit_add_frame (limit : Limit) (links : Links) (cells : List Slot) (o cell : Slot)
    (linked : Linked links limit.head limit.tail cells) (outside : cell ∉ cells) (other : cell ≠ o) :
    (limit.add links o).2.next cell = links.next cell ∧
    (limit.add links o).2.prev cell = links.prev cell := by
  cases tail : limit.tail with
  | none => simp [Limit.add, tail, other]
  | some last =>
      have member : last ∈ cells := List.mem_of_getLast? (linked.last.symm.trans tail)
      have notLast : cell ≠ last := fun same => outside (same ▸ member)
      simp [Limit.add, tail, other, notLast]

theorem write_through_apply (member : Slot → Option Slot) (pointer value : Option Slot) (cell : Slot) :
    writeThrough member pointer value cell = if pointer = some cell then value else member cell := by
  cases pointer with
  | none => simp [writeThrough]
  | some target =>
      by_cases same : cell = target
      · simp [writeThrough, same]
      · simp [writeThrough, same, Ne.symm same]

theorem removal_apart (left right : List Slot) (o : Slot) (distinct : (left ++ o :: right).Nodup) :
    left.Nodup ∧ right.Nodup ∧ o ∉ left ∧ o ∉ right ∧ (∀ cell ∈ left, cell ∉ right) := by
  obtain ⟨leftDistinct, tailDistinct, apart⟩ := List.nodup_append.mp distinct
  obtain ⟨fresh, rightDistinct⟩ := List.nodup_cons.mp tailDistinct
  refine ⟨leftDistinct, rightDistinct, fun member => apart o member o (by simp) rfl, fresh, ?_⟩
  exact fun cell inLeft inRight => apart cell inLeft cell (by simp [inRight]) rfl

theorem limit_remove_eq (limit : Limit) (links : Links) (left right : List Slot) (o : Slot)
    (linked : Linked links limit.head limit.tail (left ++ o :: right))
    (distinct : (left ++ o :: right).Nodup) :
    (∀ cell, (limit.remove links o).2.next cell =
      if cell = o then none else if left.getLast? = some cell then right.head? else links.next cell) ∧
    (∀ cell, (limit.remove links o).2.prev cell =
      if cell = o then none else if right.head? = some cell then left.getLast? else links.prev cell) ∧
    (limit.remove links o).1.head = (left ++ right).head? ∧
    (limit.remove links o).1.tail = (left ++ right).getLast? := by
  obtain ⟨prev, next⟩ := linked_neighbours links limit.head limit.tail left right o linked
  obtain ⟨_, _, notLeft, notRight, _⟩ := removal_apart left right o distinct
  have selfLast : left.getLast? ≠ some o := fun last => notLeft (List.mem_of_getLast? last)
  have selfFirst : right.head? ≠ some o := fun first => notRight (List.mem_of_mem_head? first)
  refine ⟨fun cell => ?_, fun cell => ?_, ?_, ?_⟩
  · by_cases self : cell = o
    · simp [Limit.remove, self]
    · simp only [Limit.remove, Function.update_of_ne self, write_through_apply, prev, next, if_neg self]
  · by_cases self : cell = o
    · simp [Limit.remove, self]
    · simp only [Limit.remove, Function.update_of_ne self, write_through_apply, prev, next,
        if_neg self, if_neg selfLast]
  · cases left with
    | nil => simp [Limit.remove, linked.first, write_through_apply, prev, next]
    | cons first rest =>
        have different : first ≠ o := fun same => notLeft (by simp [same])
        simp [Limit.remove, linked.first, different]
  · rcases List.eq_nil_or_concat' right with rfl | ⟨front, last, rfl⟩
    · simp [Limit.remove, linked.last, write_through_apply, prev, next, selfLast]
    · have different : last ≠ o := fun same => notRight (by simp [same])
      have final : (left ++ o :: (front ++ [last])).getLast? = some last := by
        rw [← List.cons_append, ← List.append_assoc]
        exact List.getLast?_concat
      simp [Limit.remove, linked.last, final, different, ← List.append_assoc]

theorem limit_remove_linked (limit : Limit) (links : Links) (left right : List Slot) (o : Slot)
    (linked : Linked links limit.head limit.tail (left ++ o :: right))
    (distinct : (left ++ o :: right).Nodup) :
    Linked (limit.remove links o).2 (limit.remove links o).1.head (limit.remove links o).1.tail
    (left ++ right) := by
  obtain ⟨leftDistinct, rightDistinct, notLeft, notRight, apart⟩ := removal_apart left right o distinct
  obtain ⟨removedNext, removedPrev, head, tail⟩ := limit_remove_eq limit links left right o linked distinct
  have chain := linked.chain
  rw [segment_append] at chain
  refine ⟨head, tail, ?_⟩
  rw [segment_append]
  constructor
  · apply segment_retarget_after links _ none _ _ left leftDistinct chain.1
    · intro cell member
      have other : cell ≠ o := fun same => notLeft (same ▸ member)
      have outside : right.head? ≠ some cell := fun first => apart cell member (List.mem_of_mem_head? first)
      rw [removedPrev, if_neg other, if_neg outside]
    · intro cell member inner
      have other : cell ≠ o := fun same => notLeft (same ▸ member)
      rw [removedNext, if_neg other, if_neg inner]
    · intro cell last
      have other : cell ≠ o := fun same => notLeft (same ▸ List.mem_of_getLast? last)
      rw [removedNext, if_neg other, if_pos last, Option.or_none]
  · apply segment_retarget_before links _ (some o) _ none right rightDistinct chain.2.2.2
    · intro cell member
      have other : cell ≠ o := fun same => notRight (same ▸ member)
      have outside : left.getLast? ≠ some cell := fun last => apart cell (List.mem_of_getLast? last) member
      rw [removedNext, if_neg other, if_neg outside]
    · intro cell member inner
      have other : cell ≠ o := fun same => notRight (same ▸ member)
      rw [removedPrev, if_neg other, if_neg inner]
    · intro cell first
      have other : cell ≠ o := fun same => notRight (same ▸ List.mem_of_mem_head? first)
      rw [removedPrev, if_neg other, if_pos first, Option.or_none]

theorem limit_remove_frame (limit : Limit) (links : Links) (left right : List Slot) (o cell : Slot)
    (linked : Linked links limit.head limit.tail (left ++ o :: right)) (distinct : (left ++ o :: right).Nodup)
    (outside : cell ∉ left ++ o :: right) :
    (limit.remove links o).2.next cell = links.next cell ∧ (limit.remove links o).2.prev cell =
      links.prev cell := by
  have other : cell ≠ o := fun same => outside (by simp [same])
  have notLast : left.getLast? ≠ some cell := fun last => outside (by simp [List.mem_of_getLast? last])
  have notFirst : right.head? ≠ some cell := fun first => outside (by simp [List.mem_of_mem_head? first])
  obtain ⟨removedNext, removedPrev, _, _⟩ := limit_remove_eq limit links left right o linked distinct
  rw [removedNext, removedPrev]
  simp [other, notLast, notFirst]

end HftExchange
