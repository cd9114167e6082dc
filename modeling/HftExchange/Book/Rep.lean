import HftExchange.Book.Reference
import HftExchange.Book.LimitOps
import HftExchange.Book.LadderSearch

set_option autoImplicit false

namespace HftExchange

open Base

def onLevel (side : Side) (p : Nat) (r : Order) : Bool := r.side = side && r.price = p

def levelOrders (book : Resting) (side : Side) (p : Nat) : Resting := book.filter (onLevel side p)

def ids (book : Resting) : List Slot := book.map Order.internalId

def levelIds (book : Resting) (side : Side) (p : Nat) : List Slot := ids (levelOrders book side p)

def without (book : Resting) (id : Nat) : Resting := book.filter (fun r => r.internalId ≠ id)

theorem mem_level_ids (book : Resting) (side : Side) (p id : Nat) :
    id ∈ levelIds book side p ↔ ∃ r ∈ book, r.side = side ∧ r.price = p ∧ r.internalId = id := by
  simp only [levelIds, ids, levelOrders, onLevel, List.mem_map, List.mem_filter, Bool.and_eq_true,
    decide_eq_true_eq, and_assoc]

theorem level_ids_subset (book : Resting) (side : Side) (p id : Nat)
    (member : id ∈ levelIds book side p) : id ∈ ids book := by
  obtain ⟨r, inside, _, _, same⟩ := (mem_level_ids book side p id).mp member
  exact List.mem_map.mpr ⟨r, inside, same⟩

theorem level_ids_nodup (book : Resting) (side : Side) (p : Nat) (distinct : (ids book).Nodup) :
    (levelIds book side p).Nodup :=
  distinct.sublist (List.filter_sublist.map _)

theorem ids_injective (book : Resting) (distinct : (ids book).Nodup) (a b : Order)
    (first : a ∈ book) (second : b ∈ book)
    (same : a.internalId = b.internalId) : a = b :=
  List.inj_on_of_nodup_map distinct first second same

theorem level_ids_apart (book : Resting) (distinct : (ids book).Nodup) (r : Order)
    (inside : r ∈ book) (side : Side) (p : Nat)
    (other : side ≠ r.side ∨ p ≠ r.price) : r.internalId ∉ levelIds book side p := by
  intro member
  obtain ⟨s, here, sameSide, samePrice, sameId⟩ := (mem_level_ids book side p _).mp member
  cases ids_injective book distinct s r here inside sameId
  rcases other with different | different
  · exact different sameSide.symm
  · exact different samePrice.symm

theorem level_ids_without (book : Resting) (side : Side) (p id : Nat) :
    levelIds (without book id) side p = (levelIds book side p).filter (fun cell => cell ≠ id) := by
  simp only [levelIds, ids, levelOrders, without, List.filter_map, List.filter_filter]
  congr 1
  apply List.filter_congr
  intro r _
  simp only [Function.comp, Bool.and_comm]

theorem level_ids_append (book : Resting) (n : Order) (side : Side) (p : Nat) :
    levelIds (book ++ [n]) side p =
      if n.side = side ∧ n.price = p then levelIds book side p ++ [n.internalId]
        else levelIds book side p := by
  by_cases here : n.side = side ∧ n.price = p
  · simp [levelIds, ids, levelOrders, onLevel, here]
  · have off : onLevel side p n = false := by
      simpa [onLevel] using here
    simp [levelIds, ids, levelOrders, here, off]

theorem ids_without (book : Resting) (id : Nat) :
    ids (without book id) = (ids book).filter (fun cell => cell ≠ id) := by
  simp only [ids, without, List.filter_map]
  rfl

theorem filter_absent (cells : List Slot) (cell : Slot) (absent : cell ∉ cells) :
    cells.filter (fun other => other ≠ cell) = cells := by
  rw [List.filter_eq_self]
  intro other member
  have different : other ≠ cell := fun same => absent (same ▸ member)
  simp [different]

theorem filter_middle (left right : List Slot) (cell : Slot) (distinct : (left ++ cell :: right).Nodup) :
    (left ++ cell :: right).filter (fun other => other ≠ cell) = left ++ right := by
  obtain ⟨_, _, notLeft, notRight, _⟩ := removal_apart left right cell distinct
  rw [List.filter_append, List.filter_cons_of_neg (by simp), filter_absent left cell notLeft,
    filter_absent right cell notRight]

theorem settle_exhausted (book : Resting) (r : Order) (qty : Nat) (distinct : (ids book).Nodup)
    (inside : r ∈ book)
    (all : r.quantity ≤ qty) : settle book r.internalId qty = without book r.internalId := by
  rw [settle, without, ← List.filterMap_eq_filter]
  apply List.filterMap_congr
  intro s here
  by_cases same : s.internalId = r.internalId
  · cases ids_injective book distinct s r here inside same
    simp [takeQuantity, all, Option.guard]
  · simp [takeQuantity, same, Option.guard]

def lowered (id qty : Nat) (r : Order) : Order := if r.internalId = id then reduced r qty else r

theorem settle_reduced (book : Resting) (r : Order) (qty : Nat) (distinct : (ids book).Nodup)
    (inside : r ∈ book)
    (left : qty < r.quantity) : settle book r.internalId qty = book.map (lowered r.internalId qty) := by
  rw [settle, ← List.filterMap_eq_map]
  apply List.filterMap_congr
  intro s here
  by_cases same : s.internalId = r.internalId
  · cases ids_injective book distinct s r here inside same
    simp [takeQuantity, lowered, reduced, Nat.not_le.mpr left]
  · simp [takeQuantity, lowered, same]

theorem lowered_id (id qty : Nat) (r : Order) : (lowered id qty r).internalId = r.internalId := by
  unfold lowered reduced
  split <;> rfl

theorem lowered_level (id qty : Nat) (r : Order) (side : Side) (p : Nat) :
    onLevel side p (lowered id qty r) = onLevel side p r := by
  unfold lowered reduced
  split <;> rfl

theorem ids_lowered (book : Resting) (id qty : Nat) : ids (book.map (lowered id qty)) = ids book := by
  simp only [ids, List.map_map]
  exact List.map_congr_left (fun r _ => lowered_id id qty r)

theorem level_ids_lowered (book : Resting) (id qty : Nat) (side : Side) (p : Nat) :
    levelIds (book.map (lowered id qty)) side p = levelIds book side p := by
  have same : (onLevel side p) ∘ lowered id qty = onLevel side p := funext fun r =>
    lowered_level id qty r side p
  rw [levelIds, levelOrders, List.filter_map, same, ids_lowered]
  rfl

-- Each level of the ladders links the slots of its resting orders in order of
-- arrival.
def LevelsRep (links : Links) (levels : Side → Nat → Limit) (book : Resting) : Prop :=
  ∀ side p, Linked links (levels side p).head (levels side p).tail (levelIds book side p)

theorem levels_remove (links : Links) (levels next : Side → Nat → Limit) (book : Resting) (r : Order)
    (rep : LevelsRep links levels book) (distinct : (ids book).Nodup) (inside : r ∈ book)
    (here : next r.side r.price = ((levels r.side r.price).remove links r.internalId).1)
    (elsewhere : ∀ side p, side ≠ r.side ∨ p ≠ r.price → next side p = levels side p) :
    LevelsRep ((levels r.side r.price).remove links r.internalId).2 next (without book r.internalId) := by
  have level := rep r.side r.price
  have levelDistinct := level_ids_nodup book r.side r.price distinct
  have member : r.internalId ∈ levelIds book r.side r.price :=
    (mem_level_ids _ _ _ _).mpr ⟨r, inside, rfl, rfl, rfl⟩
  obtain ⟨left, right, split⟩ := List.append_of_mem member
  rw [split] at level levelDistinct
  intro side p
  by_cases at_ : side = r.side ∧ p = r.price
  · obtain ⟨rfl, rfl⟩ := at_
    rw [level_ids_without, split, filter_middle _ _ _ levelDistinct, here]
    exact limit_remove_linked _ links left right r.internalId level levelDistinct
  · have other : side ≠ r.side ∨ p ≠ r.price := by
      by_cases sameSide : side = r.side
      · exact .inr (fun samePrice => at_ ⟨sameSide, samePrice⟩)
      · exact .inl sameSide
    have outside : ∀ cell ∈ levelIds book side p, cell ∉ left ++ r.internalId :: right := by
      intro cell here there
      obtain ⟨s, sInside, sSide, sPrice, rfl⟩ := (mem_level_ids book side p cell).mp here
      rw [← split] at there
      refine level_ids_apart book distinct s sInside r.side r.price ?_ there
      rw [sSide, sPrice]
      exact other.imp Ne.symm Ne.symm
    rw [level_ids_without, filter_absent _ _ (level_ids_apart book distinct r inside side p other),
      elsewhere side p other]
    apply linked_frame links _ _ _ _ _ _ (rep side p)
    · exact fun cell member =>
        (limit_remove_frame _ links left right r.internalId cell level levelDistinct
        (outside cell member)).1
    · exact fun cell member =>
        (limit_remove_frame _ links left right r.internalId cell level levelDistinct
        (outside cell member)).2

theorem levels_add (links : Links) (levels next : Side → Nat → Limit) (book : Resting) (n : Order)
    (rep : LevelsRep links levels book) (distinct : (ids book).Nodup) (fresh : n.internalId ∉ ids book)
    (here : next n.side n.price = ((levels n.side n.price).add links n.internalId).1)
    (elsewhere : ∀ side p, side ≠ n.side ∨ p ≠ n.price → next side p = levels side p) :
    LevelsRep ((levels n.side n.price).add links n.internalId).2 next (book ++ [n]) := by
  have level := rep n.side n.price
  have freshLevel : ∀ side p, n.internalId ∉ levelIds book side p :=
    fun side p member => fresh (level_ids_subset book side p _ member)
  intro side p
  rw [level_ids_append]
  by_cases at_ : n.side = side ∧ n.price = p
  · obtain ⟨rfl, rfl⟩ := at_
    rw [if_pos ⟨rfl, rfl⟩, here]
    exact limit_add_linked _ links _ n.internalId level (freshLevel _ _) (level_ids_nodup book _ _ distinct)
  · have other : side ≠ n.side ∨ p ≠ n.price := by
      by_cases sameSide : side = n.side
      · exact .inr (fun samePrice => at_ ⟨sameSide.symm, samePrice.symm⟩)
      · exact .inl sameSide
    have outside : ∀ cell ∈ levelIds book side p, cell ∉ levelIds book n.side n.price ∧
        cell ≠ n.internalId := by
      intro cell member
      refine ⟨fun there => ?_, fun same => freshLevel side p (same ▸ member)⟩
      obtain ⟨s, sInside, sSide, sPrice, rfl⟩ := (mem_level_ids book side p cell).mp member
      refine level_ids_apart book distinct s sInside n.side n.price ?_ there
      rw [sSide, sPrice]
      exact other.imp Ne.symm Ne.symm
    rw [if_neg at_, elsewhere side p other]
    apply linked_frame links _ _ _ _ _ _ (rep side p)
    · exact fun cell member =>
        (limit_add_frame _ links _ n.internalId cell level (outside cell member).1 (outside cell member).2).1
    · exact fun cell member =>
        (limit_add_frame _ links _ n.internalId cell level (outside cell member).1 (outside cell member).2).2

theorem levels_frame (links other : Links) (levels : Side → Nat → Limit) (book : Resting)
    (rep : LevelsRep links levels book)
    (agree : ∀ cell ∈ ids book, other.next cell = links.next cell ∧ other.prev cell = links.prev cell) :
    LevelsRep other levels book := by
  intro side p
  apply linked_frame links other _ _ _ _ _ (rep side p)
  · exact fun cell member => (agree cell (level_ids_subset book side p cell member)).1
  · exact fun cell member => (agree cell (level_ids_subset book side p cell member)).2

-- The bitmaps of one side mark its nonempty levels, and the cached price is
-- never behind a resting order. Inside a sweep the level under the cursor may
-- be emptied before its bit is cleared.
structure Marks (ladder : Ladder) (side : Side) (book : Resting) (pending : Option Nat) : Prop where
  summarised : Summarised ladder
  marked : ∀ p, levelIds book side p ≠ [] → ladder.has p = true
  occupied : ∀ p, ladder.has p = true → pending ≠ some p → levelIds book side p ≠ []
  best : ∀ r ∈ book, r.side = side → ahead side r.price ladder.cachedBest = false
  inside : ladder.cachedBest < maxPrice

theorem marks_widen (ladder : Ladder) (side : Side) (book : Resting) (pending : Option Nat)
    (marks : Marks ladder side book none) : Marks ladder side book pending :=
  ⟨marks.summarised, marks.marked, fun p present _ => marks.occupied p present (by simp),
    marks.best, marks.inside⟩

theorem marks_settled (ladder : Ladder) (side : Side) (book : Resting) (p : Nat)
    (marks : Marks ladder side book (some p)) (nonempty : levelIds book side p ≠ []) :
    Marks ladder side book none := by
  refine ⟨marks.summarised, marks.marked, fun q present _ => ?_, marks.best, marks.inside⟩
  by_cases same : q = p
  · exact same ▸ nonempty
  · exact marks.occupied q present (by simpa using Ne.symm same)

theorem marks_change (ladder : Ladder) (side : Side) (book next : Resting) (pending after : Option Nat)
    (marks : Marks ladder side book pending)
    (shrink : ∀ p, levelIds next side p ≠ [] → levelIds book side p ≠ [])
    (kept : ∀ p, after ≠ some p → levelIds book side p ≠ [] → levelIds next side p ≠ [])
    (narrow : ∀ p, after ≠ some p → pending ≠ some p)
    (prices : ∀ r ∈ next, r.side = side → ∃ old ∈ book, old.side = side ∧ old.price = r.price) :
    Marks ladder side next after := by
  refine ⟨marks.summarised, fun p nonempty => marks.marked p (shrink p nonempty), ?_, ?_, marks.inside⟩
  · exact fun p present open_ => kept p open_ (marks.occupied p present (narrow p open_))
  · intro r member onSide
    obtain ⟨old, inside, oldSide, samePrice⟩ := prices r member onSide
    exact samePrice ▸ marks.best old inside oldSide

end HftExchange
