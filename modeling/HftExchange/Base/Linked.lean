import HftExchange.Base.Checked

set_option autoImplicit false

namespace Base

-- Intrusive links of a set of cells named by numbers. The payload of a cell
-- plays no part here, so the two pointer members are kept as two arrays.
structure Links where
  next : Nat → Option Nat
  prev : Nat → Option Nat

-- The cells are linked in both directions, between a cell before the first
-- one and a cell after the last one.
def Segment (links : Links) : Option Nat → List Nat → Option Nat → Prop
  | _, [], _ => True
  | before, cell :: rest, after =>
      links.prev cell = before ∧ links.next cell = rest.head?.or after ∧ Segment links (some cell) rest after

structure Linked (links : Links) (head tail : Option Nat) (cells : List Nat) : Prop where
  first : head = cells.head?
  last : tail = cells.getLast?
  chain : Segment links none cells none

theorem segment_append (links : Links) (before : Option Nat) (left right : List Nat) (after : Option Nat) :
    Segment links before (left ++ right) after ↔
      Segment links before left (right.head?.or after) ∧
      Segment links (left.getLast?.or before) right after := by
  induction left generalizing before with
  | nil => simp [Segment]
  | cons cell rest ih =>
      have last : ((cell :: rest).getLast?.or before) = rest.getLast?.or (some cell) := by
        cases rest with
        | nil => simp
        | cons second tail => simp [List.getLast?_eq_some_getLast]
      have head : (rest ++ right).head?.or after = rest.head?.or (right.head?.or after) := by
        cases rest <;> simp
      simp only [List.cons_append, Segment, ih, last, head, and_assoc]

theorem segment_frame (links other : Links) (before after : Option Nat) (cells : List Nat)
    (nexts : ∀ cell ∈ cells, other.next cell = links.next cell)
    (prevs : ∀ cell ∈ cells, other.prev cell = links.prev cell)
    (chain : Segment links before cells after) : Segment other before cells after := by
  induction cells generalizing before with
  | nil => trivial
  | cons cell rest ih =>
      refine ⟨(prevs cell (by simp)).trans chain.1, (nexts cell (by simp)).trans chain.2.1, ?_⟩
      exact ih (some cell) (fun c m => nexts c (by simp [m])) (fun c m => prevs c (by simp [m])) chain.2.2

theorem linked_frame (links other : Links) (head tail : Option Nat) (cells : List Nat)
    (nexts : ∀ cell ∈ cells, other.next cell = links.next cell)
    (prevs : ∀ cell ∈ cells, other.prev cell = links.prev cell)
    (linked : Linked links head tail cells) : Linked other head tail cells :=
  ⟨linked.first, linked.last, segment_frame links other none none cells nexts prevs linked.chain⟩

theorem segment_retarget_after (links other : Links) (before after next : Option Nat) (cells : List Nat)
    (distinct : cells.Nodup) (chain : Segment links before cells after)
    (prevs : ∀ cell ∈ cells, other.prev cell = links.prev cell)
    (inner : ∀ cell ∈ cells, cells.getLast? ≠ some cell → other.next cell = links.next cell)
    (last : ∀ cell, cells.getLast? = some cell → other.next cell = next) :
    Segment other before cells next := by
  rcases List.eq_nil_or_concat' cells with rfl | ⟨front, final, rfl⟩
  · trivial
  · have fresh : final ∉ front := by
      have parts := List.nodup_append.mp distinct
      exact fun member => parts.2.2 final member final (by simp) rfl
    rw [segment_append] at chain ⊢
    refine ⟨?_, ?_, ?_, trivial⟩
    · apply segment_frame links other before _ front _ _ chain.1
      · intro cell member
        apply inner cell (by simp [member])
        simp only [List.getLast?_concat, ne_eq, Option.some.injEq]
        exact fun same => fresh (same ▸ member)
      · exact fun cell member => prevs cell (by simp [member])
    · exact (prevs final (by simp)).trans chain.2.1
    · simpa using last final (by simp)

theorem segment_retarget_before (links other : Links) (before previous after : Option Nat) (cells : List Nat)
    (distinct : cells.Nodup) (chain : Segment links before cells after)
    (nexts : ∀ cell ∈ cells, other.next cell = links.next cell)
    (inner : ∀ cell ∈ cells, cells.head? ≠ some cell → other.prev cell = links.prev cell)
    (first : ∀ cell, cells.head? = some cell → other.prev cell = previous) :
    Segment other previous cells after := by
  cases cells with
  | nil => trivial
  | cons cell rest =>
      have fresh : cell ∉ rest := (List.nodup_cons.mp distinct).1
      refine ⟨first cell rfl, (nexts cell (by simp)).trans chain.2.1, ?_⟩
      apply segment_frame links other (some cell) after rest _ _ chain.2.2
      · exact fun c member => nexts c (by simp [member])
      · intro c member
        apply inner c (by simp [member])
        simp only [List.head?_cons, ne_eq, Option.some.injEq]
        exact fun same => fresh (same ▸ member)

theorem linked_neighbours (links : Links) (head tail : Option Nat) (left right : List Nat) (cell : Nat)
    (linked : Linked links head tail (left ++ cell :: right)) :
    links.prev cell = left.getLast? ∧ links.next cell = right.head? := by
  have chain := linked.chain
  rw [segment_append] at chain
  refine ⟨?_, ?_⟩
  · simpa using chain.2.1
  · simpa using chain.2.2.1

theorem linked_head_none (links : Links) (head tail : Option Nat) (cells : List Nat)
    (linked : Linked links head tail cells) : head = none ↔ cells = [] := by
  rw [linked.first, List.head?_eq_none_iff]

end Base
