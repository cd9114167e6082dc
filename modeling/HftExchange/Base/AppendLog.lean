import HftExchange.Base.Runs

set_option autoImplicit false

namespace Base

-- A log of entries of one size in shared memory. One writer stores the cells of
-- an entry in any order and then raises a count of the finished entries. One
-- reader takes the count apart into digits, reads them from the highest to the
-- lowest, and then reads the entries below the number it has got, cell by cell.
-- Neither of them waits for the other.
structure LogLayout (α ρ : Type) where
  size : Nat
  capacity : Nat
  blank : α
  stores : ρ → List (Nat × α)
  offsets : List Nat
  radix : Nat
  digits : Nat
  stores_inside : ∀ record, ∀ store ∈ stores record, store.1 < size
  stores_once : ∀ record, ((stores record).map Prod.fst).Nodup
  offsets_inside : ∀ offset ∈ offsets, offset < size

inductive TailPc (α : Type) where
  | idle
  | counting (left number : Nat)
  | reading (stop : Nat) (got : List α)
deriving DecidableEq, Repr

-- The writer gives the cells behind the last entry back when it closes the log.
structure LogState (α ρ : Type) where
  memory : Nat → α
  cells : Nat
  published : Nat
  log : List ρ
  filling : Option (ρ × List (Nat × α))
  closed : Bool
  pc : TailPc α
  cursor : Nat
  out : List (List α)

inductive LogLabel (α ρ : Type) where
  | start (record : ρ) (order : List (Nat × α))
  | store
  | publish
  | close
  | poll
  | count
  | read
  | reopen
deriving DecidableEq, Repr

namespace LogLayout

section
variable {α ρ : Type} (layout : LogLayout α ρ)

def entry (record : ρ) (offset : Nat) : α :=
    ((layout.stores record).find? fun store => store.1 = offset).elim layout.blank Prod.snd

def image (record : ρ) : List α := layout.offsets.map (layout.entry record)

def init : LogState α ρ :=
  { memory := fun _ => layout.blank
    cells := layout.capacity * layout.size
    published := 0
    log := []
    filling := none
    closed := false
    pc := .idle
    cursor := 0
    out := [] }

def countDigit (s : LogState α ρ) : LogState α ρ :=
  match s.pc with
  | .counting (left + 1) number =>
      { s with pc := .counting left (number * layout.radix + s.published / layout.radix ^
                 left % layout.radix) }
  | .counting 0 number => { s with pc := if s.cursor < number then .reading number [] else .idle }
  | _ => s

def readCell (s : LogState α ρ) : Checked (LogState α ρ) :=
  match s.pc with
  | .reading stop got =>
      match layout.offsets[got.length]? with
      | some offset => do
          let value ← fetch s.cells s.memory (s.cursor * layout.size + offset)
          pure { s with pc := .reading stop (got ++ [value]) }
      | none =>
          pure { s with out := s.out ++ [got], cursor := s.cursor + 1,
                        pc := if s.cursor + 1 < stop then .reading stop [] else .idle }
  | _ => pure s

def storeCell (s : LogState α ρ) : Checked (LogState α ρ) :=
  match s.filling with
  | some (record, (offset, value) :: rest) => do
      let memory ← Base.store s.cells s.memory (s.log.length * layout.size + offset) value
      pure { s with memory := memory, filling := some (record, rest) }
  | _ => pure s

def step (s : LogState α ρ) : LogLabel α ρ → Checked (LogState α ρ)
  | .start record order =>
      pure (if s.filling.isNone ∧ s.closed = false ∧ s.log.length < layout.capacity
        then { s with filling := some (record, order) } else s)
  | .store => layout.storeCell s
  | .publish =>
      match s.filling with
      | some (record, []) =>
          pure { s with log := s.log ++ [record], published := s.log.length + 1, filling := none }
      | _ => pure s
  | .close => pure (if s.filling.isNone
      then { s with closed := true, cells := s.log.length * layout.size } else s)
  | .poll => pure (if s.pc matches .idle then { s with pc := .counting layout.digits 0 } else s)
  | .count => pure (layout.countDigit s)
  | .read => layout.readCell s
  | .reopen => pure { s with pc := .idle, cursor := 0, out := [] }

def Allowed (_ : LogState α ρ) : LogLabel α ρ → Prop
  | .start record order => order.Perm (layout.stores record)
  | _ => True

instance [DecidableEq α] (s : LogState α ρ) : (label : LogLabel α ρ) → Decidable (layout.Allowed s label)
  | .start record order => inferInstanceAs (Decidable (order.Perm (layout.stores record)))
  | .store | .publish | .close | .poll | .count | .read | .reopen => inferInstanceAs (Decidable True)

def LogRun : List (LogLabel α ρ) → LogState α ρ → Prop := Run layout.init (Guarded layout.Allowed layout.step)

def Pending (s : LogState α ρ) : Prop :=
  match s.filling with
  | none => ∀ cell, s.log.length * layout.size ≤ cell → s.memory cell = layout.blank
  | some (record, rest) =>
      (∀ offset, offset < layout.size → s.memory (s.log.length * layout.size + offset) =
        if offset ∈ rest.map Prod.fst then layout.blank else layout.entry record offset) ∧
      (∀ cell, (s.log.length + 1) * layout.size ≤ cell → s.memory cell = layout.blank) ∧
      (∀ store ∈ rest, store ∈ layout.stores record) ∧ (rest.map Prod.fst).Nodup ∧
        s.log.length < layout.capacity ∧ s.closed = false

structure WriterInv (s : LogState α ρ) : Prop where
  count : s.published = s.log.length
  room : s.log.length ≤ layout.capacity
  committed : ∀ index record, s.log[index]? = some record → ∀ offset, offset < layout.size →
    s.memory (index * layout.size + offset) = layout.entry record offset
  pending : layout.Pending s
  cells : s.cells = if s.closed then s.log.length * layout.size else layout.capacity * layout.size

def Watching (s : LogState α ρ) : Prop :=
  match s.pc with
  | .idle => True
  | .counting left number => number ≤ s.published / layout.radix ^ left
  | .reading stop got => s.cursor < stop ∧ stop ≤ s.published ∧
      ∃ record, s.log[s.cursor]? = some record ∧ got = (layout.image record).take got.length

structure TailInv (s : LogState α ρ) : Prop where
  cursor : s.cursor ≤ s.published
  out : s.out = (s.log.take s.cursor).map layout.image
  watching : layout.Watching s

end

end LogLayout

end Base
