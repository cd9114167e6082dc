import HftExchange.Base.Runs

set_option autoImplicit false

namespace Base

-- Code that reads a shared region one field at a time and builds a value. What
-- it loads next may depend on what it has loaded.
inductive Reads (F V R : Type) where
  | done (value : R)
  | load (field : F) (next : V → Reads F V R)
  | loadSeq (next : Nat → Reads F V R)
  | raise

namespace Reads

section
variable {F V R S : Type}

def bind : Reads F V R → (R → Reads F V S) → Reads F V S
  | .done value, rest => rest value
  | .load field next, rest => .load field fun v => (next v).bind rest
  | .loadSeq next, rest => .loadSeq fun s => (next s).bind rest
  | .raise, _ => .raise

instance : Monad (Reads F V) where
  pure := .done
  bind := bind

def get (field : F) : Reads F V V := .load field .done

def getSeq : Reads F V Nat := .loadSeq .done

def eval (memory : F → V) (seq : Nat) : Reads F V R → Option R
  | .done value => some value
  | .load field next => (next (memory field)).eval memory seq
  | .loadSeq next => (next seq).eval memory seq
  | .raise => none

@[simp] theorem eval_get (memory : F → V) (seq : Nat) (field : F) (rest : V → Reads F V R) :
    (get field >>= rest).eval memory seq = (rest (memory field)).eval memory seq := rfl

@[simp] theorem eval_get_seq (memory : F → V) (seq : Nat) (rest : Nat → Reads F V R) :
    (getSeq >>= rest).eval memory seq = (rest seq).eval memory seq := rfl

@[simp] theorem eval_pure (memory : F → V) (seq : Nat) (value : R) :
    (pure value : Reads F V R).eval memory seq = some value := rfl

@[simp] theorem eval_bind (memory : F → V) (seq : Nat) (reads : Reads F V R)
    (rest : R → Reads F V S) :
    (reads >>= rest).eval memory seq =
      (reads.eval memory seq).bind fun value => (rest value).eval memory seq := by
  induction reads with
  | done value => rfl
  | load field next ih => exact ih (memory field)
  | loadSeq next ih => exact ih seq
  | raise => rfl

-- The code loads each of the given fields at most once and the counter at
-- most n times, and it does not raise, whatever values it is given that the
-- predicate allows.
inductive Once [DecidableEq F] (Allowed : F → V → Prop) : Finset F → Nat → Reads F V R → Prop where
  | done (fields : Finset F) (n : Nat) (value : R) : Once Allowed fields n (.done value)
  | load (fields : Finset F) (n : Nat) (field : F) (next : V → Reads F V R) (inside : field ∈ fields)
      (rest : ∀ v, Allowed field v → Once Allowed (fields.erase field) n (next v)) :
        Once Allowed fields n (.load field next)
  | loadSeq (fields : Finset F) (n : Nat) (next : Nat → Reads F V R)
      (rest : ∀ s, Once Allowed fields n (next s)) :
      Once Allowed fields (n + 1) (.loadSeq next)

section
variable [DecidableEq F] (Allowed : F → V → Prop)

theorem once_mono (fields more : Finset F) (n m : Nat) (reads : Reads F V R)
    (once : Once Allowed fields n reads)
    (sub : fields ⊆ more) (le : n ≤ m) : Once Allowed more m reads := by
  induction once generalizing more m with
  | done fields n value => exact .done more m value
  | load fields n field next inside rest ih =>
      exact .load more m field next (sub inside) fun v allowed => ih v allowed _ m
        (Finset.erase_subset_erase field sub) le
  | loadSeq fields n next rest ih =>
      obtain ⟨m, rfl⟩ : ∃ k, m = k + 1 := ⟨m - 1, by omega⟩
      exact .loadSeq more m next fun s => ih s more m sub (by omega)

theorem once_get (fields : Finset F) (n : Nat) (field : F) (rest : V → Reads F V R) (inside : field ∈ fields)
    (after : ∀ v, Allowed field v → Once Allowed (fields.erase field) n (rest v)) :
    Once Allowed fields n (get field >>= rest) :=
  .load fields n field rest inside after

theorem once_head (field : F) (others : List F) (more : Finset F) (n : Nat) (rest : V → Reads F V R)
    (fresh : field ∉ others)
    (apart : field ∉ more) (after : ∀ v, Allowed field v → Once Allowed (others.toFinset ∪ more) n (rest v)) :
    Once Allowed ((field :: others).toFinset ∪ more) n (get field >>= rest) := by
  have left : ((field :: others).toFinset ∪ more).erase field = others.toFinset ∪ more := by
    have outside : field ∉ others.toFinset ∪ more := by simp [fresh, apart]
    rw [List.toFinset_cons, Finset.insert_union, Finset.erase_insert outside]
  exact once_get Allowed _ n field rest (by simp) fun v allowed => left ▸ after v allowed

theorem once_bind (first second : Finset F) (n m : Nat) (reads : Reads F V R) (rest : R → Reads F V S)
    (once : Once Allowed first n reads) (after : ∀ value, Once Allowed second m (rest value))
    (apart : Disjoint first second) :
    Once Allowed (first ∪ second) (n + m) (reads >>= rest) := by
  induction once with
  | done fields n value =>
      exact once_mono Allowed second (fields ∪ second) m (n + m) _
        (after value) Finset.subset_union_right (Nat.le_add_left m n)
  | load fields n field next inside rest' ih =>
      refine .load _ _ field _ (Finset.mem_union_left _ inside) fun v allowed => ?_
      have outside : field ∉ second := Finset.disjoint_left.mp apart inside
      rw [Finset.erase_union_distrib, Finset.erase_eq_of_notMem outside]
      exact ih v allowed (Finset.disjoint_of_subset_left (Finset.erase_subset _ _) apart)
  | loadSeq fields n next rest' ih =>
      rw [Nat.add_right_comm]
      exact .loadSeq _ _ _ fun s => ih s apart

theorem once_eval (fields : Finset F) (n : Nat) (reads : Reads F V R)
    (once : Once Allowed fields n reads) (memory : F → V) (seq : Nat)
    (allowed : ∀ field, Allowed field (memory field)) : ∃ value, reads.eval memory seq = some value := by
  induction once with
  | done fields n value => exact ⟨value, rfl⟩
  | load fields n field next inside rest ih => exact ih _ (allowed field)
  | loadSeq fields n next rest ih => exact ih seq

-- What the code has been given so far is what some memory holds: every memory
-- that differs from it in the fields not loaded yet only would have brought the
-- code to where it stands.
def Explains (memory : F → V) (seq : Nat) (left : Finset F) (start reads : Reads F V R) : Prop :=
  ∀ other : F → V, (∀ field, field ∉ left → other field = memory field) →
    start.eval other seq = reads.eval other seq

theorem explains_load (memory : F → V) (seq : Nat) (left : Finset F) (start : Reads F V R)
    (field : F) (next : V → Reads F V R)
    (inside : field ∈ left) (v : V) (explains : Explains memory seq left start (.load field next)) :
    Explains (Function.update memory field v) seq (left.erase field) start (next v) := by
  intro other same
  have here : other field = v := by
    rw [same field (Finset.notMem_erase field left), Function.update_self]
  rw [explains other fun g outside => ?_, eval, here]
  have apart : g ≠ field := fun eq => outside (eq ▸ inside)
  rw [same g fun erased => outside (Finset.mem_of_mem_erase erased), Function.update_of_ne apart]

end

end

end Reads

namespace Seqlock

-- The bodies a write section may run, as the fields it stores in order, the
-- fields that are also stored by others outside of any section, and the code
-- that builds the reader's snapshot.
structure Region (F V R : Type) where
  bodies : List (List F)
  outside : F → Bool
  snapshot : Reads F V R

inductive Writer (F : Type) where
  | idle
  | loaded (s : Nat) (body : List F)
  | inside (s : Nat) (rest : List F)

-- The reader in one call of read. In an attempt it holds the counter it
-- loaded first and, for the proof, how many sections had begun by then.
inductive Phase (F V R : Type) where
  | idle
  | attempt (left : Nat)
  | loading (left s0 since : Nat) (reads : Reads F V R)
  | returned (result : Option R)
  | raised

structure Reader (F V R : Type) where
  phase : Phase F V R
  retries : Nat
  failed : Nat
  steps : Nat

structure State (F V R : Type) where
  seq : Nat
  memory : F → V
  writer : Writer F
  published : List (F → V)
  reader : Reader F V R

inductive Label (F V : Type) where
  | enter (body : List F)
  | begin
  | store (v : V)
  | finish
  | outside (field : F) (v : V)
  | call (retries : Nat)
  | reader

section
variable {F V R : Type} [DecidableEq F] (region : Region F V R)

def State.init (initial : F → V) : State F V R := ⟨0, initial, .idle, [], ⟨.idle, 0, 0, 0⟩⟩

def State.midway (st : State F V R) : Nat :=
  match st.writer with
  | .inside _ _ => 1
  | _ => 0

def State.begun (st : State F V R) : Nat := st.published.length + st.midway

def readerStep (st : State F V R) : Option (Reader F V R) :=
  let r := { st.reader with steps := st.reader.steps + 1 }
  match st.reader.phase with
  | .attempt 0 => some { r with phase := .returned none }
  | .attempt (left + 1) =>
      if st.seq % 2 = 1 then some { r with phase := .attempt left, failed := r.failed + 1 }
      else some { r with phase := .loading left st.seq st.begun region.snapshot }
  | .loading left s0 since (.load field next) =>
      some { r with phase := .loading left s0 since (next (st.memory field)) }
  | .loading left s0 since (.loadSeq next) => some { r with phase := .loading left s0 since (next st.seq) }
  | .loading left s0 _ (.done value) =>
      if st.seq = s0 then some { r with phase := .returned (some value) }
      else some { r with phase := .attempt left, failed := r.failed + 1 }
  | .loading _ _ _ .raise => some { r with phase := .raised }
  | _ => none

def step (st : State F V R) : Label F V → Option (State F V R)
  | .enter body =>
      match st.writer with
      | .idle => if body ∈ region.bodies then some { st with writer := .loaded st.seq body } else none
      | _ => none
  | .begin =>
      match st.writer with
      | .loaded s body => some { st with seq := (s + 1) % 2 ^ 32, writer := .inside s body }
      | _ => none
  | .store v =>
      match st.writer with
      | .inside s (field :: rest) =>
          some { st with memory := Function.update st.memory field v, writer := .inside s rest }
      | _ => none
  | .finish =>
      match st.writer with
      | .inside s [] => some { st with seq := (s + 2) % 2 ^ 32, writer := .idle,
                                       published := st.published ++ [st.memory] }
      | _ => none
  | .outside field v =>
      if region.outside field then some { st with memory := Function.update st.memory field v }
      else none
  | .call retries =>
      match st.reader.phase with
      | .idle => some { st with reader := ⟨.attempt retries, retries, 0, 0⟩ }
      | .returned _ => some { st with reader := ⟨.attempt retries, retries, 0, 0⟩ }
      | _ => none
  | .reader => (readerStep region st).map fun reader => { st with reader := reader }

-- Fewer than 2^31 sections have begun since the attempt loaded the counter.
def State.Calm (st : State F V R) : Prop :=
  match st.reader.phase with
  | .loading _ _ since _ => st.begun < since + 2 ^ 31
  | _ => True

def Steps (st : State F V R) (label : Label F V) (next : State F V R) : Prop :=
    step region st label = some next ∧ next.Calm

end

end Seqlock

end Base
