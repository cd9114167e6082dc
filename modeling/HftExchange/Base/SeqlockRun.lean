import HftExchange.Base.Seqlock

set_option autoImplicit false

namespace Base.Seqlock

section
variable {F V R : Type} [DecidableEq F] (region : Region F V R) (initial : F → V)

-- Fields no step stores, and the values a load of them can give.
def Region.Fixed (field : F) : Prop := region.outside field = false ∧ ∀ body ∈ region.bodies, field ∉ body

def Held (field : F) (v : V) : Prop := region.Fixed field → v = initial field

def State.latest (st : State F V R) : F → V := st.published.getLastD initial

def Agree (one two : F → V) : Prop := ∀ field, region.outside field = false → one field = two field

-- The value is what a reader gets of the contents of one section, with the
-- counter the section left.
def Shows (contents : F → V) (i : Nat) (value : R) : Prop :=
  ∃ memory, Agree region memory contents ∧ region.snapshot.eval memory (2 * i % 2 ^ 32) = some value

variable (fields : Finset F) (n : Nat)

-- An attempt loads the counter, reads the snapshot and loads the counter again.
def attemptSteps : Nat := fields.card + n + 2

structure LoadingInv (st : State F V R) (left s0 since : Nat) (reads : Reads F V R) : Prop where
  count : st.reader.failed + left + 1 = st.reader.retries
  counter : s0 = 2 * since % 2 ^ 32
  behind : since ≤ st.published.length
  calm : st.begun < since + 2 ^ 31
  rest : ∃ unread m, Reads.Once (Held region initial) unread m reads ∧
    st.reader.steps + unread.card + m + 1 ≤ (st.reader.failed + 1) * attemptSteps fields n ∧
    (st.begun = since → ∃ memory, Agree region memory (st.latest initial) ∧
      Reads.Explains memory s0 unread region.snapshot reads)

def PhaseInv (st : State F V R) : Phase F V R → Prop
  | .idle => True
  | .attempt left => st.reader.failed + left = st.reader.retries ∧
      st.reader.steps ≤ st.reader.failed * attemptSteps fields n
  | .loading left s0 since reads => LoadingInv region initial fields n st left s0 since reads
  | .returned none => st.reader.failed = st.reader.retries ∧
      st.reader.steps ≤ st.reader.retries * attemptSteps fields n + 1
  | .returned (some value) =>
      (∃ i contents, (initial :: st.published)[i]? = some contents ∧
      Shows region contents i value) ∧
      st.reader.failed < st.reader.retries ∧ st.reader.steps ≤ st.reader.retries * attemptSteps fields n + 1
  | .raised => False

structure Inv (st : State F V R) : Prop where
  counter : st.seq = (2 * st.published.length + st.midway) % 2 ^ 32
  writer : match st.writer with
    | .idle => True
    | .loaded s body => s = 2 * st.published.length % 2 ^ 32 ∧ body ∈ region.bodies
    | .inside s rest => s = 2 * st.published.length % 2 ^ 32 ∧ ∃ body ∈ region.bodies, rest <:+ body
  settled : st.midway = 0 → Agree region st.memory (st.latest initial)
  fixed : ∀ field, region.Fixed field → st.memory field = initial field
  reader : PhaseInv region initial fields n st st.reader.phase

theorem init_inv : Inv region initial fields n (State.init initial) where
  counter := rfl
  writer := trivial
  settled := fun _ _ _ => rfl
  fixed := fun _ _ => rfl
  reader := trivial

-- The counter an attempt loaded comes back only if no section has begun.
theorem seq_unchanged_iff (st : State F V R) (inv : Inv region initial fields n st)
    (left s0 since : Nat) (reads : Reads F V R)
    (loading : LoadingInv region initial fields n st left s0 since reads) :
    st.seq = s0 ↔ st.begun = since := by
  have calm := loading.calm
  have behind := loading.behind
  have small : st.midway ≤ 1 := by
    unfold State.midway
    split <;> omega
  rw [inv.counter, loading.counter]
  unfold State.begun at calm ⊢
  omega

theorem phase_frame (st next : State F V R) (phase : Phase F V R)
    (inv : PhaseInv region initial fields n st phase)
    (same : next.reader = st.reader) (grown : st.published <+: next.published)
    (quiet : ∀ since ≤ st.published.length, next.begun = since → st.begun = since ∧
      next.latest initial = st.latest initial)
    (calm : ∀ left s0 since reads, phase = .loading left s0 since reads → next.begun < since + 2 ^ 31) :
    PhaseInv region initial fields n next phase := by
  cases phase with
  | idle => trivial
  | attempt left =>
      rw [PhaseInv, same]
      exact inv
  | loading left s0 since reads =>
      have inv : LoadingInv region initial fields n st left s0 since reads := inv
      obtain ⟨unread, m, once, bound, explained⟩ := inv.rest
      refine { inv with
        count := same ▸ inv.count
        behind := Nat.le_trans inv.behind grown.length_le
        calm := calm left s0 since reads rfl
        rest := ⟨unread, m, once, same ▸ bound, fun still => ?_⟩ }
      obtain ⟨before, latest⟩ := quiet since inv.behind still
      rw [latest]
      exact explained before
  | returned result =>
      cases result with
      | none =>
          rw [PhaseInv, same]
          exact inv
      | some value =>
          obtain ⟨⟨i, contents, at_i, shows_⟩, counts⟩ := inv
          refine ⟨⟨i, contents, ?_, shows_⟩, same ▸ counts⟩
          obtain ⟨more, extended⟩ := grown
          obtain ⟨inside, _⟩ := List.getElem?_eq_some_iff.mp at_i
          rwa [← extended, ← List.cons_append, List.getElem?_append_left inside]
  | raised => exact inv

omit [DecidableEq F] in
theorem latest_eq (st : State F V R) :
    (initial :: st.published)[st.published.length]? = some (st.latest initial) := by
  rw [State.latest, List.getLastD_eq_getLast?, ← List.getLast?_cons, List.getLast?_eq_getElem?,
    List.length_cons, Nat.add_sub_cancel]

theorem fixed_update (st : State F V R) (inv : Inv region initial fields n st) (target : F) (v : V)
    (stored : ¬ region.Fixed target)
    (field : F) (fixed : region.Fixed field) : Function.update st.memory target v field = initial field := by
  have apart : field ≠ target := fun eq => stored (eq ▸ fixed)
  rw [Function.update_of_ne apart]
  exact inv.fixed field fixed

def Label.reads : Label F V → Bool
  | .call _ => true
  | .reader => true
  | _ => false

theorem writer_keeps_reader (st next : State F V R) (label : Label F V)
    (done : step region st label = some next)
    (writes : label.reads = false) : next.reader = st.reader := by
  cases label with
  | call retries => cases writes
  | reader => cases writes
  | enter body =>
      simp only [step] at done
      split at done <;> try contradiction
      split at done <;> cases done
      rfl
  | begin | store v | finish | outside field v =>
      simp only [step] at done
      split at done <;> cases done
      rfl

theorem writer_step_inv (st next : State F V R) (inv : Inv region initial fields n st) (label : Label F V)
    (done : step region st label = some next) (writes : label.reads = false) (calm : next.Calm) :
    Inv region initial fields n next := by
  have same := writer_keeps_reader region st next label done writes
  have quietly (left s0 since : Nat) (reads : Reads F V R)
    (phase : st.reader.phase = .loading left s0 since reads) :
      next.begun < since + 2 ^ 31 := by
    rw [State.Calm, same, phase] at calm
    exact calm
  have frame := phase_frame region initial fields n st next st.reader.phase inv.reader same
  have writer := inv.writer
  have counter := inv.counter
  cases label with
  | enter body =>
      simp only [step] at done
      split at done <;> try contradiction
      rename_i idle
      split at done <;> cases done
      rename_i known
      have outside : st.midway = 0 := by rw [State.midway, idle]
      have begun : State.begun { st with writer := .loaded st.seq body } = st.begun :=
        by rw [State.begun, State.begun, outside]; rfl
      rw [outside] at counter
      exact { inv with
        counter := counter
        writer := ⟨counter, known⟩
        settled := fun _ => inv.settled outside
        reader := frame (List.prefix_refl _) (fun since _ still => ⟨begun ▸ still, rfl⟩) quietly }
  | begin =>
      simp only [step] at done
      split at done <;> cases done
      rename_i s body loaded
      rw [loaded] at writer
      exact { inv with
        counter := by
          show (s + 1) % 2 ^ 32 = (2 * st.published.length + 1) % 2 ^ 32
          rw [writer.1]
          omega
        writer := ⟨writer.1, body, writer.2, List.suffix_refl _⟩
        settled := nofun
        reader := frame (List.prefix_refl _) (fun since behind still => by
          have begun : st.published.length + 1 = since := still
          omega) quietly }
  | store v =>
      simp only [step] at done
      split at done <;> cases done
      rename_i s field rest inside
      rw [inside] at writer
      obtain ⟨loaded, body, known, suffix⟩ := writer
      have midway : st.midway = 1 := by rw [State.midway, inside]
      have begun : State.begun
          { st with memory := Function.update st.memory field v, writer := .inside s rest } =
          st.begun := by
        rw [State.begun, State.begun, midway]
        rfl
      rw [midway] at counter
      exact { inv with
        counter := counter
        writer := ⟨loaded, body, known, (List.suffix_cons field rest).trans suffix⟩
        settled := nofun
        fixed := fixed_update region initial fields n st inv field v fun fixed => fixed.2 body known
          (suffix.subset (List.mem_cons_self ..))
        reader := frame (List.prefix_refl _) (fun since _ still => ⟨begun ▸ still, rfl⟩) quietly }
  | finish =>
      simp only [step] at done
      split at done <;> cases done
      rename_i s inside
      rw [inside] at writer
      have longer : (st.published ++ [st.memory]).length = st.published.length + 1 := List.length_append
      exact { inv with
        counter := by
          show (s + 2) % 2 ^ 32 = (2 * (st.published ++ [st.memory]).length + 0) % 2 ^ 32
          rw [writer.1, longer]
          omega
        writer := trivial
        settled := fun _ field _ => by
          show st.memory field = (st.published ++ [st.memory]).getLastD initial field
          simp
        reader := frame (List.prefix_append _ _) (fun since behind still => by
          have begun : (st.published ++ [st.memory]).length + 0 = since := still
          omega) quietly }
  | outside field v =>
      simp only [step] at done
      split at done <;> cases done
      rename_i loose
      exact { inv with
        settled := fun still other guarded => by
          have apart : other ≠ field := fun eq => by simp [eq ▸ guarded] at loose
          show Function.update st.memory field v other = _
          rw [Function.update_of_ne apart]
          exact inv.settled still other guarded
        fixed := fixed_update region initial fields n st inv field v fun fixed => by simp [fixed.1] at loose
        reader := frame (List.prefix_refl _) (fun since _ still => ⟨still, rfl⟩) quietly }
  | call retries => cases writes
  | reader => cases writes

theorem load_inv (st : State F V R) (inv : Inv region initial fields n st) (left s0 since : Nat)
    (reads reads' : Reads F V R)
    (loading : LoadingInv region initial fields n st left s0 since reads)
    (moves : (∃ field next, reads = .load field next ∧
      reads' = next (st.memory field)) ∨ ∃ next, reads = .loadSeq next ∧ reads' = next st.seq) :
    LoadingInv region initial fields n { st with reader := { st.reader with
      phase := .loading left s0 since reads', steps := st.reader.steps + 1 } } left s0 since reads' := by
  have unchanged := seq_unchanged_iff region initial fields n st inv left s0 since reads loading
  obtain ⟨unread, m, once, bound, explained⟩ := loading.rest
  refine { loading with rest := ?_ }
  obtain ⟨field, next, rfl, rfl⟩ | ⟨next, rfl, rfl⟩ := moves
  · cases once with
    | load _ _ _ _ inside rest =>
        have card := Finset.card_erase_add_one inside
        refine ⟨unread.erase field, m, rest _ (inv.fixed field), ?_, fun still => ?_⟩
        · show st.reader.steps + 1 + (unread.erase field).card + m + 1 ≤
            (st.reader.failed + 1) * attemptSteps fields n
          omega
        · obtain ⟨memory, agree, explains⟩ := explained still
          refine ⟨_, fun other guarded => ?_, Reads.explains_load memory s0 unread region.snapshot
            field next inside _ explains⟩
          -- no section is open, so the field still holds what the last one left
          have settled : st.midway = 0 := by
            have behind := loading.behind
            have begun : st.published.length + st.midway = since := still
            omega
          by_cases here : other = field
          · rw [here, Function.update_self]
            exact inv.settled settled field (here ▸ guarded)
          · rw [Function.update_of_ne here]
            exact agree other guarded
  · cases once with
    | loadSeq _ m _ rest =>
        refine ⟨unread, m, rest _, ?_, fun still => ?_⟩
        · show st.reader.steps + 1 + unread.card + m + 1 ≤ (st.reader.failed + 1) * attemptSteps fields n
          omega
        · obtain ⟨memory, agree, explains⟩ := explained still
          refine ⟨memory, agree, fun other same => ?_⟩
          rw [explains other same, Reads.eval, unchanged.mpr still]

variable (safe : Reads.Once (Held region initial) fields n region.snapshot)
include safe

theorem reader_step_inv (st : State F V R) (inv : Inv region initial fields n st) (reader : Reader F V R)
    (done : readerStep region st = some reader) (calm : State.Calm { st with reader := reader }) :
    Inv region initial fields n { st with reader := reader } := by
  refine { inv with reader := ?_ }
  have phaseInv := inv.reader
  cases phase : st.reader.phase with
  | idle => simp [readerStep, phase] at done
  | raised => simp [readerStep, phase] at done
  | returned result => simp [readerStep, phase] at done
  | attempt left =>
      rw [phase] at phaseInv
      obtain ⟨count, bound⟩ := phaseInv
      cases left with
      | zero =>
          simp only [readerStep, phase, Option.some.injEq] at done
          subst done
          refine ⟨count, ?_⟩
          show st.reader.steps + 1 ≤ st.reader.retries * attemptSteps fields n + 1
          rw [Nat.add_zero] at count
          rw [← count]
          omega
      | succ left =>
          simp only [readerStep, phase] at done
          split at done
          · cases done
            refine ⟨by show st.reader.failed + 1 + left = st.reader.retries; omega, ?_⟩
            show st.reader.steps + 1 ≤ (st.reader.failed + 1) * attemptSteps fields n
            rw [Nat.add_mul, Nat.one_mul]
            unfold attemptSteps at bound ⊢
            omega
          · rename_i even
            cases done
            have settled : st.midway = 0 := by
              have counter := inv.counter
              have small : st.midway ≤ 1 := by
                unfold State.midway
                split <;> omega
              omega
            have counter := inv.counter
            have begun : st.begun = st.published.length := by rw [State.begun, settled, Nat.add_zero]
            refine { count := by show st.reader.failed + left + 1 = st.reader.retries; omega,
                     counter := ?_, behind := begun.le,
                     calm := calm, rest :=
                       ⟨fields, n, safe, ?_, fun _ =>
                       ⟨st.latest initial, fun _ _ => rfl, fun _ _ => rfl⟩⟩ }
            · rw [counter, settled, begun, Nat.add_zero]
            · show st.reader.steps + 1 + fields.card + n + 1 ≤ (st.reader.failed + 1) * attemptSteps fields n
              rw [Nat.add_mul, Nat.one_mul]
              have length : attemptSteps fields n = fields.card + n + 2 := rfl
              omega
  | loading left s0 since reads =>
      rw [phase] at phaseInv
      have loading : LoadingInv region initial fields n st left s0 since reads := phaseInv
      have unchanged := seq_unchanged_iff region initial fields n st inv left s0 since reads loading
      cases reads with
      | load field next =>
          simp only [readerStep, phase, Option.some.injEq] at done
          subst done
          exact load_inv region initial fields n st inv left s0 since _ _ loading
            (.inl ⟨field, next, rfl, rfl⟩)
      | loadSeq next =>
          simp only [readerStep, phase, Option.some.injEq] at done
          subst done
          exact load_inv region initial fields n st inv left s0 since _ _ loading (.inr ⟨next, rfl, rfl⟩)
      | done value =>
          obtain ⟨unread, m, -, bound, explained⟩ := loading.rest
          have count := loading.count
          simp only [readerStep, phase] at done
          split at done
          · rename_i same
            cases done
            have still := unchanged.mp same
            obtain ⟨memory, agree, explains⟩ := explained still
            have last : since = st.published.length := by
              have behind := loading.behind
              have begun : st.published.length + st.midway = since := still
              omega
            refine ⟨⟨since, st.latest initial, ?_, memory, agree, ?_⟩, ?_, ?_⟩
            · exact last ▸ latest_eq initial st
            · rw [← loading.counter, explains memory fun _ _ => rfl, Reads.eval]
            · show st.reader.failed < st.reader.retries
              omega
            · show st.reader.steps + 1 ≤ st.reader.retries * attemptSteps fields n + 1
              have within := Nat.mul_le_mul_right (attemptSteps fields n)
                (show st.reader.failed + 1 ≤ st.reader.retries by omega)
              omega
          · cases done
            refine ⟨by show st.reader.failed + 1 + left = st.reader.retries; omega, ?_⟩
            show st.reader.steps + 1 ≤ (st.reader.failed + 1) * attemptSteps fields n
            omega
      | raise =>
          obtain ⟨unread, m, once, -⟩ := loading.rest
          cases once

theorem step_inv (st next : State F V R) (label : Label F V) (inv : Inv region initial fields n st)
    (taken : Steps region st label next) : Inv region initial fields n next := by
  obtain ⟨done, calm⟩ := taken
  cases label with
  | call retries =>
      have fresh (next : State F V R)
          (eq : next = { st with reader := ⟨.attempt retries, retries, 0, 0⟩ }) :
          Inv region initial fields n next := by
        subst eq
        exact { inv with reader := ⟨Nat.zero_add retries, Nat.zero_le _⟩ }
      simp only [step] at done
      split at done
      · exact fresh next (Option.some.inj done).symm
      · exact fresh next (Option.some.inj done).symm
      · cases done
  | reader =>
      obtain ⟨reader, moved, rfl⟩ := Option.map_eq_some_iff.mp done
      exact reader_step_inv region initial fields n safe st inv reader moved calm
  | enter body | begin | store v | finish | outside field v =>
      exact writer_step_inv region initial fields n st next inv _ done rfl calm

theorem run_inv (labels : List (Label F V)) (st : State F V R)
    (run : Run (State.init initial) (Steps region) labels st) :
    Inv region initial fields n st :=
  run_invariant (Inv region initial fields n) (init_inv region initial fields n)
    (fun st label next inv taken => step_inv region initial fields n safe st next label inv
      taken) labels st run

end

end Base.Seqlock
