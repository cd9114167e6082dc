import HftExchange.Base.SeqlockRun

set_option autoImplicit false

namespace Base.Seqlock

section
variable {F V R : Type} [DecidableEq F] (region : Region F V R)

omit [DecidableEq F] in
theorem reader_moves (st : State F V R) (busy : (∃ left, st.reader.phase = .attempt left) ∨
    ∃ left s0 since reads, st.reader.phase = .loading left s0 since reads) :
    ∃ reader, readerStep region st = some reader := by
  obtain ⟨left, phase⟩ | ⟨left, s0, since, reads, phase⟩ := busy
  · cases left with
    | zero => simp [readerStep, phase]
    | succ left =>
        simp only [readerStep, phase]
        split <;> simp
  · cases reads with
    | load field next => simp [readerStep, phase]
    | loadSeq next => simp [readerStep, phase]
    | raise => simp [readerStep, phase]
    | done value =>
        simp only [readerStep, phase]
        split <;> simp

theorem loads_alone (reads : Reads F V R) (value : R) (st : State F V R)
    (left s0 since : Nat) (phase : st.reader.phase = .loading left s0 since reads)
    (calm : st.begun < since + 2 ^ 31)
    (result : reads.eval st.memory st.seq = some value) : ∃ labels steps,
      Run st (Steps region) labels { st with reader := { st.reader with
        phase := .loading left s0 since (.done value), steps := steps } } := by
  induction reads generalizing st with
  | raise => cases result
  | done last =>
      obtain rfl : last = value := Option.some.inj result
      exact ⟨[], st.reader.steps, phase ▸ .start⟩
  | load field next ih =>
      let after : State F V R := { st with reader := { st.reader with
        phase := .loading left s0 since (next (st.memory field)), steps := st.reader.steps + 1 } }
      obtain ⟨labels, steps, run⟩ := ih (st.memory field) after rfl calm result
      have loaded : Steps region st .reader after :=
        ⟨by simp [step, readerStep, phase, after], calm⟩
      exact ⟨_, steps, run_append [.reader] labels after _ (run_single _ _ loaded) run⟩
  | loadSeq next ih =>
      let after : State F V R := { st with reader := { st.reader with
        phase := .loading left s0 since (next st.seq), steps := st.reader.steps + 1 } }
      obtain ⟨labels, steps, run⟩ := ih st.seq after rfl calm result
      have loaded : Steps region st .reader after :=
        ⟨by simp [step, readerStep, phase, after], calm⟩
      exact ⟨_, steps, run_append [.reader] labels after _ (run_single _ _ loaded) run⟩

theorem attempt_begins (st : State F V R) (left : Nat)
    (phase : st.reader.phase = .attempt (left + 1)) (even : st.seq % 2 = 0) :
    Steps region st .reader { st with reader := { st.reader with
      phase := .loading left st.seq st.begun region.snapshot,
      steps := st.reader.steps + 1 } } := by
  constructor
  · simp [step, readerStep, phase, even]
  · exact Nat.lt_add_of_pos_right (by norm_num)

theorem attempt_alone (st : State F V R) (left : Nat)
    (phase : st.reader.phase = .attempt (left + 1)) (even : st.seq % 2 = 0) (value : R)
    (result : region.snapshot.eval st.memory st.seq = some value) :
    ∃ labels next, Run st (Steps region) labels next ∧ next.reader.phase = .returned (some value) ∧
      next.reader.failed = st.reader.failed ∧ next.published = st.published := by
  have first := attempt_begins region st left phase even
  obtain ⟨labels, steps, loads⟩ := loads_alone region region.snapshot value _ left st.seq
    st.begun rfl first.2 result
  let returned : State F V R := { st with reader := { st.reader with
    phase := .returned (some value), steps := steps + 1 } }
  have run := run_append [_] labels _ _ (run_single _ _ first) loads
  refine ⟨_, returned, .snoc _ .reader _ returned run ⟨?_, trivial⟩, rfl, rfl, rfl⟩
  simp [step, readerStep, returned]

theorem stores_alone (rest : List F) (values : F → V) (s : Nat) (st : State F V R)
    (calm : st.Calm) (inside : st.writer = .inside s rest) :
    ∃ labels, Run st (Steps region) labels
      { st with
        memory := fun f => if f ∈ rest then values f else st.memory f
        writer := .inside s [] } := by
  induction rest generalizing st with
  | nil =>
      refine ⟨[], ?_⟩
      have same : ({ st with
          memory := fun f => if f ∈ ([] : List F) then values f else st.memory f
          writer := .inside s [] } : State F V R) = st := by
        simp [← inside]
      rw [same]
      exact .start
  | cons field rest ih =>
      let after : State F V R := { st with
        memory := Function.update st.memory field (values field), writer := .inside s rest }
      have kept : after.Calm := by
        simpa [State.Calm, State.begun, State.midway, after, inside] using calm
      obtain ⟨labels, run⟩ := ih after kept rfl
      have stored : Steps region st (.store (values field)) after :=
        ⟨by simp [step, inside, after], kept⟩
      have memory : (fun f => if f ∈ rest then values f else after.memory f) =
          fun f => if f ∈ field :: rest then values f else st.memory f := by
        funext f
        by_cases here : f = field
        · simp [here, after]
        · simp [here, after]
      rw [memory] at run
      exact ⟨_, run_append [_] labels after _ (run_single _ _ stored) run⟩

def Stored (body : List F) (values memory : F → V) (field : F) : V :=
  if field ∈ body then values field else memory field

theorem section_alone (st : State F V R) (body : List F) (known : body ∈ region.bodies)
    (values : F → V) (resting : st.writer = .idle)
    (calm : ∀ left s0 since reads, st.reader.phase = .loading left s0 since reads →
      st.begun + 1 < since + 2 ^ 31) : ∃ labels, Run st (Steps region) labels
      { st with
        seq := (st.seq + 2) % 2 ^ 32
        memory := Stored body values st.memory
        published := st.published ++ [Stored body values st.memory] } := by
  let entered : State F V R := { st with writer := .loaded st.seq body }
  let begun : State F V R := { st with
    seq := (st.seq + 1) % 2 ^ 32, writer := .inside st.seq body }
  have first : Steps region st (.enter body) entered := by
    refine ⟨by simp [step, resting, known, entered], ?_⟩
    unfold State.Calm
    split
    · rename_i left s0 since reads phase
      have bound := calm left s0 since reads phase
      simp only [State.begun, State.midway, resting, entered] at bound ⊢
      omega
    · trivial
  have second : Steps region entered .begin begun := by
    refine ⟨by simp [step, entered, begun], ?_⟩
    unfold State.Calm
    split
    · rename_i left s0 since reads phase
      have bound := calm left s0 since reads phase
      simp only [State.begun, State.midway, resting, begun] at bound ⊢
      omega
    · trivial
  obtain ⟨labels, stores⟩ := stores_alone region body values st.seq begun second.2 rfl
  have run := run_append [_] _ entered _ (run_single _ _ first)
    (run_append [_] labels begun _ (run_single _ _ second) stores)
  refine ⟨_, .snoc _ .finish _ _ run ⟨?_, ?_⟩⟩
  · simp [step, begun, resting]
    rfl
  · simpa [State.Calm, State.begun, State.midway, begun, resting] using second.2

theorem attempt_disturbed (st : State F V R) (left : Nat)
    (phase : st.reader.phase = .attempt (left + 1)) (even : st.seq % 2 = 0)
    (resting : st.writer = .idle) (body : List F)
    (known : body ∈ region.bodies) (values : F → V) (value : R)
    (result : region.snapshot.eval (Stored body values st.memory)
      ((st.seq + 2) % 2 ^ 32) = some value) : ∃ labels steps,
      Run st (Steps region) labels
        { st with
          seq := (st.seq + 2) % 2 ^ 32
          memory := Stored body values st.memory
          published := st.published ++ [Stored body values st.memory]
          reader := { st.reader with
            phase := .attempt left, failed := st.reader.failed + 1, steps := steps } } := by
  have first := attempt_begins region st left phase even
  have near : st.begun + 1 < st.begun + 2 ^ 31 := by omega
  let loading : State F V R := { st with reader := { st.reader with
    phase := .loading left st.seq st.begun region.snapshot, steps := st.reader.steps + 1 } }
  obtain ⟨stores, written⟩ := section_alone region loading body known values resting (by
    intro _ _ _ _ phase
    obtain ⟨-, -, rfl, -⟩ := Phase.loading.inj phase
    exact near)
  let after : State F V R := { loading with
    seq := (st.seq + 2) % 2 ^ 32
    memory := Stored body values st.memory
    published := st.published ++ [Stored body values st.memory] }
  have begun : after.begun < st.begun + 2 ^ 31 := by
    simp [State.begun, State.midway, resting, after, loading]
  obtain ⟨loads, steps, loaded⟩ := loads_alone region region.snapshot value after left st.seq
    st.begun rfl begun result
  have run := run_append _ _ _ _ (run_append [_] stores _ _ (run_single _ _ first) written) loaded
  refine ⟨_, steps + 1, .snoc _ .reader _ _ run ⟨?_, trivial⟩⟩
  have moved : (st.seq + 2) % 2 ^ 32 ≠ st.seq := by omega
  simp only [step, readerStep, after, loading, if_neg moved]
  rfl

-- What a call of read promises at every moment of a run, with the number of
-- steps an attempt may take.
structure ReadContract (initial : F → V) (limit : Nat) (st : State F V R) : Prop where
  untorn : ∀ value, st.reader.phase = .returned (some value) →
    ∃ i contents, (initial :: st.published)[i]? = some contents ∧ Shows region contents i value
  gaveUp : st.reader.phase = .returned none → st.reader.failed = st.reader.retries
  working : ∀ left, (st.reader.phase = .attempt left ∨ ∃ s0 since reads,
    st.reader.phase = .loading left s0 since reads) →
    st.reader.failed + left ≤ st.reader.retries ∧ ∃ reader, readerStep region st = some reader
  ends : st.reader.phase ≠ .idle → st.reader.steps ≤ st.reader.retries * limit + 1
  neverRaises : st.reader.phase ≠ .raised

theorem read_contract (initial : F → V) (fields : Finset F) (n : Nat)
    (safe : Reads.Once (Held region initial) fields n region.snapshot)
    (labels : List (Label F V)) (st : State F V R) (run : Run (State.init initial) (Steps region) labels st) :
    ReadContract region initial (attemptSteps fields n) st := by
  have inv := (run_inv region initial fields n safe labels st run).reader
  constructor
  · intro value phase
    rw [phase] at inv
    exact inv.1
  · intro phase
    rw [phase] at inv
    exact inv.1
  · rintro left (phase | ⟨s0, since, reads, phase⟩)
    · rw [phase] at inv
      exact ⟨inv.1.le, reader_moves region st (.inl ⟨left, phase⟩)⟩
    · rw [phase] at inv
      have count := LoadingInv.count inv
      exact ⟨by omega, reader_moves region st (.inr ⟨left, s0, since, reads, phase⟩)⟩
  · intro started
    cases phase : st.reader.phase with
    | idle => exact absurd phase started
    | raised => exact (phase ▸ inv).elim
    | attempt left =>
        rw [phase] at inv
        have within := Nat.mul_le_mul_right (attemptSteps fields n)
          (show st.reader.failed ≤ st.reader.retries by have := inv.1; omega)
        have bound := inv.2
        omega
    | loading left s0 since reads =>
        rw [phase] at inv
        have inv : LoadingInv region initial fields n st left s0 since reads := inv
        obtain ⟨unread, m, -, bound, -⟩ := inv.rest
        have within := Nat.mul_le_mul_right (attemptSteps fields n)
          (show st.reader.failed + 1 ≤ st.reader.retries by have := inv.count; omega)
        omega
    | returned result =>
        rw [phase] at inv
        cases result with
        | none => exact inv.2
        | some value => exact inv.2.2
  · intro phase
    rw [phase] at inv
    exact inv

theorem section_then_read (initial : F → V) (first second : F → V) (fields : Finset F)
    (n : Nat) (safe : Reads.Once (Held region initial) fields n region.snapshot)
    (body : List F) (known : body ∈ region.bodies) (left : Nat) :
    ∃ labels st value, Run (State.init initial) (Steps region) labels st ∧
      st.reader.phase = .returned (some value) ∧ st.reader.failed = 1 ∧
      st.published = [Stored body first initial,
        Stored body second (Stored body first initial)] := by
  obtain ⟨before, written⟩ := section_alone region (State.init initial) body known first rfl
    (by simp [State.init])
  let called : State F V R :=
    ⟨2, Stored body first initial, .idle, [Stored body first initial], .attempt (left + 2), left + 2, 0, 0⟩
  have begins := Run.snoc before (.call (left + 2)) _ called written ⟨rfl, trivial⟩
  obtain ⟨again, rewritten⟩ := section_alone region called body known second rfl (by simp [called])
  have fixed := (run_inv region initial fields n safe _ _
    (run_append _ again _ _ begins rewritten)).fixed
  obtain ⟨value, result⟩ := Reads.once_eval (Held region initial) fields n region.snapshot
    safe _ 4 fun field => fixed field
  obtain ⟨during, steps, disturbed⟩ := attempt_disturbed region called (left + 1) rfl
    (by norm_num [called]) rfl body known second value result
  let retried : State F V R := ⟨4, Stored body second (Stored body first initial), .idle,
    [Stored body first initial, Stored body second (Stored body first initial)],
    .attempt (left + 1), left + 2, 1, steps⟩
  obtain ⟨after, st, run, phase, failed, published⟩ := attempt_alone region retried left rfl
    (by norm_num [retried]) value result
  have whole := run_append _ _ _ _ (run_append _ _ _ _ begins disturbed) run
  exact ⟨_, st, value, whole, phase, failed, published⟩

end

end Base.Seqlock
