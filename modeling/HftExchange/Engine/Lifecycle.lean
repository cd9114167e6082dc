import HftExchange.Engine.ShardRun
import HftExchange.Book.Safety

set_option autoImplicit false

namespace HftExchange

open Base

abbrev History := List (OrderState × Nat)

def states (history : History) : List OrderState := history.map Prod.fst

def isFill (state : OrderState) : Bool := state = .partialFill || state = .filled

def isLeftover (state : OrderState) : Bool := state = .canceled || state = .rejected

def totalOf (kind : OrderState → Bool) (history : History) : Nat :=
  ((history.filter fun record => kind record.1).map Prod.snd).sum

def sweeping : RegularExpression OrderState := .star (.char .partialFill)

def standing : RegularExpression OrderState := sweeping * (.char .new * sweeping)

def lifecycle : RegularExpression OrderState :=
  sweeping * (.char .filled + .char .rejected + .char .new * sweeping * (.char .filled + .char .canceled))

-- Where an order is: on its way through the opposite side, in the book, or
-- gone, with the quantity that is left of it.
inductive Phase where
  | incoming (left : Nat)
  | resting (left : Nat)
  | closed
deriving DecidableEq, Repr

namespace Phase

def left : Phase → Nat
  | incoming left => left
  | resting left => left
  | closed => 0

def record : Phase → OrderState × Nat → Option Phase
  | incoming left, (.partialFill, qty) => if qty < left then some (incoming (left - qty)) else none
  | incoming left, (.filled, qty) => if qty = left then some closed else none
  | incoming left, (.rejected, qty) => if qty = left then some closed else none
  | incoming left, (.new, qty) => if qty = left then some (resting left) else none
  | resting left, (.partialFill, qty) => if qty < left then some (resting (left - qty)) else none
  | resting left, (.filled, qty) => if qty = left then some closed else none
  | resting left, (.canceled, qty) => if qty = left then some closed else none
  | _, _ => none

def language : Phase → RegularExpression OrderState
  | incoming _ => sweeping
  | resting _ => standing
  | closed => lifecycle

end Phase

def Life (total : Nat) (history : History) (phase : Phase) : Prop :=
  history.foldlM Phase.record (.incoming total) = some phase

theorem life_snoc (total : Nat) (history : History) (entry : OrderState × Nat) (phase : Phase) :
    Life total (history ++ [entry]) phase ↔ ∃ before, Life total history before ∧
    before.record entry = some phase := by
  simp [Life, List.foldlM_append, Option.bind_eq_some_iff]

theorem record_conserves (before after : Phase) (entry : OrderState × Nat)
    (step : before.record entry = some after) :
    before.left = after.left + (if isFill entry.1 then entry.2 else 0) + (if isLeftover entry.1
      then entry.2 else 0) := by
  obtain ⟨state, qty⟩ := entry
  cases before <;> cases state <;> simp only [Phase.record, Option.ite_none_right_eq_some,
    Option.some.injEq, reduceCtorEq] at step <;>
    obtain ⟨fits, rfl⟩ := step <;> simp [Phase.left, isFill, isLeftover] <;> omega

theorem record_open (before after : Phase) (entry : OrderState × Nat)
    (step : before.record entry = some after)
    (live : 0 < before.left) (open_ : after ≠ .closed) :
    0 < after.left ∧ isLeftover entry.1 = false ∧ entry.1 ≠ .filled := by
  obtain ⟨state, qty⟩ := entry
  cases before <;> cases state <;> simp only [Phase.record, Option.ite_none_right_eq_some,
    Option.some.injEq, reduceCtorEq] at step <;>
    obtain ⟨fits, rfl⟩ := step <;> simp_all [Phase.left, isLeftover]

theorem record_closes (before : Phase) (entry : OrderState × Nat)
    (step : before.record entry = some .closed) :
    entry.2 = before.left ∧ (entry.1 = .filled ∨ isLeftover entry.1 = true) := by
  obtain ⟨state, qty⟩ := entry
  cases before <;> cases state <;> simp only [Phase.record, Option.ite_none_right_eq_some,
    Option.some.injEq, reduceCtorEq,
    and_false] at step <;> simp [Phase.left, isLeftover, step.1]

theorem record_before (before after : Phase) (entry : OrderState × Nat)
    (step : before.record entry = some after) :
    before ≠ .closed := by
  rintro rfl
  cases step

theorem record_new (before after : Phase) (qty : Nat)
    (step : before.record (.new, qty) = some after) : qty = before.left := by
  cases before <;> simp only [Phase.record, Option.ite_none_right_eq_some, reduceCtorEq] at step
  exact step.1

theorem total_snoc (kind : OrderState → Bool) (history : History) (entry : OrderState × Nat) :
    totalOf kind (history ++ [entry]) = totalOf kind history + if kind entry.1 then entry.2 else 0 := by
  cases accepted : kind entry.1 <;> simp [totalOf, accepted]

theorem life_conserves (total : Nat) (history : History) (phase : Phase) (life : Life total history phase) :
    totalOf isFill history + totalOf isLeftover history + phase.left = total := by
  induction history using List.reverseRecOn generalizing phase with
  | nil => cases life; simp [totalOf, Phase.left]
  | append_singleton history entry ih =>
      obtain ⟨before, earlier, step⟩ := (life_snoc total history entry phase).mp life
      have balance := record_conserves before phase entry step
      have sum := ih before earlier
      rw [total_snoc, total_snoc]
      omega

theorem life_open (total : Nat) (positive : 0 < total) (history : History) (phase : Phase)
    (life : Life total history phase)
    (open_ : phase ≠ .closed) :
    0 < phase.left ∧ totalOf isLeftover history = 0 ∧ (states history).getLast? ≠ some .filled := by
  induction history using List.reverseRecOn generalizing phase with
  | nil => cases life; simp [totalOf, Phase.left, states, positive]
  | append_singleton history entry ih =>
      obtain ⟨before, earlier, step⟩ := (life_snoc total history entry phase).mp life
      obtain ⟨live, none_, _⟩ := ih before earlier (record_before before phase entry step)
      obtain ⟨after, kept, unfilled⟩ := record_open before phase entry step live open_
      refine ⟨after, ?_, by simpa [states] using unfilled⟩
      rw [total_snoc, none_, kept]
      rfl

theorem life_filled_iff (total : Nat) (positive : 0 < total) (history : History) (phase : Phase)
    (life : Life total history phase) :
    (states history).getLast? = some .filled ↔ totalOf isFill history = total := by
  have balance := life_conserves total history phase life
  by_cases open_ : phase = .closed
  · subst open_
    rcases List.eq_nil_or_concat history with rfl | ⟨earlier, entry, rfl⟩
    · cases life
    · rw [List.concat_eq_append] at life balance ⊢
      obtain ⟨before, past, step⟩ := (life_snoc total earlier entry .closed).mp life
      obtain ⟨live, none_, _⟩ := life_open total positive earlier before past
        (record_before before .closed entry step)
      obtain ⟨rest, kind⟩ := record_closes before entry step
      rw [total_snoc isLeftover, none_] at balance
      simp only [Phase.left] at balance
      rcases kind with filled | leftover
      · simp only [filled, isLeftover] at balance
        simp only [states, List.map_append, List.map_cons, List.map_nil, List.getLast?_concat,
          filled, true_iff]
        simpa using balance
      · have unfilled : entry.1 ≠ .filled := by
          intro filled
          simp [filled, isLeftover] at leftover
        rw [if_pos leftover] at balance
        simp only [states, List.map_append, List.map_cons, List.map_nil, List.getLast?_concat,
          Option.some.injEq, unfilled, false_iff]
        omega
  · obtain ⟨live, _, unfilled⟩ := life_open total positive history phase life open_
    simp only [unfilled, false_iff]
    omega

theorem life_take (total : Nat) (first second : History) (phase : Phase)
    (life : Life total (first ++ second) phase) :
    ∃ middle, Life total first middle ∧ second.foldlM Phase.record middle = some phase := by
  simpa [Life, List.foldlM_append, Option.bind_eq_some_iff] using life

theorem life_new (total : Nat) (positive : 0 < total) (first second : History) (qty : Nat) (phase : Phase)
    (life : Life total (first ++ (.new, qty) :: second) phase) : totalOf isFill first + qty = total := by
  obtain ⟨middle, before, rest⟩ := life_take total first _ phase life
  rw [List.foldlM_cons] at rest
  obtain ⟨next, step, _⟩ := Option.bind_eq_some_iff.mp rest
  have balance := life_conserves total first middle before
  obtain ⟨_, none_, _⟩ := life_open total positive first middle before (record_before middle next _ step)
  rw [record_new middle next qty step]
  omega

theorem sweeping_snoc (word : List OrderState) (member : word ∈ sweeping.matches') :
    word ++ [.partialFill] ∈ sweeping.matches' := by
  have single : [OrderState.partialFill] ∈ sweeping.matches' :=
    le_kstar (a := (RegularExpression.char OrderState.partialFill).matches') (Set.mem_singleton _)
  have both := Language.append_mem_mul member single
  rwa [sweeping, RegularExpression.matches'_star, kstar_mul_kstar] at both

theorem record_language (before after : Phase) (entry : OrderState × Nat)
    (step : before.record entry = some after)
    (word : List OrderState) (member : word ∈ before.language.matches') :
    word ++ [entry.1] ∈ after.language.matches' := by
  have one : ∀ state : OrderState, [state] ∈ (RegularExpression.char state).matches' :=
    fun state => Set.mem_singleton _
  have empty : ([] : List OrderState) ∈ sweeping.matches' := Language.nil_mem_kstar _
  obtain ⟨state, qty⟩ := entry
  cases before with
  | incoming left =>
      cases state <;> simp only [Phase.record, Option.ite_none_right_eq_some, Option.some.injEq,
        reduceCtorEq] at step <;>
        obtain ⟨_, rfl⟩ := step
      · exact Language.append_mem_mul member (by simpa using Language.append_mem_mul (one .new) empty)
      · exact sweeping_snoc word member
      · exact Language.append_mem_mul member (.inl (.inl (one .filled)))
      · exact Language.append_mem_mul member (.inl (.inr (one .rejected)))
  | resting left =>
      obtain ⟨first, swept, second, stood, rfl⟩ := Language.mem_mul.mp member
      obtain ⟨head, isNew, tail, hits, rfl⟩ := Language.mem_mul.mp stood
      cases state <;> simp only [Phase.record, Option.ite_none_right_eq_some, Option.some.injEq,
        reduceCtorEq] at step <;>
        obtain ⟨_, rfl⟩ := step
      · rw [List.append_assoc, List.append_assoc]
        exact Language.append_mem_mul swept (Language.append_mem_mul isNew (sweeping_snoc tail hits))
      · rw [List.append_assoc]
        exact Language.append_mem_mul swept
          (.inr (Language.append_mem_mul (Language.append_mem_mul isNew hits) (.inl (one .filled))))
      · rw [List.append_assoc]
        exact Language.append_mem_mul swept
          (.inr (Language.append_mem_mul (Language.append_mem_mul isNew hits)
          (.inr (one .canceled))))
  | closed => cases step

theorem life_language (total : Nat) (history : History) (phase : Phase) (life : Life total history phase) :
    states history ∈ phase.language.matches' := by
  induction history using List.reverseRecOn generalizing phase with
  | nil => cases life; exact Language.nil_mem_kstar _
  | append_singleton history entry ih =>
      obtain ⟨before, earlier, step⟩ := (life_snoc total history entry phase).mp life
      rw [states, List.map_append]
      exact record_language before phase entry step _ (ih before earlier)

end HftExchange
