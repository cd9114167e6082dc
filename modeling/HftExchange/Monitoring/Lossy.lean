import HftExchange.Monitoring.Mirror
import HftExchange.Book.Safety

set_option autoImplicit false

namespace HftExchange.Monitoring

open Base

-- A message of the feed with its receive time, or without one if it is lost.
abbrev Arrival (τ : Type) := ItchMessage × Option τ

section
variable {τ : Type}

def Book.deliver (book : Book τ) (m : Arrival τ) : Book τ :=
  match m.2 with
  | none => book
  | some now => book.apply m.1 now

-- Whether the last 'A' broadcast under a reference has been received. If so
-- the entry of the reference stands for the order that rested with that 'A'.
def noteAdd (current : Nat → Bool) (m : Arrival τ) : Nat → Bool :=
  if m.1.msgType = ascii 'A' then Function.update current m.1.internalId m.2.isSome else current

theorem deliver_lookup (book : Book τ) (m : Arrival τ) (ref : Nat) :
    (book.deliver m).orders.lookup ref =
    if ref = m.1.internalId then m.2.elim (book.orders.lookup ref) fun now => afterMessage m.1 now
    (book.orders.lookup ref)
    else book.orders.lookup ref := by
  obtain ⟨msg, received⟩ := m
  cases received with
  | none => simp [Book.deliver]
  | some now => simp only [Book.deliver, apply_lookup, Option.elim_some]

theorem deliver_consistent (book : Book τ) (m : Arrival τ) (consistent : Consistent book)
    (live : m.1.msgType = ascii 'A' → 0 < m.1.shares) : Consistent (book.deliver m) := by
  obtain ⟨msg, received⟩ := m
  cases received with
  | none => exact consistent
  | some now => exact apply_consistent book msg now consistent live

theorem deliver_touched (book : Book τ) (m : Arrival τ) (ref : Nat) (e : BookOrder τ)
    (found : (book.deliver m).orders.lookup ref = some e) :
    (∃ old, book.orders.lookup ref = some old ∧ old.touched = e.touched) ∨ m.2 = some e.touched := by
  rw [deliver_lookup] at found
  split at found
  · cases received : m.2 with
    | none =>
        rw [received, Option.elim_none] at found
        exact .inl ⟨e, found, rfl⟩
    | some now =>
        rw [received, Option.elim_some, afterMessage] at found
        split at found
        · cases found
          exact .inr rfl
        · split at found
          · obtain ⟨old, _, kept⟩ := Option.bind_eq_some_iff.mp found
            split at kept
            · cases kept
            · cases kept
              exact .inr rfl
          · split at found
            · cases found
            · exact .inl ⟨e, found, rfl⟩
  · exact .inl ⟨e, found, rfl⟩

-- Receive times grow from message to message, and with them the times of the
-- entries they touch.
def Timely [LT τ] (book : Book τ) (arrivals : List (Arrival τ)) : Prop :=
  (∀ t ∈ arrivals.filterMap Prod.snd, ∀ ref e, book.orders.lookup ref = some e → e.touched < t) ∧
  (arrivals.filterMap Prod.snd).Pairwise (· < ·)

theorem timely_now [LT τ] (book : Book τ) (m : Arrival τ) (rest : List (Arrival τ))
    (timely : Timely book (m :: rest)) (now : τ)
    (received : m.2 = some now) : ∀ ref e, book.orders.lookup ref = some e → e.touched < now :=
  timely.1 now (by simp [received])

theorem timely_rest [LT τ] (book : Book τ) (m : Arrival τ) (rest : List (Arrival τ))
    (timely : Timely book (m :: rest)) :
    Timely (book.deliver m) rest := by
  obtain ⟨above, increasing⟩ := timely
  cases received : m.2 with
  | none =>
      have same : book.deliver m = book := by simp [Book.deliver, received]
      rw [List.filterMap_cons_none received] at above increasing
      rw [same]
      exact ⟨above, increasing⟩
  | some now =>
      rw [List.filterMap_cons_some received] at above increasing
      obtain ⟨first, increasing'⟩ := List.pairwise_cons.mp increasing
      refine ⟨fun t member ref e found => ?_, increasing'⟩
      rcases deliver_touched book m ref e found with ⟨old, there, same⟩ | same
      · exact same ▸ above t (List.mem_cons_of_mem _ member) ref old there
      · rw [received] at same
        exact Option.some.inj same ▸ first t member

def Against (r : Order) (e : BookOrder τ) : Prop :=
  e.side = sideByte r.side.opposite ∧ crosses r.side e.price r.price = true

def LiveRef (resting : Resting) (current : Nat → Bool) (ref : Nat) : Prop :=
  ref ∈ ids resting ∧ current ref = true

-- What the reconstruction knows in spite of losses: entries of live orders
-- have the right level, and an entry of a dead order that crosses a live one
-- has not been touched since.
structure Sound [LT τ] (resting : Resting) (book : Book τ) (current : Nat → Bool) : Prop where
  consistent : Consistent book
  sides : ∀ ref e, book.orders.lookup ref = some e → ∃ side, e.side = sideByte side
  level : ∀ r ∈ resting, current r.internalId = true → ∀ e, book.orders.lookup r.internalId = some e →
    e.side = sideByte r.side ∧ e.price = r.price
  older : ∀ r ∈ resting, current r.internalId = true → ∀ e, book.orders.lookup r.internalId = some e →
    ∀ ref stale, book.orders.lookup ref = some stale → ¬ LiveRef resting current ref →
      Against r stale → stale.touched < e.touched

theorem uncrossed_against (resting : Resting) (uncrossed : Uncrossed resting) (r s : Order)
    (first : r ∈ resting) (second : s ∈ resting)
    (e : BookOrder τ) (side : e.side = sideByte s.side) (price : e.price = s.price) : ¬ Against r e := by
  rintro ⟨opposite, crossed⟩
  have sides : s.side = r.side.opposite := by
    rw [side] at opposite
    revert opposite
    cases s.side <;> cases r.side <;> decide
  rw [price] at crossed
  cases own : r.side with
  | buy =>
      have sells : s.side = .sell := by simpa [own, Side.opposite] using sides
      have apart := uncrossed r first own s second sells
      simp only [own, crosses, decide_eq_true_eq] at crossed
      omega
  | sell =>
      have buys : s.side = .buy := by simpa [own, Side.opposite] using sides
      have apart := uncrossed s second buys r first own
      simp only [own, crosses, decide_eq_true_eq] at crossed
      omega

-- A change that concerns one reference. If its order is live afterwards, the
-- entry is the newest of all or the one it had; if it is dead, the entry was
-- already dead or that of an order which rested until now.
theorem sound_change [LT τ] (before after : Resting) (book next : Book τ)
    (current now_ : Nat → Bool) (x : Nat)
    (sound : Sound before book current) (uncrossed : Uncrossed before) (consistent : Consistent next)
    (others : ∀ r, r.internalId ≠ x → (r ∈ after ↔ r ∈ before))
    (entries : ∀ ref, ref ≠ x → next.orders.lookup ref = book.orders.lookup ref)
    (notes : ∀ ref, ref ≠ x → now_ ref = current ref)
    (live : ∀ r ∈ after, r.internalId = x → now_ x = true → ∀ e, next.orders.lookup x = some e →
      (e.side = sideByte r.side ∧ e.price = r.price) ∧
      ((∀ ref other, ref ≠ x → book.orders.lookup ref = some other → other.touched < e.touched) ∨
        current x = true ∧ book.orders.lookup x = some e ∧ ∃ old ∈ before, old.internalId = x ∧
        old.side = r.side ∧ old.price = r.price))
    (dead : ∀ e, next.orders.lookup x = some e → ¬ LiveRef after now_ x →
      (book.orders.lookup x = some e ∧ ¬ LiveRef before current x) ∨
        ∃ r ∈ before, r.internalId = x ∧ e.side = sideByte r.side ∧ e.price = r.price) :
        Sound after next now_ := by
  have status : ∀ ref, ref ≠ x → (LiveRef after now_ ref ↔ LiveRef before current ref) := by
    intro ref different
    have member : ref ∈ ids after ↔ ref ∈ ids before := by
      simp only [ids, List.mem_map]
      constructor
      · rintro ⟨r, inside, rfl⟩
        exact ⟨r, (others r different).mp inside, rfl⟩
      · rintro ⟨r, inside, rfl⟩
        exact ⟨r, (others r different).mpr inside, rfl⟩
    rw [LiveRef, LiveRef, member, notes ref different]
  have sides : ∀ e, next.orders.lookup x = some e → ∃ side, e.side = sideByte side := by
    intro e found
    by_cases alive : LiveRef after now_ x
    · obtain ⟨r, inside, same⟩ := List.mem_map.mp alive.1
      exact ⟨r.side, (live r inside same alive.2 e found).1.1⟩
    · rcases dead e found alive with ⟨old, _⟩ | ⟨r, _, _, side, _⟩
      · exact sound.sides x e old
      · exact ⟨r.side, side⟩
  refine ⟨consistent, fun ref e found => ?_, fun r inside noted e found => ?_,
    fun r inside noted e found ref stale there gone against => ?_⟩
  · by_cases own : ref = x
    · subst own
      exact sides e found
    · rw [entries ref own] at found
      exact sound.sides ref e found
  · by_cases own : r.internalId = x
    · subst own
      exact (live r inside rfl noted e found).1
    · rw [entries _ own] at found
      rw [notes _ own] at noted
      exact sound.level r ((others r own).mp inside) noted e found
  · by_cases own : r.internalId = x
    · obtain rfl : x = r.internalId := own.symm
      have different : ref ≠ r.internalId := by
        rintro rfl
        exact gone ⟨List.mem_map_of_mem inside, noted⟩
      rw [entries ref different] at there
      rw [status ref different] at gone
      obtain ⟨_, newest | ⟨noted', same, old, inside', same', side, price⟩⟩ := live r inside rfl noted e found
      · exact newest ref stale different there
      · have against' : Against old stale := by
          rw [Against, side, price]
          exact against
        rw [← same'] at noted' same
        exact sound.older old inside' noted' e same ref stale there gone against'
    · have inside' := (others r own).mp inside
      rw [entries _ own] at found
      rw [notes _ own] at noted
      by_cases target : ref = x
      · subst target
        rcases dead stale there gone with ⟨old, gone'⟩ | ⟨s, member, _, side, price⟩
        · exact sound.older r inside' noted e found ref stale old gone' against
        · exact absurd against (uncrossed_against before uncrossed r s inside' member stale side price)
      · rw [entries ref target] at there
        rw [status ref target] at gone
        exact sound.older r inside' noted e found ref stale there gone against

end

end HftExchange.Monitoring
