import HftExchange.Monitoring.Lossy

set_option autoImplicit false

namespace HftExchange.Monitoring

open Base

section
variable {τ : Type}

theorem note_other (current : Nat → Bool) (m : Arrival τ) (ref : Nat) (different : ref ≠ m.1.internalId) :
    noteAdd current m ref = current ref := by
  unfold noteAdd
  split
  · exact Function.update_of_ne different _ _
  · rfl

theorem note_execution (current : Nat → Bool) (o : Order) (price qty : Nat) (received : Option τ) :
    noteAdd current (itchMessage 'E' o price qty, received) = current :=
  if_neg (show ascii 'E' ≠ ascii 'A' by decide)

theorem note_cancel (current : Nat → Bool) (o : Order) (price qty : Nat) (received : Option τ) :
    noteAdd current (itchMessage 'X' o price qty, received) = current :=
  if_neg (show ascii 'X' ≠ ascii 'A' by decide)

theorem deliver_other (book : Book τ) (m : Arrival τ) (ref : Nat) (different : ref ≠ m.1.internalId) :
    (book.deliver m).orders.lookup ref = book.orders.lookup ref := by
  rw [deliver_lookup, if_neg different]

theorem deliver_own (book : Book τ) (m : Arrival τ) :
    (book.deliver m).orders.lookup m.1.internalId =
    m.2.elim (book.orders.lookup m.1.internalId) fun now => afterMessage m.1 now
    (book.orders.lookup m.1.internalId) := by
  rw [deliver_lookup, if_pos rfl]

theorem taker_unseen (book : Book τ) (n : Order) (price qty : Nat) (received : Option τ)
    (unseen : received.isSome = true → n.internalId ∉ book.orders) :
    book.deliver (itchMessage 'E' n price qty, received) = book := by
  cases received with
  | none => rfl
  | some now =>
      have absent : book.orders.lookup n.internalId = none := AList.lookup_eq_none.mpr (unseen rfl)
      have other : ascii 'E' ≠ ascii 'A' := by decide
      simp only [Book.deliver, Book.apply, itchMessage, if_neg other, if_true, absent]

variable [LT τ]

def NewerThan (book : Book τ) (received : Option τ) : Prop :=
  ∀ now, received = some now → ∀ ref e, book.orders.lookup ref = some e → e.touched < now

theorem rest_sound (resting : Resting) (book : Book τ) (current : Nat → Bool) (n : Order)
    (received : Option τ)
    (sound : Sound resting book current) (uncrossed : Uncrossed resting)
    (fresh : n.internalId ∉ ids resting) (live : 0 < n.quantity)
    (newer : NewerThan book received) :
    Sound (resting ++ [n]) (book.deliver (itchMessage 'A' n n.price n.quantity, received))
      (noteAdd current (itchMessage 'A' n n.price n.quantity, received)) := by
  have noted : noteAdd current (itchMessage 'A' n n.price n.quantity, received) n.internalId =
      received.isSome := by
    simp [noteAdd, itchMessage]
  have lookup := deliver_own book (itchMessage 'A' n n.price n.quantity, received)
  have unused : ¬ LiveRef resting current n.internalId := fun alive => fresh alive.1
  refine sound_change resting _ book _ current _ n.internalId sound uncrossed
    (deliver_consistent book _ sound.consistent fun _ => live)
    (fun r different => ?_) (fun ref different => deliver_other book _ ref different)
      (fun ref different => note_other current _ ref different)
    (fun r inside same alive e found => ?_) fun e found gone => ?_
  · simp only [List.mem_append, List.mem_singleton]
    exact ⟨fun either => either.resolve_right fun same => different (congrArg Order.internalId same), .inl⟩
  · rw [noted] at alive
    obtain ⟨now, given⟩ := Option.isSome_iff_exists.mp alive
    have own : r = n := by
      rcases List.mem_append.mp inside with old | last
      · exact absurd (same ▸ List.mem_map_of_mem old) fresh
      · exact List.mem_singleton.mp last
    have entry : e = ⟨sideByte n.side, n.price, n.quantity, now⟩ := by
      rw [given] at lookup found
      exact Option.some.inj (found.symm.trans lookup)
    subst own entry
    exact ⟨⟨rfl, rfl⟩, .inl fun ref other _ there => newer now given ref other there⟩
  · cases received with
    | some now =>
        have member : n.internalId ∈ ids (resting ++ [n]) := by simp [ids]
        exact absurd ⟨member, noted⟩ gone
    | none => exact .inl ⟨found, unused⟩

theorem maker_sound (resting : Resting) (book : Book τ) (current : Nat → Bool) (r : Order)
    (qty : Nat) (received : Option τ)
    (sound : Sound resting book current) (uncrossed : Uncrossed resting)
    (distinct : (ids resting).Nodup) (inside : r ∈ resting)
    (newer : NewerThan book received) (own : received.isSome = true → r.internalId ∈ book.orders →
      current r.internalId = true) :
    Sound (settle resting r.internalId qty)
    (book.deliver (itchMessage 'E' r r.price qty, received)) current := by
  have lookup := deliver_own book (itchMessage 'E' r r.price qty, received)
  have settled := mem_settle_iff resting r qty distinct inside
  have consistent := deliver_consistent book (itchMessage 'E' r r.price qty, received)
      sound.consistent fun impossible =>
    absurd impossible (show ascii 'E' ≠ ascii 'A' by decide)
  have origin : ∀ e, (book.deliver (itchMessage 'E' r r.price qty, received)).orders.lookup
    r.internalId = some e →
      (received = none ∧ book.orders.lookup r.internalId = some e) ∨
        ∃ old, current r.internalId = true ∧ book.orders.lookup r.internalId = some old ∧
          e.side = old.side ∧ e.price = old.price ∧
          received = some e.touched := by
    intro e found
    replace found := lookup.symm.trans found
    cases received with
    | none => exact .inl ⟨rfl, found⟩
    | some now =>
        obtain ⟨old, there, kept⟩ := Option.bind_eq_some_iff.mp found
        have mine := own rfl (AList.lookup_isSome.mp (Option.isSome_iff_exists.mpr ⟨old, there⟩))
        by_cases spent : old.remaining - qty ≤ 0
        · have vanished : (none : Option (BookOrder τ)) = some e := (if_pos spent).symm.trans kept
          cases vanished
        · have touched := (if_neg spent).symm.trans kept
          cases touched
          exact .inr ⟨old, mine, there, rfl, rfl, rfl⟩
  refine sound_change resting _ book _ current current r.internalId sound uncrossed consistent
    (fun s different => ?_) (fun ref different => deliver_other book _ ref different) (fun _ _ => rfl)
    (fun s member same alive e found => ?_) fun e found gone => ?_
  · rw [settled s]
    exact ⟨fun either => (either.resolve_right fun ⟨same, _⟩ => different (by rw [same]; rfl)).1,
      fun there => .inl ⟨there, different⟩⟩
  · have lowered : s.side = r.side ∧ s.price = r.price := by
      rcases (settled s).mp member with ⟨_, apart⟩ | ⟨rfl, _⟩
      · exact absurd same apart
      · exact ⟨rfl, rfl⟩
    rw [lowered.1, lowered.2]
    rcases origin e found with ⟨_, there⟩ | ⟨old, _, there, side, price, given⟩
    · exact ⟨sound.level r inside alive e there, .inr ⟨alive, there, r, inside, rfl, rfl, rfl⟩⟩
    · rw [side, price]
      exact ⟨sound.level r inside alive old there, .inl fun ref other _ known =>
        newer e.touched given ref other known⟩
  · rcases origin e found with ⟨_, there⟩ | ⟨old, mine, there, side, price, _⟩
    · by_cases mine : current r.internalId = true
      · exact .inr ⟨r, inside, rfl, sound.level r inside mine e there⟩
      · exact .inl ⟨there, fun alive => mine alive.2⟩
    · rw [side, price]
      exact .inr ⟨r, inside, rfl, sound.level r inside mine old there⟩

theorem cancel_sound (resting : Resting) (book : Book τ) (current : Nat → Bool) (r : Order)
    (received : Option τ)
    (sound : Sound resting book current) (uncrossed : Uncrossed resting) (inside : r ∈ resting) :
    Sound (without resting r.internalId)
    (book.deliver (itchMessage 'X' r r.price r.quantity, received)) current := by
  have lookup := deliver_own book (itchMessage 'X' r r.price r.quantity, received)
  have kept : ∀ s, s ∈ without resting r.internalId ↔ s ∈ resting ∧ s.internalId ≠ r.internalId := fun s => by
    simp [without]
  have consistent := deliver_consistent book (itchMessage 'X' r r.price r.quantity, received)
      sound.consistent fun impossible =>
    absurd impossible (show ascii 'X' ≠ ascii 'A' by decide)
  refine sound_change resting _ book _ current current r.internalId sound uncrossed consistent
    (fun s different => ?_) (fun ref different => deliver_other book _ ref different) (fun _ _ => rfl)
    (fun s member same alive e found => ?_) fun e found gone => ?_
  · rw [kept s]
    exact ⟨And.left, fun there => ⟨there, different⟩⟩
  · exact absurd same ((kept s).mp member).2
  · replace found := lookup.symm.trans found
    cases received with
    | some now =>
        have vanished : (none : Option (BookOrder τ)) = some e := found
        cases vanished
    | none =>
        by_cases mine : current r.internalId = true
        · exact .inr ⟨r, inside, rfl, sound.level r inside mine e found⟩
        · exact .inl ⟨found, fun alive => mine alive.2⟩

end

end HftExchange.Monitoring
