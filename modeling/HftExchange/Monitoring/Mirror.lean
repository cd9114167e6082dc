import HftExchange.Monitoring.Consistency
import HftExchange.Engine.MarketData

set_option autoImplicit false

namespace HftExchange.Monitoring

open Base

def restingView (r : Order) : Byte × Nat × Int := (sideByte r.side, r.price, r.quantity)

section
variable {τ : Type}

def BookOrder.view (o : BookOrder τ) : Byte × Nat × Int := (o.side, o.price, o.remaining)

def Book.known (book : Book τ) (ref : Nat) : Option (Byte × Nat × Int) :=
    (book.orders.lookup ref).map BookOrder.view

def Mirrors (resting : Resting) (book : Book τ) : Prop :=
  ∀ ref v, book.known ref = some v ↔ ∃ r ∈ resting, r.internalId = ref ∧ restingView r = v

def Book.receive (book : Book τ) (feed : List (ItchMessage × τ)) : Book τ :=
    feed.foldl (fun book m => book.apply m.1 m.2) book

theorem mirrors_unknown (resting : Resting) (book : Book τ) (mirrors : Mirrors resting book)
    (ref : Nat) (absent : ref ∉ ids resting) :
    book.orders.lookup ref = none := by
  cases found : book.orders.lookup ref with
  | none => rfl
  | some o =>
      obtain ⟨r, inside, rfl, _⟩ := (mirrors ref o.view).mp (by simp [Book.known, found])
      exact absurd (List.mem_map_of_mem inside) absent

theorem mirrors_known (resting : Resting) (book : Book τ) (mirrors : Mirrors resting book)
    (r : Order) (inside : r ∈ resting) :
    ∃ touched, book.orders.lookup r.internalId = some ⟨sideByte r.side, r.price, r.quantity, touched⟩ := by
  have seen := (mirrors r.internalId (restingView r)).mpr ⟨r, inside, rfl, rfl⟩
  cases found : book.orders.lookup r.internalId with
  | none => simp [Book.known, found] at seen
  | some o =>
      have same : o.view = restingView r := by simpa [Book.known, found] using seen
      obtain ⟨side, rest⟩ := Prod.mk.inj same
      obtain ⟨price, remaining⟩ := Prod.mk.inj rest
      exact ⟨o.touched, by rw [← side, ← price, ← remaining]⟩

theorem after_add (o : Order) (price qty : Nat) (now : τ) (old : Option (BookOrder τ)) :
    afterMessage (itchMessage 'A' o price qty) now old = some ⟨sideByte o.side, price, qty, now⟩ := rfl

theorem after_execute (o : Order) (price qty : Nat) (now : τ) (old : Option (BookOrder τ)) :
    afterMessage (itchMessage 'E' o price qty) now old = old.bind fun b =>
      if b.remaining - qty ≤ 0 then none
        else some { b with remaining := b.remaining - qty, touched := now } := rfl

theorem after_cancel (o : Order) (price qty : Nat) (now : τ) (old : Option (BookOrder τ)) :
    afterMessage (itchMessage 'X' o price qty) now old = none := rfl

theorem known_apply (book : Book τ) (type : Char) (o : Order) (price qty : Nat) (now : τ) (ref : Nat) :
    (book.apply (itchMessage type o price qty) now).known ref =
      if ref = o.internalId
        then (afterMessage (itchMessage type o price qty) now (book.orders.lookup ref)).map
        BookOrder.view
      else book.known ref := by
  simp only [Book.known, apply_lookup, itchMessage]
  split <;> rfl

theorem rest_mirrors (resting : Resting) (book : Book τ) (n : Order) (now : τ)
    (mirrors : Mirrors resting book)
    (fresh : n.internalId ∉ ids resting) :
    Mirrors (resting ++ [n]) (book.apply (itchMessage 'A' n n.price n.quantity) now) := by
  intro ref v
  rw [known_apply]
  by_cases own : ref = n.internalId
  · rw [if_pos own, after_add]
    simp only [Option.map_some, Option.some.injEq, BookOrder.view]
    constructor
    · intro seen
      exact ⟨n, by simp, own.symm, seen⟩
    · rintro ⟨r, inside, same, seen⟩
      rcases List.mem_append.mp inside with before | last
      · exact absurd (own ▸ same ▸ List.mem_map_of_mem before) fresh
      · exact List.mem_singleton.mp last ▸ seen
  · rw [if_neg own, mirrors ref v]
    constructor
    · rintro ⟨r, inside, rest⟩
      exact ⟨r, List.mem_append_left _ inside, rest⟩
    · rintro ⟨r, inside, same, seen⟩
      rcases List.mem_append.mp inside with before | last
      · exact ⟨r, before, same, seen⟩
      · exact absurd (List.mem_singleton.mp last ▸ same.symm) own

theorem maker_mirrors (resting : Resting) (book : Book τ) (r : Order) (price qty : Nat) (now : τ)
    (mirrors : Mirrors resting book)
    (distinct : (ids resting).Nodup) (inside : r ∈ resting) :
    Mirrors (settle resting r.internalId qty) (book.apply (itchMessage 'E' r price qty) now) := by
  intro ref v
  rw [known_apply]
  by_cases own : ref = r.internalId
  · obtain ⟨touched, found⟩ := mirrors_known resting book mirrors r inside
    subst own
    have after : afterMessage (itchMessage 'E' r price qty) now (book.orders.lookup r.internalId) =
        if r.quantity ≤ qty then none else some ⟨sideByte r.side, r.price,
          (r.quantity : Int) - qty, now⟩ := by
      have order : ((r.quantity : Int) - qty ≤ 0) = (r.quantity ≤ qty) := propext (by omega)
      simp only [after_execute, found, Option.bind_some, order]
    rw [if_pos rfl, after]
    by_cases all : r.quantity ≤ qty
    · rw [if_pos all]
      simp only [Option.map_none, reduceCtorEq, false_iff]
      rintro ⟨s, there, same, _⟩
      rcases (mem_settle_iff resting r qty distinct inside s).mp there with ⟨_, apart⟩ | ⟨_, more⟩
      · exact apart same
      · exact absurd more (Nat.not_lt.mpr all)
    · have more : qty < r.quantity := Nat.lt_of_not_le all
      have left : ((r.quantity : Int) - qty) = ((r.quantity - qty : Nat) : Int) := by omega
      rw [if_neg all, Option.map_some, left]
      constructor
      · intro seen
        exact ⟨reduced r qty, settle_lowers resting r qty inside more, rfl, Option.some.inj seen⟩
      · rintro ⟨s, there, same, seen⟩
        rcases (mem_settle_iff resting r qty distinct inside s).mp there with ⟨_, apart⟩ | ⟨rfl, _⟩
        · exact absurd same apart
        · exact congrArg some seen
  · rw [if_neg own, mirrors ref v]
    constructor
    · rintro ⟨s, there, rfl, seen⟩
      exact ⟨s, settle_keeps resting r.internalId qty s there own, rfl, seen⟩
    · rintro ⟨s, there, same, seen⟩
      rcases (mem_settle_iff resting r qty distinct inside s).mp there with ⟨before, _⟩ | ⟨rfl, _⟩
      · exact ⟨s, before, same, seen⟩
      · exact absurd same.symm own

-- The reference of an aggressor is in no entry: its slot is taken from the
-- pool and comes into the book only with its own 'A'.
theorem taker_mirrors (resting : Resting) (book : Book τ) (n : Order) (price qty : Nat) (now : τ)
    (mirrors : Mirrors resting book)
    (fresh : n.internalId ∉ ids resting) :
    Mirrors resting (book.apply (itchMessage 'E' n price qty) now) := by
  have unknown := mirrors_unknown resting book mirrors n.internalId fresh
  intro ref v
  rw [known_apply, ← mirrors ref v]
  by_cases own : ref = n.internalId
  · subst own
    rw [if_pos rfl, Book.known, unknown, after_execute]
    rfl
  · rw [if_neg own]

theorem cancel_mirrors (resting : Resting) (book : Book τ) (r : Order) (now : τ)
    (mirrors : Mirrors resting book) :
    Mirrors (without resting r.internalId) (book.apply (itchMessage 'X' r r.price r.quantity) now) := by
  intro ref v
  rw [known_apply]
  have kept : ∀ s, s ∈ without resting r.internalId ↔ s ∈ resting ∧ s.internalId ≠ r.internalId := fun s => by
    simp [without]
  by_cases own : ref = r.internalId
  · rw [if_pos own, after_cancel]
    simp only [Option.map_none, reduceCtorEq, false_iff]
    rintro ⟨s, there, same, _⟩
    exact ((kept s).mp there).2 (same.trans own)
  · rw [if_neg own, mirrors ref v]
    constructor
    · rintro ⟨s, there, same, seen⟩
      exact ⟨s, (kept s).mpr ⟨there, fun equal => own (same.symm.trans equal)⟩, same, seen⟩
    · rintro ⟨s, there, same, seen⟩
      exact ⟨s, ((kept s).mp there).1, same, seen⟩

end

end HftExchange.Monitoring
