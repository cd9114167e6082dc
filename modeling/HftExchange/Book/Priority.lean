import HftExchange.Book.Rep

set_option autoImplicit false

namespace HftExchange

theorem ahead_irrefl (side : Side) (p : Nat) : ahead side p p = false := by
  cases side <;> simp [ahead]

theorem ahead_total (side : Side) (p q : Nat) (first : ahead side p q = false)
    (second : ahead side q p = false) : p = q := by
  cases side <;> simp only [ahead, decide_eq_false_iff_not] at first second <;> omega

theorem ahead_asymm (side : Side) (p q : Nat) (first : ahead side p q = true) : ahead side q p = false := by
  cases side <;> simp only [ahead, decide_eq_false_iff_not, decide_eq_true_eq] at * <;> omega

theorem ahead_trans (side : Side) (p q r : Nat) (first : ahead side p q = true)
    (second : ahead side r q = false) :
    ahead side p r = true := by
  cases side <;> simp only [ahead, decide_eq_false_iff_not, decide_eq_true_eq] at * <;> omega

theorem crosses_ahead (side : Side) (p q limit : Nat) (crossed : crosses side q limit = true)
    (order : ahead side.opposite q p = false) : crosses side p limit = true := by
  cases side <;>
    simp only [crosses, ahead, Side.opposite, decide_eq_true_eq, decide_eq_false_iff_not] at * <;> omega

theorem compatible_iff (n r : Order) :
    compatible n r = true ↔ r.side = n.side.opposite ∧ crosses n.side r.price n.price = true := by
  simp [compatible]

theorem best_opposite_none_iff (n : Order) (book : Resting) :
    bestOpposite n book = none ↔ ∀ r ∈ book, compatible n r = false := by
  induction book with
  | nil => simp [bestOpposite]
  | cons head tail ih =>
      simp only [bestOpposite]
      cases rest : bestOpposite n tail with
      | none =>
          have none := ih.mp rest
          simp only [List.forall_mem_cons]
          cases compatible n head with
          | true => simp
          | false => simpa using none
      | some b =>
          have absent : ¬ ∀ r ∈ tail, compatible n r = false := fun all => by simp [ih.mpr all] at rest
          simp only [List.forall_mem_cons, absent, and_false, iff_false]
          split <;> simp

theorem best_opposite_spec (n b : Order) (book : Resting) (found : bestOpposite n book = some b) :
    compatible n b = true ∧ (∀ r ∈ book, compatible n r = true → ahead b.side r.price b.price = false) ∧
      book.find? (onLevel b.side b.price) = some b := by
  induction book generalizing b with
  | nil => cases found
  | cons head tail ih =>
      have self : ∀ r : Order, onLevel r.side r.price r = true := fun r => by simp [onLevel]
      simp only [bestOpposite] at found
      cases rest : bestOpposite n tail with
      | none =>
          have none := (best_opposite_none_iff n tail).mp rest
          rw [rest] at found
          simp only [Option.ite_none_right_eq_some, Option.some.injEq] at found
          obtain ⟨good, rfl⟩ := found
          refine ⟨good, ?_, by simp [self]⟩
          intro r member compat
          rcases List.mem_cons.mp member with rfl | later
          · exact ahead_irrefl _ _
          · simp [none r later] at compat
      | some best =>
          obtain ⟨good, priority, first⟩ := ih best rest
          have goodSide := ((compatible_iff n best).mp good).1
          rw [rest] at found
          simp only at found
          split at found
          · rename_i taken
            rw [Bool.and_eq_true, Bool.not_eq_true'] at taken
            cases Option.some.inj found
            have headSide := ((compatible_iff n head).mp taken.1).1
            refine ⟨taken.1, ?_, by simp [self]⟩
            intro r member compat
            rcases List.mem_cons.mp member with rfl | later
            · exact ahead_irrefl _ _
            · by_contra before
              have ordered := priority r later compat
              rw [goodSide] at taken ordered
              rw [headSide] at before
              have contradiction := ahead_trans _ r.price head.price best.price
                (by simpa using before) taken.2
              rw [ordered] at contradiction
              cases contradiction
          · rename_i refused
            cases Option.some.inj found
            have notHead : onLevel b.side b.price head = false := by
              by_contra here
              have here : head.side = b.side ∧ head.price = b.price := by simpa [onLevel] using here
              apply refused
              have compat : compatible n head = true := by
                rw [compatible_iff] at good ⊢
                rw [here.1, here.2]
                exact good
              simp [compat, here.2, ahead_irrefl]
            refine ⟨good, ?_, by simp [notHead, first]⟩
            intro r member compat
            rcases List.mem_cons.mp member with rfl | later
            · by_contra before
              apply refused
              simp [compat, ahead_asymm b.side r.price b.price (by simpa using before)]
            · exact priority r later compat

theorem best_opposite_of_level (n r : Order) (book rest : Resting) (p : Nat)
    (level : levelOrders book n.side.opposite p = r :: rest) (crossed : crosses n.side p n.price = true)
    (bound : ∀ s ∈ book, s.side = n.side.opposite → ahead n.side.opposite s.price p = false) :
    bestOpposite n book = some r := by
  have member : r ∈ levelOrders book n.side.opposite p := by simp [level]
  obtain ⟨inside, here⟩ := List.mem_filter.mp member
  have here : r.side = n.side.opposite ∧ r.price = p := by simpa [onLevel] using here
  have compat : compatible n r = true := by
    rw [compatible_iff, here.1, here.2]
    exact ⟨rfl, crossed⟩
  cases found : bestOpposite n book with
  | none =>
      have none := (best_opposite_none_iff n book).mp found r inside
      rw [compat] at none
      cases none
  | some b =>
      obtain ⟨good, priority, first⟩ := best_opposite_spec n b book found
      have goodSide := ((compatible_iff n b).mp good).1
      have notBehind := priority r inside compat
      have notAhead := bound b (best_opposite_mem n b book found) goodSide
      rw [goodSide, here.2] at notBehind
      have samePrice := ahead_total _ _ _ notBehind notAhead
      rw [goodSide, ← samePrice, ← List.head?_filter] at first
      have head : (levelOrders book n.side.opposite p).head? = some r := by rw [level]; rfl
      exact first.symm.trans head

end HftExchange
