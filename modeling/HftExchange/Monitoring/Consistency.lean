import HftExchange.Monitoring.Book

set_option autoImplicit false

namespace HftExchange.Monitoring

open Base

-- Only the byte 'B' selects the bids.
def sameSide (c d : Byte) : Prop := c = ascii 'B' ↔ d = ascii 'B'

instance (c d : Byte) : Decidable (sameSide c d) := inferInstanceAs (Decidable (_ ↔ _))

section
variable {τ : Type}

def volumeAt (orders : Dict Nat (BookOrder τ)) (c : Byte) (p : Nat) : Int :=
  orders.total fun _ o => if sameSide c o.side ∧ p = o.price then o.remaining else 0

def countAt (orders : Dict Nat (BookOrder τ)) (c : Byte) (p : Nat) : Int :=
  orders.total fun _ o => if sameSide c o.side ∧ p = o.price then 1 else 0

def summary (p : Nat) (volume count : Int) : Option BookLevel :=
    if count = 0 then none else some ⟨p, volume, count⟩

def AllPositive (orders : Dict Nat (BookOrder τ)) : Prop :=
    ∀ ref o, orders.lookup ref = some o → 0 < o.remaining

def Summarises (book : Book τ) (orders : Dict Nat (BookOrder τ)) : Prop :=
  ∀ c p, (book.levels c).lookup p = summary p (volumeAt orders c p) (countAt orders c p)

structure Consistent (book : Book τ) : Prop where
  positive : AllPositive book.orders
  levels : Summarises book book.orders

theorem count_nonneg (orders : Dict Nat (BookOrder τ)) (c : Byte) (p : Nat) : 0 ≤ countAt orders c p := by
  have zero := Dict.total_zero (fun _ _ => 0) orders fun _ _ _ => rfl
  rw [← zero]
  refine Dict.total_le _ _ orders fun ref o _ => ?_
  split <;> decide

theorem count_le_volume (orders : Dict Nat (BookOrder τ)) (positive : AllPositive orders)
    (c : Byte) (p : Nat) :
    countAt orders c p ≤ volumeAt orders c p := by
  refine Dict.total_le _ _ orders fun ref o found => ?_
  have live := positive ref o found
  split <;> omega

theorem count_pos (orders : Dict Nat (BookOrder τ)) (c : Byte) (p ref : Nat) (o : BookOrder τ)
    (found : orders.lookup ref = some o)
    (here : sameSide c o.side ∧ p = o.price) : 0 < countAt orders c p := by
  have least := Dict.single_le_total (fun _ other => if sameSide c other.side ∧
    p = other.price then 1 else 0) orders ref o
    found fun _ _ _ => by split <;> decide
  simp only [if_pos here] at least
  exact Int.lt_of_lt_of_le Int.one_pos least

theorem volume_of_count_zero (orders : Dict Nat (BookOrder τ)) (c : Byte) (p : Nat)
    (empty : countAt orders c p = 0) :
    volumeAt orders c p = 0 := by
  refine Dict.total_zero _ orders fun ref o found => ?_
  by_cases here : sameSide c o.side ∧ p = o.price
  · have occupied := count_pos orders c p ref o found here
    omega
  · exact if_neg here

theorem same_side_refl (c : Byte) : sameSide c c := Iff.rfl

theorem levels_set_levels (book : Book τ) (c d : Byte) (levels : Dict Nat BookLevel) :
    (book.setLevels c levels).levels d = if sameSide c d then levels else book.levels d := by
  by_cases bid : c = ascii 'B' <;> by_cases other : d = ascii 'B' <;>
    simp [Book.setLevels, Book.levels, sameSide, bid, other]

theorem orders_set_levels (book : Book τ) (c : Byte) (levels : Dict Nat BookLevel) :
    (book.setLevels c levels).orders = book.orders := by
  unfold Book.setLevels
  split <;> rfl

theorem at_level_congr (c d : Byte) (p : Nat) (same : sameSide c d) (o : BookOrder τ) :
    (sameSide c o.side ∧ p = o.price) ↔ (sameSide d o.side ∧ p = o.price) := by
  unfold sameSide at same ⊢
  rw [same]

theorem volume_same_side (orders : Dict Nat (BookOrder τ)) (c d : Byte) (p : Nat) (same : sameSide c d) :
    volumeAt orders c p = volumeAt orders d p := by
  simp only [volumeAt, at_level_congr c d p same]

theorem count_same_side (orders : Dict Nat (BookOrder τ)) (c d : Byte) (p : Nat) (same : sameSide c d) :
    countAt orders c p = countAt orders d p := by
  simp only [countAt, at_level_congr c d p same]

theorem summarises_set (book : Book τ) (before after : Dict Nat (BookOrder τ)) (c : Byte) (p : Nat)
    (levels : Dict Nat BookLevel)
    (old : Summarises book before)
    (elsewhere : ∀ d q, ¬ (sameSide c d ∧ q = p) → volumeAt after d q = volumeAt before d q ∧
      countAt after d q = countAt before d q)
    (here : levels.lookup p = summary p (volumeAt after c p) (countAt after c p))
    (rest : ∀ q, q ≠ p → levels.lookup q = (book.levels c).lookup q) :
    Summarises (book.setLevels c levels) after := by
  intro d q
  rw [levels_set_levels]
  by_cases same : sameSide c d
  · rw [if_pos same, ← volume_same_side after c d q same, ← count_same_side after c d q same]
    by_cases target : q = p
    · subst target
      exact here
    · obtain ⟨volume, count⟩ := elsewhere c q fun both => target both.2
      rw [rest q target, old c q, volume, count]
  · obtain ⟨volume, count⟩ := elsewhere d q fun both => same both.1
    rw [if_neg same, old d q, volume, count]

theorem level_add_summarises (book : Book τ) (before after : Dict Nat (BookOrder τ)) (c : Byte)
    (p : Nat) (qty : Int)
    (old : Summarises book before)
    (elsewhere : ∀ d q, ¬ (sameSide c d ∧ q = p) → volumeAt after d q = volumeAt before d q ∧
      countAt after d q = countAt before d q)
    (volume : volumeAt after c p = volumeAt before c p + qty)
    (count : countAt after c p = countAt before c p + 1) :
    Summarises (book.levelAdd c p qty) after := by
  refine summarises_set book before after c p _ old elsewhere ?_ fun q different =>
    AList.lookup_insert_ne different
  have nonneg := count_nonneg before c p
  rw [AList.lookup_insert, old c p]
  by_cases empty : countAt before c p = 0
  · have nothing := volume_of_count_zero before c p empty
    simp [summary, empty, nothing, volume, count]
  · have live : countAt before c p + 1 ≠ 0 := by omega
    simp [summary, empty, live, volume, count]

theorem level_sub_summarises (book : Book τ) (before after : Dict Nat (BookOrder τ)) (c : Byte)
    (p : Nat) (qty : Int) (dropOrder : Bool)
    (old : Summarises book before) (positive : AllPositive after) (found : 0 < countAt before c p)
    (elsewhere : ∀ d q, ¬ (sameSide c d ∧ q = p) → volumeAt after d q = volumeAt before d q ∧
      countAt after d q = countAt before d q)
    (volume : volumeAt after c p = volumeAt before c p - qty)
    (count : countAt after c p = if dropOrder then countAt before c p - 1 else countAt before c p) :
    Summarises (book.levelSub c p qty dropOrder) after := by
  have nonneg := count_nonneg after c p
  have least := count_le_volume after positive c p
  have known : (book.levels c).lookup p = some ⟨p, volumeAt before c p, countAt before c p⟩ := by
    rw [old c p, summary, if_neg (by omega)]
  simp only [Book.levelSub, known, ← volume, ← count]
  by_cases gone : volumeAt after c p ≤ 0 ∨ countAt after c p ≤ 0
  · have empty : countAt after c p = 0 := by omega
    rw [if_pos gone]
    refine summarises_set book before after c p _ old elsewhere ?_ fun q different =>
      AList.lookup_erase_ne different
    rw [AList.lookup_erase, summary, if_pos empty]
  · have live : countAt after c p ≠ 0 := by omega
    rw [if_neg gone]
    refine summarises_set book before after c p _ old elsewhere ?_ fun q different =>
      AList.lookup_insert_ne different
    rw [AList.lookup_insert, summary, if_neg live]

theorem orders_level_add (book : Book τ) (c : Byte) (p : Nat) (qty : Int) :
    (book.levelAdd c p qty).orders = book.orders :=
  orders_set_levels book c _

theorem orders_level_sub (book : Book τ) (c : Byte) (p : Nat) (qty : Int) (dropOrder : Bool) :
    (book.levelSub c p qty dropOrder).orders = book.orders := by
  unfold Book.levelSub
  split
  · rfl
  · rename_i lvl _
    by_cases gone : lvl.quantity - qty ≤ 0 ∨ (if dropOrder then lvl.orders - 1 else lvl.orders) ≤ 0
    · simp only [if_pos gone]
      exact orders_set_levels book c _
    · simp only [if_neg gone]
      exact orders_set_levels book c _

theorem weight_elsewhere (o : BookOrder τ) (amount : Int) (d : Byte) (q : Nat)
    (apart : ¬ (sameSide o.side d ∧ q = o.price)) :
    (if sameSide d o.side ∧ q = o.price then amount else 0) = 0 :=
  if_neg fun here => apart ⟨Iff.symm here.1, here.2⟩

theorem remove_order_orders (book : Book τ) (ref : Nat) (o : BookOrder τ)
    (found : book.orders.lookup ref = some o) :
    (book.removeOrder ref).orders = book.orders.erase ref := by
  simp only [Book.removeOrder, found]
  exact orders_level_sub _ _ _ _ _

theorem remove_order_consistent (book : Book τ) (ref : Nat) (consistent : Consistent book) :
    Consistent (book.removeOrder ref) := by
  cases found : book.orders.lookup ref with
  | none =>
      simp only [Book.removeOrder, found]
      exact consistent
  | some o =>
      have orders := remove_order_orders book ref o found
      have positive : AllPositive (book.orders.erase ref) := by
        intro other p there
        by_cases same : other = ref
        · subst same
          simp at there
        · rw [AList.lookup_erase_ne same] at there
          exact consistent.positive other p there
      have own : sameSide o.side o.side ∧ o.price = o.price := ⟨same_side_refl _, rfl⟩
      refine ⟨orders.symm ▸ positive, orders.symm ▸ ?_⟩
      simp only [Book.removeOrder, found]
      refine level_sub_summarises { book with orders := book.orders.erase ref } book.orders
        (book.orders.erase ref) o.side o.price o.remaining true
        consistent.levels positive (count_pos book.orders o.side o.price ref o found own)
          (fun d q apart => ?_) ?_ ?_
      · simp only [volumeAt, countAt, Dict.total_erase _ _ ref o found,
          weight_elsewhere o _ d q apart, sub_zero, and_self]
      · rw [volumeAt, Dict.total_erase _ _ ref o found, if_pos own]
        rfl
      · rw [countAt, Dict.total_erase _ _ ref o found, if_pos own]
        rfl

theorem add_order_consistent (book : Book τ) (ref : Nat) (o : BookOrder τ) (consistent : Consistent book)
    (fresh : book.orders.lookup ref = none) (live : 0 < o.remaining) :
    Consistent (Book.levelAdd { book with orders := book.orders.insert ref o } o.side o.price
      o.remaining) := by
  have orders := orders_level_add { book with orders := book.orders.insert ref o } o.side o.price o.remaining
  have positive : AllPositive (book.orders.insert ref o) := by
    intro other p there
    by_cases same : other = ref
    · subst same
      rw [AList.lookup_insert] at there
      exact Option.some.inj there ▸ live
    · rw [AList.lookup_insert_ne same] at there
      exact consistent.positive other p there
  have own : sameSide o.side o.side ∧ o.price = o.price := ⟨same_side_refl _, rfl⟩
  refine ⟨orders.symm ▸ positive, orders.symm ▸ ?_⟩
  refine level_add_summarises { book with orders := book.orders.insert ref o } book.orders
    (book.orders.insert ref o) o.side o.price o.remaining
    consistent.levels (fun d q apart => ?_) ?_ ?_
  · simp only [volumeAt, countAt, Dict.total_insert _ _ ref o fresh, weight_elsewhere o _ d q apart,
      add_zero, and_self]
  · rw [volumeAt, Dict.total_insert _ _ ref o fresh, if_pos own]
    rfl
  · rw [countAt, Dict.total_insert _ _ ref o fresh, if_pos own]
    rfl

theorem execute_order_consistent (book : Book τ) (ref : Nat) (o : BookOrder τ) (shares : Int)
    (now : τ) (consistent : Consistent book)
    (found : book.orders.lookup ref = some o) (live : 0 < o.remaining - shares) :
    Consistent (Book.levelSub
      { book with
        orders := book.orders.insert ref
          { o with remaining := o.remaining - shares, touched := now } } o.side o.price shares false) := by
  have orders := orders_level_sub
    { book with
      orders := book.orders.insert ref { o with remaining := o.remaining - shares, touched := now } }
    o.side o.price shares false
  have positive : AllPositive
      (book.orders.insert ref { o with remaining := o.remaining - shares, touched := now }) := by
    intro other p there
    by_cases same : other = ref
    · subst same
      rw [AList.lookup_insert] at there
      exact Option.some.inj there ▸ live
    · rw [AList.lookup_insert_ne same] at there
      exact consistent.positive other p there
  have own : sameSide o.side o.side ∧ o.price = o.price := ⟨same_side_refl _, rfl⟩
  refine ⟨orders.symm ▸ positive, orders.symm ▸ ?_⟩
  refine level_sub_summarises
    { book with
      orders := book.orders.insert ref { o with remaining := o.remaining - shares, touched := now } }
    book.orders (book.orders.insert ref
      { o with remaining := o.remaining - shares, touched := now }) o.side o.price shares false
    consistent.levels positive (count_pos book.orders o.side o.price ref o found own)
      (fun d q apart => ?_) ?_ ?_
  · simp only [volumeAt, countAt, Dict.total_replace _ _ ref o _ found,
      weight_elsewhere o _ d q apart, sub_zero, add_zero, and_self]
  · rw [volumeAt, Dict.total_replace _ _ ref o _ found, if_pos own, if_pos own]
    change volumeAt book.orders o.side o.price - o.remaining + (o.remaining - shares) = _
    ring
  · rw [countAt, Dict.total_replace _ _ ref o _ found, if_pos own]
    change countAt book.orders o.side o.price - 1 + 1 = countAt book.orders o.side o.price
    ring

theorem remove_order_lookup (book : Book τ) (ref other : Nat) :
    (book.removeOrder ref).orders.lookup other = if other = ref then none else book.orders.lookup other := by
  cases found : book.orders.lookup ref with
  | none =>
      simp only [Book.removeOrder, found]
      by_cases same : other = ref
      · rw [if_pos same, same, found]
      · rw [if_neg same]
  | some o =>
      rw [remove_order_orders book ref o found]
      by_cases same : other = ref
      · rw [if_pos same, same, AList.lookup_erase]
      · rw [if_neg same, AList.lookup_erase_ne same]

theorem recycled_consistent (book : Book τ) (ref : Nat) (consistent : Consistent book) :
    Consistent (if ref ∈ book.orders then book.removeOrder ref else book) := by
  split
  · exact remove_order_consistent book ref consistent
  · exact consistent

theorem recycled_lookup (book : Book τ) (ref other : Nat) :
    (if ref ∈ book.orders then book.removeOrder ref else book).orders.lookup other =
      if other = ref then none else book.orders.lookup other := by
  by_cases used : ref ∈ book.orders
  · rw [if_pos used, remove_order_lookup]
  · rw [if_neg used]
    by_cases same : other = ref
    · rw [if_pos same, same, AList.lookup_eq_none.mpr used]
    · rw [if_neg same]

def afterMessage (msg : ItchMessage) (now : τ) (old : Option (BookOrder τ)) : Option (BookOrder τ) :=
  if msg.msgType = ascii 'A' then some ⟨msg.side, msg.price, msg.shares, now⟩
  else if msg.msgType = ascii 'E' then
    old.bind fun o =>
      if o.remaining - msg.shares ≤ 0 then none
        else some { o with remaining := o.remaining - msg.shares, touched := now }
  else if msg.msgType = ascii 'X' then none
  else old

theorem apply_lookup (book : Book τ) (msg : ItchMessage) (now : τ) (other : Nat) :
    (book.apply msg now).orders.lookup other =
      if other = msg.internalId then afterMessage msg now (book.orders.lookup other)
        else book.orders.lookup other := by
  unfold Book.apply afterMessage
  by_cases add : msg.msgType = ascii 'A'
  · simp only [if_pos add, orders_level_add]
    by_cases same : other = msg.internalId
    · rw [if_pos same, same, AList.lookup_insert]
    · rw [if_neg same, AList.lookup_insert_ne same, recycled_lookup, if_neg same]
  by_cases execute : msg.msgType = ascii 'E'
  · simp only [if_neg add, if_pos execute]
    cases found : book.orders.lookup msg.internalId with
    | none =>
        by_cases same : other = msg.internalId
        · subst same
          simp [found]
        · simp [same]
    | some o =>
        by_cases spent : o.remaining - msg.shares ≤ 0
        · simp only [if_pos spent, remove_order_lookup]
          by_cases same : other = msg.internalId
          · subst same
            rw [if_pos rfl, if_pos rfl, found, Option.bind_some, if_pos spent]
          · simp [same]
        · simp only [if_neg spent, orders_level_sub]
          by_cases same : other = msg.internalId
          · subst same
            rw [if_pos rfl, AList.lookup_insert, found, Option.bind_some, if_neg spent]
          · rw [if_neg same, AList.lookup_insert_ne same]
  by_cases cancel : msg.msgType = ascii 'X'
  · simp only [if_neg add, if_neg execute, if_pos cancel, recycled_lookup]
  · simp [add, execute, cancel]

theorem apply_consistent (book : Book τ) (msg : ItchMessage) (now : τ) (consistent : Consistent book)
    (live : msg.msgType = ascii 'A' → 0 < msg.shares) : Consistent (book.apply msg now) := by
  unfold Book.apply
  by_cases add : msg.msgType = ascii 'A'
  · have shares := live add
    simp only [if_pos add]
    refine add_order_consistent _ msg.internalId ⟨msg.side, msg.price, msg.shares, now⟩
      (recycled_consistent book msg.internalId consistent) ?_ (by simpa using shares)
    rw [recycled_lookup, if_pos rfl]
  by_cases execute : msg.msgType = ascii 'E'
  · simp only [if_neg add, if_pos execute]
    cases found : book.orders.lookup msg.internalId with
    | none => exact consistent
    | some o =>
        by_cases spent : o.remaining - msg.shares ≤ 0
        · simp only [if_pos spent]
          exact remove_order_consistent book msg.internalId consistent
        · simp only [if_neg spent]
          exact execute_order_consistent book msg.internalId o msg.shares now consistent found (by omega)
  by_cases cancel : msg.msgType = ascii 'X'
  · simp only [if_neg add, if_neg execute, if_pos cancel]
    exact recycled_consistent book msg.internalId consistent
  · simp only [if_neg add, if_neg execute, if_neg cancel]
    exact consistent

theorem initial_book_consistent (inst : Nat) : Consistent (Book.init inst : Book τ) := by
  refine ⟨fun ref o found => ?_, fun c p => ?_⟩
  · simp [Book.init] at found
  · have empty : (Book.init inst : Book τ).levels c = ∅ := by
      unfold Book.levels
      split <;> rfl
    rw [empty, AList.lookup_empty]
    rfl

end

end HftExchange.Monitoring
