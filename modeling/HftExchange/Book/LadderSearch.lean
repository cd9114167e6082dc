import HftExchange.Book.Ladder

set_option autoImplicit false

namespace HftExchange

open Base

-- The summary has a bit exactly for each nonzero word of the bitmap, and no
-- price outside the ladder is set.
structure Summarised (ladder : Ladder) : Prop where
  l2 : ∀ word, ladder.summary word = true ↔ ladder.bitmap word ≠ 0#64
  bounded : ∀ price, ladder.has price = true → price < maxPrice

def NextUp (ladder : Ladder) (start : Nat) : Option Nat → Prop
  | none => ∀ price, start ≤ price → ladder.has price = false
  | some found => start ≤ found ∧ ladder.has found = true ∧
      ∀ price, start ≤ price → price < found → ladder.has price = false

def NextDown (ladder : Ladder) (limit : Nat) : Option Nat → Prop
  | none => ∀ price, price < limit → ladder.has price = false
  | some found => found < limit ∧ ladder.has found = true ∧
      ∀ price, found < price → price < limit → ladder.has price = false

theorem has_word (ladder : Ladder) (word bit : Nat) (bound : bit < 64) :
    ladder.has (word * 64 + bit) = (ladder.bitmap word).getLsbD bit := by
  have quotient : (word * 64 + bit) / 64 = word := by omega
  have remainder : (word * 64 + bit) % 64 = bit := by omega
  rw [Ladder.has, quotient, remainder]

theorem summary_word (ladder : Ladder) (group bit : Nat) (bound : bit < 64) :
    ladder.summary (group * 64 + bit) = (ladder.l2 group).getLsbD bit := by
  have quotient : (group * 64 + bit) / 64 = group := by omega
  have remainder : (group * 64 + bit) % 64 = bit := by omega
  rw [Ladder.summary, quotient, remainder]

theorem zero_word_clear (ladder : Ladder) (price : Nat) (zero : ladder.bitmap (price / 64) = 0#64) :
    ladder.has price = false := by
  rw [Ladder.has, zero]
  simp

theorem nonzero_word_bound (ladder : Ladder) (summarised : Summarised ladder) (word : Nat)
    (nonzero : ladder.bitmap word ≠ 0#64) : word < bitmapWords := by
  obtain ⟨bit, bound, present⟩ := (word_ne_zero_iff _).mp nonzero
  have inside := summarised.bounded (word * 64 + bit) (by rw [has_word ladder word bit bound, present])
  simp only [bitmapWords, maxPrice] at inside ⊢
  omega

theorem unsummarised_clear (ladder : Ladder) (summarised : Summarised ladder) (price : Nat)
    (clear : ladder.summary (price / 64) = false) : ladder.has price = false := by
  apply zero_word_clear
  by_contra nonzero
  rw [(summarised.l2 _).mpr nonzero] at clear
  cases clear

def insertPrice (ladder : Ladder) (price : Nat) : Ladder :=
  { ladder with
    bitmap := Function.update ladder.bitmap (price / 64)
      (ladder.bitmap (price / 64) ||| 1#64 <<< (price % 64))
    l2 := Function.update ladder.l2 (price / 64 / 64)
      (ladder.l2 (price / 64 / 64) ||| 1#64 <<< (price / 64 % 64)) }

def erasePrice (ladder : Ladder) (price : Nat) : Ladder :=
  let word := ladder.bitmap (price / 64) &&& ~~~(1#64 <<< (price % 64))
  { ladder with
    bitmap := Function.update ladder.bitmap (price / 64) word
    l2 := if word = 0#64 then
        Function.update ladder.l2 (price / 64 / 64)
          (ladder.l2 (price / 64 / 64) &&& ~~~(1#64 <<< (price / 64 % 64)))
      else ladder.l2 }

theorem price_bounds (price : Nat) (bound : price < maxPrice) :
    price % 64 < 64 ∧ price / 64 < bitmapWords ∧ price / 64 % 64 < 64 ∧ price / 64 / 64 < l2Words := by
  simp only [bitmapWords, l2Words, maxPrice] at bound ⊢
  omega

theorem set_bit_ok (ladder : Ladder) (price : Nat) (bound : price < maxPrice) :
    setBit ladder price = .ok (insertPrice ladder price) := by
  obtain ⟨bit, word, l2Bit, group⟩ := price_bounds price bound
  simp [setBit, insertPrice, bit, word, l2Bit, group]

theorem clear_bit_ok (ladder : Ladder) (price : Nat) (bound : price < maxPrice) :
    clearBit ladder price = .ok (erasePrice ladder price) := by
  obtain ⟨bit, word, l2Bit, group⟩ := price_bounds price bound
  simp only [clearBit, erasePrice, bit, word, l2Bit, group, shift_left_ok, fetch_ok,
    store_ok, checked_bind_ok,
    Function.update_self]
  split <;> rfl

theorem insert_price_has (ladder : Ladder) (price other : Nat) :
    (insertPrice ladder price).has other = (ladder.has other || decide (other = price)) := by
  by_cases sameWord : other / 64 = price / 64
  · have sameBit : other % 64 = price % 64 ↔ other = price := by omega
    simp only [Ladder.has, insertPrice, sameWord, Function.update_self,
      insert_bit _ _ _ (Nat.mod_lt price (by decide : 64 > 0)), sameBit]
  · have different : other ≠ price := fun same => sameWord (same ▸ rfl)
    simp [Ladder.has, insertPrice, sameWord, different]

theorem erase_price_has (ladder : Ladder) (price other : Nat) :
    (erasePrice ladder price).has other = (ladder.has other && decide (other ≠ price)) := by
  by_cases sameWord : other / 64 = price / 64
  · have sameBit : other % 64 ≠ price % 64 ↔ other ≠ price := by omega
    simp only [Ladder.has, erasePrice, sameWord, Function.update_self,
      erase_bit _ _ _ (Nat.mod_lt price (by decide : 64 > 0)), sameBit]
  · have different : other ≠ price := fun same => sameWord (same ▸ rfl)
    simp [Ladder.has, erasePrice, sameWord, different]

theorem insert_price_summarised (ladder : Ladder) (price : Nat) (summarised : Summarised ladder)
    (bound : price < maxPrice) :
    Summarised (insertPrice ladder price) := by
  have bitBound : price % 64 < 64 := Nat.mod_lt _ (by decide)
  have l2Bound : price / 64 % 64 < 64 := Nat.mod_lt _ (by decide)
  refine ⟨fun word => ?_, fun other present => ?_⟩
  · have old := summarised.l2 word
    by_cases sameWord : word = price / 64
    · subst sameWord
      have nonzero : ladder.bitmap (price / 64) ||| 1#64 <<< (price % 64) ≠ 0#64 := by
        rw [word_ne_zero_iff]
        exact ⟨price % 64, bitBound, by rw [insert_bit _ _ _ bitBound]; simp⟩
      simp only [Ladder.summary, insertPrice, Function.update_self, insert_bit _ _ _ l2Bound,
        decide_true, Bool.or_true,
        true_iff]
      exact nonzero
    · by_cases sameGroup : word / 64 = price / 64 / 64
      · have differentBit : word % 64 ≠ price / 64 % 64 := by omega
        simp only [Ladder.summary, sameGroup] at old
        simp only [Ladder.summary, insertPrice, sameGroup, Function.update_self,
          insert_bit _ _ _ l2Bound, differentBit,
          decide_false, Bool.or_false, Function.update_of_ne sameWord]
        exact old
      · simpa [Ladder.summary, insertPrice, sameGroup, sameWord] using old
  · rw [insert_price_has, Bool.or_eq_true, decide_eq_true_eq] at present
    rcases present with old | rfl
    · exact summarised.bounded other old
    · exact bound

theorem erase_price_summarised (ladder : Ladder) (price : Nat) (summarised : Summarised ladder) :
    Summarised (erasePrice ladder price) := by
  have l2Bound : price / 64 % 64 < 64 := Nat.mod_lt _ (by decide)
  refine ⟨fun word => ?_, fun other present => ?_⟩
  · have old := summarised.l2 word
    by_cases sameWord : word = price / 64
    · subst sameWord
      by_cases zero : ladder.bitmap (price / 64) &&& ~~~(1#64 <<< (price % 64)) = 0#64
      · simp only [Ladder.summary, erasePrice, if_pos zero, Function.update_self, erase_bit _ _ _ l2Bound]
        simp [zero]
      · have nonzero : ladder.bitmap (price / 64) ≠ 0#64 := by
          intro empty
          rw [empty] at zero
          simp at zero
        simp only [Ladder.summary, erasePrice, if_neg zero, Function.update_self]
        simp only [Ladder.summary] at old
        simp [old.mpr nonzero, zero]
    · by_cases sameGroup : word / 64 = price / 64 / 64
      · have differentBit : word % 64 ≠ price / 64 % 64 := by omega
        simp only [Ladder.summary, sameGroup] at old
        simp only [Ladder.summary, erasePrice, sameGroup, Function.update_of_ne sameWord]
        split
        · simp only [Function.update_self, erase_bit _ _ _ l2Bound, differentBit, ne_eq,
            not_false_eq_true, decide_true,
            Bool.and_true]
          exact old
        · exact old
      · simp only [Ladder.summary] at old
        simp only [Ladder.summary, erasePrice, Function.update_of_ne sameWord]
        split
        · rw [Function.update_of_ne sameGroup]
          exact old
        · exact old
  · rw [erase_price_has, Bool.and_eq_true] at present
    exact summarised.bounded other present.1

theorem first_of_word (ladder : Ladder) (word : Nat) (summarised : Summarised ladder)
    (nonzero : ladder.bitmap word ≠ 0#64) :
    ∃ found, firstOfWord ladder word = .ok (some found) ∧ NextUp ladder (word * 64) (some found) := by
  obtain ⟨bit, bound, low⟩ := lowest_exists _ nonzero
  obtain ⟨present, below⟩ := (lowest_some _ _).mp low
  have inside := nonzero_word_bound ladder summarised word nonzero
  refine ⟨word * 64 + bit, by simp [firstOfWord, inside, trailing_zeros_ok _ _ low], by omega, ?_, ?_⟩
  · rw [has_word ladder word bit bound, present]
  · intro price lower upper
    have position : price = word * 64 + (price - word * 64) := by omega
    rw [position, has_word ladder word _ (by omega)]
    exact below _ (by omega)

theorem last_of_word (ladder : Ladder) (word : Nat) (summarised : Summarised ladder)
    (nonzero : ladder.bitmap word ≠ 0#64) :
    ∃ found, lastOfWord ladder word = .ok (some found) ∧ NextDown ladder (word * 64 + 64) (some found) := by
  obtain ⟨bit, bound, high⟩ := highest_exists _ nonzero
  obtain ⟨present, above⟩ := (highest_some _ _).mp high
  have inside := nonzero_word_bound ladder summarised word nonzero
  have index : 63 - (63 - bit) = bit := by omega
  refine ⟨word * 64 + bit, by simp [lastOfWord, inside, leading_zeros_ok _ _ high, index], by omega, ?_, ?_⟩
  · rw [has_word ladder word bit bound, present]
  · intro price lower upper
    have position : price = word * 64 + (price - word * 64) := by omega
    rw [position, has_word ladder word _ (by omega)]
    exact above _ (by omega)

theorem next_up_extend (ladder : Ladder) (start later : Nat) (found : Option Nat) (order : start ≤ later)
    (empty : ∀ price, start ≤ price → price < later → ladder.has price = false)
    (next : NextUp ladder later found) :
    NextUp ladder start found := by
  cases found with
  | none =>
      intro price lower
      by_cases early : price < later
      · exact empty price lower early
      · exact next price (by omega)
  | some found =>
      refine ⟨Nat.le_trans order next.1, next.2.1, fun price lower upper => ?_⟩
      by_cases early : price < later
      · exact empty price lower early
      · exact next.2.2 price (by omega) upper

theorem next_down_extend (ladder : Ladder) (limit earlier : Nat) (found : Option Nat)
    (order : earlier ≤ limit)
    (empty : ∀ price, earlier ≤ price → price < limit → ladder.has price = false)
    (next : NextDown ladder earlier found) :
    NextDown ladder limit found := by
  cases found with
  | none =>
      intro price upper
      by_cases early : price < earlier
      · exact next price early
      · exact empty price (by omega) upper
  | some found =>
      refine ⟨Nat.lt_of_lt_of_le next.1 order, next.2.1, fun price lower upper => ?_⟩
      by_cases early : price < earlier
      · exact next.2.2 price lower early
      · exact empty price (by omega) upper

theorem following_groups_spec (ladder : Ladder) (summarised : Summarised ladder) (count i : Nat)
    (span : i + count = l2Words) :
    ∃ found, followingGroups ladder count i = .ok found ∧ NextUp ladder (i * 4096) found := by
  induction count generalizing i with
  | zero =>
      refine ⟨none, rfl, fun price lower => ?_⟩
      by_contra present
      have inside := summarised.bounded price (by simpa using present)
      simp only [l2Words, maxPrice] at span inside
      omega
  | succ count ih =>
      have inside : i < l2Words := by omega
      by_cases zero : ladder.l2 i = 0#64
      · obtain ⟨found, result, next⟩ := ih (i + 1) (by omega)
        refine ⟨found, by simpa [followingGroups, inside, zero] using result, ?_⟩
        apply next_up_extend ladder _ _ _ (by omega) _ next
        intro price lower upper
        apply unsummarised_clear ladder summarised
        have group : price / 64 / 64 = i := by omega
        rw [Ladder.summary, group, zero]
        simp
      · obtain ⟨bit, bound, low⟩ := lowest_exists _ zero
        obtain ⟨present, below⟩ := (lowest_some _ _).mp low
        have nonzero : ladder.bitmap (i * 64 + bit) ≠ 0#64 := by
          rw [← summarised.l2, summary_word ladder i bit bound, present]
        obtain ⟨found, result, next⟩ := first_of_word ladder _ summarised nonzero
        refine ⟨some found,
          by simpa [followingGroups, inside, zero, trailing_zeros_ok _ _ low] using result, ?_⟩
        apply next_up_extend ladder _ _ _ (by omega) _ next
        intro price lower upper
        apply unsummarised_clear ladder summarised
        have position : price / 64 = i * 64 + (price / 64 - i * 64) := by omega
        rw [position, summary_word ladder i _ (by omega)]
        exact below _ (by omega)

theorem preceding_groups_spec (ladder : Ladder) (summarised : Summarised ladder) (i : Nat)
    (bound : i ≤ l2Words) :
    ∃ found, precedingGroups ladder i = .ok found ∧ NextDown ladder (i * 4096) found := by
  induction i with
  | zero => exact ⟨none, rfl, fun price upper => by omega⟩
  | succ i ih =>
      have inside : i < l2Words := by omega
      by_cases zero : ladder.l2 i = 0#64
      · obtain ⟨found, result, next⟩ := ih (by omega)
        refine ⟨found, by simpa [precedingGroups, inside, zero] using result, ?_⟩
        apply next_down_extend ladder _ _ _ (by omega) _ next
        intro price lower upper
        apply unsummarised_clear ladder summarised
        have group : price / 64 / 64 = i := by omega
        rw [Ladder.summary, group, zero]
        simp
      · obtain ⟨bit, bitBound, high⟩ := highest_exists _ zero
        obtain ⟨present, above⟩ := (highest_some _ _).mp high
        have index : 63 - (63 - bit) = bit := by omega
        have nonzero : ladder.bitmap (i * 64 + bit) ≠ 0#64 := by
          rw [← summarised.l2, summary_word ladder i bit bitBound, present]
        obtain ⟨found, result, next⟩ := last_of_word ladder _ summarised nonzero
        refine ⟨some found,
          by simpa [precedingGroups, inside, zero, leading_zeros_ok _ _ high, index] using result, ?_⟩
        apply next_down_extend ladder _ _ _ (by omega) _ next
        intro price lower upper
        apply unsummarised_clear ladder summarised
        have position : price / 64 = i * 64 + (price / 64 - i * 64) := by omega
        rw [position, summary_word ladder i _ (by omega)]
        exact above _ (by omega)

theorem l2_mask_above (bit : Nat) (bound : bit < 64) :
    ∃ mask, l2MaskAbove bit = .ok mask ∧ ∀ i, i < 64 → mask.getLsbD i = decide (bit < i) := by
  by_cases boundary : bit = 63
  · refine ⟨0#64, by simp [l2MaskAbove, boundary], fun i less => ?_⟩
    have above : ¬ bit < i := by omega
    simp [above]
  · refine ⟨BitVec.allOnes 64 <<< (bit + 1), ?_, fun i less => ?_⟩
    · rw [l2MaskAbove, if_neg boundary, shift_left_ok _ _ (by omega)]
    · rw [mask_from]
      simp [less]

theorem l2_mask_below (bit : Nat) (bound : bit < 64) :
    ∃ mask, l2MaskBelow bit = .ok mask ∧ ∀ i, mask.getLsbD i = decide (i < bit) := by
  by_cases boundary : bit = 0
  · exact ⟨0#64, by simp [l2MaskBelow, boundary], fun i => by simp [boundary]⟩
  · refine ⟨BitVec.allOnes 64 >>> (64 - bit), ?_, fun i => ?_⟩
    · rw [l2MaskBelow, if_neg boundary, shift_right_ok _ _ (by omega)]
    · rw [mask_upto, decide_eq_decide]
      omega

-- The three stages of a search narrow the stretch known to be empty: the rest
-- of the starting word, the other words of its group, the other groups.
theorem find_next_ask_spec (ladder : Ladder) (start : Nat) (summarised : Summarised ladder)
    (bound : start ≤ maxPrice) :
    ∃ found, findNextAsk ladder start = .ok found ∧ NextUp ladder start found := by
  have wordBound : start / 64 < bitmapWords := by simp only [bitmapWords, maxPrice] at bound ⊢; omega
  have groupBound : start / 64 / 64 < l2Words := by simp only [l2Words, maxPrice] at bound ⊢; omega
  have bitBound : start % 64 < 64 := Nat.mod_lt _ (by decide)
  by_cases rest : ladder.bitmap (start / 64) &&& BitVec.allOnes 64 <<< (start % 64) = 0#64
  · have wordEmpty : ∀ price, start ≤ price → price < (start / 64 + 1) * 64 → ladder.has price = false := by
      intro price lower upper
      have word : price / 64 = start / 64 := by omega
      have clear := (word_zero_iff _).mp rest (price % 64)
      rw [BitVec.getLsbD_and, mask_from] at clear
      have selected : start % 64 ≤ price % 64 ∧ price % 64 < 64 := by omega
      simpa [Ladder.has, word, selected] using clear
    obtain ⟨mask, maskOk, maskBit⟩ := l2_mask_above (start / 64 % 64) (Nat.mod_lt _ (by decide))
    by_cases group : ladder.l2 (start / 64 / 64) &&& mask = 0#64
    · obtain ⟨found, result, next⟩ := following_groups_spec ladder summarised
        (l2Words - (start / 64 / 64 + 1)) (start / 64 / 64 + 1) (by omega)
      refine ⟨found, ?_, ?_⟩
      · simp only [findNextAsk, wordBound, groupBound, bitBound, fetch_ok, shift_left_ok,
          checked_bind_ok, ne_eq, rest,
          not_true_eq_false, ↓reduceIte, maskOk, group]
        exact result
      · apply next_up_extend ladder _ _ _ (by omega) _ next
        intro price lower upper
        by_cases early : price < (start / 64 + 1) * 64
        · exact wordEmpty price lower early
        · apply unsummarised_clear ladder summarised
          have same : price / 64 / 64 = start / 64 / 64 := by omega
          have clear := (word_zero_iff _).mp group (price / 64 % 64)
          have selected : start / 64 % 64 < price / 64 % 64 := by omega
          rw [BitVec.getLsbD_and, maskBit _ (Nat.mod_lt _ (by decide))] at clear
          simpa [Ladder.summary, same, selected] using clear
    · obtain ⟨bit, inside, low⟩ := lowest_exists _ group
      obtain ⟨present, below⟩ := (lowest_some _ _).mp low
      rw [BitVec.getLsbD_and, maskBit bit inside, Bool.and_eq_true, decide_eq_true_eq] at present
      have nonzero : ladder.bitmap (start / 64 / 64 * 64 + bit) ≠ 0#64 := by
        rw [← summarised.l2, summary_word ladder _ bit inside, present.1]
      obtain ⟨found, result, next⟩ := first_of_word ladder _ summarised nonzero
      refine ⟨some found, ?_, ?_⟩
      · simp only [findNextAsk, wordBound, groupBound, bitBound, fetch_ok, shift_left_ok,
          checked_bind_ok, ne_eq, rest,
          not_true_eq_false, ↓reduceIte, maskOk, group, trailing_zeros_ok _ _ low]
        exact result
      · apply next_up_extend ladder _ _ _ (by omega) _ next
        intro price lower upper
        by_cases early : price < (start / 64 + 1) * 64
        · exact wordEmpty price lower early
        · apply unsummarised_clear ladder summarised
          have same : price / 64 / 64 = start / 64 / 64 := by omega
          have clear := below (price / 64 % 64) (by omega)
          have selected : start / 64 % 64 < price / 64 % 64 := by omega
          rw [BitVec.getLsbD_and, maskBit _ (Nat.mod_lt _ (by decide))] at clear
          simpa [Ladder.summary, same, selected] using clear
  · obtain ⟨bit, inside, low⟩ := lowest_exists _ rest
    obtain ⟨present, below⟩ := (lowest_some _ _).mp low
    rw [BitVec.getLsbD_and, mask_from, Bool.and_eq_true, Bool.and_eq_true, decide_eq_true_eq,
      decide_eq_true_eq] at present
    refine ⟨some (start / 64 * 64 + bit), ?_, by omega, ?_, ?_⟩
    · simp only [findNextAsk, wordBound, bitBound, fetch_ok, shift_left_ok, checked_bind_ok,
        checked_pure, ne_eq, rest,
        not_false_eq_true, ↓reduceIte, trailing_zeros_ok _ _ low]
    · rw [has_word ladder _ bit inside, present.1]
    · intro price lower upper
      have word : price / 64 = start / 64 := by omega
      have clear := below (price % 64) (by omega)
      rw [BitVec.getLsbD_and, mask_from] at clear
      have selected : start % 64 ≤ price % 64 ∧ price % 64 < 64 := by omega
      simpa [Ladder.has, word, selected] using clear

theorem find_next_bid_spec (ladder : Ladder) (start : Nat) (summarised : Summarised ladder)
    (bound : start < maxPrice) :
    ∃ found, findNextBid ladder start = .ok found ∧ NextDown ladder (start + 1) found := by
  have wordBound : start / 64 < bitmapWords := by simp only [bitmapWords, maxPrice] at bound ⊢; omega
  have groupBound : start / 64 / 64 < l2Words := by simp only [l2Words, maxPrice] at bound ⊢; omega
  have bitBound : 63 - start % 64 < 64 := by omega
  by_cases rest : ladder.bitmap (start / 64) &&& BitVec.allOnes 64 >>> (63 - start % 64) = 0#64
  · have wordEmpty : ∀ price, start / 64 * 64 ≤ price → price < start + 1 → ladder.has price = false := by
      intro price lower upper
      have word : price / 64 = start / 64 := by omega
      have clear := (word_zero_iff _).mp rest (price % 64)
      rw [BitVec.getLsbD_and, mask_upto] at clear
      have selected : 63 - start % 64 + price % 64 < 64 := by omega
      simpa [Ladder.has, word, selected] using clear
    obtain ⟨mask, maskOk, maskBit⟩ := l2_mask_below (start / 64 % 64) (Nat.mod_lt _ (by decide))
    by_cases group : ladder.l2 (start / 64 / 64) &&& mask = 0#64
    · obtain ⟨found, result, next⟩ := preceding_groups_spec ladder summarised (start / 64 / 64) (by omega)
      refine ⟨found, ?_, ?_⟩
      · simp only [findNextBid, wordBound, groupBound, bitBound, fetch_ok, shift_right_ok,
          checked_bind_ok, ne_eq, rest,
          not_true_eq_false, ↓reduceIte, maskOk, group]
        exact result
      · apply next_down_extend ladder _ _ _ (by omega) _ next
        intro price lower upper
        by_cases late : start / 64 * 64 ≤ price
        · exact wordEmpty price late upper
        · apply unsummarised_clear ladder summarised
          have same : price / 64 / 64 = start / 64 / 64 := by omega
          have clear := (word_zero_iff _).mp group (price / 64 % 64)
          have selected : price / 64 % 64 < start / 64 % 64 := by omega
          rw [BitVec.getLsbD_and, maskBit] at clear
          simpa [Ladder.summary, same, selected] using clear
    · obtain ⟨bit, inside, high⟩ := highest_exists _ group
      obtain ⟨present, above⟩ := (highest_some _ _).mp high
      have index : 63 - (63 - bit) = bit := by omega
      rw [BitVec.getLsbD_and, maskBit bit, Bool.and_eq_true, decide_eq_true_eq] at present
      have nonzero : ladder.bitmap (start / 64 / 64 * 64 + bit) ≠ 0#64 := by
        rw [← summarised.l2, summary_word ladder _ bit inside, present.1]
      obtain ⟨found, result, next⟩ := last_of_word ladder _ summarised nonzero
      refine ⟨some found, ?_, ?_⟩
      · simp only [findNextBid, wordBound, groupBound, bitBound, fetch_ok, shift_right_ok,
          checked_bind_ok, ne_eq, rest,
          not_true_eq_false, ↓reduceIte, maskOk, group, leading_zeros_ok _ _ high, index]
        exact result
      · apply next_down_extend ladder _ _ _ (by omega) _ next
        intro price lower upper
        by_cases late : start / 64 * 64 ≤ price
        · exact wordEmpty price late upper
        · apply unsummarised_clear ladder summarised
          have same : price / 64 / 64 = start / 64 / 64 := by omega
          have clear := above (price / 64 % 64) (by omega)
          have selected : price / 64 % 64 < start / 64 % 64 := by omega
          rw [BitVec.getLsbD_and, maskBit] at clear
          simpa [Ladder.summary, same, selected] using clear
  · obtain ⟨bit, inside, high⟩ := highest_exists _ rest
    obtain ⟨present, above⟩ := (highest_some _ _).mp high
    have index : 63 - (63 - bit) = bit := by omega
    rw [BitVec.getLsbD_and, mask_upto, Bool.and_eq_true, decide_eq_true_eq] at present
    refine ⟨some (start / 64 * 64 + bit), ?_, by omega, ?_, ?_⟩
    · simp only [findNextBid, wordBound, bitBound, fetch_ok, shift_right_ok, checked_bind_ok,
        checked_pure, ne_eq, rest,
        not_false_eq_true, ↓reduceIte, leading_zeros_ok _ _ high, index]
    · rw [has_word ladder _ bit inside, present.1]
    · intro price lower upper
      have word : price / 64 = start / 64 := by omega
      have clear := above (price % 64) (by omega)
      rw [BitVec.getLsbD_and, mask_upto] at clear
      have selected : 63 - start % 64 + price % 64 < 64 := by omega
      simpa [Ladder.has, word, selected] using clear

end HftExchange
