import HftExchange.Book.LadderSearch

set_option autoImplicit false

namespace HftExchange

open Base

structure Consistent (ladder : Ladder) : Prop where
  l2 : ∀ word, word < l2Words * 64 → (ladder.summary word = true ↔ word < bitmapWords ∧
    ladder.bitmap word ≠ 0#64)
  bounded : ∀ price, price < bitmapWords * 64 → ladder.has price = true → price < maxPrice

def setPrices (ladder : Ladder) : Set Nat := {price | price < maxPrice ∧ ladder.has price = true}

def clipTo (size : Nat) (array : Nat → Word) : Nat → Word := fun i => if i < size then array i else 0#64

def Ladder.clip (ladder : Ladder) : Ladder :=
  { ladder with bitmap := clipTo bitmapWords ladder.bitmap, l2 := clipTo l2Words ladder.l2 }

theorem fetch_clip (size : Nat) (array : Nat → Word) (index : Nat) :
    fetch size (clipTo size array) index = fetch size array index := by
  by_cases inside : index < size
  · simp [fetch, clipTo, inside]
  · simp [fetch, inside]

theorem clip_update (size : Nat) (array : Nat → Word) (index : Nat) (word : Word) (inside : index < size) :
    clipTo size (Function.update array index word) = Function.update (clipTo size array) index word := by
  funext i
  by_cases same : i = index
  · subst same
    simp [clipTo, inside]
  · simp [clipTo, same]

section
variable (ladder : Ladder)

theorem first_of_word_clip (word : Nat) : firstOfWord ladder.clip word = firstOfWord ladder word := by
  simp only [firstOfWord, Ladder.clip, fetch_clip]

theorem last_of_word_clip (word : Nat) : lastOfWord ladder.clip word = lastOfWord ladder word := by
  simp only [lastOfWord, Ladder.clip, fetch_clip]

theorem following_groups_clip (count i : Nat) :
    followingGroups ladder.clip count i = followingGroups ladder count i := by
  induction count generalizing i with
  | zero => rfl
  | succ count ih =>
      simp only [followingGroups, ih, first_of_word_clip]
      simp only [Ladder.clip, fetch_clip]

theorem preceding_groups_clip (i : Nat) : precedingGroups ladder.clip i = precedingGroups ladder i := by
  induction i with
  | zero => rfl
  | succ i ih =>
      simp only [precedingGroups, ih, last_of_word_clip]
      simp only [Ladder.clip, fetch_clip]

theorem find_next_ask_clip (start : Nat) : findNextAsk ladder.clip start = findNextAsk ladder start := by
  simp only [findNextAsk, first_of_word_clip, following_groups_clip]
  simp only [Ladder.clip, fetch_clip]

theorem find_next_bid_clip (start : Nat) : findNextBid ladder.clip start = findNextBid ladder start := by
  simp only [findNextBid, last_of_word_clip, preceding_groups_clip]
  simp only [Ladder.clip, fetch_clip]

theorem has_clip (price : Nat) :
    ladder.clip.has price = (decide (price < bitmapWords * 64) && ladder.has price) := by
  have place : price / 64 < bitmapWords ↔ price < bitmapWords * 64 := Nat.div_lt_iff_lt_mul (by decide)
  by_cases inside : price < bitmapWords * 64
  · simp [Ladder.has, Ladder.clip, clipTo, place.mpr inside, inside]
  · simp [Ladder.has, Ladder.clip, clipTo, place, inside]

theorem summary_clip (word : Nat) :
    ladder.clip.summary word = (decide (word < l2Words * 64) && ladder.summary word) := by
  have place : word / 64 < l2Words ↔ word < l2Words * 64 := Nat.div_lt_iff_lt_mul (by decide)
  by_cases inside : word < l2Words * 64
  · simp [Ladder.summary, Ladder.clip, clipTo, place.mpr inside, inside]
  · simp [Ladder.summary, Ladder.clip, clipTo, place, inside]

theorem bitmap_clip (word : Nat) :
    ladder.clip.bitmap word ≠ 0#64 ↔ word < bitmapWords ∧ ladder.bitmap word ≠ 0#64 := by
  by_cases inside : word < bitmapWords <;> simp [Ladder.clip, clipTo, inside]

theorem consistent_iff : Consistent ladder ↔ Summarised ladder.clip := by
  have wide : bitmapWords ≤ l2Words * 64 := by decide
  constructor
  · intro consistent
    refine ⟨fun word => ?_, fun price present => ?_⟩
    · rw [summary_clip, bitmap_clip, Bool.and_eq_true, decide_eq_true_eq]
      constructor
      · exact fun ⟨inside, marked⟩ => (consistent.l2 word inside).mp marked
      · intro nonzero
        have inside := Nat.lt_of_lt_of_le nonzero.1 wide
        exact ⟨inside, (consistent.l2 word inside).mpr nonzero⟩
    · rw [has_clip, Bool.and_eq_true, decide_eq_true_eq] at present
      exact consistent.bounded price present.1 present.2
  · intro summarised
    refine ⟨fun word inside => ?_, fun price inside present =>
      summarised.bounded price (by simp [has_clip, inside, present])⟩
    have marked := summarised.l2 word
    rw [summary_clip, bitmap_clip] at marked
    simpa [inside] using marked

theorem clip_set_prices : setPrices ladder.clip = setPrices ladder := by
  have wide : maxPrice ≤ bitmapWords * 64 := by decide
  ext price
  simp only [setPrices, Set.mem_ofPred_eq, has_clip, Bool.and_eq_true, decide_eq_true_eq]
  exact ⟨fun ⟨bound, _, present⟩ => ⟨bound, present⟩, fun ⟨bound, present⟩ =>
    ⟨bound, Nat.lt_of_lt_of_le bound wide, present⟩⟩

theorem insert_price_clip (price : Nat) (bound : price < maxPrice) :
    (insertPrice ladder price).clip = insertPrice ladder.clip price := by
  obtain ⟨_, word, _, group⟩ := price_bounds price bound
  simp only [insertPrice, Ladder.clip, clip_update _ _ _ _ word, clip_update _ _ _ _ group]
  simp only [clipTo, word, group, if_true]

theorem erase_price_clip (price : Nat) (bound : price < maxPrice) :
    (erasePrice ladder price).clip = erasePrice ladder.clip price := by
  obtain ⟨_, word, _, group⟩ := price_bounds price bound
  simp only [erasePrice, Ladder.clip, clip_update _ _ _ _ word]
  rw [apply_ite (clipTo l2Words), clip_update _ _ _ _ group]
  simp only [clipTo, word, group, if_true]

end

theorem next_up_least (ladder : Ladder) (summarised : Summarised ladder) (start : Nat)
    (found : Option Nat) (next : NextUp ladder start found) :
    (∀ price, found = some price ↔ IsLeast {p ∈ setPrices ladder | start ≤ p} price) ∧
      (found = none ↔ {p ∈ setPrices ladder | start ≤ p} = ∅) := by
  cases found with
  | none =>
      have empty : {p ∈ setPrices ladder | start ≤ p} = ∅ := by
        ext price
        simp only [setPrices, Set.mem_ofPred_eq, Set.mem_empty_iff_false, iff_false]
        rintro ⟨⟨_, present⟩, from_⟩
        rw [next price from_] at present
        cases present
      rw [empty]
      exact ⟨fun price => by simp [IsLeast], by simp⟩
  | some first =>
      obtain ⟨from_, present, below⟩ := next
      have least : IsLeast {p ∈ setPrices ladder | start ≤ p} first := by
        refine ⟨⟨⟨summarised.bounded first present, present⟩, from_⟩, fun price inside => ?_⟩
        obtain ⟨⟨_, marked⟩, lower⟩ := inside
        by_contra earlier
        rw [below price lower (Nat.lt_of_not_le earlier)] at marked
        cases marked
      refine ⟨fun price => ⟨fun same => Option.some.inj same ▸ least, fun other =>
        congrArg some (least.unique other)⟩, ?_⟩
      simp only [reduceCtorEq, false_iff]
      exact fun empty => Set.eq_empty_iff_forall_notMem.mp empty first least.1

theorem next_down_greatest (ladder : Ladder) (summarised : Summarised ladder) (start : Nat)
    (found : Option Nat)
    (next : NextDown ladder (start + 1) found) :
    (∀ price, found = some price ↔ IsGreatest {p ∈ setPrices ladder | p ≤ start} price) ∧
      (found = none ↔ {p ∈ setPrices ladder | p ≤ start} = ∅) := by
  cases found with
  | none =>
      have empty : {p ∈ setPrices ladder | p ≤ start} = ∅ := by
        ext price
        simp only [setPrices, Set.mem_ofPred_eq, Set.mem_empty_iff_false, iff_false]
        rintro ⟨⟨_, present⟩, upto⟩
        rw [next price (Nat.lt_succ_of_le upto)] at present
        cases present
      rw [empty]
      exact ⟨fun price => by simp [IsGreatest], by simp⟩
  | some last =>
      obtain ⟨upto, present, above⟩ := next
      have greatest : IsGreatest {p ∈ setPrices ladder | p ≤ start} last := by
        refine ⟨⟨⟨summarised.bounded last present, present⟩, Nat.le_of_lt_succ upto⟩, fun price inside => ?_⟩
        obtain ⟨⟨_, marked⟩, upper⟩ := inside
        by_contra later
        rw [above price (Nat.lt_of_not_le later) (Nat.lt_succ_of_le upper)] at marked
        cases marked
      refine ⟨fun price => ⟨fun same => Option.some.inj same ▸ greatest, fun other =>
        congrArg some (greatest.unique other)⟩, ?_⟩
      simp only [reduceCtorEq, false_iff]
      exact fun empty => Set.eq_empty_iff_forall_notMem.mp empty last greatest.1

theorem bitmap_ladder_exact (ladder : Ladder) (consistent : Consistent ladder) :
    (∀ start, start ≤ maxPrice → ∃ found, findNextAsk ladder start = .ok found ∧
      (∀ price, found = some price ↔ IsLeast {p ∈ setPrices ladder | start ≤ p} price) ∧
      (found = none ↔ {p ∈ setPrices ladder | start ≤ p} = ∅)) ∧
    (∀ start, start < maxPrice → ∃ found, findNextBid ladder start = .ok found ∧
      (∀ price, found = some price ↔ IsGreatest {p ∈ setPrices ladder | p ≤ start} price) ∧
      (found = none ↔ {p ∈ setPrices ladder | p ≤ start} = ∅)) ∧
    ∀ price, price < maxPrice →
      (∃ next, setBit ladder price = .ok next ∧ Consistent next ∧ ∀ other, next.has other = true ↔
        ladder.has other = true ∨ other = price) ∧
      ∃ next, clearBit ladder price = .ok next ∧ Consistent next ∧ ∀ other, next.has other = true ↔
      ladder.has other = true ∧ other ≠ price := by
  have summarised := (consistent_iff ladder).mp consistent
  refine ⟨fun start bound => ?_, fun start bound => ?_, fun price bound => ⟨?_, ?_⟩⟩
  · obtain ⟨found, result, next⟩ := find_next_ask_spec ladder.clip start summarised bound
    rw [find_next_ask_clip] at result
    rw [← clip_set_prices ladder]
    exact ⟨found, result, next_up_least ladder.clip summarised start found next⟩
  · obtain ⟨found, result, next⟩ := find_next_bid_spec ladder.clip start summarised bound
    rw [find_next_bid_clip] at result
    rw [← clip_set_prices ladder]
    exact ⟨found, result, next_down_greatest ladder.clip summarised start found next⟩
  · refine ⟨insertPrice ladder price, set_bit_ok ladder price bound, ?_, fun other => ?_⟩
    · rw [consistent_iff, insert_price_clip ladder price bound]
      exact insert_price_summarised ladder.clip price summarised bound
    · rw [insert_price_has, Bool.or_eq_true, decide_eq_true_eq]
  · refine ⟨erasePrice ladder price, clear_bit_ok ladder price bound, ?_, fun other => ?_⟩
    · rw [consistent_iff, erase_price_clip ladder price bound]
      exact erase_price_summarised ladder.clip price summarised
    · rw [erase_price_has, Bool.and_eq_true, decide_eq_true_eq]

def blankLadder : Ladder :=
    { levels := fun _ => ⟨none, none⟩, bitmap := fun _ => 0#64, l2 := fun _ => 0#64,
      cachedBest := 0 }

-- Prices at the first word of a group and at the last: 4032 is marked by bit
-- 63 of its group, and 8192 is two groups further.
theorem group_boundary_searched :
    ∃ ladder, (do setBit (← setBit blankLadder 4032) 8192) = .ok ladder ∧ Consistent ladder ∧
    findNextAsk ladder 4033 = .ok (some 8192) ∧ findNextBid ladder 8191 = .ok (some 4032) := by
  have blank : Consistent blankLadder :=
      ⟨fun word _ => by simp [Ladder.summary, blankLadder], fun price _ present => by
    simp [Ladder.has, blankLadder] at present⟩
  obtain ⟨_, _, update⟩ := bitmap_ladder_exact blankLadder blank
  obtain ⟨first, set4032, consistent, has⟩ := (update 4032 (by decide)).1
  obtain ⟨_, _, update⟩ := bitmap_ladder_exact first consistent
  obtain ⟨ladder, set8192, consistent', has'⟩ := (update 8192 (by decide)).1
  have marked (price : Nat) : price ∈ setPrices ladder ↔ price = 4032 ∨ price = 8192 := by
    have clear : blankLadder.has price = false := by simp [Ladder.has, blankLadder]
    simp only [setPrices, Set.mem_ofPred_eq, has', has, clear, Bool.false_eq_true, false_or]
    constructor
    · exact fun inside => inside.2
    · rintro (rfl | rfl) <;> decide
  obtain ⟨ask, bid, _⟩ := bitmap_ladder_exact ladder consistent'
  obtain ⟨above, up, least, _⟩ := ask 4033 (by decide)
  obtain ⟨below, down, greatest, _⟩ := bid 8191 (by decide)
  refine ⟨ladder, by rw [set4032]; exact set8192, consistent', ?_, ?_⟩
  · rw [up, (least 8192).mpr]
    refine ⟨⟨(marked 8192).mpr (.inr rfl), by decide⟩, fun price inside => ?_⟩
    have either := (marked price).mp inside.1
    have start : 4033 ≤ price := inside.2
    omega
  · rw [down, (greatest 4032).mpr]
    refine ⟨⟨(marked 4032).mpr (.inl rfl), by decide⟩, fun price inside => ?_⟩
    have either := (marked price).mp inside.1
    have limit : price ≤ 8191 := inside.2
    omega

end HftExchange
