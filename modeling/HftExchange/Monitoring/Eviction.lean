import HftExchange.Monitoring.Repair

set_option autoImplicit false

namespace HftExchange.Monitoring

open Base

section
variable {τ : Type}

theorem arrivals_cons (m : ItchMessage) (rest : List ItchMessage) (first : Option τ)
    (received : List (Option τ)) :
    arrivalsOf (m :: rest) (first :: received) = (m, first) :: arrivalsOf rest received := by
  simp [arrivalsOf, List.mapIdx_cons]

theorem arrivals_messages (messages : List ItchMessage) (received : List (Option τ)) :
    (arrivalsOf messages received).map Prod.fst = messages := by
  apply List.ext_getElem
  · simp [arrivalsOf]
  · simp [arrivalsOf]

theorem arrivals_times (messages : List ItchMessage) (received : List (Option τ)) :
    ((arrivalsOf messages received).filterMap Prod.snd).Sublist received.reduceOption := by
  induction messages generalizing received with
  | nil => simp [arrivalsOf]
  | cons m rest ih =>
      cases received with
      | nil =>
          have lost : (arrivalsOf (m :: rest) ([] : List (Option τ))).filterMap Prod.snd = [] := by
            rw [List.filterMap_eq_nil_iff]
            intro arrival member
            obtain ⟨i, _, rfl⟩ := List.mem_mapIdx.mp member
            rfl
          rw [lost]
          exact List.nil_sublist _
      | cons first received =>
          rw [arrivals_cons]
          cases first with
          | none => simpa [List.reduceOption_cons_of_none] using ih received
          | some now => simpa [List.reduceOption_cons_of_some] using ih received

theorem deliver_all_touched (book : Book τ) (arrivals : List (Arrival τ)) (ref : Nat) (e : BookOrder τ)
    (found : (book.deliverAll arrivals).orders.lookup ref = some e) :
    (∃ old, book.orders.lookup ref = some old ∧ old.touched = e.touched) ∨
    e.touched ∈ arrivals.filterMap Prod.snd := by
  induction arrivals generalizing book with
  | nil => exact .inl ⟨e, found, rfl⟩
  | cons m rest ih =>
      rcases ih (book.deliver m) found with ⟨old, there, same⟩ | later
      · rcases deliver_touched book m ref old there with ⟨older, before, same'⟩ | given
        · exact .inl ⟨older, before, same'.trans same⟩
        · exact .inr (List.mem_filterMap.mpr ⟨m, List.mem_cons_self, by rw [given, same]⟩)
      · obtain ⟨arrival, member, given⟩ := List.mem_filterMap.mp later
        exact .inr (List.mem_filterMap.mpr ⟨arrival, List.mem_cons_of_mem _ member, given⟩)

theorem oldest_spec [LinearOrder τ] (candidates : List (τ × Nat)) (nonempty : candidates ≠ []) :
    ∃ best, Book.oldest candidates = some best ∧ best ∈ candidates ∧ ∀ other ∈ candidates,
      best.1 ≤ other.1 := by
  induction candidates with
  | nil => exact absurd rfl nonempty
  | cons first rest ih =>
      by_cases last : rest = []
      · subst last
        exact ⟨first, rfl, by simp, by simp⟩
      · obtain ⟨best, found, member, least⟩ := ih last
        simp only [Book.oldest, found]
        split
        · rename_i earlier
          refine ⟨best, rfl, List.mem_cons_of_mem _ member, fun other inside => ?_⟩
          rcases List.mem_cons.mp inside with rfl | later
          · rcases earlier with strictly | ⟨notLater, _⟩
            · exact le_of_lt strictly
            · exact le_of_not_gt notLater
          · exact least other later
        · rename_i earlier
          refine ⟨first, rfl, by simp, fun other inside => ?_⟩
          rcases List.mem_cons.mp inside with rfl | later
          · exact le_refl _
          · exact le_trans (le_of_not_gt fun strictly => earlier (.inl strictly)) (least other later)

theorem level_has_order (book : Book τ) (consistent : Consistent book) (c : Byte) (p : Nat)
    (listed : p ∈ (book.levels c).keys) :
    ∃ ref e, book.orders.lookup ref = some e ∧ sameSide c e.side ∧ e.price = p := by
  by_contra none_
  have empty : countAt book.orders c p = 0 := Dict.total_zero _ book.orders fun ref e found =>
    if_neg fun here => none_ ⟨ref, e, found, here.1, here.2.symm⟩
  have present : ((book.levels c).lookup p).isSome = true := AList.lookup_isSome.mpr listed
  rw [consistent.levels, summary, if_pos empty] at present
  cases present

theorem mem_crossing (book : Book τ) (bid ask ref : Nat) (e : BookOrder τ)
    (found : book.orders.lookup ref = some e)
    (crosses_ : e.side = ascii 'B' ∧ ask ≤ e.price ∨ e.side = ascii 'S' ∧ e.price ≤ bid) :
    (e.touched, ref) ∈ book.crossing bid ask := by
  refine List.mem_map.mpr ⟨⟨ref, e⟩, List.mem_filter.mpr ⟨(Dict.mem_entries_iff _ _ _).mpr found, ?_⟩, rfl⟩
  simpa using crosses_

theorem crossing_spec (book : Book τ) (bid ask : Nat) (entry : τ × Nat)
    (member : entry ∈ book.crossing bid ask) :
    ∃ e, book.orders.lookup entry.2 = some e ∧ e.touched = entry.1 ∧
      (e.side = ascii 'B' ∧ ask ≤ e.price ∨ e.side = ascii 'S' ∧ e.price ≤ bid) := by
  obtain ⟨⟨ref, e⟩, inside, rfl⟩ := List.mem_map.mp member
  obtain ⟨there, crosses_⟩ := List.mem_filter.mp inside
  exact ⟨e, (Dict.mem_entries_iff _ _ _).mp there, rfl, by simpa using crosses_⟩

theorem best_bid_order (book : Book τ) (consistent : Consistent book) (bid : Nat)
    (best : book.bestBid = some bid) :
    ∃ ref e, book.orders.lookup ref = some e ∧ e.side = ascii 'B' ∧ e.price = bid := by
  obtain ⟨ref, e, found, side, price⟩ := level_has_order book consistent (ascii 'B') bid
    (List.max?_eq_some_iff.mp best).1
  exact ⟨ref, e, found, side.mp rfl, price⟩

theorem best_ask_order [LT τ] (resting : Resting) (book : Book τ) (current : Nat → Bool)
    (sound : Sound resting book current) (ask : Nat)
    (best : book.bestAsk = some ask) :
    ∃ ref e, book.orders.lookup ref = some e ∧ e.side = ascii 'S' ∧ e.price = ask := by
  obtain ⟨ref, e, found, side, price⟩ := level_has_order book sound.consistent (ascii 'S') ask
    (List.min?_eq_some_iff.mp best).1
  have sells : e.side = ascii 'S' := by
    obtain ⟨own, same⟩ := sound.sides ref e found
    cases own with
    | buy => exact absurd (side.mpr same) (by decide)
    | sell => exact same
  exact ⟨ref, e, found, sells, price⟩

-- An entry of the other side that crosses a live order is older than it.
theorem live_not_oldest [LinearOrder τ] (resting : Resting) (book : Book τ) (current : Nat → Bool)
    (sound : Sound resting book current)
    (uncrossed : Uncrossed resting) (ref other : Nat) (e opposite : BookOrder τ)
    (live : LiveRef resting current ref)
    (found : book.orders.lookup ref = some e) (there : book.orders.lookup other = some opposite)
    (against : e.side = ascii 'B' ∧ opposite.side = ascii 'S' ∧ opposite.price ≤ e.price ∨
      e.side = ascii 'S' ∧ opposite.side = ascii 'B' ∧ e.price ≤ opposite.price) :
      opposite.touched < e.touched := by
  obtain ⟨r, inside, rfl⟩ := List.mem_map.mp live.1
  obtain ⟨side, price⟩ := sound.level r inside live.2 e found
  have crossing_ : Against r opposite := by
    rw [side, price] at against
    cases own : r.side with
    | buy =>
        rcases against with ⟨_, sells, less⟩ | ⟨impossible, _⟩
        · exact ⟨by rw [own]; exact sells, by simpa [own, crosses] using less⟩
        · rw [own] at impossible
          exact absurd impossible (by decide)
    | sell =>
        rcases against with ⟨impossible, _⟩ | ⟨_, buys, less⟩
        · rw [own] at impossible
          exact absurd impossible (by decide)
        · exact ⟨by rw [own]; exact buys, by simpa [own, crosses] using less⟩
  refine sound.older r inside live.2 e found other opposite there (fun alive => ?_) crossing_
  obtain ⟨s, member, rfl⟩ := List.mem_map.mp alive.1
  obtain ⟨side', price'⟩ := sound.level s member alive.2 opposite there
  exact uncrossed_against resting uncrossed r s inside member opposite side' price' crossing_

theorem evicted_not_live [LinearOrder τ] (resting : Resting) (book : Book τ) (current : Nat → Bool)
    (sound : Sound resting book current)
    (uncrossed : Uncrossed resting) (crossed : Crossed book) :
    ∃ ref, book.firstEvicted = some ref ∧ ¬ LiveRef resting current ref := by
  obtain ⟨bid, ask, bestBid, bestAsk, order⟩ := crossed
  obtain ⟨b, bidder, bidFound, buys, bidPrice⟩ := best_bid_order book sound.consistent bid bestBid
  obtain ⟨a, asker, askFound, sells, askPrice⟩ := best_ask_order resting book current sound ask bestAsk
  have bidIn := mem_crossing book bid ask b bidder bidFound (.inl ⟨buys, by omega⟩)
  have askIn := mem_crossing book bid ask a asker askFound (.inr ⟨sells, by omega⟩)
  obtain ⟨best, chosen, member, least⟩ := oldest_spec (book.crossing bid ask) (List.ne_nil_of_mem bidIn)
  refine ⟨best.2, ?_, fun live => ?_⟩
  · simp [Book.firstEvicted, bestBid, bestAsk, Nat.not_lt.mpr order, chosen]
  · obtain ⟨e, found, touched, side⟩ := crossing_spec book bid ask best member
    -- The best order of the other side is on a crossing level too.
    rcases side with ⟨own, above⟩ | ⟨own, below⟩
    · have older := live_not_oldest resting book current sound uncrossed best.2 a e asker live found askFound
        (.inl ⟨own, sells, by omega⟩)
      exact absurd (least _ askIn) (not_le_of_gt (touched ▸ older))
    · have older := live_not_oldest resting book current sound uncrossed best.2 b e bidder live found bidFound
        (.inr ⟨own, buys, by omega⟩)
      exact absurd (least _ bidIn) (not_le_of_gt (touched ▸ older))

structure WatchInv [LT τ] (inst : Nat) (state : Watched τ) (books : Nat → Resting) : Prop where
  rep : ShardRep state.shard books allQuiet
  uncrossed : Uncrossed (books inst)
  sound : Sound (books inst) state.book state.current
  times : ∀ ref e, state.book.orders.lookup ref = some e → e.touched ∈ state.times

theorem live_ref_iff [LT τ] (inst : Nat) (state : Watched τ) (books : Nat → Resting)
    (inv : WatchInv inst state books) (ref : Nat) :
    state.Live inst ref ↔ LiveRef (books inst) state.current ref := by
  have member : (∃ side p, ref ∈ state.shard.slotsAt inst side p) ↔ ref ∈ ids (books inst) := by
    constructor
    · rintro ⟨side, p, here⟩
      rw [slots_at_eq state.shard books allQuiet inv.rep] at here
      exact level_ids_subset _ _ _ _ here
    · intro here
      obtain ⟨r, inside, rfl⟩ := List.mem_map.mp here
      refine ⟨r.side, r.price, ?_⟩
      rw [slots_at_eq state.shard books allQuiet inv.rep, mem_level_ids]
      exact ⟨r, inside, rfl, rfl, rfl⟩
  rw [Watched.Live, LiveRef, member, and_comm]

theorem initial_watch_inv [LT τ] (id inst : Nat) : WatchInv inst (Watched.init id inst : Watched τ)
    fun _ => [] where
  rep := initial_shard_rep id
  uncrossed := by simp [Uncrossed]
  sound :=
    { consistent := initial_book_consistent inst
      sides := fun ref e found => by simp [Watched.init, Book.init] at found
      level := by simp
      older := by simp }
  times ref e found := by simp [Watched.init, Book.init] at found

theorem broadcasts_eq (inst : Nat) (before after : Shard) (events : List Event)
    (out : after.shared.out = before.shared.out ++ events.flatMap Event.outputs) :
    broadcasts inst before after = (itchSequence (events.flatMap Event.outputs)).filter fun m =>
      m.stockLocate = inst := by
  rw [broadcasts, out, itch_append, List.drop_left]

theorem filter_broadcasts (messages : List ItchMessage) (target inst : Nat)
    (located : ∀ msg ∈ messages, msg.stockLocate = target) :
    (messages.filter fun m => m.stockLocate = inst) = if inst = target then messages else [] := by
  by_cases same : inst = target
  · rw [if_pos same, List.filter_eq_self]
    exact fun m member => by simpa [same] using located m member
  · rw [if_neg same, List.filter_eq_nil_iff]
    intro m member
    simpa [located m member] using Ne.symm same

theorem change_sound [LT τ] (inst : Nat) (state : Watched τ) (books books' : Nat → Resting)
    (op : ShardOp) (events : List Event)
    (inv : WatchInv inst state books) (change : ShardChange books op events books')
    (arrivals : List (Arrival τ))
    (sent : arrivals.map Prod.fst = (itchSequence (events.flatMap Event.outputs)).filter fun m =>
      m.stockLocate = inst)
    (timely : Timely state.book arrivals)
    (attributed : ∀ m ∈ arrivals, m.1.msgType = ascii 'E' → m.2.isSome = true →
      m.1.internalId ∈ state.book.orders →
      LiveRef (books inst) state.current m.1.internalId) :
    Uncrossed (books' inst) ∧ Sound (books' inst) (state.book.deliverAll arrivals)
    (noteAll state.current arrivals) := by
  cases change with
  | matched o events final trace fresh =>
      have located := trace_locate o.instrumentId _ _ o events trace
        (fun r inside => (inv.rep.placed _ r inside).1) rfl
      rw [filter_broadcasts _ o.instrumentId inst located] at sent
      by_cases own : inst = o.instrumentId
      · subst own
        rw [if_pos rfl] at sent
        rw [Function.update_self]
        refine trace_sound _ final o events trace state.book state.current arrivals inv.sound
          inv.uncrossed (inv.rep.each _).distinct (fresh _)
          timely (fun m member execution received there => ?_) sent
        have live := attributed m member execution received there
        exact ⟨live.2, fun same => fresh o.instrumentId (same ▸ live.1)⟩
      · rw [if_neg own] at sent
        cases List.map_eq_nil_iff.mp sent
        rw [Function.update_of_ne own]
        exact ⟨inv.uncrossed, inv.sound⟩
  | canceled r inside =>
      rw [List.flatMap_singleton, itch_cancel,
        filter_broadcasts _ r.instrumentId inst (by simp [itchMessage])] at sent
      by_cases own : inst = r.instrumentId
      · subst own
        rw [if_pos rfl] at sent
        obtain ⟨⟨msg, received⟩, rfl, same⟩ := List.map_eq_singleton_iff.mp sent
        obtain rfl : msg = itchMessage 'X' r r.price r.quantity := same
        rw [Function.update_self]
        refine ⟨fun b bid onBuy a ask onSell => ?_, ?_⟩
        · exact inv.uncrossed b (List.mem_of_mem_filter bid) onBuy a (List.mem_of_mem_filter ask) onSell
        · have result := cancel_sound _ state.book state.current r received inv.sound inv.uncrossed inside
          simpa only [Book.deliverAll, noteAll, List.foldl_cons, List.foldl_nil, note_cancel] using result
      · rw [if_neg own] at sent
        cases List.map_eq_nil_iff.mp sent
        rw [Function.update_of_ne own]
        exact ⟨inv.uncrossed, inv.sound⟩
  | ignored idx token stale =>
      have none_ : arrivals = [] := List.map_eq_nil_iff.mp sent
      subst none_
      exact ⟨inv.uncrossed, inv.sound⟩

theorem watch_step_inv [LinearOrder τ] (inst : Nat) (before after : Watched τ) (round : Round τ)
    (books : Nat → Resting)
    (inv : WatchInv inst before books) (step : Guarded WatchAllowed (watchStep inst) before round after)
    (attributed : Attributed inst before round after) : ∃ books', WatchInv inst after books' := by
  obtain ⟨⟨admissible, increasing⟩, taken⟩ := step
  obtain ⟨shard, moved, rest⟩ := (checked_bind_eq_ok _ _ _).mp taken
  cases rest
  obtain ⟨events, books', rep', _, change, out⟩ :=
    shard_step_refines before.shard shard books round.op inv.rep ⟨admissible, moved⟩
  have sublist := arrivals_times (broadcasts inst before.shard shard) round.received
  have timely : Timely before.book (arrivalsOf (broadcasts inst before.shard shard) round.received) := by
    obtain ⟨_, ordered, apart⟩ := List.pairwise_append.mp increasing
    exact ⟨fun t member ref e found =>
      apart e.touched (inv.times ref e found) t (sublist.subset member), ordered.sublist sublist⟩
  obtain ⟨uncrossed, sound⟩ := change_sound inst before books books' round.op events inv change
    (arrivalsOf (broadcasts inst before.shard shard) round.received)
      (by rw [arrivals_messages, broadcasts_eq inst _ _ events out]) timely
    fun m member execution received there => (live_ref_iff inst before books inv _).mp
      (attributed m member execution received there)
  refine ⟨books', rep', uncrossed, sound, fun ref e found => ?_⟩
  rcases deliver_all_touched before.book _ ref e found with ⟨old, there, same⟩ | given
  · exact List.mem_append_left _ (same ▸ inv.times ref old there)
  · exact List.mem_append_right _ (sublist.subset given)

theorem repair_evicts_phantom [LinearOrder τ] (id inst : Nat) (rounds : List (Round τ)) (state : Watched τ)
    (run : Run (Watched.init id inst) (fun before round after =>
      Guarded WatchAllowed (watchStep inst) before round after ∧
      Attributed inst before round after) rounds state)
    (crossed : Crossed state.book) : ∃ ref, state.book.firstEvicted = some ref ∧ ¬ state.Live inst ref := by
  obtain ⟨books, inv⟩ : ∃ books, WatchInv inst state books := by
    refine run_invariant (fun state => ∃ books, WatchInv inst state books)
      ⟨_, initial_watch_inv id inst⟩ ?_ rounds state run
    rintro before round after ⟨books, inv⟩ ⟨step, attributed⟩
    exact watch_step_inv inst before after round books inv step attributed
  obtain ⟨ref, evicted, dead⟩ := evicted_not_live (books inst) state.book state.current inv.sound
    inv.uncrossed crossed
  exact ⟨ref, evicted, fun live => dead ((live_ref_iff inst state books inv ref).mp live)⟩

end

def attributedAt (inst : Nat) (before : Watched Nat) (round : Round Nat) : Bool :=
  match watchStep inst before round with
  | .ok after => (arrivalsOf (broadcasts inst before.shard after.shard) round.received).all fun m =>
      m.1.msgType ≠ ascii 'E' || !m.2.isSome || decide (m.1.internalId ∉ before.book.orders) ||
        (before.current m.1.internalId && [Side.buy, Side.sell].any fun side =>
          m.1.internalId ∈ before.shard.slotsAt inst side m.1.price)
  | .error _ => true

theorem attributed_of_check (inst : Nat) (before after : Watched Nat) (round : Round Nat)
    (checked : attributedAt inst before round = true)
    (step : watchStep inst before round = .ok after) : Attributed inst before round after := by
  rw [attributedAt, step] at checked
  intro m member execution received there
  have each := List.all_eq_true.mp checked m member
  simp only [execution, received, there, not_true_eq_false, decide_false, ne_eq, Bool.not_true,
    Bool.false_or, Bool.and_eq_true,
    List.any_eq_true, decide_eq_true_eq] at each
  obtain ⟨noted, side, _, here⟩ := each
  exact ⟨noted, side, m.1.price, here⟩

instance (state : Watched Nat) (round : Round Nat) : Decidable (WatchAllowed state round) :=
    inferInstanceAs (Decidable (_ ∧ _))

def lostCancel : List (Round Nat) :=
  [⟨.submit ⟨5, 11, 100, 10, 7, 3, 0, .sell⟩, [some 1]⟩,
    ⟨.submit ⟨7, 12, 100, 4, 8, 3, 0, .buy⟩, [some 2, some 3]⟩,
    ⟨.cancel 5 11, [none]⟩, ⟨.submit ⟨6, 13, 100, 10, 9, 3, 0, .buy⟩, [some 4]⟩]

theorem lost_cancel_evicted :
    ∃ state : Watched Nat, Run (Watched.init 3 3) (fun before round after =>
      Guarded WatchAllowed (watchStep 3) before round after ∧ Attributed 3 before round after)
        lostCancel state ∧
    Crossed state.book ∧ state.shard.slotsAt 3 .buy 100 = [6] ∧
    ∃ ref, state.book.firstEvicted = some ref ∧ ¬ state.Live 3 ref := by
  obtain ⟨state, result⟩ := Option.isSome_iff_exists.mp (show (execute (fun before round =>
    WatchAllowed before round ∧ attributedAt 3 before round = true) (watchStep 3) (Watched.init 3 3)
      lostCancel).isSome = true by decide +kernel)
  have left : (execute (fun before round => WatchAllowed before round ∧
    attributedAt 3 before round = true) (watchStep 3)
      (Watched.init 3 3) lostCancel).map (fun state =>
        (state.book.bestBid, state.book.bestAsk, state.shard.slotsAt 3 .buy 100)) =
        some (some 100, some 100, [6]) := by decide +kernel
  have run : Run (Watched.init 3 3) (fun before round after =>
      Guarded WatchAllowed (watchStep 3) before round after ∧ Attributed 3 before round after)
        lostCancel state :=
    run_mono lostCancel state
      (execute_run _ (watchStep 3) lostCancel (Watched.init 3 3) state result)
      fun before round after _ step =>
      ⟨⟨step.1.1, step.2⟩, attributed_of_check 3 before after round step.1.2 step.2⟩
  rw [result] at left
  obtain ⟨bid, rest⟩ := Prod.mk.inj (Option.some.inj left)
  obtain ⟨ask, slots⟩ := Prod.mk.inj rest
  have crossed : Crossed state.book := ⟨100, 100, bid, ask, Nat.le_refl _⟩
  exact ⟨state, run, crossed, slots, repair_evicts_phantom 3 3 lostCancel state run crossed⟩

-- The slot of an ask whose cancel is lost is used again by a sell that hits
-- the bid. Its report refreshes the dead ask after the bid's own.
def refreshedPhantom : List (Round Nat) :=
  [⟨.submit ⟨5, 11, 100, 10, 7, 3, 0, .sell⟩, [some 1]⟩, ⟨.cancel 5 11, [none]⟩,
    ⟨.submit ⟨6, 12, 100, 10, 8, 3, 0, .buy⟩, [some 2]⟩,
    ⟨.submit ⟨5, 13, 100, 4, 9, 3, 0, .sell⟩, [some 3, some 4]⟩]

theorem live_bid_evicted :
    ∃ state : Watched Nat, Run (Watched.init 3 3)
    (Guarded WatchAllowed (watchStep 3)) refreshedPhantom state ∧
    Crossed state.book ∧ state.book.firstEvicted = some 6 ∧ state.Live 3 6 := by
  obtain ⟨state, result⟩ := Option.isSome_iff_exists.mp
    (show (execute WatchAllowed (watchStep 3) (Watched.init 3 3) refreshedPhantom).isSome =
      true by decide +kernel)
  have left : (execute WatchAllowed (watchStep 3) (Watched.init 3 3) refreshedPhantom).map (fun state =>
      (state.book.bestBid, state.book.bestAsk, state.book.firstEvicted, state.current 6,
        state.shard.slotsAt 3 .buy 100)) =
        some (some 100, some 100, some 6, true, [6]) := by decide +kernel
  rw [result] at left
  simp only [Option.map_some, Option.some.injEq, Prod.mk.injEq] at left
  obtain ⟨bid, ask, evicted, noted, slots⟩ := left
  exact ⟨state, execute_run WatchAllowed (watchStep 3) refreshedPhantom _ state result,
    ⟨100, 100, bid, ask, Nat.le_refl _⟩, evicted,
    noted, .buy, 100, by rw [slots]; exact List.mem_singleton.mpr rfl⟩

end HftExchange.Monitoring
