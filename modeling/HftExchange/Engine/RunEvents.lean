import HftExchange.Base.Sums
import HftExchange.Engine.Audit
import HftExchange.Engine.TaskEffect

set_option autoImplicit false

namespace HftExchange

open Base

def LiveTrade (event : Event) : Prop := ∀ trade, tradeOf event = some trade → 0 < tradeQty trade.1 trade.2

-- A kind of orders that does not depend on what is left of an order, and the
-- shares of its orders.
def Fixed (mine : Order → Bool) : Prop := ∀ r qty, mine (reduced r qty) = mine r

def countIf (mine : Order → Bool) (r : Order) (qty : Nat) : Nat := if mine r then qty else 0

def sharesOf (mine : Order → Bool) (orders : List Order) : Nat :=
    (orders.map fun r => countIf mine r r.quantity).sum

def Event.executed (mine : Order → Bool) : Event → Nat
  | .trade taker maker => countIf mine taker (tradeQty taker maker) + countIf mine maker
      (tradeQty taker maker)
  | .reject _ | .rest _ | .filled _ | .cancel _ => 0

def Event.leftOver (mine : Order → Bool) : Event → Nat
  | .reject o | .cancel o => countIf mine o o.quantity
  | .trade _ _ | .rest _ | .filled _ => 0

def executedIn (mine : Order → Bool) (events : List Event) : Nat := (events.map (Event.executed mine)).sum

def leftOverIn (mine : Order → Bool) (events : List Event) : Nat := (events.map (Event.leftOver mine)).sum

def ShardOp.submitted (mine : Order → Bool) : ShardOp → Nat
  | .submit o => countIf mine o o.quantity
  | .cancel _ _ => 0

def submittedIn (mine : Order → Bool) (ops : List ShardOp) : Nat := (ops.map (ShardOp.submitted mine)).sum

def openShares (mine : Order → Bool) (books : Nat → Resting) : Nat :=
    ∑ inst ∈ Finset.range maxInstruments, sharesOf mine (books inst)

theorem settle_positive (book : Resting) (id qty : Nat) (positive : ∀ r ∈ book, 0 < r.quantity) :
    ∀ r ∈ settle book id qty, 0 < r.quantity := by
  intro r member
  obtain ⟨old, before, kept⟩ := List.mem_filterMap.mp member
  unfold takeQuantity at kept
  split at kept
  · split at kept
    · cases kept
    · rename_i more
      cases kept
      exact Nat.sub_pos_of_lt (Nat.lt_of_not_le more)
  · cases kept
    exact positive r before

theorem match_trace_live (book final : Resting) (n : Order) (events : List Event)
    (trace : MatchTrace book n events final)
    (positive : ∀ r ∈ book, 0 < r.quantity) : ∀ event ∈ events, LiveTrade event := by
  induction trace with
  | ended book next n event step => cases step <;> simp [LiveTrade, tradeOf]
  | traded book next final n left event events step rest ih =>
      cases step with
      | trade r live best other =>
          refine List.forall_mem_cons.mpr ⟨fun trade same => ?_, ih (settle_positive book _ _ positive)⟩
          cases same
          exact Nat.lt_min.mpr ⟨live, positive r (best_opposite_mem n r book best)⟩

theorem trade_qty_le (taker maker : Order) :
    tradeQty taker maker ≤ taker.quantity ∧ tradeQty taker maker ≤ maker.quantity :=
  ⟨Nat.min_le_left _ _, Nat.min_le_right _ _⟩

section
variable (mine : Order → Bool)

theorem shares_append (first second : List Order) :
    sharesOf mine (first ++ second) = sharesOf mine first + sharesOf mine second := by
  rw [sharesOf, List.map_append, List.sum_append]
  rfl

theorem count_split (r : Order) (qty : Nat) (most : qty ≤ r.quantity) :
    countIf mine r (r.quantity - qty) + countIf mine r qty = countIf mine r r.quantity := by
  unfold countIf
  split
  · exact Nat.sub_add_cancel most
  · rfl

variable (fixed : Fixed mine)

include fixed

theorem count_reduced (r : Order) (qty : Nat) :
    countIf mine (reduced r qty) (r.quantity - qty) = countIf mine r (r.quantity - qty) := by
  rw [countIf, fixed, countIf]

theorem shares_settle (book : Resting) (r : Order) (qty : Nat) (distinct : (ids book).Nodup)
    (inside : r ∈ book) (most : qty ≤ r.quantity) :
    sharesOf mine (settle book r.internalId qty) + countIf mine r qty = sharesOf mine book := by
  obtain ⟨before, after, rfl⟩ := List.append_of_mem inside
  have cells : (ids before ++ r.internalId :: ids after).Nodup := by simpa [ids] using distinct
  obtain ⟨_, _, notBefore, notAfter, _⟩ := removal_apart _ _ _ cells
  have settled : settle (before ++ r :: after) r.internalId qty = before ++
      (takeQuantity r.internalId qty r).toList ++ after := by
    have one : settle [r] r.internalId qty = (takeQuantity r.internalId qty r).toList := by
      cases taken : takeQuantity r.internalId qty r <;> simp [settle, taken]
    have each : settle (before ++ r :: after) r.internalId qty =
        settle before r.internalId qty ++ settle [r] r.internalId qty ++ settle after r.internalId qty := by
      simp only [settle, ← List.filterMap_append, List.append_assoc, List.singleton_append]
    rw [each, one, settle_absent before _ qty notBefore, settle_absent after _ qty notAfter]
  have left : sharesOf mine (takeQuantity r.internalId qty r).toList + countIf mine r qty =
      countIf mine r r.quantity := by
    rw [takeQuantity, if_pos rfl]
    split
    · rename_i all
      rw [Nat.le_antisymm all most]
      exact Nat.zero_add _
    · exact (congrArg (· + _) (count_reduced mine fixed r qty)).trans (count_split mine r qty most)
  rw [settled, shares_append, shares_append, shares_append, ← List.singleton_append, shares_append]
  have own : sharesOf mine [r] = countIf mine r r.quantity := rfl
  omega

theorem match_trace_conserves (book final : Resting) (n : Order) (events : List Event)
    (trace : MatchTrace book n events final)
    (distinct : (ids book).Nodup) :
    sharesOf mine book + countIf mine n n.quantity =
      executedIn mine events + leftOverIn mine events + sharesOf mine final := by
  induction trace with
  | ended book next n event step =>
      cases step with
      | reject r live best same =>
          simp only [executedIn, leftOverIn, List.map_cons, List.map_nil, List.sum_cons,
            List.sum_nil, Event.executed, Event.leftOver]
          omega
      | rest live absent => rw [shares_append, executedIn, leftOverIn]; exact (Nat.zero_add _).symm
      | filled spent => rw [spent]; unfold countIf; split <;> exact (Nat.zero_add _).symm
  | traded book next final n left event events step rest ih =>
      cases step with
      | trade r live best other =>
          have inside := best_opposite_mem n r book best
          obtain ⟨takers, makers⟩ := trade_qty_le n r
          have maker := shares_settle mine fixed book r (tradeQty n r) distinct inside makers
          have taker := count_split mine n (tradeQty n r) takers
          have later := ih (settle_distinct book r _ distinct inside)
          rw [show (reduced n (tradeQty n r)).quantity = n.quantity - tradeQty n r from rfl,
            count_reduced mine fixed] at later
          simp only [executedIn, leftOverIn, List.map_cons, List.sum_cons, Event.executed,
            Event.leftOver] at later ⊢
          omega

end

theorem change_conserves (mine : Order → Bool) (fixed : Fixed mine) (shard : Shard)
    (books books' : Nat → Resting) (op : ShardOp)
    (events : List Event) (rep : ShardRep shard books allQuiet) (admissible : ShardAdmissible shard op)
    (change : ShardChange books op events books') :
    openShares mine books + op.submitted mine = executedIn mine events + leftOverIn mine
      events + openShares mine books' := by
  cases change with
  | matched o events final trace fresh =>
      have swapped := sum_update _ (sharesOf mine) books o.instrumentId final
        (Finset.mem_range.mpr admissible.2.1)
      have kept := match_trace_conserves mine fixed _ final o events trace (rep.each _).distinct
      rw [ShardOp.submitted, openShares, openShares]
      omega
  | canceled r inside =>
      have known := (rep.placed _ r inside).2.1
      have swapped := sum_update _ (sharesOf mine) books r.instrumentId
        (without (books r.instrumentId) r.internalId)
        (Finset.mem_range.mpr known)
      have kept := shares_settle mine fixed _ r r.quantity (rep.each _).distinct inside (Nat.le_refl _)
      rw [settle_exhausted _ r r.quantity (rep.each _).distinct inside (Nat.le_refl _)] at kept
      simp only [ShardOp.submitted, executedIn, leftOverIn, openShares, List.map_cons, List.map_nil,
        List.sum_cons, List.sum_nil,
        Event.executed, Event.leftOver]
      omega
  | ignored idx token stale => exact Nat.add_comm _ _

theorem change_orders (Kind : Order → Prop) (stable : ∀ r qty, Kind r → Kind (reduced r qty))
    (books books' : Nat → Resting) (op : ShardOp)
    (events : List Event) (change : ShardChange books op events books')
    (kept : ∀ inst, ∀ r ∈ books inst, Kind r)
    (own : ∀ o, op = .submit o → Kind o) :
    (∀ inst, ∀ r ∈ books' inst, Kind r) ∧ ∀ e ∈ events, ∀ r ∈ e.orders, Kind r := by
  cases change with
  | matched o events final trace fresh =>
      have later := match_trace_orders Kind stable _ final o _ trace (kept _) (own o rfl)
      refine ⟨fun inst r inside => ?_, match_trace_events Kind stable _ final o _ trace (kept _) (own o rfl)⟩
      by_cases here : inst = o.instrumentId
      · subst here
        rw [Function.update_self] at inside
        exact later r inside
      · rw [Function.update_of_ne here] at inside
        exact kept inst r inside
  | canceled r inside =>
      refine ⟨fun inst s member => ?_, fun e single s member => ?_⟩
      · by_cases here : inst = r.instrumentId
        · subst here
          rw [Function.update_self] at member
          exact kept _ s (List.mem_of_mem_filter member)
        · rw [Function.update_of_ne here] at member
          exact kept inst s member
      · cases List.mem_singleton.mp single
        cases List.mem_singleton.mp member
        exact kept _ r inside
  | ignored idx token stale => exact ⟨kept, by simp⟩

theorem change_live (shard : Shard) (books books' : Nat → Resting) (op : ShardOp)
    (events : List Event) (rep : ShardRep shard books allQuiet)
    (change : ShardChange books op events books') : ∀ event ∈ events, LiveTrade event := by
  cases change with
  | matched o events final trace fresh => exact match_trace_live _ final o _ trace (rep.each _).positive
  | canceled r inside => simp [LiveTrade, tradeOf]
  | ignored idx token stale => simp

theorem change_together (shard : Shard) (books books' : Nat → Resting) (op : ShardOp) (events : List Event)
    (rep : ShardRep shard books allQuiet) (change : ShardChange books op events books') :
    ∀ e ∈ events, ∀ r ∈ e.orders, ∀ s ∈ e.orders, r.instrumentId = s.instrumentId := by
  cases change with
  | matched o events final trace fresh =>
      have own := match_trace_events (fun r => r.instrumentId = o.instrumentId)
        (fun _ _ same => same) _ final o _ trace
        (fun r inside => (rep.placed _ r inside).1) rfl
      exact fun e member r first s second => (own e member r first).trans (own e member s second).symm
  | canceled r inside => simp [Event.orders]
  | ignored idx token stale => simp

structure RunAccount (Kind : Order → Prop) (ops : List ShardOp) (shard : Shard)
    (books : Nat → Resting) (events : List Event) : Prop where
  rep : ShardRep shard books allQuiet
  out : shard.shared.out = events.flatMap Event.outputs
  resting : ∀ inst, ∀ r ∈ books inst, Kind r
  orders : ∀ e ∈ events, ∀ r ∈ e.orders, Kind r
  live : ∀ e ∈ events, LiveTrade e
  opposite : ∀ e ∈ events, OppositeTrade e
  together : ∀ e ∈ events, ∀ r ∈ e.orders, ∀ s ∈ e.orders, r.instrumentId = s.instrumentId
  conserved : ∀ mine, Fixed mine → submittedIn mine ops = executedIn mine events + leftOverIn mine
    events + openShares mine books

theorem shard_run_account (Kind : Order → Prop) (stable : ∀ r qty, Kind r → Kind (reduced r qty))
    (id : Nat) (ops : List ShardOp)
    (shard : Shard) (run : ShardRun (.init id) ops shard)
    (own : ∀ state o, state.id = id → ShardAdmissible state (.submit o) → .submit o ∈ ops → Kind o) :
    ∃ books events, RunAccount Kind ops shard books events := by
  induction run with
  | start =>
      refine ⟨fun _ => [], [], initial_shard_rep id, rfl, by simp, by simp, by simp, by simp,
        by simp, fun mine fixed => ?_⟩
      simp [submittedIn, executedIn, leftOverIn, openShares, sharesOf]
  | snoc ops op state next before step ih =>
      obtain ⟨books, events, account⟩ := ih fun earlier o same allowed member =>
        own earlier o same allowed (List.mem_append_left _ member)
      have same := (shard_run_rep id ops state before).1
      obtain ⟨more, books', rep', _, change, out⟩ := shard_step_refines state next books op account.rep step
      obtain ⟨resting, orders⟩ :=
          change_orders Kind stable books books' op more change account.resting fun o new =>
        own state o same (new ▸ step.1) (by simp [new])
      refine ⟨books', events ++ more, rep', by rw [out, account.out, List.flatMap_append], resting,
        List.forall_mem_append.mpr ⟨account.orders, orders⟩,
        List.forall_mem_append.mpr ⟨account.live, change_live state books books' op more account.rep change⟩,
        List.forall_mem_append.mpr ⟨account.opposite, change_opposite books books' op more change⟩,
        List.forall_mem_append.mpr ⟨account.together,
          change_together state books books' op more account.rep change⟩, fun mine fixed => ?_⟩
      have earlier := account.conserved mine fixed
      have now := change_conserves mine fixed state books books' op more account.rep step.1 change
      simp only [submittedIn, executedIn, leftOverIn, List.map_append, List.sum_append,
        List.map_cons, List.map_nil, List.sum_cons,
        List.sum_nil] at earlier now ⊢
      omega

end HftExchange
