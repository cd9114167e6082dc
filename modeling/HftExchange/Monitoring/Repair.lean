import HftExchange.Monitoring.LossySteps

set_option autoImplicit false

namespace HftExchange.Monitoring

open Base

section
variable {τ : Type}

def Book.deliverAll (book : Book τ) (arrivals : List (Arrival τ)) : Book τ := arrivals.foldl Book.deliver book

def noteAll (current : Nat → Bool) (arrivals : List (Arrival τ)) : Nat → Bool :=
    arrivals.foldl noteAdd current

-- The reports of executions that are received and find an entry are those of
-- the order the entry stands for, and not of the aggressor.
def OwnReports (book : Book τ) (current : Nat → Bool) (aggressor : Nat)
    (arrivals : List (Arrival τ)) : Prop :=
  ∀ m ∈ arrivals, m.1.msgType = ascii 'E' → m.2.isSome = true → m.1.internalId ∈ book.orders →
    current m.1.internalId = true ∧ m.1.internalId ≠ aggressor

theorem execution_entries (book : Book τ) (o : Order) (price qty : Nat) (received : Option τ) (ref : Nat)
    (there : ref ∈ (book.deliver (itchMessage 'E' o price qty, received)).orders) : ref ∈ book.orders := by
  by_cases own : ref = o.internalId
  · subst own
    by_contra absent
    rw [taker_unseen book o price qty received fun _ => absent] at there
    exact absent there
  · rw [← AList.lookup_isSome] at there ⊢
    rwa [deliver_other book _ ref own] at there

variable [LT τ]

theorem trace_sound (resting final : Resting) (n : Order) (events : List Event)
    (trace : MatchTrace resting n events final)
    (book : Book τ) (current : Nat → Bool) (arrivals : List (Arrival τ)) (sound : Sound resting book current)
    (uncrossed : Uncrossed resting) (distinct : (ids resting).Nodup) (fresh : n.internalId ∉ ids resting)
    (timely : Timely book arrivals) (own : OwnReports book current n.internalId arrivals)
    (sent : arrivals.map Prod.fst = itchSequence (events.flatMap Event.outputs)) :
    Uncrossed final ∧ Sound final (book.deliverAll arrivals) (noteAll current arrivals) := by
  induction trace generalizing book arrivals with
  | ended resting next n event step =>
      cases step with
      | reject r live best same =>
          cases List.map_eq_nil_iff.mp sent
          exact ⟨uncrossed, sound⟩
      | filled spent =>
          cases List.map_eq_nil_iff.mp sent
          exact ⟨uncrossed, sound⟩
      | rest live absent =>
          rw [List.flatMap_singleton, itch_rest] at sent
          obtain ⟨⟨msg, received⟩, rfl, same⟩ := List.map_eq_singleton_iff.mp sent
          obtain rfl : msg = itchMessage 'A' n n.price n.quantity := same
          have newer : NewerThan book received := fun now given => timely_now book _ [] timely now given
          exact ⟨uncrossed_rest resting n uncrossed absent,
            rest_sound resting book current n received sound uncrossed fresh live newer⟩
  | traded resting next final n left event events step rest ih =>
      cases step with
      | trade r live best other =>
          have inside := best_opposite_mem n r resting best
          rw [List.flatMap_cons, itch_append, itch_trade] at sent
          obtain ⟨first, later, rfl, now_, then_⟩ := List.map_eq_append_iff.mp sent
          obtain ⟨⟨makes, made⟩, tail, rfl, same, rest_⟩ := List.map_eq_cons_iff.mp now_
          obtain rfl : makes = itchMessage 'E' r r.price (tradeQty n r) := same
          obtain ⟨⟨takes, taken⟩, rfl, same⟩ := List.map_eq_singleton_iff.mp rest_
          obtain rfl : takes = itchMessage 'E' n r.price (tradeQty n r) := same
          have makerOwn := own _ (List.mem_cons_self) rfl
          have takerOwn := own (itchMessage 'E' n r.price (tradeQty n r), taken) (by simp) rfl
          -- Only the maker's report can change an entry.
          have maker := maker_sound resting book current r (tradeQty n r) made sound uncrossed distinct inside
            (fun now given => timely_now book _ _ timely now given) fun received there =>
              (makerOwn received there).1
          have unseen := taker_unseen
            (book.deliver (itchMessage 'E' r r.price (tradeQty n r), made)) n r.price
            (tradeQty n r) taken
            fun received there => (takerOwn received (execution_entries book r r.price _ made _ there)).2 rfl
          have timely' := timely_rest _ _ later (timely_rest book _ _ timely)
          rw [unseen] at timely'
          have result := ih (book.deliver (itchMessage 'E' r r.price (tradeQty n r), made)) later maker
            (uncrossed_settle resting _ _ uncrossed) (settle_distinct resting r _ distinct inside)
            (fun member => fresh (settle_ids_subset _ _ _ _ member)) timely'
            (fun m member execution received there => own m (by simp [member]) execution received
              (execution_entries book r r.price _ made _ there)) then_
          refine ⟨result.1, ?_⟩
          have books : book.deliverAll
            ([(itchMessage 'E' r r.price (tradeQty n r), made),
            (itchMessage 'E' n r.price (tradeQty n r), taken)] ++
              later) = (book.deliver (itchMessage 'E' r r.price (tradeQty n r), made)).deliverAll later := by
            simp only [Book.deliverAll, List.cons_append, List.nil_append, List.foldl_cons, unseen]
          have notes : noteAll current
            ([(itchMessage 'E' r r.price (tradeQty n r), made),
            (itchMessage 'E' n r.price (tradeQty n r), taken)] ++
              later) = noteAll current later := by
            simp only [noteAll, List.cons_append, List.nil_append, List.foldl_cons, note_execution]
          rw [books, notes]
          exact result.2

end

structure Watched (τ : Type) where
  shard : Shard
  book : Book τ
  current : Nat → Bool
  times : List τ

-- One task of the engine, and for each message about the instrument the time
-- of its receipt; a message without one is lost.
structure Round (τ : Type) where
  op : ShardOp
  received : List (Option τ)

section
variable {τ : Type}

def Watched.init (id inst : Nat) : Watched τ := ⟨.init id, .init inst, fun _ => false, []⟩

def broadcasts (inst : Nat) (before after : Shard) : List ItchMessage :=
  ((itchSequence after.shared.out).drop (itchSequence before.shared.out).length).filter fun m =>
    m.stockLocate = inst

def arrivalsOf (messages : List ItchMessage) (received : List (Option τ)) : List (Arrival τ) :=
  messages.mapIdx fun i m => (m, received.getD i none)

def watchStep (inst : Nat) (state : Watched τ) (round : Round τ) : Checked (Watched τ) := do
  let shard ← shardStep state.shard round.op
  let arrivals := arrivalsOf (broadcasts inst state.shard shard) round.received
  pure ⟨shard, state.book.deliverAll arrivals, noteAll state.current arrivals,
    state.times ++ round.received.reduceOption⟩

def WatchAllowed [LT τ] (state : Watched τ) (round : Round τ) : Prop :=
  ShardAdmissible state.shard round.op ∧ (state.times ++ round.received.reduceOption).Pairwise (· < ·)

def Watched.Live (state : Watched τ) (inst ref : Nat) : Prop :=
  state.current ref = true ∧ ∃ side p, ref ∈ state.shard.slotsAt inst side p

-- Before the task, every received execution report of the task that will find
-- an entry finds the one of a live order.
def Attributed (inst : Nat) (before : Watched τ) (round : Round τ) (after : Watched τ) : Prop :=
  ∀ m ∈ arrivalsOf (broadcasts inst before.shard after.shard) round.received,
    m.1.msgType = ascii 'E' → m.2.isSome = true →
    m.1.internalId ∈ before.book.orders → before.Live inst m.1.internalId

def Crossed (book : Book τ) : Prop := ∃ bid ask, book.bestBid = some bid ∧ book.bestAsk = some ask ∧ ask ≤ bid

end

end HftExchange.Monitoring
