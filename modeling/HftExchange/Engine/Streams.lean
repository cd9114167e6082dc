import HftExchange.Engine.TaskEffect

set_option autoImplicit false

namespace HftExchange

open Base

def itchOn (inst : Nat) (out : List Output) : List ItchMessage := (itchSequence out).filter fun m =>
    m.stockLocate = inst

def dropCopiesOn (inst : Nat) (out : List Output) : List DropCopyMessage :=
  (dropCopySequence out).filter fun m => m.instrumentId = inst

def Event.acksFor (slot : Slot) : Event → List Output
  | .trade taker maker =>
      (if taker.internalId = slot then [ackOf taker maker.price (tradeQty taker maker) 'R'] else []) ++
      if maker.internalId = slot then [ackOf maker maker.price (tradeQty taker maker) 'A'] else []
  | _ => []

def Event.instrument : Event → Nat
  | .trade taker _ => taker.instrumentId
  | .reject o => o.instrumentId
  | .rest o => o.instrumentId
  | .filled o => o.instrumentId
  | .cancel o => o.instrumentId

def Homed (memory : Slot → Order) (event : Event) : Prop :=
  ∀ r ∈ event.orders, r.instrumentId = event.instrument ∧
    (memory r.internalId).instrumentId = event.instrument

theorem event_homed (memory : Slot → Order) (inst : Nat) (event : Event)
    (all : ∀ r ∈ event.orders, r.instrumentId = inst ∧ (memory r.internalId).instrumentId = inst) :
    event.instrument = inst ∧ Homed memory event := by
  have here : event.instrument = inst := by
    cases event with
    | trade taker maker => exact (all taker (by simp [Event.orders])).1
    | reject o | rest o | filled o | cancel o => exact (all o (by simp [Event.orders])).1
  exact ⟨here, fun r inside => here ▸ all r inside⟩

def onInstrument (inst : Nat) (events : List Event) : List Event := events.filter fun e => e.instrument = inst

theorem on_instrument_append (inst : Nat) (events later : List Event) :
    onInstrument inst (events ++ later) = onInstrument inst events ++ onInstrument inst later :=
      List.filter_append ..

theorem on_instrument_own (inst : Nat) (events : List Event)
    (own : ∀ e ∈ events, e.instrument = inst) : onInstrument inst events = events :=
  List.filter_eq_self.mpr fun e told => decide_eq_true (own e told)

theorem on_instrument_other (inst : Nat) (events : List Event)
    (other : ∀ e ∈ events, e.instrument ≠ inst) : onInstrument inst events = [] :=
  List.filter_eq_nil_iff.mpr fun e told here => other e told (of_decide_eq_true here)

theorem itch_order (event : Event) (m : ItchMessage) (told : .itch m ∈ event.outputs) :
    ∃ r ∈ event.orders, m.stockLocate = r.instrumentId := by
  cases event with
  | trade taker maker =>
      simp only [Event.outputs, itchOf, dropCopyOf, ackOf, List.mem_append, List.mem_cons,
        Output.itch.injEq, reduceCtorEq, List.not_mem_nil,
        or_false] at told
      rcases told with (rfl | rfl) | released
      · exact ⟨maker, by simp [Event.orders], rfl⟩
      · exact ⟨taker, by simp [Event.orders], rfl⟩
      · split at released <;> simp at released
  | reject o => simp [Event.outputs, dropCopyOf] at told
  | rest o =>
      simp only [Event.outputs, itchOf, dropCopyOf, List.mem_cons, Output.itch.injEq, reduceCtorEq,
        List.not_mem_nil, or_false] at told
      exact ⟨o, by simp [Event.orders], by rw [told]⟩
  | filled o => simp [Event.outputs] at told
  | cancel o =>
      simp only [Event.outputs, itchOf, dropCopyOf, List.mem_cons, Output.itch.injEq, reduceCtorEq,
        List.not_mem_nil, or_false] at told
      exact ⟨o, by simp [Event.orders], by rw [told]⟩

theorem drop_copy_order (event : Event) (m : DropCopyMessage) (told : .dropCopy m ∈ event.outputs) :
    ∃ r ∈ event.orders, m.instrumentId = r.instrumentId := by
  cases event with
  | trade taker maker =>
      simp only [Event.outputs, itchOf, dropCopyOf, ackOf, List.mem_append, List.mem_cons,
        Output.dropCopy.injEq, reduceCtorEq,
        List.not_mem_nil, or_false, false_or] at told
      rcases told with (rfl | rfl) | released
      · exact ⟨taker, by simp [Event.orders], rfl⟩
      · exact ⟨maker, by simp [Event.orders], rfl⟩
      · split at released <;> simp at released
  | filled o => simp [Event.outputs] at told
  | reject o | rest o | cancel o =>
      simp only [Event.outputs, itchOf, dropCopyOf, List.mem_cons, Output.dropCopy.injEq,
        reduceCtorEq, List.not_mem_nil, or_false,
        false_or] at told
      exact ⟨o, by simp [Event.orders], by rw [told]⟩

theorem filter_flat_map {α β : Type} (produce : α → List β) (keep : α → Bool) (xs : List α)
    (silent : ∀ x ∈ xs, keep x = false → produce x = []) :
    (xs.filter keep).flatMap produce = xs.flatMap produce := by
  induction xs with
  | nil => rfl
  | cons x xs ih =>
      have rest := ih fun y inside => silent y (List.mem_cons_of_mem _ inside)
      cases kept : keep x with
      | true => simp only [List.filter_cons_of_pos kept, List.flatMap_cons, rest]
      | false => simp [kept, rest, silent x List.mem_cons_self kept]

theorem perm_of_fibres {α : Type} [DecidableEq α] (key : α → Nat) (xs ys : List α)
    (same : ∀ k, xs.filter (fun x => key x = k) = ys.filter fun x => key x = k) : xs.Perm ys := by
  rw [List.perm_iff_count]
  intro a
  have count (zs : List α) : zs.count a = (zs.filter fun x => key x = key a).count a :=
    (List.count_filter (by simp)).symm
  rw [count xs, count ys, same]

structure SameStreams (memory : Slot → Order) (inst : Nat) (events events' : List Event) : Prop where
  itch : itchOn inst (events.flatMap Event.outputs) = itchOn inst (events'.flatMap Event.outputs)
  dropCopies : dropCopiesOn inst (events.flatMap Event.outputs) = dropCopiesOn inst
    (events'.flatMap Event.outputs)
  acks : ∀ slot, (memory slot).instrumentId = inst → events.flatMap (Event.acksFor slot) =
    events'.flatMap (Event.acksFor slot)

section
variable (memory : Slot → Order) (inst : Nat) (events : List Event) (homed : ∀ e ∈ events, Homed memory e)
include homed

theorem messages_on_instrument {μ : Type} (pick : Output → Option μ) (place : μ → Nat)
    (placed : ∀ event : Event, ∀ m ∈ event.outputs.filterMap pick, ∃ r ∈ event.orders,
      place m = r.instrumentId) :
    (((onInstrument inst events).flatMap Event.outputs).filterMap pick).filter (fun m => place m = inst) =
      ((events.flatMap Event.outputs).filterMap pick).filter fun m => place m = inst := by
  simp only [List.filterMap_flatMap, List.filter_flatMap]
  refine filter_flat_map _ _ events fun e inside elsewhere => ?_
  rw [List.filter_eq_nil_iff]
  intro m there here
  obtain ⟨r, own, same⟩ := placed e m there
  have home := (homed e inside r own).1
  simp only [decide_eq_true_eq, decide_eq_false_iff_not] at here elsewhere
  exact elsewhere (home.symm.trans (same.symm.trans here))

theorem itch_on_instrument :
    itchOn inst ((onInstrument inst events).flatMap Event.outputs) =
    itchOn inst (events.flatMap Event.outputs) := by
  refine messages_on_instrument memory inst events homed _ ItchMessage.stockLocate fun e m there => ?_
  obtain ⟨output, told, made⟩ := List.mem_filterMap.mp there
  cases output with
  | itch m' => exact itch_order e m (Option.some.inj made ▸ told)
  | dropCopy m' | ack worker m' | release slot => cases made

theorem drop_copies_on_instrument :
    dropCopiesOn inst ((onInstrument inst events).flatMap Event.outputs) = dropCopiesOn inst
    (events.flatMap Event.outputs) := by
  refine messages_on_instrument memory inst events homed _ DropCopyMessage.instrumentId fun e m there => ?_
  obtain ⟨output, told, made⟩ := List.mem_filterMap.mp there
  cases output with
  | dropCopy m' => exact drop_copy_order e m (Option.some.inj made ▸ told)
  | itch m' | ack worker m' | release slot => cases made

theorem acks_on_instrument (slot : Slot) (own : (memory slot).instrumentId = inst) :
    (onInstrument inst events).flatMap (Event.acksFor slot) = events.flatMap (Event.acksFor slot) := by
  refine filter_flat_map _ _ events fun e inside elsewhere => ?_
  simp only [decide_eq_false_iff_not] at elsewhere
  have other : ∀ r ∈ e.orders, r.internalId ≠ slot := fun r member same =>
    elsewhere ((homed e inside r member).2.symm.trans (same ▸ own))
  cases e with
  | trade taker maker =>
      have first := other taker (by simp [Event.orders])
      have second := other maker (by simp [Event.orders])
      simp [Event.acksFor, first, second]
  | reject o | rest o | filled o | cancel o => rfl

end

theorem same_streams (memory : Slot → Order) (inst : Nat) (events events' : List Event)
    (homed : ∀ e ∈ events, Homed memory e)
    (homed' : ∀ e ∈ events', Homed memory e) (same : onInstrument inst events = onInstrument inst events') :
    SameStreams memory inst events events' where
  itch := by rw [← itch_on_instrument memory inst events homed, same, itch_on_instrument memory inst events' homed']
  dropCopies := by
    rw [← drop_copies_on_instrument memory inst events homed, same,
      drop_copies_on_instrument memory inst events' homed']
  acks slot own := by
    rw [← acks_on_instrument memory inst events homed slot own, same,
      acks_on_instrument memory inst events' homed' slot own]

theorem same_releases (events events' : List Event)
    (same : ∀ inst, onInstrument inst events = onInstrument inst events') :
    (releases (events.flatMap Event.outputs)).Perm (releases (events'.flatMap Event.outputs)) :=
  ((perm_of_fibres Event.instrument events events' same).flatMap_right Event.outputs).filterMap _

end HftExchange
