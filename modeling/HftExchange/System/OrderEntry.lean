import HftExchange.Base.Packed
import HftExchange.Firm.SendBytes
import HftExchange.Firm.TransmitModes
import HftExchange.Gateway.Framing
import HftExchange.Protocol.Codecs

set_option autoImplicit false

namespace HftExchange

open Base

def EnterRequest.members (req : EnterRequest) : List Bytes :=
  [[req.msgType], req.orderToken, [req.side], littleEndianBytes 4 req.shares, req.stock,
    littleEndianBytes 4 req.price,
    littleEndianBytes 4 req.timeInForce, req.firm, [req.display], [req.capacity],
      [req.isoEligibility], littleEndianBytes 4 req.minQuantity,
    [req.crossType], [req.customerType], littleEndianBytes 8 req.t1ExchangeSend,
      littleEndianBytes 8 req.t2TradingRecv,
    littleEndianBytes 8 req.t3TradingEnq, littleEndianBytes 8 req.t4NetworkDeq]

def CancelRequest.members (req : CancelRequest) : List Bytes :=
  [[req.msgType], req.orderToken, littleEndianBytes 4 req.shares]

def OuchRequest.bytes : OuchRequest → Bytes
  | .enter req => req.members.flatten
  | .cancel req => req.members.flatten

def OuchRequest.WellFormed : OuchRequest → Prop
  | .enter req => req.msgType = ascii 'O' ∧ req.orderToken.length = 14 ∧ req.stock.length = 8 ∧
      req.firm.length = 4
  | .cancel req => req.msgType = ascii 'X' ∧ req.orderToken.length = 14

theorem request_whole (req : OuchRequest) (formed : req.WellFormed) : WholeFrame messageSize req.bytes := by
  cases req with
  | enter req =>
      obtain ⟨type, token, stock, firm⟩ := formed
      refine ⟨ascii 'O', congrArg some type, ?_⟩
      simp only [OuchRequest.bytes, EnterRequest.members, List.length_flatten, List.map_cons,
        List.map_nil, token,
        little_endian_bytes_length, stock, firm]
      rfl
  | cancel req =>
      obtain ⟨type, token⟩ := formed
      refine ⟨ascii 'X', congrArg some type, ?_⟩
      simp only [OuchRequest.bytes, CancelRequest.members, List.length_flatten, List.map_cons,
        List.map_nil, token,
        little_endian_bytes_length]
      rfl

def Requests (config : ConnectorConfig) (a : NormalizedOrderAction) : ClientMessage → Prop
  | .enter req => a.isCancel = false ∧ decodeOrderToken req.orderToken = orderTokenOf config.tokenBase a ∧
      req.side = (if a.isBuy then ascii 'B' else ascii 'S') ∧ req.shares = a.quantity ∧
        decodeSymbol req.stock = a.instrumentId ∧
      req.price = a.price
  | .cancel req => a.isCancel = true ∧ decodeOrderToken req.orderToken = orderTokenOf config.tokenBase a

-- The values the members of an action can have, with a price and a token that
-- the wire has room for.
structure ActionFits (config : ConnectorConfig) (a : NormalizedOrderAction) : Prop where
  token : TokenFits config a
  quantity : a.quantity < 2 ^ 32
  instrument : a.instrumentId < maxInstruments
  price : a.price < 2 ^ 32

section
variable (config : ConnectorConfig) (firm : config.firmId.length = 4)

theorem encode_symbol_length (inst : Nat) : (encodeSymbol inst).length = 8 := by
  rw [encodeSymbol, List.length_append, encode_digits_length]
  rfl

include firm

theorem written_formed (req : OuchRequest) (a : NormalizedOrderAction)
    (writes : Writes config a req) : req.WellFormed := by
  obtain ⟨temp, same⟩ := writes
  have token : (writeOrderToken temp (orderTokenOf config.tokenBase a)).length = 14 :=
    (write_order_token_field temp _).1
  cases req with
  | enter req =>
      rw [messageFor] at same
      split at same
      · cases same
      · have parts := OuchRequest.enter.inj same
        have type : req.msgType = ascii 'O' := congrArg EnterRequest.msgType parts
        have digits : req.orderToken = writeOrderToken temp _ := congrArg EnterRequest.orderToken parts
        have stock : req.stock = encodeSymbol (a.instrumentId % 2 ^ 16) := congrArg EnterRequest.stock parts
        have own : req.firm = config.firmId := congrArg EnterRequest.firm parts
        exact ⟨type, digits ▸ token, stock ▸ encode_symbol_length _, own ▸ firm⟩
  | cancel req =>
      rw [messageFor] at same
      split at same
      · have parts := OuchRequest.cancel.inj same
        have digits : req.orderToken = writeOrderToken temp _ := congrArg CancelRequest.orderToken parts
        exact ⟨congrArg CancelRequest.msgType parts, digits ▸ token⟩
      · cases same

omit config firm in
theorem enter_members (req : EnterRequest) (token : req.orderToken.length = 14)
    (stock : req.stock.length = 8) :
    OuchEnterOrder.orderToken ⟨req.members.flatten⟩ = req.orderToken ∧
    OuchEnterOrder.side ⟨req.members.flatten⟩ = req.side ∧
      OuchEnterOrder.shares ⟨req.members.flatten⟩ = req.shares % 2 ^ 32 ∧
      OuchEnterOrder.stock ⟨req.members.flatten⟩ = req.stock ∧
      OuchEnterOrder.price ⟨req.members.flatten⟩ = req.price % 2 ^ 32 := by
  have four (value : Nat) : littleEndian (littleEndianBytes 4 value) = value % 2 ^ 32 :=
    little_endian_round_trip 4 value
  have word := little_endian_bytes_length 4
  have count : req.members.length = 18 := rfl
  have orderToken := flatten_member req.members 1 (by omega)
  have side := flatten_member req.members 2 (by omega)
  have shares := flatten_member req.members 3 (by omega)
  have symbol := flatten_member req.members 4 (by omega)
  have price := flatten_member req.members 5 (by omega)
  simp only [EnterRequest.members, List.take_succ_cons, List.take_zero, List.length_flatten,
    List.map_cons, List.map_nil, List.sum_cons,
    List.sum_nil, List.getElem_cons_succ, List.getElem_cons_zero, token, word, stock, List.length_singleton]
    at orderToken side shares symbol price
  refine ⟨orderToken, ?_, ?_, symbol, ?_⟩
  · have first := congrArg List.head? side
    rw [List.head?_take, if_neg Nat.one_ne_zero, List.head?_drop] at first
    rw [OuchEnterOrder.side, List.getD_eq_getElem?_getD]
    exact congrArg (Option.getD · 0) first
  · exact (congrArg littleEndian shares).trans (four _)
  · exact (congrArg littleEndian price).trans (four _)

theorem request_decoded (req : OuchRequest) (a : NormalizedOrderAction)
    (writes : Writes config a req) (fits : ActionFits config a) :
    Requests config a (messageOf req.bytes) := by
  have formed := written_formed config firm req a writes
  obtain ⟨temp, same⟩ := writes
  have digits := decode_encode_token _ fits.token
  have field : writeOrderToken temp (orderTokenOf config.tokenBase a) = encodeOrderToken
    (orderTokenOf config.tokenBase a) := if_pos fits.token
  cases req with
  | enter req =>
      obtain ⟨type, token, eight, _⟩ := formed
      rw [messageFor] at same
      split at same
      · cases same
      · rename_i new
        have parts := OuchRequest.enter.inj same
        have number : req.orderToken = writeOrderToken temp _ := congrArg EnterRequest.orderToken parts
        have side : req.side = if a.isBuy then ascii 'B' else ascii 'S' := congrArg EnterRequest.side parts
        have shares : req.shares = a.quantity := congrArg EnterRequest.shares parts
        have stock : req.stock = encodeSymbol (a.instrumentId % 2 ^ 16) := congrArg EnterRequest.stock parts
        have price : req.price = a.price % 2 ^ 32 := congrArg EnterRequest.price parts
        obtain ⟨tokenRead, sideRead, sharesRead, stockRead, priceRead⟩ := enter_members req token eight
        have word : a.instrumentId % 2 ^ 16 = a.instrumentId :=
          Nat.mod_eq_of_lt (Nat.lt_trans fits.instrument (by decide))
        have symbol := (symbol_codec (encodeSymbol a.instrumentId) (encode_symbol_length _)
          a.instrumentId).mpr ⟨fits.instrument, rfl⟩
        have message : messageOf (OuchRequest.enter req).bytes = .enter ⟨req.members.flatten⟩ :=
          if_pos (congrArg some type)
        rw [message]
        refine ⟨by simpa using new, ?_, sideRead.trans side, ?_, ?_, ?_⟩
        · rw [tokenRead, number, field, digits]
        · rw [sharesRead, shares, Nat.mod_eq_of_lt fits.quantity]
        · rw [stockRead, stock, word, symbol.1]
        · rw [priceRead, price, Nat.mod_mod, Nat.mod_eq_of_lt fits.price]
  | cancel req =>
      obtain ⟨type, length⟩ := formed
      rw [messageFor] at same
      split at same
      · rename_i old
        have parts := OuchRequest.cancel.inj same
        have number : req.orderToken = writeOrderToken temp _ := congrArg CancelRequest.orderToken parts
        have other : ¬ (req.members.flatten.head? = some (ascii 'O')) := by
          rw [show req.members.flatten.head? = some req.msgType from rfl, type]
          decide
        have message : messageOf (OuchRequest.cancel req).bytes = .cancel ⟨req.members.flatten⟩ :=
          if_neg other
        have token : OuchCancelOrder.orderToken ⟨req.members.flatten⟩ = req.orderToken := by
          have read := flatten_member req.members 1 (by decide : 1 < 3)
          simp only [CancelRequest.members, List.take_succ_cons, List.take_zero,
            List.length_flatten, List.map_cons, List.map_nil, List.sum_cons,
            List.sum_nil, List.getElem_cons_succ, List.getElem_cons_zero, length] at read
          exact read
        rw [message]
        exact ⟨old, by rw [token, number, field, digits]⟩
      · cases same

end

def Standing (s : TcpSender) : Prop :=
  s.connected = true → ∃ earlier, s.serialised = earlier ++ s.pc.current.1 ∧
    s.wire = earlier.flatten ++ s.pc.current.1.flatten.take s.pc.current.2

theorem standing_loop (s : TcpSender) (earlier messages : List Bytes) (totalSent : Nat)
    (all : s.serialised = earlier ++ messages)
    (wire : s.wire = earlier.flatten ++ messages.flatten.take totalSent) :
    Standing { s with pc := .loop messages totalSent } := by
  refine fun _ => ?_
  dsimp only
  by_cases more : totalSent < messages.flatten.length
  · rw [loop_more messages totalSent more]
    exact ⟨earlier, all, wire⟩
  · rw [loop_done messages totalSent more]
    rw [List.take_of_length_le (Nat.le_of_not_lt more), ← List.flatten_append, ← all] at wire
    exact ⟨s.serialised, (List.append_nil _).symm, wire.trans (List.append_nil _).symm⟩

theorem standing_outcome (s : TcpSender) (messages : List Bytes) (totalSent : Nat)
    (outcome : SendOutcome) (inv : Standing s)
    (pc : s.pc = .sending messages totalSent) : Standing (s.onOutcome messages totalSent outcome) := by
  have current : s.pc.current = (messages, totalSent) := by rw [pc, SendBytesPc.current]
  cases outcome with
  | sent n =>
      intro stands
      obtain ⟨earlier, all, wire⟩ := inv stands
      rw [current] at all wire
      refine standing_loop { s with wire := s.wire ++ (messages.flatten.drop totalSent).take n }
        earlier messages (totalSent + n) all ?_ stands
      rw [wire, List.append_assoc, List.take_add]
  | wouldBlock =>
      simp only [TcpSender.onOutcome]
      split
      · split
        · exact inv
        · rename_i broken
          exact fun stands => absurd stands broken
      · exact inv
  | interrupted => exact inv
  | failed | closed => exact fun stands => by cases stands

theorem standing_step (before after : TcpSender) (label : SenderLabel) (inv : Standing before)
    (step : senderStep before label = .ok after) :
    Standing after := by
  cases label with
  | transmit messages =>
      simp only [senderStep] at step
      cases pc : before.pc with
      | idle =>
          rw [pc] at step
          cases step
          intro stands
          obtain ⟨earlier, all, wire⟩ := inv stands
          rw [pc, SendBytesPc.current, List.append_nil] at all
          rw [pc, SendBytesPc.current] at wire
          exact standing_loop { before with serialised := before.serialised ++ messages } earlier
            messages 0 (congrArg (· ++ messages) all) wire
            stands
      | sending current totalSent =>
          rw [pc] at step
          cases step
          exact inv
  | send outcome =>
      simp only [senderStep] at step
      cases pc : before.pc with
      | idle =>
          rw [pc] at step
          cases step
          exact inv
      | sending messages totalSent =>
          rw [pc] at step
          cases step
          exact standing_outcome before messages totalSent outcome inv pc
  | receiveFailed =>
      cases step
      exact fun stands => by cases stands

theorem sender_run_standing (labels : List SenderLabel) (s : TcpSender)
    (run : SenderRun .init labels s) (stands : s.connected = true)
    (idle : s.pc = .idle) : s.wire = s.serialised.flatten := by
  have inv : Standing s := by
    refine run_invariant Standing (fun _ => ⟨[], rfl, rfl⟩) ?_ labels s run
    rintro before label after inv ⟨_, step⟩
    exact standing_step before after label inv step
  obtain ⟨earlier, all, wire⟩ := inv stands
  rw [idle, SendBytesPc.current, List.append_nil] at all
  rw [idle, SendBytesPc.current] at wire
  rw [wire, all]
  simp

-- The thread that sends one message a call, or the one that gathers new orders
-- (and sends no cancel), and what each puts on a connection.
def turnOf (batched : Bool) : ConnectorConfig → Transmitter → Nat → TokenDigits → Checked Transmitter :=
  if batched then Transmitter.batchedTurn else Transmitter.directTurn

def carries (config : ConnectorConfig) (batched : Bool) (conn : Nat) : NormalizedOrderAction → Bool :=
  if batched then newToConn config conn else toConn config conn

section
variable (config : ConnectorConfig) (batched : Bool) (some : 1 ≤ config.numConnections)
  (batches : Nat → Nat → EnterRequest)
  (turns : List TransmitLabel) (t : Transmitter)
    (transmitted : TransmitRun config (turnOf batched) (.init batches) turns t)
include some transmitted

theorem wires_carry (conn : Nat) :
    ∃ sent waiting, t.enqueued.filter (carries config batched conn) = sent ++ waiting ∧
    List.Forall₂ (Writes config) sent (t.wires conn) ∧ (t.Finished → waiting = []) := by
  cases batched with
  | true =>
      obtain ⟨sent, split, written⟩ := (batched_run_rep config some batches turns t transmitted).kept conn
      refine ⟨sent.take (t.wires conn).length, sent.drop (t.wires conn).length ++
        t.orderQueue.filter (newToConn config conn), ?_,
        List.forall₂_take_append sent _ _ written, fun finished => ?_⟩
      · rw [← List.append_assoc, List.take_append_drop]
        exact split
      · rw [finished.2 conn, List.append_nil] at written
        rw [← written.length_eq, List.drop_length, finished.1]
        rfl
  | false =>
      obtain ⟨sent, split, written⟩ := (direct_run_rep config batches turns t transmitted).2 conn
      refine ⟨sent, t.orderQueue.filter (toConn config conn), split, written, fun finished => ?_⟩
      rw [finished.1]
      rfl

end

theorem carried_requests (config : ConnectorConfig) (firm : config.firmId.length = 4)
    (requests : List OuchRequest)
    (actions : List NormalizedOrderAction) (written : List.Forall₂ (Writes config) actions requests)
    (fits : ∀ a ∈ actions, ActionFits config a) :
    List.Forall₂ (Requests config) actions (requests.map fun req => messageOf req.bytes) := by
  induction written with
  | nil => exact .nil
  | cons writes _ ih =>
      obtain ⟨own, others⟩ := List.forall_mem_cons.mp fits
      exact .cons (request_decoded config firm _ _ writes own) (ih others)

theorem framed_read (messages : List Bytes) (wire : Bytes) (framed : Framed messages wire)
    (whole : ∀ raw ∈ messages, WholeFrame messageSize raw) :
    ∃ found fragment, found.Sublist messages ∧
    framesFrom messageSize 0 wire = (found, .pending fragment) := by
  obtain ⟨found, cut, rfl, ending⟩ := framed
  rcases ending with ⟨none_, order⟩ | ⟨next, order, inside, proper⟩
  · have all : ∀ raw ∈ found, WholeFrame messageSize raw := fun raw member => whole raw (order.subset member)
    exact ⟨found, cut, order, frames_cut messageSize found cut all (.inl none_)⟩
  · have all : ∀ raw ∈ found ++ [next], WholeFrame messageSize raw := fun raw member =>
      whole raw (order.subset member)
    have some_ : cut = [] ∨ ∃ next, WholeFrame messageSize next ∧ cut <+: next ∧ cut ≠ next :=
      .inr ⟨next, all next (by simp), inside, proper⟩
    have order' : found.Sublist messages := (List.sublist_append_left found [next]).trans order
    exact ⟨found, cut, order',
      frames_cut messageSize found cut
      (fun raw member => all raw (List.mem_append_left _ member)) some_⟩

theorem sublist_asked {α β : Type} (R : α → β → Prop) (sent requests : List β)
    (order : sent.Sublist requests) (actions : List α)
    (written : List.Forall₂ R actions requests) :
    ∃ asked : List α, asked.Sublist actions ∧ List.Forall₂ R asked sent := by
  induction order generalizing actions with
  | slnil => exact ⟨[], List.nil_sublist actions, .nil⟩
  | cons request _ ih =>
      cases written with
      | cons _ others =>
          obtain ⟨asked, within, same⟩ := ih _ others
          exact ⟨asked, within.cons _, same⟩
  | cons_cons request _ ih =>
      cases written with
      | cons own others =>
          obtain ⟨asked, within, same⟩ := ih _ others
          exact ⟨_, within.cons_cons _, .cons own same⟩

-- Orders on their way from the firm's connector to the gateway, over any number
-- of turns of the connector, any partial sends, failures and reads. What the
-- gateway handles was asked for: each message once, in order and with nothing
-- changed. On a connection that stands it is all that was asked for.
theorem order_entry_delivered (config : ConnectorConfig) (firm : config.firmId.length = 4)
    (some_ : 1 ≤ config.numConnections) (batched : Bool)
    (batches : Nat → Nat → EnterRequest) (turns : List TransmitLabel) (t : Transmitter)
    (transmitted : TransmitRun config (turnOf batched) (.init batches) turns t)
    (fits : ∀ a ∈ t.enqueued, ActionFits config a) (conn : Nat)
    (calls : List SenderLabel) (s : TcpSender) (sending : SenderRun .init calls s)
    (serialised : s.serialised = (t.wires conn).map OuchRequest.bytes) {ω : Type}
    (gateway : Gateway ω) (start : ω) (buffer : Nat → Byte)
    (schedule : List (List ReadCall)) :
    ∃ final, (Connection.accepted buffer s.wire start).serve gateway schedule = .ok final ∧
      (∀ offset, final.closed ≠ some (.unknownType offset)) ∧
      (∃ asked : List NormalizedOrderAction, asked.Sublist (t.enqueued.filter (carries config batched conn)) ∧
        List.Forall₂ (Requests config) asked final.decoded) ∧
      (s.connected = true → s.pc = .idle → Covers s.wire schedule ∨ final.socket = [] →
        t.Finished → List.Forall₂ (Requests config)
        (t.enqueued.filter (carries config batched conn)) final.decoded) := by
  obtain ⟨carried, waiting, split, written, nothing⟩ :=
    wires_carry config batched some_ batches turns t transmitted conn
  have inside : carried.Sublist (t.enqueued.filter (carries config batched conn)) :=
    split ▸ List.sublist_append_left carried waiting
  have fits' : ∀ a ∈ carried, ActionFits config a := fun a member =>
    fits a (List.mem_of_mem_filter (inside.subset member))
  have formed : ∀ req ∈ t.wires conn, WholeFrame messageSize req.bytes := by
    intro req member
    obtain ⟨asked, _, own⟩ := sublist_asked (Writes config) [req] _
      (List.singleton_sublist.mpr member) carried written
    cases own with
    | cons writes _ => exact request_whole req (written_formed config firm req _ writes)
  have whole : ∀ raw ∈ s.serialised, WholeFrame messageSize raw := by
    intro raw member
    obtain ⟨req, inside, rfl⟩ := List.mem_map.mp (serialised ▸ member)
    exact formed req inside
  have framed := sender_framed s (sender_run_inv calls s sending)
  obtain ⟨found, fragment, order, reading⟩ := framed_read s.serialised s.wire framed whole
  obtain ⟨final, done, standing⟩ := serve_spec gateway start s.wire schedule _ 0 none
    (accepted_stands gateway start s.wire buffer)
  obtain ⟨_, rest, decoded, _, _, ended, _⟩ := stands_agrees gateway start s.wire final _ _ standing
  have closed := standing.2.2.1
  have parts := List.take_append_drop (receivedOver s.wire schedule (0, none)).1 s.wire
  rw [← rest] at parts
  generalize s.wire.take (receivedOver s.wire schedule (0, none)).1 = consumed at decoded ended parts
  obtain ⟨early, held, pending⟩ := frames_early messageSize consumed final.socket found fragment
    (parts ▸ reading)
  have known : ∀ offset, final.closed ≠ some (.unknownType offset) := fun offset unknown =>
    nomatch pending.symm.trans ((ended offset).mp unknown)
  have everythingRead : Covers s.wire schedule ∨ final.socket = [] → final.socket = [] := by
    rintro (⟨some_, long⟩ | empty)
    · obtain ⟨offset, shut⟩ | ⟨_, far⟩ := received_over_covers s.wire schedule some_ 0
      · exact absurd (closed.trans shut) (known offset)
      · rw [rest]
        exact List.drop_eq_nil_of_le (by omega)
    · exact empty
  refine ⟨final, done, known, ?_, fun stands idle read finished => ?_⟩
  · have some_of : (framesFrom messageSize 0 consumed).1.Sublist ((t.wires conn).map OuchRequest.bytes) :=
      serialised ▸ early.sublist.trans order
    obtain ⟨sent, within, same⟩ := List.sublist_map_iff.mp some_of
    obtain ⟨asked, below, requests⟩ := sublist_asked (Writes config) sent _ within carried written
    refine ⟨asked, below.trans inside, ?_⟩
    rw [decoded, ouchStream, same, List.map_map]
    exact carried_requests config firm sent asked requests fun a member => fits' a (below.subset member)
  · have drained := everythingRead read
    have all : s.wire = s.serialised.flatten := sender_run_standing calls s sending stands idle
    have everything : framesFrom messageSize 0 consumed = (s.serialised, .pending []) := by
      have whole' : consumed = s.serialised.flatten ++ [] := by
        rw [List.append_nil, ← all, ← parts, drained, List.append_nil]
      rw [whole']
      exact frames_cut messageSize s.serialised [] whole (.inl rfl)
    rw [split, nothing finished, List.append_nil, decoded, ouchStream, everything, serialised, List.map_map]
    exact carried_requests config firm (t.wires conn) carried written fits'

def sampleActions : List NormalizedOrderAction := [sampleAction 1 false, sampleAction 2 true]

def frameOf (a : NormalizedOrderAction) : Bytes := (messageFor oneConnection noDigits a).bytes

theorem split_order_delivered :
    ∃ final, (Connection.accepted (fun _ => 0) (sampleActions.flatMap frameOf) ()).serve
        ⟨fun w _ => Option.some w, fun w _ => w, fun w _ => w, fun w _ => w⟩
        [[.bytes 85], [.bytes 15]] = .ok final ∧
    List.Forall₂ (Requests oneConnection) sampleActions final.decoded := by
  let turns : List TransmitLabel :=
    [.enqueue (sampleAction 1 false), .turn 0 noDigits, .enqueue (sampleAction 2 true), .turn 0 noDigits]
  let calls : List SenderLabel := [.transmit [frameOf (sampleAction 1 false)], .send (.sent 50),
    .send .wouldBlock, .send (.sent 31),
    .transmit [frameOf (sampleAction 2 true)], .send (.sent 19)]
  let schedule : List (List ReadCall) := [[.bytes 85], [.bytes 15]]
  have moved : (execute (fun _ _ => True) (transmitStep oneConnection Transmitter.directTurn)
    (.init blankBatches) turns).map
      (fun t => (t.orderQueue, t.enqueued, t.wires 0)) =
      some ([], sampleActions, sampleActions.map (messageFor oneConnection noDigits)) := by decide
  obtain ⟨t, resultT, facts⟩ := Option.map_eq_some_iff.mp moved
  have drained : t.orderQueue = [] := congrArg Prod.fst facts
  have enqueued : t.enqueued = sampleActions := congrArg (·.2.1) facts
  have wires : t.wires 0 = sampleActions.map (messageFor oneConnection noDigits) := congrArg (·.2.2) facts
  have transmitted : TransmitRun oneConnection (turnOf false) (.init blankBatches) turns t :=
    execute_run _ _ turns _ t resultT
  have sent : (execute (fun s label => SendContract s label ∧ NothingAfterCut s label)
    senderStep .init calls) =
      some ⟨true, .idle, sampleActions.flatMap frameOf, sampleActions.map frameOf, false⟩ := by decide +kernel
  have sending := execute_run _ senderStep calls .init _ sent
  have fits : ∀ a ∈ t.enqueued, ActionFits oneConnection a := by
    rw [enqueued]
    exact List.forall_mem_cons.mpr ⟨⟨by decide, by decide, by decide, by decide⟩,
      List.forall_mem_cons.mpr ⟨⟨by decide, by decide, by decide, by decide⟩, fun _ none_ => by cases none_⟩⟩
  obtain ⟨final, done, _, _, all⟩ := order_entry_delivered oneConnection rfl
    (by decide) false blankBatches turns t transmitted fits 0 calls _ sending
    (by rw [wires, List.map_map]; rfl) ⟨fun w _ => some w, fun w _ => w, fun w _ => w, fun w _ => w⟩
      () (fun _ => 0) schedule
  have read : ((Connection.accepted (fun _ => 0) (sampleActions.flatMap frameOf) ()).serve
      ⟨fun w _ => some w, fun w _ => w, fun w _ => w, fun w _ => w⟩ schedule).toOption.map
        (·.socket) = some [] := by decide +kernel
  have empty : final.socket = [] := by
    rw [done] at read
    exact Option.some.inj read
  have finished : t.Finished := ⟨drained, (direct_run_rep oneConnection blankBatches turns t transmitted).1⟩
  have delivered := all rfl rfl (.inr empty) finished
  have same : sampleActions.filter (carries oneConnection false 0) = sampleActions := by decide
  rw [enqueued, same] at delivered
  exact ⟨final, done, delivered⟩

end HftExchange
