import HftExchange.Gateway.Inbound

set_option autoImplicit false

namespace HftExchange

open Base

def messageOf (raw : Bytes) : ClientMessage :=
  if raw.head? = some (ascii 'O') then .enter ⟨raw⟩ else .cancel ⟨raw⟩

-- The one-shot reading of a byte stream: a maximal sequence of 81-byte 'O' and
-- 19-byte 'X' frames, up to the first other type byte.
def ouchStream (stream : Bytes) : List ClientMessage × Ending Byte :=
  let result := framesFrom messageSize 0 stream
  (result.1.map messageOf, result.2)

-- The space that read() is offered once this much of the stream is consumed:
-- all but the cut frame that is kept.
def offered (consumed : Bytes) : Nat := inBufferSize - (ouchStream consumed).2.held.length

-- How far into its stream the reads of one call take a connection, and why it
-- is closed if it is.
def received (stream : Bytes) : List ReadCall → Nat → Nat × Option CloseCause
  | [], place => (place, none)
  | .endOfStream :: _, place => (place, some .endOfStream)
  | .failed :: _, place => (place, some .readError)
  | .bytes count :: rest, place =>
      let n := min count (min (offered (stream.take place)) (stream.length - place))
      if n = 0 then (place, none)
      else
        match (ouchStream (stream.take (place + n))).2 with
        | .unknown offset => (place + n, some (.unknownType offset))
        | .pending _ => received stream rest (place + n)

def receivedOver (stream : Bytes) (schedule : List (List ReadCall))
    (at_ : Nat × Option CloseCause) : Nat × Option CloseCause :=
  schedule.foldl (fun at_ calls => if at_.2 = none then received stream calls at_.1 else at_) at_

-- Every read brings some bytes, and all of them together bring the stream even
-- if the buffer always keeps the longest cut frame.
def Covers (stream : Bytes) (schedule : List (List ReadCall)) : Prop :=
  (∀ call ∈ schedule.flatten, ∃ count, 0 < count ∧ call = .bytes count) ∧
    stream.length ≤ (schedule.flatten.map (ReadCall.share (inBufferSize - OuchEnterOrder.size))).sum

def Gateway.handle {ω : Type} (gateway : Gateway ω) (world : ω) : ClientMessage → ω
  | .enter req =>
      if safeToAdmit req then
        match gateway.allocate world req with
        | none => gateway.reject world req
        | some world => gateway.submit world req
      else gateway.reject world req
  | .cancel req => gateway.cancel world req

def Connection.consume {ω : Type} (gateway : Gateway ω) (c : Connection ω) (message : ClientMessage)
    (size : Nat) : Connection ω :=
  { c with
    decoded := c.decoded ++ [message]
    world := gateway.handle c.world message
    inbound := c.inbound.skip size }

theorem message_size_bound (msgType : Byte) (size : Nat) (known : messageSize msgType = some size) :
    0 < size ∧ size ≤ OuchEnterOrder.size := by
  unfold messageSize at known
  split at known
  · cases known
    decide
  · split at known
    · cases known
      decide
    · cases known

section
variable {ω : Type} (gateway : Gateway ω) (start : ω) (stream : Bytes)

theorem handle_enter_consumes (c : Connection ω) (req : OuchEnterOrder) :
    c.handleEnter gateway req = c.consume gateway (.enter req) OuchEnterOrder.size := by
  simp only [Connection.handleEnter, Connection.consume, Gateway.handle]
  split
  · cases gateway.allocate c.world req with
    | none => rfl
    | some world => rfl
  · rfl

theorem message_branch (fuel : Nat) (c : Connection ω) (b : Byte) (size : Nat)
    (known : messageSize b = some size) (raw : Bytes)
    (loaded : loadBlock inBufferSize c.inbound.buffer c.inbound.readPos size = .ok raw)
    (first : raw.head? = some b) :
    (if b = ascii 'O' then do
        let raw ← loadBlock inBufferSize c.inbound.buffer c.inbound.readPos OuchEnterOrder.size
        Connection.parseLoop gateway fuel (c.handleEnter gateway ⟨raw⟩)
      else do
        let raw ← loadBlock inBufferSize c.inbound.buffer c.inbound.readPos OuchCancelOrder.size
        Connection.parseLoop gateway fuel (c.handleCancel gateway ⟨raw⟩)) =
      (c.consume gateway (messageOf raw) size).parseLoop gateway fuel := by
  unfold messageSize at known
  split at known
  · rename_i enter
    cases known
    rw [if_pos enter, loaded, checked_bind_ok, handle_enter_consumes, messageOf, if_pos (enter ▸ first)]
  · rename_i notEnter
    split at known
    · cases known
      have other : raw.head? ≠ some (ascii 'O') := by
        rw [first]
        exact fun same => notEnter (Option.some.inj same)
      rw [if_neg notEnter, loaded, checked_bind_ok, messageOf, if_neg other]
      rfl
    · cases known

structure Parsed (c : Connection ω) (found : List Bytes) (fragment : Bytes) : Prop where
  ordered : c.inbound.readPos ≤ c.inbound.writePos
  room : c.inbound.writePos ≤ inBufferSize
  held : block c.inbound.buffer c.inbound.readPos (c.inbound.writePos - c.inbound.readPos) = fragment
  place : c.inbound.base + c.inbound.readPos = found.flatten.length
  decoded : c.decoded = found.map messageOf
  world : c.world = c.decoded.foldl gateway.handle start
  whole : found.flatten ++ fragment ++ c.socket = stream
  opened : c.closed = none

section
variable (c : Connection ω) (found : List Bytes) (fragment : Bytes)
  (parsed : Parsed gateway start stream c found fragment)
include parsed

theorem parsed_available : sizeSub c.inbound.writePos c.inbound.readPos = fragment.length := by
  have room := parsed.room
  rw [size_sub_eq _ _ parsed.ordered (by rw [inBufferSize] at room; omega), ← parsed.held, block_length]

theorem parsed_length : fragment.length = c.inbound.writePos - c.inbound.readPos := by
  rw [← parsed.held, block_length]

theorem consume_parsed (raw rest : Bytes) (split : fragment = raw ++ rest) :
    Parsed gateway start stream (c.consume gateway (messageOf raw) raw.length) (found ++ [raw]) rest := by
  have length := parsed_length gateway start stream c found fragment parsed
  have ordered := parsed.ordered
  subst split
  rw [List.length_append] at length
  refine ⟨?_, parsed.room, ?_, ?_, ?_, ?_, ?_, parsed.opened⟩
  · simp only [Connection.consume, Inbound.skip]
    omega
  · simp only [Connection.consume, Inbound.skip]
    have dropped := congrArg (List.drop raw.length) parsed.held
    rw [block_drop _ _ _ _ (by omega), List.drop_left] at dropped
    rwa [Nat.sub_sub] at dropped
  · simp only [Connection.consume, Inbound.skip, List.flatten_append, List.flatten_singleton,
      List.length_append]
    rw [← Nat.add_assoc, parsed.place]
  · simp [Connection.consume, parsed.decoded]
  · simp [Connection.consume, parsed.world]
  · rw [← parsed.whole]
    simp [Connection.consume]

end

theorem parse_loop_spec (fuel : Nat) (c : Connection ω) (found : List Bytes) (fragment : Bytes)
    (parsed : Parsed gateway start stream c found fragment) (enough : fragment.length < fuel) :
    ∃ next, c.parseLoop gateway fuel = .ok next ∧ next.socket = c.socket ∧
      next.decoded = (found ++ (framesFrom messageSize found.flatten.length fragment).1).map messageOf ∧
      next.world = next.decoded.foldl gateway.handle start ∧
      match (framesFrom messageSize found.flatten.length fragment).2 with
      | .pending rest =>
          Parsed gateway start stream next
            (found ++ (framesFrom messageSize found.flatten.length fragment).1) rest
      | .unknown offset => next.closed = some (.unknownType offset) := by
  induction fuel generalizing c found fragment with
  | zero => omega
  | succ fuel ih =>
      have available := parsed_available gateway start stream c found fragment parsed
      have length := parsed_length gateway start stream c found fragment parsed
      have room := parsed.room
      rw [Connection.parseLoop, available]
      cases bytes : fragment with
      | nil =>
          rw [frames_short messageSize _ [] rfl]
          subst bytes
          exact ⟨c, by simp, rfl, by simp [parsed.decoded], parsed.world, by simpa using parsed⟩
      | cons b tail =>
          have positive : 0 < c.inbound.writePos - c.inbound.readPos := by
            rw [← length, bytes]
            exact Nat.succ_pos _
          have head : c.inbound.buffer c.inbound.readPos = b := by
            have held := parsed.held
            obtain ⟨count, same⟩ := Nat.exists_eq_add_of_lt positive
            rw [bytes, same, Nat.zero_add, block] at held
            exact (List.cons.inj held).1
          have inside : c.inbound.readPos < inBufferSize := by omega
          rw [bytes] at parsed enough length
          simp only [List.length_cons, Nat.le_add_left, if_true, fetch_ok _ _ _ inside, checked_bind_ok, head]
          cases known : messageSize b with
          | none =>
              rw [frames_foreign messageSize _ (b :: tail) (by simp [front, known])]
              exact ⟨_, rfl, rfl, by simp [Connection.close, parsed.decoded], parsed.world,
                by simp [Connection.close, parsed.place]⟩
          | some size =>
              obtain ⟨sizePositive, _⟩ := message_size_bound b size known
              by_cases short : tail.length + 1 < size
              · rw [frames_short messageSize _ (b :: tail) (by simp [front, known]; omega)]
                exact ⟨c, by simp [short], rfl, by simp [parsed.decoded], parsed.world, by simpa using parsed⟩
              · have split : front messageSize (b :: tail) = .frame ((b :: tail).take size)
                    ((b :: tail).drop size) := by
                  rw [front, known]
                  simp only [List.length_cons]
                  rw [if_pos (by omega)]
                have rawLength : ((b :: tail).take size).length = size := by
                  rw [List.length_take, List.length_cons]
                  omega
                have raw : block c.inbound.buffer c.inbound.readPos size = (b :: tail).take size := by
                  rw [← parsed.held, block_take _ _ _ _ (by rw [← length, List.length_cons]; omega)]
                have bound : c.inbound.readPos + size ≤ inBufferSize := by
                  rw [List.length_cons] at length
                  omega
                have after := consume_parsed gateway start stream c found (b :: tail) parsed _ _
                  (List.take_append_drop size _).symm
                rw [rawLength] at after
                have shorter : ((b :: tail).drop size).length < fuel := by
                  rw [List.length_drop]
                  omega
                obtain ⟨next, result, socket, decoded, world, ending⟩ := ih _ _ _ after shorter
                have offset : (found ++ [(b :: tail).take size]).flatten.length =
                    found.flatten.length + ((b :: tail).take size).length := by
                  simp
                rw [offset] at decoded ending
                rw [frames_frame messageSize _ _ _ _ split]
                refine ⟨next, ?_, socket, by simpa using decoded, world, by simpa using ending⟩
                have nonempty : ((b :: tail).take size).head? = some b := by
                  rw [List.head?_take, if_neg (Nat.ne_of_gt sizePositive)]
                  rfl
                simp only [if_neg short]
                rw [← result]
                exact message_branch gateway fuel c b size known _
                  (by rw [load_block_ok _ _ _ _ bound, raw]) nonempty

theorem reclaim_parsed (c : Connection ω) (found : List Bytes) (fragment : Bytes)
    (parsed : Parsed gateway start stream c found fragment) :
    ∃ st, c.inbound.reclaim = .ok st ∧ Parsed gateway start stream
    { c with inbound := st } found fragment ∧ st.readPos = 0 ∧
      st.writePos = fragment.length := by
  have length := parsed_length gateway start stream c found fragment parsed
  have available := parsed_available gateway start stream c found fragment parsed
  have ordered := parsed.ordered
  have room := parsed.room
  unfold Inbound.reclaim
  split
  · rename_i consumed
    have empty : fragment = [] := List.eq_nil_of_length_eq_zero (by omega)
    refine ⟨_, rfl, ⟨Nat.le_refl _, Nat.zero_le _, ?_, parsed.place, parsed.decoded, parsed.world,
      parsed.whole, parsed.opened⟩, rfl, ?_⟩
    · rw [empty]
      rfl
    · rw [empty]
      rfl
  · split
    · simp only [available, move_block_ok inBufferSize c.inbound.buffer 0 c.inbound.readPos
        fragment.length (by omega) (by omega)]
      refine ⟨_, rfl, ⟨Nat.zero_le _, ?_, ?_, parsed.place, parsed.decoded, parsed.world,
        parsed.whole, parsed.opened⟩, rfl, rfl⟩
      · simp only
        omega
      · have moved := block_patch c.inbound.buffer 0 fragment
        simp only [Nat.sub_zero, length, parsed.held]
        rwa [← length]
    · rename_i front
      exact ⟨_, rfl, parsed, by omega, by omega⟩

theorem read_parsed (c : Connection ω) (found : List Bytes) (fragment : Bytes)
    (parsed : Parsed gateway start stream c found fragment)
    (n : Nat) (space : c.inbound.writePos + n ≤ inBufferSize) (there : n ≤ c.socket.length) :
    Parsed gateway start stream { c with
      inbound := { c.inbound with
        buffer := patch c.inbound.buffer c.inbound.writePos (c.socket.take n), writePos :=
          c.inbound.writePos + n }
      socket := c.socket.drop n } found (fragment ++ c.socket.take n) := by
  have ordered := parsed.ordered
  have count : (c.socket.take n).length = n := List.length_take_of_le there
  refine ⟨?_, space, ?_, parsed.place, parsed.decoded, parsed.world, ?_, parsed.opened⟩
  · simp only
    omega
  · simp only
    rw [Nat.sub_add_comm ordered, block_append, Nat.add_sub_cancel' ordered,
      block_patch_before _ _ _ _ _ (Nat.le_of_eq (Nat.add_sub_cancel' ordered)), parsed.held]
    have written := block_patch c.inbound.buffer c.inbound.writePos (c.socket.take n)
    rw [count] at written
    rw [written]
  · rw [← parsed.whole]
    simp

def Waiting (c : Connection ω) : Prop :=
  ∃ found fragment, Parsed gateway start stream c found fragment ∧
    framesFrom messageSize 0 (found.flatten ++ fragment) = (found, .pending fragment)

structure Agrees (c : Connection ω) (place : Nat) : Prop where
  inside : place ≤ stream.length
  rest : c.socket = stream.drop place
  decoded : c.decoded = (ouchStream (stream.take place)).1
  handled : c.world = c.decoded.foldl gateway.handle start
  notFull : c.closed ≠ some .bufferFull
  closed : ∀ offset, c.closed = some (.unknownType offset) ↔
    (ouchStream (stream.take place)).2 = .unknown offset
  kept : ∀ fragment, (ouchStream (stream.take place)).2 = .pending fragment →
    block c.inbound.buffer c.inbound.readPos (c.inbound.writePos - c.inbound.readPos) = fragment

def StandsAt (c : Connection ω) (place : Nat) (cause : Option CloseCause) : Prop :=
  place ≤ stream.length ∧ c.socket = stream.drop place ∧ c.closed = cause ∧
    (cause = none ∧ Waiting gateway start stream c ∨ cause ≠ none ∧ Agrees gateway start stream c place)

theorem parsed_consumed (c : Connection ω) (found : List Bytes) (fragment : Bytes)
    (parsed : Parsed gateway start stream c found fragment)
    (place : Nat) (rest : c.socket = stream.drop place) : found.flatten ++ fragment = stream.take place := by
  have whole := parsed.whole
  rw [rest] at whole
  exact List.append_cancel_right (whole.trans (List.take_append_drop place stream).symm)

theorem waiting_agrees (c : Connection ω) (found : List Bytes) (fragment : Bytes)
    (parsed : Parsed gateway start stream c found fragment)
    (reading : framesFrom messageSize 0 (found.flatten ++ fragment) = (found, .pending fragment))
    (place : Nat)
    (inside : place ≤ stream.length) (rest : c.socket = stream.drop place) (cause : Option CloseCause)
    (ordinary : cause ≠ some .bufferFull ∧ ∀ offset, cause ≠ some (.unknownType offset)) :
    Agrees gateway start stream { c with closed := cause } place := by
  have consumed := parsed_consumed gateway start stream c found fragment parsed place rest
  refine ⟨inside, rest, ?_, parsed.world, ordinary.1, fun offset => ?_, fun rest same => ?_⟩
  · rw [← consumed, ouchStream, reading, parsed.decoded]
  · rw [← consumed, ouchStream, reading]
    simp [ordinary.2 offset]
  · rw [← consumed, ouchStream, reading] at same
    cases same
    exact parsed.held

theorem fragment_small (consumed : Bytes) : (ouchStream consumed).2.held.length < OuchEnterOrder.size := by
  have positive : 0 < OuchEnterOrder.size := by decide
  cases reading : framesFrom messageSize 0 consumed with
  | mk found ending =>
      rw [ouchStream, reading]
      cases ending with
      | unknown offset => exact positive
      | pending fragment =>
          obtain ⟨_, short⟩ := frames_pending messageSize consumed 0 found fragment reading
          by_cases empty : fragment = []
          · subst empty
            exact positive
          · exact short_bounded messageSize OuchEnterOrder.size message_size_bound fragment short empty

theorem offered_bound (consumed : Bytes) : inBufferSize - OuchEnterOrder.size < offered consumed := by
  have small := fragment_small consumed
  have sizes : OuchEnterOrder.size < inBufferSize := by decide
  unfold offered
  omega

theorem offer_spec (c : Connection ω) (waiting : Waiting gateway start stream c) (place : Nat)
    (rest : c.socket = stream.drop place) :
    ∃ st found fragment, c.inbound.reclaim = .ok st ∧ Parsed gateway start stream
    { c with inbound := st } found fragment ∧
      framesFrom messageSize 0 (found.flatten ++ fragment) = (found, .pending fragment) ∧
      sizeSub inBufferSize st.writePos = offered (stream.take place) ∧
        st.writePos + offered (stream.take place) = inBufferSize := by
  obtain ⟨found, fragment, parsed, reading⟩ := waiting
  obtain ⟨st, reclaimed, parsed', _, used⟩ := reclaim_parsed gateway start stream c found fragment parsed
  have consumed := parsed_consumed gateway start stream c found fragment parsed place rest
  have held : (ouchStream (stream.take place)).2.held = fragment := by
    rw [← consumed, ouchStream, reading]
    rfl
  have small := fragment_small (stream.take place)
  have sizes : OuchEnterOrder.size < inBufferSize := by decide
  rw [held] at small
  have space : offered (stream.take place) = inBufferSize - st.writePos := by rw [offered, held, used]
  refine ⟨st, found, fragment, reclaimed, parsed', reading, ?_, ?_⟩
  · rw [space]
    exact size_sub_eq _ _ (by omega) (by decide)
  · omega

theorem fill_spec (c : Connection ω) (found : List Bytes) (fragment : Bytes)
    (parsed : Parsed gateway start stream c found fragment)
    (reading : framesFrom messageSize 0 (found.flatten ++ fragment) = (found, .pending fragment))
    (n place : Nat)
    (space : c.inbound.writePos + n ≤ inBufferSize) (inside : place + n ≤ stream.length)
    (rest : c.socket = stream.drop place) :
    ∃ next, Connection.parseLoop gateway Connection.parseFuel { c with
        inbound := { c.inbound with
          buffer := patch c.inbound.buffer c.inbound.writePos (c.socket.take n), writePos :=
            c.inbound.writePos + n }
        socket := c.socket.drop n } = .ok next ∧
      StandsAt gateway start stream next (place + n)
        (match (ouchStream (stream.take (place + n))).2 with
          | .unknown offset => some (.unknownType offset)
          | .pending _ => none) := by
  have there : n ≤ c.socket.length := by
    rw [rest, List.length_drop]
    omega
  have filled := read_parsed gateway start stream c found fragment parsed n space there
  have length := parsed_length gateway start stream _ found _ filled
  obtain ⟨next, result, socket, decoded, world, ending⟩ :=
    parse_loop_spec gateway start stream Connection.parseFuel _ found _ filled
    (by
      simp only at length
      rw [Connection.parseFuel]
      omega)
  have left : next.socket = stream.drop (place + n) := by rw [socket, rest, List.drop_drop]
  have whole := frames_append messageSize (found.flatten ++ fragment) 0 (c.socket.take n)
  have consumed := parsed_consumed gateway start stream _ found _ filled (place + n) (socket.symm.trans left)
  rw [reading] at whole
  simp only [Nat.zero_add, List.append_assoc] at whole
  rw [← List.append_assoc, List.append_assoc, consumed] at whole
  refine ⟨next, result, inside, left, ?_⟩
  cases outcome : framesFrom messageSize found.flatten.length (fragment ++ c.socket.take n) with
  | mk more last =>
      rw [outcome] at whole decoded ending
      cases last with
      | pending rest =>
          have open_ : (ouchStream (stream.take (place + n))).2 = .pending rest := by rw [ouchStream, whole]
          rw [open_]
          refine ⟨ending.opened, .inl ⟨rfl, found ++ more, rest, ending, ?_⟩⟩
          obtain ⟨split, _⟩ := frames_pending messageSize _ _ more rest outcome
          rw [List.flatten_append, List.append_assoc, ← split, consumed]
          exact whole
      | unknown offset =>
          have foreign : (ouchStream (stream.take (place + n))).2 = .unknown offset :=
            by rw [ouchStream, whole]
          rw [foreign]
          refine ⟨ending, .inr ⟨by simp, inside, left, ?_, world, ?_, fun other => ?_, fun rest same => ?_⟩⟩
          · rw [ouchStream, whole, decoded]
          · rw [ending]
            simp
          · rw [ending, foreign]
            simp
          · rw [foreign] at same
            cases same

theorem read_loop_spec (calls : List ReadCall) (c : Connection ω)
    (waiting : Waiting gateway start stream c) (place : Nat)
    (inside : place ≤ stream.length) (rest : c.socket = stream.drop place) :
    ∃ next, c.readLoop gateway calls = .ok next ∧
      StandsAt gateway start stream next (received stream calls place).1 (received stream calls place).2 := by
  induction calls generalizing c place with
  | nil =>
      obtain ⟨st, found, fragment, reclaimed, parsed, reading, space, room⟩ :=
        offer_spec gateway start stream c waiting place rest
      have some_ : offered (stream.take place) ≠ 0 :=
        Nat.ne_of_gt (Nat.lt_of_le_of_lt (Nat.zero_le _) (offered_bound _))
      exact ⟨{ c with inbound := st }, by simp [Connection.readLoop, reclaimed, space, some_],
        inside, rest, parsed.opened, .inl ⟨rfl, found, fragment, parsed, reading⟩⟩
  | cons call calls ih =>
      obtain ⟨st, found, fragment, reclaimed, parsed, reading, space, room⟩ :=
        offer_spec gateway start stream c waiting place rest
      have some_ : offered (stream.take place) ≠ 0 :=
        Nat.ne_of_gt (Nat.lt_of_le_of_lt (Nat.zero_le _) (offered_bound _))
      cases call with
      | endOfStream =>
          refine ⟨({ c with inbound := st } : Connection ω).close .endOfStream,
            by simp [Connection.readLoop, reclaimed, space, some_],
            inside, rest, rfl, .inr ⟨by simp [received], ?_⟩⟩
          exact waiting_agrees gateway start stream _ found fragment parsed reading place inside
            rest (some .endOfStream) (by simp)
      | failed =>
          refine ⟨({ c with inbound := st } : Connection ω).close .readError,
            by simp [Connection.readLoop, reclaimed, space, some_],
            inside, rest, rfl, .inr ⟨by simp [received], ?_⟩⟩
          exact waiting_agrees gateway start stream _ found fragment parsed reading place inside
            rest (some .readError) (by simp)
      | bytes count =>
          have size : c.socket.length = stream.length - place := by rw [rest, List.length_drop]
          rw [received]
          by_cases nothing : min count (min (offered (stream.take place)) (stream.length - place)) = 0
          · rw [if_pos nothing]
            refine ⟨{ c with inbound := st }, ?_, inside, rest, parsed.opened,
              .inl ⟨rfl, found, fragment, parsed, reading⟩⟩
            rw [Connection.readLoop, reclaimed, checked_bind_ok]
            dsimp only
            rw [space, if_neg some_, size, if_pos nothing]
            rfl
          · rw [if_neg nothing]
            generalize amount : min count
              (min (offered (stream.take place)) (stream.length - place)) = n at nothing
            have fits : st.writePos + n ≤ inBufferSize := by omega
            have chunk : st.writePos + (c.socket.take n).length ≤ inBufferSize := by
              rw [List.length_take]
              omega
            obtain ⟨next, result, inside', rest', closed, outcome⟩ :=
              fill_spec gateway start stream _ found fragment parsed reading n place
              fits (by omega) rest
            have loop : c.readLoop gateway (.bytes count :: calls) =
                if next.closed = none then next.readLoop gateway calls else .ok next := by
              rw [Connection.readLoop, reclaimed, checked_bind_ok]
              dsimp only
              rw [space, if_neg some_, size, amount, if_neg nothing, store_block_ok _ _ _ _ chunk,
                checked_bind_ok, result, checked_bind_ok]
              rfl
            cases ending : (ouchStream (stream.take (place + n))).2 with
            | unknown offset =>
                rw [ending] at closed outcome
                exact ⟨next, by rw [loop, closed]; rfl, inside', rest', closed, outcome⟩
            | pending fragment =>
                rw [ending] at closed outcome
                rcases outcome with ⟨_, waiting⟩ | ⟨shut, _⟩
                · obtain ⟨final, done, last⟩ := ih next waiting (place + n) inside' rest'
                  exact ⟨final, by rw [loop, if_pos closed, done], last⟩
                · exact absurd rfl shut

theorem serve_spec (schedule : List (List ReadCall)) (c : Connection ω) (place : Nat)
    (cause : Option CloseCause)
    (standing : StandsAt gateway start stream c place cause) :
    ∃ final, c.serve gateway schedule = .ok final ∧
      StandsAt gateway start stream final (receivedOver stream schedule (place, cause)).1
      (receivedOver stream schedule (place, cause)).2 := by
  induction schedule generalizing c place cause with
  | nil => exact ⟨c, rfl, standing⟩
  | cons calls rest ih =>
      obtain ⟨inside, socket, closed, state⟩ := standing
      rcases state with ⟨rfl, waiting⟩ | ⟨shut, agrees⟩
      · obtain ⟨next, result, outcome⟩ :=
          read_loop_spec gateway start stream calls c waiting place inside socket
        obtain ⟨final, done, last⟩ := ih next _ _ outcome
        refine ⟨final, ?_, last⟩
        rw [Connection.serve, List.foldlM_cons, Connection.handleClient, if_pos closed, result]
        exact done
      · obtain ⟨final, done, last⟩ := ih c place cause ⟨inside, socket, closed, .inr ⟨shut, agrees⟩⟩
        refine ⟨final, ?_, ?_⟩
        · rw [Connection.serve, List.foldlM_cons, Connection.handleClient, if_neg (closed ▸ shut)]
          exact done
        · rw [receivedOver, List.foldl_cons, if_neg shut]
          exact last

theorem stands_agrees (c : Connection ω) (place : Nat) (cause : Option CloseCause)
    (standing : StandsAt gateway start stream c place cause) : Agrees gateway start stream c place := by
  obtain ⟨inside, rest, closed, ⟨rfl, found, fragment, parsed, reading⟩ | ⟨_, agrees⟩⟩ := standing
  · exact waiting_agrees gateway start stream c found fragment parsed reading place inside rest
      c.closed (by simp [closed])
  · exact agrees

theorem accepted_stands (buffer : Nat → Byte) :
    StandsAt gateway start stream (Connection.accepted buffer stream start) 0 none := by
  refine ⟨Nat.zero_le _, rfl, rfl, .inl ⟨rfl, [], [], ?_, frames_short messageSize 0 [] rfl⟩⟩
  exact ⟨Nat.le_refl _, Nat.zero_le _, rfl, rfl, rfl, rfl, rfl, rfl⟩

theorem received_covers (calls : List ReadCall) (some_ : ∀ call ∈ calls, ∃ count, 0 < count ∧
    call = .bytes count) (place : Nat) :
    (∃ offset, (received stream calls place).2 = some (.unknownType offset)) ∨
      (received stream calls place).2 = none ∧
        min stream.length (place + (calls.map
          (ReadCall.share (inBufferSize - OuchEnterOrder.size))).sum) ≤
          (received stream calls place).1 := by
  induction calls generalizing place with
  | nil => exact .inr ⟨rfl, Nat.min_le_right _ _⟩
  | cons call calls ih =>
      obtain ⟨own, later⟩ := List.forall_mem_cons.mp some_
      obtain ⟨count, positive, rfl⟩ := own
      have space := offered_bound (stream.take place)
      rw [received]
      generalize amount : min count (min (offered (stream.take place)) (stream.length - place)) = n
      simp only [List.map_cons, List.sum_cons, ReadCall.share]
      by_cases nothing : n = 0
      · rw [if_pos nothing]
        exact .inr ⟨rfl, by simp only; omega⟩
      · rw [if_neg nothing]
        cases ending : (ouchStream (stream.take (place + n))).2 with
        | unknown offset => exact .inl ⟨offset, rfl⟩
        | pending fragment =>
            refine (ih later (place + n)).imp_right fun ⟨opened, far⟩ => ⟨opened, Nat.le_trans ?_ far⟩
            omega

theorem received_over_covers (schedule : List (List ReadCall))
    (some_ : ∀ call ∈ schedule.flatten, ∃ count, 0 < count ∧ call = .bytes count) (place : Nat) :
    (∃ offset, (receivedOver stream schedule (place, none)).2 = some (.unknownType offset)) ∨
      (receivedOver stream schedule (place, none)).2 = none ∧
        min stream.length (place + (schedule.flatten.map
          (ReadCall.share (inBufferSize - OuchEnterOrder.size))).sum) ≤
          (receivedOver stream schedule (place, none)).1 := by
  induction schedule generalizing place with
  | nil => exact .inr ⟨rfl, Nat.min_le_right _ _⟩
  | cons calls rest ih =>
      have own := received_covers stream calls
        (fun call member => some_ call (List.mem_append_left _ member)) place
      rw [receivedOver, List.foldl_cons, if_pos rfl]
      rcases own with ⟨offset, closed⟩ | ⟨opened, far⟩
      · refine .inl ⟨offset, ?_⟩
        have shut : ∀ schedule, receivedOver stream schedule (received stream calls place) =
            received stream calls place := by
          intro schedule
          induction schedule with
          | nil => rfl
          | cons _ _ ih => rw [receivedOver, List.foldl_cons, if_neg (by simp [closed])]; exact ih
        exact (congrArg Prod.snd (shut rest)).trans closed
      · have later := ih (fun call member => some_ call (List.mem_append_right _ member))
          (received stream calls place).1
        rw [receivedOver, show ((received stream calls place).1, (none : Option CloseCause)) =
          received stream calls place from
          Prod.ext rfl opened.symm] at later
        refine later.imp_right fun ⟨still, farther⟩ => ⟨still, Nat.le_trans ?_ farther⟩
        rw [List.flatten_cons, List.map_append, List.sum_append]
        omega

end

-- The schedule fixes how far the connection reads, and the messages and the end
-- of the connection are those of the one-shot reading of that much; of the
-- whole stream once the reads cover it or an unknown type is found. No access
-- is outside the buffer and the full-buffer branch is not taken.
theorem framing_ignores_segmentation {ω : Type} (gateway : Gateway ω) (start : ω) (stream : Bytes)
    (buffer : Nat → Byte)
    (schedule : List (List ReadCall)) :
    ∃ final ending, (Connection.accepted buffer stream start).serve gateway schedule = .ok final ∧
      final.socket = stream.drop (receivedOver stream schedule (0, none)).1 ∧
      final.closed = (receivedOver stream schedule (0, none)).2 ∧
      ouchStream (stream.take (receivedOver stream schedule (0, none)).1) = (final.decoded, ending) ∧
      (Covers stream schedule ∨ final.socket = [] ∨ (∃ offset, ending = .unknown offset) →
        ouchStream stream = (final.decoded, ending)) ∧
      (Covers stream schedule → final.closed = none ∨ ∃ offset, final.closed = some (.unknownType offset)) ∧
      (∀ offset, final.closed = some (.unknownType offset) ↔ ending = .unknown offset) ∧
      final.closed ≠ some .bufferFull ∧
      final.world = final.decoded.foldl gateway.handle start ∧
      ∀ fragment, ending = .pending fragment →
        block final.inbound.buffer final.inbound.readPos
        (final.inbound.writePos - final.inbound.readPos) = fragment := by
  obtain ⟨final, done, standing⟩ := serve_spec gateway start stream schedule _ 0 none
    (accepted_stands gateway start stream buffer)
  have agrees := stands_agrees gateway start stream final _ _ standing
  obtain ⟨_, _, closed, _⟩ := standing
  generalize stopped : (receivedOver stream schedule (0, none)).1 = place at *
  have drained : final.socket = [] → ouchStream stream = ouchStream (stream.take place) := by
    intro empty
    have whole := List.take_append_drop place stream
    rw [← agrees.rest, empty, List.append_nil] at whole
    rw [whole]
  have settled : ∀ offset, (ouchStream (stream.take place)).2 = .unknown offset →
      ouchStream stream = ouchStream (stream.take place) := by
    intro offset unknown
    have first : framesFrom messageSize 0 (stream.take place) =
        ((framesFrom messageSize 0 (stream.take place)).1, .unknown offset) :=
      Prod.ext rfl unknown
    have longer := frames_append messageSize (stream.take place) 0 (stream.drop place)
    rw [List.take_append_drop, first] at longer
    rw [ouchStream, ouchStream, longer, first]
  refine ⟨final, (ouchStream (stream.take place)).2, done, agrees.rest, closed,
    Prod.ext agrees.decoded.symm rfl, ?_, ?_, agrees.closed,
    agrees.notFull, agrees.handled, agrees.kept⟩
  · intro enough
    have all : ouchStream stream = ouchStream (stream.take place) := by
      rcases enough with ⟨some_, long⟩ | empty | ⟨offset, unknown⟩
      · rcases received_over_covers stream schedule some_ 0 with ⟨offset, shut⟩ | ⟨_, far⟩
        · exact settled offset ((agrees.closed offset).mp (closed.trans shut))
        · refine drained ?_
          rw [agrees.rest]
          exact List.drop_eq_nil_of_le (by omega)
      · exact drained empty
      · exact settled offset unknown
    exact all.trans (Prod.ext agrees.decoded.symm rfl)
  · rintro ⟨some_, _⟩
    rw [closed]
    exact (received_over_covers stream schedule some_ 0).symm.imp_left And.left

example : ((Connection.accepted (fun _ => 0) ((cancelFrame 5).raw ++ [ascii 'Z']) ()).serve
    ⟨fun w _ => some w, fun w _ => w, fun w _ => w, fun w _ => w⟩
    [[.bytes 10], [.bytes 9, .bytes 1]]).toOption.map
      (fun c => (c.decoded, c.closed)) = some ([.cancel (cancelFrame 5)], some (.unknownType 19)) :=
        by decide +kernel

end HftExchange
