import HftExchange.Base.AppendLog

set_option autoImplicit false

namespace Base.LogLayout

section
variable {α ρ : Type} (layout : LogLayout α ρ)

theorem entry_stored (record : ρ) (offset : Nat) (value : α)
    (member : (offset, value) ∈ layout.stores record) :
    layout.entry record offset = value := by
  have once := layout.stores_once record
  rw [entry]
  cases found : (layout.stores record).find? fun store => store.1 = offset with
  | none =>
      have absent := List.find?_eq_none.mp found (offset, value) member
      simp at absent
  | some other =>
      have same : other.1 = offset := by simpa using List.find?_some found
      have inside := List.mem_of_find?_eq_some found
      have equal := List.inj_on_of_nodup_map once inside member same
      rw [equal]
      rfl

theorem entry_blank (record : ρ) (offset : Nat) (absent : offset ∉ (layout.stores record).map Prod.fst) :
    layout.entry record offset = layout.blank := by
  have none_ : (layout.stores record).find? (fun store => store.1 = offset) = none := by
    rw [List.find?_eq_none]
    intro store member same
    exact absent (List.mem_map.mpr ⟨store, member, by simpa using same⟩)
  rw [entry, none_]
  rfl

theorem cell_before (size first second offset : Nat) (less : first < second) (inside : offset < size) :
    first * size + offset < second * size :=
  calc
    first * size + offset < first * size + size := Nat.add_lt_add_left inside _
    _ = (first + 1) * size := (Nat.succ_mul first size).symm
    _ ≤ second * size := Nat.mul_le_mul_right size less

section
variable (s : LogState α ρ)

theorem start_writer (record : ρ) (order : List (Nat × α)) (inv : layout.WriterInv s)
    (permuted : order.Perm (layout.stores record))
    (idle : s.filling = none) (opened : s.closed = false) (room : s.log.length < layout.capacity) :
    layout.WriterInv { s with filling := some (record, order) } := by
  have blank := inv.pending
  rw [Pending, idle] at blank
  refine ⟨inv.count, inv.room, inv.committed, ?_, inv.cells⟩
  refine ⟨fun offset inside => ?_, fun cell after => ?_, fun store member => permuted.subset member,
    ?_, room, opened⟩
  · rw [blank _ (Nat.le_add_right _ _)]
    by_cases member : offset ∈ order.map Prod.fst
    · rw [if_pos member]
    · rw [if_neg member, entry_blank]
      rwa [← (permuted.map Prod.fst).mem_iff]
  · exact blank cell (Nat.le_trans (Nat.mul_le_mul_right _ (Nat.le_succ _)) after)
  · exact (permuted.map Prod.fst).nodup_iff.mpr (layout.stores_once record)

theorem store_writer (record : ρ) (offset : Nat) (value : α) (rest : List (Nat × α))
    (inv : layout.WriterInv s)
    (filling : s.filling = some (record, (offset, value) :: rest)) :
    s.log.length * layout.size + offset < s.cells ∧ layout.WriterInv
      { s with memory := Function.update s.memory (s.log.length * layout.size + offset) value,
               filling := some (record, rest) } := by
  have pending := inv.pending
  rw [Pending, filling] at pending
  obtain ⟨here, after, within, once, room, opened⟩ := pending
  have own := within (offset, value) List.mem_cons_self
  have inside := layout.stores_inside record _ own
  have cells := inv.cells
  rw [opened] at cells
  refine ⟨?_, inv.count, inv.room, fun index other found at_ small => ?_, ?_, inv.cells⟩
  · rw [cells]
    exact cell_before _ _ _ _ room inside
  · have less : index < s.log.length := (List.getElem?_eq_some_iff.mp found).1
    have apart := cell_before layout.size index s.log.length at_ less small
    exact (Function.update_of_ne (by omega) ..).trans (inv.committed index other found at_ small)
  · simp only [List.map_cons, List.nodup_cons] at once
    refine ⟨fun other small => ?_, fun cell later => ?_, fun store member =>
      within store (List.mem_cons_of_mem _ member), once.2, room, opened⟩
    · by_cases same : other = offset
      · subst same
        rw [if_neg once.1, entry_stored layout record other value own]
        exact Function.update_self ..
      · have before := here other small
        simp only [List.map_cons, List.mem_cons, same, false_or] at before
        have apart : s.log.length * layout.size + other ≠ s.log.length * layout.size + offset := by omega
        exact (Function.update_of_ne apart ..).trans before
    · have before := cell_before layout.size s.log.length (s.log.length + 1) offset
        (Nat.lt_succ_self _) inside
      have apart : cell ≠ s.log.length * layout.size + offset :=
        Nat.ne_of_gt (Nat.lt_of_lt_of_le before later)
      exact (Function.update_of_ne apart ..).trans (after cell later)

theorem publish_writer (record : ρ) (inv : layout.WriterInv s) (filling : s.filling = some (record, [])) :
    layout.WriterInv { s with log := s.log ++ [record], published := s.log.length + 1, filling := none } := by
  have pending := inv.pending
  rw [Pending, filling] at pending
  obtain ⟨here, after, _, _, room, opened⟩ := pending
  refine ⟨by simp, by simpa using room, fun index other found offset small => ?_, fun cell later => ?_, ?_⟩
  · by_cases last : index < s.log.length
    · rw [List.getElem?_append_left last] at found
      exact inv.committed index other found offset small
    · have bound := (List.getElem?_eq_some_iff.mp found).1
      rw [List.length_append, List.length_singleton] at bound
      have same : index = s.log.length := by omega
      subst same
      rw [List.getElem?_append_right (Nat.le_refl _), Nat.sub_self, List.getElem?_cons_zero] at found
      cases found
      simpa using here offset small
  · rw [List.length_append, List.length_singleton] at later
    exact after cell later
  · have cells := inv.cells
    rw [opened] at cells
    simpa [opened] using cells

theorem close_writer (inv : layout.WriterInv s) (idle : s.filling = none) :
    layout.WriterInv { s with closed := true, cells := s.log.length * layout.size } := by
  have blank := inv.pending
  rw [Pending, idle] at blank
  refine ⟨inv.count, inv.room, inv.committed, ?_, by simp⟩
  rw [Pending]
  simp only [idle]
  exact blank

end

theorem tail_grows (s next : LogState α ρ) (more : List ρ) (writer : layout.WriterInv s)
    (tail : layout.TailInv s)
    (log : next.log = s.log ++ more) (count : s.published ≤ next.published)
    (same : next.pc = s.pc ∧ next.cursor = s.cursor ∧ next.out = s.out) : layout.TailInv next := by
  obtain ⟨pc, cursor, out⟩ := same
  have inside : s.cursor ≤ s.log.length := writer.count ▸ tail.cursor
  refine ⟨by rw [cursor]; exact Nat.le_trans tail.cursor count, ?_, ?_⟩
  · rw [out, cursor, log, List.take_append_of_le_length inside]
    exact tail.out
  · have watching := tail.watching
    rw [Watching] at watching ⊢
    rw [pc]
    cases at_ : s.pc with
    | idle => trivial
    | counting left number =>
        rw [at_] at watching
        exact Nat.le_trans watching (Nat.div_le_div_right count)
    | reading stop got =>
        rw [at_] at watching
        obtain ⟨more_, below, record, found, read⟩ := watching
        refine ⟨cursor ▸ more_, Nat.le_trans below count, record, ?_, read⟩
        rw [cursor, log, List.getElem?_append_left (List.getElem?_eq_some_iff.mp found).1]
        exact found

theorem digit_bound (number count radix left : Nat) (below : number ≤ count / radix ^ (left + 1)) :
    number * radix + count / radix ^ left % radix ≤ count / radix ^ left := by
  rw [Nat.pow_succ, ← Nat.div_div_eq_div_mul] at below
  calc
    number * radix + count / radix ^ left % radix ≤
        count / radix ^ left / radix * radix + count / radix ^ left % radix :=
      Nat.add_le_add_right (Nat.mul_le_mul_right _ below) _
    _ = count / radix ^ left := Nat.div_add_mod' _ _

theorem count_tail (s : LogState α ρ) (writer : layout.WriterInv s) (tail : layout.TailInv s) :
    layout.TailInv (layout.countDigit s) := by
  have watching := tail.watching
  cases at_ : s.pc with
  | idle | reading _ _ => simpa only [countDigit, at_] using tail
  | counting left number =>
      simp only [Watching, at_] at watching
      cases left with
      | zero =>
          rw [Nat.pow_zero, Nat.div_one] at watching
          simp only [countDigit, at_]
          by_cases more : s.cursor < number
          · have found : s.cursor < s.log.length := writer.count ▸ Nat.lt_of_lt_of_le more watching
            rw [if_pos more]
            exact ⟨tail.cursor, tail.out, more, watching, s.log[s.cursor],
              List.getElem?_eq_getElem found, by simp⟩
          · rw [if_neg more]
            exact ⟨tail.cursor, tail.out, trivial⟩
      | succ left =>
          simp only [countDigit, at_]
          exact ⟨tail.cursor, tail.out, digit_bound number s.published layout.radix left watching⟩

theorem image_length (record : ρ) : (layout.image record).length = layout.offsets.length := List.length_map _

theorem read_value (s : LogState α ρ) (stop : Nat) (got : List α) (offset : Nat) (record : ρ)
    (writer : layout.WriterInv s)
    (at_ : s.pc = .reading stop got) (next : layout.offsets[got.length]? = some offset)
    (found : s.log[s.cursor]? = some record) :
    layout.readCell s = .ok { s with pc := .reading stop (got ++ [layout.entry record offset]) } := by
  have small := layout.offsets_inside offset (List.mem_of_getElem? next)
  have inside : s.cursor < s.log.length := (List.getElem?_eq_some_iff.mp found).1
  have bound : s.cursor * layout.size + offset < s.cells := by
    have low := cell_before layout.size s.cursor s.log.length offset inside small
    have high := Nat.mul_le_mul_right layout.size writer.room
    rw [writer.cells]
    split <;> omega
  simp only [readCell, at_, next, fetch_ok _ _ _ bound, checked_bind_ok,
    writer.committed s.cursor record found offset small]
  rfl

theorem read_done (s : LogState α ρ) (stop : Nat) (got : List α) (at_ : s.pc = .reading stop got)
    (next : layout.offsets[got.length]? = none) : layout.readCell s = .ok
      { s with out := s.out ++ [got], cursor := s.cursor + 1,
               pc := if s.cursor + 1 < stop then .reading stop [] else .idle } := by
  simp only [readCell, at_, next]
  rfl

theorem read_tail (s : LogState α ρ) (writer : layout.WriterInv s) (tail : layout.TailInv s) :
    ∃ next, layout.readCell s = .ok next ∧ layout.WriterInv next ∧ layout.TailInv next := by
  have watching := tail.watching
  cases at_ : s.pc with
  | idle | counting _ _ => exact ⟨s, by simp only [readCell, at_]; rfl, writer, tail⟩
  | reading stop got =>
      simp only [Watching, at_] at watching
      obtain ⟨more, below, record, found, read⟩ := watching
      cases next : layout.offsets[got.length]? with
      | some offset =>
          refine ⟨_, read_value layout s stop got offset record writer at_ next found, ?_⟩
          refine ⟨⟨writer.count, writer.room, writer.committed, writer.pending, writer.cells⟩,
            tail.cursor, tail.out, more, below, record, found, ?_⟩
          have entry : (layout.image record)[got.length]? = some (layout.entry record offset) := by
            rw [image, List.getElem?_map, next]
            rfl
          rw [List.length_append, List.length_singleton, List.take_add_one, entry, ← read]
          rfl
      | none =>
          have whole : got = layout.image record := by
            rw [read, List.take_of_length_le (by rw [image_length]; exact List.getElem?_eq_none_iff.mp next)]
          refine ⟨_, read_done layout s stop got at_ next, ?_⟩
          refine ⟨⟨writer.count, writer.room, writer.committed, writer.pending, writer.cells⟩,
            Nat.le_trans more below, ?_, ?_⟩
          · rw [tail.out, whole, List.take_add_one, found, List.map_append]
            rfl
          · by_cases again : s.cursor + 1 < stop
            · have later : s.cursor + 1 < s.log.length := writer.count ▸ Nat.lt_of_lt_of_le again below
              simp only [Watching, if_pos again]
              exact ⟨again, below, s.log[s.cursor + 1], List.getElem?_eq_getElem later, by simp⟩
            · simp only [Watching, if_neg again]

theorem step_inv (s : LogState α ρ) (label : LogLabel α ρ) (writer : layout.WriterInv s)
    (tail : layout.TailInv s)
    (allowed : layout.Allowed s label) :
    ∃ next, layout.step s label = .ok next ∧ layout.WriterInv next ∧ layout.TailInv next := by
  cases label with
  | start record order =>
      by_cases ready : s.filling.isNone ∧ s.closed = false ∧ s.log.length < layout.capacity
      · have idle : s.filling = none := Option.isNone_iff_eq_none.mp ready.1
        refine ⟨_, by simp only [step, if_pos ready]; rfl,
          start_writer layout s record order writer allowed idle ready.2.1 ready.2.2, ?_⟩
        exact tail_grows layout s _ [] writer tail (by simp) (Nat.le_refl _) ⟨rfl, rfl, rfl⟩
      · exact ⟨s, by simp only [step, if_neg ready]; rfl, writer, tail⟩
  | store =>
      cases filling : s.filling with
      | none => exact ⟨s, by simp only [step, storeCell, filling]; rfl, writer, tail⟩
      | some current =>
          obtain ⟨record, left⟩ := current
          cases left with
          | nil => exact ⟨s, by simp only [step, storeCell, filling]; rfl, writer, tail⟩
          | cons first rest =>
              obtain ⟨offset, value⟩ := first
              obtain ⟨bound, kept⟩ := store_writer layout s record offset value rest writer filling
              refine ⟨_, by simp only [step, storeCell, filling, store_ok _ _ _ _ bound, checked_bind_ok]; rfl,
                kept, ?_⟩
              exact tail_grows layout s _ [] writer tail (by simp) (Nat.le_refl _) ⟨rfl, rfl, rfl⟩
  | publish =>
      cases filling : s.filling with
      | none => exact ⟨s, by simp only [step, filling]; rfl, writer, tail⟩
      | some current =>
          obtain ⟨record, left⟩ := current
          cases left with
          | nil =>
              refine ⟨_, by simp only [step, filling]; rfl, publish_writer layout s record writer filling, ?_⟩
              exact tail_grows layout s _ [record] writer tail rfl
                (writer.count ▸ Nat.le_succ _) ⟨rfl, rfl, rfl⟩
          | cons first rest => exact ⟨s, by simp only [step, filling]; rfl, writer, tail⟩
  | close =>
      by_cases idle : s.filling.isNone
      · refine ⟨_, by simp only [step, if_pos idle]; rfl,
          close_writer layout s writer (Option.isNone_iff_eq_none.mp idle), ?_⟩
        exact tail_grows layout s _ [] writer tail (by simp) (Nat.le_refl _) ⟨rfl, rfl, rfl⟩
      · exact ⟨s, by simp only [step, if_neg idle]; rfl, writer, tail⟩
  | poll =>
      refine ⟨_, rfl, ?_⟩
      split
      · exact ⟨⟨writer.count, writer.room, writer.committed, writer.pending, writer.cells⟩,
          tail.cursor, tail.out, Nat.zero_le _⟩
      · exact ⟨writer, tail⟩
  | count =>
      refine ⟨_, rfl, ?_, count_tail layout s writer tail⟩
      rw [countDigit]
      split <;> exact ⟨writer.count, writer.room, writer.committed, writer.pending, writer.cells⟩
  | read => exact read_tail layout s writer tail
  | reopen =>
      exact ⟨_, rfl, ⟨writer.count, writer.room, writer.committed, writer.pending, writer.cells⟩,
        Nat.zero_le _, rfl, trivial⟩

theorem init_inv : layout.WriterInv layout.init ∧ layout.TailInv layout.init := by
  refine ⟨⟨rfl, Nat.zero_le _, fun index record found => ?_, fun _ _ => rfl, rfl⟩,
    Nat.zero_le _, rfl, trivial⟩
  exact absurd found (by simp [init])

theorem log_run_inv (labels : List (LogLabel α ρ)) (s : LogState α ρ) (run : layout.LogRun labels s) :
    layout.WriterInv s ∧ layout.TailInv s := by
  refine run_invariant (fun s => layout.WriterInv s ∧ layout.TailInv s) layout.init_inv ?_ labels s run
  rintro state label next ⟨writer, tail⟩ ⟨allowed, taken⟩
  obtain ⟨other, result, kept⟩ := step_inv layout state label writer tail allowed
  cases taken.symm.trans result
  exact kept

theorem log_tail (labels : List (LogLabel α ρ)) (s : LogState α ρ) (run : layout.LogRun labels s) :
    s.cursor ≤ s.log.length ∧ s.out = (s.log.take s.cursor).map layout.image ∧
      ∀ label, layout.Allowed s label → ∃ next, layout.step s label = .ok next := by
  obtain ⟨writer, tail⟩ := log_run_inv layout labels s run
  refine ⟨writer.count ▸ tail.cursor, tail.out, fun label allowed => ?_⟩
  obtain ⟨next, result, _⟩ := step_inv layout s label writer tail allowed
  exact ⟨next, result⟩

def ReaderStep : LogLabel α ρ → Prop
  | .count | .read => True
  | _ => False

structure Alone (s : LogState α ρ) (labels : List (LogLabel α ρ)) (next : LogState α ρ) :
    Prop where
  run : Run s (Guarded layout.Allowed layout.step) labels next
  reader : ∀ label ∈ labels, ReaderStep label
  writer : layout.WriterInv next
  tail : layout.TailInv next
  log : next.log = s.log
  count : next.published = s.published

theorem alone_append (s middle next : LogState α ρ) (first second : List (LogLabel α ρ))
    (before : layout.Alone s first middle) (after : layout.Alone middle second next) :
    layout.Alone s (first ++ second) next where
  run := run_append first second middle next before.run after.run
  reader := List.forall_mem_append.mpr ⟨before.reader, after.reader⟩
  writer := after.writer
  tail := after.tail
  log := after.log.trans before.log
  count := after.count.trans before.count

theorem alone_step (s next : LogState α ρ) (label : LogLabel α ρ) (own : ReaderStep label)
    (writer : layout.WriterInv s) (tail : layout.TailInv s)
    (allowed : layout.Allowed s label) (taken : layout.step s label = .ok next)
    (log : next.log = s.log) (count : next.published = s.published) :
    layout.Alone s [label] next := by
  obtain ⟨other, result, kept⟩ := step_inv layout s label writer tail allowed
  cases taken.symm.trans result
  exact ⟨run_single label next ⟨allowed, taken⟩, List.forall_mem_singleton.mpr own, kept.1,
    kept.2, log, count⟩

theorem count_alone (left : Nat) (s : LogState α ρ) (writer : layout.WriterInv s) (tail : layout.TailInv s)
    (at_ : s.pc = .counting left (s.published / layout.radix ^ left)) :
    ∃ labels next, layout.Alone s labels next ∧ next.cursor = s.cursor ∧
    next.pc = .counting 0 s.published := by
  induction left generalizing s with
  | zero =>
      rw [Nat.pow_zero, Nat.div_one] at at_
      exact ⟨[], s, ⟨.start, by simp, writer, tail, rfl, rfl⟩, rfl, at_⟩
  | succ left ih =>
      have digit : s.published / layout.radix ^
        (left + 1) * layout.radix + s.published / layout.radix ^ left % layout.radix =
          s.published / layout.radix ^ left := by
        rw [Nat.pow_succ, ← Nat.div_div_eq_div_mul, Nat.div_add_mod']
      have taken : layout.step s .count = .ok
          { s with pc := .counting left (s.published / layout.radix ^ left) } := by
        simp only [step, countDigit, at_, digit]
        rfl
      have first := alone_step layout s _ .count trivial writer tail trivial taken rfl rfl
      obtain ⟨labels, next, rest, cursor, last⟩ := ih _ first.writer first.tail rfl
      exact ⟨[.count] ++ labels, next, alone_append layout s _ next [.count] labels first rest, cursor, last⟩

theorem entry_alone (left : Nat) (s : LogState α ρ) (stop : Nat) (got : List α)
    (writer : layout.WriterInv s) (tail : layout.TailInv s)
    (at_ : s.pc = .reading stop got) (rest : layout.offsets.length ≤ got.length + left) :
    ∃ labels next, layout.Alone s labels next ∧ next.cursor = s.cursor + 1 ∧
      next.pc = if s.cursor + 1 < stop then .reading stop [] else .idle := by
  have finish : ∀ s : LogState α ρ, layout.WriterInv s → layout.TailInv s → ∀ got, s.pc = .reading stop got →
      layout.offsets[got.length]? = none → ∃ labels next, layout.Alone s labels next ∧
        next.cursor = s.cursor + 1 ∧
        next.pc = if s.cursor + 1 < stop then .reading stop [] else .idle :=
          fun s writer tail got at_ none_ =>
    ⟨[.read], _, alone_step layout s _ .read trivial writer tail trivial
      (read_done layout s stop got at_ none_) rfl rfl, rfl, rfl⟩
  induction left generalizing s got with
  | zero => exact finish s writer tail got at_ (List.getElem?_eq_none_iff.mpr rest)
  | succ left ih =>
      cases next : layout.offsets[got.length]? with
      | none => exact finish s writer tail got at_ next
      | some offset =>
          have watching := tail.watching
          simp only [Watching, at_] at watching
          obtain ⟨_, _, record, found, _⟩ := watching
          have taken := read_value layout s stop got offset record writer at_ next found
          have first := alone_step layout s _ .read trivial writer tail trivial taken rfl rfl
          obtain ⟨labels, final, later, cursor, last⟩ := ih _ _ first.writer first.tail rfl (by simp; omega)
          exact ⟨[.read] ++ labels, final, alone_append layout s _ final [.read] labels first
            later, cursor, last⟩

theorem entries_alone (left : Nat) (s : LogState α ρ) (stop : Nat) (writer : layout.WriterInv s)
    (tail : layout.TailInv s)
    (at_ : s.pc = .reading stop []) (rest : stop ≤ s.cursor + left + 1) (more : s.cursor < stop) :
    ∃ labels next, layout.Alone s labels next ∧ next.cursor = stop ∧ next.pc = .idle := by
  induction left generalizing s with
  | zero =>
      obtain ⟨labels, next, alone, cursor, last⟩ := entry_alone layout layout.offsets.length s stop
        [] writer tail at_ (by simp)
      rw [if_neg (by omega)] at last
      exact ⟨labels, next, alone, by omega, last⟩
  | succ left ih =>
      obtain ⟨labels, next, alone, cursor, last⟩ := entry_alone layout layout.offsets.length s stop
        [] writer tail at_ (by simp)
      by_cases again : s.cursor + 1 < stop
      · rw [if_pos again] at last
        obtain ⟨others, final, later, ends⟩ := ih next alone.writer alone.tail last (by omega) (by omega)
        exact ⟨labels ++ others, final, alone_append layout s next final labels others alone later, ends⟩
      · rw [if_neg again] at last
        exact ⟨labels, next, alone, by omega, last⟩

theorem poll_alone (s : LogState α ρ) (writer : layout.WriterInv s) (tail : layout.TailInv s)
    (idle : s.pc = .idle) (fits : s.published < layout.radix ^ layout.digits) :
    ∃ rest next, (∀ label ∈ rest, ReaderStep label) ∧
      Run s (Guarded layout.Allowed layout.step) (.poll :: rest) next ∧
      layout.TailInv next ∧ next.log = s.log ∧ next.cursor = s.log.length ∧
      next.pc = .idle := by
  let polled : LogState α ρ :=
    { s with pc := .counting layout.digits (s.published / layout.radix ^ layout.digits) }
  have taken : layout.step s .poll = .ok polled := by
    simp only [polled, Nat.div_eq_of_lt fits]
    simp only [step, idle, if_true]
    rfl
  obtain ⟨other, result, pollWriter, pollTail⟩ := step_inv layout s .poll writer tail trivial
  cases taken.symm.trans result
  obtain ⟨digits, counted, first, cursor, at_⟩ :=
    count_alone layout layout.digits polled pollWriter pollTail rfl
  have stopped : layout.step counted .count = .ok { counted with
      pc := if counted.cursor < s.published then .reading s.published [] else .idle } := by
    simp only [step, countDigit, at_, polled]
    rfl
  have second := alone_step layout counted _ .count trivial first.writer first.tail trivial
    stopped rfl rfl
  have ready := alone_append layout polled counted _ digits [.count] first second
  have cursor : counted.cursor = s.cursor := cursor
  have whole : ∀ rest next, layout.Alone polled rest next →
      Run s (Guarded layout.Allowed layout.step) (.poll :: rest) next := fun rest next alone =>
    run_append [.poll] rest polled next (run_single _ _ ⟨trivial, taken⟩) alone.run
  by_cases more : s.cursor < s.published
  · obtain ⟨reads, final, last, ends, rests⟩ := entries_alone layout s.published _ s.published
      ready.writer ready.tail (by simp only [cursor]; rw [if_pos more]) (by simp only; omega)
      (by simpa only [cursor] using more)
    have both := alone_append layout polled _ final _ reads ready last
    exact ⟨_, final, both.reader, whole _ final both, both.tail, both.log,
      ends.trans writer.count, rests⟩
  · refine ⟨_, _, ready.reader, whole _ _ ready, ready.tail, ready.log, ?_, ?_⟩
    · have below := tail.cursor
      have same := writer.count
      simp only [cursor]
      omega
    · simp only [cursor]
      rw [if_neg more]

end

end Base.LogLayout
