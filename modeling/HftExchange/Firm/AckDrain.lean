import HftExchange.Firm.AckReception

set_option autoImplicit false

namespace HftExchange

theorem starting_append (reports : List AckReport) (start : Nat) (first second : Bytes) :
    starting reports start (first ++ second) = starting reports start first ++ starting reports
    (start + first.length) second := by
  have all := starting_split reports start (first ++ second)
  have one := starting_split reports start first
  have two := starting_split reports (start + first.length) second
  rw [List.length_append, ← Nat.add_assoc] at all
  rw [all, two, ← List.append_assoc] at one
  exact List.append_cancel_right one

section
variable (tokenBase : Nat) (reports : List AckReport)

theorem drain_sublist (chunks : List Bytes) (start : Nat)
    (within : chunks.flatten <+: (reports.flatMap AckReport.bytes).drop start)
    (small : ∀ fill ∈ (drainSocket tokenBase chunks).fills, fill.shares < strayShares) :
    (drainSocket tokenBase chunks).fills.Sublist
    (expected tokenBase (starting reports start chunks.flatten)) := by
  induction chunks generalizing start with
  | nil => exact List.nil_sublist _
  | cons chunk rest ih =>
      rw [List.flatten_cons] at within
      have first := (List.prefix_append _ _).trans within
      have later := prefix_drop _ start chunk rest.flatten within
      rw [drainSocket] at small ⊢
      rw [List.flatten_cons, starting_append, expected_append]
      split at small
      · rename_i raised
        rw [if_pos raised]
        exact (chunk_sublist tokenBase reports start chunk first small).trans (List.sublist_append_left _ _)
      · rename_i raised
        rw [if_neg raised]
        exact (chunk_sublist tokenBase reports start chunk first fun fill member =>
          small fill (List.mem_append_left _ member)).append
          (ih _ later fun fill member => small fill (List.mem_append_right _ member))

theorem drain_exact (chunks : List Bytes) (start : Nat)
    (within : chunks.flatten <+: (reports.flatMap AckReport.bytes).drop start) :
    drainSocket tokenBase chunks = ⟨expected tokenBase (starting reports start chunks.flatten), false⟩ ↔
      ∀ before chunk after, chunks = before ++ chunk :: after → onMessage tokenBase chunk =
        ⟨expected tokenBase (starting reports (start + before.flatten.length) chunk), false⟩ := by
  induction chunks generalizing start with
  | nil =>
      have nothing : starting reports start [] = [] := by
        rw [starting, List.length_nil, Nat.add_zero, Nat.sub_self, List.take_zero]
      refine ⟨fun _ before chunk after split => by simp at split, fun _ => ?_⟩
      rw [List.flatten_nil, nothing]
      rfl
  | cons chunk rest ih =>
      rw [List.flatten_cons] at within
      have first := (List.prefix_append _ _).trans within
      have later := prefix_drop _ start chunk rest.flatten within
      have both : drainSocket tokenBase (chunk :: rest) =
        ⟨expected tokenBase (starting reports start (chunk :: rest).flatten), false⟩ ↔
          onMessage tokenBase chunk = ⟨expected tokenBase (starting reports start chunk), false⟩ ∧
          drainSocket tokenBase rest =
            ⟨expected tokenBase (starting reports (start + chunk.length) rest.flatten), false⟩ := by
        rw [drainSocket, List.flatten_cons, starting_append, expected_append]
        constructor
        · intro due
          split at due
          · rename_i raised
            rw [due] at raised
            cases raised
          · rename_i raised
            simp only [Received.after, Received.mk.injEq] at due
            have small : ∀ fill ∈ (onMessage tokenBase chunk).fills ++
                (drainSocket tokenBase rest).fills, fill.shares < strayShares := by
              rw [due.1, ← expected_append]
              exact expected_small tokenBase _
            have one := chunk_sublist tokenBase reports start chunk first fun fill member =>
              small fill (List.mem_append_left _ member)
            have two := drain_sublist tokenBase reports rest _ later fun fill member => small fill
              (List.mem_append_right _ member)
            have lengths := congrArg List.length due.1
            rw [List.length_append, List.length_append] at lengths
            have oneLength := one.length_le
            have twoLength := two.length_le
            have oneSame := one.eq_of_length (by omega)
            have twoSame := two.eq_of_length (by omega)
            have calm : (onMessage tokenBase chunk).raised = false := Bool.eq_false_iff.mpr raised
            exact ⟨by rw [← oneSame, ← calm], by rw [← twoSame, ← due.2]⟩
        · rintro ⟨one, two⟩
          rw [one, two]
          rfl
      rw [both, ih _ later]
      constructor
      · rintro ⟨one, others⟩ before other after split
        cases before with
        | nil =>
            cases split
            exact one
        | cons head before =>
            cases split
            rw [List.flatten_cons, List.length_append, ← Nat.add_assoc]
            exact others before other after rfl
      · intro all
        refine ⟨by simpa using all [] chunk rest rfl, fun before other after split => ?_⟩
        have here := all (chunk :: before) other after (by rw [split]; rfl)
        rwa [List.flatten_cons, List.length_append, ← Nat.add_assoc] at here

end

theorem position_of (chunks : List Bytes) (offset : Nat) (inside : offset < chunks.flatten.length) :
    ∃ before chunk after, chunks = before ++ chunk :: after ∧ before.flatten.length ≤ offset ∧
      offset < before.flatten.length + chunk.length := by
  induction chunks generalizing offset with
  | nil => exact absurd inside (Nat.not_lt_zero _)
  | cons chunk rest ih =>
      by_cases here : offset < chunk.length
      · exact ⟨[], chunk, rest, rfl, Nat.zero_le _, by simpa using here⟩
      · rw [List.flatten_cons, List.length_append] at inside
        obtain ⟨before, other, after, split, low, high⟩ := ih (offset - chunk.length) (by omega)
        refine ⟨chunk :: before, other, after, by rw [split]; rfl, ?_, ?_⟩
        · rw [List.flatten_cons, List.length_append]
          omega
        · rw [List.flatten_cons, List.length_append]
          omega

theorem position_unique (before before' after after' : List Bytes) (chunk chunk' : Bytes) (offset : Nat)
    (same : before ++ chunk :: after = before' ++ chunk' :: after') (low : before.flatten.length ≤ offset)
    (high : offset < before.flatten.length + chunk.length) (low' : before'.flatten.length ≤ offset)
    (high' : offset < before'.flatten.length + chunk'.length) : before = before' ∧ chunk = chunk' := by
  induction before generalizing before' offset with
  | nil =>
      cases before' with
      | nil =>
          cases same
          exact ⟨rfl, rfl⟩
      | cons head rest =>
          cases same
          rw [List.flatten_cons, List.length_append] at low'
          simp only [List.flatten_nil, List.length_nil] at high
          omega
  | cons head rest ih =>
      cases before' with
      | nil =>
          cases same
          rw [List.flatten_cons, List.length_append] at low
          simp only [List.flatten_nil, List.length_nil] at high'
          omega
      | cons head' rest' =>
          obtain ⟨rfl, tails⟩ := List.cons.inj same
          rw [List.flatten_cons, List.length_append] at low high low' high'
          obtain ⟨rfl, rfl⟩ := ih rest' (offset - head.length) tails (by omega) (by omega)
            (by omega) (by omega)
          exact ⟨rfl, rfl⟩

theorem first_from_range (start length i : Nat) :
    firstFrom start ≤ i ∧ i < firstFrom (start + length) ↔ start ≤ reportSize * i ∧
    reportSize * i < start + length := by
  unfold firstFrom reportSize
  omega

-- The stream as the firm receives it gives exactly the calls that are due when,
-- and only when, no report with a token of the firm is cut by a chunk boundary
-- and no chunk that starts inside a report is mistaken for a report.
theorem reception_exact_iff (tokenBase : Nat) (reports : List AckReport) (chunks : List Bytes)
    (whole : chunks.flatten = reports.flatMap AckReport.bytes) :
    drainSocket tokenBase chunks = ⟨expected tokenBase reports, false⟩ ↔
      (∀ (i : Nat) (r : AckReport), reports[i]? = some r → tokenBase ≤ r.token →
        Covered 0 chunks i) ∧ StrayHarmless tokenBase 0 chunks := by
  have within : chunks.flatten <+: (reports.flatMap AckReport.bytes).drop 0 := by
    rw [whole, List.drop_zero]
  have length : chunks.flatten.length = reportSize * reports.length := by
    rw [whole, stream_length]
  have all : starting reports 0 chunks.flatten = reports := by
    have zero : firstFrom 0 = 0 := rfl
    rw [starting, zero, Nat.zero_add, length, first_from_aligned, Nat.sub_zero, List.drop_zero,
      List.take_length]
  have step := drain_exact tokenBase reports chunks 0 within
  rw [all] at step
  have each : ∀ before chunk after, chunks = before ++ chunk :: after →
      chunk <+: (reports.flatMap AckReport.bytes).drop (0 + before.flatten.length) := by
    intro before chunk after split
    rw [split, List.flatten_append, List.flatten_cons] at within
    exact (List.prefix_append _ _).trans (prefix_drop _ 0 before.flatten _ within)
  rw [step]
  constructor
  · intro exact
    refine ⟨fun i r found called => ?_, fun before chunk after split => ?_⟩
    · obtain ⟨bound, _⟩ := List.getElem?_eq_some_iff.mp found
      have inside : reportSize * i < chunks.flatten.length := by
        rw [length]
        exact Nat.mul_lt_mul_of_pos_left bound (by decide)
      obtain ⟨before, chunk, after, split, low, high⟩ := position_of chunks _ inside
      have here := (chunk_exact tokenBase reports _ chunk (each before chunk after split)).mp
        (exact before chunk after split)
      obtain ⟨since, until'⟩ := (first_from_range (0 + before.flatten.length) chunk.length i).mpr
        ⟨by omega, by omega⟩
      obtain ⟨aligned, fits⟩ := here.1 i r found since until' called
      exact ⟨before, chunk, after, split, aligned, by omega, fits⟩
    · exact ((chunk_exact tokenBase reports _ chunk (each before chunk after split)).mp
        (exact before chunk after split)).2
  · rintro ⟨covered, harmless⟩ before chunk after split
    refine (chunk_exact tokenBase reports _ chunk (each before chunk after split)).mpr
      ⟨?_, harmless before chunk after split⟩
    intro i r found since until' called
    obtain ⟨low, high⟩ := (first_from_range _ _ i).mp ⟨since, until'⟩
    obtain ⟨before', chunk', after', split', aligned, low', high'⟩ := covered i r found called
    have inside : reportSize * i < reportSize * (i + 1) := Nat.mul_lt_mul_of_pos_left
      (Nat.lt_succ_self i) (by decide)
    obtain ⟨rfl, rfl⟩ := position_unique before before' after after' chunk chunk' (reportSize * i)
      (by rw [← split, ← split'])
      (by omega) (by omega) (by omega) (by omega)
    exact ⟨aligned, high'⟩

def ownReport : AckReport := ⟨1_000_000, 5, 100, 'A', by decide, by decide, by decide, Or.inl rfl⟩

def foreignReport : AckReport := ⟨5, 7, 90, 'R', by decide, by decide, by decide, Or.inr rfl⟩

-- Two reports of the firm, and between them two of other firms. The reads cut
-- the first of those after five bytes; what starts there is no report.
def reportsApart : List Bytes :=
  [ownReport.bytes ++ foreignReport.bytes.take 5, foreignReport.bytes.drop 5 ++
    foreignReport.bytes, ownReport.bytes]

theorem cut_foreign_harmless : Harmless 1_000_000 (foreignReport.bytes.drop 5 ++ foreignReport.bytes) := by
  intro k _ types
  exact absurd (types 0 (Nat.zero_le k)) (by decide)

theorem reports_apart_received :
    drainSocket 1_000_000 reportsApart =
    ⟨expected 1_000_000 [ownReport, foreignReport, foreignReport, ownReport], false⟩ := by
  refine (reception_exact_iff 1_000_000 _ reportsApart (by decide +kernel)).mpr ⟨?_, ?_⟩
  · intro i r found own
    match i, found with
    | 0, _ => exact ⟨[], _, _, rfl, by decide, by decide, by decide⟩
    | 1, found | 2, found =>
        cases found
        exact absurd own (by decide)
    | 3, _ => exact ⟨[_, _], ownReport.bytes, [], rfl, by decide, by decide, by decide⟩
  · intro before chunk after split stray
    match before, split with
    | [], _ => exact absurd (by decide) stray
    | [_], split =>
        cases split
        exact cut_foreign_harmless
    | [_, _], split =>
        cases split
        exact absurd (by decide) stray
    | _ :: _ :: _ :: _, split => simp [reportsApart] at split

theorem split_report_lost :
    ¬ ∀ (tokenBase : Nat) (reports : List AckReport) (chunks : List Bytes),
    chunks.flatten = reports.flatMap AckReport.bytes → (∀ chunk ∈ chunks, chunk ≠ [] ∧ chunk.length ≤ 65536) →
      drainSocket tokenBase chunks = ⟨expected tokenBase reports, false⟩ := by
  intro always
  have received := always 1_000_000 [ownReport] [ownReport.bytes.take 10, ownReport.bytes.drop 10]
    (by decide) (by decide)
  have first : onMessage 1_000_000 (ownReport.bytes.take 10) = ⟨[], false⟩ := on_message_short _ _ (by decide)
  have second : onMessage 1_000_000 (ownReport.bytes.drop 10) = ⟨[], false⟩ :=
    on_message_short _ _ (by decide)
  rw [drainSocket, first, drainSocket, second, drainSocket] at received
  exact absurd received (by decide)

end HftExchange
