import HftExchange.Firm.AckSegments

set_option autoImplicit false

namespace HftExchange

-- The chunk makes the parser do nothing: as far as its 32-byte windows start
-- with the type byte, each has a number below the base where a token would be.
def Harmless (tokenBase : Nat) (chunk : Bytes) : Prop :=
  ∀ k, reportSize * (k + 1) ≤ chunk.length → (∀ i ≤ k, chunk[reportSize * i]? = some (ascii 'E')) →
    ∃ value, stoull ((chunk.drop (reportSize * k + 1)).take 14) = some value ∧ value < tokenBase

-- Report i is wholly inside one chunk that starts at the beginning of a report.
-- The first chunk starts at the given offset of the stream.
def Covered (start : Nat) (chunks : List Bytes) (i : Nat) : Prop :=
  ∃ before chunk after, chunks = before ++ chunk :: after ∧ reportSize ∣ start + before.flatten.length ∧
    start + before.flatten.length ≤ reportSize * i ∧
      reportSize * (i + 1) ≤ start + before.flatten.length + chunk.length

def StrayHarmless (tokenBase start : Nat) (chunks : List Bytes) : Prop :=
  ∀ before chunk after, chunks = before ++ chunk :: after →
    ¬ reportSize ∣ start + before.flatten.length → Harmless tokenBase chunk

theorem harmless_next (tokenBase : Nat) (chunk : Bytes) (type : chunk.head? = some (ascii 'E'))
    (whole : reportSize ≤ chunk.length)
    (value : Nat) (parsed : stoull ((chunk.drop 1).take 14) = some value) (below : value < tokenBase) :
    Harmless tokenBase chunk ↔ Harmless tokenBase (chunk.drop reportSize) := by
  have moved : ∀ i, (chunk.drop reportSize)[reportSize * i]? = chunk[reportSize * (i + 1)]? := by
    intro i
    rw [List.getElem?_drop, Nat.mul_succ, Nat.add_comm]
  have text : ∀ k, ((chunk.drop reportSize).drop (reportSize * k + 1)).take 14 =
      (chunk.drop (reportSize * (k + 1) + 1)).take 14 := by
    intro k
    rw [List.drop_drop, Nat.mul_succ]
    congr 2
    omega
  constructor
  · intro harmless k fits types
    rw [List.length_drop] at fits
    have later := harmless (k + 1) (by rw [Nat.mul_succ]; omega) fun i bound => by
      cases i with
      | zero => rw [Nat.mul_zero, ← List.head?_eq_getElem?, type]
      | succ i => rw [← moved i]; exact types i (by omega)
    rwa [text k]
  · intro harmless k fits types
    cases k with
    | zero => exact ⟨value, by simpa using parsed, below⟩
    | succ k =>
        have later := harmless k (by rw [List.length_drop]; rw [Nat.mul_succ] at fits; omega)
            fun i bound => by
          rw [moved i]
          exact types (i + 1) (by omega)
        rwa [text k] at later

theorem harmless_iff (tokenBase : Nat) (chunk : Bytes) :
    onMessage tokenBase chunk = ⟨[], false⟩ ↔ Harmless tokenBase chunk := by
  induction size : chunk.length using Nat.strongRecOn generalizing chunk with
  | _ length ih =>
      by_cases type : chunk.head? = some (ascii 'E')
      · by_cases whole : reportSize ≤ chunk.length
        · rw [onMessage, if_pos type, dif_pos whole]
          have first : ∀ i ≤ 0, chunk[reportSize * i]? = some (ascii 'E') := by
            intro i zero
            rw [Nat.le_zero.mp zero, Nat.mul_zero, ← List.head?_eq_getElem?, type]
          cases parsed : stoull ((chunk.drop 1).take 14) with
          | none =>
              refine ⟨(fun wrong => by simp at wrong), fun harmless => ?_⟩
              obtain ⟨value, found, _⟩ := harmless 0 (by omega) first
              rw [Nat.mul_zero, Nat.zero_add, parsed] at found
              cases found
          | some value =>
              by_cases called : tokenBase ≤ value
              · refine ⟨(fun wrong => by simp [Received.after, called] at wrong), fun harmless => ?_⟩
                obtain ⟨other, found, below⟩ := harmless 0 (by omega) first
                rw [Nat.mul_zero, Nat.zero_add, parsed] at found
                cases found
                omega
              · have smaller : (chunk.drop reportSize).length < length := by
                  rw [List.length_drop]
                  unfold reportSize at *
                  omega
                rw [harmless_next tokenBase chunk type whole value parsed (by omega), ← ih _ smaller _ rfl]
                simp only [called, if_false, Received.after, List.nil_append]
        · rw [on_message_short tokenBase chunk (by omega)]
          exact ⟨fun _ k fits _ => by rw [Nat.mul_succ] at fits; omega, fun _ => rfl⟩
      · rw [onMessage, if_neg type]
        refine ⟨fun _ k _ types => absurd ?_ type, fun _ => rfl⟩
        rw [List.head?_eq_getElem?]
        exact types 0 (Nat.zero_le k)

section
variable (tokenBase : Nat)

theorem expected_append (first second : List AckReport) :
    expected tokenBase (first ++ second) = expected tokenBase first ++ expected tokenBase second :=
      List.filterMap_append

theorem expected_nil_iff (reports : List AckReport) :
    expected tokenBase reports = [] ↔ ∀ r ∈ reports, r.token < tokenBase := by
  simp only [expected, List.filterMap_eq_nil_iff, fillOf]
  refine forall₂_congr fun r _ => ?_
  by_cases called : tokenBase ≤ r.token
  · simp [called]
  · simp [called]
    omega

theorem expected_small (reports : List AckReport) :
    ∀ fill ∈ expected tokenBase reports, fill.shares < strayShares := by
  intro fill member
  obtain ⟨r, _, same⟩ := List.mem_filterMap.mp member
  unfold fillOf at same
  split at same
  · cases same
    exact Nat.lt_of_le_of_lt r.sharesOk.2 (by decide)
  · cases same

end

theorem drop_reports (reports : List AckReport) (i j : Nat) (high : j ≤ reportSize) (r : AckReport)
    (found : reports[i]? = some r) :
    (reports.flatMap AckReport.bytes).drop (reportSize * i + j) = r.bytes.drop j ++
    (reports.drop (i + 1)).flatMap AckReport.bytes := by
  induction reports generalizing i with
  | nil => simp at found
  | cons first rest ih =>
      have length := report_length first
      cases i with
      | zero =>
          simp only [List.getElem?_cons_zero, Option.some.injEq] at found
          subst found
          rw [List.flatMap_cons, Nat.mul_zero, Nat.zero_add, List.drop_append_of_le_length (by omega)]
          rfl
      | succ i =>
          rw [List.flatMap_cons, Nat.mul_succ, Nat.add_right_comm, Nat.add_comm _ reportSize,
            ← List.drop_drop, List.drop_left' length,
            ih i (by simpa using found)]
          rfl

theorem stream_length (reports : List AckReport) :
    (reports.flatMap AckReport.bytes).length = reportSize * reports.length := by
  induction reports with
  | nil => rfl
  | cons r rest ih =>
      rw [List.flatMap_cons, List.length_append, report_length, ih, List.length_cons,
      Nat.mul_succ, Nat.add_comm]

theorem drop_whole (reports : List AckReport) (n : Nat) :
    (reports.flatMap AckReport.bytes).drop (reportSize * n) = (reports.drop n).flatMap AckReport.bytes := by
  cases found : reports[n]? with
  | none =>
      have past := List.getElem?_eq_none_iff.mp found
      rw [List.drop_eq_nil_of_le past,
        List.drop_eq_nil_of_le (by rw [stream_length]; exact Nat.mul_le_mul_left _ past)]
      rfl
  | some r =>
      obtain ⟨bound, same⟩ := List.getElem?_eq_some_iff.mp found
      rw [← Nat.add_zero (reportSize * n), drop_reports reports n 0 (Nat.zero_le _) r found,
        List.drop_eq_getElem_cons bound, same]
      rfl

def firstFrom (start : Nat) : Nat := (start + (reportSize - 1)) / reportSize

def starting (reports : List AckReport) (start : Nat) (chunk : Bytes) : List AckReport :=
  (reports.drop (firstFrom start)).take (firstFrom (start + chunk.length) - firstFrom start)

theorem prefix_drop (stream : Bytes) (start : Nat) (chunk rest : Bytes)
    (within : chunk ++ rest <+: stream.drop start) :
    rest <+: stream.drop (start + chunk.length) := by
  obtain ⟨tail, whole⟩ := within
  rw [← List.drop_drop, ← whole, List.append_assoc, List.drop_left]
  exact List.prefix_append _ _

section
variable (tokenBase : Nat) (reports : List AckReport) (start : Nat) (chunk : Bytes)

theorem first_from_aligned (i : Nat) : firstFrom (reportSize * i) = i := by
  unfold firstFrom reportSize
  omega

theorem first_from_mono : firstFrom start ≤ firstFrom (start + chunk.length) := by
  unfold firstFrom reportSize
  omega

theorem starting_split :
    reports.drop (firstFrom start) =
    starting reports start chunk ++ reports.drop (firstFrom (start + chunk.length)) := by
  have grows := first_from_mono start chunk
  rw [starting, ← Nat.add_sub_cancel' grows, ← List.drop_drop, Nat.add_sub_cancel' grows,
    List.take_append_drop]

theorem mem_starting (r : AckReport) :
    r ∈ starting reports start chunk ↔
    ∃ i : Nat, reports[i]? = some r ∧ firstFrom start ≤ i ∧ i < firstFrom (start + chunk.length) := by
  rw [starting, List.mem_iff_getElem?]
  constructor
  · rintro ⟨i, found⟩
    rw [List.getElem?_take] at found
    split at found
    · rw [List.getElem?_drop] at found
      exact ⟨_, found, by omega, by omega⟩
    · cases found
  · rintro ⟨i, found, low, high⟩
    refine ⟨i - firstFrom start, ?_⟩
    rw [List.getElem?_take_of_lt (by omega), List.getElem?_drop, Nat.add_sub_cancel' low, found]

variable (within : chunk <+: (reports.flatMap AckReport.bytes).drop start)
include within

theorem aligned_chunk (aligned : reportSize ∣ start) :
    ∃ handled cut, starting reports start chunk = handled ++ cut ∧
    onMessage tokenBase chunk = ⟨expected tokenBase handled, false⟩ ∧
      ((∀ r ∈ cut, r.token < tokenBase) ↔ ∀ (i : Nat) (r : AckReport), reports[i]? = some r →
        firstFrom start ≤ i →
        i < firstFrom (start + chunk.length) → tokenBase ≤ r.token →
        reportSize * (i + 1) ≤ start + chunk.length) := by
  obtain ⟨n, rfl⟩ := aligned
  rw [drop_whole] at within
  have handled := on_message_aligned tokenBase (reports.drop n) chunk within
  refine ⟨(starting reports (reportSize * n) chunk).take (chunk.length / reportSize),
    (starting reports (reportSize * n) chunk).drop (chunk.length / reportSize),
      (List.take_append_drop _ _).symm, ?_, ?_⟩
  · rw [handled, starting, first_from_aligned, List.take_take, Nat.min_eq_left]
    unfold firstFrom reportSize
    omega
  · constructor
    · intro cut i r found low high called
      by_contra short
      have below := cut r (List.mem_iff_getElem?.mpr ⟨i - n - chunk.length / reportSize, by
        rw [first_from_aligned] at low
        rw [starting, List.getElem?_drop, List.getElem?_take_of_lt, List.getElem?_drop,
          first_from_aligned, ← found]
        · congr 1
          unfold reportSize at *
          omega
        · rw [first_from_aligned]
          unfold reportSize at *
          omega⟩)
      omega
    · intro fits r member
      by_contra called
      obtain ⟨k, found⟩ := List.mem_iff_getElem?.mp member
      rw [starting, List.getElem?_drop, List.getElem?_take, first_from_aligned] at found
      split at found
      · rename_i bound
        rw [List.getElem?_drop] at found
        have whole := fits _ r found (by rw [first_from_aligned]; exact Nat.le_add_right n _)
          (by unfold reportSize at *; omega) (by omega)
        unfold reportSize at *
        omega
      · cases found

theorem shifted_chunk (shifted : ¬ reportSize ∣ start) :
    ∀ fill ∈ (onMessage tokenBase chunk).fills, strayShares ≤ fill.shares := by
  have position := Nat.div_add_mod start reportSize
  have low : 0 < start % reportSize := Nat.pos_of_ne_zero fun zero => shifted (Nat.dvd_of_mod_eq_zero zero)
  have high : start % reportSize < reportSize := Nat.mod_lt _ (by decide)
  cases found : reports[start / reportSize]? with
  | none =>
      have past := List.getElem?_eq_none_iff.mp found
      have empty : chunk = [] := by
        have nothing : (reports.flatMap AckReport.bytes).drop start = [] := by
          refine List.drop_eq_nil_of_le ?_
          rw [stream_length, ← position]
          exact Nat.le_add_right_of_le (Nat.mul_le_mul_left _ past)
        rwa [nothing, List.prefix_nil] at within
      rw [empty, on_message_short tokenBase [] (by decide)]
      simp
  | some r =>
      rw [← position, drop_reports reports _ _ (Nat.le_of_lt high) r found] at within
      exact on_message_shifted tokenBase _ low high r _ chunk within

theorem chunk_exact :
    onMessage tokenBase chunk = ⟨expected tokenBase (starting reports start chunk), false⟩ ↔
    (∀ (i : Nat) (r : AckReport), reports[i]? = some r → firstFrom start ≤ i →
      i < firstFrom (start + chunk.length) → tokenBase ≤ r.token →
      reportSize ∣ start ∧ reportSize * (i + 1) ≤ start + chunk.length) ∧
      (¬ reportSize ∣ start → Harmless tokenBase chunk) := by
  by_cases aligned : reportSize ∣ start
  · obtain ⟨handled, cut, split, done, below⟩ := aligned_chunk tokenBase reports start chunk within aligned
    rw [done, split, expected_append]
    simp only [Received.mk.injEq, and_true, aligned, true_and, not_true_eq_false, false_imp_iff]
    rw [← below, ← expected_nil_iff]
    exact List.self_eq_append_right
  · have stray := shifted_chunk tokenBase reports start chunk within aligned
    have small := expected_small tokenBase (starting reports start chunk)
    have none : (∀ (i : Nat) (r : AckReport), reports[i]? = some r → firstFrom start ≤ i →
      i < firstFrom (start + chunk.length) →
        tokenBase ≤ r.token → reportSize ∣ start ∧ reportSize * (i + 1) ≤ start + chunk.length) ↔
        expected tokenBase (starting reports start chunk) = [] := by
      rw [expected_nil_iff]
      constructor
      · intro covered r member
        obtain ⟨i, found, low, high⟩ := (mem_starting reports start chunk r).mp member
        by_contra called
        exact aligned (covered i r found low high (by omega)).1
      · intro below i r found low high called
        exact absurd (below r ((mem_starting reports start chunk r).mpr ⟨i, found, low, high⟩)) (by omega)
    rw [none, ← harmless_iff]
    constructor
    · intro exact
      have empty : expected tokenBase (starting reports start chunk) = [] := by
        refine List.eq_nil_iff_forall_not_mem.mpr fun fill member => ?_
        have large := stray fill (by rw [exact]; exact member)
        exact absurd (small fill member) (by omega)
      rw [empty] at exact
      exact ⟨empty, fun _ => exact⟩
    · rintro ⟨empty, harmless⟩
      rw [empty, harmless aligned]

theorem chunk_sublist (small : ∀ fill ∈ (onMessage tokenBase chunk).fills, fill.shares < strayShares) :
    (onMessage tokenBase chunk).fills.Sublist (expected tokenBase (starting reports start chunk)) := by
  by_cases aligned : reportSize ∣ start
  · obtain ⟨handled, cut, split, done, _⟩ := aligned_chunk tokenBase reports start chunk within aligned
    rw [done, split, expected_append]
    exact List.sublist_append_left _ _
  · have stray := shifted_chunk tokenBase reports start chunk within aligned
    have empty : (onMessage tokenBase chunk).fills = [] :=
      List.eq_nil_iff_forall_not_mem.mpr fun fill member => absurd (small fill member)
        (by have := stray fill member; omega)
    rw [empty]
    exact List.nil_sublist _

end

end HftExchange
