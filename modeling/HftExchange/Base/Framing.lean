import HftExchange.Base.Checked

set_option autoImplicit false

namespace Base

-- Streams of frames whose length is given by their first symbol. A symbol with
-- no length ends the stream there.
inductive Ending (β : Type) where
  | pending (fragment : List β)
  | unknown (offset : Nat)
deriving DecidableEq, Repr

def Ending.held {β : Type} : Ending β → List β
  | .pending fragment => fragment
  | .unknown _ => []

section
variable {β : Type} (frameSize : β → Option Nat)

inductive Front (β : Type) where
  | short
  | foreign
  | frame (raw rest : List β)

def front : List β → Front β
  | [] => .short
  | b :: rest =>
      match frameSize b with
      | none => .foreign
      | some size => if 0 < size ∧ size ≤ (b :: rest).length then .frame ((b :: rest).take size)
          ((b :: rest).drop size) else .short

theorem front_frame (bytes raw rest : List β) (found : front frameSize bytes = .frame raw rest) :
    bytes = raw ++ rest ∧ 0 < raw.length := by
  cases bytes with
  | nil => cases found
  | cons b tail =>
      rw [front] at found
      split at found
      · cases found
      · rename_i size known
        split at found
        · rename_i fits
          cases found
          refine ⟨(List.take_append_drop size _).symm, ?_⟩
          rw [List.length_take]
          omega
        · cases found

-- The frames from a given offset on: the one-shot reading of a whole stream.
def framesFrom (offset : Nat) (bytes : List β) : List (List β) × Ending β :=
  match _found : front frameSize bytes with
  | .short => ([], .pending bytes)
  | .foreign => ([], .unknown offset)
  | .frame raw rest =>
      let following := framesFrom (offset + raw.length) rest
      (raw :: following.1, following.2)
termination_by bytes.length
decreasing_by
  obtain ⟨rfl, positive⟩ := front_frame frameSize bytes raw rest _found
  rw [List.length_append]
  omega

theorem frames_short (offset : Nat) (bytes : List β) (short : front frameSize bytes = .short) :
    framesFrom frameSize offset bytes = ([], .pending bytes) := by
  rw [framesFrom]
  split <;> simp_all

theorem frames_foreign (offset : Nat) (bytes : List β) (foreign : front frameSize bytes = .foreign) :
    framesFrom frameSize offset bytes = ([], .unknown offset) := by
  rw [framesFrom]
  split <;> simp_all

theorem frames_frame (offset : Nat) (bytes raw rest : List β)
    (found : front frameSize bytes = .frame raw rest) :
    framesFrom frameSize offset bytes =
      (raw :: (framesFrom frameSize (offset + raw.length) rest).1,
        (framesFrom frameSize (offset + raw.length) rest).2) := by
  rw [framesFrom]
  split
  · simp_all
  · simp_all
  · rename_i raw' rest' found'
    rw [found] at found'
    cases found'
    rfl

theorem front_foreign_append (first second : List β) (foreign : front frameSize first = .foreign) :
    front frameSize (first ++ second) = .foreign := by
  cases first with
  | nil => cases foreign
  | cons b tail =>
      rw [front] at foreign
      rw [List.cons_append, front]
      split at foreign
      · rfl
      · split at foreign <;> cases foreign

theorem front_frame_append (first second raw rest : List β)
    (found : front frameSize first = .frame raw rest) :
    front frameSize (first ++ second) = .frame raw (rest ++ second) := by
  cases first with
  | nil => cases found
  | cons b tail =>
      rw [front] at found
      split at found
      · cases found
      · rename_i size known
        split at found
        · rename_i fits
          cases found
          have longer : 0 < size ∧ size ≤ (b :: (tail ++ second)).length := by
            simp only [List.length_cons, List.length_append] at fits ⊢
            omega
          rw [List.cons_append, front, known]
          simp only [longer, and_self, if_true]
          rw [← List.cons_append, List.take_append_of_le_length fits.2, List.drop_append_of_le_length fits.2]
        · cases found

-- Reading a stream in two parts: the second reading starts with the fragment
-- that the first has left.
theorem frames_append (first : List β) (offset : Nat) (second : List β) :
    framesFrom frameSize offset (first ++ second) =
      match framesFrom frameSize offset first with
      | (found, .unknown place) => (found, .unknown place)
      | (found, .pending fragment) =>
          let following := framesFrom frameSize (offset + found.flatten.length) (fragment ++ second)
          (found ++ following.1, following.2) := by
  induction size : first.length using Nat.strongRecOn generalizing first offset with
  | _ length ih =>
      cases case : front frameSize first with
      | short =>
          rw [frames_short frameSize offset first case]
          simp
      | foreign =>
          rw [frames_foreign frameSize offset first case,
            frames_foreign frameSize offset _ (front_foreign_append frameSize first second case)]
      | frame raw rest =>
          obtain ⟨split, positive⟩ := front_frame frameSize first raw rest case
          have smaller : rest.length < length := by
            rw [← size, split, List.length_append]
            omega
          rw [frames_frame frameSize offset first raw rest case,
            frames_frame frameSize offset _ raw (rest ++ second)
              (front_frame_append frameSize first second raw rest case),
            ih rest.length smaller rest (offset + raw.length) rfl]
          cases ending : framesFrom frameSize (offset + raw.length) rest with
          | mk found last =>
              cases last with
              | unknown place => rfl
              | pending fragment => simp [Nat.add_assoc]

theorem frames_pending (bytes : List β) (offset : Nat) (found : List (List β)) (fragment : List β)
    (result : framesFrom frameSize offset bytes = (found, .pending fragment)) :
    bytes = found.flatten ++ fragment ∧ front frameSize fragment = .short := by
  induction size : bytes.length using Nat.strongRecOn generalizing bytes offset found with
  | _ length ih =>
      cases case : front frameSize bytes with
      | short =>
          rw [frames_short frameSize offset bytes case] at result
          cases result
          exact ⟨rfl, case⟩
      | foreign =>
          rw [frames_foreign frameSize offset bytes case] at result
          cases result
      | frame raw rest =>
          obtain ⟨rfl, positive⟩ := front_frame frameSize bytes raw rest case
          rw [frames_frame frameSize offset _ raw rest case, Prod.mk.injEq] at result
          obtain ⟨rfl, last⟩ := result
          have smaller : rest.length < length := by
            rw [← size, List.length_append]
            omega
          obtain ⟨whole, short⟩ := ih rest.length smaller rest (offset + raw.length) _ (Prod.ext rfl last) rfl
          refine ⟨?_, short⟩
          rw [List.flatten_cons, List.append_assoc, ← whole]

theorem short_bounded (bound : Nat) (sizes : ∀ b size, frameSize b = some size → 0 < size ∧
    size ≤ bound) (bytes : List β)
    (short : front frameSize bytes = .short) (nonempty : bytes ≠ []) : bytes.length < bound := by
  cases bytes with
  | nil => exact absurd rfl nonempty
  | cons b tail =>
      rw [front] at short
      split at short
      · cases short
      · rename_i size known
        have small := sizes b size known
        split at short
        · cases short
        · omega

def WholeFrame (raw : List β) : Prop := ∃ b, raw.head? = some b ∧ frameSize b = some raw.length

theorem front_whole (raw rest : List β) (whole : WholeFrame frameSize raw) :
    front frameSize (raw ++ rest) = .frame raw rest := by
  obtain ⟨b, first, size⟩ := whole
  cases raw with
  | nil => cases first
  | cons c tail =>
      cases first
      rw [List.cons_append, front, size]
      have fits : 0 < (b :: tail).length ∧ (b :: tail).length ≤ (b :: (tail ++ rest)).length := by simp
      simp only [fits, and_self, if_true]
      rw [← List.cons_append, List.take_left, List.drop_left]

theorem front_part (raw part : List β) (whole : WholeFrame frameSize raw) (inside : part <+: raw)
    (proper : part ≠ raw) :
    front frameSize part = .short := by
  obtain ⟨b, first, size⟩ := whole
  obtain ⟨rest, rfl⟩ := inside
  cases part with
  | nil => rfl
  | cons c tail =>
      cases first
      have some_ : rest ≠ [] := fun none_ => proper (by rw [none_, List.append_nil])
      have short : ¬ (0 < (b :: tail ++ rest).length ∧ (b :: tail ++ rest).length ≤ (b :: tail).length) := by
        have positive := List.length_pos_iff.mpr some_
        rw [List.length_append]
        omega
      rw [front, size]
      simp only [short, if_false]

theorem frames_whole (frames : List (List β)) (offset : Nat) (rest : List β)
    (whole : ∀ raw ∈ frames, WholeFrame frameSize raw) :
    framesFrom frameSize offset (frames.flatten ++ rest) =
      (frames ++ (framesFrom frameSize (offset + frames.flatten.length) rest).1,
        (framesFrom frameSize (offset + frames.flatten.length) rest).2) := by
  induction frames generalizing offset with
  | nil => simp
  | cons raw frames ih =>
      obtain ⟨own, later⟩ := List.forall_mem_cons.mp whole
      rw [List.flatten_cons, List.append_assoc,
        frames_frame frameSize offset _ raw _ (front_whole frameSize raw _ own),
        ih (offset + raw.length) later, List.length_append, ← Nat.add_assoc]
      rfl

theorem frames_cut (frames : List (List β)) (cut : List β) (whole : ∀ raw ∈ frames, WholeFrame frameSize raw)
    (ending : cut = [] ∨ ∃ next, WholeFrame frameSize next ∧ cut <+: next ∧ cut ≠ next) :
    framesFrom frameSize 0 (frames.flatten ++ cut) = (frames, .pending cut) := by
  have short : front frameSize cut = .short := by
    rcases ending with rfl | ⟨next, own, inside, proper⟩
    · rfl
    · exact front_part frameSize next cut own inside proper
  rw [frames_whole frameSize frames 0 cut whole, frames_short frameSize _ cut short, List.append_nil]

theorem frames_early (first rest : List β) (frames : List (List β)) (fragment : List β)
    (reading : framesFrom frameSize 0 (first ++ rest) = (frames, .pending fragment)) :
    (framesFrom frameSize 0 first).1 <+: frames ∧ ∃ held, (framesFrom frameSize 0 first).2 =
      .pending held := by
  have parts := frames_append frameSize first 0 rest
  rw [reading] at parts
  cases early : framesFrom frameSize 0 first with
  | mk found ending =>
      rw [early] at parts
      cases ending with
      | unknown place => cases parts
      | pending held => exact ⟨⟨_, (congrArg Prod.fst parts).symm⟩, held, rfl⟩

end

end Base
