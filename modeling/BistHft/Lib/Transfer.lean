import Mathlib.Data.List.Basic
import Mathlib.Algebra.BigOperators.Group.List.Basic

-- Loops that hand over a buffer piece by piece to a taker that takes as much as it likes at a time, or
-- none of it, and streams that are made up of what several such loops have handed over.

namespace Transfer

variable {α ε : Type*} {retries retries' : ε → Bool} {buffer : List α} {n : ℕ} {e : ε}

-- What the taker does with what it is offered. It takes no more than that.
inductive Result (ε : Type*)
  | taken (n : ℕ)
  | error (e : ε)
  deriving DecidableEq

inductive Status
  | finished
  | gaveUp
  | going
  deriving DecidableEq

structure Outcome (α : Type*) where
  sent   : List α
  left   : List α
  status : Status
  deriving DecidableEq

variable {result : Result ε} {results : List (Result ε)}

-- Some errors are met by another try. With any other the loop gives up, and what is left is not sent.
def drain (retries : ε → Bool) : List α → List (Result ε) → Outcome α
  | buffer, []                => ⟨[], buffer, if buffer.isEmpty then .finished else .going⟩
  | buffer, result :: results =>
    if buffer.isEmpty then
      ⟨[], [], .finished⟩
    else
      match result with
      | .taken n =>
        let rest := drain retries (buffer.drop n) results
        { rest with sent := buffer.take n ++ rest.sent }
      | .error e => if retries e then drain retries buffer results else ⟨[], buffer, .gaveUp⟩

-- How much would be taken until the loop gives up, and whether it gives up at all.

def total (retries : ε → Bool) : List (Result ε) → ℕ
  | []                 => 0
  | .taken n :: results => n + total retries results
  | .error e :: results => if retries e then total retries results else 0

def Fatal (retries : ε → Bool) : Result ε → Bool
  | .taken _ => false
  | .error e => !retries e

theorem drain_nil : drain retries ([] : List α) results = ⟨[], [], .finished⟩ := by
  cases results <;> rfl

theorem drain_taken : drain retries buffer (.taken n :: results) =
    { drain retries (buffer.drop n) results with sent := buffer.take n ++ (drain retries (buffer.drop n) results).sent } := by
  cases buffer
  case nil  => simp [drain_nil]
  case cons => rfl

theorem drain_error (h : buffer ≠ []) : drain retries buffer (.error e :: results) =
    if retries e then drain retries buffer results else ⟨[], buffer, .gaveUp⟩ := by
  obtain ⟨_, _, rfl⟩ := List.exists_cons_of_ne_nil h
  rfl

-- Where the loop has come to depends on the results only through the amount that they take.
theorem drain_eq : drain retries buffer results = {
    sent   := buffer.take (total retries results)
    left   := buffer.drop (total retries results)
    status :=
      if buffer.length ≤ total retries results then .finished
      else if results.any (Fatal retries) then .gaveUp
      else .going
  } := by
  induction results generalizing buffer
  case nil => cases buffer <;> rfl
  case cons result results hi =>
    cases result
    case taken n =>
      have hs : buffer.length - n ≤ total retries results ↔ buffer.length ≤ n + total retries results := by omega
      rw [drain_taken, hi, total, List.take_add, List.drop_drop, List.length_drop]
      simp only [hs, List.any_cons, Fatal, Bool.false_or]
    case error e =>
      cases hb : decide (buffer = [])
      case true =>
        obtain rfl := of_decide_eq_true hb
        simp [drain_nil]
      case false =>
        have hb := of_decide_eq_false hb
        have hl := List.length_pos_iff.mpr hb
        rw [drain_error hb]
        cases he : retries e
        case true  => simp [hi, total, Fatal, he]
        case false => simp [total, Fatal, he, Nat.not_le_of_lt hl]

theorem finished_iff : (drain retries buffer results).status = .finished ↔ (drain retries buffer results).sent = buffer := by
  rw [drain_eq]
  dsimp only
  rw [List.take_eq_self_iff]
  split
  case isTrue h  => exact iff_of_true rfl h
  case isFalse h =>
    refine iff_of_false ?_ h
    split <;> exact Status.noConfusion

-- A loop that retries more does not send less.
theorem total_le (h : ∀ e, retries e → retries' e) : total retries results ≤ total retries' results := by
  induction results
  case nil => exact Nat.le_refl 0
  case cons result results hi =>
    cases result
    case taken n => exact Nat.add_le_add_left hi n
    case error e =>
      rw [total, total]
      split
      case isTrue he => rwa [if_pos (h e he)]
      case isFalse   => exact Nat.zero_le _

theorem sent_prefix (h : ∀ e, retries e → retries' e) :
    (drain retries buffer results).sent <+: (drain retries' buffer results).sent := by
  rw [drain_eq, drain_eq]
  exact List.take_prefix_take_left (total_le h)

section Streams

-- The buffers that are handed over one after the other, each with the results that its loop sees.

variable {calls : List (List α × List (Result ε))}

def outcome (retries : ε → Bool) (call : List α × List (Result ε)) : Outcome α :=
  drain retries call.1 call.2

def stream (retries : ε → Bool) (calls : List (List α × List (Result ε))) : List α :=
  (calls.map fun call => (outcome retries call).sent).flatten

def finished (retries : ε → Bool) (calls : List (List α × List (Result ε))) : List (List α) :=
  (calls.filter fun call => (outcome retries call).status = .finished).map Prod.fst

-- No loop ends after a part of its buffer.
def Whole (retries : ε → Bool) (calls : List (List α × List (Result ε))) : Prop :=
  ∀ call ∈ calls, (outcome retries call).status = .finished ∨ (outcome retries call).sent = []

theorem stream_cons {call : List α × List (Result ε)} :
    stream retries (call :: calls) = (outcome retries call).sent ++ stream retries calls :=
  rfl

theorem finished_cons {call : List α × List (Result ε)} : finished retries (call :: calls) =
    if (outcome retries call).status = .finished then call.1 :: finished retries calls else finished retries calls := by
  rw [finished, List.filter_cons]
  split
  case isTrue h  => rw [if_pos (of_decide_eq_true h)]; rfl
  case isFalse h => rw [if_neg fun he => h (decide_eq_true he)]; rfl

theorem finished_length_le : (finished retries calls).flatten.length ≤ (stream retries calls).length := by
  induction calls
  case nil => exact Nat.le_refl 0
  case cons call calls hi =>
    rw [finished_cons, stream_cons, List.length_append]
    split
    case isTrue h =>
      rw [List.flatten_cons, List.length_append]
      exact Nat.add_le_add (finished_iff.mp h ▸ Nat.le_refl _) hi
    case isFalse => exact Nat.le_add_left_of_le hi

-- A part of a buffer makes the stream longer than the buffers that have been sent as a whole.
theorem stream_eq_iff : stream retries calls = (finished retries calls).flatten ↔ Whole retries calls := by
  induction calls
  case nil => exact iff_of_true rfl (List.forall_mem_nil _)
  case cons call calls hi =>
    rw [Whole, List.forall_mem_cons, stream_cons, finished_cons]
    cases Decidable.em ((outcome retries call).status = .finished)
    case inl h =>
      have hs : (outcome retries call).sent = call.1 := finished_iff.mp h
      rw [if_pos h, List.flatten_cons, hs, List.append_cancel_left_eq, hi]
      exact (and_iff_right (.inl h)).symm
    case inr h =>
      rw [if_neg h, or_iff_right h]
      constructor
      case mp =>
        intro he
        have hl := congrArg List.length he
        have hle : (finished retries calls).flatten.length ≤ (stream retries calls).length := finished_length_le
        rw [List.length_append] at hl
        have hn : (outcome retries call).sent = [] := List.length_eq_zero_iff.mp (by omega)
        rw [hn, List.nil_append] at he
        exact ⟨hn, hi.mp he⟩
      case mpr =>
        intro ⟨hn, hw⟩
        rw [hn, List.nil_append]
        exact hi.mpr hw

end Streams

end Transfer
