import BistHft.Core.Theorems.OrderToken
import Mathlib.Data.List.Chain

-- The token counter beside decimal addition and beside the loop that it has replaced.

namespace OrderToken

variable {c : UInt8} {cs ds : List UInt8} {token : OrderToken}

-- The loop that the source keeps as a comment. It returns at the first character below '9', and
-- `none` is the end of the loop.
def increment : List UInt8 → Option (List UInt8)
  | []      => none
  | c :: cs =>
    match increment cs with
    | some ds => some (c :: ds)
    | none    =>
      if c.toInt8 < '9'.toUInt8.toInt8 then some ((c + 1) :: cs.map fun _ => '0'.toUInt8) else none

-- Behind the loop there is a `return {}`.
def nextEarlyReturn (token : OrderToken) : List UInt8 :=
  (increment token.val).getD (.replicate 14 0)

-- A nine is followed by nines only. The first character is free, as nothing is in front of it.
def NinesTrail (token : OrderToken) : Prop :=
  token.val.tail.IsChain fun c c' => digit c = 9 → digit c' = 9

instance : Decidable token.NinesTrail :=
  inferInstanceAs (Decidable (List.IsChain _ _))

section Strays

theorem strays_eq_zero_iff : strays cs = 0 ↔ cs.IsChain fun c c' => digit c = 9 → digit c' = 9 := by
  induction cs
  case nil => simp [strays]
  case cons c cs hi =>
    rw [strays, Nat.add_eq_zero_iff, hi]
    cases cs
    case nil       => simp [carry]
    case cons c' _ => by_cases h : digit c' = 9 <;> simp [carry, h, and_comm]

theorem strays_lt : strays cs < 10 ^ (cs.length + 1) := by
  induction cs
  case nil => decide
  case cons c cs hi =>
    rw [strays, List.length_cons, Nat.pow_succ _ (cs.length + 1)]
    split <;> omega

end Strays

section Increment

theorem IsDigit.lt_nine_iff (h : IsDigit c) : c.toInt8 < '9'.toUInt8.toInt8 ↔ digit c < 9 :=
  h.rec (by decide)

theorem IsDigit.succ (h : IsDigit c) (hc : digit c < 9) : IsDigit (c + 1) ∧ digit (c + 1) = digit c + 1 := by
  revert hc
  exact h.rec (by decide)

theorem value_zeros : value (cs.map fun _ => '0'.toUInt8) = 0 := by
  induction cs
  case nil         => rfl
  case cons _ _ hi =>
    have hd : digit '0'.toUInt8 = 0 := rfl
    rw [List.map_cons, value_cons, hi, hd, Nat.zero_mul]

-- The loop runs to its end on the largest number there is.
theorem increment_eq_none (h : ∀ c ∈ cs, IsDigit c) (hn : increment cs = none) :
    value cs + 1 = 10 ^ cs.length := by
  induction cs
  case nil => rfl
  case cons c cs hi =>
    obtain ⟨hc, hcs⟩ := List.forall_mem_cons.mp h
    rw [increment] at hn
    split at hn
    case h_1 => cases hn
    case h_2 he =>
      have hv := hi hcs he
      split at hn
      case isTrue => cases hn
      case isFalse hlt =>
        rw [hc.lt_nine_iff] at hlt
        have h9 : digit c = 9 := by have := hc.lt; omega
        rw [value_cons, List.length_cons, Nat.pow_succ, h9]
        omega

theorem increment_eq_some (h : ∀ c ∈ cs, IsDigit c) (hs : increment cs = some ds) :
    ds.length = cs.length ∧ (∀ d ∈ ds, IsDigit d) ∧ value ds = value cs + 1 := by
  induction cs generalizing ds
  case nil => cases hs
  case cons c cs hi =>
    obtain ⟨hc, hcs⟩ := List.forall_mem_cons.mp h
    rw [increment] at hs
    split at hs
    case h_1 es he =>
      cases hs
      obtain ⟨hl, hd, hv⟩ := hi hcs he
      refine ⟨congrArg (· + 1) hl, List.forall_mem_cons.mpr ⟨hc, hd⟩, ?_⟩
      rw [value_cons, value_cons, hl, hv]
      rfl
    case h_2 he =>
      have hv := increment_eq_none hcs he
      split at hs
      case isFalse => cases hs
      case isTrue hlt =>
        cases hs
        obtain ⟨hd, hv'⟩ := hc.succ (hc.lt_nine_iff.mp hlt)
        have hz : IsDigit '0'.toUInt8 := isDigit 0
        refine ⟨by simp, List.forall_mem_cons.mpr ⟨hd, by simp [hz]⟩, ?_⟩
        rw [value_cons, value_cons, value_zeros, List.length_map, hv', Nat.add_mul]
        omega

end Increment

namespace IsDecimal

theorem value_lt (h : token.IsDecimal) : value token.val < 10 ^ 14 := by
  have hv := OrderToken.value_lt h
  rwa [token.property] at hv

theorem value_next (h : token.IsDecimal) :
    value token.next.val = (value token.val + 1 + strays token.val.tail) % 10 ^ 14 := by
  have hlt := h.next.value_lt
  have hn : value token.next.val + carry token.val * 10 ^ token.val.length = _ := (value_count h).right
  have ⟨c, cs, he⟩ := List.exists_cons_of_length_eq_add_one token.property
  have hl : cs.length = 13 := by simpa [he] using token.property
  have hk := (carry token.val).isLt
  rw [token.property] at hn
  rw [he, strays, hl] at hn
  rw [he, List.tail_cons]
  split at hn <;> omega

theorem value_next_iff (h : token.IsDecimal) :
    value token.next.val = (value token.val + 1) % 10 ^ 14 ↔ token.NinesTrail := by
  have hs : strays token.val.tail < 10 ^ (token.val.tail.length + 1) := strays_lt
  rw [List.length_tail, token.property] at hs
  rw [h.value_next, NinesTrail, ← strays_eq_zero_iff]
  omega

theorem next_eq_nextEarlyReturn_iff (h : token.IsDecimal) (hn : token.val ≠ .replicate 14 '9'.toUInt8) :
    token.next.val = token.nextEarlyReturn ↔ token.NinesTrail := by
  have hv : value token.val + 1 ≠ 10 ^ 14 := by
    refine fun hv => hn <| value_inj h ?_ token.property ?_
    case refine_1 =>
      intro c hc
      rw [List.eq_of_mem_replicate hc]
      exact isDigit 9
    case refine_2 => exact Nat.succ.inj hv
  have hlt := h.value_lt
  rw [← h.value_next_iff, nextEarlyReturn]
  cases he : increment token.val
  case none =>
    have hn := increment_eq_none h he
    rw [token.property] at hn
    exact absurd hn hv
  case some ds =>
    have ⟨hl, hd, hv'⟩ := increment_eq_some h he
    rw [Option.getD_some, Nat.mod_eq_of_lt (by omega), ← hv']
    refine ⟨congrArg value, fun hv => value_inj h.next hd ?_ hv⟩
    exact token.next.property.trans (hl.trans token.property).symm

end IsDecimal

end OrderToken

namespace OrderManager

open OrderToken

variable {m : OrderManager} {n : ℕ}

theorem iterate_isDecimal (h : m.token.IsDecimal) : (nextToken^[n] m).token.IsDecimal := by
  induction n
  case zero    => exact h
  case succ hi =>
    rw [Function.iterate_succ_apply']
    exact hi.next

-- As long as the values have been the right ones, the next one depends on the next token alone.
theorem iterate_value_iff (h : m.token.IsDecimal) :
    (∀ i < n, value (nextToken^[i + 1] m).token.val = (value m.token.val + i + 1) % 10 ^ 14) ↔
      ∀ i < n, (nextToken^[i] m).token.NinesTrail := by
  induction n
  case zero => simp
  case succ n hi =>
    rw [Nat.forall_lt_succ_right, Nat.forall_lt_succ_right, ← hi]
    refine and_congr_right fun hv => ?_
    have hn : value (nextToken^[n] m).token.val = (value m.token.val + n) % 10 ^ 14 := by
      cases n
      case zero   => exact (Nat.mod_eq_of_lt h.value_lt).symm
      case succ n => exact hv n n.lt_succ_self
    rw [← (iterate_isDecimal h).value_next_iff, hn, Nat.mod_add_mod, Function.iterate_succ_apply']
    rfl

theorem nextToken_increments_iff (h : m.token.IsDecimal) :
    m.nextToken.token.IsDecimal ∧
      (value m.nextToken.token.val = (value m.token.val + 1) % 10 ^ 14 ↔ m.token.NinesTrail) ∧
      (m.token.val ≠ .replicate 14 '9'.toUInt8 →
        (m.nextToken.token.val = m.token.nextEarlyReturn ↔ m.token.NinesTrail)) ∧
      ∀ n, (∀ i < n, value (nextToken^[i + 1] m).token.val = (value m.token.val + i + 1) % 10 ^ 14) ↔
        ∀ i < n, (nextToken^[i] m).token.NinesTrail :=
  ⟨h.next, h.value_next_iff, h.next_eq_nextEarlyReturn_iff, fun _ => iterate_value_iff h⟩

theorem nextToken_increments_iff_one :
    (ofLastOrderTokenIndex 0).nextToken.token.IsDecimal ∧
      (ofLastOrderTokenIndex 0).nextToken.token.val = (ofLastOrderTokenIndex 0).token.nextEarlyReturn :=
  have h := nextToken_increments_iff (m := ofLastOrderTokenIndex 0) (ofIndex_isDecimal (by decide)).left
  ⟨h.left, (h.right.right.left (by decide +kernel)).mpr (by decide +kernel)⟩

-- 90 is followed by 191, as the nine passes on a carry that it has not been given.
theorem nextToken_ninety :
    (ofLastOrderTokenIndex 89).token.IsDecimal ∧ value (ofLastOrderTokenIndex 89).token.val = 90 ∧
      value (ofLastOrderTokenIndex 89).nextToken.token.val = 191 ∧
      value (ofLastOrderTokenIndex 89).token.nextEarlyReturn = 91 := by
  decide +kernel

end OrderManager
