import BistHft.Core.Theorems.Updates

-- What `parse_order_token_decimal` makes of 14 characters of any kind.

namespace OrderToken

variable {c : UInt8} {cs : List UInt8} {token t t' : OrderToken} {b : ℤ}

-- The character is taken for a digit, whatever it is.
def signedDigit (c : UInt8) : ℤ :=
  (charDigit c).toInt

def number (cs : List UInt8) : ℤ :=
  cs.foldl (fun n c => n * 10 + signedDigit c) 0

section Number

@[elab_as_elim]
theorem forall_uint8 {P : UInt8 → Prop} (h : ∀ n : Fin 256, P (.ofNat n)) (c : UInt8) : P c :=
  UInt8.ofNat_toNat (x := c) ▸ h ⟨c.toNat, c.toNat_lt⟩

theorem toUInt64_charDigit (c : UInt8) : (charDigit c).toInt64.toUInt64 = .ofInt (signedDigit c) :=
  forall_uint8 (by decide +kernel) c

theorem abs_signedDigit_le (c : UInt8) : |signedDigit c| ≤ 9 * 20 :=
  forall_uint8 (by decide +kernel) c

theorem number_concat : number (cs ++ [c]) = number cs * 10 + signedDigit c :=
  List.foldl_concat ..

theorem number_cons : number (c :: cs) = signedDigit c * 10 ^ cs.length + number cs := by
  induction cs using List.reverseRecOn
  case nil => simp [number]
  case append_singleton cs d hi =>
    rw [← List.cons_append, number_concat, number_concat, hi, List.length_append, List.length_singleton, pow_succ]
    ring

theorem abs_number_le (h : ∀ c ∈ cs, |signedDigit c| ≤ 9 * b) : |number cs| ≤ b * (10 ^ cs.length - 1) := by
  induction cs using List.reverseRecOn
  case nil => simp [number]
  case append_singleton cs c hi =>
    rw [List.forall_mem_append, List.forall_mem_singleton] at h
    have hn := hi h.left
    rw [abs_le] at hn h ⊢
    rw [number_concat, List.length_append, List.length_singleton, pow_succ]
    constructor <;> linarith

theorem parse_eq_ofInt : parseOrderTokenDecimal token = .ofInt (number token.val) := by
  have hp (cs : List UInt8) : cs.foldl (fun index c => index * 10 + (charDigit c).toInt64.toUInt64) 0 =
      UInt64.ofInt (number cs) := by
    induction cs using List.reverseRecOn
    case nil => rfl
    case append_singleton cs c hi =>
      have h10 : UInt64.ofInt 10 = 10 := rfl
      rw [List.foldl_concat, hi, number_concat, UInt64.ofInt_add, UInt64.ofInt_mul, toUInt64_charDigit, h10]
  exact hp token.val

end Number

end OrderToken

namespace OrderManager

open OrderToken

variable {t t' : OrderToken} {i i' : Fin ordersSize}

-- No number of 14 characters is so far off that it comes back to the records by wrapping around.
theorem getOrder_eq_some_iff : getOrder t = some i ↔ number t.val = i := by
  have hn : |number t.val| ≤ 20 * (10 ^ t.val.length - 1) := abs_number_le fun c _ => abs_signedDigit_le c
  have hp : (parseOrderTokenDecimal t).toNat = (number t.val % 2 ^ 64).toNat := by
    rw [parse_eq_ofInt, UInt64.ofInt, UInt64.toNat_ofNat', Nat.mod_eq_of_lt (by omega)]
  have hi := i.isLt
  rw [t.property, abs_le] at hn
  simp only [getOrder, Option.dite_none_right_eq_some, Option.some.injEq, Fin.ext_iff, hp]
  simp only [ordersSize] at hi ⊢
  constructor
  case mp  => rintro ⟨_, he⟩; omega
  case mpr => intro he; exact ⟨by omega, by omega⟩

section Sharing

-- Tokens share a record only if they are two ways to write one number, for which characters beside the
-- digits are needed. Otherwise no update for the one changes the order of the other.
theorem records_separate (hi : getOrder t = some i) (hi' : getOrder t' = some i') :
    (i = i' ↔ number t.val = number t'.val) ∧
      (t.IsDecimal → t'.IsDecimal → t ≠ t' → i ≠ i') ∧
      (i ≠ i' → ∀ (m : OrderManager) (u : Update) m', u.apply m = .ok m' → (∀ o, u.Concerns m o → o = t) →
        m'.order? t' = m.order? t') := by
  refine ⟨?_, fun h h' hn he => ?_, fun hn m u m' hu hc => ?_⟩
  case refine_1 => rw [getOrder_eq_some_iff.mp hi, getOrder_eq_some_iff.mp hi', Nat.cast_inj, Fin.ext_iff]
  case refine_2 => exact hn <| getOrder_inj h h' hi (he ▸ hi')
  case refine_3 =>
    have ho : m'.orders i' = m.orders i' := by
      refine Update.orders_apply hu fun o ho he => hn ?_
      rw [hc o ho, hi, Option.some.injEq] at he
      exact he
    rw [order?, order?, hi', Option.map_some, Option.map_some, ho]

theorem records_separate_sample : (OrderToken.ofIndex 5).IsDecimal ∧ ∀ (m : OrderManager) (u : Update) m',
    u.apply m = .ok m' → (∀ o, u.Concerns m o → o = .ofIndex 5) → m'.order? (.ofIndex 7) = m.order? (.ofIndex 7) := by
  have hi : getOrder (.ofIndex 5) = some ⟨5, by decide⟩ := by decide +kernel
  have hi' : getOrder (.ofIndex 7) = some ⟨7, by decide⟩ := by decide +kernel
  have hd : (OrderToken.ofIndex 5).IsDecimal := by decide +kernel
  have h := records_separate hi hi'
  exact ⟨hd, h.right.right <| h.right.left hd (by decide +kernel) (by decide +kernel)⟩

def colonToken : OrderToken :=
  ⟨.replicate 13 '0'.toUInt8 ++ [':'.toUInt8], by decide⟩

-- The colon comes after the nine, and stands for ten.
theorem colon_shares_ten :
    colonToken ≠ .ofIndex 10 ∧ (getOrder colonToken).isSome ∧ getOrder colonToken = getOrder (.ofIndex 10) := by
  decide +kernel

end Sharing

end OrderManager
