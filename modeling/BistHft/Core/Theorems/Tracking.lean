import BistHft.Core.Theorems.OrderNumber

-- The tokens that a session issues, and for which of them the manager keeps a record.

namespace OrderToken

variable {c : UInt8} {cs : List UInt8} {token : OrderToken} {index : Int32} {k : ℕ}

-- A character above '0' has only digits behind it. The characters below '0' come from a constructor
-- that has been given too large an index.
def Settled : List UInt8 → Prop
  | []      => True
  | c :: cs => |signedDigit c| ≤ 9 ∧ (0 < signedDigit c → ∀ c ∈ cs, IsDigit c) ∧ Settled cs

section Characters

theorem isDigit_iff : IsDigit c ↔ 0 ≤ signedDigit c ∧ signedDigit c ≤ 9 :=
  forall_uint8 (by decide +kernel) c

theorem digit_eq_nine (h : digit c = 9) : 0 < signedDigit c ∧ IsDigit c := by
  revert h
  exact forall_uint8 (by decide +kernel) c

theorem signedDigit_count (h : |signedDigit c| ≤ 9) (k : Fin 2) :
    signedDigit (count c (.ofNat k)).2 = if signedDigit c + k = 10 then 0 else signedDigit c + k := by
  revert h k
  exact forall_uint8 (by decide +kernel) c

theorem signedDigit_digitChar {r : Int32} (h : r.toInt = -k) (hk : k < 10) : signedDigit (digitChar r) = -k := by
  have hd : ∀ d : Fin 10, signedDigit (digitChar (.ofInt (-d.val))) = -d.val := by decide
  rw [← Int32.ofInt_toInt r, h]
  exact hd ⟨k, hk⟩

end Characters

namespace Settled

theorem of_isDigit (h : ∀ c ∈ cs, IsDigit c) : Settled cs := by
  induction cs
  case nil => exact .intro
  case cons c cs hi =>
    obtain ⟨hc, hcs⟩ := List.forall_mem_cons.mp h
    have hd := isDigit_iff.mp hc
    exact ⟨abs_le.mpr ⟨by omega, hd.right⟩, fun _ => hcs, hi hcs⟩

theorem of_nonpos (h : ∀ c ∈ cs, -9 ≤ signedDigit c ∧ signedDigit c ≤ 0) : Settled cs := by
  induction cs
  case nil => exact .intro
  case cons c cs hi =>
    obtain ⟨hc, hcs⟩ := List.forall_mem_cons.mp h
    exact ⟨abs_le.mpr ⟨hc.left, by omega⟩, fun hp => absurd hp (by omega), hi hcs⟩

theorem bounded (h : Settled cs) : ∀ c ∈ cs, |signedDigit c| ≤ 9 := by
  induction cs
  case nil          => exact List.forall_mem_nil _
  case cons c cs hi => exact List.forall_mem_cons.mpr ⟨h.left, hi h.right.right⟩

-- A carry comes out of a nine, which has only digits behind it.
theorem isDigit_of_carry (h : Settled cs) (hk : carry cs = 1) : ∀ c ∈ cs, IsDigit c := by
  cases cs
  case nil => exact List.forall_mem_nil _
  case cons c cs =>
    rw [carry] at hk
    split at hk
    case isFalse => contradiction
    case isTrue hn =>
      obtain ⟨hp, hd⟩ := digit_eq_nine hn
      exact List.forall_mem_cons.mpr ⟨hd, h.right.left hp⟩

theorem count (h : Settled cs) : Settled (cs.mapAccumr count 1).2 := by
  induction cs
  case nil => exact .intro
  case cons c cs hi =>
    obtain ⟨hc, hd, hs⟩ := h
    have hv := signedDigit_count hc (carry cs)
    have hk := (carry cs).isLt
    have hc' := abs_le.mp hc
    rw [mapAccumr_cons, mapAccumr_count_fst]
    refine ⟨abs_le.mpr ?_, fun hp => (value_count ?_).left, hi hs⟩
    case refine_1 => rw [hv]; split <;> omega
    case refine_2 =>
      rw [hv] at hp
      cases Int.lt_or_le 0 (signedDigit c)
      case inl hp' => exact hd hp'
      case inr hn =>
        refine hs.isDigit_of_carry <| Fin.ext ?_
        change (carry cs).val = 1
        split at hp <;> omega

-- A character below '0' that no digit precedes makes the whole number negative.
theorem isDigit_of_nonneg (h : Settled cs) (hn : 0 ≤ number cs) : ∀ c ∈ cs, IsDigit c := by
  induction cs
  case nil => exact List.forall_mem_nil _
  case cons c cs hi =>
    obtain ⟨hc, hd, hs⟩ := h
    have hb : |number cs| ≤ 1 * (10 ^ cs.length - 1) := abs_number_le fun c hc => hs.bounded c hc
    have hc' := abs_le.mp hc
    have hb' := abs_le.mp hb
    rw [number_cons] at hn
    obtain hp | hz | hp := lt_trichotomy (signedDigit c) 0
    case inl =>
      have hm : signedDigit c * 10 ^ cs.length ≤ -1 * 10 ^ cs.length :=
        Int.mul_le_mul_of_nonneg_right (by omega) (by positivity)
      omega
    case inr.inl =>
      rw [hz, Int.zero_mul, Int.zero_add] at hn
      exact List.forall_mem_cons.mpr ⟨isDigit_iff.mpr (by omega), hi hs hn⟩
    case inr.inr => exact List.forall_mem_cons.mpr ⟨isDigit_iff.mpr (by omega), hd hp⟩

-- The remainders of a negative index are not positive.
theorem of_neg (h : index.toInt ≤ 0) : ∀ c ∈ digits k index, -9 ≤ signedDigit c ∧ signedDigit c ≤ 0 := by
  induction k generalizing index
  case zero => exact List.forall_mem_nil _
  case succ k hi =>
    obtain ⟨n, hn⟩ := Int.exists_eq_neg_ofNat h
    have ⟨hd, hm⟩ := toInt_neg hn
    have hs := signedDigit_digitChar hm (Nat.mod_lt n (by decide))
    rw [digits, List.forall_mem_append, List.forall_mem_singleton, hs]
    exact ⟨hi (by omega), by omega, by omega⟩

theorem digits : Settled (digits k index) := by
  cases Int.le_total 0 index.toInt
  case inl hp =>
    have hn : index = .ofNat index.toInt.toNat := by
      rw [← Int32.ofInt_eq_ofNat, Int.toNat_of_nonneg hp, Int32.ofInt_toInt]
    have hlt := index.toInt_lt
    rw [hn]
    exact of_isDigit (digits_ofNat (by omega)).left
  case inr hn => exact of_nonpos (of_neg hn)

end Settled

end OrderToken

namespace OrderManager

open OrderToken

variable {last : UInt32} {n : ℕ} {t : OrderToken}

-- The token that a session hands out after `n` others.
def issued (last : UInt32) (n : ℕ) : OrderToken :=
  (nextToken^[n + 1] (ofLastOrderTokenIndex last)).token

theorem issued_settled : Settled (issued last n).val := by
  have hs : ∀ n, Settled (nextToken^[n] (ofLastOrderTokenIndex last)).token.val := by
    intro n
    induction n
    case zero => exact .digits
    case succ hi =>
      rw [Function.iterate_succ_apply']
      exact hi.count
  exact hs (n + 1)

-- A token that leads to a record is decimal, whatever index the session has started from.
theorem issued_isDecimal {i : Fin ordersSize} (h : getOrder (issued last n) = some i) : (issued last n).IsDecimal :=
  issued_settled.isDigit_of_nonneg <| getOrder_eq_some_iff.mp h ▸ Int.natCast_nonneg _

-- The record that is stored upon an `OrderAccepted` for the token is found through it, and stays as it is
-- while no update is about the token. No other token of the session leads to it.
structure Tracked (last : UInt32) (n : ℕ) : Prop where
  stored (m : OrderManager) (quantity : UInt64) (orderbookId : UInt32) (price : Int32) (side : UInt8) :
    ∃ order, (m.orderAccepted (issued last n) quantity orderbookId price side).order? (issued last n) = some order ∧
      order.quantity = quantity ∧ order.orderbookId = orderbookId ∧ order.price = price ∧ order.side = side
  kept (m : OrderManager) (us : List Update) (m' : OrderManager) (exec : Run.exec Update.apply m us = .ok m')
    (others : Run.Admits Update.apply m
      (fun _ m u => ∀ t, u.Concerns m t → t ≠ issued last n ∧ ∃ n', t = issued last n') us) :
    m'.order? (issued last n) = m.order? (issued last n)
  distinct (n' : ℕ) (ne : issued last n' ≠ issued last n) : getOrder (issued last n') ≠ getOrder (issued last n)

theorem tracked_of_some {i : Fin ordersSize} (h : getOrder (issued last n) = some i) : Tracked last n := by
  have hne {n'} (hn : issued last n' ≠ issued last n) : getOrder (issued last n') ≠ some i := fun h' =>
    hn <| getOrder_inj (issued_isDecimal h') (issued_isDecimal h) h' h
  refine ⟨fun m quantity orderbookId price side => ?_, fun m us m' he ha => ?_, fun n' hn => h ▸ hne hn⟩
  case refine_1 =>
    rw [orderAccepted, order?_modify_self, order?, h]
    exact ⟨_, rfl, rfl, rfl, rfl, rfl⟩
  case refine_2 =>
    have ho : m'.orders i = m.orders i := by
      refine Update.orders_exec he fun pre u post s hu hs t ht => ?_
      obtain ⟨hn, n', rfl⟩ := ha pre u post s hu hs t ht
      exact hne hn
    rw [order?, order?, h, Option.map_some, Option.map_some, ho]

-- There are records for the first numbers only.
theorem issued_tracked_iff : Tracked last n ↔ (issued last n).IsDecimal ∧ value (issued last n).val < ordersSize := by
  constructor
  case mp =>
    intro h
    obtain ⟨order, ho, _⟩ := h.stored (ofLastOrderTokenIndex last) 0 0 0 0
    obtain ⟨i, hi, _⟩ := Option.map_eq_some_iff.mp ho
    have hd := issued_isDecimal hi
    have hp := getOrder_some hi
    rw [← hd.parse_toNat, hp, UInt64.toNat_ofNat_of_lt' (i.isLt.trans (by decide))]
    exact ⟨hd, i.isLt⟩
  case mpr =>
    rintro ⟨hd, hv⟩
    rw [← hd.parse_toNat] at hv
    exact tracked_of_some (dif_pos hv)

-- From 1000 on there are records for no more than 22 orders.
theorem order_1024_untracked : ¬Tracked 1000 22 := by
  intro h
  obtain ⟨order, ho, _⟩ := h.stored (ofLastOrderTokenIndex 1000) 10 1 5 0
  have hn : getOrder (issued 1000 22) = none := by decide +kernel
  rw [order?, hn] at ho
  cases ho

end OrderManager
