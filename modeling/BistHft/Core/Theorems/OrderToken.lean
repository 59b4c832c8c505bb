import BistHft.Core.OrderManager
import BistHft.Basic
import Mathlib.Data.Nat.Digits.Lemmas
import Mathlib.Tactic.Linarith

-- The tokens of the client's own orders are decimal numbers, and each one is larger than those before.

namespace OrderToken

variable {n : ℕ} {c c' : UInt8} {cs ds : List UInt8} {token token' : OrderToken}

def IsDigit (c : UInt8) : Prop :=
  ∃ d : Fin 10, c = .ofNat (48 + d)

def digit (c : UInt8) : ℕ :=
  c.toNat - 48

instance : Decidable (IsDigit c) :=
  inferInstanceAs (Decidable (∃ _, _))

section Digits

theorem isDigit (d : Fin 10) : IsDigit (.ofNat (48 + d)) :=
  ⟨d, rfl⟩

@[elab_as_elim]
theorem IsDigit.rec {P : UInt8 → Prop} (h : IsDigit c) (hd : ∀ d : Fin 10, P (.ofNat (48 + d))) : P c :=
  have ⟨d, hc⟩ := h
  hc ▸ hd d

theorem IsDigit.lt (h : IsDigit c) : digit c < 10 :=
  h.rec (by decide)

theorem IsDigit.toNat (h : IsDigit c) : c.toNat = 48 + digit c :=
  h.rec (by decide)

theorem IsDigit.toUInt64 (h : IsDigit c) : (charDigit c).toInt64.toUInt64.toNat = digit c :=
  h.rec (by decide)

theorem IsDigit.toUInt32 (h : IsDigit c) : (charDigit c).toUInt32.toNat = digit c :=
  h.rec (by decide)

theorem digitChar_ofNat (h : n < 10) : IsDigit (digitChar (.ofNat n)) ∧ digit (digitChar (.ofNat n)) = n := by
  have hc : ∀ d : Fin 10, digitChar (.ofNat d) = .ofNat (48 + d) ∧ digit (digitChar (.ofNat d)) = d := by decide
  have ⟨hd, hv⟩ := hc ⟨n, h⟩
  exact ⟨⟨⟨n, h⟩, hd⟩, hv⟩

theorem mapAccumr_nil {carry : Int32} : [].mapAccumr count carry = (carry, []) :=
  rfl

theorem mapAccumr_cons {carry : Int32} : (c :: cs).mapAccumr count carry =
    ((count c (cs.mapAccumr count carry).1).1, (count c (cs.mapAccumr count carry).1).2 :: (cs.mapAccumr count carry).2) :=
  rfl

-- A nine passes a carry on, also when none has come in.
theorem count_fst {carry : Int32} : (count c carry).1 = if digit c = 9 then 1 else 0 := by
  have h : c = '9'.toUInt8 ↔ digit c = 9 := by
    have h9 : '9'.toUInt8.toNat = 57 := rfl
    rw [← UInt8.toNat_inj, digit, h9]
    omega
  simp [count, h]

theorem count_digit (h : IsDigit c) (k : Fin 2) :
    IsDigit (count c (.ofNat k)).2 ∧
      digit (count c (.ofNat k)).2 + (if digit c = 9 then 10 else 0) =
        digit c + k + (if digit c = 9 ∧ k = 0 then 10 else 0) :=
  h.rec (by revert k; decide)

end Digits

def value (cs : List UInt8) : ℕ :=
  Nat.ofDigits 10 <| cs.reverse.map digit

section Value

@[simp]
theorem value_nil : value [] = 0 :=
  rfl

theorem value_cons : value (c :: cs) = digit c * 10 ^ cs.length + value cs := by
  simp [value, Nat.ofDigits_append, Nat.add_comm, Nat.mul_comm]

theorem value_concat : value (cs ++ [c]) = value cs * 10 + digit c := by
  simp [value, Nat.ofDigits_cons, Nat.add_comm, Nat.mul_comm]

theorem digit_lt (h : ∀ c ∈ cs, IsDigit c) : ∀ d ∈ cs.reverse.map digit, d < 10 := by
  simpa using fun c hc => (h c hc).lt

theorem value_lt (h : ∀ c ∈ cs, IsDigit c) : value cs < 10 ^ cs.length := by
  simpa [value] using Nat.ofDigits_lt_base_pow_length (by decide) (digit_lt h)

theorem map_digit (h : ∀ c ∈ cs, IsDigit c) : (cs.map digit).map (fun d => .ofNat (48 + d)) = cs := by
  have he : ∀ c ∈ cs, UInt8.ofNat (48 + digit c) = c := fun c hc => (h c hc).toNat ▸ UInt8.ofNat_toNat
  rw [List.map_map]
  exact (List.map_congr_left he).trans (List.map_id' _)

theorem value_inj (hc : ∀ c ∈ cs, IsDigit c) (hd : ∀ c ∈ ds, IsDigit c) (hl : cs.length = ds.length)
    (h : value cs = value ds) : cs = ds := by
  have he : cs.reverse.map digit = ds.reverse.map digit :=
    Nat.ofDigits_inj_of_len_eq (by decide) (by simp [hl]) (digit_lt hc) (digit_lt hd) h
  rw [List.map_reverse, List.map_reverse, List.reverse_inj] at he
  rw [← map_digit hc, he, map_digit hd]

-- A number that is read from the characters, in a type that counts modulo `m`.
theorem toNat_foldl {α : Type*} {t : α → ℕ} {f : α → UInt8 → α} {x : α} {m : ℕ} (hx : t x = 0)
    (hf : ∀ {x c}, IsDigit c → t (f x c) = (t x * 10 + digit c) % m) (h : ∀ c ∈ cs, IsDigit c) :
    t (cs.foldl f x) = value cs % m := by
  induction cs using List.reverseRecOn
  case nil => rw [List.foldl_nil, hx, value_nil, Nat.zero_mod]
  case append_singleton cs c hi =>
    rw [List.forall_mem_append, List.forall_mem_singleton] at h
    rw [List.foldl_concat, hf h.right, hi h.left, value_concat]
    simp only [Nat.add_mod, Nat.mul_mod, Nat.mod_mod]

theorem parse_value (h : ∀ c ∈ cs, IsDigit c) (hl : cs.length < 20) :
    (cs.foldl (fun index c => index * 10 + (charDigit c).toInt64.toUInt64) 0).toNat = value cs := by
  have hp : 10 ^ cs.length ≤ 10 ^ 19 := Nat.pow_le_pow_right (by decide) (Nat.le_of_lt_succ hl)
  have hv : value cs < 2 ^ 64 := Nat.lt_of_lt_of_le (value_lt h) (hp.trans (by decide))
  rw [toNat_foldl (t := UInt64.toNat) (m := 2 ^ 64) rfl (fun hc => ?_) h, Nat.mod_eq_of_lt hv]
  rw [UInt64.toNat_add, UInt64.toNat_mul, hc.toUInt64, Nat.mod_add_mod]
  rfl

-- The characters need not be digits for a difference in front of them to remain one.
theorem foldl_parse_add {index e : UInt64} :
    cs.foldl (fun index c => index * 10 + (charDigit c).toInt64.toUInt64) (index + e) =
      cs.foldl (fun index c => index * 10 + (charDigit c).toInt64.toUInt64) index + e * 10 ^ cs.length := by
  induction cs generalizing index e
  case nil => simp
  case cons c cs hi =>
    have hc : (index + e) * 10 + (charDigit c).toInt64.toUInt64 =
        index * 10 + (charDigit c).toInt64.toUInt64 + e * 10 := by grind
    rw [List.foldl_cons, List.foldl_cons, hc, hi, List.length_cons, UInt64.pow_succ]
    grind

theorem parse_ne (h : token.val = cs ++ '0'.toUInt8 :: ds) (h' : token'.val = cs ++ '1'.toUInt8 :: ds) :
    parseOrderTokenDecimal token ≠ parseOrderTokenDecimal token' := by
  have hl : ds.length < 14 := by
    have := congrArg List.length h
    rw [token.property, List.length_append, List.length_cons] at this
    omega
  have hp : ∀ n < 14, (10 : UInt64) ^ n ≠ 0 := by decide
  have h0 : (charDigit '0'.toUInt8).toInt64.toUInt64 = 0 := by decide
  have h1 : (charDigit '1'.toUInt8).toInt64.toUInt64 = 0 + 1 := by decide
  simp only [parseOrderTokenDecimal, h, h', List.foldl_append, List.foldl_cons, h0, h1, ← UInt64.add_assoc,
    foldl_parse_add]
  intro he
  exact hp _ hl (by grind)

-- The carry with which the loop comes to the character in front of `cs`.
def carry : List UInt8 → Fin 2
  | []     => 1
  | c :: _ => if digit c = 9 then 1 else 0

-- A nine that has not taken a carry in passes one on all the same, which then counts as if it had.
def strays : List UInt8 → ℕ
  | []      => 0
  | c :: cs => strays cs + if digit c = 9 ∧ carry cs = 0 then 10 ^ (cs.length + 1) else 0

theorem mapAccumr_count_fst : (cs.mapAccumr count 1).1 = .ofNat (carry cs) := by
  cases cs
  case nil => rfl
  case cons c cs =>
    rw [mapAccumr_cons, count_fst, carry]
    split <;> rfl

-- The loop over the characters adds one, and what stray carries are worth.
theorem value_count (h : ∀ c ∈ cs, IsDigit c) :
    (∀ c ∈ (cs.mapAccumr count 1).2, IsDigit c) ∧
      value (cs.mapAccumr count 1).2 + carry cs * 10 ^ cs.length = value cs + 1 + strays cs := by
  induction cs
  case nil => exact ⟨by simp [mapAccumr_nil], rfl⟩
  case cons c cs hi =>
    obtain ⟨hc, hcs⟩ := List.forall_mem_cons.mp h
    obtain ⟨hd, hv⟩ := hi hcs
    obtain ⟨hd', hv'⟩ := count_digit hc (carry cs)
    rw [mapAccumr_cons, mapAccumr_count_fst]
    refine ⟨List.forall_mem_cons.mpr ⟨hd', hd⟩, ?_⟩
    have hk : (carry (c :: cs)).val * 10 ^ (cs.length + 1) =
        (if digit c = 9 then 10 else 0) * 10 ^ cs.length := by
      rw [carry, Nat.pow_succ']
      split <;> simp
    have hs : strays (c :: cs) = strays cs + (if digit c = 9 ∧ carry cs = 0 then 10 else 0) * 10 ^ cs.length := by
      rw [strays, Nat.pow_succ']
      split <;> simp
    rw [value_cons, value_cons, List.length_mapAccumr, List.length_cons, hk, hs]
    have hv' := congrArg (· * 10 ^ cs.length) hv'
    simp only [Nat.add_mul] at hv'
    omega

end Value

def IsDecimal (token : OrderToken) : Prop :=
  ∀ c ∈ token.val, IsDigit c

instance : Decidable token.IsDecimal :=
  inferInstanceAs (Decidable (∀ c ∈ token.val, IsDigit c))

namespace IsDecimal

theorem parse_toNat (h : token.IsDecimal) : (parseOrderTokenDecimal token).toNat = value token.val :=
  parse_value h (by rw [token.property]; decide)

-- The index that is saved has room for no more than 32 bits of the number.
theorem lastUsedOrderTokenIndex_toNat {m : OrderManager} (h : m.token.IsDecimal) :
    m.lastUsedOrderTokenIndex.toNat = value m.token.val % 2 ^ 32 := by
  refine toNat_foldl (t := UInt32.toNat) rfl (fun hc => ?_) h
  rw [UInt32.toNat_add, UInt32.toNat_mul, hc.toUInt32, Nat.mod_add_mod]
  rfl

theorem eq_of_parse_eq (h : token.IsDecimal) (h' : token'.IsDecimal)
    (he : parseOrderTokenDecimal token = parseOrderTokenDecimal token') : token = token' := by
  have hv : value token.val = value token'.val := by rw [← h.parse_toNat, ← h'.parse_toNat, he]
  exact Subtype.ext <| value_inj h h' (token.property.trans token'.property.symm) hv

theorem next (h : token.IsDecimal) : token.next.IsDecimal :=
  (value_count h).left

-- Only a token that begins with a nine can be followed by a smaller one.
theorem value_lt_next (h : token.IsDecimal) (hv : value token.val < 10 ^ 13) :
    value token.val < value token.next.val := by
  have hn := (value_count h).right
  have ⟨c, cs, he⟩ := List.exists_cons_of_length_eq_add_one token.property
  have hl : cs.length = 13 := by simpa [he] using token.property
  rw [he, value_cons, hl] at hv
  have hk : carry token.val = 0 := by
    rw [he, carry, if_neg (by omega)]
  rw [hk] at hn
  have hn : value token.next.val + 0 * _ = _ := hn
  omega

end IsDecimal

section OfIndex

theorem digits_ofNat {k : ℕ} (h : n < 2 ^ 31) :
    (∀ c ∈ digits k (.ofNat n), IsDigit c) ∧ value (digits k (.ofNat n)) = n % 10 ^ k := by
  induction k generalizing n
  case zero => simp [digits, Nat.mod_one]
  case succ k hi =>
    have hq : (Int32.ofNat n / 10) = .ofNat (n / 10) := (Int32.ofNat_div h (by decide)).symm
    have hr : (Int32.ofNat n % 10) = .ofNat (n % 10) := (Int32.ofNat_mod h (by decide)).symm
    obtain ⟨hd, hv⟩ := hi (n := n / 10) (by omega)
    obtain ⟨hd', hv'⟩ := digitChar_ofNat (Nat.mod_lt n (by decide : 10 > 0))
    rw [digits, hq, hr, value_concat, hv, hv', Nat.pow_succ', Nat.mod_mul, List.forall_mem_append,
      List.forall_mem_singleton]
    exact ⟨⟨hd, hd'⟩, by omega⟩

theorem not_isDigit_digitChar {r : Int32} (hr : r.toInt = -n) (h : 0 < n) (hl : n < 10) : ¬IsDigit (digitChar r) := by
  have hc : ∀ d : Fin 10, 0 < d.val → ¬IsDigit (digitChar (.ofInt (-d.val))) := by decide
  rw [← Int32.ofInt_toInt r, hr]
  exact hc ⟨n, hl⟩ h

theorem toInt_neg {index : Int32} (h : index.toInt = -n) :
    (index / 10).toInt = -(n / 10 : ℕ) ∧ (index % 10).toInt = -(n % 10 : ℕ) := by
  constructor
  case left =>
    rw [Int32.toInt_div_of_ne_right _ _ (by decide), h, Int.neg_tdiv]
    rfl
  case right =>
    rw [Int32.toInt_mod, h, Int.neg_tmod]
    rfl

-- The remainders of a negative index are negative, too.
theorem digits_of_neg {index : Int32} (hi : index.toInt = -n) (h : 0 < n) (hl : n < 10 ^ k) :
    ∃ c ∈ digits k index, ¬IsDigit c := by
  induction k generalizing n index
  case zero => omega
  case succ k ih =>
    have ⟨hd, hm⟩ := toInt_neg hi
    rw [digits]
    cases Nat.eq_zero_or_pos (n % 10)
    case inl hz =>
      obtain ⟨c, hc, hn⟩ := ih hd (by omega) (by omega)
      exact ⟨c, List.mem_append_left _ hc, hn⟩
    case inr hp =>
      have hn := not_isDigit_digitChar hm hp (Nat.mod_lt _ (by decide))
      exact ⟨_, List.mem_append_right _ (List.mem_singleton_self _), hn⟩

-- As long as the index fits in the `int` that the constructor puts it in.
theorem ofIndex_isDecimal {last : UInt32} (h : last.toNat + 1 < 2 ^ 31) :
    (OrderManager.ofLastOrderTokenIndex last).token.IsDecimal ∧
      value (OrderManager.ofLastOrderTokenIndex last).token.val = last.toNat + 1 := by
  have hn : (last + 1).toInt32 = .ofNat (last.toNat + 1) := by
    rw [← UInt32.toInt32_ofNat', UInt32.ofNat_add, UInt32.ofNat_toNat]
    rfl
  have ⟨hd, hv⟩ := digits_ofNat (k := 14) h
  rw [OrderManager.ofLastOrderTokenIndex, hn]
  exact ⟨hd, hv.trans (Nat.mod_eq_of_lt (by omega))⟩

-- An index that does not fit is taken to be negative.
theorem ofIndex_not_isDecimal (h : 2 ^ 31 ≤ last.toNat + 1) (hl : last.toNat + 1 < 2 ^ 32) :
    ¬(OrderManager.ofLastOrderTokenIndex last).token.IsDecimal := by
  have hn : (last + 1).toInt32.toBitVec.toNat = last.toNat + 1 :=
    (UInt32.toNat_add ..).trans <| Nat.mod_eq_of_lt hl
  have hi : (last + 1).toInt32.toInt = -(2 ^ 32 - (last.toNat + 1) : ℕ) := by
    have hb : (last + 1).toInt32.toInt = _ := BitVec.toInt_eq_toNat_cond _
    rw [hb, hn, if_neg (by omega)]
    omega
  have ⟨c, hc, hd⟩ := digits_of_neg (k := 14) hi (by omega) (by omega)
  exact fun h => hd (h c hc)

end OfIndex

end OrderToken
