import Mathlib.Data.List.Basic
import Mathlib.Tactic.Ring

-- Byte strings as numbers in both byte orders, and memory as seen from a pointer.

namespace Bytes

variable {n v : ℕ} {bs : List UInt8}

def leValue : List UInt8 → ℕ
  | []      => 0
  | b :: bs => b.toNat + 256 * leValue bs

def leBytes : ℕ → ℕ → List UInt8
  | 0, _     => []
  | n + 1, v => UInt8.ofNat v :: leBytes n (v / 256)

def beValue (bs : List UInt8) : ℕ :=
  leValue bs.reverse

def beBytes (n v : ℕ) : List UInt8 :=
  (leBytes n v).reverse

-- The number whose bytes are those of `v` in the opposite order.
def swap (n v : ℕ) : ℕ :=
  leValue (beBytes n v)

@[simp]
theorem leBytes_length : (leBytes n v).length = n := by
  induction n generalizing v
  case zero    => rfl
  case succ hi => simp [leBytes, hi]

@[simp]
theorem beBytes_length : (beBytes n v).length = n := by
  simp [beBytes]

theorem leValue_leBytes : leValue (leBytes n v) = v % 256 ^ n := by
  induction n generalizing v
  case zero    => simp [leBytes, leValue, Nat.mod_one]
  case succ hi => rw [leBytes, leValue, hi, Nat.pow_succ', Nat.mod_mul, UInt8.toNat_ofNat']

theorem leBytes_leValue (h : bs.length = n) : leBytes n (leValue bs) = bs := by
  induction bs generalizing n
  case nil => subst h; rfl
  case cons b bs hi =>
    subst h
    have hb : b.toNat < 256 := b.toNat_lt
    have hd : (b.toNat + 256 * leValue bs) / 256 = leValue bs := by omega
    have hm : UInt8.ofNat (b.toNat + 256 * leValue bs) = b := by
      apply UInt8.toNat_inj.mp
      rw [UInt8.toNat_ofNat']
      omega
    rw [leValue, List.length_cons, leBytes, hd, hi rfl, hm]

theorem leValue_lt (bs : List UInt8) : leValue bs < 256 ^ bs.length := by
  induction bs
  case nil => simp [leValue]
  case cons b bs hi =>
    have hb : b.toNat < 256 := b.toNat_lt
    rw [leValue, List.length_cons, Nat.pow_succ]
    omega

theorem beValue_beBytes (h : v < 256 ^ n) : beValue (beBytes n v) = v := by
  rw [beValue, beBytes, List.reverse_reverse, leValue_leBytes, Nat.mod_eq_of_lt h]

theorem beBytes_beValue (h : bs.length = n) : beBytes n (beValue bs) = bs := by
  rw [beBytes, beValue, leBytes_leValue (by simpa using h), List.reverse_reverse]

theorem swap_leValue (h : bs.length = n) : swap n (leValue bs) = beValue bs := by
  rw [swap, beBytes, leBytes_leValue h, beValue]

theorem swap_swap (h : v < 256 ^ n) : swap n (swap n v) = v :=
  (swap_leValue beBytes_length).trans (beValue_beBytes h)

theorem swap_lt : swap n v < 256 ^ n := by
  simpa [swap] using leValue_lt (beBytes n v)

end Bytes

-- The bytes from a pointer onwards.
abbrev Memory := ℕ → UInt8

namespace Memory

variable {m : Memory} {n o k : ℕ} {bs cs : List UInt8}

-- The memory from `ptr + offset` onwards.
def shift (m : Memory) (offset : ℕ) : Memory :=
  fun i => m (offset + i)

def bytes (m : Memory) (offset n : ℕ) : List UInt8 :=
  (List.range n).map fun i => m (offset + i)

def ofList (bs : List UInt8) : Memory :=
  fun i => bs.getD i 0

-- An object of zeros, an object of zeros with the first bytes copied from elsewhere, and an object
-- with some bytes overwritten.

def zeros : Memory :=
  fun _ => 0

def copied (m : Memory) (n : ℕ) : Memory :=
  fun i => if i < n then m i else 0

def store (m : Memory) (offset : ℕ) (bs : List UInt8) : Memory :=
  fun i => if offset ≤ i ∧ i < offset + bs.length then bs.getD (i - offset) 0 else m i

-- The pointer points to these bytes; nothing is said about what follows them.
def Holds (m : Memory) (bs : List UInt8) : Prop :=
  m.bytes 0 bs.length = bs

@[simp]
theorem bytes_length : (m.bytes o n).length = n := by
  simp [bytes]

@[simp]
theorem bytes_shift : (m.shift n).bytes o k = m.bytes (n + o) k := by
  simp [bytes, shift, Nat.add_assoc]

theorem shift_apply {i} : m.shift n i = m (n + i) :=
  rfl

@[simp]
theorem shift_shift : (m.shift n).shift o = m.shift (n + o) := by
  funext i
  simp [shift, Nat.add_assoc]

@[simp]
theorem shift_zero : m.shift 0 = m := by
  funext i
  simp [shift]

theorem bytes_add : m.bytes o (n + k) = m.bytes o n ++ m.bytes (o + n) k := by
  simp [bytes, List.range_add, Nat.add_assoc]

theorem copied_apply {i} (h : i < n) : m.copied n i = m i :=
  if_pos h

theorem bytes_copied (h : o + k ≤ n) : (m.copied n).bytes o k = m.bytes o k := by
  apply List.map_congr_left
  intro i hi
  exact copied_apply <| Nat.lt_of_lt_of_le (Nat.add_lt_add_left (List.mem_range.mp hi) o) h

theorem bytes_congr {m' : Memory} (h : ∀ i, o ≤ i → i < o + n → m i = m' i) : m.bytes o n = m'.bytes o n := by
  apply List.map_congr_left
  intro i hi
  exact h _ (Nat.le_add_right ..) (Nat.add_lt_add_left (List.mem_range.mp hi) o)

-- The memories hold the same bytes there.
def AgreeOn (m m' : Memory) (offset n : ℕ) : Prop :=
  ∀ i, offset ≤ i → i < offset + n → m i = m' i

theorem bytes_eq_iff {m' : Memory} : m.bytes o n = m'.bytes o n ↔ AgreeOn m m' o n where
  mpr h := bytes_congr h
  mp h i hl hu := by
    obtain ⟨j, rfl⟩ := Nat.exists_eq_add_of_le hl
    have hj : j < n := Nat.lt_of_add_lt_add_left hu
    exact List.map_inj_left.mp h j (List.mem_range.mpr hj)

theorem AgreeOn.shift {m' : Memory} {s : ℕ} (h : AgreeOn m m' (s + o) n) : AgreeOn (m.shift s) (m'.shift s) o n :=
  fun i hl hu => h (s + i) (Nat.add_le_add_left hl s) (by omega)

theorem AgreeOn.apply {m' : Memory} (h : AgreeOn m m' o 1) : m o = m' o :=
  h o (Nat.le_refl o) (Nat.lt_succ_self o)

theorem AgreeOn.of_apply {m' : Memory} (h : m o = m' o) : AgreeOn m m' o 1 :=
  fun _ hl hu => Nat.le_antisymm hl (Nat.le_of_lt_succ hu) ▸ h

theorem AgreeOn.append {m' : Memory} (h : AgreeOn m m' o n) (hk : AgreeOn m m' (o + n) k) : AgreeOn m m' o (n + k) := by
  intro i hl hu
  cases Nat.lt_or_ge i (o + n)
  case inl hi => exact h i hl hi
  case inr hi => exact hk i hi (by omega)

theorem AgreeOn.copied {m' : Memory} (h : AgreeOn m m' 0 n) : m.copied n = m'.copied n := by
  funext i
  rw [Memory.copied, Memory.copied]
  split
  case isTrue hi  => exact h i (Nat.zero_le i) (Nat.lt_of_lt_of_eq hi (Nat.zero_add n).symm)
  case isFalse hi => rfl

theorem bytes_split {i} (hl : o ≤ i) (hu : i < o + n) :
    m.bytes o n = m.bytes o (i - o) ++ m i :: m.bytes (i + 1) (o + n - (i + 1)) := by
  have hn : n = i - o + (1 + (o + n - (i + 1))) := by omega
  have ho : o + (i - o) = i := Nat.add_sub_of_le hl
  conv => lhs; rw [hn, bytes_add, ho, bytes_add]
  rfl

-- A store is read back where it was made, and changes nothing elsewhere.

theorem bytes_store (h : bs.length = n) : (m.store o bs).bytes o n = bs := by
  subst h
  apply List.ext_getElem bytes_length
  intro i _ hi
  simp [bytes, store, hi]

theorem store_singleton {b : UInt8} : m.store n [b] n = b := by
  simp [store]

theorem store_apply {i} (h : i < o ∨ o + bs.length ≤ i) : m.store o bs i = m i :=
  if_neg (by omega)

theorem bytes_store_of_disjoint (h : k + n ≤ o ∨ o + bs.length ≤ k) :
    (m.store o bs).bytes k n = m.bytes k n := by
  apply List.map_congr_left
  intro i hi
  have hi := List.mem_range.mp hi
  exact store_apply (by omega)

theorem store_congr {m' : Memory} {i} (h : m i = m' i) : m.store o bs i = m'.store o bs i := by
  rw [store, store, h]

theorem store_bytes_apply {m' : Memory} {i} (hl : o ≤ i) (hu : i < o + n) :
    m.store o (m'.bytes k n) i = m' (k + (i - o)) := by
  have hi : i - o < n := by omega
  simp [store, bytes, hl, hu, hi]

-- A short text in a field that holds the same byte throughout.
theorem bytes_store_replicate {b : UInt8} (hm : m.bytes o n = .replicate n b) (h : bs.length ≤ n) :
    (m.store o bs).bytes o n = bs ++ .replicate (n - bs.length) b := by
  obtain ⟨k, rfl⟩ := Nat.exists_eq_add_of_le h
  rw [bytes_add, List.replicate_add] at hm
  rw [bytes_add, bytes_store rfl, bytes_store_of_disjoint (.inr (Nat.le_refl _)), Nat.add_sub_cancel_left]
  exact congrArg _ (List.append_inj hm (by simp)).right

theorem holds_append : m.Holds (bs ++ cs) ↔ m.Holds bs ∧ (m.shift bs.length).Holds cs := by
  simp only [Holds, List.length_append, bytes_add, bytes_shift, Nat.zero_add, Nat.add_zero]
  exact ⟨(List.append_inj · bytes_length), fun ⟨h₁, h₂⟩ => congrArg₂ _ h₁ h₂⟩

theorem Holds.take (h : m.Holds (bs ++ cs)) : m.Holds bs :=
  (holds_append.mp h).left

theorem Holds.drop (h : m.Holds (bs ++ cs)) : (m.shift bs.length).Holds cs :=
  (holds_append.mp h).right

theorem Holds.bytes_eq (h : m.Holds bs) (hl : o + n ≤ bs.length) :
    m.bytes o n = (bs.drop o).take n := by
  have hs : bs.length = o + n + (bs.length - (o + n)) := by omega
  rw [Holds, hs, bytes_add, bytes_add, Nat.zero_add] at h
  rw [← h, List.append_assoc, List.drop_left' bytes_length, List.take_left' bytes_length]

theorem bytes_one : m.bytes o 1 = [m o] :=
  rfl

theorem Holds.apply {i} (h : m.Holds bs) (hi : i < bs.length) : m i = bs[i] := by
  have hb := h.bytes_eq (o := i) (n := 1) hi
  rw [bytes_one, List.drop_eq_getElem_cons hi] at hb
  exact (List.cons.inj hb).left

theorem holds_of_apply (h : ∀ i, (hi : i < bs.length) → m i = bs[i]) : m.Holds bs := by
  apply List.ext_getElem bytes_length
  intro i _ hi
  simp [bytes, h i hi]

theorem Holds.apply_bytes {m' : Memory} {i} (h : m'.Holds (m.bytes 0 n)) (hi : i < n) : m' i = m i := by
  rw [h.apply (bytes_length.symm ▸ hi)]
  simp [bytes]

theorem holds_ofList : (ofList bs).Holds bs :=
  holds_of_apply fun i hi => by simp [ofList, hi]

end Memory
