import BistHft.Lib.Bytes
import Mathlib.Data.List.OfFn

-- Integers as a little-endian host loads and stores them in packed structs, and the functions of <endian.h>.

namespace Memory

variable {m : Memory} {n o : ℕ}

def load16 (m : Memory) (offset : ℕ) : UInt16 :=
  .ofNat <| Bytes.leValue (m.bytes offset 2)

def load32 (m : Memory) (offset : ℕ) : UInt32 :=
  .ofNat <| Bytes.leValue (m.bytes offset 4)

def load64 (m : Memory) (offset : ℕ) : UInt64 :=
  .ofNat <| Bytes.leValue (m.bytes offset 8)

def store16 (m : Memory) (offset : ℕ) (x : UInt16) : Memory :=
  m.store offset (Bytes.leBytes 2 x.toNat)

def store32 (m : Memory) (offset : ℕ) (x : UInt32) : Memory :=
  m.store offset (Bytes.leBytes 4 x.toNat)

def store64 (m : Memory) (offset : ℕ) (x : UInt64) : Memory :=
  m.store offset (Bytes.leBytes 8 x.toNat)

variable {bs : List UInt8}

theorem load16_congr {m' : Memory} (h : m.bytes n 2 = m'.bytes o 2) : m.load16 n = m'.load16 o := by
  rw [load16, load16, h]

theorem load32_congr {m' : Memory} (h : m.bytes n 4 = m'.bytes o 4) : m.load32 n = m'.load32 o := by
  rw [load32, load32, h]

theorem load64_congr {m' : Memory} (h : m.bytes n 8 = m'.bytes o 8) : m.load64 n = m'.load64 o := by
  rw [load64, load64, h]

@[simp]
theorem load16_shift : (m.shift n).load16 o = m.load16 (n + o) :=
  load16_congr bytes_shift

@[simp]
theorem load32_shift : (m.shift n).load32 o = m.load32 (n + o) :=
  load32_congr bytes_shift

@[simp]
theorem load64_shift : (m.shift n).load64 o = m.load64 (n + o) :=
  load64_congr bytes_shift

theorem load32_store {x : UInt32} : (m.store o (Bytes.leBytes 4 x.toNat)).load32 o = x := by
  have hx : x.toNat < 256 ^ 4 := x.toNat_lt
  rw [load32, bytes_store Bytes.leBytes_length, Bytes.leValue_leBytes, Nat.mod_eq_of_lt hx, UInt32.ofNat_toNat]

theorem load64_store {x : UInt64} : (m.store o (Bytes.leBytes 8 x.toNat)).load64 o = x := by
  have hx : x.toNat < 256 ^ 8 := x.toNat_lt
  rw [load64, bytes_store Bytes.leBytes_length, Bytes.leValue_leBytes, Nat.mod_eq_of_lt hx, UInt64.ofNat_toNat]

theorem load32_store_of_disjoint (h : n + 4 ≤ o ∨ o + bs.length ≤ n) : (m.store o bs).load32 n = m.load32 n :=
  load32_congr <| bytes_store_of_disjoint h

theorem load64_store_of_disjoint (h : n + 8 ≤ o ∨ o + bs.length ≤ n) : (m.store o bs).load64 n = m.load64 n :=
  load64_congr <| bytes_store_of_disjoint h

theorem AgreeOn.load16 {m' : Memory} (h : AgreeOn m m' o 2) : m.load16 o = m'.load16 o :=
  load16_congr (bytes_congr h)

theorem AgreeOn.load32 {m' : Memory} (h : AgreeOn m m' o 4) : m.load32 o = m'.load32 o :=
  load32_congr (bytes_congr h)

theorem AgreeOn.load64 {m' : Memory} (h : AgreeOn m m' o 8) : m.load64 o = m'.load64 o :=
  load64_congr (bytes_congr h)

theorem leValue_bytes_lt : Bytes.leValue (m.bytes o n) < 256 ^ n := by
  simpa using Bytes.leValue_lt (m.bytes o n)

end Memory

def be16toh (x : UInt16) : UInt16 :=
  .ofNat <| Bytes.swap 2 x.toNat

def be32toh (x : UInt32) : UInt32 :=
  .ofNat <| Bytes.swap 4 x.toNat

def be64toh (x : UInt64) : UInt64 :=
  .ofNat <| Bytes.swap 8 x.toNat

abbrev htobe16 := be16toh
abbrev htobe32 := be32toh
abbrev htobe64 := be64toh

section Endian

variable {m : Memory} {o : ℕ}

@[simp]
theorem be16toh_toNat {x : UInt16} : (be16toh x).toNat = Bytes.swap 2 x.toNat :=
  UInt16.toNat_ofNat_of_lt' Bytes.swap_lt

@[simp]
theorem be32toh_toNat {x : UInt32} : (be32toh x).toNat = Bytes.swap 4 x.toNat :=
  UInt32.toNat_ofNat_of_lt' Bytes.swap_lt

@[simp]
theorem be64toh_toNat {x : UInt64} : (be64toh x).toNat = Bytes.swap 8 x.toNat :=
  UInt64.toNat_ofNat_of_lt' Bytes.swap_lt

@[simp]
theorem be16toh_be16toh {x : UInt16} : be16toh (be16toh x) = x := by
  apply UInt16.toNat_inj.mp
  have hx : x.toNat < 256 ^ 2 := x.toNat_lt
  simp [Bytes.swap_swap hx]

@[simp]
theorem be32toh_be32toh {x : UInt32} : be32toh (be32toh x) = x := by
  apply UInt32.toNat_inj.mp
  have hx : x.toNat < 256 ^ 4 := x.toNat_lt
  simp [Bytes.swap_swap hx]

@[simp]
theorem be64toh_be64toh {x : UInt64} : be64toh (be64toh x) = x := by
  apply UInt64.toNat_inj.mp
  have hx : x.toNat < 256 ^ 8 := x.toNat_lt
  simp [Bytes.swap_swap hx]

theorem be32toh_inj {x y : UInt32} (h : be32toh x = be32toh y) : x = y := by
  rw [← be32toh_be32toh (x := x), h, be32toh_be32toh]

theorem be64toh_inj {x y : UInt64} (h : be64toh x = be64toh y) : x = y := by
  rw [← be64toh_be64toh (x := x), h, be64toh_be64toh]

-- A loaded field, converted to host order, is the big-endian number at its place.
theorem be16toh_load16 : (be16toh (m.load16 o)).toNat = Bytes.beValue (m.bytes o 2) := by
  have hl : (m.load16 o).toNat = _ := UInt16.toNat_ofNat_of_lt' Memory.leValue_bytes_lt
  rw [be16toh_toNat, hl, Bytes.swap_leValue Memory.bytes_length]

theorem be32toh_load32 : (be32toh (m.load32 o)).toNat = Bytes.beValue (m.bytes o 4) := by
  have hl : (m.load32 o).toNat = _ := UInt32.toNat_ofNat_of_lt' Memory.leValue_bytes_lt
  rw [be32toh_toNat, hl, Bytes.swap_leValue Memory.bytes_length]

theorem be64toh_load64 : (be64toh (m.load64 o)).toNat = Bytes.beValue (m.bytes o 8) := by
  have hl : (m.load64 o).toNat = _ := UInt64.toNat_ofNat_of_lt' Memory.leValue_bytes_lt
  rw [be64toh_toNat, hl, Bytes.swap_leValue Memory.bytes_length]

end Endian

-- `struct.pack` with the formats ">H", ">I" and ">Q".

def pack16 (x : UInt16) : List UInt8 :=
  Bytes.beBytes 2 x.toNat

def pack32 (x : UInt32) : List UInt8 :=
  Bytes.beBytes 4 x.toNat

def pack64 (x : UInt64) : List UInt8 :=
  Bytes.beBytes 8 x.toNat

section Pack

variable {m : Memory} {o n v w : ℕ} {as bs : List UInt8}

@[simp]
theorem pack16_length {x : UInt16} : (pack16 x).length = 2 :=
  Bytes.beBytes_length

@[simp]
theorem pack32_length {x : UInt32} : (pack32 x).length = 4 :=
  Bytes.beBytes_length

@[simp]
theorem pack64_length {x : UInt64} : (pack64 x).length = 8 :=
  Bytes.beBytes_length

theorem beBytes_append_inj (hv : v < 256 ^ n) (hw : w < 256 ^ n) :
    Bytes.beBytes n v ++ as = Bytes.beBytes n w ++ bs ↔ v = w ∧ as = bs := by
  constructor
  case mp =>
    intro h
    have ⟨hb, ht⟩ := List.append_inj h (by simp)
    exact ⟨by rw [← Bytes.beValue_beBytes hv, hb, Bytes.beValue_beBytes hw], ht⟩
  case mpr => exact fun ⟨h₁, h₂⟩ => h₁ ▸ h₂ ▸ rfl

@[simp]
theorem pack16_append_inj {x y : UInt16} : pack16 x ++ as = pack16 y ++ bs ↔ x = y ∧ as = bs := by
  simp only [pack16, beBytes_append_inj (n := 2) x.toNat_lt y.toNat_lt, UInt16.toNat_inj]

@[simp]
theorem pack32_append_inj {x y : UInt32} : pack32 x ++ as = pack32 y ++ bs ↔ x = y ∧ as = bs := by
  simp only [pack32, beBytes_append_inj (n := 4) x.toNat_lt y.toNat_lt, UInt32.toNat_inj]

@[simp]
theorem pack64_append_inj {x y : UInt64} : pack64 x ++ as = pack64 y ++ bs ↔ x = y ∧ as = bs := by
  simp only [pack64, beBytes_append_inj (n := 8) x.toNat_lt y.toNat_lt, UInt64.toNat_inj]

theorem ofFn_append_inj {f g : Fin n → UInt8} :
    List.ofFn f ++ as = List.ofFn g ++ bs ↔ f = g ∧ as = bs := by
  constructor
  case mp =>
    intro h
    have ⟨hf, ht⟩ := List.append_inj h (by simp)
    exact ⟨List.ofFn_injective hf, ht⟩
  case mpr => exact fun ⟨h₁, h₂⟩ => h₁ ▸ h₂ ▸ rfl

-- Packing a converted field gives back the bytes from which it was loaded.

theorem pack16_load : pack16 (be16toh (m.load16 o)) = m.bytes o 2 := by
  rw [pack16, be16toh_load16, Bytes.beBytes_beValue Memory.bytes_length]

theorem pack32_load : pack32 (be32toh (m.load32 o)) = m.bytes o 4 := by
  rw [pack32, be32toh_load32, Bytes.beBytes_beValue Memory.bytes_length]

theorem pack64_load : pack64 (be64toh (m.load64 o)) = m.bytes o 8 := by
  rw [pack64, be64toh_load64, Bytes.beBytes_beValue Memory.bytes_length]

-- What is loaded determines the bytes.

theorem Memory.AgreeOn.of_load32 {m' : Memory} (h : m.load32 o = m'.load32 o) : AgreeOn m m' o 4 :=
  bytes_eq_iff.mp <| by rw [← pack32_load, h, pack32_load]

theorem Memory.AgreeOn.of_load64 {m' : Memory} (h : m.load64 o = m'.load64 o) : AgreeOn m m' o 8 :=
  bytes_eq_iff.mp <| by rw [← pack64_load, h, pack64_load]

-- A packed number is what a load at its place sees.

theorem load16_pack {x : UInt16} (h : m.bytes o 2 = pack16 x) : be16toh (m.load16 o) = x := by
  apply UInt16.toNat_inj.mp
  rw [be16toh_load16, h, pack16, Bytes.beValue_beBytes x.toNat_lt]

theorem load64_pack {x : UInt64} (h : m.bytes o 8 = pack64 x) : be64toh (m.load64 o) = x := by
  apply UInt64.toNat_inj.mp
  rw [be64toh_load64, h, pack64, Bytes.beValue_beBytes x.toNat_lt]

-- A converted number is stored as it is packed.

theorem bytes_store16 {x : UInt16} : (m.store16 o (htobe16 x)).bytes o 2 = pack16 x := by
  rw [Memory.store16, Memory.bytes_store Bytes.leBytes_length, be16toh_toNat, Bytes.swap,
    Bytes.leBytes_leValue Bytes.beBytes_length, pack16]

end Pack
