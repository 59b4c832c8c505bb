import BistHft.Lib.Run
import BistHft.Protocol.ItchParser
import Mathlib.Logic.Function.Iterate

-- Which bytes the parser and the builder look at, and when they all belong to the datagram.

namespace ItchParser

universe u

variable {σ ε : Type u} {builder : σ → Call → Except ε σ} {fields : UInt8 → List (ℕ × ℕ)} {extent : UInt8 → ℕ}
variable {b : σ} {m : Memory} {size n o : ℕ} {offset : UInt32}

-- What is read at an offset of the datagram. A field of a message belongs to a block, which has an end.
structure Read where
  offset : ℕ
  size   : ℕ
  block  : Option ℕ := none

def Read.Inside (size : ℕ) (r : Read) : Prop :=
  r.offset + r.size ≤ size ∧ ∀ e ∈ r.block, r.offset + r.size ≤ e

-- `fields` gives the fields that are read from a message of a type, each with its offset and size.
def blockReads (fields : UInt8 → List (ℕ × ℕ)) (m : Memory) (o : ℕ) : List Read :=
  { offset := o, size := 2 } :: { offset := o + 2, size := 1 } :: (fields (m (o + 2))).map fun field => {
    offset := o + 2 + field.1
    size   := field.2
    block  := some (o + 2 + (be16toh (m.load16 o)).toNat)
  }

-- The loop of `parsePayload`, which ends early when the builder fails.
def payloadReads (builder : σ → Call → Except ε σ) (fields : UInt8 → List (ℕ × ℕ)) (m : Memory) :
    ℕ → UInt32 → σ → List Read
  | 0, _, _          => []
  | n + 1, offset, b =>
    blockReads fields m (20 + offset.toNat) ++
      match handle builder b ((m.shift 20).shift (offset.toNat + 2)) with
      | .ok b    => payloadReads builder fields m n (nextOffset (m.shift 20) offset) b
      | .error _ => []

def headerReads : List Read :=
  [{ offset := 0, size := 10 }, { offset := 10, size := 8 }, { offset := 18, size := 2 }]

def reads (builder : σ → Call → Except ε σ) (fields : UInt8 → List (ℕ × ℕ)) (b : σ) (m : Memory) : List Read :=
  headerReads ++ payloadReads builder fields m (be16toh m.downstreamHeader.messageCount).toNat 0 b

section Inside

-- What is read from a message of a type ends at its extent.
def Spans (fields : UInt8 → List (ℕ × ℕ)) (extent : UInt8 → ℕ) : Prop :=
  ∀ type n, (∀ field ∈ fields type, field.1 + field.2 ≤ n) ↔ extent type ≤ n

-- Length and type of the block are there, and the block, which is long enough for what is read
-- from it, is there as far as it is read.
structure BlockFits (extent : UInt8 → ℕ) (m : Memory) (size o : ℕ) : Prop where
  header : o + 3 ≤ size
  block  : extent (m (o + 2)) ≤ (be16toh (m.load16 o)).toNat
  fields : o + 2 + extent (m (o + 2)) ≤ size

theorem inside_none : ({ offset := o, size := n } : Read).Inside size ↔ o + n ≤ size := by
  simp [Read.Inside]

theorem inside_some {e : ℕ} :
    ({ offset := o, size := n, block := some e } : Read).Inside size ↔ o + n ≤ size ∧ o + n ≤ e := by
  simp [Read.Inside]

theorem blockReads_inside_iff (hs : Spans fields extent) :
    (∀ r ∈ blockReads fields m o, r.Inside size) ↔ BlockFits extent m size o := by
  have hb := hs (m (o + 2)) (be16toh (m.load16 o)).toNat
  have hf := hs (m (o + 2)) (size - (o + 2))
  simp only [blockReads, List.forall_mem_cons, List.forall_mem_map, inside_none, inside_some]
  constructor
  case mp =>
    intro ⟨_, ht, h⟩
    have hb := hb.mp fun field hm => by have := (h field hm).right; omega
    have hf := hf.mp fun field hm => by have := (h field hm).left; omega
    exact ⟨ht, hb, by omega⟩
  case mpr =>
    intro ⟨ht, hb', hf'⟩
    refine ⟨by omega, ht, fun field hm => ?_⟩
    have hb := hb.mpr hb' field hm
    have hf := hf.mpr (by omega) field hm
    exact ⟨by omega, by omega⟩

-- Message `i` is reached if the builder has accepted those before it.
theorem payloadReads_inside_iff (hs : Spans fields extent) :
    (∀ r ∈ payloadReads builder fields m n offset b, r.Inside size) ↔
      ∀ i < n, ∀ b', parsePayload.loop builder (m.shift 20) i offset b = .ok b' →
        BlockFits extent m size (20 + ((nextOffset (m.shift 20))^[i] offset).toNat) := by
  induction n generalizing offset b
  case zero => simp [payloadReads]
  case succ n hi =>
    rw [payloadReads, List.forall_mem_append, blockReads_inside_iff hs, Nat.forall_lt_succ_left]
    refine and_congr ?first ?rest
    case first => exact ⟨fun h _ _ => h, fun h => h b rfl⟩
    case rest =>
      simp only [parsePayload.loop, Function.iterate_succ_apply]
      cases handle builder b ((m.shift 20).shift (offset.toNat + 2))
      case error => exact iff_of_true (List.forall_mem_nil _) fun _ _ _ h => absurd h.symm Run.ok_ne_error
      case ok b₁ => exact hi

theorem headerReads_inside_iff : (∀ r ∈ headerReads, r.Inside size) ↔ 20 ≤ size := by
  simp [headerReads, inside_none]
  omega

theorem reads_inside_iff (hs : Spans fields extent) :
    (∀ r ∈ reads builder fields b m, r.Inside size) ↔
      20 ≤ size ∧ ∀ i < (be16toh m.downstreamHeader.messageCount).toNat, ∀ b',
        parsePayload.loop builder (m.shift 20) i 0 b = .ok b' →
          BlockFits extent m size (20 + ((nextOffset (m.shift 20))^[i] 0).toNat) := by
  rw [reads, List.forall_mem_append, headerReads_inside_iff, payloadReads_inside_iff hs]

end Inside

section Builder

-- The fields of a message, and those among them that the orderbook builder uses.

def structFields (type : UInt8) : List (ℕ × ℕ) :=
  if type = 'A'.toUInt8 then
    [(0, 1), (1, 4), (5, 8), (13, 4), (17, 1), (18, 4), (22, 8), (30, 4), (34, 2), (36, 1)]
  else if type = 'E'.toUInt8 then
    [(0, 1), (1, 4), (5, 8), (13, 4), (17, 1), (18, 8), (26, 8), (34, 4), (38, 7), (45, 7)]
  else if type = 'D'.toUInt8 then
    [(0, 1), (1, 4), (5, 8), (13, 4), (17, 1)]
  else
    []

def structExtent (type : UInt8) : ℕ :=
  if type = 'A'.toUInt8 then 37 else if type = 'E'.toUInt8 then 52 else if type = 'D'.toUInt8 then 18 else 0

def builderFields (type : UInt8) : List (ℕ × ℕ) :=
  if type = 'A'.toUInt8 then
    [(5, 8), (13, 4), (30, 4), (22, 8), (17, 1)]
  else if type = 'E'.toUInt8 then
    [(5, 8), (13, 4), (17, 1), (18, 8)]
  else if type = 'D'.toUInt8 then
    [(5, 8), (13, 4), (17, 1)]
  else
    []

def builderExtent (type : UInt8) : ℕ :=
  if type = 'A'.toUInt8 then 34 else if type = 'E'.toUInt8 then 26 else if type = 'D'.toUInt8 then 18 else 0

theorem structFields_span : Spans structFields structExtent := by
  intro type n
  rw [structFields, structExtent]
  split
  case isTrue => simp; omega
  case isFalse =>
    split
    case isTrue => simp; omega
    case isFalse => split <;> simp; omega

theorem builderFields_span : Spans builderFields builderExtent := by
  intro type n
  rw [builderFields, builderExtent]
  split
  case isTrue => simp; omega
  case isFalse =>
    split
    case isTrue => simp; omega
    case isFalse => split <;> simp; omega

end Builder

section Footprint

-- The parser does depend on nothing but what is said to be read.

variable {b : OrderbookBuilder} {data data' m' : Memory} {parser : ItchParser} {x y : AddOrder} {e e' : OrderExecuted}
variable {r r' : OrderDelete}

theorem addOrder_congr (h₁ : x.orderId = y.orderId) (h₂ : x.orderbookId = y.orderbookId) (h₃ : x.price = y.price)
    (h₄ : x.quantity = y.quantity) (h₅ : x.side = y.side) : b.addOrder x = b.addOrder y := by
  simp only [OrderbookBuilder.addOrder, h₁, h₂, h₃, h₄, h₅]

theorem executeOrder_congr (h₁ : e.orderId = e'.orderId) (h₂ : e.orderbookId = e'.orderbookId) (h₃ : e.side = e'.side)
    (h₄ : e.quantity = e'.quantity) : b.executeOrder e = b.executeOrder e' := by
  rw [OrderbookBuilder.executeOrder, OrderbookBuilder.executeOrder, h₁, h₂, h₃, h₄]

theorem deleteOrder_congr (h₁ : r.orderId = r'.orderId) (h₂ : r.orderbookId = r'.orderbookId) (h₃ : r.side = r'.side) :
    b.deleteOrder r = b.deleteOrder r' := by
  rw [OrderbookBuilder.deleteOrder, OrderbookBuilder.deleteOrder, h₁, h₂, h₃]

theorem handle_congr (ht : data 0 = data' 0) (h : ∀ field ∈ builderFields (data 0), data.AgreeOn data' field.1 field.2) :
    handle Call.apply b data = handle Call.apply b data' := by
  rw [handle, handle, ← ht]
  rw [builderFields] at h
  split
  case isTrue ha =>
    simp only [if_pos ha, List.forall_mem_cons] at h
    obtain ⟨h₁, h₂, h₃, h₄, h₅, _⟩ := h
    have hp := congrArg UInt32.toInt32 h₃.load32
    exact congrArg Except.ok <| addOrder_congr h₁.load64 h₂.load32 hp h₄.load64 h₅.apply
  case isFalse ha =>
    rw [if_neg ha] at h
    split
    case isTrue he =>
      simp only [if_pos he, List.forall_mem_cons] at h
      obtain ⟨h₁, h₂, h₃, h₄, _⟩ := h
      exact executeOrder_congr h₁.load64 h₂.load32 h₃.apply h₄.load64
    case isFalse he =>
      rw [if_neg he] at h
      split
      case isFalse => rfl
      case isTrue hd =>
        simp only [if_pos hd, List.forall_mem_cons] at h
        obtain ⟨h₁, h₂, h₃, _⟩ := h
        exact deleteOrder_congr h₁.load64 h₂.load32 h₃.apply

theorem loop_congr (h : ∀ r ∈ payloadReads Call.apply builderFields m n offset b, m.AgreeOn m' r.offset r.size) :
    parsePayload.loop Call.apply (m.shift 20) n offset b = parsePayload.loop Call.apply (m'.shift 20) n offset b := by
  induction n generalizing offset b
  case zero => rfl
  case succ n hi =>
    rw [payloadReads, List.forall_mem_append, blockReads, List.forall_mem_cons, List.forall_mem_cons,
      List.forall_mem_map] at h
    obtain ⟨⟨hlength, htype, hfields⟩, hrest⟩ := h
    have hn : nextOffset (m.shift 20) offset = nextOffset (m'.shift 20) offset := by
      rw [nextOffset, nextOffset, Memory.load16_shift, Memory.load16_shift, Memory.AgreeOn.load16 hlength]
    have hh : handle Call.apply b ((m.shift 20).shift (offset.toNat + 2)) =
        handle Call.apply b ((m'.shift 20).shift (offset.toNat + 2)) := by
      have ht := Memory.AgreeOn.apply htype
      refine handle_congr ht fun field hf => ?_
      rw [Memory.shift_shift, Memory.shift_shift]
      exact Memory.AgreeOn.shift (hfields field hf)
    rw [parsePayload.loop, parsePayload.loop, ← hh, ← hn]
    cases hb : handle Call.apply b ((m.shift 20).shift (offset.toNat + 2))
    case error => rfl
    case ok b₁ =>
      rw [hb] at hrest
      exact hi hrest

theorem parse_congr (h : ∀ r ∈ reads Call.apply builderFields b m, m.AgreeOn m' r.offset r.size) :
    parser.parse Call.apply b (some m) = parser.parse Call.apply b (some m') := by
  obtain ⟨hheader, hpayload⟩ := List.forall_mem_append.mp h
  simp only [headerReads, List.forall_mem_cons] at hheader
  obtain ⟨h₁, h₂, h₃, _⟩ := hheader
  have hd : m.downstreamHeader = m'.downstreamHeader := by
    rw [Memory.downstreamHeader, Memory.downstreamHeader, Memory.bytes_congr h₁, Memory.AgreeOn.load64 h₂,
      Memory.AgreeOn.load16 h₃]
  simp only [parse, parsePayload, ← hd, loop_congr hpayload]

-- With all reads inside of the datagram, what follows it makes no difference.
theorem parse_congr_of_inside (hr : ∀ r ∈ reads Call.apply builderFields b m, r.Inside size)
    (h : ∀ i < size, m i = m' i) : parser.parse Call.apply b (some m) = parser.parse Call.apply b (some m') :=
  parse_congr fun r hm i _ hu => h i (Nat.lt_of_lt_of_le hu (hr r hm).left)

-- Inside of the datagram as far as the builder looks at it, and inside of the blocks as far as all
-- of the fields are concerned.
theorem parse_inside_iff (b : OrderbookBuilder) (m : Memory) (size : ℕ) :
    ((∀ r ∈ reads Call.apply builderFields b m, r.Inside size) ↔
      20 ≤ size ∧ ∀ i < (be16toh m.downstreamHeader.messageCount).toNat, ∀ b',
        parsePayload.loop Call.apply (m.shift 20) i 0 b = .ok b' →
          BlockFits builderExtent m size (20 + ((nextOffset (m.shift 20))^[i] 0).toNat)) ∧
    ((∀ r ∈ reads Call.apply structFields b m, r.Inside size) ↔
      20 ≤ size ∧ ∀ i < (be16toh m.downstreamHeader.messageCount).toNat, ∀ b',
        parsePayload.loop Call.apply (m.shift 20) i 0 b = .ok b' →
          BlockFits structExtent m size (20 + ((nextOffset (m.shift 20))^[i] 0).toNat)) :=
  ⟨reads_inside_iff builderFields_span, reads_inside_iff structFields_span⟩

section Samples

-- A header that announces one message, and nothing behind it.
def truncated : List UInt8 :=
  .replicate 10 'S'.toUInt8 ++ pack64 1 ++ pack16 1

theorem truncated_reads_outside :
    truncated.length = 20 ∧ ¬∀ r ∈ reads Call.apply builderFields {} (.ofList truncated), r.Inside truncated.length := by
  have hc : (be16toh (Memory.ofList truncated).downstreamHeader.messageCount).toNat = 1 := by decide +kernel
  refine ⟨rfl, fun h => ?_⟩
  rw [reads, hc, payloadReads] at h
  have h := (List.forall_mem_append.mp (List.forall_mem_append.mp h).right).left _ List.mem_cons_self
  exact absurd (inside_none.mp h) (by decide)

end Samples

end Footprint

end ItchParser
