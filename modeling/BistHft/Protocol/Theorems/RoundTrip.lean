import BistHft.Protocol.ItchParser
import BistHft.Tools.DummyPcap
import BistHft.Lib.Run

-- Parsing undoes the encoding of packets.

section Layout

-- The fields in host order, and the bytes of the packed layout in network order.

def AddOrder.toHost (m : AddOrder) : AddOrder where
  type              := m.type
  nanoseconds       := be32toh m.nanoseconds
  orderId           := be64toh m.orderId
  orderbookId       := be32toh m.orderbookId
  side              := m.side
  orderbookPosition := be32toh m.orderbookPosition
  quantity          := be64toh m.quantity
  price             := (be32toh m.price.toUInt32).toInt32
  orderAttributes   := be16toh m.orderAttributes
  lotType           := m.lotType

def OrderExecuted.toHost (m : OrderExecuted) : OrderExecuted where
  type         := m.type
  nanoseconds  := be32toh m.nanoseconds
  orderId      := be64toh m.orderId
  orderbookId  := be32toh m.orderbookId
  side         := m.side
  quantity     := be64toh m.quantity
  matchId      := be64toh m.matchId
  comboGroupId := be32toh m.comboGroupId
  reserved1    := m.reserved1
  reserved2    := m.reserved2

def OrderDelete.toHost (m : OrderDelete) : OrderDelete where
  type        := m.type
  nanoseconds := be32toh m.nanoseconds
  orderId     := be64toh m.orderId
  orderbookId := be32toh m.orderbookId
  side        := m.side

def OrderExecuted.pack (m : OrderExecuted) : List UInt8 :=
  [m.type] ++ (pack32 m.nanoseconds ++ (pack64 m.orderId ++ (pack32 m.orderbookId ++ ([m.side] ++
    (pack64 m.quantity ++ (pack64 m.matchId ++ (pack32 m.comboGroupId ++
      (List.ofFn m.reserved1 ++ List.ofFn m.reserved2))))))))

def OrderDelete.pack (m : OrderDelete) : List UInt8 :=
  [m.type] ++ (pack32 m.nanoseconds ++ (pack64 m.orderId ++ (pack32 m.orderbookId ++ [m.side])))

variable {mem : Memory} {extra extra' : List UInt8}

theorem AddOrder.pack_toHost : mem.addOrder.toHost.pack = mem.bytes 0 37 := by
  simp only [pack, toHost, Memory.addOrder, pack64_load, pack32_load, pack16_load, UInt32.toUInt32_toInt32]
  rfl

theorem OrderExecuted.pack_toHost : mem.orderExecuted.toHost.pack = mem.bytes 0 52 := by
  simp only [pack, toHost, Memory.orderExecuted, pack64_load, pack32_load]
  rfl

theorem OrderDelete.pack_toHost : mem.orderDelete.toHost.pack = mem.bytes 0 18 := by
  simp only [pack, toHost, Memory.orderDelete, pack64_load, pack32_load]
  rfl

theorem AddOrder.pack_inj {m m' : AddOrder} (h : m.pack ++ extra = m'.pack ++ extra') : m = m' := by
  cases m; cases m'
  simp [pack] at h ⊢
  have hp := congrArg UInt32.toInt32 h.right.right.right.right.right.right.right.left
  simp only [Int32.toInt32_toUInt32] at hp
  simp [h, hp]

theorem OrderExecuted.pack_inj {m m' : OrderExecuted} (h : m.pack ++ extra = m'.pack ++ extra') : m = m' := by
  cases m; cases m'
  simp only [pack, List.append_assoc, List.cons_append, List.nil_append, List.cons.injEq,
    pack64_append_inj,
    pack32_append_inj, ofFn_append_inj] at h
  simp [h]

theorem OrderDelete.pack_inj {m m' : OrderDelete} (h : m.pack ++ extra = m'.pack ++ extra') : m = m' := by
  cases m; cases m'
  simp [pack] at h ⊢
  simp [h]

end Layout

namespace Memory

-- What is loaded from a place depends on the bytes at that place only.

variable {m m' : Memory} {msg : List UInt8} {o : ℕ}

theorem Holds.load16_eq (h : m.Holds msg) (h' : m'.Holds msg) (hl : o + 2 ≤ msg.length) :
    m.load16 o = m'.load16 o := by
  simp only [load16, h.bytes_eq hl, h'.bytes_eq hl]

theorem Holds.load32_eq (h : m.Holds msg) (h' : m'.Holds msg) (hl : o + 4 ≤ msg.length) :
    m.load32 o = m'.load32 o := by
  simp only [load32, h.bytes_eq hl, h'.bytes_eq hl]

theorem Holds.load64_eq (h : m.Holds msg) (h' : m'.Holds msg) (hl : o + 8 ≤ msg.length) :
    m.load64 o = m'.load64 o := by
  simp only [load64, h.bytes_eq hl, h'.bytes_eq hl]

theorem Holds.apply_eq (h : m.Holds msg) (h' : m'.Holds msg) (hl : o < msg.length) : m o = m' o := by
  rw [h.apply hl, h'.apply hl]

theorem Holds.addOrder_eq (h : m.Holds msg) (h' : m'.Holds msg) (hl : 37 ≤ msg.length) :
    m.addOrder = m'.addOrder := by
  simp (disch := omega) only [addOrder, h.load16_eq h', h.load32_eq h', h.load64_eq h', h.apply_eq h']

theorem Holds.orderExecuted_eq (h : m.Holds msg) (h' : m'.Holds msg) (hl : 52 ≤ msg.length) :
    m.orderExecuted = m'.orderExecuted := by
  simp (disch := omega) only [orderExecuted, h.load32_eq h', h.load64_eq h', h.apply_eq h']

theorem Holds.orderDelete_eq (h : m.Holds msg) (h' : m'.Holds msg) (hl : 18 ≤ msg.length) :
    m.orderDelete = m'.orderDelete := by
  simp (disch := omega) only [orderDelete, h.load32_eq h', h.load64_eq h', h.apply_eq h']

end Memory

-- A message of a feed: not empty, short enough for its length field, long enough for its type.
structure ItchMessage (msg : List UInt8) : Prop where
  pos      : 0 < msg.length
  short    : msg.length ≤ 65535
  add      : msg.head? = some 'A'.toUInt8 → 37 ≤ msg.length
  executed : msg.head? = some 'E'.toUInt8 → 52 ≤ msg.length
  delete   : msg.head? = some 'D'.toUInt8 → 18 ≤ msg.length

instance {msg : List UInt8} : Decidable (ItchMessage msg) :=
  decidable_of_iff
    (0 < msg.length ∧ msg.length ≤ 65535 ∧ (msg.head? = some 'A'.toUInt8 → 37 ≤ msg.length) ∧
      (msg.head? = some 'E'.toUInt8 → 52 ≤ msg.length) ∧ (msg.head? = some 'D'.toUInt8 → 18 ≤ msg.length))
    ⟨fun ⟨h₁, h₂, h₃, h₄, h₅⟩ => ⟨h₁, h₂, h₃, h₄, h₅⟩, fun ⟨h₁, h₂, h₃, h₄, h₅⟩ => ⟨h₁, h₂, h₃, h₄, h₅⟩⟩

-- The call that a message stands for.
def call? (msg : List UInt8) : Option Call :=
  if msg.head? = some 'A'.toUInt8 then
    some (.addOrder (Memory.ofList msg).addOrder)
  else if msg.head? = some 'E'.toUInt8 then
    some (.executeOrder (Memory.ofList msg).orderExecuted)
  else if msg.head? = some 'D'.toUInt8 then
    some (.deleteOrder (Memory.ofList msg).orderDelete)
  else
    none

-- The call that the switch over the type of a message makes.
def Memory.call? (data : Memory) : Option Call :=
  if data 0 = 'A'.toUInt8 then
    some (.addOrder data.addOrder)
  else if data 0 = 'E'.toUInt8 then
    some (.executeOrder data.orderExecuted)
  else if data 0 = 'D'.toUInt8 then
    some (.deleteOrder data.orderDelete)
  else
    none

namespace ItchParser

variable {σ ε : Type*} {builder : σ → Call → Except ε σ} {b : σ} {m payload : Memory} {msg : List UInt8}
variable {messages : List (List UInt8)} {offset : UInt32}

theorem handle_eq_exec : handle builder b m = Run.exec builder b m.call?.toList := by
  rw [handle, Memory.call?]
  split
  case isTrue => exact Run.exec_singleton.symm
  case isFalse =>
    split
    case isTrue => exact Run.exec_singleton.symm
    case isFalse =>
      split
      case isTrue  => exact Run.exec_singleton.symm
      case isFalse => rfl

theorem call?_ofList : (Memory.ofList msg).call? = call? msg := by
  cases msg
  case nil       => rfl
  case cons c cs =>
    have h0 : Memory.ofList (c :: cs) 0 = c := rfl
    simp only [Memory.call?, call?, h0, List.head?_cons, Option.some.injEq]

-- The call is that of the message, which is long enough for its type.
theorem call?_of_holds (h : m.Holds msg) (hm : ItchMessage msg) : m.call? = call? msg := by
  have h' : (Memory.ofList msg).Holds msg := Memory.holds_ofList
  have h0 : Memory.ofList msg 0 = m 0 := h'.apply_eq h hm.pos
  have hh : msg.head? = some (m 0) := by
    rw [List.head?_eq_getElem?, List.getElem?_eq_getElem hm.pos, h.apply hm.pos]
  rw [← call?_ofList, Memory.call?, Memory.call?, h0]
  split
  case isTrue hc => rw [h.addOrder_eq h' (hm.add (hc ▸ hh))]
  case isFalse =>
    split
    case isTrue hc => rw [h.orderExecuted_eq h' (hm.executed (hc ▸ hh))]
    case isFalse =>
      split
      case isTrue hc => rw [h.orderDelete_eq h' (hm.delete (hc ▸ hh))]
      case isFalse   => rfl

theorem handle_eq (h : m.Holds msg) (hm : ItchMessage msg) :
    handle builder b m = Run.exec builder b (call? msg).toList := by
  rw [handle_eq_exec, call?_of_holds h hm]

-- The blocks of these messages start at the offset and end before it would wrap.
structure Positioned (payload : Memory) (offset : UInt32) (messages : List (List UInt8)) : Prop where
  holds : (payload.shift offset.toNat).Holds (messageBlocks messages)
  fits  : offset.toNat + (messageBlocks messages).length < 2 ^ 32

theorem messageBlocks_cons :
    messageBlocks (msg :: messages) = pack16 (.ofNat msg.length) ++ (msg ++ messageBlocks messages) := by
  simp [messageBlocks]

namespace Positioned

theorem data (h : Positioned payload offset (msg :: messages)) :
    (payload.shift (offset.toNat + 2)).Holds msg := by
  have hh := h.holds
  rw [messageBlocks_cons] at hh
  simpa using hh.drop.take

theorem nextOffset_eq (h : Positioned payload offset (msg :: messages)) (hm : ItchMessage msg) :
    (nextOffset payload offset).toNat = offset.toNat + (msg.length + 2) := by
  have hh := h.holds
  rw [messageBlocks_cons] at hh
  have hl : be16toh (payload.load16 offset.toNat) = .ofNat msg.length := by
    apply load16_pack
    simpa [Memory.Holds] using hh.take
  have hf := h.fits
  have hs := hm.short
  rw [messageBlocks_cons, List.length_append, List.length_append, pack16_length] at hf
  have hn : (UInt16.ofNat msg.length).toNat = msg.length := UInt16.toNat_ofNat_of_lt' (Nat.lt_succ_of_le hs)
  rw [nextOffset, hl, UInt32.toNat_add, UInt32.toNat_add, UInt16.toNat_toUInt32, hn]
  have h2 : (2 : UInt32).toNat = 2 := rfl
  omega

theorem next (h : Positioned payload offset (msg :: messages)) (hm : ItchMessage msg) :
    Positioned payload (nextOffset payload offset) messages where
  holds := by
    have hh := h.holds
    rw [messageBlocks_cons] at hh
    simpa [h.nextOffset_eq hm, Nat.add_comm, Nat.add_left_comm, Nat.add_assoc] using hh.drop.drop
  fits := by
    have hf := h.fits
    rw [messageBlocks_cons, List.length_append, List.length_append, pack16_length] at hf
    rw [h.nextOffset_eq hm]
    omega

end Positioned

-- The calls of a list of messages, in the order of the list.
def calls (messages : List (List UInt8)) : List Call :=
  messages.filterMap call?

theorem calls_cons : calls (msg :: messages) = (call? msg).toList ++ calls messages := by
  rw [calls, List.filterMap_cons]
  cases call? msg <;> rfl

-- The offset at which the block of index `i` is read.
def offsetAt (payload : Memory) (i : ℕ) : UInt32 :=
  (nextOffset payload)^[i] 0

theorem loop_eq (h : Positioned payload offset messages) (hm : ∀ msg ∈ messages, ItchMessage msg) :
    parsePayload.loop builder payload messages.length offset b = Run.exec builder b (calls messages) := by
  induction messages generalizing offset b
  case nil => rfl
  case cons msg messages hi =>
    have ⟨hm, hms⟩ := List.forall_mem_cons.mp hm
    rw [calls_cons, Run.exec_append, List.length_cons, parsePayload.loop, handle_eq h.data hm]
    exact bind_congr fun b => hi (h.next hm) hms

theorem iterate_nextOffset {i : ℕ} (h : Positioned payload offset messages)
    (hm : ∀ msg ∈ messages, ItchMessage msg) (hi : i ≤ messages.length) :
    ((nextOffset payload)^[i] offset).toNat = offset.toNat + (messageBlocks (messages.take i)).length := by
  induction i generalizing offset messages
  case zero => rfl
  case succ i hn =>
    cases messages
    case nil => contradiction
    case cons msg messages =>
      have ⟨hm, hms⟩ := List.forall_mem_cons.mp hm
      have hi := hn (h.next hm) hms (Nat.le_of_succ_le_succ hi)
      rw [Function.iterate_succ_apply, hi, h.nextOffset_eq hm, List.take_succ_cons, messageBlocks_cons]
      simp
      omega

theorem messageBlocks_length_le (hm : ∀ msg ∈ messages, ItchMessage msg) :
    (messageBlocks messages).length ≤ messages.length * 65537 := by
  induction messages
  case nil => rfl
  case cons msg messages hi =>
    have ⟨hm, hms⟩ := List.forall_mem_cons.mp hm
    have hs := hm.short
    have hi := hi hms
    simp [messageBlocks_cons]
    omega

-- The call is of the kind that the type of the message asks for, and the bytes of the message are the
-- encoding of the fields of the call and of no others.
def Decodes (msg : List UInt8) : Call → Prop
  | .addOrder m     => m.type = 'A'.toUInt8 ∧ (∃ extra, msg = m.toHost.pack ++ extra) ∧
    ∀ f extra, msg = f.pack ++ extra → m.toHost = f
  | .executeOrder m => m.type = 'E'.toUInt8 ∧ (∃ extra, msg = m.toHost.pack ++ extra) ∧
    ∀ f extra, msg = f.pack ++ extra → m.toHost = f
  | .deleteOrder m  => m.type = 'D'.toUInt8 ∧ (∃ extra, msg = m.toHost.pack ++ extra) ∧
    ∀ f extra, msg = f.pack ++ extra → m.toHost = f

def Handled (msg : List UInt8) : Bool :=
  msg.head? = some 'A'.toUInt8 || msg.head? = some 'E'.toUInt8 || msg.head? = some 'D'.toUInt8

theorem ofList_type {c : UInt8} (h : msg.head? = some c) : Memory.ofList msg 0 = c := by
  cases msg
  case nil  => contradiction
  case cons => exact Option.some.inj h

theorem bytes_extra {n : ℕ} (hl : n ≤ msg.length) : msg = (Memory.ofList msg).bytes 0 n ++ msg.drop n := by
  rw [Memory.holds_ofList.bytes_eq (by omega), List.drop_zero, List.take_append_drop]

theorem call?_decodes {call : Call} (hm : ItchMessage msg) (h : call? msg = some call) : Decodes msg call := by
  unfold call? at h
  split at h
  case isTrue ht =>
    cases h
    have hb := AddOrder.pack_toHost ▸ bytes_extra (hm.add ht)
    exact ⟨ofList_type ht, ⟨_, hb⟩, fun _ _ he => AddOrder.pack_inj (hb.symm.trans he)⟩
  case isFalse =>
    split at h
    case isTrue ht =>
      cases h
      have hb := OrderExecuted.pack_toHost ▸ bytes_extra (hm.executed ht)
      exact ⟨ofList_type ht, ⟨_, hb⟩, fun _ _ he => OrderExecuted.pack_inj (hb.symm.trans he)⟩
    case isFalse =>
      split at h
      case isTrue ht =>
        cases h
        have hb := OrderDelete.pack_toHost ▸ bytes_extra (hm.delete ht)
        exact ⟨ofList_type ht, ⟨_, hb⟩, fun _ _ he => OrderDelete.pack_inj (hb.symm.trans he)⟩
      case isFalse => contradiction

theorem memory_call?_isSome : m.call?.isSome = Handled [m 0] := by
  rw [Memory.call?, Handled]
  simp only [List.head?_cons, Option.some.injEq]
  split
  case isTrue h => simp [h]
  case isFalse h =>
    split
    case isTrue h => simp [h]
    case isFalse => split <;> simp [*]

theorem call?_isSome (msg : List UInt8) : (call? msg).isSome = Handled msg := by
  rw [← call?_ofList, memory_call?_isSome]
  cases msg <;> rfl

theorem calls_decode (hm : ∀ msg ∈ messages, ItchMessage msg) :
    List.Forall₂ Decodes (messages.filter Handled) (calls messages) := by
  induction messages
  case nil => exact .nil
  case cons msg messages hi =>
    have ⟨hm, hms⟩ := List.forall_mem_cons.mp hm
    have hs := call?_isSome msg
    cases hc : call? msg
    case none =>
      rw [hc] at hs
      rw [List.filter_cons_of_neg (by simp [← hs]), calls_cons, hc]
      exact hi hms
    case some call =>
      rw [hc] at hs
      rw [List.filter_cons_of_pos (by simp [← hs]), calls_cons, hc]
      exact .cons (call?_decodes hm hc) (hi hms)

-- A packet as the tool makes it.
structure Packet where
  session        : List UInt8
  sequenceNumber : UInt64
  messages       : List (List UInt8)

namespace Packet

def count (p : Packet) : UInt16 :=
  .ofNat p.messages.length

def bytes (p : Packet) : List UInt8 :=
  makeMoldudp64Packet p.session p.sequenceNumber p.messages

structure WellFormed (p : Packet) : Prop where
  session  : p.session.length = 10
  count    : p.messages.length ≤ 65535
  messages : ∀ msg ∈ p.messages, ItchMessage msg

variable {p : Packet}

theorem count_toNat (hp : p.WellFormed) : p.count.toNat = p.messages.length :=
  UInt16.toNat_ofNat_of_lt' (Nat.lt_succ_of_le hp.count)

theorem header (h : m.Holds p.bytes) (hp : p.WellFormed) :
    m.bytes 0 10 = p.session ∧ be64toh (m.load64 10) = p.sequenceNumber ∧
      be16toh (m.load16 18) = p.count := by
  have hs := h.take
  have hn := h.drop.take
  have hc := h.drop.drop.take
  simp [Memory.Holds, hp.session] at hs hn hc
  exact ⟨hs, load64_pack hn, load16_pack hc⟩

theorem positioned (h : m.Holds p.bytes) (hp : p.WellFormed) : Positioned (m.shift 20) 0 p.messages where
  holds := by simpa [hp.session] using h.drop.drop.drop
  fits  := by
    have hl := messageBlocks_length_le hp.messages
    have hc := hp.count
    have h0 : (0 : UInt32).toNat = 0 := rfl
    omega

end Packet

theorem parse_packet {p : Packet} {parser : ItchParser} (h : m.Holds p.bytes) (hp : p.WellFormed) :
    parse builder parser b (some m) =
      Run.exec builder b (calls p.messages) >>= fun b =>
        .ok ({ session := p.session }, b, p.sequenceNumber, p.count) := by
  have ⟨hs, hn, hc⟩ := p.header h hp
  simp only [parse, Memory.downstreamHeader, hs, hn, hc, parsePayload, p.count_toNat hp,
    loop_eq (p.positioned h hp) hp.messages]
  rfl

-- Packets that are parsed one after another, with the pair that is returned for each of them.
def parseAll (builder : σ → Call → Except ε σ) (parser : ItchParser) (b : σ) :
    List Memory → Except ε (ItchParser × σ × List (UInt64 × UInt16))
  | []      => .ok (parser, b, [])
  | m :: ms => do
    let (parser, b, seq, count) ← parse builder parser b (some m)
    let (parser, b, results) ← parseAll builder parser b ms
    return (parser, b, (seq, count) :: results)

section Packets

variable {packets : List Packet} {ms : List Memory} {parser : ItchParser}

def allMessages (packets : List Packet) : List (List UInt8) :=
  packets.flatMap (·.messages)

theorem calls_append {messages' : List (List UInt8)} :
    calls (messages ++ messages') = calls messages ++ calls messages' :=
  List.filterMap_append

theorem parseAll_eq (hm : List.Forall₂ (fun m p => m.Holds p.bytes) ms packets)
    (hp : ∀ p ∈ packets, p.WellFormed) :
    parseAll builder parser b ms = Run.exec builder b (calls <| allMessages packets) >>= fun b =>
      .ok (packets.foldl (fun _ p => { session := p.session }) parser, b,
        packets.map fun p => (p.sequenceNumber, p.count)) := by
  induction hm generalizing parser b
  case nil => rfl
  case cons m p ms packets h _ hi =>
    have ⟨hp, hps⟩ := List.forall_mem_cons.mp hp
    rw [parseAll, parse_packet h hp, allMessages, List.flatMap_cons, calls_append, Run.exec_append]
    simp only [bind_assoc]
    apply bind_congr
    intro b
    have hi : parseAll builder { session := p.session } b ms = _ := hi hps
    have hb : parseAll builder { session := p.session } b ms >>= (fun r =>
        .ok (r.1, r.2.1, (p.sequenceNumber, p.count) :: r.2.2)) = _ := congrArg (· >>= _) hi
    exact hb.trans (bind_assoc ..)

-- No offset wraps: the block of each index is read where the blocks before it end.
def OffsetsExact (m : Memory) (p : Packet) : Prop :=
  ∀ i ≤ p.messages.length, (offsetAt (m.shift 20) i).toNat = (messageBlocks <| p.messages.take i).length

theorem offsets_eq (hm : List.Forall₂ (fun m p => m.Holds p.bytes) ms packets)
    (hp : ∀ p ∈ packets, p.WellFormed) : List.Forall₂ OffsetsExact ms packets := by
  induction hm
  case nil => exact .nil
  case cons m p _ _ h _ hi =>
    have ⟨hp, hps⟩ := List.forall_mem_cons.mp hp
    refine .cons (fun i hl => ?_) (hi hps)
    exact (iterate_nextOffset (p.positioned h hp) hp.messages hl).trans (Nat.zero_add _)

theorem parseAll_round_trip (hm : List.Forall₂ (fun m p => m.Holds p.bytes) ms packets)
    (hp : ∀ p ∈ packets, p.WellFormed) :
    (parseAll builder parser b ms = Run.exec builder b (calls <| allMessages packets) >>= fun b =>
      .ok (packets.foldl (fun _ p => { session := p.session }) parser, b,
        packets.map fun p => (p.sequenceNumber, p.count))) ∧
    List.Forall₂ Decodes ((allMessages packets).filter Handled) (calls <| allMessages packets) ∧
    List.Forall₂ OffsetsExact ms packets := by
  refine ⟨parseAll_eq hm hp, calls_decode fun msg h => ?_, offsets_eq hm hp⟩
  have ⟨p, hmem, h⟩ := List.mem_flatMap.mp h
  exact (hp p hmem).messages msg h

-- An order with a negative price, and a message of a type that is ignored.
def samplePacket : Packet where
  session        := .replicate 10 0
  sequenceNumber := 7
  messages       := [makeAddOrder 1001 1 'B'.toUInt8 1 100 (-5), ['T'.toUInt8, 0, 0, 0, 1]]

def record (log : List Call) (call : Call) : Except Fault (List Call) :=
  .ok (log ++ [call])

theorem parseAll_round_trip_sample :
    (parseAll record {} [] [.ofList samplePacket.bytes] =
      Run.exec record [] (calls <| allMessages [samplePacket]) >>= fun log =>
        .ok ([samplePacket].foldl (fun _ p => { session := p.session }) {}, log,
          [samplePacket].map fun p => (p.sequenceNumber, p.count))) ∧
    List.Forall₂ Decodes ((allMessages [samplePacket]).filter Handled) (calls <| allMessages [samplePacket]) ∧
    List.Forall₂ OffsetsExact [.ofList samplePacket.bytes] [samplePacket] := by
  have hp : samplePacket.WellFormed := {
    session  := rfl
    count    := by decide
    messages := by decide +kernel
  }
  exact parseAll_round_trip (.cons Memory.holds_ofList .nil) (List.forall_mem_singleton.mpr hp)

example : parseAll record {} [] [.ofList samplePacket.bytes] =
    .ok ({ session := .replicate 10 0 },
      [.addOrder (Memory.ofList <| makeAddOrder 1001 1 'B'.toUInt8 1 100 (-5)).addOrder], [(7, 2)]) := by
  decide +kernel

end Packets

end ItchParser
