import BistHft.Client.Theorems.Requests
import BistHft.Protocol.Theorems.Reads

-- What becomes of a packet whose header is taken for its payload.

section Lists

variable {α β γ : Type*} {f : α → Option γ} {g : β → Option γ} {as : List α} {bs : List β} {R S : α → β → Prop}

theorem map_some_filterMap : (as.filterMap f).map some = (as.filter (f · |>.isSome)).map f := by
  induction as
  case nil => rfl
  case cons a as hi =>
    cases hf : f a
    case none   => rw [List.filterMap_cons_none hf, List.filter_cons_of_neg (by simp [hf]), hi]
    case some c =>
      rw [List.filterMap_cons_some hf, List.filter_cons_of_pos (by simp [hf]), List.map_cons, List.map_cons, hf, hi]

-- Two lists yield the same values if those of their elements do that yield any.
theorem filterMap_eq_iff :
    as.filterMap f = bs.filterMap g ↔
      List.Forall₂ (fun a b => f a = g b) (as.filter (f · |>.isSome)) (bs.filter (g · |>.isSome)) := by
  rw [← (List.map_injective_iff.mpr (Option.some_injective γ)).eq_iff, map_some_filterMap, map_some_filterMap,
    ← List.forall₂_eq_eq_eq, List.forall₂_map_left_iff, List.forall₂_map_right_iff]

theorem forall₂_congr_mem (h : ∀ a ∈ as, ∀ b ∈ bs, R a b ↔ S a b) :
    List.Forall₂ R as bs ↔ List.Forall₂ S as bs := by
  induction as generalizing bs
  case nil => rw [List.forall₂_nil_left_iff, List.forall₂_nil_left_iff]
  case cons a as hi =>
    cases bs
    case nil => exact iff_of_false (fun h => by cases h) (fun h => by cases h)
    case cons b bs =>
      rw [List.forall₂_cons, List.forall₂_cons, h a List.mem_cons_self b List.mem_cons_self,
        hi fun a ha b hb => h a (List.mem_cons_of_mem _ ha) b (List.mem_cons_of_mem _ hb)]

end Lists

namespace ItchParser

variable {σ ε : Type*} {builder : σ → Call → Except ε σ} {b : σ} {m payload data : Memory} {msg : List UInt8}
variable {messages : List (List UInt8)} {offset : UInt32} {count : UInt16} {n o : ℕ}

-- Where the messages are that the loop comes by.
def positions (payload : Memory) (count : UInt16) : List ℕ :=
  (List.range count.toNat).map fun i => (offsetAt payload i).toNat + 2

def payloadCalls (payload : Memory) (count : UInt16) : List Call :=
  (positions payload count).filterMap fun o => (payload.shift o).call?

theorem loop_eq_exec :
    parsePayload.loop builder payload n offset b =
      Run.exec builder b ((List.range n).filterMap fun i =>
        (payload.shift (((nextOffset payload)^[i] offset).toNat + 2)).call?) := by
  induction n generalizing offset b
  case zero => rfl
  case succ n hi =>
    rw [List.range_succ_eq_map, List.filterMap_cons, List.filterMap_map, parsePayload.loop, handle_eq_exec]
    simp only [hi, Function.iterate_zero, id_eq, Function.comp_def, Function.iterate_succ]
    cases (payload.shift (offset.toNat + 2)).call?
    case none   => rfl
    case some c => rw [Option.toList_some, Run.exec_singleton, ← Run.exec_cons]

theorem parsePayload_eq : parsePayload builder b payload count = Run.exec builder b (payloadCalls payload count) := by
  rw [parsePayload, loop_eq_exec, payloadCalls, positions, List.filterMap_map]
  rfl

theorem exec_record {log cs : List Call} : Run.exec record log cs = .ok (log ++ cs) := by
  induction cs generalizing log
  case nil => rw [List.append_nil]; rfl
  case cons c cs hi =>
    have hr : record log c = .ok (log ++ [c]) := rfl
    rw [Run.exec_cons_of_ok hr, hi, List.append_assoc]
    rfl

-- What the loop does to a packet is what its messages stand for.
theorem payloadCalls_packet {p : Packet} (hm : m.Holds p.bytes) (hp : p.WellFormed) :
    payloadCalls (m.shift 20) p.count = calls p.messages := by
  have h : parsePayload record [] (m.shift 20) p.count = _ :=
    p.count_toNat hp ▸ loop_eq (p.positioned hm hp) hp.messages
  rw [parsePayload_eq, exec_record, exec_record] at h
  exact Except.ok.inj h

section Bytes

-- The message in memory begins with the bytes of the other one, as far as they are looked at.
def Repeats (data : Memory) (msg : List UInt8) : Prop :=
  data.bytes 0 (structExtent (data 0)) = msg.take (structExtent (data 0))

theorem head_of_bytes (h : data.bytes 0 n = msg.take n) (hn : 0 < n) : msg.head? = some (data 0) := by
  obtain ⟨n, rfl⟩ := Nat.exists_eq_add_of_lt hn
  rw [Nat.zero_add, Nat.add_comm n, Memory.bytes_add] at h
  have hh := congrArg List.head? h
  rw [List.head?_take, if_neg (by omega)] at hh
  exact hh.symm

theorem bytes_ofList (hl : n ≤ msg.length) : (Memory.ofList msg).bytes 0 n = msg.take n :=
  Memory.holds_ofList.bytes_eq (by omega)

theorem holds_take (h : data.bytes 0 n = msg.take n) (hl : n ≤ msg.length) : data.Holds (msg.take n) := by
  rw [Memory.Holds, List.length_take_of_le hl, h]

theorem addOrder_eq_iff (hl : 37 ≤ msg.length) :
    data.addOrder = (Memory.ofList msg).addOrder ↔ data.bytes 0 37 = msg.take 37 where
  mpr h := (holds_take h hl).addOrder_eq (holds_take (bytes_ofList hl) hl) (List.length_take_of_le hl).ge
  mp h  := by
    have hp := congrArg (·.toHost.pack) h
    rwa [AddOrder.pack_toHost, AddOrder.pack_toHost, bytes_ofList hl] at hp

theorem orderExecuted_eq_iff (hl : 52 ≤ msg.length) :
    data.orderExecuted = (Memory.ofList msg).orderExecuted ↔ data.bytes 0 52 = msg.take 52 where
  mpr h := (holds_take h hl).orderExecuted_eq (holds_take (bytes_ofList hl) hl) (List.length_take_of_le hl).ge
  mp h  := by
    have hp := congrArg (·.toHost.pack) h
    rwa [OrderExecuted.pack_toHost, OrderExecuted.pack_toHost, bytes_ofList hl] at hp

theorem orderDelete_eq_iff (hl : 18 ≤ msg.length) :
    data.orderDelete = (Memory.ofList msg).orderDelete ↔ data.bytes 0 18 = msg.take 18 where
  mpr h := (holds_take h hl).orderDelete_eq (holds_take (bytes_ofList hl) hl) (List.length_take_of_le hl).ge
  mp h  := by
    have hp := congrArg (·.toHost.pack) h
    rwa [OrderDelete.pack_toHost, OrderDelete.pack_toHost, bytes_ofList hl] at hp

end Bytes

section Calls

variable {call : Call}

def messageType : Call → UInt8
  | .addOrder _     => 'A'.toUInt8
  | .executeOrder _ => 'E'.toUInt8
  | .deleteOrder _  => 'D'.toUInt8

theorem type_of_call? (h : data.call? = some call) : data 0 = messageType call := by
  rw [Memory.call?] at h
  split at h
  case isTrue ht => cases h; exact ht
  case isFalse =>
    split at h
    case isTrue ht => cases h; exact ht
    case isFalse =>
      split at h
      case isTrue ht => cases h; exact ht
      case isFalse   => contradiction

theorem structExtent_pos (h : Handled [data 0] = true) : 0 < structExtent (data 0) := by
  simp only [Handled, List.head?_cons, Option.some.injEq, Bool.or_eq_true, decide_eq_true_eq] at h
  rcases h with (h | h) | h <;> rw [h] <;> decide

-- A message of a type that is handled makes the same call as another one if it has the same bytes.
theorem call?_eq_iff (hm : ItchMessage msg) (hd : Handled [data 0] = true) :
    data.call? = call? msg ↔ Repeats data msg := by
  have hh : msg.head? = some (Memory.ofList msg 0) := head_of_bytes (bytes_ofList hm.pos) Nat.one_pos
  rw [← call?_ofList]
  cases Decidable.em (Memory.ofList msg 0 = data 0)
  case inr hne =>
    refine iff_of_false (fun h => hne ?_) (fun h => hne ?_)
    case refine_1 =>
      rw [← memory_call?_isSome, Option.isSome_iff_exists] at hd
      obtain ⟨call, hc⟩ := hd
      rw [type_of_call? hc, type_of_call? (h.symm.trans hc)]
    case refine_2 => exact Option.some.inj <| hh.symm.trans <| head_of_bytes h (structExtent_pos hd)
  case inl he =>
    rw [he] at hh
    rw [Memory.call?, Memory.call?, he, Repeats, structExtent]
    split
    case isTrue ht => rw [Option.some.injEq, Call.addOrder.injEq, addOrder_eq_iff (hm.add (ht ▸ hh))]
    case isFalse ha =>
      split
      case isTrue ht => rw [Option.some.injEq, Call.executeOrder.injEq, orderExecuted_eq_iff (hm.executed (ht ▸ hh))]
      case isFalse he =>
        split
        case isTrue ht => rw [Option.some.injEq, Call.deleteOrder.injEq, orderDelete_eq_iff (hm.delete (ht ▸ hh))]
        case isFalse hx => simp [Handled, ha, he, hx] at hd

theorem payloadCalls_eq_iff (hm : ∀ msg ∈ messages, ItchMessage msg) :
    payloadCalls m count = calls messages ↔
      List.Forall₂ (fun o msg => Repeats (m.shift o) msg) ((positions m count).filter fun o => Handled [m o])
        (messages.filter Handled) := by
  have hs o : (m.shift o).call?.isSome = Handled [m o] := memory_call?_isSome
  rw [payloadCalls, calls, filterMap_eq_iff]
  simp only [hs, call?_isSome]
  refine forall₂_congr_mem fun o ho msg hmsg => ?_
  have ho : Handled [m o] = true := (List.mem_filter.mp ho).right
  exact call?_eq_iff (hm msg (List.mem_filter.mp hmsg).left) ho

end Calls

end ItchParser

namespace MarketDataClient

open ItchParser

variable {m : Memory} {p : Packet}

-- What the builder is called with if the payload is taken to begin at the header, and behind it.

def rewoundCalls (header : Memory) : List Call :=
  payloadCalls header (be16toh header.downstreamHeader.messageCount)

def liveCalls (byteArray : Memory) : List Call :=
  payloadCalls (byteArray.shift 20) (be16toh byteArray.downstreamHeader.messageCount)

theorem messageCount_of_holds (hm : m.Holds p.bytes) (hp : p.WellFormed) :
    be16toh m.downstreamHeader.messageCount = p.count :=
  (p.header hm hp).right.right

theorem liveCalls_packet (hm : m.Holds p.bytes) (hp : p.WellFormed) : liveCalls m = calls p.messages := by
  rw [liveCalls, messageCount_of_holds hm hp, payloadCalls_packet hm hp]

theorem processRewoundPackets_eq {client : MarketDataClient} :
    client.processRewoundPackets m =
      Run.exec Call.apply client.builder (rewoundCalls m) >>= fun builder => .ok { client with builder } := by
  rw [processRewoundPackets, parsePayload_eq]
  rfl

theorem shift_two_call? (hm : m.Holds p.bytes) (hp : p.WellFormed) (hs : Handled (p.session.drop 2) = false) :
    (m.shift 2).call? = none := by
  have hb := (p.header hm hp).left
  have hh : Handled [m.shift 2 0] = Handled (p.session.drop 2) := hb ▸ rfl
  rw [← Option.not_isSome_iff_eq_none, memory_call?_isSome, hh, hs]
  exact Bool.false_ne_true

-- The header is the first block that the loop comes by, with a type from the name of the session. It
-- takes the place of a message, and if it is ignored there are fewer calls than messages.
theorem rewoundCalls_length_lt (hm : m.Holds p.bytes) (hp : p.WellFormed) (hs : Handled (p.session.drop 2) = false)
    (hne : p.messages ≠ []) : (rewoundCalls m).length < p.messages.length := by
  have h0 : (m.shift ((offsetAt m 0).toNat + 2)).call? = none := shift_two_call? hm hp hs
  obtain ⟨n, hn⟩ := Nat.exists_eq_succ_of_ne_zero (List.length_eq_zero_iff.not.mpr hne)
  rw [rewoundCalls, messageCount_of_holds hm hp, payloadCalls, positions, p.count_toNat hp, hn,
    List.range_succ_eq_map, List.map_cons, List.filterMap_cons_none (f := fun o => (m.shift o).call?) h0]
  refine Nat.lt_succ_of_le <| (List.length_filterMap_le ..).trans ?_
  rw [List.length_map, List.length_map, List.length_range]

theorem liveCalls_length (hm : m.Holds p.bytes) (hp : p.WellFormed) (hh : ∀ msg ∈ p.messages, Handled msg) :
    (liveCalls m).length = p.messages.length := by
  rw [liveCalls_packet hm hp, ← (calls_decode hp.messages).length_eq, List.filter_eq_self.mpr hh]

-- The two paths agree for a packet that reads the same with its header as without it. A packet of orders
-- does not, unless the name of its session looks like one of them.
theorem rewound_eq_live_iff (hm : m.Holds p.bytes) (hp : p.WellFormed) :
    (∀ client : MarketDataClient, client.processRewoundPackets m =
      Run.exec Call.apply client.builder (rewoundCalls m) >>= fun builder => .ok { client with builder }) ∧
    (∀ (parser : ItchParser) (b : OrderbookBuilder), parser.parse Call.apply b (some m) =
      Run.exec Call.apply b (liveCalls m) >>= fun b =>
        .ok ({ session := p.session }, b, p.sequenceNumber, p.count)) ∧
    (rewoundCalls m = liveCalls m ↔
      List.Forall₂ (fun o msg => Repeats (m.shift o) msg) ((positions m p.count).filter fun o => Handled [m o])
        (p.messages.filter Handled)) ∧
    (Handled (p.session.drop 2) = false → p.messages ≠ [] → (∀ msg ∈ p.messages, Handled msg) →
      rewoundCalls m ≠ liveCalls m) := by
  refine ⟨fun client => processRewoundPackets_eq, fun parser b => ?_, ?_, fun hs hne hh he => ?_⟩
  case refine_1 => rw [liveCalls_packet hm hp, parse_packet hm hp]
  case refine_2 => rw [liveCalls_packet hm hp, rewoundCalls, messageCount_of_holds hm hp, payloadCalls_eq_iff hp.messages]
  case refine_3 =>
    have hl := rewoundCalls_length_lt hm hp hs hne
    rw [he, liveCalls_length hm hp hh] at hl
    exact Nat.lt_irrefl _ hl

section Samples

-- An order, and a name of a session that is printable.
def orderPacket : Packet where
  session        := sampleSession
  sequenceNumber := 1
  messages       := [sampleStream 1]

theorem orderPacket_wellFormed : orderPacket.WellFormed :=
  ⟨rfl, by decide, by decide +kernel⟩

theorem rewound_eq_live_iff_order :
    rewoundCalls (.ofList orderPacket.bytes) = liveCalls (.ofList orderPacket.bytes) ↔
      List.Forall₂ (fun o msg => Repeats ((Memory.ofList orderPacket.bytes).shift o) msg)
        ((positions (.ofList orderPacket.bytes) orderPacket.count).filter fun o =>
          Handled [Memory.ofList orderPacket.bytes o])
        (orderPacket.messages.filter Handled) :=
  (rewound_eq_live_iff Memory.holds_ofList orderPacket_wellFormed).right.right.left

-- The order is added by the one path only.
theorem order_not_rewound :
    orderPacket.WellFormed ∧ ∃ m order, m.Holds orderPacket.bytes ∧ liveCalls m = [.addOrder order] ∧
      rewoundCalls m = [] := by
  have hm : (Memory.ofList orderPacket.bytes).Holds orderPacket.bytes := Memory.holds_ofList
  have hl := rewoundCalls_length_lt hm orderPacket_wellFormed (by decide) (List.cons_ne_nil _ _)
  refine ⟨orderPacket_wellFormed, _, (Memory.ofList (sampleStream 1)).addOrder, hm, ?_, ?_⟩
  case refine_1 => exact liveCalls_packet hm orderPacket_wellFormed
  case refine_2 => exact List.length_eq_zero_iff.mp (Nat.lt_one_iff.mp hl)

end Samples

end MarketDataClient
