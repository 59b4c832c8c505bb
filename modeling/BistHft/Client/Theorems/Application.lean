import BistHft.Client.Theorems.Recovery
import BistHft.Core.Theorems.Locality
import BistHft.Protocol.Theorems.RoundTrip
import Mathlib.Data.Finset.Sort

-- In which order, and how often, the messages of a stream reach the orderbooks of a client.

open ItchParser

namespace MarketDataClient

variable {client client' : MarketDataClient} {packets : List Packet} {ms : List Memory} {p : Packet} {m : Memory}
variable {stream : ℕ → List UInt8} {ns : List ℕ}

abbrev run (ms : List Memory) : Except Fault MarketDataClient :=
  Run.exec parse {} ms

def datagram (p : Packet) : Datagram :=
  (p.sequenceNumber, p.count)

-- The messages go to the builder before the sequence number is looked at, whatever the state is.
theorem parse_calls (hm : m.Holds p.bytes) (hp : p.WellFormed) (h : client.parse m = .ok client') :
    Run.exec Call.apply client.builder (calls p.messages) = .ok client'.builder := by
  obtain ⟨x, hx, h⟩ := Run.bind_ok h
  rw [parse_packet hm hp] at hx
  obtain ⟨b, hb, hx⟩ := Run.bind_ok hx
  obtain ⟨r, _, h⟩ := Run.bind_ok h
  cases hx
  cases h
  exact hb

theorem exec_calls (hm : List.Forall₂ (fun m p => m.Holds p.bytes) ms packets)
    (hp : ∀ p ∈ packets, p.WellFormed) (h : Run.exec parse client ms = .ok client') :
    Run.exec Call.apply client.builder (calls <| allMessages packets) = .ok client'.builder := by
  induction hm generalizing client
  case nil => cases h; rfl
  case cons m p ms packets hm _ hi =>
    have ⟨hp, hps⟩ := List.forall_mem_cons.mp hp
    have ⟨client₁, h₁, h⟩ := Run.exec_cons_ok h
    rw [allMessages, List.flatMap_cons, calls_append, Run.exec_append_of_ok (parse_calls hm hp h₁)]
    exact hi hps h

-- The packet carries the piece of the stream that its sequence number and count announce.
def Delivers (stream : ℕ → List UInt8) (p : Packet) : Prop :=
  p.messages = (List.range' p.sequenceNumber.toNat p.messages.length).map stream

-- The numbers of the messages in the order in which they have arrived.
def arrivals (packets : List Packet) : List ℕ :=
  packets.flatMap fun p => List.range' p.sequenceNumber.toNat p.messages.length

-- The numbers of the messages that have arrived, once each and in increasing order.
def received (packets : List Packet) : List ℕ :=
  (arrivals packets).toFinset.sort

theorem allMessages_eq (h : ∀ p ∈ packets, Delivers stream p) :
    allMessages packets = (arrivals packets).map stream := by
  rw [arrivals, List.map_flatMap, allMessages]
  exact List.flatMap_congr fun p hp => h p hp

def Concerns (stream : ℕ → List UInt8) (site : UInt32 × SideClass) (n : ℕ) : Bool :=
  (call? (stream n)).map Call.site = some site

theorem filter_calls {site : UInt32 × SideClass} :
    (calls (ns.map stream)).filter (·.site = site) = calls ((ns.filter (Concerns stream site)).map stream) := by
  induction ns
  case nil => rfl
  case cons n ns hi =>
    rw [List.map_cons, calls_cons, List.filter_append, hi]
    cases hc : call? (stream n)
    case none => simp [Concerns, hc]
    case some call =>
      cases Decidable.em (call.site = site)
      case inl hs => simp [Concerns, hc, hs, calls_cons]
      case inr hs => simp [Concerns, hc, hs]

theorem filter_sort {c : ℕ → Bool} (h : (ns.filter c).Pairwise (· < ·)) :
    ns.filter c = ns.toFinset.sort.filter c := by
  have hs : (ns.toFinset.sort.filter c).Pairwise (· < ·) := (Finset.sortedLT_sort _).pairwise.filter c
  have hn := (List.perm_ext_iff_of_nodup (h.imp Nat.ne_of_lt) (hs.imp Nat.ne_of_lt)).mpr (by simp)
  exact hn.eq_of_pairwise' (h.imp Nat.le_of_lt) (hs.imp Nat.le_of_lt)

theorem arrival_order (hp : ∀ p ∈ packets, p.WellFormed ∧ Delivers stream p)
    (hm : List.Forall₂ (fun m p => m.Holds p.bytes) ms packets) (h : run ms = .ok client) :
    OrderbookBuilder.run (calls <| (arrivals packets).map stream) = .ok client.builder ∧
    ((∀ site, ((arrivals packets).filter (Concerns stream site)).Pairwise (· < ·)) →
      OrderbookBuilder.run (calls <| (received packets).map stream) = .ok client.builder) := by
  have hb := exec_calls hm (fun p h => (hp p h).left) h
  rw [allMessages_eq fun p h => (hp p h).right] at hb
  refine ⟨hb, fun ho => OrderbookBuilder.run_eq_of_sites (fun site => ?_) hb⟩
  rw [filter_calls, filter_calls, filter_sort (ho site), received]

section Samples

-- The first message adds an order and the second one executes a part of it.

def sampleStream (n : ℕ) : List UInt8 :=
  if n = 1 then (sampleAdd 10).toHost.pack else (sampleExecuted 4).toHost.pack

def samplePacketOf (n : ℕ) : Packet where
  session        := .replicate 10 0
  sequenceNumber := .ofNat n
  messages       := [sampleStream n]

theorem samplePacketOf_delivers : ∀ p ∈ [samplePacketOf 1, samplePacketOf 2],
    p.WellFormed ∧ Delivers sampleStream p := by
  simp only [List.mem_cons, List.not_mem_nil, or_false, forall_eq_or_imp, forall_eq]
  exact ⟨⟨⟨rfl, by decide, by decide +kernel⟩, rfl⟩, ⟨⟨rfl, by decide, by decide +kernel⟩, rfl⟩⟩

def buffers (packets : List Packet) : List Memory :=
  packets.map fun p => .ofList p.bytes

theorem buffers_hold : List.Forall₂ (fun m p => m.Holds p.bytes) (buffers packets) packets := by
  induction packets
  case nil     => exact .nil
  case cons hi => exact .cons Memory.holds_ofList hi

theorem received_sample : received [samplePacketOf 2, samplePacketOf 1] = [1, 2] := by
  have hs : (arrivals [samplePacketOf 2, samplePacketOf 1]).toFinset = [1, 2].toFinset := by decide
  rw [received, hs]
  exact (List.toFinset_sort (· ≤ ·) (by decide)).mpr (by decide)

theorem arrival_order_sample :
    ∃ client, run (buffers [samplePacketOf 1, samplePacketOf 2]) = .ok client ∧
      OrderbookBuilder.run (calls <| (arrivals [samplePacketOf 1, samplePacketOf 2]).map sampleStream) =
        .ok client.builder ∧
      OrderbookBuilder.run (calls <| (received [samplePacketOf 1, samplePacketOf 2]).map sampleStream) =
        .ok client.builder := by
  have ⟨ha, hr⟩ := arrival_order samplePacketOf_delivers buffers_hold rfl
  have ho : (arrivals [samplePacketOf 1, samplePacketOf 2]).Pairwise (· < ·) := by decide
  exact ⟨_, rfl, ha, hr fun _ => ho.filter _⟩

-- A client that has missed the first message ignores the second, and then gets the first one again.
theorem late_join_reorders :
    (∀ p ∈ [samplePacketOf 2, samplePacketOf 1], p.WellFormed ∧ Delivers sampleStream p) ∧
    ∃ client b, run (buffers [samplePacketOf 2, samplePacketOf 1]) = .ok client ∧
      client.state = .continuous ∧ client.missingSequenceNumbers = [] ∧
      OrderbookBuilder.run (calls <| (received [samplePacketOf 2, samplePacketOf 1]).map sampleStream) = .ok b ∧
      client.builder ≠ b := by
  refine ⟨fun p hp => samplePacketOf_delivers p (by simpa [or_comm] using hp), ?_⟩
  rw [received_sample]
  refine ⟨_, _, rfl, rfl, rfl, rfl, ?_⟩
  decide +kernel

end Samples

end MarketDataClient
