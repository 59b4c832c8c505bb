import BistHft.Client.Theorems.Application
import BistHft.Core.Theorems.Histories

-- Where the orderbooks of a client settle, in whatever order the datagrams of a stream came in.

open ItchParser

namespace MarketDataClient

variable {client client' : MarketDataClient} {packets packets' : List Packet} {ms ms' : List Memory}
variable {stream : ℕ → List UInt8} {ns ns' : List ℕ} {N : ℕ} {k : OrderKey}

-- The message of this number is for the order.
def Names (stream : ℕ → List UInt8) (k : OrderKey) (n : ℕ) : Bool :=
  (call? (stream n)).any (·.key = k)

theorem filter_key :
    (calls (ns.map stream)).filter (·.key = k) = calls ((ns.filter (Names stream k)).map stream) := by
  have hc (o : Option Call) : o.filter (·.key = k) = if o.any (·.key = k) then o else none := by
    cases o <;> simp [Option.filter]
  simp only [calls, List.filterMap_map, List.filter_filterMap, List.filterMap_filter]
  exact List.filterMap_congr fun n _ => hc (call? (stream n))

theorem calls_subperm (h : ns.Subperm ns') : (calls <| ns.map stream).Subperm (calls <| ns'.map stream) := by
  have ⟨l, hp, hs⟩ := h
  exact ⟨_, (hp.map stream).filterMap call?, (hs.map stream).filterMap call?⟩

-- No order has got its messages twice or against the order of the stream.
def InOrder (stream : ℕ → List UInt8) (packets : List Packet) : Prop :=
  ∀ k, ((arrivals packets).filter (Names stream k)).Pairwise (· < ·)

theorem InOrder.filter_received (h : InOrder stream packets) :
    (calls <| (received packets).map stream).filter (·.key = k) =
      (calls <| (arrivals packets).map stream).filter (·.key = k) := by
  rw [filter_key, filter_key, filter_sort (h k), received]

theorem received_subperm (hn : ∀ n ∈ arrivals packets, n ∈ List.range' 1 N) :
    (received packets).Subperm (List.range' 1 N) := by
  refine List.subperm_of_subset (Finset.sort_nodup _ _) fun n h => hn n ?_
  rwa [received, Finset.mem_sort, List.mem_toFinset] at h

-- Only the messages for one and the same order have to arrive in order, and those that have arrived are
-- then as good as an undisturbed stream of them.
theorem settled (hF : OrderbookBuilder.WellFormed (calls <| (List.range' 1 N).map stream))
    (hp : ∀ p ∈ packets, p.WellFormed ∧ Delivers stream p) (hn : ∀ n ∈ arrivals packets, n ∈ List.range' 1 N)
    (ho : InOrder stream packets) (hm : List.Forall₂ (fun m p => m.Holds p.bytes) ms packets)
    (h : run ms = .ok client) :
    OrderbookBuilder.run (calls <| (received packets).map stream) = .ok client.builder := by
  have hb := exec_calls hm (fun p h => (hp p h).left) h
  rw [allMessages_eq fun p h => (hp p h).right] at hb
  rw [OrderbookBuilder.run_eq_of_keys hF (calls_subperm <| received_subperm hn) fun k => ho.filter_received]
  exact hb

section Samples

-- The deletion of the first order overtakes the addition of the other one, on the same side of one book.

def crossingStream : ℕ → List UInt8
  | 1 => (sampleAdd 10).toHost.pack
  | 2 => otherAdd.toHost.pack
  | _ => sampleDelete.toHost.pack

def crossingPacketOf (n : ℕ) : Packet :=
  { samplePacketOf n with messages := [crossingStream n] }

def crossingPackets : List Packet :=
  [crossingPacketOf 1, crossingPacketOf 3, crossingPacketOf 2]

theorem crossingPackets_delivers : ∀ p ∈ crossingPackets, p.WellFormed ∧ Delivers crossingStream p := by
  simp only [crossingPackets, List.mem_cons, List.not_mem_nil, or_false, forall_eq_or_imp, forall_eq]
  exact ⟨⟨⟨rfl, by decide, by decide +kernel⟩, rfl⟩, ⟨⟨rfl, by decide, by decide +kernel⟩, rfl⟩,
    ⟨⟨rfl, by decide, by decide +kernel⟩, rfl⟩⟩

theorem crossing_calls : calls ((List.range' 1 3).map crossingStream) = OrderbookBuilder.sampleFeed := by
  decide +kernel

theorem crossing_inOrder : InOrder crossingStream crossingPackets := by
  intro k
  have ha : arrivals crossingPackets = [1, 3, 2] := by decide
  have h₂ : call? (crossingStream 2) = some (.addOrder otherAdd) := by decide +kernel
  have h₃ : call? (crossingStream 3) = some (.deleteOrder sampleDelete) := by decide +kernel
  rw [ha]
  cases Decidable.em (k = sampleDelete.key)
  case inl hk =>
    have hn : Names crossingStream k 2 = false := by rw [Names, h₂, hk]; decide +kernel
    have hp : [1, 3].Pairwise (· < ·) := by decide
    simpa [List.filter_cons, hn] using hp.filter (Names crossingStream k)
  case inr hk =>
    have hn : Names crossingStream k 3 = false := by rw [Names, h₃]; exact decide_eq_false (Ne.symm hk)
    have hp : [1, 2].Pairwise (· < ·) := by decide
    simpa [List.filter_cons, hn] using hp.filter (Names crossingStream k)

theorem settled_crossing :
    ∃ client, run (buffers crossingPackets) = .ok client ∧
      OrderbookBuilder.run (calls <| (received crossingPackets).map crossingStream) = .ok client.builder :=
  ⟨_, rfl, settled (N := 3) (crossing_calls ▸ OrderbookBuilder.sampleFeed_wellFormed) crossingPackets_delivers
    (by decide) crossing_inOrder buffers_hold rfl⟩

end Samples

end MarketDataClient
