import BistHft.Network.TcpSocket
import BistHft.Network.Theorems.Framing

-- What arrives at the client when the writes of its peer do not all succeed.

open Framing Transfer

-- The client gives up where the server would try again, so it sends no more of a buffer.
theorem TcpSocket.write_prefix {buffer : List UInt8} {results : List WriteResult} :
    (TcpSocket.write buffer results).sent <+: (TcpClientConnection.write buffer results).sent :=
  sent_prefix fun e => by cases e <;> decide

namespace TcpClientConnection

variable {calls : List WriteCall}

-- No call gives up in the middle of its message.
def Whole (calls : List WriteCall) : Prop :=
  ∀ call ∈ calls, (write call.1 call.2).status = .finished ∨ (write call.1 call.2).sent = []

theorem stream_eq_iff : stream calls = (finished calls).flatten ↔ Whole calls := by
  rw [stream, List.flatMap_def]
  exact Transfer.stream_eq_iff

end TcpClientConnection

namespace TcpClient

variable {σ : Type*} {handle : σ → Memory → UInt16 → σ} {client : TcpClient} {s s' : σ} {l : UInt16}
variable {x f : List UInt8} {log reads : List (List UInt8)} {calls : List WriteCall}

section Streams

theorem exists_header (h : 2 ≤ x.length) : ∃ l : UInt16, x.take 2 = pack16 l := by
  have hx : (Memory.ofList x).Holds x := Memory.holds_ofList
  have hb := hx.bytes_eq (o := 0) (n := 2) h
  exact ⟨be16toh ((Memory.ofList x).load16 0), by rw [pack16_load, hb, List.drop_zero]⟩

theorem isMessage_of_header (h : f.take 2 = pack16 l) (hl : f.length = 2 + l.toNat) : IsMessage f := by
  have hd : (f.drop 2).length = l.toNat := by rw [List.length_drop, hl, Nat.add_sub_cancel_left]
  refine ⟨f.drop 2, ?_, hd ▸ l.toNat_lt⟩
  rw [hd, UInt16.ofNat_toNat, ← h, List.take_append_drop]

theorem exists_message (h : 2 ≤ x.length) : ∃ f, IsMessage f ∧ (f <+: x ∨ x <+: f) := by
  have ⟨l, hl⟩ := exists_header h
  cases Nat.le_total (2 + l.toNat) x.length
  case inl hle =>
    have hn : (x.take (2 + l.toNat)).length = 2 + l.toNat := List.length_take_of_le hle
    refine ⟨x.take (2 + l.toNat), isMessage_of_header (l := l) ?_ hn, .inl (List.take_prefix ..)⟩
    rw [List.take_take, Nat.min_eq_left (Nat.le_add_right ..), hl]
  case inr hge =>
    refine ⟨x ++ .replicate (2 + l.toNat - x.length) 0, isMessage_of_header (l := l) ?_ ?_, .inr (List.prefix_append ..)⟩
    · rw [List.take_append_of_le_length h, hl]
    · rw [List.length_append, List.length_replicate, Nat.add_sub_of_le hge]

-- Whatever the bytes are, they are the beginning of some messages.
theorem exists_messages (x : List UInt8) : ∃ fs : List (List UInt8), (∀ f ∈ fs, IsMessage f) ∧ x <+: fs.flatten := by
  induction hn : x.length using Nat.strongRecOn generalizing x
  case ind n hi =>
    subst hn
    cases Nat.lt_or_ge x.length 2
    case inl h2 =>
      have ⟨f, hf, hx⟩ := exists_message (x := x ++ [0, 0]) (by simp)
      have hl : x.length ≤ f.length := by
        have ⟨_, _, hl⟩ := hf.header
        omega
      have hp : x <+: f := by
        cases hx
        case inl hx => exact List.prefix_of_prefix_length_le (List.prefix_append ..) hx hl
        case inr hx => exact (List.prefix_append ..).trans hx
      exact ⟨[f], List.forall_mem_singleton.mpr hf, by simpa using hp⟩
    case inr h2 =>
      have ⟨f, hf, hx⟩ := exists_message h2
      cases hx
      case inr hx => exact ⟨[f], List.forall_mem_singleton.mpr hf, by simpa using hx⟩
      case inl hx =>
        obtain ⟨y, rfl⟩ := hx
        have hpos := hf.length_pos
        have ⟨fs, hfs, hy⟩ := hi y.length (by rw [List.length_append]; omega) y rfl
        exact ⟨f :: fs, List.forall_mem_cons.mpr ⟨hf, hfs⟩, (List.prefix_append_right_inj f).mpr hy⟩

end Streams

theorem exists_exec (hr : Run.Admits (receive (recording handle)) ({}, s, []) (fun _ => ReadFits) reads) :
    ∃ client s' log, Run.exec (receive (recording handle)) ({}, s, []) reads = .ok (client, s', log) := by
  have ⟨fs, hf, hp⟩ := exists_messages reads.flatten
  have ⟨⟨client, s', log⟩, he, _⟩ := (reads_invariant hf s).exec (admits_stream hr hp)
  exact ⟨client, s', log, he⟩

theorem log_append_bytes (hr : Run.Admits (receive (recording handle)) ({}, s, []) (fun _ => ReadFits) reads)
    (he : Run.exec (receive (recording handle)) ({}, s, []) reads = .ok (client, s', log)) :
    log.flatten ++ client.buffer.bytes 0 client.dataSize.toNat = reads.flatten := by
  have ⟨fs, hf, hp⟩ := exists_messages reads.flatten
  have ⟨_, he', hlog, hb⟩ := (reads_invariant hf s).exec (admits_stream hr hp)
  cases he.symm.trans he'
  have hh : client.buffer.bytes 0 client.dataSize.toNat = pending fs reads.flatten.length := hb.dataSize ▸ hb.holds
  have hlog : log = completed fs reads.flatten.length := hlog
  rw [hlog, hh, ← take_flatten hp.length_le, ← List.prefix_iff_eq_take.mp hp]

-- No byte is lost or made up between the socket and the handler, for any bytes and any reads.
theorem reads_conserved (hr : Run.Admits (receive (recording handle)) ({}, s, []) (fun _ => ReadFits) reads) :
    ∃ client s' log, Run.exec (receive (recording handle)) ({}, s, []) reads = .ok (client, s', log) ∧
      log.flatten ++ client.buffer.bytes 0 client.dataSize.toNat = reads.flatten := by
  obtain ⟨client, s', log, he⟩ := exists_exec hr
  exact ⟨client, s', log, he, log_append_bytes hr he⟩

theorem reads_conserved_split :
    ∃ client s' log, Run.exec (receive (recording fun n _ _ => n + 1)) ({}, 0, []) sampleReads = .ok (client, s', log) ∧
      log.flatten ++ client.buffer.bytes 0 client.dataSize.toNat = sampleReads.flatten :=
  reads_conserved (reads_fit (fun f h => (sampleFrames_isFrame f h).isMessage) 0 List.prefix_rfl (by decide))

-- A write that ends in the middle of a packet is noticed, however the stream is cut into reads.
theorem received_iff (hf : ∀ call ∈ calls, IsFrame call.1)
    (hr : Run.Admits (receive (recording handle)) ({}, s, []) (fun _ => ReadFits) reads)
    (hs : reads.flatten = TcpClientConnection.stream calls) :
    ∃ client s' log, Run.exec (receive (recording handle)) ({}, s, []) reads = .ok (client, s', log) ∧
      (log = TcpClientConnection.finished calls ∧ client.dataSize = 0 ↔ TcpClientConnection.Whole calls) := by
  have ⟨client, s', log, he⟩ := exists_exec hr
  have hc := log_append_bytes hr he
  refine ⟨client, s', log, he, ?_, fun hw => ?_⟩
  case refine_1 =>
    rintro ⟨rfl, hd⟩
    rw [hd, hs] at hc
    exact TcpClientConnection.stream_eq_iff.mp (hc.symm.trans (List.append_nil _))
  case refine_2 =>
    have hm f (h : f ∈ TcpClientConnection.finished calls) : IsMessage f := by
      obtain ⟨call, hm, rfl⟩ := List.mem_map.mp h
      exact (hf call (List.mem_of_mem_filter hm)).isMessage
    rw [TcpClientConnection.stream_eq_iff.mpr hw] at hs
    have ⟨⟨client', _, _⟩, he', hlog, hb⟩ := (reads_invariant hm s).exec (admits_stream hr (hs ▸ List.prefix_rfl))
    cases he.symm.trans he'
    have hlog : log = _ := hlog
    rw [hs, completed_all] at hlog
    refine ⟨hlog, UInt64.toNat_inj.mp ?_⟩
    rw [hlog, hs] at hc
    have hl := congrArg List.length (List.append_right_eq_self.mp hc)
    rwa [Memory.bytes_length] at hl

section Samples

-- The second write is interrupted for good.
def sampleCalls : List WriteCall :=
  [([0, 1, 0x48], [.taken 2, .error .eagain, .taken 1]), ([0, 3, 0x53, 0x4a, 0x31], [.taken 2, .error .epipe])]

theorem received_iff_sample :
    ∃ client s' log, Run.exec (receive (recording fun n _ _ => n + 1)) ({}, 0, []) [[0, 1], [0x48, 0, 3]] =
        .ok (client, s', log) ∧
      (log = TcpClientConnection.finished sampleCalls ∧ client.dataSize = 0 ↔ TcpClientConnection.Whole sampleCalls) := by
  have hf : ∀ call ∈ sampleCalls, IsFrame call.1
    | _, .head _           => sampleFrames_isFrame _ (.head _)
    | _, .tail _ (.head _) => sampleFrames_isFrame _ (.tail _ (.head _))
  have hs : [[0, 1], [0x48, 0, 3]].flatten <+: sampleFrames.flatten := by decide
  exact received_iff hf (reads_fit (fun f h => (sampleFrames_isFrame f h).isMessage) 0 hs (by decide)) rfl

end Samples

end TcpClient
