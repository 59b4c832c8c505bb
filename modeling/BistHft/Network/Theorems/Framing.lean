import BistHft.Network.TcpClient
import BistHft.Lib.Framing
import BistHft.Lib.Run

-- The messages that reach the handler do not depend on how the stream is cut into reads.

open Framing

namespace TcpClient

variable {σ : Type*} {handle : σ → Memory → UInt16 → σ} {client : TcpClient} {offset o : UInt64} {s : σ}
variable {f x bytes : List UInt8} {fs frames reads pre : List (List UInt8)} {t : σ × List (List UInt8)} {messageLength : UInt16}

-- A message with its length in front, small enough for the buffer.
def IsFrame (f : List UInt8) : Prop :=
  ∃ payload, f = pack16 (.ofNat payload.length) ++ payload ∧ f.length ≤ bufferSize

-- Any message, also one that is too large for the buffer.
def IsMessage (f : List UInt8) : Prop :=
  ∃ payload, f = pack16 (.ofNat payload.length) ++ payload ∧ payload.length < 2 ^ 16

-- A handler together with a record of the byte strings that it is called with.
def recording (handle : σ → Memory → UInt16 → σ) (s : σ × List (List UInt8)) (data : Memory)
    (length : UInt16) : σ × List (List UInt8) :=
  (handle s.1 data length, s.2 ++ [data.bytes 0 length.toNat])

section Offsets

-- The offsets at which the loop looks for a message.
inductive Reaches (client : TcpClient) : UInt64 → Prop
  | start : Reaches client 0
  | next {o : UInt64} {l : UInt16} (h : Reaches client o) (hc : client.complete? o = some l) :
    Reaches client (o + (2 + l.toUInt64))

-- No subtraction from the data size underflows and no length argument is truncated.
def Exact (client : TcpClient) : Prop :=
  ∀ offset, client.Reaches offset → offset ≤ client.dataSize ∧
    ∀ messageLength, client.complete? offset = some messageLength →
      (2 + messageLength : UInt16).toNat = 2 + messageLength.toNat

theorem next_toNat (ho : offset ≤ client.dataSize) (h : client.complete? offset = some messageLength) :
    (offset + (2 + messageLength.toUInt64)).toNat = offset.toNat + (2 + messageLength.toNat) ∧
      offset.toNat + (2 + messageLength.toNat) ≤ client.dataSize.toNat := by
  have hle := UInt64.le_iff_toNat_le.mp (complete?_le h)
  have ho' := UInt64.le_iff_toNat_le.mp ho
  have hd := client.dataSize.toNat_lt
  rw [messageSize_toNat, UInt64.toNat_sub_of_le _ _ ho] at hle
  exact ⟨by rw [UInt64.toNat_add_of_lt (by rw [messageSize_toNat]; omega), messageSize_toNat], by omega⟩

theorem Reaches.le (h : client.Reaches offset) : offset ≤ client.dataSize := by
  induction h
  case start          => exact UInt64.zero_le
  case next hc hi =>
    have ⟨hn, hle⟩ := next_toNat hi hc
    exact UInt64.le_iff_toNat_le.mpr (hn ▸ hle)

theorem exact_of_le (hd : client.dataSize.toNat ≤ bufferSize) : client.Exact := by
  intro offset h
  refine ⟨h.le, fun messageLength hc => ?_⟩
  have ⟨_, hle⟩ := next_toNat h.le hc
  have hb : bufferSize = 4096 := rfl
  have h2 : (2 : UInt16).toNat = 2 := rfl
  rw [UInt16.toNat_add, h2, Nat.mod_eq_of_lt (by omega)]

end Offsets

section Loop

theorem complete?_of_lt (h : (client.dataSize - offset).toNat < 2) : client.complete? offset = none :=
  if_neg (UInt64.not_le.mpr h)

-- Where the length bytes have arrived, the message is complete if the announced size has arrived.
theorem complete?_of_le (h : 2 ≤ (client.dataSize - offset).toNat)
    (hl : be16toh (client.buffer.load16 offset.toNat) = messageLength) :
    client.complete? offset =
      if (client.dataSize - offset).toNat < 2 + messageLength.toNat then none else some messageLength := by
  have hge : client.dataSize - offset ≥ 2 := UInt64.le_iff_toNat_le.mpr h
  rw [complete?, if_pos hge, hl]
  simp only [UInt64.lt_iff_toNat_lt, messageSize_toNat]

-- What the loop sees at the beginning of a frame of which at least the length bytes have arrived.
theorem complete?_frame (hx : (client.buffer.shift offset.toNat).Holds x) (hl : (client.dataSize - offset).toNat = x.length)
    (h2 : 2 ≤ x.length) (hp : x.take 2 = pack16 messageLength) :
    client.complete? offset = if x.length < 2 + messageLength.toNat then none else some messageLength := by
  have hb := hx.bytes_eq (o := 0) (n := 2) h2
  rw [Memory.bytes_shift, List.drop_zero, hp] at hb
  rw [complete?_of_le (hl ▸ h2) (load16_pack hb), hl]

theorem processMessages_none (h : client.complete? offset = none) :
    processMessages handle client offset s = (s, offset) := by
  rw [processMessages]
  split
  case h_1      => rfl
  case h_2 _ h' => rw [h] at h'; contradiction

theorem processMessages_some (h : client.complete? offset = some messageLength) :
    processMessages handle client offset s =
      processMessages handle client (offset + (2 + messageLength.toUInt64))
        (handle s (client.buffer.shift offset.toNat) (2 + messageLength)) := by
  rw [processMessages]
  split
  case h_1 h'   => rw [h] at h'; contradiction
  case h_2 _ h' => rw [h] at h'; cases h'; rfl

theorem IsFrame.isMessage (h : IsFrame f) : IsMessage f := by
  obtain ⟨payload, rfl, hb⟩ := h
  have hs : bufferSize = 4096 := rfl
  rw [List.length_append, pack16_length] at hb
  exact ⟨payload, rfl, by omega⟩

theorem IsFrame.length_le (h : IsFrame f) : f.length ≤ bufferSize :=
  have ⟨_, _, hb⟩ := h
  hb

theorem IsMessage.header (h : IsMessage f) : ∃ l : UInt16, f.take 2 = pack16 l ∧ f.length = 2 + l.toNat := by
  obtain ⟨payload, rfl, hb⟩ := h
  have hn : (UInt16.ofNat payload.length).toNat = payload.length := UInt16.toNat_ofNat_of_lt' hb
  exact ⟨.ofNat payload.length, by simp, by simp [hn]⟩

theorem IsMessage.length_pos (h : IsMessage f) : 0 < f.length :=
  have ⟨_, _, hl⟩ := h.header
  by omega

-- A message is complete only if it is no larger than the buffer.
theorem processMessages_eq (handle : σ → Memory → UInt16 → σ) (hf : ∀ f ∈ fs, IsMessage f)
    (hb : x.length ≤ bufferSize) (hx : (client.buffer.shift offset.toNat).Holds x) (ho : offset ≤ client.dataSize)
    (hl : (client.dataSize - offset).toNat = x.length) (hp : x <+: fs.flatten) :
    ∃ s' o, processMessages (recording handle) client offset t = ((s', t.2 ++ completed fs x.length), o) ∧
      o ≤ client.dataSize ∧ (client.dataSize - o).toNat = (pending fs x.length).length ∧
      (client.buffer.shift o.toNat).Holds (pending fs x.length) := by
  induction fs generalizing offset x t
  case nil =>
    have hx : x = [] := by simpa using hp
    subst hx
    rw [processMessages_none (complete?_of_lt (by simp [hl]))]
    exact ⟨t.1, offset, by simp [completed], ho, hl, rfl⟩
  case cons f fs hi =>
    obtain ⟨hf, hfs⟩ := List.forall_mem_cons.mp hf
    obtain ⟨l, ht, hfl⟩ := hf.header
    rw [List.flatten_cons] at hp
    cases Nat.lt_or_ge x.length f.length
    case inl hlt =>
      -- the message at the offset is the one that has not arrived as a whole
      have hpf : x <+: f := List.prefix_of_prefix_length_le hp (List.prefix_append ..) (Nat.le_of_lt hlt)
      have hxf : x = f.take x.length := List.prefix_iff_eq_take.mp hpf
      have hc : client.complete? offset = none := by
        cases Nat.lt_or_ge x.length 2
        case inl h2 => exact complete?_of_lt (hl ▸ h2)
        case inr h2 =>
          have hx2 : x.take 2 = pack16 l := by rw [hxf, List.take_take, Nat.min_eq_left h2, ht]
          rw [complete?_frame hx hl h2 hx2, if_pos (hfl ▸ hlt)]
      rw [processMessages_none hc, completed_of_lt hlt, pending_of_lt hlt, ← hxf]
      exact ⟨t.1, offset, by simp, ho, hl, hx⟩
    case inr hge =>
      have hpf : f <+: x := List.prefix_of_prefix_length_le (List.prefix_append ..) hp hge
      obtain ⟨x', rfl⟩ := hpf
      have h2 : 2 ≤ f.length := by omega
      have hn : (2 + l : UInt16).toNat = f.length := by
        have hs : bufferSize = 4096 := rfl
        have h2 : (2 : UInt16).toNat = 2 := rfl
        rw [UInt16.toNat_add, h2, Nat.mod_eq_of_lt (by omega), hfl]
      have hx2 : (f ++ x').take 2 = pack16 l := by rw [List.take_append_of_le_length h2, ht]
      have hc : client.complete? offset = some l := by
        rw [complete?_frame hx hl (Nat.le_trans h2 hge) hx2, if_neg (by omega)]
      obtain ⟨hno, hle⟩ := next_toNat ho hc
      have ho' : offset + (2 + l.toUInt64) ≤ client.dataSize := UInt64.le_iff_toNat_le.mpr (hno ▸ hle)
      have hlen : (f ++ x').length - f.length = x'.length := by simp
      have hl' : (client.dataSize - (offset + (2 + l.toUInt64))).toNat = x'.length := by
        rw [UInt64.toNat_sub_of_le _ _ ho, List.length_append] at hl
        rw [UInt64.toNat_sub_of_le _ _ ho', hno]
        omega
      have hx' : (client.buffer.shift (offset + (2 + l.toUInt64)).toNat).Holds x' := by
        have hd := hx.drop
        rwa [Memory.shift_shift, hfl, ← hno] at hd
      have hlog : (client.buffer.shift offset.toNat).bytes 0 (2 + l : UInt16).toNat = f := by
        rw [hn]
        exact hx.take
      rw [processMessages_some hc, completed_of_le hge, pending_of_le hge, hlen, recording, hlog]
      have hb' : x'.length ≤ bufferSize := by rw [List.length_append] at hb; omega
      obtain ⟨s', o, he, hrest⟩ := hi hfs hb' hx' ho' hl' ((List.prefix_append_right_inj f).mp hp)
        (t := (handle t.1 (client.buffer.shift offset.toNat) (2 + l), t.2 ++ [f]))
      exact ⟨s', o, by rw [he, List.append_assoc]; rfl, hrest⟩

end Loop

section Buffer

theorem dropFront_holds (hl : (client.dataSize - offset).toNat = x.length)
    (hx : (client.buffer.shift offset.toNat).Holds x) : (client.dropFront offset).buffer.Holds x := by
  apply Memory.holds_of_apply
  intro i hi
  rw [← hx.apply hi]
  exact if_pos (hl ▸ hi)

-- One call of `processBuffer` handles the messages that are complete and keeps the rest in front.
theorem processBuffer_eq (handle : σ → Memory → UInt16 → σ) (hf : ∀ f ∈ fs, IsMessage f)
    (hb : x.length ≤ bufferSize) (hx : client.buffer.Holds x) (hl : client.dataSize.toNat = x.length) (hp : x <+: fs.flatten) :
    ∃ client' s', client.processBuffer (recording handle) t = (client', s', t.2 ++ completed fs x.length) ∧
      client'.dataSize.toNat = (pending fs x.length).length ∧ client'.buffer.Holds (pending fs x.length) := by
  have hx₀ : (client.buffer.shift (0 : UInt64).toNat).Holds x := by simpa using hx
  have ⟨s', o, he, ho, hol, hoh⟩ := processMessages_eq handle (t := t) hf hb hx₀ UInt64.zero_le (by simpa using hl) hp
  rw [processBuffer, he]
  cases Decidable.em (o > 0)
  case inl hpos =>
    refine ⟨client.dropFront o, s', if_pos hpos, hol, dropFront_holds hol hoh⟩
  case inr hz =>
    have hz : o = 0 := by simpa [UInt64.pos_iff_ne_zero] using hz
    subst hz
    exact ⟨client, s', if_neg hz, by simpa using hol, by simpa using hoh⟩

theorem readFromSocket_holds (hx : client.buffer.Holds x) (hl : client.dataSize.toNat = x.length) :
    (client.readFromSocket bytes).buffer.Holds (x ++ bytes) := by
  apply Memory.holds_of_apply
  intro i hi
  simp only [readFromSocket, hl]
  cases Nat.lt_or_ge i x.length
  case inl hlt => rw [if_pos hlt, List.getElem_append_left hlt, hx.apply hlt]
  case inr hge =>
    have hi' : i - x.length < bytes.length := by rw [List.length_append] at hi; omega
    rw [if_neg (Nat.not_lt_of_ge hge), List.getElem_append_right hge, List.getD_eq_getElem?_getD,
      List.getElem?_eq_getElem hi', Option.getD_some]

theorem readFromSocket_dataSize (hl : client.dataSize.toNat + bytes.length ≤ bufferSize) :
    (client.readFromSocket bytes).dataSize.toNat = client.dataSize.toNat + bytes.length := by
  have hb : bufferSize = 4096 := rfl
  have hlt : bytes.length < 2 ^ 64 := by omega
  have hn : (UInt64.ofNat bytes.length).toNat = bytes.length := UInt64.toNat_ofNat_of_lt' hlt
  rw [readFromSocket, UInt64.toNat_add_of_lt (by omega), hn]

end Buffer

section Reads

-- One round of the loop in `startRead`.
def receive (handle : σ → Memory → UInt16 → σ) (c : TcpClient × σ) (bytes : List UInt8) :
    Except Fault (TcpClient × σ) :=
  .ok <| (c.1.readFromSocket bytes).processBuffer handle c.2

-- A read returns at least one byte and no more than there is room for.
def ReadFits (c : TcpClient × σ) (bytes : List UInt8) : Prop :=
  1 ≤ bytes.length ∧ c.1.dataSize.toNat + bytes.length ≤ bufferSize

-- The buffer holds what has been received of the incomplete frame, after `n` bytes of the stream.
structure Buffered (frames : List (List UInt8)) (n : ℕ) (client : TcpClient) : Prop where
  dataSize : client.dataSize.toNat = (pending frames n).length
  holds    : client.buffer.Holds (pending frames n)

theorem receive_buffered (handle : σ → Memory → UInt16 → σ) {c : TcpClient × σ × List (List UInt8)} {n : ℕ} (hf : ∀ f ∈ frames, IsMessage f)
    (hb : Buffered frames n c.1) (hfit : ReadFits c bytes) (hn : n ≤ frames.flatten.length)
    (hp : bytes <+: frames.flatten.drop n) :
    ∃ client s, receive (recording handle) c bytes =
        .ok (client, s, c.2.2 ++ completed (remaining frames n) ((pending frames n).length + bytes.length)) ∧
      Buffered frames (n + bytes.length) client := by
  have hx : (c.1.readFromSocket bytes).buffer.Holds (pending frames n ++ bytes) :=
    readFromSocket_holds hb.holds hb.dataSize
  have hl : (c.1.readFromSocket bytes).dataSize.toNat = (pending frames n ++ bytes).length := by
    rw [readFromSocket_dataSize hfit.right, hb.dataSize, List.length_append]
  have hs : (pending frames n ++ bytes).length ≤ bufferSize := by
    rw [List.length_append, ← hb.dataSize]
    exact hfit.right
  have hp' : pending frames n ++ bytes <+: (remaining frames n).flatten := by
    rw [remaining_flatten hn]
    exact (List.prefix_append_right_inj _).mpr hp
  have ⟨client, s, he, hd, hh⟩ := processBuffer_eq handle (t := c.2)
    (fun f h => hf f (mem_of_mem_remaining h)) hs hx hl hp'
  rw [List.length_append] at he hd hh
  rw [← (completed_add hn).right] at hd hh
  exact ⟨client, s, congrArg Except.ok he, hd, hh⟩

theorem reads_invariant (hf : ∀ f ∈ frames, IsMessage f) (s : σ) :
    Run.Invariant (receive (recording handle)) ({}, s, [])
      (fun pre c bytes => ReadFits c bytes ∧ (pre ++ [bytes]).flatten <+: frames.flatten)
      (fun pre c => c.2.2 = completed frames pre.flatten.length ∧ Buffered frames pre.flatten.length c.1) where
  init := by
    have hpos f (h : f ∈ frames) : 0 < f.length := (hf f h).length_pos
    exact ⟨(completed_zero hpos).symm, by simp [pending_zero hpos], by simp [pending_zero hpos]; rfl⟩
  next := by
    intro pre c bytes ⟨hlog, hb⟩ ⟨hfit, hp⟩
    rw [List.flatten_append, List.flatten_singleton] at hp
    have hn : pre.flatten.length ≤ frames.flatten.length := by
      have := hp.length_le
      rw [List.length_append] at this
      omega
    have hd : bytes <+: frames.flatten.drop pre.flatten.length := by
      have := hp.drop pre.flatten.length
      rwa [List.drop_left] at this
    have ⟨client, s', he, hb'⟩ := receive_buffered handle hf hb hfit hn hd
    refine ⟨_, he, ?_, ?_⟩
    · rw [hlog, List.flatten_append, List.flatten_singleton, List.length_append, (completed_add hn).left]
    · rwa [List.flatten_append, List.flatten_singleton, List.length_append]

theorem admits_stream (hr : Run.Admits (receive (recording handle)) ({}, s, []) (fun _ => ReadFits) reads)
    (hs : reads.flatten <+: frames.flatten) :
    Run.Admits (receive (recording handle)) ({}, s, [])
      (fun pre c bytes => ReadFits c bytes ∧ (pre ++ [bytes]).flatten <+: frames.flatten) reads := by
  rintro pre bytes post c rfl hc
  exact ⟨hr pre bytes post c rfl hc, .trans ⟨post.flatten, by simp⟩ hs⟩

-- The messages that are handled are the frames that have arrived, and the buffer keeps the beginning
-- of the next one.
theorem reads_framed (hf : ∀ f ∈ frames, IsFrame f) (s : σ)
    (hr : Run.Admits (receive (recording handle)) ({}, s, []) (fun _ => ReadFits) reads)
    (hs : reads.flatten <+: frames.flatten) (hp : pre <+: reads) :
    ∃ client s', Run.exec (receive (recording handle)) ({}, s, []) pre =
        .ok (client, s', completed frames pre.flatten.length) ∧
      client.buffer.bytes 0 client.dataSize.toNat = pending frames pre.flatten.length ∧
      client.dataSize.toNat < bufferSize ∧
      ∀ bytes, pre ++ [bytes] <+: reads → (client.readFromSocket bytes).Exact := by
  have ⟨⟨client, s', log⟩, he, hlog, hb⟩ := (reads_invariant (fun f h => (hf f h).isMessage) s).exec_restrict (admits_stream hr hs) hp
  subst hlog
  refine ⟨client, s', he, hb.dataSize ▸ hb.holds, ?_, fun bytes hbs => exact_of_le ?_⟩
  · exact hb.dataSize ▸ pending_length_lt (fun f h => (hf f h).length_le) (by decide)
  · have hfit := (hr.restrict hbs).last he
    exact readFromSocket_dataSize hfit.right ▸ hfit.right

-- What fits is known from the stream alone.
theorem reads_fit (hf : ∀ f ∈ frames, IsMessage f) (s : σ) (hs : reads.flatten <+: frames.flatten)
    (h : ∀ i, (hi : i < reads.length) → 1 ≤ reads[i].length ∧
      (pending frames (reads.take i).flatten.length).length + reads[i].length ≤ bufferSize) :
    Run.Admits (receive (recording handle)) ({}, s, []) (fun _ => ReadFits) reads := by
  induction reads using List.reverseRecOn
  case nil => exact .nil
  case append_singleton reads bytes hi =>
    have hs' : reads.flatten <+: frames.flatten := .trans ⟨bytes, by simp⟩ hs
    have ha := hi hs' fun i hi => by
      have h := h i (by rw [List.length_append]; omega)
      rwa [List.getElem_append_left hi, List.take_append_of_le_length (Nat.le_of_lt hi)] at h
    apply ha.snoc
    intro c hc
    have ⟨c', hc', _, hb⟩ := (reads_invariant hf s).exec (admits_stream ha hs')
    cases hc.symm.trans hc'
    have h := h reads.length (by simp)
    rwa [List.getElem_concat_length rfl, List.take_left, ← hb.dataSize] at h

def sampleFrames : List (List UInt8) := [[0, 1, 0x48], [0, 3, 0x53, 0x4a, 0x31]]

def sampleReads : List (List UInt8) := [[0], [1, 0x48, 0], [3, 0x53], [0x4a, 0x31]]

theorem sampleFrames_isFrame : ∀ f ∈ sampleFrames, IsFrame f
  | _, .head _          => ⟨[0x48], rfl, by decide⟩
  | _, .tail _ (.head _) => ⟨[0x53, 0x4a, 0x31], rfl, by decide⟩

theorem reads_framed_split :
    ∃ client s', Run.exec (receive (recording fun n _ _ => n + 1)) ({}, 0, []) (sampleReads.take 3) =
        .ok (client, s', [[0, 1, 0x48]]) ∧
      client.buffer.bytes 0 client.dataSize.toNat = [0, 3, 0x53] ∧
      client.dataSize.toNat < bufferSize ∧
      ∀ bytes, sampleReads.take 3 ++ [bytes] <+: sampleReads → (client.readFromSocket bytes).Exact :=
  have hs : sampleReads.flatten <+: sampleFrames.flatten := by decide
  reads_framed sampleFrames_isFrame 0 (reads_fit (fun f h => (sampleFrames_isFrame f h).isMessage) 0 hs (by decide)) hs (List.take_prefix ..)

end Reads

end TcpClient
