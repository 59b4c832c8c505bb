import BistHft.Client.Theorems.Isolation

-- What a handler makes of a whole stream, if nothing but the bytes of a frame matters to it.

open Framing

namespace TcpClient

universe u

variable {σ : Type u} {handle : σ → Memory → UInt16 → σ} {act : σ → List UInt8 → σ} {client : TcpClient} {offset : UInt64}
variable {s : σ} {n : ℕ} {bytes : List UInt8} {frames reads : List (List UInt8)} {calls : List (Memory × UInt16)}

section Calls

def callAll (handle : σ → Memory → UInt16 → σ) (s : σ) (calls : List (Memory × UInt16)) : σ :=
  calls.foldl (fun s call => handle s call.1 call.2) s

-- Which messages there are in the buffer does not depend on the handler.
theorem processMessages_callAll (client : TcpClient) (offset : UInt64) : ∃ calls o,
    ∀ {σ : Type u} (handle : σ → Memory → UInt16 → σ) (s : σ),
      processMessages handle client offset s = (callAll handle s calls, o) := by
  induction hn : (client.dataSize - offset).toNat using Nat.strongRecOn generalizing offset
  case ind n hi =>
    subst hn
    cases hc : client.complete? offset
    case none => exact ⟨[], offset, fun handle s => processMessages_none hc⟩
    case some messageLength =>
      have hd : (client.dataSize - (offset + (2 + messageLength.toUInt64))).toNat < (client.dataSize - offset).toNat := by
        have := left_decreases hc
        omega
      have ⟨calls, o, he⟩ := hi _ hd _ rfl
      refine ⟨(client.buffer.shift offset.toNat, 2 + messageLength) :: calls, o, fun handle s => ?_⟩
      rw [processMessages_some hc, he]
      rfl

theorem processBuffer_callAll (client : TcpClient) : ∃ calls client',
    ∀ {σ : Type u} (handle : σ → Memory → UInt16 → σ) (s : σ),
      client.processBuffer handle s = (client', callAll handle s calls) := by
  have ⟨calls, o, he⟩ := processMessages_callAll client 0
  refine ⟨calls, if o > 0 then client.dropFront o else client, fun handle s => ?_⟩
  rw [processBuffer, he]
  dsimp only
  split <;> rfl

theorem callAll_recording {t : σ × List (List UInt8)} : (callAll (recording handle) t calls).2 =
    t.2 ++ calls.map fun call => call.1.bytes 0 call.2.toNat := by
  induction calls generalizing t
  case nil => exact (List.append_nil _).symm
  case cons call calls hi =>
    rw [callAll, List.foldl_cons, ← callAll, hi, recording, List.map_cons, List.append_assoc]
    rfl

-- The handler, called with a memory that holds the frame.
def Delivers (handle : σ → Memory → UInt16 → σ) (act : σ → List UInt8 → σ) (f : List UInt8) : Prop :=
  ∀ s m, m.Holds f → handle s m (.ofNat f.length) = act s f

theorem callAll_act (h : ∀ call ∈ calls, Delivers handle act (call.1.bytes 0 call.2.toNat)) :
    callAll handle s calls = (calls.map fun call => call.1.bytes 0 call.2.toNat).foldl act s := by
  induction calls generalizing s
  case nil => rfl
  case cons call calls hi =>
    have ⟨hc, hcs⟩ := List.forall_mem_cons.mp h
    have hm : call.1.Holds (call.1.bytes 0 call.2.toNat) := congrArg (call.1.bytes 0) Memory.bytes_length
    have he := hc s call.1 hm
    rw [Memory.bytes_length, UInt16.ofNat_toNat] at he
    rw [callAll, List.foldl_cons, ← callAll, hi hcs, he]
    rfl

end Calls

section Reads

theorem receive_delivered {c : TcpClient × σ} (hf : ∀ f ∈ frames, IsMessage f) (ha : ∀ f ∈ frames, Delivers handle act f)
    (hb : Buffered frames n c.1) (hfit : ReadFits c bytes) (hn : n ≤ frames.flatten.length)
    (hp : bytes <+: frames.flatten.drop n) :
    ∃ client, receive handle c bytes =
        .ok (client, (completed (remaining frames n) ((pending frames n).length + bytes.length)).foldl act c.2) ∧
      Buffered frames (n + bytes.length) client := by
  have ⟨client, s', he, hb'⟩ := receive_buffered handle (c := (c.1, c.2, [])) hf hb hfit hn hp
  have ⟨calls, client', hc⟩ := processBuffer_callAll.{u} (c.1.readFromSocket bytes)
  rw [receive, hc] at he
  obtain ⟨rfl, ht⟩ := Prod.mk.inj (Except.ok.inj he)
  have hl := congrArg Prod.snd ht
  rw [callAll_recording, List.nil_append, List.nil_append] at hl
  refine ⟨client', ?_, hb'⟩
  rw [receive, hc, callAll_act, hl]
  intro call hm
  apply ha
  have hm := List.mem_map_of_mem (f := fun call : Memory × UInt16 => call.1.bytes 0 call.2.toNat) hm
  rw [hl] at hm
  exact mem_of_mem_remaining (completed_append_remaining (remaining frames n) _ ▸ List.mem_append_left _ hm)

-- The state in which a run ends is that of the frames which have arrived, one after the other.
theorem reads_delivered (hf : ∀ f ∈ frames, IsMessage f) (ha : ∀ f ∈ frames, Delivers handle act f) (s : σ) :
    Run.Invariant (receive handle) ({}, s)
      (fun pre c bytes => ReadFits c bytes ∧ (pre ++ [bytes]).flatten <+: frames.flatten)
      (fun pre c => c.2 = (completed frames pre.flatten.length).foldl act s ∧
        Buffered frames pre.flatten.length c.1) where
  init := by
    have hpos f (h : f ∈ frames) : 0 < f.length := (hf f h).length_pos
    refine ⟨by simp [completed_zero hpos], ?_, ?_⟩
    · simp [pending_zero hpos]
    · simp [pending_zero hpos]
      rfl
  next := by
    intro pre c bytes ⟨hs, hb⟩ ⟨hfit, hp⟩
    rw [List.flatten_append, List.flatten_singleton] at hp
    have hn : pre.flatten.length ≤ frames.flatten.length := by
      have := hp.length_le
      rw [List.length_append] at this
      omega
    have hd : bytes <+: frames.flatten.drop pre.flatten.length := by
      have := hp.drop pre.flatten.length
      rwa [List.drop_left] at this
    have ⟨client, he, hb'⟩ := receive_delivered hf ha hb hfit hn hd
    refine ⟨_, he, ?_, ?_⟩
    · rw [hs, List.flatten_append, List.flatten_singleton, List.length_append, (completed_add hn).left, List.foldl_append]
    · rwa [List.flatten_append, List.flatten_singleton, List.length_append]

end Reads

section StartRead

variable {c c' : TcpClient × σ} {rounds : List Round} {a : BistMarketAccessor}

-- The loop goes on as long as there is something to be read, and nobody wants it to stop.
def Goes : Round → Prop
  | (stopRequested, .bytes bytes) => stopRequested = false ∧ bytes ≠ []
  | (_, .error)                   => False

theorem startRead_of_not_goes {round : Round} (h : ¬Goes round) : startRead handle c (round :: rounds) = c := by
  obtain ⟨stopRequested, result⟩ := round
  cases stopRequested
  case true => rfl
  case false =>
    cases result
    case error       => rfl
    case bytes bytes =>
      cases bytes
      case nil  => rfl
      case cons => exact absurd ⟨rfl, List.cons_ne_nil _ _⟩ h

theorem startRead_append (h : Run.exec (receive handle) c reads = .ok c') (hn : ∀ bytes ∈ reads, bytes ≠ []) :
    startRead handle c (reads.map (false, .bytes ·) ++ rounds) = startRead handle c' rounds := by
  induction reads generalizing c
  case nil => cases h; rfl
  case cons bytes reads hi =>
    have ⟨hb, hn⟩ := List.forall_mem_cons.mp hn
    have ⟨c₁, h₁, h⟩ := Run.exec_cons_ok h
    cases h₁
    rw [List.map_cons, List.cons_append, startRead, if_neg Bool.false_ne_true, if_neg (by simpa using hb), hi h hn]

-- The frames that have arrived, one after the other, each of them as if it were all that there is.
def deliver (a : BistMarketAccessor) (f : List UInt8) : BistMarketAccessor :=
  handleMessage a (.ofList f) (.ofNat f.length)

theorem SelfContained.delivers {f : List UInt8} (h : SelfContained f) (hf : IsFrame f) :
    Delivers handleMessage deliver f :=
  fun _ _ hm => h.handleMessage_eq hf hm Memory.holds_ofList

-- What becomes of the client while it reads is determined by the stream alone, as far as it has arrived.
theorem startRead_eq (hf : ∀ f ∈ frames, IsFrame f ∧ SelfContained f)
    (hr : Run.Admits (receive handleMessage) ({}, a) (fun _ => ReadFits) reads)
    (hs : reads.flatten <+: frames.flatten) (he : ∀ round ∈ rounds.head?, ¬Goes round) :
    ∃ client, startRead handleMessage ({}, a) (reads.map (false, .bytes ·) ++ rounds) =
        (client, (completed frames reads.flatten.length).foldl deliver a) ∧
      client.buffer.bytes 0 client.dataSize.toNat = pending frames reads.flatten.length := by
  have ha f (h : f ∈ frames) : Delivers handleMessage deliver f := (hf f h).right.delivers (hf f h).left
  have hadm : Run.Admits (receive handleMessage) ({}, a)
      (fun pre c bytes => ReadFits c bytes ∧ (pre ++ [bytes]).flatten <+: frames.flatten) reads := by
    rintro pre bytes post c rfl hc
    exact ⟨hr pre bytes post c rfl hc, .trans ⟨post.flatten, by simp⟩ hs⟩
  have ⟨⟨client, a'⟩, hx, hst, hb⟩ := (reads_delivered (fun f h => (hf f h).left.isMessage) ha a).exec hadm
  have hn : ∀ bytes ∈ reads, bytes ≠ [] := by
    intro bytes hm
    obtain ⟨pre, post, rfl⟩ := List.append_of_mem hm
    have ⟨c, hc⟩ := Run.exec_prefix_ok hx (List.prefix_append ..)
    exact List.ne_nil_of_length_pos (hr pre bytes post c rfl hc).left
  have hend : startRead handleMessage (client, a') rounds = (client, a') := by
    cases rounds
    case nil  => rfl
    case cons => exact startRead_of_not_goes (he _ rfl)
  refine ⟨client, ?_, hb.dataSize ▸ hb.holds⟩
  rw [startRead_append hx hn, hend]
  exact congrArg (client, ·) hst

theorem sampleHeartbeat_selfContained : SelfContained sampleHeartbeat where
  packetType      := by decide
  payloadType   h := absurd h (by decide)
  orderAccepted h := absurd h (by decide)
  orderExecuted h := absurd h (by decide)
  orderReplaced h := absurd h (by decide)
  orderRejected h := absurd h (by decide)

-- Two heartbeats in three reads, and the connection is closed.
theorem startRead_eq_heartbeats :
    ∃ client, startRead handleMessage ({}, sampleAccessor)
        ([[0, 1], [0x48, 0], [1, 0x48]].map (false, .bytes ·) ++ [(false, .bytes [])]) =
          (client, (completed [sampleHeartbeat, sampleHeartbeat] 6).foldl deliver sampleAccessor) ∧
      client.buffer.bytes 0 client.dataSize.toNat = pending [sampleHeartbeat, sampleHeartbeat] 6 := by
  have hf : ∀ f ∈ [sampleHeartbeat, sampleHeartbeat], IsFrame f ∧ SelfContained f := by
    simpa using ⟨sampleHeartbeat_isFrame, sampleHeartbeat_selfContained⟩
  have hr : Run.Admits (receive handleMessage) ({}, sampleAccessor) (fun _ => ReadFits) [[0, 1], [0x48, 0], [1, 0x48]] := by
    refine ((Run.Admits.nil.snoc ?_).snoc ?_).snoc ?_
    all_goals
      intro c hc
      cases hc
      exact ⟨by decide, by decide +kernel⟩
  exact startRead_eq hf hr (by decide) (by simp [Goes])

end StartRead

end TcpClient
