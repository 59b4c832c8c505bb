import BistHft.Network.Theorems.Framing

-- Whether there is always room in the buffer for something to be read.

open Framing

namespace TcpClient

variable {σ : Type*} {handle : σ → Memory → UInt16 → σ} {client : TcpClient} {s : σ} {n : ℕ}
variable {f bytes : List UInt8} {fs gs frames reads pre : List (List UInt8)} {c : TcpClient × σ × List (List UInt8)}

-- There is room for a byte at least, so that a read which returns nothing has found nothing.
structure Progresses (client : TcpClient) : Prop where
  room : client.dataSize.toNat < bufferSize
  eof  : ∀ arrived, client.read arrived = [] → arrived = []

-- The buffer is full with the beginning of a message that is too large for it.
def Overfull (frames : List (List UInt8)) (n : ℕ) : Prop :=
  ∃ fs f gs, frames = fs ++ f :: gs ∧ bufferSize < f.length ∧ fs.flatten.length + bufferSize ≤ n

section Run

theorem progresses_iff : client.Progresses ↔ client.dataSize.toNat < bufferSize := by
  refine ⟨Progresses.room, fun h => ⟨h, fun arrived he => ?_⟩⟩
  have hb : (UInt64.ofNat bufferSize).toNat = bufferSize := rfl
  have hs : (.ofNat bufferSize - client.dataSize : UInt64).toNat = bufferSize - client.dataSize.toNat :=
    UInt64.toNat_sub_of_le _ _ <| UInt64.le_iff_toNat_le.mpr (hb ▸ Nat.le_of_lt h)
  rw [read, hs, List.take_eq_nil_iff] at he
  exact he.resolve_left <| Nat.sub_ne_zero_of_lt h

theorem exec_dataSize (hf : ∀ f ∈ frames, IsMessage f)
    (hr : Run.Admits (receive (recording handle)) ({}, s, []) (fun _ => ReadFits) reads)
    (hs : reads.flatten <+: frames.flatten) (he : Run.exec (receive (recording handle)) ({}, s, []) reads = .ok c) :
    c.1.dataSize.toNat = (pending frames reads.flatten.length).length := by
  obtain ⟨c', he', _, hb⟩ := (reads_invariant hf s).exec (admits_stream hr hs)
  cases he.symm.trans he'
  exact hb.dataSize

-- No read goes beyond the point at which the buffer is full.
theorem exists_filled (hf : ∀ f ∈ frames, IsMessage f) (he : frames = fs ++ f :: gs) (hl : bufferSize < f.length)
    (hr : Run.Admits (receive (recording handle)) ({}, s, []) (fun _ => ReadFits) reads)
    (hs : reads.flatten <+: frames.flatten) (hn : fs.flatten.length + bufferSize ≤ reads.flatten.length) :
    ∃ pre, pre <+: reads ∧ pre.flatten.length = fs.flatten.length + bufferSize := by
  induction reads using List.reverseRecOn
  case nil => exact absurd hn (by simp [bufferSize])
  case append_singleton reads bytes hi =>
    have hr' := hr.restrict (List.prefix_append ..)
    have hs' := (List.prefix_append ..).flatten.trans hs
    cases Nat.lt_or_ge reads.flatten.length (fs.flatten.length + bufferSize)
    case inr hge =>
      obtain ⟨pre, hp, hl⟩ := hi hr' hs' hge
      exact ⟨pre, hp.trans (List.prefix_append ..), hl⟩
    case inl hlt =>
      refine ⟨_, List.prefix_rfl, ?_⟩
      obtain ⟨c, hc, _⟩ := (reads_invariant hf s).exec (admits_stream hr' hs')
      have hfit := (hr.last hc).right
      rw [exec_dataSize hf hr' hs' hc] at hfit
      rw [List.flatten_append, List.flatten_singleton, List.length_append] at hn ⊢
      cases Nat.lt_or_ge reads.flatten.length fs.flatten.length
      case inl => omega
      case inr hge =>
        obtain ⟨k, hk⟩ := Nat.exists_eq_add_of_le hge
        rw [hk, he, pending_append (by omega), List.length_take] at hfit
        omega

theorem reads_progress_iff (hf : ∀ f ∈ frames, IsMessage f)
    (hr : Run.Admits (receive (recording handle)) ({}, s, []) (fun _ => ReadFits) reads)
    (hs : reads.flatten <+: frames.flatten) :
    (∀ pre c, pre <+: reads → Run.exec (receive (recording handle)) ({}, s, []) pre = .ok c → c.1.Progresses) ↔
      ¬Overfull frames reads.flatten.length := by
  have hd {pre c} (hp : pre <+: reads) (he : Run.exec (receive (recording handle)) ({}, s, []) pre = .ok c) :=
    exec_dataSize hf (hr.restrict hp) (hp.flatten.trans hs) he
  constructor
  case mp =>
    rintro h ⟨fs, f, gs, he, hl, hn⟩
    obtain ⟨pre, hp, hpl⟩ := exists_filled hf he hl hr hs hn
    obtain ⟨c, hc, _⟩ := (reads_invariant hf s).exec_restrict (admits_stream hr hs) hp
    have hlt := (h pre c hp hc).room
    rw [hd hp hc, hpl, he, pending_append hl, List.length_take] at hlt
    omega
  case mpr =>
    intro h pre c hp hc
    rw [progresses_iff, hd hp hc]
    obtain he | ⟨fs, f, gs, k, he, hn, hk, ht⟩ := pending_cases frames pre.flatten.length
    case inl => rw [he]; decide
    case inr =>
      have hle := hp.flatten.length_le
      rw [ht, List.length_take, Nat.min_eq_left hk.le]
      exact Nat.lt_of_not_le fun hge => h ⟨fs, f, gs, he, by omega, by omega⟩

end Run

section Stream

theorem flatten_bytewise : (bytes.map ([·])).flatten = bytes := by
  rw [← List.flatMap_def, List.flatMap_singleton']

-- As long as there is room, the stream can be read byte by byte.
theorem admits_bytewise (hb : bytes <+: frames.flatten)
    (h : ∀ reads c, Run.Admits (receive (recording handle)) ({}, s, []) (fun _ => ReadFits) reads →
      reads.flatten <+: frames.flatten → Run.exec (receive (recording handle)) ({}, s, []) reads = .ok c →
      c.1.Progresses) :
    Run.Admits (receive (recording handle)) ({}, s, []) (fun _ => ReadFits) (bytes.map ([·])) := by
  induction bytes using List.reverseRecOn
  case nil => exact .nil
  case append_singleton bytes b hi =>
    have hb' := (List.prefix_append ..).trans hb
    rw [List.map_append]
    refine (hi hb').snoc fun c hc => ⟨Nat.le_refl 1, ?_⟩
    exact (h _ c (hi hb') (by rwa [flatten_bytewise]) hc).room

-- For a stream and the reads that it has been cut into, and for a stream however it is cut.
theorem progress_iff (hf : ∀ f ∈ frames, IsMessage f) (s : σ) :
    (∀ reads, Run.Admits (receive (recording handle)) ({}, s, []) (fun _ => ReadFits) reads →
      reads.flatten <+: frames.flatten →
      ((∀ pre c, pre <+: reads → Run.exec (receive (recording handle)) ({}, s, []) pre = .ok c → c.1.Progresses) ↔
        ¬Overfull frames reads.flatten.length)) ∧
    ((∀ reads c, Run.Admits (receive (recording handle)) ({}, s, []) (fun _ => ReadFits) reads →
      reads.flatten <+: frames.flatten → Run.exec (receive (recording handle)) ({}, s, []) reads = .ok c →
      c.1.Progresses) ↔ ∀ f ∈ frames, f.length ≤ bufferSize) := by
  refine ⟨fun reads hr hs => reads_progress_iff hf hr hs, ?_, ?_⟩
  case refine_1 =>
    intro h f hm
    apply Nat.le_of_not_lt
    intro hl
    obtain ⟨fs, gs, he⟩ := List.append_of_mem hm
    have hr := admits_bytewise List.prefix_rfl h
    have hs : (frames.flatten.map ([·])).flatten <+: frames.flatten := by rw [flatten_bytewise]
    have hp := (reads_progress_iff hf hr hs).mp fun pre c hp hc =>
      h pre c (hr.restrict hp) (hp.flatten.trans hs) hc
    refine hp ⟨fs, f, gs, he, hl, ?_⟩
    rw [flatten_bytewise, he, List.flatten_append, List.flatten_cons, List.length_append, List.length_append]
    omega
  case refine_2 =>
    intro h reads c hr hs hc
    refine (reads_progress_iff hf hr hs).mpr ?_ reads c List.prefix_rfl hc
    rintro ⟨fs, f, gs, he, hl, _⟩
    exact absurd (h f (he ▸ List.mem_append_right _ List.mem_cons_self)) (Nat.not_le_of_lt hl)

theorem progress_iff_split :
    (∀ reads c, Run.Admits (receive (recording fun n _ _ => n + 1)) ({}, 0, []) (fun _ => ReadFits) reads →
      reads.flatten <+: sampleFrames.flatten →
      Run.exec (receive (recording fun n _ _ => n + 1)) ({}, 0, []) reads = .ok c → c.1.Progresses) ↔
        ∀ f ∈ sampleFrames, f.length ≤ bufferSize :=
  (progress_iff (fun f h => (sampleFrames_isFrame f h).isMessage) 0).right

def oversize : List UInt8 :=
  pack16 (.ofNat (List.replicate 4095 (0 : UInt8)).length) ++ .replicate 4095 0

theorem oversize_isMessage : IsMessage oversize :=
  ⟨.replicate 4095 0, rfl, by rw [List.length_replicate]; decide⟩

theorem oversize_length : oversize.length = 4097 := by
  rw [oversize, List.length_append, pack16_length, List.length_replicate]

-- A message of 4097 bytes, of which the first 4096 have been read.
theorem oversize_stalls : IsMessage oversize ∧
    Run.Admits (receive (recording fun s _ _ => s)) ({}, (), []) (fun _ => ReadFits) [oversize.take 4096] ∧
    ∃ c, Run.exec (receive (recording fun s _ _ => s)) ({}, (), []) [oversize.take 4096] = .ok c ∧
      ¬c.1.Progresses ∧ ∀ arrived, c.1.read arrived = [] := by
  have hl : (oversize.take 4096).length = 4096 := by rw [List.length_take, oversize_length]; rfl
  have hf : ∀ f ∈ [oversize], IsMessage f := List.forall_mem_singleton.mpr oversize_isMessage
  have hs : [oversize.take 4096].flatten <+: [oversize].flatten := by
    rw [List.flatten_singleton, List.flatten_singleton]
    exact List.take_prefix ..
  have hr : Run.Admits (receive (recording fun s _ _ => s)) ({}, (), []) (fun _ => ReadFits) [oversize.take 4096] :=
    .singleton ⟨by rw [hl]; decide, by rw [hl]; decide⟩
  obtain ⟨c, hc, _⟩ := (reads_invariant hf ()).exec (admits_stream hr hs)
  have hd := exec_dataSize hf hr hs hc
  rw [List.flatten_singleton, hl, pending_of_lt (by rw [oversize_length]; decide), hl] at hd
  refine ⟨oversize_isMessage, hr, c, hc, fun h => absurd hd (Nat.ne_of_lt h.room), fun arrived => ?_⟩
  have hz : c.1.dataSize = .ofNat bufferSize := UInt64.toNat_inj.mp hd
  rw [read, hz, UInt64.sub_self]
  rfl

end Stream

end TcpClient
