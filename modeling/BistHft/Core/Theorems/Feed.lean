import BistHft.Core.Theorems.OrderbookBuilder

-- Whole feeds: what a run of handler calls from the empty builder can be relied on to keep.

namespace Call

def key : Call → OrderKey
  | addOrder m     => m.key
  | executeOrder m => m.key
  | deleteOrder m  => m.key

def added : Call → ℕ
  | addOrder m => m.qty.toNat
  | _          => 0

def executed : Call → ℕ
  | executeOrder m => m.qty.toNat
  | _              => 0

-- The key that the call adds, if it is an addition.
def addKey? : Call → Option OrderKey
  | addOrder m => some m.key
  | _          => none

end Call

section Samples

def sampleAdd (qty : UInt64) : AddOrder where
  type              := 'A'.toUInt8
  nanoseconds       := 0
  orderId           := htobe64 1001
  orderbookId       := htobe32 1
  side              := 'B'.toUInt8
  orderbookPosition := htobe32 1
  quantity          := htobe64 qty
  price             := (htobe32 1000).toInt32
  orderAttributes   := 0
  lotType           := 0

-- Another order at the same price
def otherAdd : AddOrder :=
  { sampleAdd 5 with orderId := htobe64 1002 }

def sampleExecuted (qty : UInt64) : OrderExecuted where
  type         := 'E'.toUInt8
  nanoseconds  := 0
  orderId      := htobe64 1001
  orderbookId  := htobe32 1
  side         := 'B'.toUInt8
  quantity     := htobe64 qty
  matchId      := 0
  comboGroupId := 0
  reserved1 _  := 0
  reserved2 _  := 0

def sampleDelete : OrderDelete where
  type        := 'D'.toUInt8
  nanoseconds := 0
  orderId     := htobe64 1001
  orderbookId := htobe32 1
  side        := 'B'.toUInt8

end Samples

namespace OrderbookBuilder

variable {b b' : OrderbookBuilder} {d : Books} {k : OrderKey} {o : ItchOrder} {call : Call}
variable {id : UInt32} {c : SideClass} {p : Int32}
variable {calls pre feed : List Call}

abbrev run (calls : List Call) : Except Fault OrderbookBuilder :=
  Run.exec Call.apply {} calls

-- The two stores agree and both of them are in order.
structure Agrees (b : OrderbookBuilder) : Prop where
  level_iff       : ∀ id c p, (∃ q, (p, q) ∈ b.levels id c) ↔
    ∃ k o, b.orderMap.lookup k = some o ∧ o.place = (id, c, p)
  level_qty       : ∀ id c p q, (p, q) ∈ b.levels id c → q.toNat = b.openQty id c p
  level_pos       : ∀ id c, ∀ level ∈ b.levels id c, 0 < level.2
  orders          : ∀ k o, b.orderMap.lookup k = some o → o.key = k ∧ 0 < o.leftQty
  bids_increasing : ∀ id, (b.levels id .bid).Pairwise fun x y => x.1 < y.1
  asks_decreasing : ∀ id, (b.levels id .ask).Pairwise fun x y => x.1 > y.1

theorem Sound.agrees (h : b.Sound b.openQty) : b.Agrees where
  level_iff id c p := by
    constructor
    case mp =>
      intro hq
      exact Finmap.exists_lookup_of_weightAt_pos _ _ <| (h.refines id c).mem_iff.mp hq
    case mpr =>
      intro ⟨k, o, hl, hp⟩
      have hd := h.depth_pos hl
      cases hp
      exact (h.refines _ _).mem_iff.mpr hd
  level_qty id c _ _ hm := ((h.refines id c).value hm).symm
  level_pos id c        := (h.refines id c).pos
  orders                := h.orders
  bids_increasing id    := (h.refines id .bid).ordered
  asks_decreasing id    := (h.refines id .ask).ordered

-- How a call changes the order map.
inductive Effect (b b' : OrderbookBuilder) : Call → Prop
  | added (m : AddOrder) (orders : b'.orderMap = b.orderMap.insert m.key m.order) :
    Effect b b' (.addOrder m)
  | executed (m : OrderExecuted) (o : ItchOrder) (key : o.key = m.key)
    (live : b.orderMap.lookup o.key = some o) (fits : m.qty ≤ o.leftQty)
    (orders : b'.orderMap = b.settle o m.qty) : Effect b b' (.executeOrder m)
  | deleted (m : OrderDelete) (o : ItchOrder) (key : o.key = m.key)
    (live : b.orderMap.lookup o.key = some o) (orders : b'.orderMap = b.settle o o.leftQty) :
    Effect b b' (.deleteOrder m)
  | ignored (call : Call) (removal : call.addKey? = none)
    (unknown : b.orderMap.lookup call.key = none) (orders : b'.orderMap = b.orderMap) : Effect b b' call

theorem Effect.openQty_le (he : Effect b b' call) :
    b'.openQty id c p ≤ b.openQty id c p + call.added := by
  cases he
  case added m he =>
    have hw := Finmap.weightAt_insert_le ItchOrder.place (·.leftQty.toNat) (m := b.orderMap)
      (k := m.key) (v := m.order) (i := (id, c, p))
    have hm : (if m.order.place = (id, c, p) then m.order.leftQty.toNat else 0) ≤ m.qty.toNat := by
      split
      · exact Nat.le_refl _
      · exact Nat.zero_le _
    simp only [openQty, he, Call.added]
    omega
  case executed m o _ hl hq he =>
    rw [openQty_settle hl hq he, Books.remove_apply]
    omega
  case deleted m o _ hl he =>
    rw [openQty_settle hl (UInt64.le_refl _) he, Books.remove_apply]
    omega
  case ignored he _ _ =>
    simp [openQty, he]

-- An addition is positive and does not overflow its level, an execution takes at most what is left.
def Contained (b : OrderbookBuilder) : Call → Prop
  | .addOrder m     => 0 < m.qty ∧
    ∀ q, (m.order.price, q) ∈ b.levels m.place.1 m.place.2.1 → q.toNat + m.qty.toNat < 2 ^ 64
  | .executeOrder m => ∀ o, b.orderMap.lookup m.key = some o → m.qty ≤ o.leftQty
  | .deleteOrder _  => True

def Fresh (b : OrderbookBuilder) : Call → Prop
  | .addOrder m                      => b.orderMap.lookup m.key = none
  | .executeOrder _ | .deleteOrder _ => True

theorem Sound.fits {m : AddOrder} (h : b.Sound d) (hc : b.Contained (.addOrder m)) :
    d m.place.1 m.place.2.1 m.place.2.2 + m.qty.toNat < 2 ^ 64 := by
  have hr := h.refines m.place.1 m.place.2.1
  cases Nat.eq_zero_or_pos (d m.place.1 m.place.2.1 m.place.2.2)
  case inl hz => exact hz ▸ (Nat.zero_add _).symm ▸ m.qty.toNat_lt
  case inr hp =>
    have ⟨q, hq⟩ := hr.exists_mem hp
    rw [hr.value hq]
    exact hc.right q hq

-- What one call does to the two stores.
theorem Sound.step (h : b.Sound d) (hc : b.Contained call) :
    ∃ b' d', call.apply b = .ok b' ∧ b'.Sound d' ∧ Effect b b' call ∧
      (b.Fresh call → d = b.openQty → d' = b'.openQty) := by
  cases call
  case addOrder m =>
    have hs := h.addOrder hc.left (h.fits hc)
    exact ⟨_, _, rfl, hs, .added m rfl, fun hf hd => hd ▸ (openQty_addOrder hf).symm⟩
  case executeOrder m =>
    cases hl : b.orderMap.lookup m.key
    case none => exact ⟨b, d, executeOrder_of_none hl, h, .ignored _ rfl hl rfl, fun _ => id⟩
    case some o =>
      have hk := (h.orders _ _ hl).left
      have ⟨_, he, hs⟩ := h.executeOrder hl (hc o hl)
      exact ⟨_, _, he, hs, .executed m o hk (hk ▸ hl) (hc o hl) rfl, fun _ hd => hd ▸ (openQty_settle (hk ▸ hl) (hc o hl) rfl).symm⟩
  case deleteOrder m =>
    cases hl : b.orderMap.lookup m.key
    case none => exact ⟨b, d, deleteOrder_of_none hl, h, .ignored _ rfl hl rfl, fun _ => id⟩
    case some o =>
      have hk := (h.orders _ _ hl).left
      have ⟨_, he, hs⟩ := h.deleteOrder hl
      have hle := UInt64.le_refl o.leftQty
      exact ⟨_, _, he, hs, .deleted m o hk (hk ▸ hl) rfl, fun _ hd => hd ▸ (openQty_settle (hk ▸ hl) hle rfl).symm⟩

section Orderly

-- The calls under which the stores stay in step.
def Orderly (b : OrderbookBuilder) : Call → Prop
  | .addOrder m     => 0 < m.qty ∧ b.orderMap.lookup m.key = none ∧
    ∀ id c p, (b.addOrder m).openQty id c p < 2 ^ 64
  | .executeOrder m => ∀ o, b.orderMap.lookup m.key = some o → m.qty ≤ o.leftQty
  | .deleteOrder _  => True

theorem Orderly.fresh (ho : b.Orderly call) : b.Fresh call := by
  cases call
  case addOrder => exact ho.right.left
  case executeOrder | deleteOrder => trivial

theorem Orderly.contained (ho : b.Orderly call) (h : b.Sound b.openQty) : b.Contained call := by
  cases call
  case addOrder m =>
    refine ⟨ho.left, fun q hq => ?_⟩
    have hf := ho.right.right m.place.1 m.place.2.1 m.place.2.2
    rw [openQty_addOrder ho.fresh, Books.add_apply, if_pos rfl] at hf
    rwa [← (h.refines _ _).value hq]
  case executeOrder => exact ho
  case deleteOrder => trivial

theorem orderly_invariant :
    Run.Invariant Call.apply {} (fun _ => Orderly) (fun _ b => b.Sound b.openQty) where
  init := .empty
  next h ho := by
    have ⟨b', d', he, hs, _, hd⟩ := h.step (ho.contained h)
    exact ⟨b', he, hd ho.fresh rfl ▸ hs⟩

theorem orderly_agrees (h : Run.Admits Call.apply {} (fun _ => Orderly) calls) (hp : pre <+: calls) :
    ∃ b, run pre = .ok b ∧ b.Agrees := by
  have ⟨b, hb, hs⟩ := orderly_invariant.exec_restrict h hp
  exact ⟨b, hb, hs.agrees⟩

theorem orderly_agrees_sample :
    ∃ b, run [.addOrder (sampleAdd 10), .executeOrder (sampleExecuted 4)] = .ok b ∧ b.Agrees := by
  have h₁ : Run.Admits Call.apply {} (fun _ => Orderly) [.addOrder (sampleAdd 10)] := by
    apply Run.Admits.singleton
    refine ⟨by decide +kernel, Finmap.lookup_empty _, fun id c p => ?_⟩
    rw [openQty_addOrder (Finmap.lookup_empty _), Books.add_apply, openQty_empty]
    simp only [Pi.zero_apply]
    split <;> decide +kernel
  have h₂ : Run.Admits Call.apply {} (fun _ => Orderly)
      [.addOrder (sampleAdd 10), .executeOrder (sampleExecuted 4)] := by
    apply h₁.snoc
    intro b hb o ho
    cases hb
    have hl : (addOrder {} (sampleAdd 10)).orderMap.lookup (sampleExecuted 4).key = some (sampleAdd 10).order :=
      Finmap.lookup_insert _
    cases hl.symm.trans ho
    decide +kernel
  exact orderly_agrees h₂ (List.prefix_refl _)

end Orderly

section Budget

-- Nothing that the call adds to or subtracts from a counter leaves the range of the counter.
def NoWrap (b : OrderbookBuilder) : Call → Prop
  | .addOrder m     => ∀ q, (m.order.price, q) ∈ b.levels m.place.1 m.place.2.1 →
    q.toNat + m.qty.toNat < 2 ^ 64
  | .executeOrder m => ∀ o, b.orderMap.lookup m.key = some o → m.qty ≤ o.leftQty ∧
    ∃ q, (o.price, q) ∈ b.levels o.orderbookId (sideClass o.side) ∧ m.qty ≤ q
  | .deleteOrder m  => ∀ o, b.orderMap.lookup m.key = some o →
    ∃ q, (o.price, q) ∈ b.levels o.orderbookId (sideClass o.side) ∧ o.leftQty ≤ q

-- A live order has a level, which holds at least what the order has left.
theorem Sound.level_of_live (h : b.Sound d) (hl : b.orderMap.lookup k = some o) :
    ∃ q, (o.price, q) ∈ b.levels o.orderbookId (sideClass o.side) ∧ o.leftQty ≤ q := by
  have ⟨q, hq⟩ := (h.refines _ _).exists_mem (h.depth_pos hl)
  have hv := (h.refines o.orderbookId (sideClass o.side)).value hq
  exact ⟨q, hq, UInt64.le_iff_toNat_le.mpr <| hv ▸ h.leftQty_le hl⟩

theorem Sound.noWrap (h : b.Sound d) (hc : b.Contained call) : b.NoWrap call := by
  cases call
  case addOrder m => exact hc.right
  case executeOrder m =>
    intro o hl
    have ⟨q, hm, hq⟩ := h.level_of_live hl
    exact ⟨hc o hl, q, hm, UInt64.le_trans (hc o hl) hq⟩
  case deleteOrder m =>
    intro o hl
    exact h.level_of_live hl

-- Each key is added at most once and with a positive quantity, its executions take no more than
-- that, and all additions together do not overflow.
structure WellFormed (feed : List Call) : Prop where
  fresh    : (feed.filterMap Call.addKey?).Nodup
  positive : ∀ m, .addOrder m ∈ feed → 0 < m.qty
  executed : ∀ m, .addOrder m ∈ feed → feed.weightAt Call.key Call.executed m.key ≤ m.qty.toNat
  total    : (feed.map Call.added).sum < 2 ^ 64

-- What a history of delivered calls says about the orders that are live after it: such an order was
-- added, and it still has everything that was not executed under its key.
structure Budget (pre : List Call) (b : OrderbookBuilder) : Prop where
  live  : b.orderMap.Every fun k o => ∃ m, .addOrder m ∈ pre ∧ m.key = k ∧
    m.qty.toNat ≤ o.leftQty.toNat + pre.weightAt Call.key Call.executed k
  total : ∀ id c p, b.openQty id c p ≤ (pre.map Call.added).sum

namespace Budget

theorem empty : Budget [] {} where
  live _ _ h  := by simp at h
  total _ _ _ := Nat.le_refl 0

-- The feed has room for whatever part of it is delivered next.
theorem orderly (hB : Budget pre b) (hF : WellFormed feed) (hs : (pre ++ [call]).Subperm feed) :
    b.Orderly call := by
  have hm : call ∈ feed := hs.subset <| List.mem_append_right _ (List.mem_singleton_self _)
  cases call
  case addOrder m =>
    have hl : b.orderMap.lookup m.key = none := by
      cases hl : b.orderMap.lookup m.key
      case none => rfl
      case some o =>
        have ⟨m', hm', hk, _⟩ := hB.live _ _ hl
        have hn := hs.nodup_filterMap hF.fresh
        have hk' : m.key ∈ pre.filterMap Call.addKey? :=
          List.mem_filterMap.mpr ⟨_, hm', congrArg some hk⟩
        rw [List.filterMap_append, List.nodup_append] at hn
        exact absurd rfl (hn.right.right m.key hk' m.key (List.mem_singleton_self _))
    refine ⟨hF.positive m hm, hl, fun id c p => ?_⟩
    have ht := hB.total id c p
    have hle : _ ≤ (feed.map Call.added).sum := hs.sum_map_le
    have hf := hF.total
    rw [openQty_addOrder hl, Books.add_apply]
    simp [Call.added] at hle
    split <;> omega
  case executeOrder m =>
    intro o hl
    have ⟨m', hm', hk, hq⟩ := hB.live _ _ hl
    have hw : _ ≤ feed.weightAt Call.key Call.executed m'.key := hs.weightAt_le
    have he := hF.executed m' (hs.subset <| List.mem_append_left _ hm')
    simp [hk, Call.key, Call.executed] at hw he hq
    exact UInt64.le_iff_toNat_le.mpr (by omega)
  case deleteOrder => trivial

-- Nothing a later call does makes the history say less about an order.
theorem live_mono (call : Call) (h : ∃ m, Call.addOrder m ∈ pre ∧ m.key = k ∧
      m.qty.toNat ≤ o.leftQty.toNat + pre.weightAt Call.key Call.executed k) :
    ∃ m, Call.addOrder m ∈ pre ++ [call] ∧ m.key = k ∧
      m.qty.toNat ≤ o.leftQty.toNat + (pre ++ [call]).weightAt Call.key Call.executed k := by
  have ⟨m, hm, hk, hq⟩ := h
  refine ⟨m, List.mem_append_left _ hm, hk, ?_⟩
  rw [List.weightAt_append]
  omega

theorem settle {qty : UInt64} (hB : Budget pre b) (hl : b.orderMap.lookup o.key = some o)
    (hq : qty ≤ o.leftQty) (hw : qty.toNat ≤ call.executed ∧ call.key = o.key ∨ qty = o.leftQty) :
    (b.settle o qty).Every fun k o => ∃ m, Call.addOrder m ∈ pre ++ [call] ∧ m.key = k ∧
      m.qty.toNat ≤ o.leftQty.toNat + (pre ++ [call]).weightAt Call.key Call.executed k := by
  have hmono := hB.live.imp fun _ _ => live_mono call
  unfold OrderbookBuilder.settle
  split
  case isTrue => exact hmono.erase
  case isFalse hz =>
    cases hw
    case inr hw => exact absurd (hw ▸ UInt64.sub_self _) hz
    case inl hw =>
      obtain ⟨m, hm, hk, hm'⟩ := hB.live _ _ hl
      have hs : (o.leftQty - qty).toNat = _ := UInt64.toNat_sub_of_le _ _ hq
      refine hmono.insert ⟨m, List.mem_append_left _ hm, hk, ?_⟩
      rw [List.weightAt_append, hs]
      simp [hw.right]
      omega

theorem next (hB : Budget pre b) (he : Effect b b' call) : Budget (pre ++ [call]) b' where
  live := by
    have hmono := hB.live.imp fun _ _ => live_mono call
    cases he
    case added m he =>
      rw [he]
      exact hmono.insert ⟨m, by simp, rfl, Nat.le_add_right ..⟩
    case executed m o hk hl hq he => exact he ▸ hB.settle hl hq (.inl ⟨Nat.le_refl _, hk.symm⟩)
    case deleted m o hk hl he => exact he ▸ hB.settle hl (UInt64.le_refl _) (.inr rfl)
    case ignored he _ _ => exact he ▸ hmono
  total id c p := by
    have ht := hB.total id c p
    have hle : b'.openQty id c p ≤ _ := he.openQty_le
    simp
    omega

end Budget

theorem delivered_invariant (hF : WellFormed feed) :
    Run.Invariant Call.apply {} (fun pre _ call => (pre ++ [call]).Subperm feed)
      (fun pre b => b.Sound b.openQty ∧ Budget pre b) where
  init := ⟨.empty, .empty⟩
  next := by
    intro pre b call ⟨h, hB⟩ hs
    have ho := hB.orderly hF hs
    have ⟨b', d', he, h', heff, hd⟩ := h.step (ho.contained h)
    exact ⟨b', he, hd ho.fresh rfl ▸ h', hB.next heff⟩

theorem delivered_agrees (hF : WellFormed feed) (hs : calls.Subperm feed) (hp : pre <+: calls) :
    ∃ b, run pre = .ok b ∧ b.Agrees ∧ ∀ call, pre ++ [call] <+: calls → b.NoWrap call := by
  have hd {pre} (hp : pre <+: calls) : pre.Subperm feed := hp.sublist.subperm.trans hs
  have ha : Run.Admits Call.apply {} (fun pre _ call => (pre ++ [call]).Subperm feed) calls := by
    intro pre call post _ he _
    exact hd ⟨post, by simp [he]⟩
  have ⟨b, hb, h, hB⟩ := (delivered_invariant hF).exec_restrict ha hp
  exact ⟨b, hb, h.agrees, fun call hc => h.noWrap <| (hB.orderly hF (hd hc)).contained h⟩

theorem delivered_agrees_reordered :
    ∃ b, run [.executeOrder (sampleExecuted 4), .addOrder (sampleAdd 10)] = .ok b ∧ b.Agrees ∧
      ∀ call, [.executeOrder (sampleExecuted 4), .addOrder (sampleAdd 10)] ++ [call] <+:
        [.executeOrder (sampleExecuted 4), .addOrder (sampleAdd 10)] → b.NoWrap call := by
  have hF : WellFormed [.addOrder (sampleAdd 10), .executeOrder (sampleExecuted 4), .deleteOrder sampleDelete] := {
    fresh    := by decide +kernel
    positive := by simp; decide +kernel
    executed := by simp; decide +kernel
    total    := by decide +kernel
  }
  exact delivered_agrees hF (by decide +kernel) (List.prefix_refl _)

end Budget

section Contained

-- The quantity with which a key was added last.
def lastAdded (calls : List Call) (k : OrderKey) : Option UInt64 :=
  calls.foldl update none
where
  update (last : Option UInt64) : Call → Option UInt64
    | .addOrder m                      => if m.key = k then some m.qty else last
    | .executeOrder _ | .deleteOrder _ => last

-- No live order has more left than it was added with.
def NotGrown (calls : List Call) (b : OrderbookBuilder) : Prop :=
  b.orderMap.Every fun k o => ∃ q, lastAdded calls k = some q ∧ o.leftQty ≤ q

theorem lastAdded_add {m : AddOrder} :
    lastAdded (pre ++ [.addOrder m]) k = if m.key = k then some m.qty else lastAdded pre k := by
  simp [lastAdded, lastAdded.update]

theorem lastAdded_removal (h : call.addKey? = none) : lastAdded (pre ++ [call]) k = lastAdded pre k := by
  cases call
  case addOrder => contradiction
  case executeOrder | deleteOrder => simp [lastAdded, lastAdded.update]

namespace NotGrown

theorem empty : NotGrown [] {} :=
  fun _ _ h => by simp at h

theorem settle {qty : UInt64} (h : NotGrown pre b) (hl : b.orderMap.lookup o.key = some o)
    (hq : qty ≤ o.leftQty) :
    (b.settle o qty).Every fun k o => ∃ q, lastAdded pre k = some q ∧ o.leftQty ≤ q := by
  have ⟨q, hk, hle⟩ := h _ _ hl
  unfold OrderbookBuilder.settle
  split
  case isTrue => exact Finmap.Every.erase h
  case isFalse => exact Finmap.Every.insert h ⟨q, hk, UInt64.le_trans (UInt64.sub_le hq) hle⟩

theorem next (h : NotGrown pre b) (he : Effect b b' call) : NotGrown (pre ++ [call]) b' := by
  cases he
  case added m he =>
    intro k o hl
    rw [he, Finmap.lookup_insert_apply] at hl
    rw [lastAdded_add]
    split at hl
    case isTrue hk =>
      have ho := Option.some.inj hl
      subst ho
      exact ⟨m.qty, if_pos hk.symm, UInt64.le_refl _⟩
    case isFalse hk => rw [if_neg (Ne.symm hk)]; exact h k o hl
  case executed m o hk hl hq he =>
    have hr : (Call.executeOrder m).addKey? = none := rfl
    simp only [NotGrown, lastAdded_removal hr, he]
    exact h.settle hl hq
  case deleted m o hk hl he =>
    have hr : (Call.deleteOrder m).addKey? = none := rfl
    simp only [NotGrown, lastAdded_removal hr, he]
    exact h.settle hl (UInt64.le_refl _)
  case ignored he hr _ =>
    simp only [NotGrown, lastAdded_removal hr, he]
    exact h

end NotGrown

theorem contained_invariant :
    Run.Invariant Call.apply {} (fun _ => Contained) (fun pre b => (∃ d, b.Sound d) ∧ NotGrown pre b) where
  init := ⟨⟨0, .empty⟩, .empty⟩
  next := by
    intro pre b call ⟨⟨d, h⟩, hg⟩ hc
    have ⟨b', d', he, h', heff, _⟩ := h.step hc
    exact ⟨b', he, ⟨d', h'⟩, hg.next heff⟩

theorem contained_safe (h : Run.Admits Call.apply {} (fun _ => Contained) calls) (hp : pre <+: calls) :
    ∃ b, run pre = .ok b ∧ NotGrown pre b := by
  have ⟨b, hb, _, hg⟩ := contained_invariant.exec_restrict h hp
  exact ⟨b, hb, hg⟩

theorem contained_safe_duplicate :
    ∃ b, run [.addOrder (sampleAdd 10), .addOrder (sampleAdd 5)] = .ok b ∧
      NotGrown [.addOrder (sampleAdd 10), .addOrder (sampleAdd 5)] b := by
  have h₁ : Run.Admits Call.apply {} (fun _ => Contained) [.addOrder (sampleAdd 10)] := by
    apply Run.Admits.singleton
    exact ⟨by decide +kernel, fun q hq => absurd hq (by simp [levels, orderbook])⟩
  have h₂ : Run.Admits Call.apply {} (fun _ => Contained) [.addOrder (sampleAdd 10), .addOrder (sampleAdd 5)] := by
    apply h₁.snoc
    intro b hb
    cases hb
    have hl : (addOrder {} (sampleAdd 10)).levels (sampleAdd 5).place.1 (sampleAdd 5).place.2.1 = [(1000, 10)] := by
      decide +kernel
    have hs : (10 : UInt64).toNat + (sampleAdd 5).qty.toNat = 15 := by decide +kernel
    refine ⟨by decide +kernel, fun q hq => ?_⟩
    rw [hl, List.mem_singleton] at hq
    rw [(Prod.mk.inj hq).right, hs]
    omega
  exact contained_safe h₂ (List.prefix_refl _)

theorem overexecution_exits :
    run [.addOrder (sampleAdd 10), .executeOrder (sampleExecuted 15), .deleteOrder sampleDelete] =
      .error .exit42 := by
  decide +kernel

end Contained

end OrderbookBuilder
