import BistHft.Client.Theorems.Copies

-- What becomes of a frame when the bytes that follow it in the buffer change.

namespace TcpClient

variable {client : TcpClient} {data data' m m' : Memory} {length : UInt16} {offset : UInt64} {a : BistMarketAccessor}
variable {f : List UInt8} {n o k i : ℕ} {c : UInt8}

-- One of the two bytes behind a frame of `n` bytes is one of these.
def Touches (n offset size : ℕ) : Prop :=
  ∃ i, n ≤ i ∧ i < n + 2 ∧ offset ≤ i ∧ i < offset + size

-- The message in a frame as it is copied, with the two bytes behind it.
def payload (f : List UInt8) (m : Memory) : Memory :=
  (m.shift 3).copied (f.length - 1)

def token (f : List UInt8) (m : Memory) : OrderToken :=
  (payload f m).orderToken 9

-- Whatever follows the frame, its token does not lead to a record.
def Unrecorded (f : List UInt8) : Prop :=
  ∀ m, m.Holds f → OrderManager.getOrder (token f m) = none

-- The same branch, the same updates of the orders, and the same bytes sent.
def Isolated (f : List UInt8) : Prop :=
  ∀ a m m', m.Holds f → m'.Holds f → Branch.of m = Branch.of m' ∧
    (handleMessage a m (.ofNat f.length)).orderManager = (handleMessage a m' (.ofNat f.length)).orderManager ∧
    (handleMessage a m (.ofNat f.length)).written = (handleMessage a m' (.ofNat f.length)).written

-- The bytes behind the frame are not part of anything that is used: of the types, of the token, and,
-- as long as there is a record to be changed, of what is put into the record.
structure SelfContained (f : List UInt8) : Prop where
  packetType    : 3 ≤ f.length
  payloadType   : Memory.ofList f 2 = PacketType.sequencedData.code → 4 ≤ f.length
  orderAccepted : Branch.of (.ofList f) = .orderAccepted → ¬Touches f.length 12 14 ∧
    (Touches f.length 26 5 ∨ Touches f.length 39 12 → Unrecorded f)
  orderExecuted : Branch.of (.ofList f) = .orderExecuted → Touches f.length 12 14 ∨ Touches f.length 30 8 → Unrecorded f
  orderReplaced : Branch.of (.ofList f) = .orderReplaced → ¬Touches f.length 12 14
  orderRejected : Branch.of (.ofList f) = .orderRejected → Touches f.length 12 14 → Unrecorded f

section Payload

theorem payload_agreeOn (h : m.Holds f) (h' : m'.Holds f) (hn : ¬Touches f.length (3 + o) k) :
    (payload f m).AgreeOn (payload f m') o k := by
  intro i hl hu
  cases Nat.lt_or_ge i (f.length - 1)
  case inl hi =>
    have hf : 3 + i < f.length := by
      apply Nat.lt_of_not_le
      exact fun hle => hn ⟨3 + i, hle, by omega, by omega, by omega⟩
    rw [payload, payload, Memory.copied_apply hi, Memory.copied_apply hi, Memory.shift_apply, Memory.shift_apply,
      h.apply hf, h'.apply hf]
  case inr hi => rw [payload, payload, Memory.copied, Memory.copied, if_neg (by omega), if_neg (by omega)]

theorem holds_store (h : m.Holds f) (hi : f.length ≤ i) : (m.store i [c]).Holds f :=
  (Memory.bytes_store_of_disjoint (.inl (by omega))).trans h

theorem payload_store (hi : i < f.length - 1) : payload f (m.store (3 + i) [c]) = (payload f m).store i [c] := by
  funext j
  simp only [payload, Memory.copied, Memory.shift, Memory.store, List.length_singleton]
  grind

-- A byte of the message that can be chosen at will.
theorem Touches.exists_store (ht : Touches f.length (3 + o) k) (h : m.Holds f) :
    ∃ i, o ≤ i ∧ i < o + k ∧
      ∀ c, (m.store (3 + i) [c]).Holds f ∧ payload f (m.store (3 + i) [c]) = (payload f m).store i [c] := by
  have ⟨j, hl, hu, ho, hk⟩ := ht
  have ⟨i, hi⟩ := Nat.exists_eq_add_of_le (Nat.le_of_add_right_le ho)
  subst hi
  exact ⟨i, by omega, by omega, fun c => ⟨holds_store h hl, payload_store (by omega)⟩⟩

theorem not_agreeOn_store (hl : o ≤ i) (hu : i < o + k) :
    ¬(m.store i ['0'.toUInt8]).AgreeOn (m.store i ['1'.toUInt8]) o k := by
  intro h
  have hc := h i hl hu
  rw [Memory.store_singleton, Memory.store_singleton] at hc
  contradiction

theorem orderToken_store_val (hl : o ≤ i) (hu : i < o + 14) :
    ((m.store i [c]).orderToken o).val = m.bytes o (i - o) ++ c :: m.bytes (i + 1) (o + 14 - (i + 1)) := by
  refine (Memory.bytes_split hl hu).trans ?_
  have hr : (m.store i [c]).bytes (i + 1) (o + 14 - (i + 1)) = m.bytes (i + 1) (o + 14 - (i + 1)) :=
    Memory.bytes_store_of_disjoint (.inr (Nat.le_refl _))
  rw [Memory.store_singleton, Memory.bytes_store_of_disjoint (.inl (by omega)), hr]

-- No record is found both with the one and with the other character in the token.
theorem getOrder_store {r : Fin ordersSize} (hl : o ≤ i) (hu : i < o + 14)
    (h0 : OrderManager.getOrder ((m.store i ['0'.toUInt8]).orderToken o) = some r)
    (h1 : OrderManager.getOrder ((m.store i ['1'.toUInt8]).orderToken o) = some r) : False :=
  OrderToken.parse_ne (orderToken_store_val hl hu) (orderToken_store_val hl hu) <|
    (OrderManager.getOrder_some h0).trans (OrderManager.getOrder_some h1).symm

end Payload

section Branch

theorem branch_eq (hp : 3 ≤ f.length) (ht : Memory.ofList f 2 = PacketType.sequencedData.code → 4 ≤ f.length)
    (h : m.Holds f) : Branch.of m = Branch.of (.ofList f) := by
  have hf : (Memory.ofList f).Holds f := Memory.holds_ofList
  have h2 : m 2 = Memory.ofList f 2 := (h.apply hp).trans (hf.apply hp).symm
  simp only [Branch.of, h2]
  split
  case isTrue hs  => rw [h.apply (ht hs), hf.apply (ht hs)]
  case isFalse hs => rfl

theorem of_endOfSession (h : m 2 = PacketType.endOfSession.code) : Branch.of m = .endOfSession := by
  rw [Branch.of, h]
  rfl

theorem of_serverHeartbeat (h : m 2 = PacketType.serverHeartbeat.code) : Branch.of m = .serverHeartbeat := by
  rw [Branch.of, h]
  rfl

theorem of_orderCanceled (hp : m 2 = PacketType.sequencedData.code) (ht : m 3 = Ouch.MessageType.orderCanceled.code) :
    Branch.of m = .orderCanceled := by
  rw [Branch.of, hp, ht]
  rfl

theorem of_orderRejected (hp : m 2 = PacketType.sequencedData.code) (ht : m 3 = Ouch.MessageType.orderRejected.code) :
    Branch.of m = .orderRejected := by
  rw [Branch.of, hp, ht]
  rfl

theorem Isolated.three_le (hf : IsFrame f) (h : Isolated f) : 3 ≤ f.length := by
  have ⟨_, _, hl⟩ := hf.isMessage.header
  apply Nat.lt_of_not_le
  intro hle
  have hs c : ((Memory.ofList f).store 2 [c]).Holds f := holds_store Memory.holds_ofList hle
  have hb := (h sampleAccessor _ _ (hs PacketType.endOfSession.code) (hs PacketType.serverHeartbeat.code)).left
  rw [of_endOfSession Memory.store_singleton, of_serverHeartbeat Memory.store_singleton] at hb
  contradiction

theorem Isolated.four_le (hf : IsFrame f) (h : Isolated f) (ht : Memory.ofList f 2 = PacketType.sequencedData.code) :
    4 ≤ f.length := by
  have hp := h.three_le hf
  apply Nat.lt_of_not_le
  intro hle
  have hs c : ((Memory.ofList f).store 3 [c]).Holds f := holds_store Memory.holds_ofList hle
  have ht c : (Memory.ofList f).store 3 [c] 2 = PacketType.sequencedData.code := by
    rwa [Memory.store_apply (.inl (by decide))]
  have hc := hs Ouch.MessageType.orderCanceled.code
  have hr := hs Ouch.MessageType.orderRejected.code
  have hb := (h sampleAccessor _ _ hc hr).left
  rw [of_orderCanceled (ht _) Memory.store_singleton, of_orderRejected (ht _) Memory.store_singleton] at hb
  contradiction

theorem Isolated.branch_eq (hf : IsFrame f) (h : Isolated f) (hm : m.Holds f) : Branch.of m = Branch.of (.ofList f) :=
  TcpClient.branch_eq (h.three_le hf) (h.four_le hf) hm

theorem IsFrame.toNat_length (hf : IsFrame f) : (UInt16.ofNat f.length).toNat = f.length :=
  UInt16.toNat_ofNat_of_lt' <| Nat.lt_of_le_of_lt hf.length_le (by decide)

theorem handleMessage_payload {b : Branch} {size : ℕ} (hf : IsFrame f) (hb : Branch.of m = b)
    (hc : b.copy? (.ofNat f.length) = some (Branch.payloadCopy (.ofNat f.length) size)) :
    handleMessage a m (.ofNat f.length) = b.act a (payload f m) := by
  have hn := hf.toNat_length
  have hs : b.struct m (.ofNat f.length) = payload f m := by
    rw [Branch.struct, hc, Option.elim_some, Copy.struct, Branch.payloadCopy_count (hn.symm ▸ hf.isMessage.length_pos), hn]
    rfl
  rw [handleMessage_act, hb, hs]

theorem handleMessage_login (hf : IsFrame f) (hb : Branch.of m = .loginAccepted) :
    handleMessage a m (.ofNat f.length) = a.onLoginAccepted (m.copied f.length).loginAccepted := by
  have hs : Branch.loginAccepted.struct m (.ofNat f.length) = m.copied f.length := by
    rw [Branch.struct, Branch.copy?, Option.elim_some, Copy.struct, Branch.loginCopy, hf.toNat_length, Memory.shift_zero]
  rw [handleMessage_act, hb, hs]
  rfl

end Branch

section Responds

-- A branch that leads to a change of the record, with the response that it finds in the frame.
structure Responds (f : List UInt8) (response : Memory → Response) : Prop where
  handle : ∀ a m, m.Holds f → handleMessage a m (.ofNat f.length) = a.respond (response (payload f m))
  token  : ∀ P, (response P).token = P.orderToken 9

theorem responds_accepted (hf : IsFrame f) (hb : ∀ m, m.Holds f → Branch.of m = .orderAccepted) :
    Responds f (.accepted <| Memory.orderAccepted ·) where
  handle _ m hm := handleMessage_payload hf (hb m hm) rfl
  token _ := rfl

theorem responds_executed (hf : IsFrame f) (hb : ∀ m, m.Holds f → Branch.of m = .orderExecuted) :
    Responds f (.executed <| Memory.ouchOrderExecuted ·) where
  handle _ m hm := handleMessage_payload hf (hb m hm) rfl
  token _ := rfl

theorem responds_rejected (hf : IsFrame f) (hb : ∀ m, m.Holds f → Branch.of m = .orderRejected) :
    Responds f (.rejected <| Memory.orderRejected ·) where
  handle _ m hm := handleMessage_payload hf (hb m hm) rfl
  token _ := rfl

theorem token_eq (hm : m.Holds f) (hm' : m'.Holds f) (hn : ¬Touches f.length 12 14) : token f m = token f m' :=
  Memory.orderToken_congr <| Memory.bytes_eq_iff.mpr (payload_agreeOn (o := 9) hm hm' hn)

end Responds

section Forward

-- Where the frame is isolated, two memories that differ in one byte of the message show it.

variable {t t' : OrderToken} {x y : OrderManager} {price : Int32} {r : Fin ordersSize} {response : Memory → Response}

theorem sendCancelOrder_inj (h : (a.sendCancelOrder t).written = (a.sendCancelOrder t').written) : t = t' := by
  have hb := Memory.bytes_eq_iff.mp <| List.singleton_inj.mp (List.append_cancel_left h)
  have ht := Memory.orderToken_congr <| Memory.bytes_congr (o := 4) (n := 14) fun i hl hu => hb i (by omega) (by omega)
  rwa [Memory.orderToken_store, Memory.orderToken_store] at ht

theorem sendReplaceOrder_inj (h : x.originalToReplacementTokens = y.originalToReplacementTokens)
    (hs : ({ a with orderManager := x }.sendReplaceOrder t price).orderManager =
      ({ a with orderManager := y }.sendReplaceOrder t' price).orderManager) : t = t' := by
  have hp : x.originalToReplacementTokens ++ [(t, x.token.next)] =
      y.originalToReplacementTokens ++ [(t', y.token.next)] := congrArg OrderManager.originalToReplacementTokens hs
  rw [h] at hp
  exact congrArg Prod.fst <| List.singleton_inj.mp (List.append_cancel_left hp)

-- The token is not the same for all that may follow the frame.
theorem Touches.exists_token_ne (ht : Touches f.length 12 14) :
    ∃ m m', m.Holds f ∧ m'.Holds f ∧ token f m ≠ token f m' := by
  have ⟨i, hl, hu, hs⟩ := ht.exists_store (o := 9) (m := .ofList f) Memory.holds_ofList
  refine ⟨_, _, (hs '0'.toUInt8).left, (hs '1'.toUInt8).left, fun he => ?_⟩
  rw [token, token, (hs _).right, (hs _).right] at he
  exact not_agreeOn_store hl hu (Memory.bytes_eq_iff.mp <| congrArg Subtype.val he)

def withOrders (order : Order) : BistMarketAccessor :=
  { sampleAccessor with orderManager := { sampleAccessor.orderManager with orders := fun _ => order } }

theorem Responds.orders (hr : Responds f response) (hm : m.Holds f) :
    (handleMessage a m (.ofNat f.length)).orderManager.orders r =
      if OrderManager.getOrder (TcpClient.token f m) = some r then
        (response (payload f m)).update (a.orderManager.orders r)
      else
        a.orderManager.orders r := by
  rw [hr.handle a m hm, BistMarketAccessor.orders_respond, OrderManager.orders_modify, hr.token]
  rfl

theorem Isolated.unrecorded (h : Isolated f) (hr : Responds f response) (ht : Touches f.length 12 14)
    (hu : ∀ m, ∃ order, (response (payload f m)).update order ≠ order) : Unrecorded f := by
  intro m hm
  cases ho : OrderManager.getOrder (token f m)
  case none => rfl
  case some r =>
    have ⟨order, hne⟩ := hu m
    have ⟨i, hl, hu, hs⟩ := ht.exists_store (o := 9) hm
    -- The change shows in the record, which the token has to lead to whatever the byte is.
    have hg c : OrderManager.getOrder (((payload f m).store i [c]).orderToken 9) = some r := by
      have he := congrArg (OrderManager.orders · r) (h (withOrders order) m _ hm (hs c).left).right.left
      rw [hr.orders hm, hr.orders (hs c).left, if_pos ho] at he
      split at he
      case isTrue hc  => rwa [token, (hs c).right] at hc
      case isFalse hc => exact absurd he hne
    exact (getOrder_store hl hu (hg _) (hg _)).elim

-- What is put into a record is the same for all that may follow the frame.
theorem Isolated.update_eq (h : Isolated f) (hr : Responds f response) (hm : m.Holds f) (hm' : m'.Holds f)
    (ht : token f m = token f m') (ho : OrderManager.getOrder (token f m) = some r) (order : Order) :
    (response (payload f m)).update order = (response (payload f m')).update order := by
  have he := congrArg (OrderManager.orders · r) (h (withOrders order) m m' hm hm').right.left
  rwa [hr.orders hm, hr.orders hm', if_pos ho, if_pos (ht ▸ ho)] at he

theorem Isolated.replaced_token (h : Isolated f) (hf : IsFrame f) (hb : ∀ m, m.Holds f → Branch.of m = .orderReplaced) :
    ¬Touches f.length 12 14 := by
  intro ht
  have ⟨m, m', hm, hm', hne⟩ := ht.exists_token_ne
  have hw := (h sampleAccessor m m' hm hm').right.right
  rw [handleMessage_payload hf (hb m hm) rfl, handleMessage_payload hf (hb m' hm') rfl] at hw
  exact hne (sendCancelOrder_inj hw)

theorem Isolated.accepted_token (h : Isolated f) (hf : IsFrame f) (hb : ∀ m, m.Holds f → Branch.of m = .orderAccepted) :
    ¬Touches f.length 12 14 := by
  intro ht
  have ⟨m, m', hm, hm', hne⟩ := ht.exists_token_ne
  have ho := (h sampleAccessor m m' hm hm').right.left
  rw [handleMessage_payload hf (hb m hm) rfl, handleMessage_payload hf (hb m' hm') rfl] at ho
  refine hne (sendReplaceOrder_inj ?_ ho)
  rw [OrderManager.orderAccepted, OrderManager.orderAccepted, OrderManager.originalToReplacementTokens_modify,
    OrderManager.originalToReplacementTokens_modify]

-- A field that goes into the record, read from the copied message, is the same whatever follows the frame.
theorem Isolated.unrecorded_of_field (h : Isolated f) (hr : Responds f response) (hn : ¬Touches f.length 12 14)
    (ht : Touches f.length (3 + o) k)
    (hi : ∀ P P', (response P).update {} = (response P').update {} → P.AgreeOn P' o k) : Unrecorded f := by
  intro m hm
  cases ho : OrderManager.getOrder (token f m)
  case none => rfl
  case some r =>
    have ⟨i, hl, hu, hs⟩ := ht.exists_store hm
    have hg : OrderManager.getOrder (token f (m.store (3 + i) ['0'.toUInt8])) = some r :=
      token_eq hm (hs _).left hn ▸ ho
    have he := h.update_eq hr (hs _).left (hs '1'.toUInt8).left (token_eq (hs _).left (hs _).left hn) hg {}
    rw [(hs _).right, (hs _).right] at he
    exact (not_agreeOn_store hl hu (hi _ _ he)).elim

theorem accepted_agreeOn
    (h : (Response.accepted m.orderAccepted).update {} = (Response.accepted m'.orderAccepted).update {}) :
    m.AgreeOn m' 23 5 ∧ m.AgreeOn m' 36 12 := by
  have ⟨hq, ho, hp, hs, _⟩ := Order.mk.inj h
  have ho := Memory.AgreeOn.of_load32 ho
  have hs := Memory.AgreeOn.of_apply hs
  have hq := Memory.AgreeOn.of_load64 (be64toh_inj hq)
  have hp : be32toh (m.load32 44) = be32toh (m'.load32 44) := congrArg Int32.toUInt32 hp
  have hp := Memory.AgreeOn.of_load32 (be32toh_inj hp)
  exact ⟨ho.append hs, hq.append hp⟩

theorem executed_quantity {e : Ouch.OrderExecuted} {order : Order} :
    ((Response.executed e).update order).quantity = order.quantity - be64toh e.tradedQuantity := by
  rw [Response.update]
  split
  case isTrue h  => rw [h, UInt64.sub_self]
  case isFalse h => rfl

theorem executed_update_self {e : Ouch.OrderExecuted} :
    (Response.executed e).update { quantity := be64toh e.tradedQuantity } = { quantity := 0, isValid := false } := by
  rw [Response.update, if_pos rfl]

theorem executed_agreeOn
    (h : (Response.executed m.ouchOrderExecuted).update {} = (Response.executed m'.ouchOrderExecuted).update {}) :
    m.AgreeOn m' 27 8 := by
  have hq := congrArg Order.quantity h
  rw [executed_quantity, executed_quantity] at hq
  exact Memory.AgreeOn.of_load64 (be64toh_inj <| (UInt64.sub_right_inj 0).mp hq)

theorem Isolated.selfContained (h : Isolated f) (hf : IsFrame f) : SelfContained f := by
  have hb {b} (he : Branch.of (.ofList f) = b) m (hm : m.Holds f) : Branch.of m = b := (h.branch_eq hf hm).trans he
  refine ⟨h.three_le hf, h.four_le hf, ?accepted, ?executed, ?replaced, ?rejected⟩
  case replaced => exact fun he => h.replaced_token hf (hb he)
  case rejected =>
    refine fun he ht => h.unrecorded (responds_rejected hf (hb he)) ht fun m => ⟨{}, fun hu => ?_⟩
    exact Bool.false_ne_true (congrArg Order.isValid hu)
  case accepted =>
    intro he
    have hr := responds_accepted hf (hb he)
    have hn := h.accepted_token hf (hb he)
    refine ⟨hn, fun ht => ?_⟩
    cases ht
    case inl ht => exact h.unrecorded_of_field (o := 23) hr hn ht fun _ _ hu => (accepted_agreeOn hu).left
    case inr ht => exact h.unrecorded_of_field (o := 36) hr hn ht fun _ _ hu => (accepted_agreeOn hu).right
  case executed =>
    intro he ht
    have hr := responds_executed hf (hb he)
    cases Classical.em (Touches f.length 12 14)
    case inl ht =>
      refine h.unrecorded hr ht fun m => ?_
      refine ⟨{ quantity := be64toh (payload f m).ouchOrderExecuted.tradedQuantity }, fun hu => ?_⟩
      rw [executed_update_self] at hu
      exact Bool.false_ne_true (congrArg Order.isValid hu)
    case inr hn =>
      have ht := ht.resolve_left hn
      exact h.unrecorded_of_field (o := 27) hr hn ht fun _ _ hu => executed_agreeOn hu

end Forward

section Backward

-- Without a record, the message has no effect beyond the request that is sent in reply.

theorem respond_accepted_of_none {x : Ouch.OrderAccepted} (h : OrderManager.getOrder x.orderToken = none) :
    a.respond (.accepted x) = a.sendReplaceOrder x.orderToken 775000 := by
  rw [BistMarketAccessor.respond, OrderManager.orderAccepted, OrderManager.modify_of_none h]

theorem respond_executed_of_none {x : Ouch.OrderExecuted} (h : OrderManager.getOrder x.orderToken = none) :
    a.respond (.executed x) = a := by
  rw [BistMarketAccessor.respond, OrderManager.orderExecuted, OrderManager.modify_of_none h]

theorem respond_rejected_of_none {x : Ouch.OrderRejected} (h : OrderManager.getOrder x.orderToken = none) :
    a.respond (.rejected x) = a := by
  rw [BistMarketAccessor.respond, OrderManager.orderDeleted, OrderManager.modify_of_none h]

theorem orderAccepted_congr (ht : m.orderToken 9 = m'.orderToken 9) (h₁ : m.AgreeOn m' 23 5) (h₂ : m.AgreeOn m' 36 12) :
    m.orderAccepted = m'.orderAccepted := by
  have ho : m.load32 23 = m'.load32 23 := Memory.AgreeOn.load32 fun i hl hu => h₁ i hl (by omega)
  have hs : m 27 = m' 27 := h₁ 27 (by decide) (by decide)
  have hq : m.load64 36 = m'.load64 36 := Memory.AgreeOn.load64 fun i hl hu => h₂ i hl (by omega)
  have hp : m.load32 44 = m'.load32 44 := Memory.AgreeOn.load32 fun i hl hu => h₂ i (by omega) hu
  rw [Memory.orderAccepted, Memory.orderAccepted, ht, ho, hs, hq, hp]

theorem accepted_alike (hr : Responds f (.accepted <| Memory.orderAccepted ·)) (hm : m.Holds f) (hm' : m'.Holds f)
    (hn : ¬Touches f.length 12 14) (hu : Touches f.length 26 5 ∨ Touches f.length 39 12 → Unrecorded f) :
    handleMessage a m (.ofNat f.length) = handleMessage a m' (.ofNat f.length) := by
  have ht : (payload f m).orderToken 9 = (payload f m').orderToken 9 := token_eq hm hm' hn
  rw [hr.handle a m hm, hr.handle a m' hm']
  cases Classical.em (Touches f.length 26 5 ∨ Touches f.length 39 12)
  case inl h =>
    rw [respond_accepted_of_none (x := (payload f m).orderAccepted) (hu h m hm),
      respond_accepted_of_none (x := (payload f m').orderAccepted) (hu h m' hm')]
    exact congrArg (a.sendReplaceOrder · 775000) ht
  case inr h =>
    have ⟨h₁, h₂⟩ := not_or.mp h
    rw [orderAccepted_congr ht (payload_agreeOn hm hm' h₁) (payload_agreeOn hm hm' h₂)]

theorem executed_alike (hr : Responds f (.executed <| Memory.ouchOrderExecuted ·)) (hm : m.Holds f) (hm' : m'.Holds f)
    (hu : Touches f.length 12 14 ∨ Touches f.length 30 8 → Unrecorded f) :
    handleMessage a m (.ofNat f.length) = handleMessage a m' (.ofNat f.length) := by
  rw [hr.handle a m hm, hr.handle a m' hm']
  cases Classical.em (Touches f.length 12 14 ∨ Touches f.length 30 8)
  case inl h =>
    rw [respond_executed_of_none (x := (payload f m).ouchOrderExecuted) (hu h m hm),
      respond_executed_of_none (x := (payload f m').ouchOrderExecuted) (hu h m' hm')]
  case inr h =>
    have ⟨h₁, h₂⟩ := not_or.mp h
    have ht : (payload f m).orderToken 9 = (payload f m').orderToken 9 := token_eq hm hm' h₁
    have hq := Memory.AgreeOn.load64 (payload_agreeOn (o := 27) hm hm' h₂)
    rw [Memory.ouchOrderExecuted, Memory.ouchOrderExecuted, ht, hq]

theorem rejected_alike (hr : Responds f (.rejected <| Memory.orderRejected ·)) (hm : m.Holds f) (hm' : m'.Holds f)
    (hu : Touches f.length 12 14 → Unrecorded f) :
    handleMessage a m (.ofNat f.length) = handleMessage a m' (.ofNat f.length) := by
  rw [hr.handle a m hm, hr.handle a m' hm']
  cases Classical.em (Touches f.length 12 14)
  case inl h =>
    rw [respond_rejected_of_none (x := (payload f m).orderRejected) (hu h m hm),
      respond_rejected_of_none (x := (payload f m').orderRejected) (hu h m' hm')]
  case inr h => exact congrArg (a.respond <| .rejected ⟨·⟩) (token_eq hm hm' h)

theorem SelfContained.handleMessage_eq (h : SelfContained f) (hf : IsFrame f) (hm : m.Holds f) (hm' : m'.Holds f) :
    handleMessage a m (.ofNat f.length) = handleMessage a m' (.ofNat f.length) := by
  have hb m (hm : m.Holds f) : Branch.of m = Branch.of (.ofList f) := branch_eq h.packetType h.payloadType hm
  cases hc : Branch.of (.ofList f)
  all_goals rw [hc] at hb
  case orderAccepted =>
    have ⟨hn, hu⟩ := h.orderAccepted hc
    exact accepted_alike (responds_accepted hf hb) hm hm' hn hu
  case orderExecuted => exact executed_alike (responds_executed hf hb) hm hm' (h.orderExecuted hc)
  case orderRejected => exact rejected_alike (responds_rejected hf hb) hm hm' (h.orderRejected hc)
  case orderReplaced =>
    rw [handleMessage_payload hf (hb m hm) rfl, handleMessage_payload hf (hb m' hm') rfl]
    exact congrArg a.sendCancelOrder (token_eq hm hm' <| h.orderReplaced hc)
  case loginAccepted =>
    have hl : m.copied f.length = m'.copied f.length :=
      Memory.AgreeOn.copied <| Memory.bytes_eq_iff.mp (hm.trans hm'.symm)
    rw [handleMessage_login hf (hb m hm), handleMessage_login hf (hb m' hm'), hl]
  all_goals
    rw [handleMessage_act, handleMessage_act, hb m hm, hb m' hm']
    rfl

theorem SelfContained.isolated (h : SelfContained f) (hf : IsFrame f) : Isolated f := by
  intro a m m' hm hm'
  have hb := branch_eq h.packetType h.payloadType hm
  have hb' := branch_eq h.packetType h.payloadType hm'
  have he : handleMessage a m (.ofNat f.length) = handleMessage a m' (.ofNat f.length) := h.handleMessage_eq hf hm hm'
  exact ⟨hb.trans hb'.symm, by rw [he], by rw [he]⟩

end Backward

section Buffers

theorem messageLength_eq {messageLength : UInt16} (h : client.complete? offset = some messageLength) :
    be16toh (client.buffer.load16 offset.toNat) = messageLength := by
  simp only [complete?, Option.ite_none_right_eq_some, Option.ite_none_left_eq_some, Option.some.injEq] at h
  exact h.right.right

-- The messages that are complete in a buffer are frames.
theorem Frame.isFrame (hd : client.dataSize.toNat ≤ bufferSize) (h : client.Frame data length) :
    IsFrame (data.bytes 0 length.toNat) := by
  cases h
  case intro offset l hr hc =>
    have hp : (client.buffer.shift offset.toNat).bytes 0 2 = pack16 l := by
      rw [← messageLength_eq hc, pack16_load, Memory.bytes_shift, Nat.add_zero]
    have ⟨_, hle⟩ := next_toNat hr.le hc
    rw [(exact_of_le hd _ hr).right _ hc, Memory.bytes_add, hp]
    refine ⟨_, by rw [Memory.bytes_length, UInt16.ofNat_toNat], ?_⟩
    rw [List.length_append, pack16_length, Memory.bytes_length]
    omega

-- What is handed over from two buffers, as far as it is the same, is handled the same.
theorem frames_handled_alike (hd : client.dataSize.toNat ≤ bufferSize)
    (h : (data, length) ∈ client.frames) (hb : data.bytes 0 length.toNat = data'.bytes 0 length.toNat)
    (hs : SelfContained (data.bytes 0 length.toNat)) : handleMessage a data length = handleMessage a data' length := by
  have hm : data.Holds (data.bytes 0 length.toNat) := congrArg (data.bytes 0) Memory.bytes_length
  have hm' : data'.Holds (data.bytes 0 length.toNat) := (congrArg (data'.bytes 0) Memory.bytes_length).trans hb.symm
  have he := hs.handleMessage_eq (a := a) ((frame_of_mem h).isFrame hd) hm hm'
  rwa [Memory.bytes_length, UInt16.ofNat_toNat] at he

end Buffers

theorem isolated_iff (hf : IsFrame f) : Isolated f ↔ SelfContained f :=
  ⟨(·.selfContained hf), (·.isolated hf)⟩

section Samples

def sampleHeartbeat : List UInt8 := [0, 1, 0x48]

theorem sampleHeartbeat_isFrame : IsFrame sampleHeartbeat :=
  ⟨[0x48], rfl, by decide⟩

-- A message of the exchange, with `n` bytes behind its type
def sampleResponse (type : UInt8) (n : ℕ) : List UInt8 :=
  pack16 (.ofNat (n + 2)) ++ [PacketType.sequencedData.code, type] ++ .replicate n 0x31

-- A whole `OrderExecuted`
theorem sampleExecuted_isFrame : IsFrame (sampleResponse 'E'.toUInt8 67) :=
  ⟨[PacketType.sequencedData.code, 'E'.toUInt8] ++ .replicate 67 0x31, rfl, by decide⟩

theorem sampleExecuted_selfContained : SelfContained (sampleResponse 'E'.toUInt8 67) where
  packetType      := by decide
  payloadType _   := by decide
  orderAccepted h := absurd h (by decide)
  orderReplaced h := absurd h (by decide)
  orderRejected h := absurd h (by decide)
  orderExecuted _ := by
    have hl : (sampleResponse 'E'.toUInt8 67).length = 71 := rfl
    rintro (⟨i, h₁, _, _, h₂⟩ | ⟨i, h₁, _, _, h₂⟩) <;> omega

-- An `OrderReplaced` that ends within its token
theorem sampleReplaced_isFrame : IsFrame (sampleResponse 'U'.toUInt8 16) :=
  ⟨[PacketType.sequencedData.code, 'U'.toUInt8] ++ .replicate 16 0x31, rfl, by decide⟩

theorem sampleReplaced_touches : Touches (sampleResponse 'U'.toUInt8 16).length 12 14 :=
  ⟨20, by decide, by decide, by decide, by decide⟩

theorem isolated_iff_responses :
    Isolated (sampleResponse 'E'.toUInt8 67) ∧ ¬Isolated (sampleResponse 'U'.toUInt8 16) :=
  ⟨(isolated_iff sampleExecuted_isFrame).mpr sampleExecuted_selfContained,
    fun h => ((isolated_iff sampleReplaced_isFrame).mp h).orderReplaced (by decide) sampleReplaced_touches⟩

-- A packet without a type takes that of the packet behind it.
theorem empty_not_isolated : ¬∀ f, IsFrame f → Isolated f := by
  intro h
  have hf : IsFrame [0, 0] := ⟨[], rfl, by decide⟩
  exact absurd ((h _ hf).three_le hf) (by decide)

end Samples

end TcpClient
