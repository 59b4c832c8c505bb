import BistHft.Core.Theorems.Dump
import BistHft.Core.Theorems.Locality

-- The two stores as functions of the histories of the single orders. How these histories were
-- interleaved leaves no trace in a builder.

namespace L2Orderbook.Refines

variable {ob : L2Orderbook} {ref : Ref} {bid ask : Int32}

theorem nonempty (h : ob.Refines ref) (hb : (∃ p, 0 < ref .bid p) ∧ ∃ p, 0 < ref .ask p) :
    ob.bids ≠ [] ∧ ob.asks ≠ [] := by
  obtain ⟨⟨p, hp⟩, ⟨p', hp'⟩⟩ := hb
  have ⟨_, hm⟩ := (h .bid).mem_iff.mpr hp
  have ⟨_, hm'⟩ := (h .ask).mem_iff.mpr hp'
  exact ⟨List.ne_nil_of_mem hm, List.ne_nil_of_mem hm'⟩

-- The two ends are read without a check, which goes wrong as soon as one of the sides is empty.
theorem getBestPrices_of_empty (h : ob.Refines ref) (hb : ¬((∃ p, 0 < ref .bid p) ∧ ∃ p, 0 < ref .ask p)) :
    ob.getBestPrices = .error .derefRend := by
  cases hbids : ob.bids.getLast?
  case none =>
    have hn := List.getLast?_eq_none_iff.mp hbids
    simp [L2Orderbook.getBestPrices, Levels.deref?, hn]
  case some x =>
    cases hasks : ob.asks.getLast?
    case none =>
      have hn := List.getLast?_eq_none_iff.mp hasks
      simp [L2Orderbook.getBestPrices, Levels.deref?, hn]
    case some y =>
      have hx := (h .bid).mem_iff.mp ⟨x.2, List.mem_of_getLast? hbids⟩
      have hy := (h .ask).mem_iff.mp ⟨y.2, List.mem_of_getLast? hasks⟩
      exact absurd ⟨⟨x.1, hx⟩, ⟨y.1, hy⟩⟩ hb

theorem getBestPrices_eq_error_iff (h : ob.Refines ref) :
    ob.getBestPrices = .error .derefRend ↔ ¬((∃ p, 0 < ref .bid p) ∧ ∃ p, 0 < ref .ask p) where
  mpr := h.getBestPrices_of_empty
  mp he hb := by
    have ⟨hbids, hasks⟩ := h.nonempty hb
    have ⟨_, _, he', _⟩ := h.getBestPrices hbids hasks
    cases he.symm.trans he'

theorem getBestPrices_iff (h : ob.Refines ref) :
    ob.getBestPrices = .ok (bid, ask) ↔ IsGreatest { p | 0 < ref .bid p } bid ∧ IsLeast { p | 0 < ref .ask p } ask := by
  constructor
  case mp =>
    intro he
    have hb : (∃ p, 0 < ref .bid p) ∧ ∃ p, 0 < ref .ask p := by
      by_contra hb
      rw [h.getBestPrices_of_empty hb] at he
      contradiction
    have ⟨hbids, hasks⟩ := h.nonempty hb
    have ⟨bid', ask', he', hg, hl⟩ := h.getBestPrices hbids hasks
    cases he.symm.trans he'
    exact ⟨hg, hl⟩
  case mpr =>
    intro ⟨hg, hl⟩
    have ⟨hbids, hasks⟩ := h.nonempty ⟨⟨bid, hg.left⟩, ⟨ask, hl.left⟩⟩
    have ⟨bid', ask', he, hg', hl'⟩ := h.getBestPrices hbids hasks
    rw [he, Int32.le_antisymm (hg.right hg'.left) (hg'.right hg.left),
      Int32.le_antisymm (hl'.right hl.left) (hl.right hl'.left)]

section Health

-- Levels that represent quantities are ordered and none of them is empty, so all that can be wrong
-- with the two of them is that they meet.
theorem bad_iff (h : ob.Refines ref) : ob.Bad ↔ ∃ bid ask, 0 < ref .bid bid ∧ 0 < ref .ask ask ∧ ask ≤ bid := by
  constructor
  case mp =>
    intro hb
    cases hb
    case asks hn => exact absurd (h .ask).ordered hn
    case bids hn => exact absurd (h .bid).ordered hn
    case empty level hl hz =>
      have hp : 0 < level.2.toNat := (List.mem_append.mp hl).elim ((h .ask).pos level) ((h .bid).pos level)
      simp [hz] at hp
    case crossed bid ask hb ha hn =>
      have hbid := (h .bid).mem_iff.mp ⟨bid.2, List.mem_of_getLast? hb⟩
      have hask := (h .ask).mem_iff.mp ⟨ask.2, List.mem_of_getLast? ha⟩
      exact ⟨bid.1, ask.1, hbid, hask, Int32.not_lt.mp hn⟩
  case mpr =>
    rintro ⟨bid, ask, hb, ha, hle⟩
    by_contra hn
    have ⟨_, hb⟩ := (h .bid).mem_iff.mpr hb
    have ⟨_, ha⟩ := (h .ask).mem_iff.mpr ha
    have hp := List.isChain_iff_pairwise.mp (not_bad_iff.mp hn).right
    have hlt : bid < ask := (List.pairwise_append.mp hp).right.right _ ha _ (List.mem_reverse.mpr hb)
    exact Int32.not_lt.mpr hle hlt

theorem mem_ladder_iff {p : Int32} (h : ob.Refines ref) : (∃ level ∈ ob.ladder, level.1 = p) ↔ ∃ c, 0 < ref c p := by
  constructor
  case mp =>
    rintro ⟨⟨p, q⟩, hl, rfl⟩
    cases List.mem_append.mp hl
    case inl hl => exact ⟨.ask, (h .ask).mem_iff.mp ⟨q, hl⟩⟩
    case inr hl => exact ⟨.bid, (h .bid).mem_iff.mp ⟨q, List.mem_reverse.mp hl⟩⟩
  case mpr =>
    rintro ⟨c, hc⟩
    have ⟨q, hm⟩ := (h c).mem_iff.mpr hc
    cases c
    case bid => exact ⟨(p, q), List.mem_append_right _ (List.mem_reverse.mpr hm), rfl⟩
    case ask => exact ⟨(p, q), List.mem_append_left _ hm, rfl⟩

-- The prices only fall from the first one on, so `INT_MAX` is first or nowhere.
theorem beginsAtMax_of_ladder {level : Int32 × UInt64} (hb : ¬ob.Bad) (hl : level ∈ ob.ladder)
    (hm : level.1 = Int32.maxValue) : ob.BeginsAtMax := by
  have hp := List.isChain_iff_pairwise.mp (not_bad_iff.mp hb).right
  unfold BeginsAtMax
  cases hd : ob.ladder
  case nil => simp [hd] at hl
  case cons first rest =>
    rw [hd] at hl hp
    refine ⟨first, rfl, ?_⟩
    cases List.mem_cons.mp hl
    case inl he => exact he ▸ hm
    case inr hr =>
      have hlt : Int32.maxValue < first.1 := hm ▸ (List.pairwise_cons.mp hp).left level hr
      exact absurd hlt (Int32.not_lt.mpr (Int32.le_maxValue _))

theorem reports_iff (h : ob.Refines ref) :
    ob.dump ↔ (∃ bid ask, 0 < ref .bid bid ∧ 0 < ref .ask ask ∧ ask ≤ bid) ∨ ∃ c, 0 < ref c Int32.maxValue := by
  rw [dump_iff, ← h.bad_iff, ← h.mem_ladder_iff]
  constructor
  case mp =>
    rintro (hb | ⟨level, hh, hm⟩)
    case inl => exact .inl hb
    case inr => exact .inr ⟨level, List.mem_of_head? hh, hm⟩
  case mpr =>
    rintro (hb | ⟨level, hl, hm⟩)
    case inl => exact .inl hb
    case inr => exact or_iff_not_imp_left.mpr fun hb => beginsAtMax_of_ladder hb hl hm

end Health

end L2Orderbook.Refines

namespace Call

-- What a call makes of the order under its key.
def onOrder (o : Option ItchOrder) : Call → Option ItchOrder
  | addOrder m     => some m.order
  | executeOrder m => o.bind fun it =>
    if it.leftQty - m.qty = 0 then none else some { it with leftQty := it.leftQty - m.qty }
  | deleteOrder _  => none

end Call

namespace OrderbookBuilder

variable {b b' : OrderbookBuilder} {k : OrderKey} {o : ItchOrder} {call : Call} {id : UInt32}
variable {calls calls' feed : List Call}

-- The order that the calls for one key leave behind.
def liveOrder (calls : List Call) (k : OrderKey) : Option ItchOrder :=
  (calls.filter (·.key = k)).foldl Call.onOrder none

-- Some call adds an order to the orderbook.
def Opened (calls : List Call) (id : UInt32) : Prop :=
  ∃ k, k.1 = id ∧ k ∈ calls.filterMap Call.addKey?

theorem liveOrder_concat :
    liveOrder (calls ++ [call]) k = if call.key = k then call.onOrder (liveOrder calls k) else liveOrder calls k := by
  rw [liveOrder, List.filter_append, List.foldl_append]
  split
  case isTrue h  => simp [h, liveOrder]
  case isFalse h => simp [h, liveOrder]

theorem mem_addKey_of_liveOrder (h : liveOrder calls k = some o) : k ∈ calls.filterMap Call.addKey? := by
  induction calls using List.reverseRecOn generalizing o
  case nil => contradiction
  case append_singleton calls call hi =>
    rw [liveOrder_concat] at h
    rw [List.filterMap_append]
    split at h
    case isFalse => exact List.mem_append_left _ (hi h)
    case isTrue hk =>
      cases call
      case deleteOrder => contradiction
      case addOrder m => exact List.mem_append_right _ (hk ▸ List.mem_singleton_self _)
      case executeOrder m =>
        have ⟨it, hl, _⟩ := Option.bind_eq_some_iff.mp h
        exact List.mem_append_left _ (hi hl)

-- The write that a call makes, if it makes one, is for the order that its key then has.
theorem onSite_ok {l : Levels} {it : Option ItchOrder} {w : Option (Option ItchOrder × Levels)}
    (h : onSite it l call = .ok w) :
    (w = none ∧ it = none ∧ call.addKey? = none) ∨
      ∃ l', w = some (call.onOrder it, l') ∧ (it = none → call.addKey? = some call.key) := by
  cases call
  case addOrder m =>
    cases h
    exact .inr ⟨_, rfl, fun _ => rfl⟩
  case executeOrder m =>
    cases it
    case none => cases h; exact .inl ⟨rfl, rfl, rfl⟩
    case some it =>
      obtain ⟨l', _, h⟩ := Run.bind_ok h
      cases h
      exact .inr ⟨l', rfl, nofun⟩
  case deleteOrder m =>
    cases it
    case none => cases h; exact .inl ⟨rfl, rfl, rfl⟩
    case some it =>
      obtain ⟨l', _, h⟩ := Run.bind_ok h
      cases h
      exact .inr ⟨l', rfl, nofun⟩

theorem apply_lookup (h : call.apply b = .ok b') :
    b'.orderMap.lookup k = if call.key = k then call.onOrder (b.orderMap.lookup k) else b.orderMap.lookup k := by
  obtain ⟨w, hw, rfl⟩ := apply_ok_iff.mp h
  cases onSite_ok hw
  case inl hn =>
    obtain ⟨rfl, hn, ha⟩ := hn
    split
    case isFalse => rfl
    case isTrue hk =>
      cases call
      case addOrder => contradiction
      case executeOrder | deleteOrder => exact hk ▸ hn ▸ rfl
  case inr hs =>
    obtain ⟨l, rfl, _⟩ := hs
    rw [writeOpt, write_lookup]
    simp only [eq_comm (a := k)]
    split
    case isTrue hk  => rw [hk]
    case isFalse hk => rfl

theorem lookup_run (h : run calls = .ok b) : b.orderMap.lookup k = liveOrder calls k := by
  refine Run.exec_induction (I := fun pre b => b.orderMap.lookup k = liveOrder pre k) ?_ ?_ h
  case refine_1 => exact Finmap.lookup_empty k
  case refine_2 =>
    intro pre b call b' _ hi hs
    rw [apply_lookup hs, liveOrder_concat, hi]

theorem opened_concat : Opened (calls ++ [call]) id ↔ Opened calls id ∨ ∃ k, k.1 = id ∧ call.addKey? = some k := by
  have ha (k : OrderKey) : k ∈ [call].filterMap Call.addKey? ↔ call.addKey? = some k := by
    simp [List.mem_filterMap]
  simp only [Opened, List.filterMap_append, List.mem_append, and_or_left, exists_or, ha]

-- An orderbook comes into being with the first addition to it.
theorem opened_run (h : run calls = .ok b) : (b.orderbookMap.lookup id).isSome ↔ Opened calls id := by
  refine Run.exec_induction (I := fun pre b => ∀ id, (b.orderbookMap.lookup id).isSome ↔ Opened pre id) ?_ ?_ h id
  case refine_1 => exact fun id => iff_of_false (by simp) (by simp [Opened])
  case refine_2 =>
    intro pre b call b' hb hi hs id
    obtain ⟨w, hw, rfl⟩ := apply_ok_iff.mp hs
    rw [opened_concat]
    cases onSite_ok hw
    case inl hn =>
      obtain ⟨rfl, _, ha⟩ := hn
      rw [writeOpt, hi id, ha]
      simp
    case inr hs =>
      obtain ⟨l, rfl, ha⟩ := hs
      rw [writeOpt, write, Finmap.lookup_insert_apply]
      split
      case isTrue hk =>
        refine iff_of_true rfl ?_
        cases hl : b.orderMap.lookup call.key
        case none    => exact .inr ⟨call.key, hk.symm, ha hl⟩
        case some it => exact .inl ⟨call.key, hk.symm, mem_addKey_of_liveOrder (lookup_run hb ▸ hl)⟩
      case isFalse hk =>
        refine (hi id).trans (or_iff_left ?_).symm
        rintro ⟨k, rfl, hc⟩
        cases call
        case addOrder m => exact hk (Option.some.inj hc ▸ rfl)
        case executeOrder | deleteOrder => contradiction

-- The levels hold the live orders and nothing else, so the order map determines them.
theorem Sound.eq_of_orderMap (h : b.Sound b.openQty) (h' : b'.Sound b'.openQty) (hm : b.orderMap = b'.orderMap)
    (hi : ∀ id, (b.orderbookMap.lookup id).isSome ↔ (b'.orderbookMap.lookup id).isSome) : b = b' := by
  have hd : b.openQty = b'.openQty := by unfold openQty; rw [hm]
  have hl (id : UInt32) (c : SideClass) : b.levels id c = b'.levels id c :=
    (h.refines id c).unique (fun _ _ => UInt64.toNat_inj.mp) (hd ▸ h'.refines id c)
  have ho (id : UInt32) : b.orderbook id = b'.orderbook id :=
    congrArg₂ L2Orderbook.mk (hl id .bid) (hl id .ask)
  refine congrArg₂ OrderbookBuilder.mk (Finmap.ext_lookup fun id => ?_) hm
  have hid := hi id
  have hob := ho id
  rw [orderbook, orderbook] at hob
  cases hb : b.orderbookMap.lookup id <;> cases hb' : b'.orderbookMap.lookup id <;> simp_all

theorem delivered_sound (hF : WellFormed feed) (hs : calls.Subperm feed) :
    ∃ b, run calls = .ok b ∧ b.Sound b.openQty := by
  have ha : Run.Admits Call.apply {} (fun pre _ call => (pre ++ [call]).Subperm feed) calls := by
    rintro pre call post _ rfl _
    exact List.Subperm.trans ⟨_, .refl _, by simp⟩ hs
  have ⟨b, hb, h, _⟩ := (delivered_invariant hF).exec ha
  exact ⟨b, hb, h⟩

theorem run_eq {feed' : List Call} (hF : WellFormed feed) (hF' : WellFormed feed') (hs : calls.Subperm feed)
    (hs' : calls'.Subperm feed') (hl : ∀ k, liveOrder calls k = liveOrder calls' k)
    (hi : ∀ id, Opened calls id ↔ Opened calls' id) : run calls = run calls' := by
  have ⟨b, hb, h⟩ := delivered_sound hF hs
  have ⟨b', hb', h'⟩ := delivered_sound hF' hs'
  have hm : b.orderMap = b'.orderMap := by
    apply Finmap.ext_lookup
    intro k
    rw [lookup_run hb, lookup_run hb', hl k]
  have hid (id : UInt32) := (opened_run hb).trans ((hi id).trans (opened_run hb').symm)
  rw [hb, hb', h.eq_of_orderMap h' hm hid]

-- Two deliveries end in the same stores if, and only if, they leave the same order under each key and
-- have opened the same orderbooks.
theorem run_eq_iff {feed' : List Call} (hF : WellFormed feed) (hF' : WellFormed feed') (hs : calls.Subperm feed)
    (hs' : calls'.Subperm feed') :
    run calls = run calls' ↔
      (∀ k, liveOrder calls k = liveOrder calls' k) ∧ ∀ id, Opened calls id ↔ Opened calls' id := by
  refine ⟨fun he => ?_, fun h => run_eq hF hF' hs hs' h.left h.right⟩
  obtain ⟨b, hb, _⟩ := delivered_sound hF hs
  have hb' : run calls' = .ok b := he ▸ hb
  exact ⟨fun k => (lookup_run hb).symm.trans (lookup_run hb'), fun id => (opened_run hb).symm.trans (opened_run hb')⟩

theorem perm_of_keys (hk : ∀ k, calls.filter (·.key = k) = calls'.filter (·.key = k)) : calls.Perm calls' := by
  refine List.perm_iff_count.mpr fun call => ?_
  have hc {l : List Call} : l.count call = (l.filter (·.key = call.key)).count call :=
    (List.count_filter (by simp)).symm
  rw [hc, hk, ← hc]

-- How the histories of the orders are interleaved does not matter.
theorem run_eq_of_keys (hF : WellFormed feed) (hs : calls.Subperm feed)
    (hk : ∀ k, calls.filter (·.key = k) = calls'.filter (·.key = k)) : run calls = run calls' := by
  have hp := perm_of_keys hk
  refine run_eq hF hF hs (hp.symm.subperm.trans hs) (fun k => ?_) fun id => ?_
  case refine_1 => rw [liveOrder, hk, liveOrder]
  case refine_2 => simp only [Opened, (hp.filterMap Call.addKey?).mem_iff]

section Samples

def sampleFeed : List Call :=
  [.addOrder (sampleAdd 10), .addOrder otherAdd, .deleteOrder sampleDelete]

def lateFeed : List Call :=
  [.addOrder otherAdd, .addOrder (sampleAdd 10), .deleteOrder sampleDelete]

theorem sampleFeed_wellFormed : WellFormed sampleFeed where
  fresh    := by decide +kernel
  positive := by simp [sampleFeed]; decide +kernel
  executed := by simp [sampleFeed]; decide +kernel
  total    := by decide +kernel

theorem run_eq_iff_interleaved :
    run sampleFeed = run lateFeed ↔
      (∀ k, liveOrder sampleFeed k = liveOrder lateFeed k) ∧ ∀ id, Opened sampleFeed id ↔ Opened lateFeed id :=
  run_eq_iff sampleFeed_wellFormed sampleFeed_wellFormed (List.Subperm.refl _) (by decide +kernel)

end Samples

section Quotes

-- The prices at which some order is live on a side of an orderbook.
def livePrices (calls : List Call) (id : UInt32) (c : SideClass) : Set Int32 :=
  { p | ∃ k o, liveOrder calls k = some o ∧ o.place = (id, c, p) }

theorem Sound.openQty_pos_iff {c : SideClass} {p : Int32} (h : b.Sound b.openQty) :
    0 < b.openQty id c p ↔ ∃ k o, b.orderMap.lookup k = some o ∧ o.place = (id, c, p) where
  mp hp := Finmap.exists_lookup_of_weightAt_pos _ _ hp
  mpr := by
    rintro ⟨k, o, hl, hp⟩
    have hd := h.depth_pos hl
    cases hp
    exact hd

theorem Sound.live_eq {c : SideClass} (h : b.Sound b.openQty) (hb : run calls = .ok b) :
    { p | 0 < b.openQty id c p } = livePrices calls id c := by
  ext p
  have hp : 0 < b.openQty id c p ↔ _ := h.openQty_pos_iff
  simp only [lookup_run hb] at hp
  exact hp

-- The quotes are those of the live orders, and there are none unless both sides have a live order.
theorem best_prices_iff (hF : WellFormed feed) (hs : calls.Subperm feed) :
    ∃ b, run calls = .ok b ∧ ∀ id,
      (∀ bid ask, (b.orderbook id).getBestPrices = .ok (bid, ask) ↔
        IsGreatest (livePrices calls id .bid) bid ∧ IsLeast (livePrices calls id .ask) ask) ∧
      ((b.orderbook id).getBestPrices = .error .derefRend ↔
        livePrices calls id .bid = ∅ ∨ livePrices calls id .ask = ∅) := by
  obtain ⟨b, hb, h⟩ := delivered_sound hF hs
  refine ⟨b, hb, fun id => ?_⟩
  simp only [← h.live_eq hb]
  refine ⟨fun bid ask => (h.refines id).getBestPrices_iff, (h.refines id).getBestPrices_eq_error_iff.trans ?_⟩
  simp only [not_and_or, Set.eq_empty_iff_forall_notMem, not_exists]
  rfl

theorem best_prices_iff_interleaved :
    ∃ b, run lateFeed = .ok b ∧ ∀ id,
      (∀ bid ask, (b.orderbook id).getBestPrices = .ok (bid, ask) ↔
        IsGreatest (livePrices lateFeed id .bid) bid ∧ IsLeast (livePrices lateFeed id .ask) ask) ∧
      ((b.orderbook id).getBestPrices = .error .derefRend ↔
        livePrices lateFeed id .bid = ∅ ∨ livePrices lateFeed id .ask = ∅) :=
  best_prices_iff sampleFeed_wellFormed (by decide +kernel)

-- Every addition to a side that is not empty and every execution looks at its orderbook before it does
-- anything. It then reports that two live orders should have been executed against each other, or
-- that one has the highest price there is.
theorem dump_reports_iff (hF : WellFormed feed) (hs : calls.Subperm feed) :
    ∃ b, run calls = .ok b ∧ ∀ id,
      (b.orderbook id).dump ↔
        (∃ bid ∈ livePrices calls id .bid, ∃ ask ∈ livePrices calls id .ask, ask ≤ bid) ∨
          ∃ c, Int32.maxValue ∈ livePrices calls id c := by
  obtain ⟨b, hb, h⟩ := delivered_sound hF hs
  refine ⟨b, hb, fun id => (h.refines id).reports_iff.trans ?_⟩
  simp only [← h.live_eq hb, Set.mem_ofPred_eq, ← exists_and_left, and_left_comm]

theorem dump_reports_iff_interleaved :
    ∃ b, run lateFeed = .ok b ∧ ∀ id,
      (b.orderbook id).dump ↔
        (∃ bid ∈ livePrices lateFeed id .bid, ∃ ask ∈ livePrices lateFeed id .ask, ask ≤ bid) ∨
          ∃ c, Int32.maxValue ∈ livePrices lateFeed id c :=
  dump_reports_iff sampleFeed_wellFormed (by decide +kernel)

end Quotes

end OrderbookBuilder
