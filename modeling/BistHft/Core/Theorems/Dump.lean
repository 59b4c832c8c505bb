import BistHft.Core.L2Orderbook
import Mathlib.Data.List.Chain
import Mathlib.Tactic.Tauto

-- The health check of the orderbook. It takes the price before the first one to be `INT_MAX`.

namespace L2Orderbook

variable {ob : L2Orderbook} {levels : Levels} {prevPrice : Int32} {bad : Bool}

-- What can be wrong with the sides. The top of each is at the end.
inductive Bad (ob : L2Orderbook) : Prop
  | asks (unordered : ¬ob.asks.Pairwise (·.1 > ·.1))
  | bids (unordered : ¬ob.bids.Pairwise (·.1 < ·.1))
  | empty (level : Int32 × UInt64) (mem : level ∈ ob.asks ++ ob.bids) (zero : level.2 = 0)
  | crossed (bid ask : Int32 × UInt64) (bestBid : ob.bids.getLast? = some bid)
    (bestAsk : ob.asks.getLast? = some ask) (not_below : ¬bid.1 < ask.1)

-- The levels from the worst ask to the worst bid, which is how they are gone through.
def ladder (ob : L2Orderbook) : Levels :=
  ob.asks ++ ob.bids.reverse

-- The first price to be looked at is `INT_MAX`.
def BeginsAtMax (ob : L2Orderbook) : Prop :=
  ∃ level, ob.ladder.head? = some level ∧ level.1 = Int32.maxValue

abbrev Above (level level' : Int32 × UInt64) : Prop :=
  level.1 > level'.1

instance : Trans Above Above Above where
  trans h h' := Int32.lt_trans h' h

section Ladder

theorem foldl_dumpLevel : (levels.foldl dumpLevel (prevPrice, bad)).2 = false ↔
    bad = false ∧ (∀ level ∈ levels, level.2 ≠ 0) ∧ (∀ level ∈ levels.head?, level.1 < prevPrice) ∧
      levels.IsChain Above := by
  induction levels generalizing prevPrice bad
  case nil => simp
  case cons level levels hi =>
    have hb : (bad || prevPrice ≤ level.1 || level.2 = 0) = false ↔ bad = false ∧ level.1 < prevPrice ∧ level.2 ≠ 0 := by
      simp [and_assoc]
    have hd : dumpLevel (prevPrice, bad) level = (level.1, bad || prevPrice ≤ level.1 || level.2 = 0) := rfl
    rw [List.foldl_cons, hd, hi, hb, List.isChain_cons, List.forall_mem_cons]
    simp only [List.head?_cons, Option.mem_some_iff, forall_eq']
    tauto

theorem dump_eq_false_iff : ob.dump = false ↔
    (∀ level ∈ ob.ladder, level.2 ≠ 0) ∧ (∀ level ∈ ob.ladder.head?, level.1 < Int32.maxValue) ∧
      ob.ladder.IsChain Above := by
  have hd : ob.dump = (ob.ladder.foldl dumpLevel (Int32.maxValue, false)).2 := by
    rw [ladder, List.foldl_append, dump]
  rw [hd, foldl_dumpLevel, and_iff_right rfl]

-- Where the two loops meet, the best ask comes before the best bid.
theorem ladder_isChain_iff : ob.ladder.IsChain Above ↔
    ob.asks.Pairwise (·.1 > ·.1) ∧ ob.bids.Pairwise (·.1 < ·.1) ∧
      ∀ bid ask, ob.bids.getLast? = some bid → ob.asks.getLast? = some ask → bid.1 < ask.1 := by
  have hc : (∀ ask ∈ ob.asks.getLast?, ∀ bid ∈ ob.bids.reverse.head?, Above ask bid) ↔
      ∀ bid ask, ob.bids.getLast? = some bid → ob.asks.getLast? = some ask → bid.1 < ask.1 := by
    rw [List.head?_reverse]
    exact ⟨fun h bid ask hb ha => h ask ha bid hb, fun h ask ha bid hb => h bid ask hb ha⟩
  rw [ladder, List.isChain_append, hc, List.isChain_iff_pairwise, List.isChain_iff_pairwise, List.pairwise_reverse]

theorem not_bad_iff : ¬ob.Bad ↔ (∀ level ∈ ob.ladder, level.2 ≠ 0) ∧ ob.ladder.IsChain Above := by
  have hm level : level ∈ ob.ladder ↔ level ∈ ob.asks ++ ob.bids := by simp [ladder]
  rw [ladder_isChain_iff]
  constructor
  case mp =>
    intro h
    refine ⟨fun level hl hz => h <| .empty level ((hm level).mp hl) hz, ?_, ?_, ?_⟩
    case refine_1 => exact not_not.mp fun hn => h (.asks hn)
    case refine_2 => exact not_not.mp fun hn => h (.bids hn)
    case refine_3 => exact fun bid ask hb ha => not_not.mp fun hn => h (.crossed bid ask hb ha hn)
  case mpr =>
    rintro ⟨hz, ha, hb, hc⟩ h
    cases h
    case asks hn                    => exact hn ha
    case bids hn                    => exact hn hb
    case empty level hl hz'         => exact hz level ((hm level).mpr hl) hz'
    case crossed bid ask hb' ha' hn => exact hn (hc bid ask hb' ha')

theorem not_beginsAtMax_iff : ¬ob.BeginsAtMax ↔ ∀ level ∈ ob.ladder.head?, level.1 < Int32.maxValue := by
  have hlt (price : Int32) : price ≠ Int32.maxValue ↔ price < Int32.maxValue :=
    ⟨Int32.lt_of_le_of_ne (Int32.le_maxValue _), Int32.ne_of_lt⟩
  simp only [BeginsAtMax, not_exists, not_and, Option.mem_def, ← hlt, ne_eq]

end Ladder

theorem dump_iff : ob.dump ↔ ob.Bad ∨ ob.BeginsAtMax := by
  have hf : ob.dump = false ↔ ¬ob.Bad ∧ ¬ob.BeginsAtMax := by
    rw [dump_eq_false_iff, not_bad_iff, not_beginsAtMax_iff]
    tauto
  rw [← not_iff_not, not_or, ← hf, Bool.not_eq_true]

-- The report is right unless the sentinel is the price of a level and nothing else is wrong.
theorem dump_exact_iff : (ob.dump ↔ ob.Bad) ↔ (ob.BeginsAtMax → ob.Bad) := by
  rw [dump_iff]
  tauto

-- An ask at `INT_MAX` and nothing else.
theorem lone_max_ask_reported :
    L2Orderbook.dump { asks := [(Int32.maxValue, 5)] } = true ∧ ¬Bad { asks := [(Int32.maxValue, 5)] } := by
  have hz : (5 : UInt64) ≠ 0 := by decide
  exact ⟨by decide, not_bad_iff.mpr ⟨List.forall_mem_singleton.mpr hz, .singleton _⟩⟩

end L2Orderbook
