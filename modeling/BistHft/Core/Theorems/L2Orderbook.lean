import BistHft.Core.Theorems.Levels
import BistHft.Lib.Run
import Mathlib.Order.Bounds.Basic

namespace L2Orderbook

variable {ob : L2Orderbook} {c : SideClass}

def levels (ob : L2Orderbook) : SideClass → Levels
  | .bid => ob.bids
  | .ask => ob.asks

def setLevels (ob : L2Orderbook) : SideClass → Levels → L2Orderbook
  | .bid, levels => { ob with bids := levels }
  | .ask, levels => { ob with asks := levels }

@[simp]
theorem setLevels_levels {l : Levels} :
    (ob.setLevels c l).levels = Function.update ob.levels c l := by
  funext c'
  cases c <;> cases c' <;> rfl

-- What holds of the new side, and of the other one as it is, holds of both sides.
theorem forall_setLevels {l : Levels} {P : SideClass → Levels → Prop} (hl : P c l)
    (h : ∀ c' ≠ c, P c' (ob.levels c')) : ∀ c', P c' ((ob.setLevels c l).levels c') := by
  rw [setLevels_levels]
  exact (Function.forall_update_iff _ P).mpr ⟨hl, h⟩

@[simp]
theorem empty_levels : ({} : L2Orderbook).levels c = [] := by
  cases c <;> rfl

section Sides

-- Each public operation is the operation on the vector that the side byte selects.

variable {side : UInt8} {price : Int32} {qty : UInt64}

theorem addOrder_eq :
    ob.addOrder side price qty =
      ob.setLevels (sideClass side) ((ob.levels (sideClass side)).addOrder (sideClass side).comp price qty) := by
  unfold addOrder sideClass
  split <;> rfl

theorem deleteOrder_eq :
    ob.deleteOrder side price qty =
      (ob.levels (sideClass side)).deleteOrder price qty >>= (.ok <| ob.setLevels (sideClass side) ·) := by
  unfold deleteOrder sideClass
  split <;> rfl

theorem executeOrder_eq :
    ob.executeOrder side price qty =
      (ob.levels (sideClass side)).executeOrderImpl price qty >>=
        (.ok <| ob.setLevels (sideClass side) ·) := by
  unfold executeOrder sideClass
  split <;> rfl

theorem replaceOrder_eq {newPrice : Int32} {newQty : UInt64} :
    ob.replaceOrder side price qty newPrice newQty =
      (ob.levels (sideClass side)).replaceOrder (sideClass side).comp price qty newPrice newQty >>=
        (.ok <| ob.setLevels (sideClass side) ·) := by
  unfold replaceOrder sideClass
  split <;> rfl

end Sides

-- The abstract book: a finite map from price to quantity for each side.
abbrev Ref := SideClass → Depth

def Refines (ob : L2Orderbook) (ref : Ref) : Prop :=
  ∀ c, (ob.levels c).Represents c.comp (ref c)

namespace Refines

variable {ref : Ref} {d : Depth} {l : Levels}

theorem empty : Refines {} 0 :=
  fun c => by simpa using Levels.Represents.nil

theorem setLevels (h : ob.Refines ref) (hl : l.Represents c.comp d) :
    (ob.setLevels c l).Refines (Function.update ref c d) := by
  refine forall_setLevels (P := fun c' l => l.Represents c'.comp (Function.update ref c d c')) ?_ fun c' hc => ?_
  case refine_1 => rwa [Function.update_self]
  case refine_2 => rw [Function.update_of_ne hc]; exact h c'

theorem mem_iff {p : Int32} {q : UInt64} (h : ob.Refines ref) :
    (p, q) ∈ ob.levels c ↔ 0 < q ∧ q.toNat = ref c p := by
  constructor
  case mp =>
    intro hm
    exact ⟨(h c).pos _ hm, (h c).value hm |>.symm⟩
  case mpr =>
    intro ⟨hq, hr⟩
    have hq : 0 < q.toNat := hq
    have ⟨v, hv⟩ := (h c).exists_mem (hr ▸ hq)
    have : v.toNat = q.toNat := ((h c).value hv).symm.trans hr.symm
    exact UInt64.toNat_inj.mp this ▸ hv

-- The end of each vector is the top of its side.
theorem getBestPrices (h : ob.Refines ref) (hb : ob.bids ≠ []) (ha : ob.asks ≠ []) :
    ∃ bid ask, ob.getBestPrices = .ok (bid, ask) ∧ IsGreatest { p | 0 < ref .bid p } bid ∧
      IsLeast { p | 0 < ref .ask p } ask := by
  have ⟨bids, ⟨bid, q₁⟩, hbids⟩ := List.eq_nil_or_concat' ob.bids |>.resolve_left hb
  have ⟨asks, ⟨ask, q₂⟩, hasks⟩ := List.eq_nil_or_concat' ob.asks |>.resolve_left ha
  have hB : Levels.Represents (· < ·) (bids ++ [(bid, q₁)]) (ref .bid) := hbids ▸ h .bid
  have hA : Levels.Represents (· > ·) (asks ++ [(ask, q₂)]) (ref .ask) := hasks ▸ h .ask
  refine ⟨bid, ask, ?_, ⟨hB.last.left, fun p hp => ?_⟩, ⟨hA.last.left, fun p hp => ?_⟩⟩
  · simp [L2Orderbook.getBestPrices, Levels.deref?, hbids, hasks]
  · by_cases he : p = bid
    case pos => exact he ▸ Int32.le_refl _
    case neg => exact Int32.le_of_lt <| hB.last.right p hp he
  · by_cases he : p = ask
    case pos => exact he ▸ Int32.le_refl _
    case neg => exact Int32.le_of_lt <| hA.last.right p hp he

end Refines

-- A call of one of the four public operations that change the book.
inductive Op
  | add (side : UInt8) (price : Int32) (qty : UInt64)
  | delete (side : UInt8) (price : Int32) (qty : UInt64)
  | execute (side : UInt8) (price : Int32) (qty : UInt64)
  | replace (side : UInt8) (oldPrice : Int32) (oldQty : UInt64) (newPrice : Int32) (newQty : UInt64)

namespace Op

def side : Op → UInt8
  | add side .. | delete side .. | execute side .. | replace side .. => side

def apply (ob : L2Orderbook) : Op → Except Fault L2Orderbook
  | add side price qty                             => .ok (ob.addOrder side price qty)
  | delete side price qty                          => ob.deleteOrder side price qty
  | execute side price qty                         => ob.executeOrder side price qty
  | replace side oldPrice oldQty newPrice newQty => ob.replaceOrder side oldPrice oldQty newPrice newQty

-- What the operation means for the map of its side.
def onDepth (d : Depth) : Op → Depth
  | add _ price qty                             => d.add price qty.toNat
  | delete _ price qty | execute _ price qty    => d.remove price qty.toNat
  | replace _ oldPrice oldQty newPrice newQty => (d.remove oldPrice oldQty.toNat).add newPrice newQty.toNat

def onRef (ref : Ref) (op : Op) : Ref :=
  Function.update ref (sideClass op.side) (op.onDepth <| ref <| sideClass op.side)

-- A removal names a price whose level exists with at least the removed quantity, what is added is
-- positive, and no total reaches 2^64.
structure Admissible (d : Depth) (op : Op) : Prop where
  removal : match op with
    | add ..                                                      => True
    | delete _ p q | execute _ p q | replace _ p q _ _ => 0 < d p ∧ q.toNat ≤ d p
  added : match op with
    | add _ _ q | replace _ _ _ _ q => 0 < q
    | delete .. | execute ..        => True
  fits : ∀ p, op.onDepth d p < 2 ^ 64

variable {ref : Ref} {op : Op}

theorem apply_refines (h : ob.Refines ref) (ha : op.Admissible (ref <| sideClass op.side)) :
    ∃ ob', op.apply ob = .ok ob' ∧ ob'.Refines (op.onRef ref) ∧
      ∀ c, c ≠ sideClass op.side → ob'.levels c = ob.levels c := by
  have key {l : Levels} (hl : l.Represents (sideClass op.side).comp (op.onDepth <| ref <| sideClass op.side))
      (he : op.apply ob = .ok (ob.setLevels (sideClass op.side) l)) :
      ∃ ob', op.apply ob = .ok ob' ∧ ob'.Refines (op.onRef ref) ∧
        ∀ c, c ≠ sideClass op.side → ob'.levels c = ob.levels c :=
    ⟨_, he, h.setLevels hl, fun c hc => by simp [hc]⟩
  have hs := h (sideClass op.side)
  cases op
  case add side price qty =>
    have hf := ha.fits price
    simp only [onDepth, Depth.add, Function.update_self] at hf
    exact key (hs.addOrder ha.added hf) (congrArg Except.ok addOrder_eq)
  case delete side price qty =>
    obtain ⟨_, he, hl⟩ := hs.deleteOrder ha.removal.left ha.removal.right
    exact key hl <| by simp only [apply, deleteOrder_eq]; exact he ▸ rfl
  case execute side price qty =>
    obtain ⟨_, he, hl⟩ := hs.executeOrderImpl ha.removal.left ha.removal.right
    exact key hl <| by simp only [apply, executeOrder_eq]; exact he ▸ rfl
  case replace side oldPrice oldQty newPrice newQty =>
    have hf := ha.fits newPrice
    simp only [onDepth] at hf
    rw [Depth.add, Function.update_self] at hf
    obtain ⟨_, he, hl⟩ := hs.replaceOrder ha.removal.left ha.removal.right ha.added hf
    exact key hl <| by simp only [apply, replaceOrder_eq]; exact he ▸ rfl

end Op

section Runs

variable {ops pre : List Op}

-- The abstract book after a sequence of operations, starting from two empty maps.
def refAfter (ops : List Op) : Ref :=
  ops.foldl (fun ref op => op.onRef ref) 0

theorem refAfter_concat {op : Op} : refAfter (ops ++ [op]) = op.onRef (refAfter ops) := by
  simp [refAfter]

def AdmissibleOps (ops : List Op) : Prop :=
  ∀ pre op post, ops = pre ++ op :: post → op.Admissible (refAfter pre <| sideClass op.side)

theorem AdmissibleOps.concat {op : Op} (h : AdmissibleOps ops)
    (ha : op.Admissible (refAfter ops <| sideClass op.side)) : AdmissibleOps (ops ++ [op]) := by
  intro pre op' post he
  cases post using List.reverseRecOn
  case nil =>
    have ⟨h₁, h₂⟩ := List.append_inj' he rfl
    cases h₁; cases h₂; exact ha
  case append_singleton post op'' _ =>
    rw [← List.cons_append, ← List.append_assoc] at he
    exact h pre op' post (List.append_inj' he rfl).left

theorem ops_invariant :
    Run.Invariant Op.apply {} (fun pre _ op => op.Admissible (refAfter pre <| sideClass op.side))
      (fun pre ob => ob.Refines (refAfter pre)) where
  init := .empty
  next := by
    intro pre ob op h ha
    have ⟨ob', he, hr, _⟩ := op.apply_refines h ha
    exact ⟨ob', he, refAfter_concat ▸ hr⟩

-- What it means for the two vectors to represent a pair of maps.
structure Agrees (ob : L2Orderbook) (ref : Ref) : Prop where
  bids_increasing : ob.bids.Pairwise fun a b => a.1 < b.1
  asks_decreasing : ob.asks.Pairwise fun a b => a.1 > b.1
  nonzero         : ∀ c, ∀ level ∈ ob.levels c, level.2 ≠ 0
  mem_iff         : ∀ c p q, (p, q) ∈ ob.levels c ↔ 0 < q ∧ q.toNat = ref c p
  exists_iff      : ∀ c p, (∃ q, (p, q) ∈ ob.levels c) ↔ 0 < ref c p
  best            : ob.bids ≠ [] → ob.asks ≠ [] → ∃ bid ask, ob.getBestPrices = .ok (bid, ask) ∧
    IsGreatest { p | 0 < ref .bid p } bid ∧ IsLeast { p | 0 < ref .ask p } ask

theorem Refines.agrees {ref : Ref} (h : ob.Refines ref) : ob.Agrees ref where
  bids_increasing   := (h .bid).ordered
  asks_decreasing   := (h .ask).ordered
  nonzero c l hl hz := ((h c).pos l hl).ne' (by simp [hz])
  mem_iff _ _ _     := h.mem_iff
  exists_iff c _    := (h c).mem_iff
  best              := h.getBestPrices

theorem ops_refine (h : AdmissibleOps ops) (hp : pre <+: ops) :
    ∃ ob, Run.exec Op.apply {} pre = .ok ob ∧ ob.Agrees (refAfter pre) ∧
      ∀ init op, pre = init ++ [op] → ∃ ob₀, Run.exec Op.apply {} init = .ok ob₀ ∧
        ∀ c, c ≠ sideClass op.side → ob.levels c = ob₀.levels c := by
  have hr {pre} (hp : pre <+: ops) := ops_invariant.exec_restrict (fun pre op post _ he _ => h pre op post he) hp
  have ⟨ob, he, hob⟩ := hr hp
  refine ⟨ob, he, hob.agrees, fun init op hi => ?_⟩
  subst hi
  have ⟨ob₀, he₀, hob₀⟩ := hr <| (List.prefix_append ..).trans hp
  have ⟨post, hpost⟩ := hp
  have ⟨ob', he', _, hs⟩ := op.apply_refines hob₀ <| h init op post (by simp [← hpost])
  have : ob' = ob := by
    rw [Run.exec_snoc_of_ok he₀, he'] at he
    exact Except.ok.inj he
  exact ⟨ob₀, he₀, this ▸ hs⟩

theorem ops_refine_replace :
    ∃ ob, Run.exec Op.apply {} [.add 66 10 5, .replace 66 10 5 11 3] = .ok ob ∧
      ob.Agrees (refAfter [.add 66 10 5, .replace 66 10 5 11 3]) ∧
      ∀ init op, [.add 66 10 5, .replace 66 10 5 11 3] = init ++ [op] →
        ∃ ob₀, Run.exec Op.apply {} init = .ok ob₀ ∧
          ∀ c, c ≠ sideClass op.side → ob.levels c = ob₀.levels c := by
  have h₀ : AdmissibleOps [] := fun pre op post h => by simp at h
  have h₁ : AdmissibleOps [.add 66 10 5] := h₀.concat {
    removal := trivial
    added   := by decide
    fits p  := by
      simp only [Op.onDepth, Depth.add, Function.update_apply, refAfter, List.foldl_nil, Pi.zero_apply]
      split <;> decide
  }
  have h₂ : AdmissibleOps [.add 66 10 5, .replace 66 10 5 11 3] := h₁.concat {
    removal := by decide
    added   := by decide
    fits p  := by
      simp only [Op.onDepth, Depth.add, Depth.remove, refAfter, Op.onRef, Op.side, Function.update_apply,
        List.foldl_cons, List.foldl_nil, Pi.zero_apply, if_true]
      split
      · decide
      · split <;> decide
  }
  exact ops_refine h₂ (List.prefix_refl _)

end Runs

end L2Orderbook
