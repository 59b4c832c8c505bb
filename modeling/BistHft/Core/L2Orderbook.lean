import BistHft.Basic
import BistHft.Lib.KeyedList

-- A side of the book: price and quantity of each level, with the top of the book at the end.
abbrev Levels := List (Int32 × UInt64)

namespace Levels

-- A reverse iterator is given by the position of its base, so `rend()` is 0 and `rbegin()` is the
-- number of levels.
def getLevel (levels : Levels) (price : Int32) : ℕ :=
  levels.rfindBase (·.1 = price)

-- `*iter`, which does not exist for `rend()`.
def deref? (levels : Levels) (iter : ℕ) : Option (Int32 × UInt64) :=
  if iter = 0 then none else levels[iter - 1]?

-- `iter->second = qty`
def store (levels : Levels) (iter : ℕ) (qty : UInt64) : Levels :=
  levels.modify (iter - 1) fun level => (level.1, qty)

-- `auto it = iter.base(); --it; levels.erase(it);`
def eraseLevel (levels : Levels) (iter : ℕ) : Levels :=
  levels.eraseIdx (iter - 1)

-- The loop for a new price stops at the first level (from the top) that `comp` puts below it and
-- inserts at the base of that iterator. If there is none the loop ends in `rend()` and the level
-- is inserted at `begin()`, the base of `rend()`.
def insertLevel (comp : Int32 → Int32 → Prop) [DecidableRel comp] (levels : Levels) (price : Int32)
    (qty : UInt64) : Levels :=
  levels.insertIdx (levels.rfindBase fun level => comp level.1 price) (price, qty)

def addOrder (comp : Int32 → Int32 → Prop) [DecidableRel comp] (levels : Levels) (price : Int32)
    (qty : UInt64) : Levels :=
  if levels.isEmpty then
    [(price, qty)]
  else
    let iter := levels.getLevel price
    match levels.deref? iter with
    | some level =>
      if level.1 = price then levels.store iter (level.2 + qty) else levels.insertLevel comp price qty
    | none => levels.insertLevel comp price qty

def deleteOrder (levels : Levels) (price : Int32) (qty : UInt64) : Except Fault Levels :=
  let iter := levels.getLevel price
  match levels.deref? iter with
  | some level =>
    if level.1 = price then
      let left := level.2 - qty
      let levels := levels.store iter left
      if left ≤ 0 then .ok (levels.eraseLevel iter) else .ok levels
    else
      .error .exit42
  | none => .error .exit42

-- `EXPECT` only logs, so the iterator is read whether or not the level exists.
def replaceOrder (comp : Int32 → Int32 → Prop) [DecidableRel comp] (levels : Levels)
    (oldPrice : Int32) (oldQty : UInt64) (newPrice : Int32) (newQty : UInt64) :
    Except Fault Levels :=
  let iter := levels.getLevel oldPrice
  match levels.deref? iter with
  | some level =>
    if oldPrice = newPrice then
      .ok (levels.store iter (level.2 - oldQty + newQty))
    else
      let levels :=
        if level.2 > oldQty then levels.store iter (level.2 - oldQty) else levels.eraseLevel iter
      .ok (levels.addOrder comp newPrice newQty)
  | none => .error .derefRend

def executeOrderImpl (levels : Levels) (price : Int32) (qty : UInt64) : Except Fault Levels :=
  let iter := levels.getLevel price
  match levels.deref? iter with
  | some level =>
    if level.2 > qty then .ok (levels.store iter (level.2 - qty)) else .ok (levels.eraseLevel iter)
  | none => .error .derefRend

end Levels

-- The source tests a side byte against 'B' only, every other byte stands for the asks.
inductive SideClass
  | bid
  | ask
  deriving DecidableEq, Repr

def sideClass (side : UInt8) : SideClass :=
  if side = 'B'.toUInt8 then .bid else .ask

-- `std::less` for the bids and `std::greater` for the asks.
def SideClass.comp : SideClass → Int32 → Int32 → Prop
  | bid => (· < ·)
  | ask => (· > ·)

instance : (c : SideClass) → DecidableRel c.comp
  | .bid => fun a b => inferInstanceAs (Decidable (a < b))
  | .ask => fun a b => inferInstanceAs (Decidable (a > b))

instance : (c : SideClass) → IsStrictTotalOrder Int32 c.comp
  | .bid => inferInstanceAs (IsStrictTotalOrder Int32 (· < ·))
  | .ask => inferInstanceAs (IsStrictTotalOrder Int32 (· > ·))

structure L2Orderbook where
  bids : Levels := []
  asks : Levels := []
  deriving DecidableEq

namespace L2Orderbook

def addOrder (ob : L2Orderbook) (side : UInt8) (price : Int32) (qty : UInt64) : L2Orderbook :=
  if side = 'B'.toUInt8 then
    { ob with bids := ob.bids.addOrder (· < ·) price qty }
  else
    { ob with asks := ob.asks.addOrder (· > ·) price qty }

def deleteOrder (ob : L2Orderbook) (side : UInt8) (price : Int32) (qty : UInt64) :
    Except Fault L2Orderbook :=
  if side = 'B'.toUInt8 then
    return { ob with bids := ← ob.bids.deleteOrder price qty }
  else
    return { ob with asks := ← ob.asks.deleteOrder price qty }

def replaceOrder (ob : L2Orderbook) (side : UInt8) (oldPrice : Int32) (oldQty : UInt64)
    (newPrice : Int32) (newQty : UInt64) : Except Fault L2Orderbook :=
  if side = 'B'.toUInt8 then
    return { ob with bids := ← ob.bids.replaceOrder (· < ·) oldPrice oldQty newPrice newQty }
  else
    return { ob with asks := ← ob.asks.replaceOrder (· > ·) oldPrice oldQty newPrice newQty }

def executeOrder (ob : L2Orderbook) (side : UInt8) (price : Int32) (qty : UInt64) :
    Except Fault L2Orderbook :=
  if side = 'B'.toUInt8 then
    return { ob with bids := ← ob.bids.executeOrderImpl price qty }
  else
    return { ob with asks := ← ob.asks.executeOrderImpl price qty }

-- `{ m_bids.rbegin()->first, m_asks.rbegin()->first }`
def getBestPrices (ob : L2Orderbook) : Except Fault (Int32 × Int32) :=
  match ob.bids.deref? ob.bids.length, ob.asks.deref? ob.asks.length with
  | some bid, some ask => .ok (bid.1, ask.1)
  | _, _               => .error .derefRend

-- The body of the loops of `Dump`: the price of the level before, and whether something was bad so far.
def dumpLevel : Int32 × Bool → Int32 × UInt64 → Int32 × Bool
  | (prevPrice, bad), (price, qty) => (price, bad || prevPrice ≤ price || qty = 0)

-- Whether `Dump` reports a bad orderbook. The first loop ends at the best ask and the second one begins
-- at the best bid.
def dump (ob : L2Orderbook) : Bool :=
  (ob.bids.reverse.foldl dumpLevel (ob.asks.foldl dumpLevel (Int32.maxValue, false))).2

end L2Orderbook
