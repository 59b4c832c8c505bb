import BistHft.Protocol.Ouch
import BistHft.Utility.Json
import Mathlib.Data.List.Defs
import Mathlib.Logic.Function.Basic

-- The orders of one OUCH session. The record of an order is found by the number in its token.

def ordersSize : ℕ := 1 <<< 10

structure Order where
  quantity    : UInt64 := 0
  orderbookId : UInt32 := 0
  price       : Int32 := 0
  side        : UInt8 := 0
  isValid     : Bool := true
  deriving DecidableEq

-- `c - '0'` for a signed character, and `'0' + d` as it is stored in one

def charDigit (c : UInt8) : Int32 :=
  c.toInt8.toInt32 - '0'.toNat.toInt32

def digitChar (d : Int32) : UInt8 :=
  ('0'.toNat.toInt32 + d).toInt8.toUInt8

namespace OrderToken

-- The loop of the constructor, which fills the last `n` characters.
def digits : ℕ → Int32 → List UInt8
  | 0,     _     => []
  | n + 1, index => digits n (index / 10) ++ [digitChar (index % 10)]

theorem digits_length {n : ℕ} {index : Int32} : (digits n index).length = n := by
  induction n generalizing index
  case zero    => rfl
  case succ hi => rw [digits, List.length_append, hi, List.length_singleton]

def ofIndex (index : Int32) : OrderToken :=
  ⟨digits 14 index, digits_length⟩

-- The body of the loop that counts a token up. It runs from the last character to the first.
def count (c : UInt8) (carry : Int32) : Int32 × UInt8 :=
  (if c = '9'.toUInt8 then 1 else 0, digitChar ((charDigit c + carry) % 10))

def next (token : OrderToken) : OrderToken :=
  ⟨(token.val.mapAccumr count 1).2, by rw [List.length_mapAccumr, token.property]⟩

end OrderToken

-- The read of an element that a vector does not have.
structure OutOfBounds where
  deriving DecidableEq

structure OrderManager where
  orders                      : Fin ordersSize → Order := fun _ => {}
  token                       : OrderToken
  originalToReplacementTokens : List (OrderToken × OrderToken) := []

def parseOrderTokenDecimal (token : OrderToken) : UInt64 :=
  token.val.foldl (fun index c => index * 10 + (charDigit c).toInt64.toUInt64) 0

namespace OrderManager

def ofLastOrderTokenIndex (lastOrderTokenIndex : UInt32) : OrderManager where
  token := .ofIndex (lastOrderTokenIndex + 1).toInt32

-- What the destructor saves, and the file in which it does so.

def lastUsedOrderTokenIndex (m : OrderManager) : UInt32 :=
  m.token.val.foldl (fun tokenIndex c => tokenIndex * 10 + (charDigit c).toUInt32) 0

def appParameters (α : Type) [Json α] (m : OrderManager) : Json.Text α :=
  Json.dump (Json.ofMember "last_used_order_token_index" m.lastUsedOrderTokenIndex : α)

-- The pointer to a record is the index of the record.
def getOrder (token : OrderToken) : Option (Fin ordersSize) :=
  let index := parseOrderTokenDecimal token
  if h : index.toNat < ordersSize then some ⟨index.toNat, h⟩ else none

-- A change of the record that the token leads to, if there is one.
def modify (m : OrderManager) (token : OrderToken) (f : Order → Order) : OrderManager :=
  match getOrder token with
  | none   => m
  | some i => { m with orders := Function.update m.orders i (f <| m.orders i) }

def orderAccepted (m : OrderManager) (token : OrderToken) (quantity : UInt64) (orderbookId : UInt32)
    (price : Int32) (side : UInt8) : OrderManager :=
  m.modify token fun order => { order with quantity, orderbookId, price, side }

def orderExecuted (m : OrderManager) (token : OrderToken) (tradedQty : UInt64) : OrderManager :=
  m.modify token fun order =>
    let order := { order with quantity := order.quantity - tradedQty }
    if order.quantity = 0 then { order with isValid := false } else order

def orderDeleted (m : OrderManager) (token : OrderToken) : OrderManager :=
  m.modify token fun order => { order with isValid := false }

def pendingReplace (m : OrderManager) (originalOrderToken replacementOrderToken : OrderToken) : OrderManager :=
  { m with originalToReplacementTokens :=
      m.originalToReplacementTokens ++ [(originalOrderToken, replacementOrderToken)] }

-- The loop of `orderReplaced`, with `i + 1` as its argument. Every unsigned `i` is `>= 0`, so behind the
-- first pair the loop goes on at the largest index there is.
def findOriginal (pairs : List (OrderToken × OrderToken)) (replacementToken : OrderToken) :
    ℕ → Except OutOfBounds OrderToken
  | 0     => .error {}
  | i + 1 =>
    match pairs[i]? with
    | none                         => .error {}
    | some (original, replacement) =>
      if replacement = replacementToken then .ok original else findOriginal pairs replacementToken i

-- `original_order_token.empty()` asks for the size of an array, which is 14.
def orderReplaced (m : OrderManager) (replacementToken : OrderToken) (price : Int32) :
    Except OutOfBounds OrderManager := do
  let originalOrderToken ← findOriginal m.originalToReplacementTokens replacementToken
    m.originalToReplacementTokens.length
  return m.modify originalOrderToken fun order => { order with price }

-- The token that is returned is the one that is kept.
def nextToken (m : OrderManager) : OrderManager :=
  { m with token := m.token.next }

end OrderManager
