import Mathlib.Data.Int.Notation

-- The JSON library, as far as it is used. It is not part of the repository, so all that is known of it is
-- what the classes say.

class Json (α : Type) where
  Text            : Type
  -- what it throws, or what becomes of an `operator[]` that asks a constant value for a member that is not there
  Error           : Type
  -- `file >> j`, with no result if this throws
  parse           : Text → Option α
  -- `j.dump(4)`, for a `json j` to which `j[key] = n` has been done
  dump            : α → Text
  ofMember        : String → UInt32 → α
  contains        : α → String → Bool
  -- `value[key]`
  member          : α → String → Except Error α
  -- what a loop over the value goes through
  elements        : α → List α
  isNumberInteger : α → Bool
  -- `get` and the conversion of a value to the type that it is assigned to
  getBool         : α → Except Error Bool
  getString       : α → Except Error (List UInt8)
  getUInt16       : α → Except Error UInt16
  getUInt32       : α → Except Error UInt32
  getInt32        : α → Except Error Int32

class LawfulJson (α : Type) [Json α] : Prop where
  -- `contains` is true of the keys that `operator[]` finds
  contains_iff (value : α) (key : String) : Json.contains value key ↔ ∃ v, Json.member value key = .ok v

class PersistentJson (α : Type) [Json α] : Prop extends LawfulJson α where
  -- a document with one number is read as it was written
  parse_dump (key : String) (n : UInt32) :
    Json.parse (Json.dump (Json.ofMember key n : α)) = some (Json.ofMember key n : α)
  -- and the number is found under its key
  member_ofMember (key : String) (n : UInt32) : ∃ v : α,
    Json.member (Json.ofMember key n) key = .ok v ∧ Json.isNumberInteger v ∧ Json.getUInt32 v = .ok n

namespace Json

variable {α : Type} [Json α] {β : Type} {get : α → Except (Error α) β} {value : α} {key : String} {x : β}

-- The value has a member under the key that is converted to `x`.
def Has (get : α → Except (Error α) β) (value : α) (key : String) (x : β) : Prop :=
  ∃ v, member value key = .ok v ∧ get v = .ok x

theorem Has.contains [LawfulJson α] (h : Has get value key x) : Json.contains value key := by
  obtain ⟨v, hv, _⟩ := h
  exact (LawfulJson.contains_iff value key).mpr ⟨v, hv⟩

end Json

section Samples

-- What the library does on the documents of the samples, in which no number has a fraction. The members of
-- an object are given in the order of their keys, and a text is represented by the document that it spells.
inductive SampleJson
  | null
  | boolean (b : Bool)
  | number (n : ℤ)
  | string (s : List UInt8)
  | array (elements : List SampleJson)
  | object (members : List (String × SampleJson))

namespace SampleJson

inductive Error
  | typeError
  | missingMember
  deriving DecidableEq

def contains (value : SampleJson) (key : String) : Bool :=
  match value with
  | object members                                   => (members.lookup key).isSome
  | null | boolean _ | number _ | string _ | array _ => false

def member (value : SampleJson) (key : String) : Except Error SampleJson :=
  match value with
  | object members                                   => (members.lookup key).elim (.error .missingMember) .ok
  | null | boolean _ | number _ | string _ | array _ => .error .typeError

def elements : SampleJson → List SampleJson
  | null           => []
  | array elements => elements
  | object members => members.map (·.2)
  | boolean b      => [boolean b]
  | number n       => [number n]
  | string s       => [string s]

def isNumberInteger : SampleJson → Bool
  | number _                                           => true
  | null | boolean _ | string _ | array _ | object _ => false

def getBool : SampleJson → Except Error Bool
  | boolean b                                         => .ok b
  | null | number _ | string _ | array _ | object _ => .error .typeError

def getString : SampleJson → Except Error (List UInt8)
  | string s                                           => .ok s
  | null | boolean _ | number _ | array _ | object _ => .error .typeError

-- What is cast to the type that is asked for.
def getInteger : SampleJson → Except Error ℤ
  | number n                               => .ok n
  | boolean b                              => .ok b.toInt
  | null | string _ | array _ | object _ => .error .typeError

theorem ofInt_toNat {n : UInt32} : UInt32.ofInt n.toNat = n := by
  have hn := n.toNat_lt
  rw [UInt32.ofInt, ← UInt32.toNat_inj, UInt32.toNat_ofNat']
  omega

end SampleJson

instance : Json SampleJson where
  Text            := SampleJson
  Error           := SampleJson.Error
  parse           := some
  dump            := id
  ofMember key n  := .object [(key, .number n.toNat)]
  contains        := SampleJson.contains
  member          := SampleJson.member
  elements        := SampleJson.elements
  isNumberInteger := SampleJson.isNumberInteger
  getBool         := SampleJson.getBool
  getString       := SampleJson.getString
  getUInt16 value := .ofInt <$> value.getInteger
  getUInt32 value := .ofInt <$> value.getInteger
  getInt32 value  := .ofInt <$> value.getInteger

instance : PersistentJson SampleJson where
  contains_iff value key := by
    change value.contains key ↔ ∃ v, value.member key = .ok v
    cases value
    case object members =>
      rw [SampleJson.contains, SampleJson.member]
      cases members.lookup key <;> simp
    all_goals simp [SampleJson.contains, SampleJson.member]
  parse_dump _ _ := rfl
  member_ofMember key n := by
    refine ⟨.number n.toNat, ?_, rfl, congrArg Except.ok SampleJson.ofInt_toNat⟩
    change (List.lookup key [(key, _)]).elim _ _ = _
    rw [List.lookup_cons_self, Option.elim_some]

end Samples
