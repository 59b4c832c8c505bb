import BistHft.Core.Theorems.OrderManager
import BistHft.Lib.KeyedList
import BistHft.Lib.Run

-- What the updates do to the records, and the search for the order that has been replaced.

namespace OrderManager

variable {m m' : OrderManager} {o t : OrderToken} {price : Int32} {pairs pre post : List (OrderToken × OrderToken)}

section FindOriginal

-- The order that this one has replaced, by the pair that was recorded last.
def LastRecorded (pairs : List (OrderToken × OrderToken)) (replacementToken original : OrderToken) : Prop :=
  ∃ pre post, pairs = pre ++ (original, replacementToken) :: post ∧ ∀ pair ∈ post, pair.2 ≠ replacementToken

theorem LastRecorded.mem (h : LastRecorded pairs t o) : (o, t) ∈ pairs := by
  obtain ⟨pre, post, rfl, _⟩ := h
  exact List.mem_append_right _ List.mem_cons_self

-- The search goes past the pairs with other replacements.
theorem findOriginal_skip (pre : List (OrderToken × OrderToken)) {n : ℕ} (h : ∀ pair ∈ post, pair.2 ≠ t) (hn : n ≤ post.length) :
    findOriginal (pre ++ post) t (pre.length + n) = findOriginal (pre ++ post) t pre.length := by
  induction n
  case zero => rfl
  case succ n hi =>
    have hp : (pre ++ post)[pre.length + n]? = some post[n] := by
      rw [List.getElem?_append_right (Nat.le_add_right ..), Nat.add_sub_cancel_left, List.getElem?_eq_getElem hn]
    rw [← Nat.add_assoc, findOriginal, hp]
    simp only [if_neg (h _ (List.getElem_mem hn))]
    exact hi (Nat.le_of_succ_le hn)

theorem findOriginal_of_forall_ne (h : ∀ pair ∈ pairs, pair.2 ≠ t) :
    findOriginal pairs t pairs.length = .error {} := by
  have hs := findOriginal_skip [] h (Nat.le_refl _)
  rwa [List.nil_append, List.length_nil, Nat.zero_add] at hs

theorem findOriginal_of_lastRecorded (h : LastRecorded pairs t o) : findOriginal pairs t pairs.length = .ok o := by
  obtain ⟨pre, post, rfl, hpost⟩ := h
  have hl : (pre ++ (o, t) :: post).length = (pre ++ [(o, t)]).length + post.length := by simp; omega
  have hs := findOriginal_skip (pre ++ [(o, t)]) hpost (Nat.le_refl _)
  rw [List.append_assoc, List.singleton_append] at hs
  rw [hl, hs, List.length_append, List.length_singleton, findOriginal, List.getElem?_append_right (Nat.le_refl _),
    Nat.sub_self]
  exact if_pos rfl

theorem exists_lastRecorded_iff : (∃ o, LastRecorded pairs t o) ↔ ∃ pair ∈ pairs, pair.2 = t := by
  constructor
  case mp  => exact fun ⟨o, h⟩ => ⟨(o, t), h.mem, rfl⟩
  case mpr =>
    rintro ⟨pair, hm, ht⟩
    obtain ⟨pre, post, rfl, _, hpost, hpre⟩ := pairs.rfindBase_split (·.2 = t)
    simp only [decide_eq_false_iff_not, decide_eq_true_eq] at hpost hpre
    obtain rfl | ⟨init, ⟨o, t'⟩, rfl, he⟩ := hpre
    case inl => exact absurd ht (hpost pair hm)
    case inr =>
      subst he
      exact ⟨o, init, post, by simp, hpost⟩

theorem findOriginal_ok_iff : findOriginal pairs t pairs.length = .ok o ↔ LastRecorded pairs t o := by
  refine ⟨fun h => ?_, findOriginal_of_lastRecorded⟩
  cases Classical.em (∃ pair ∈ pairs, pair.2 = t)
  case inl he =>
    obtain ⟨o', ho⟩ := exists_lastRecorded_iff.mpr he
    cases h.symm.trans (findOriginal_of_lastRecorded ho)
    exact ho
  case inr hn =>
    rw [findOriginal_of_forall_ne fun pair hp ht => hn ⟨pair, hp, ht⟩] at h
    cases h

end FindOriginal

section OrderReplaced

-- What a confirmed replacement is to change: the price in the record of the order that was replaced.
structure Replaced (m m' : OrderManager) (replacementToken : OrderToken) (price : Int32) : Prop where
  recorded : ∀ o, LastRecorded m.originalToReplacementTokens replacementToken o → ∀ i,
    m'.orders i = if getOrder o = some i then { m.orders i with price } else m.orders i
  absent   : (∀ pair ∈ m.originalToReplacementTokens, pair.2 ≠ replacementToken) → m'.orders = m.orders
  token    : m'.token = m.token
  pairs    : m'.originalToReplacementTokens = m.originalToReplacementTokens

theorem orderReplaced_of_lastRecorded (h : LastRecorded m.originalToReplacementTokens t o) :
    m.orderReplaced t price = .ok (m.modify o fun order => { order with price }) := by
  rw [orderReplaced, findOriginal_of_lastRecorded h]
  rfl

-- Without a pair for the replacement the search leaves the vector.
theorem orderReplaced_exact_iff : (∃ m', m.orderReplaced t price = .ok m' ∧ m.Replaced m' t price) ↔
    ∃ pair ∈ m.originalToReplacementTokens, pair.2 = t := by
  constructor
  case mp =>
    rintro ⟨m', he, _⟩
    obtain ⟨o, ho, _⟩ := Run.bind_ok he
    exact exists_lastRecorded_iff.mp ⟨o, findOriginal_ok_iff.mp ho⟩
  case mpr =>
    intro h
    obtain ⟨o, ho⟩ := exists_lastRecorded_iff.mpr h
    refine ⟨_, orderReplaced_of_lastRecorded ho, ?_, ?_, token_modify, originalToReplacementTokens_modify⟩
    case refine_1 =>
      intro o' ho' i
      cases (findOriginal_of_lastRecorded ho).symm.trans (findOriginal_of_lastRecorded ho')
      exact orders_modify
    case refine_2 => exact fun hn => absurd rfl (hn _ ho.mem)

-- Nothing has been recorded, and the search begins with the largest index there is.
theorem orderReplaced_leaves_vector :
    ¬∃ m', (ofLastOrderTokenIndex 0).orderReplaced (.ofIndex 1) 5 = .ok m' ∧
      (ofLastOrderTokenIndex 0).Replaced m' (.ofIndex 1) 5 := by
  rintro ⟨m', he, _⟩
  have hf : (ofLastOrderTokenIndex 0).orderReplaced (.ofIndex 1) 5 = .error {} := rfl
  cases hf.symm.trans he

end OrderReplaced

-- A call of the manager. Each of them is about at most one order, whose token it is given or finds.
inductive Update
  | orderAccepted (token : OrderToken) (quantity : UInt64) (orderbookId : UInt32) (price : Int32) (side : UInt8)
  | orderReplaced (replacementToken : OrderToken) (price : Int32)
  | pendingReplace (originalOrderToken replacementOrderToken : OrderToken)
  | orderExecuted (token : OrderToken) (tradedQty : UInt64)
  | orderDeleted (token : OrderToken)
  | nextToken

namespace Update

def apply (m : OrderManager) : Update → Except OutOfBounds OrderManager
  | orderAccepted token quantity orderbookId price side => .ok (m.orderAccepted token quantity orderbookId price side)
  | orderReplaced replacementToken price                => m.orderReplaced replacementToken price
  | pendingReplace original replacement                 => .ok (m.pendingReplace original replacement)
  | orderExecuted token tradedQty                       => .ok (m.orderExecuted token tradedQty)
  | orderDeleted token                                  => .ok (m.orderDeleted token)
  | nextToken                                           => .ok m.nextToken

def Concerns (m : OrderManager) (t : OrderToken) : Update → Prop
  | orderAccepted token .. | orderExecuted token _ | orderDeleted token => token = t
  | orderReplaced replacementToken _ => LastRecorded m.originalToReplacementTokens replacementToken t
  | pendingReplace .. | nextToken => False

variable {u : Update} {us : List Update} {i : Fin ordersSize}

-- An update changes at most the record of the order that it is about.
theorem apply_cases (h : u.apply m = .ok m') :
    m'.orders = m.orders ∨ ∃ t f, u.Concerns m t ∧ m' = m.modify t f := by
  cases u
  case orderReplaced replacementToken price =>
    obtain ⟨o, ho, he⟩ := Run.bind_ok h
    cases he
    exact .inr ⟨o, _, findOriginal_ok_iff.mp ho, rfl⟩
  case pendingReplace => cases h; exact .inl rfl
  case nextToken      => cases h; exact .inl rfl
  all_goals
    cases h
    exact .inr ⟨_, _, rfl, rfl⟩

theorem orders_apply (h : u.apply m = .ok m') (hi : ∀ t, u.Concerns m t → getOrder t ≠ some i) :
    m'.orders i = m.orders i := by
  obtain he | ⟨t, f, ht, rfl⟩ := apply_cases h
  case inl => rw [he]
  case inr => rw [orders_modify, if_neg (hi t ht)]

theorem orders_exec (h : Run.exec apply m us = .ok m')
    (hi : Run.Admits apply m (fun _ m u => ∀ t, u.Concerns m t → getOrder t ≠ some i) us) :
    m'.orders i = m.orders i := by
  induction us using List.reverseRecOn generalizing m'
  case nil => cases h; rfl
  case append_singleton us u ih =>
    obtain ⟨m₁, h₁, h₂⟩ := Run.exec_snoc_ok h
    rw [orders_apply h₂ (hi.last h₁), ih h₁ (hi.restrict (List.prefix_append ..))]

end Update

end OrderManager
