import BistHft.Core.Theorems.OrderToken
import BistHft.Lib.Run
import BistHft.Utility.ConfigParser

-- The tokens that are issued over any number of sessions. A session counts on from the index that the
-- session before it has saved.

structure Sessions where
  orderManager : OrderManager
  issued       : List OrderToken := []

namespace Sessions

inductive Event
  | nextToken
  | restart

variable (α : Type) [Json α] {n : ℕ} {m : OrderManager} {s : Sessions} {last : UInt32} {event : Event} {events : List Event}

def start (last : UInt32) : Sessions where
  orderManager := .ofLastOrderTokenIndex last

-- A restart fails if the index is not found in the file.
def step (s : Sessions) : Event → Except Unit Sessions
  | .nextToken =>
    let orderManager := s.orderManager.nextToken
    .ok { s with orderManager, issued := s.issued ++ [orderManager.token] }
  | .restart =>
    match ConfigParser.parseAppParameters α (some (s.orderManager.appParameters α)) with
    | .ok (some p)        => .ok { s with orderManager := .ofLastOrderTokenIndex p.lastUsedTokenIndex }
    | .ok none | .error _ => .error ()

theorem parseAppParameters_appParameters [PersistentJson α] :
    ConfigParser.parseAppParameters α (some (m.appParameters α)) =
      .ok (some { lastUsedTokenIndex := m.lastUsedOrderTokenIndex }) := by
  have ⟨v, hv, hi, hg⟩ := PersistentJson.member_ofMember (α := α) "last_used_order_token_index" m.lastUsedOrderTokenIndex
  have hc := (LawfulJson.contains_iff _ _).mpr ⟨v, hv⟩
  rw [ConfigParser.parseAppParameters, OrderManager.appParameters, Option.bind_some, PersistentJson.parse_dump]
  dsimp only
  rw [if_pos hc, hv]
  dsimp only [bind, Except.bind]
  rw [if_pos hi, hg]
  rfl

theorem step_restart [PersistentJson α] :
    step α s .restart = .ok { s with orderManager := .ofLastOrderTokenIndex s.orderManager.lastUsedOrderTokenIndex } := by
  rw [step, parseAppParameters_appParameters α]

open OrderToken

def tokenValue (s : Sessions) : ℕ :=
  value s.orderManager.token.val

-- The numbers for which tokens are meant.
def Bounded (s : Sessions) : Event → Prop
  | .nextToken => s.tokenValue < 10 ^ 13
  | .restart   => True

-- The index that follows the last one is an `int`.
def Fits (last : ℕ) : Prop :=
  last + 1 < 2 ^ 31

def Continues (s : Sessions) : Event → Prop
  | .nextToken => True
  | .restart   => Fits s.tokenValue

structure Fresh (s : Sessions) : Prop where
  decimal : ∀ token ∈ s.issued, token.IsDecimal
  nodup   : s.issued.Nodup

structure Counting (s : Sessions) : Prop where
  token     : s.orderManager.token.IsDecimal
  decimal   : ∀ token ∈ s.issued, token.IsDecimal
  ascending : s.issued.Pairwise (value ·.val < value ·.val)
  le        : ∀ token ∈ s.issued, value token.val ≤ s.tokenValue

instance : Decidable (Fits n) :=
  inferInstanceAs (Decidable (_ < _))

instance : Decidable (s.Bounded event) :=
  match event with
  | .nextToken => inferInstanceAs (Decidable (_ < _))
  | .restart   => inferInstanceAs (Decidable True)

instance : Decidable (s.Continues event) :=
  match event with
  | .nextToken => inferInstanceAs (Decidable True)
  | .restart   => inferInstanceAs (Decidable (Fits _))

-- A session goes on after the number `n` only if that number fits.
theorem start_iff (h : last.toNat = n % 2 ^ 32) :
    (start last).orderManager.token.IsDecimal ∧ (start last).tokenValue = n + 1 ↔ Fits n := by
  constructor
  case mp =>
    intro ⟨hd, hv⟩
    have hl := last.toNat_lt
    have hf : last.toNat + 1 < 2 ^ 31 ∨ last.toNat + 1 = 2 ^ 32 := by
      by_contra hn
      exact ofIndex_not_isDecimal (by omega) (by omega) hd
    cases hf
    case inl hf =>
      have hn : last.toNat + 1 = n + 1 := (ofIndex_isDecimal hf).right.symm.trans hv
      rwa [Fits, ← hn]
    case inr hf =>
      have hm : last = 4294967295 := UInt32.toNat_inj.mp (Nat.succ.inj hf)
      have hz : (start 4294967295).tokenValue = 0 := by decide +kernel
      rw [hm, hz] at hv
      contradiction
  case mpr =>
    intro hf
    have hn : last.toNat = n := h.trans <| Nat.mod_eq_of_lt ((Nat.lt_of_succ_lt hf).trans (by decide))
    subst hn
    exact ofIndex_isDecimal hf

namespace Counting

theorem fresh (h : s.Counting) : s.Fresh where
  decimal := h.decimal
  nodup   := h.ascending.imp fun hlt he => by cases he; exact Nat.lt_irrefl _ hlt

theorem start (h : Fits last.toNat) : (Sessions.start last).Counting where
  token     := (start_iff (Nat.mod_eq_of_lt last.toNat_lt).symm |>.mpr h).left
  decimal   := by simp [Sessions.start]
  ascending := .nil
  le        := by simp [Sessions.start]

theorem nextToken (h : s.Counting) (hb : s.Bounded .nextToken) : ∃ s', step α s .nextToken = .ok s' ∧ s'.Counting := by
  have hlt : s.tokenValue < value s.orderManager.token.next.val := h.token.value_lt_next hb
  refine ⟨_, rfl, h.token.next, ?_, ?_, ?_⟩
  · exact List.forall_mem_append.mpr ⟨h.decimal, List.forall_mem_singleton.mpr h.token.next⟩
  · refine List.pairwise_append.mpr ⟨h.ascending, List.pairwise_singleton .., fun t ht => ?_⟩
    exact List.forall_mem_singleton.mpr <| Nat.lt_of_le_of_lt (h.le t ht) hlt
  · refine List.forall_mem_append.mpr ⟨fun t ht => ?_, List.forall_mem_singleton.mpr (Nat.le_refl _)⟩
    exact (h.le t ht).trans hlt.le

theorem restart [PersistentJson α] (h : s.Counting) (hf : Fits s.tokenValue) : ∃ s', step α s .restart = .ok s' ∧ s'.Counting := by
  have ⟨hd, hv⟩ := (start_iff h.token.lastUsedOrderTokenIndex_toNat).mpr hf
  have hle : s.tokenValue ≤ _ := (Nat.le_succ _).trans hv.ge
  exact ⟨_, step_restart α, hd, h.decimal, h.ascending, fun t ht => (h.le t ht).trans hle⟩

end Counting

theorem invariant [PersistentJson α] (h : Fits last.toNat) :
    Run.Invariant (step α) (start last) (fun _ s e => s.Bounded e ∧ s.Continues e) fun _ s => s.Counting where
  init := .start h
  next {_ _ e} hs he := by
    cases e
    case nextToken => exact hs.nextToken α he.left
    case restart   => exact hs.restart α he.right

-- As long as each session begins with an index that fits, no token is issued twice.
theorem fresh_of_continues [PersistentJson α] (h : Fits last.toNat)
    (hb : Run.Admits (step α) (start last) (fun _ => Bounded) events)
    (hc : Run.Admits (step α) (start last) (fun _ => Continues) events) :
    ∃ s, Run.exec (step α) (start last) events = .ok s ∧ s.Fresh :=
  have ⟨s, hs, hi⟩ := (invariant α h).exec (hb.and hc)
  ⟨s, hs, hi.fresh⟩

theorem fresh_of_continues_sample :
    ∃ s, Run.exec (step SampleJson) (start 1000) [.nextToken, .restart, .nextToken] = .ok s ∧ s.Fresh := by
  refine fresh_of_continues SampleJson (by decide) ?_ ?_
  · refine .snoc (.snoc (.singleton ?_) fun s hs => trivial) fun s hs => ?_
    · decide +kernel
    · cases hs
      decide +kernel
  · refine .snoc (.snoc (.singleton trivial) fun s hs => ?_) fun s hs => trivial
    cases hs
    decide +kernel

-- The first index that does not fit.
theorem start_not_fresh :
    ¬∀ last events s, Run.exec (step SampleJson) (start last) events = .ok s →
      Run.Admits (step SampleJson) (start last) (fun _ => Bounded) events → s.tokenValue < 10 ^ 13 → s.Fresh := by
  intro h
  let first := (start 2147483647).orderManager
  have hb : (start 2147483647).tokenValue < 10 ^ 13 := by decide +kernel
  have hn : value first.nextToken.token.val < 10 ^ 13 := by decide +kernel
  have hd : ¬first.nextToken.token.IsDecimal := by decide +kernel
  have hf := h 2147483647 [.nextToken] ⟨first.nextToken, [first.nextToken.token]⟩ rfl (.singleton hb) hn
  exact hd <| hf.decimal _ (List.mem_singleton_self _)

end Sessions
