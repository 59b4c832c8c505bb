import Mathlib.Data.List.Basic

-- A stream that is a concatenation of frames, of which the first `n` elements have been received.

namespace Framing

variable {α : Type*} {f : List α} {fs frames : List (List α)} {n k b : ℕ}

-- The frames that have been received as a whole, the frames that have not, and what has been
-- received of the first of them.

def completed : List (List α) → ℕ → List (List α)
  | [], _      => []
  | f :: fs, n => if f.length ≤ n then f :: completed fs (n - f.length) else []

def remaining : List (List α) → ℕ → List (List α)
  | [], _      => []
  | f :: fs, n => if f.length ≤ n then remaining fs (n - f.length) else f :: fs

def pending : List (List α) → ℕ → List α
  | [], _      => []
  | f :: fs, n => if f.length ≤ n then pending fs (n - f.length) else f.take n

section Cons

theorem completed_of_le (h : f.length ≤ n) :
    completed (f :: fs) n = f :: completed fs (n - f.length) :=
  if_pos h

theorem completed_of_lt (h : n < f.length) : completed (f :: fs) n = [] :=
  if_neg (Nat.not_le_of_lt h)

theorem remaining_of_le (h : f.length ≤ n) : remaining (f :: fs) n = remaining fs (n - f.length) :=
  if_pos h

theorem remaining_of_lt (h : n < f.length) : remaining (f :: fs) n = f :: fs :=
  if_neg (Nat.not_le_of_lt h)

theorem pending_of_le (h : f.length ≤ n) : pending (f :: fs) n = pending fs (n - f.length) :=
  if_pos h

theorem pending_of_lt (h : n < f.length) : pending (f :: fs) n = f.take n :=
  if_neg (Nat.not_le_of_lt h)

end Cons

theorem completed_zero (h : ∀ f ∈ frames, 0 < f.length) : completed frames 0 = [] := by
  cases frames
  case nil  => rfl
  case cons => exact completed_of_lt (h _ List.mem_cons_self)

theorem pending_zero (h : ∀ f ∈ frames, 0 < f.length) : pending frames 0 = [] := by
  cases frames
  case nil  => rfl
  case cons => rw [pending_of_lt (h _ List.mem_cons_self), List.take_zero]

theorem completed_append_remaining (frames : List (List α)) (n : ℕ) :
    completed frames n ++ remaining frames n = frames := by
  induction frames generalizing n
  case nil => rfl
  case cons f fs hi =>
    cases Nat.lt_or_ge n f.length
    case inl h => rw [completed_of_lt h, remaining_of_lt h, List.nil_append]
    case inr h => rw [completed_of_le h, remaining_of_le h, List.cons_append, hi]

theorem take_flatten (h : n ≤ frames.flatten.length) :
    frames.flatten.take n = (completed frames n).flatten ++ pending frames n := by
  induction frames generalizing n
  case nil => simp [completed, pending]
  case cons f fs hi =>
    rw [List.flatten_cons, List.length_append] at h
    cases Nat.lt_or_ge n f.length
    case inl hl => simp [completed_of_lt hl, pending_of_lt hl, List.take_append, Nat.sub_eq_zero_of_le (Nat.le_of_lt hl)]
    case inr hl =>
      rw [List.flatten_cons, List.take_append, List.take_of_length_le hl, completed_of_le hl,
        pending_of_le hl, List.flatten_cons, hi (by omega), List.append_assoc]

theorem remaining_flatten (h : n ≤ frames.flatten.length) :
    (remaining frames n).flatten = pending frames n ++ frames.flatten.drop n := by
  have hc := congrArg List.flatten (completed_append_remaining frames n)
  rw [List.flatten_append] at hc
  have hd := (List.take_append_drop n frames.flatten).symm
  rw [take_flatten h, List.append_assoc] at hd
  exact List.append_cancel_left (hc.trans hd)

theorem completed_all : completed frames frames.flatten.length = frames := by
  induction frames
  case nil => rfl
  case cons f fs hi =>
    have hl : (f :: fs).flatten.length = f.length + fs.flatten.length := by simp
    rw [hl, completed_of_le (Nat.le_add_right ..), Nat.add_sub_cancel_left, hi]

theorem mem_of_mem_remaining (h : f ∈ remaining frames n) : f ∈ frames :=
  completed_append_remaining frames n ▸ List.mem_append_right _ h

theorem pending_length_lt (hb : ∀ f ∈ frames, f.length ≤ b) (h0 : 0 < b) : (pending frames n).length < b := by
  induction frames generalizing n
  case nil => exact h0
  case cons f fs hi =>
    have ⟨hf, hfs⟩ := List.forall_mem_cons.mp hb
    cases Nat.lt_or_ge n f.length
    case inl hl => rw [pending_of_lt hl, List.length_take]; omega
    case inr hl => exact pending_of_le hl ▸ hi hfs

-- What is pending is the beginning of the frame in which the first `n` elements end.
theorem pending_append {gs : List (List α)} (h : k < f.length) :
    pending (fs ++ f :: gs) (fs.flatten.length + k) = f.take k := by
  induction fs
  case nil => rw [List.nil_append, List.flatten_nil, List.length_nil, Nat.zero_add, pending_of_lt h]
  case cons g fs hi =>
    rw [List.cons_append, List.flatten_cons, List.length_append, pending_of_le (by omega), Nat.add_assoc,
      Nat.add_sub_cancel_left, hi]

theorem pending_cases (frames : List (List α)) (n : ℕ) : pending frames n = [] ∨
    ∃ fs f gs k, frames = fs ++ f :: gs ∧ n = fs.flatten.length + k ∧ k < f.length ∧ pending frames n = f.take k := by
  induction frames generalizing n
  case nil => exact .inl rfl
  case cons f frames hi =>
    cases Nat.lt_or_ge n f.length
    case inl hl => exact .inr ⟨[], f, frames, n, rfl, (Nat.zero_add n).symm, hl, pending_of_lt hl⟩
    case inr hl =>
      rw [pending_of_le hl]
      obtain h | ⟨fs, g, gs, k, rfl, hn, hk, hp⟩ := hi (n - f.length)
      case inl => exact .inl h
      case inr =>
        refine .inr ⟨f :: fs, g, gs, k, rfl, ?_, hk, hp⟩
        rw [List.flatten_cons, List.length_append]
        omega

-- More of the stream arrives: the frames that it completes are completed from what was pending.
theorem completed_add (h : n ≤ frames.flatten.length) :
    completed frames (n + k) =
      completed frames n ++ completed (remaining frames n) ((pending frames n).length + k) ∧
    pending frames (n + k) = pending (remaining frames n) ((pending frames n).length + k) := by
  induction frames generalizing n
  case nil => exact ⟨rfl, rfl⟩
  case cons f fs hi =>
    rw [List.flatten_cons, List.length_append] at h
    cases Nat.lt_or_ge n f.length
    case inl hl =>
      rw [completed_of_lt hl, remaining_of_lt hl, pending_of_lt hl, List.length_take, Nat.min_eq_left (Nat.le_of_lt hl)]
      exact ⟨rfl, rfl⟩
    case inr hl =>
      have hi := hi (n := n - f.length) (by omega)
      rw [← Nat.sub_add_comm hl] at hi
      rw [completed_of_le hl, remaining_of_le hl, pending_of_le hl, completed_of_le (by omega),
        pending_of_le (by omega), hi.left, hi.right]
      exact ⟨rfl, rfl⟩

section Append

variable {gs : List (List α)}

-- Frames that are not sent before the others make no difference to what has been received so far.

theorem completed_append_of_le (h : n ≤ fs.flatten.length) (hg : ∀ g ∈ gs, 0 < g.length) :
    completed (fs ++ gs) n = completed fs n := by
  induction fs generalizing n
  case nil =>
    obtain rfl : n = 0 := Nat.le_zero.mp h
    exact completed_zero hg
  case cons f fs hi =>
    rw [List.flatten_cons, List.length_append] at h
    rw [List.cons_append]
    cases Nat.lt_or_ge n f.length
    case inl hl => rw [completed_of_lt hl, completed_of_lt hl]
    case inr hl => rw [completed_of_le hl, completed_of_le hl, hi (by omega)]

theorem pending_append_of_le (h : n ≤ fs.flatten.length) (hg : ∀ g ∈ gs, 0 < g.length) :
    pending (fs ++ gs) n = pending fs n := by
  induction fs generalizing n
  case nil =>
    obtain rfl : n = 0 := Nat.le_zero.mp h
    exact pending_zero hg
  case cons f fs hi =>
    rw [List.flatten_cons, List.length_append] at h
    rw [List.cons_append]
    cases Nat.lt_or_ge n f.length
    case inl hl => rw [pending_of_lt hl, pending_of_lt hl]
    case inr hl => rw [pending_of_le hl, pending_of_le hl, hi (by omega)]

end Append

section Reads

-- A receiver that looks at the beginning of each read and forgets the rest of it. It goes on until it
-- has come across an element that ends the stream.

variable {ends whole : List α → Prop} {first? : List α → Option (List α)}
variable {c : List α} {cs reads : List (List α)} {o : ℕ} {e : ℕ × List α}

def upTo (ends : List α → Prop) [DecidablePred ends] : List (List α) → List (List α)
  | []      => []
  | c :: cs => c :: if ends c then [] else upTo ends cs

-- Each element with its offset in the stream.
def positions : ℕ → List (List α) → List (ℕ × List α)
  | _, []      => []
  | o, c :: cs => (o, c) :: positions (o + c.length) cs

def looks (first? : List α → Option (List α)) (reads : List (ℕ × List α)) : List (ℕ × List α) :=
  reads.filterMap fun read => (first? read.snd).map (read.fst, ·)

-- What the receiver makes of the beginning of a read.
structure Receives (ends whole : List α → Prop) (first? : List α → Option (List α)) (frames : List (List α)) : Prop where
  isPrefix  : ∀ {c f}, first? c = some f → f <+: c
  first?_eq : ∀ f ∈ frames, whole f → ∀ {c}, f <+: c → first? c = some f
  is_whole  : ∀ f ∈ frames, first? f = some f → whole f
  ends      : ∀ {f}, ends f → whole f ∧ ∀ {c}, f <+: c → ends c

-- Each read is one frame, as far as to the frame that ends the stream, with which a read begins.
inductive OnePerRead (ends whole : List α → Prop) : List (List α) → List (List α) → Prop
  | nil : OnePerRead ends whole [] []
  | last {f c : List α} {fs cs} (h : ends f) (hc : f <+: c) : OnePerRead ends whole (f :: fs) (c :: cs)
  | cons {f : List α} {fs cs} (h : whole f) (hc : OnePerRead ends whole fs cs) : OnePerRead ends whole (f :: fs) (f :: cs)

theorem Receives.tail (hr : Receives ends whole first? (f :: fs)) : Receives ends whole first? fs where
  isPrefix       := hr.isPrefix
  first?_eq g hg := hr.first?_eq g (List.mem_cons_of_mem f hg)
  is_whole g hg  := hr.is_whole g (List.mem_cons_of_mem f hg)
  ends           := hr.ends

theorem looks_cons_of_some (h : first? c = some f) :
    looks first? (positions o (c :: cs)) = (o, f) :: looks first? (positions (o + c.length) cs) := by
  simp [positions, looks, h]

theorem looks_cons_of_none (h : first? c = none) :
    looks first? (positions o (c :: cs)) = looks first? (positions (o + c.length) cs) := by
  simp [positions, looks, h]

theorem le_of_mem_looks (h : e ∈ looks first? (positions o cs)) : o ≤ e.fst := by
  induction cs generalizing o
  case nil => simp [positions, looks] at h
  case cons c cs hi =>
    cases hc : first? c
    case none =>
      rw [looks_cons_of_none hc] at h
      exact Nat.le_of_add_right_le (hi h)
    case some f =>
      rw [looks_cons_of_some hc] at h
      cases List.mem_cons.mp h
      case inl h => exact h ▸ Nat.le_refl o
      case inr h => exact Nat.le_of_add_right_le (hi h)

variable [DecidablePred ends]

theorem upTo_eq_self (h : ∀ c ∈ cs, ¬ends c) : upTo ends cs = cs := by
  induction cs
  case nil => rfl
  case cons c cs hi =>
    have ⟨hc, hcs⟩ := List.forall_mem_cons.mp h
    rw [upTo, if_neg hc, hi hcs]

theorem upTo_append_of_forall (h : ∀ c ∈ cs, ¬ends c) : upTo ends (cs ++ reads) = cs ++ upTo ends reads := by
  induction cs
  case nil => rfl
  case cons c cs hi =>
    have ⟨hc, hcs⟩ := List.forall_mem_cons.mp h
    rw [List.cons_append, upTo, if_neg hc, hi hcs, List.cons_append]

theorem upTo_append_of_exists (h : ∃ c ∈ cs, ends c) : upTo ends (cs ++ reads) = upTo ends cs := by
  induction cs
  case nil => simp at h
  case cons c cs hi =>
    rw [List.cons_append, upTo, upTo]
    split
    case isTrue     => rfl
    case isFalse hc =>
      have h : ∃ c ∈ cs, ends c := by simpa [hc] using h
      rw [hi h]

theorem OnePerRead.looks_eq (hr : Receives ends whole first? frames) (h : OnePerRead ends whole frames reads) :
    looks first? (positions o (upTo ends reads)) = positions o (upTo ends frames) := by
  induction h generalizing o
  case nil => rfl
  case last h hc =>
    have ⟨hw, he⟩ := hr.ends h
    have hf := hr.first?_eq _ List.mem_cons_self hw hc
    rw [upTo, upTo, if_pos h, if_pos (he hc), looks_cons_of_some hf]
    rfl
  case cons hw _ hi =>
    have hf := hr.first?_eq _ List.mem_cons_self hw List.prefix_rfl
    rw [upTo, upTo, looks_cons_of_some hf, positions]
    split
    case isTrue  => rfl
    case isFalse => rw [hi hr.tail]

-- What is left of a read is missed: everything that is seen afterwards lies behind it.
theorem onePerRead_of_looks_eq (hr : Receives ends whole first? frames) (hn : ∀ c ∈ reads, c ≠ [])
    (hs : reads.flatten = frames.flatten)
    (h : looks first? (positions o (upTo ends reads)) = positions o (upTo ends frames)) :
    OnePerRead ends whole frames reads := by
  induction frames generalizing reads o
  case nil =>
    cases reads
    case nil       => exact .nil
    case cons c cs => exact absurd (List.append_eq_nil_iff.mp hs).left (hn c List.mem_cons_self)
  case cons f fs hi =>
    cases reads
    case nil => contradiction
    case cons c cs =>
      have ⟨hc, hcs⟩ := List.forall_mem_cons.mp hn
      rw [upTo, upTo] at h
      cases hf : first? c
      case none =>
        rw [looks_cons_of_none hf, positions] at h
        have hle := le_of_mem_looks (h ▸ List.mem_cons_self)
        have hpos := List.length_pos_iff.mpr hc
        omega
      case some g =>
        rw [looks_cons_of_some hf, positions] at h
        have ⟨hg, h⟩ := List.cons.inj h
        have hg : g = f := congrArg Prod.snd hg
        subst hg
        have ⟨x, hx⟩ := hr.isPrefix hf
        cases Decidable.em (ends g)
        case inl he => exact .last he ⟨x, hx⟩
        case inr he =>
          subst hx
          rw [if_neg he, List.length_append] at h
          rw [List.flatten_cons, List.flatten_cons, List.append_assoc] at hs
          have hs := List.append_cancel_left hs
          cases x
          case nil =>
            rw [List.append_nil] at hf h ⊢
            rw [if_neg he] at h
            exact .cons (hr.is_whole g List.mem_cons_self hf) (hi hr.tail hcs hs h)
          case cons a x =>
            cases fs
            case nil => contradiction
            case cons f' fs =>
              rw [upTo, positions] at h
              have hle := le_of_mem_looks (h ▸ List.mem_cons_self)
              simp only [List.length_cons] at hle
              omega

theorem looks_eq_iff (hr : Receives ends whole first? frames) (hn : ∀ c ∈ reads, c ≠ [])
    (hs : reads.flatten = frames.flatten) :
    looks first? (positions o (upTo ends reads)) = positions o (upTo ends frames) ↔ OnePerRead ends whole frames reads :=
  ⟨onePerRead_of_looks_eq hr hn hs, (·.looks_eq hr)⟩

end Reads

end Framing
