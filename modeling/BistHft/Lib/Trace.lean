import BistHft.Lib.Run
import Mathlib.Logic.Function.Basic

-- Runs in which inputs of different components do not depend on each other. Only the order of the
-- inputs within each component matters.

namespace Run

variable {σ α ε κ : Type*} [DecidableEq κ] {step : σ → α → Except ε σ} {comp : α → κ}
variable {s s' t : σ} {a : α} {as bs pre post : List α}

-- Two steps that succeed and belong to different components can be swapped.
def Independent (step : σ → α → Except ε σ) (comp : α → κ) : Prop :=
  ∀ {s s' t a b}, comp a ≠ comp b → step s a = .ok s' → step s' b = .ok t →
    ∃ s'', step s b = .ok s'' ∧ step s'' a = .ok t

omit [DecidableEq κ] in
theorem Independent.to_front (hi : Independent step comp) (hp : ∀ x ∈ pre, comp x ≠ comp a)
    (h : exec step s (pre ++ a :: post) = .ok t) : exec step s (a :: (pre ++ post)) = .ok t := by
  induction pre generalizing s
  case nil => exact h
  case cons x pre hr =>
    have ⟨hx, hp⟩ := List.forall_mem_cons.mp hp
    have ⟨s₁, h₁, h⟩ := exec_cons_ok h
    have ⟨s₂, h₂, h⟩ := exec_cons_ok (hr hp h)
    have ⟨s₃, h₃, h₄⟩ := hi hx h₁ h₂
    rw [exec_cons_of_ok h₃, List.cons_append, exec_cons_of_ok h₄, h]

theorem filter_eq_of_cons {c : κ} (hp : ∀ x ∈ pre, comp x ≠ comp a)
    (h : (pre ++ a :: post).filter (comp · = c) = (a :: as).filter (comp · = c)) :
    (pre ++ post).filter (comp · = c) = as.filter (comp · = c) := by
  by_cases hc : comp a = c
  case pos =>
    have hn : pre.filter (comp · = c) = [] := by
      simpa [List.filter_eq_nil_iff, ← hc] using hp
    simpa [hc, hn] using h
  case neg => simpa [hc] using h

-- Inputs that have the same order within each component lead to the same state.
theorem Independent.exec_eq (hi : Independent step comp)
    (hf : ∀ c, as.filter (comp · = c) = bs.filter (comp · = c)) (h : exec step s as = .ok t) :
    exec step s bs = .ok t := by
  induction bs generalizing as s
  case nil =>
    cases as
    case nil => exact h
    case cons a as => simpa using hf (comp a)
  case cons b bs hr =>
    have hb := hf (comp b)
    rw [List.filter_cons_of_pos (by simp), List.filter_eq_cons_iff] at hb
    have ⟨pre, post, he, hp, _, _⟩ := hb
    subst he
    have hp : ∀ x ∈ pre, comp x ≠ comp b := by simpa using hp
    have ⟨s', hs, h⟩ := exec_cons_ok (hi.to_front hp h)
    rw [exec_cons_of_ok hs]
    exact hr (fun c => filter_eq_of_cons hp (hf c)) h

-- The inputs of one component act on what `r` compares there, and no other input is seen there.
structure Projection (step : σ → α → Except ε σ) (comp : α → κ) (r : κ → σ → σ → Prop) : Prop where
  skip : ∀ {c s t s' a}, comp a ≠ c → r c s t → step s a = .ok s' → r c s' t
  step : ∀ {s t s' a}, r (comp a) s t → step s a = .ok s' → ∃ t', step t a = .ok t' ∧ r (comp a) s' t'

-- A run is seen at a component as the run of the inputs of that component alone.
theorem Projection.exec {r : κ → σ → σ → Prop} {c : κ} (hp : Projection step comp r) (hr : r c s t)
    (h : exec step s as = .ok s') : ∃ t', exec step t (as.filter (comp · = c)) = .ok t' ∧ r c s' t' := by
  induction as generalizing s t
  case nil => cases h; exact ⟨t, rfl, hr⟩
  case cons a as hi =>
    obtain ⟨s₁, hs, h⟩ := exec_cons_ok h
    cases Decidable.em (comp a = c)
    case inr hc =>
      rw [List.filter_cons_of_neg (by simpa using hc)]
      exact hi (hp.skip hc hr hs) h
    case inl hc =>
      subst hc
      obtain ⟨t₁, ht, hr⟩ := hp.step hr hs
      rw [List.filter_cons_of_pos (by simp), exec_cons_of_ok ht]
      exact hi hr h

-- Components that each go on by themselves: each of them is where its own inputs alone lead to.
theorem foldl_update {τ : Type*} {f : τ → α → τ} {x : κ → τ} {c : κ} :
    as.foldl (fun x a => Function.update x (comp a) (f (x (comp a)) a)) x c =
      (as.filter (comp · = c)).foldl f (x c) := by
  induction as generalizing x
  case nil => rfl
  case cons a as hi =>
    rw [List.foldl_cons, hi]
    cases Decidable.em (comp a = c)
    case inl hc =>
      subst hc
      rw [List.filter_cons_of_pos (by simp), List.foldl_cons, Function.update_self]
    case inr hc => rw [List.filter_cons_of_neg (by simpa using hc), Function.update_of_ne (Ne.symm hc)]

end Run
