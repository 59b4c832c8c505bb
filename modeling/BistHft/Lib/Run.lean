import Mathlib.Data.List.Induction
import Mathlib.Data.List.Infix

-- Runs of a fallible step function over a list of inputs. A step that fails ends the run.

namespace Run

universe u

variable {σ α ε : Type*} {step : σ → α → Except ε σ} {s s' s₀ : σ} {a : α} {as bs pre : List α}

-- Two fallible computations, one after the other, end only if both of them do.
theorem bind_ok {α β : Type u} {x : Except ε α} {f : α → Except ε β} {b : β} (h : x >>= f = .ok b) :
    ∃ a, x = .ok a ∧ f a = .ok b := by
  cases x
  case error => contradiction
  case ok a  => exact ⟨a, rfl, h⟩

theorem ok_ne_error {α : Type u} {a : α} {e : ε} : (Except.ok a : Except ε α) ≠ .error e := by
  simp

-- Where the second of them cannot fail, a failure is that of the first.
theorem bind_error_iff {α β : Type u} {x : Except ε α} {f : α → β} {e : ε} :
    x >>= (.ok <| f ·) = .error e ↔ x = .error e := by
  cases x
  case ok         => exact iff_of_false ok_ne_error ok_ne_error
  case error e' =>
    change Except.error e' = .error e ↔ Except.error e' = .error e
    rw [Except.error.injEq, Except.error.injEq]

theorem bind_inj {α β : Type u} {x y : Except ε α} {f : α → β} (hf : f.Injective) :
    x >>= (.ok <| f ·) = y >>= (.ok <| f ·) ↔ x = y := by
  refine ⟨fun h => ?_, congrArg (· >>= _)⟩
  cases x <;> cases y
  case error.error => exact congrArg Except.error (Except.error.inj h)
  case error.ok    => exact absurd h.symm ok_ne_error
  case ok.error    => exact absurd h ok_ne_error
  case ok.ok       => exact congrArg Except.ok (hf <| Except.ok.inj h)

def exec (step : σ → α → Except ε σ) (s : σ) (as : List α) : Except ε σ :=
  as.foldlM step s

@[simp]
theorem exec_nil : exec step s [] = .ok s :=
  rfl

theorem exec_cons : exec step s (a :: as) = step s a >>= (exec step · as) :=
  rfl

theorem exec_cons_of_ok (h : step s a = .ok s') : exec step s (a :: as) = exec step s' as := by
  rw [exec_cons, h]; rfl

theorem exec_cons_ok (h : exec step s (a :: as) = .ok s₀) :
    ∃ s', step s a = .ok s' ∧ exec step s' as = .ok s₀ :=
  bind_ok h

@[simp]
theorem exec_singleton : exec step s [a] = step s a := by
  rw [exec_cons]
  cases step s a <;> rfl

theorem exec_append : exec step s (as ++ bs) = exec step s as >>= (exec step · bs) :=
  List.foldlM_append

theorem exec_append_of_ok (h : exec step s as = .ok s') :
    exec step s (as ++ bs) = exec step s' bs := by
  rw [exec_append, h]; rfl

-- A failure is where a run stays.
theorem exec_append_of_error {e : ε} (h : exec step s as = .error e) : exec step s (as ++ bs) = .error e := by
  rw [exec_append, h]; rfl

theorem exec_snoc_of_ok (h : exec step s as = .ok s') : exec step s (as ++ [a]) = step s' a := by
  rw [exec_append_of_ok h, exec_singleton]

theorem exec_prefix_ok (h : exec step s as = .ok s') (hp : pre <+: as) :
    ∃ t, exec step s pre = .ok t := by
  obtain ⟨post, rfl⟩ := hp
  rw [exec_append] at h
  have ⟨t, ht, _⟩ := bind_ok h
  exact ⟨t, ht⟩

-- A run that ends has ended at each of its inputs.
theorem exec_snoc_ok (h : exec step s (as ++ [a]) = .ok s') :
    ∃ t, exec step s as = .ok t ∧ step t a = .ok s' := by
  have ⟨t, ht⟩ := exec_prefix_ok h (List.prefix_append ..)
  exact ⟨t, ht, exec_snoc_of_ok ht ▸ h⟩

-- Each input is acceptable in the state in which the run meets it, given the inputs before it.
def Admits (step : σ → α → Except ε σ) (s₀ : σ) (ok : List α → σ → α → Prop) (as : List α) : Prop :=
  ∀ pre a post s, as = pre ++ a :: post → exec step s₀ pre = .ok s → ok pre s a

variable {ok ok' : List α → σ → α → Prop} {I : List α → σ → Prop}

theorem Admits.restrict (h : Admits step s₀ ok as) (hp : pre <+: as) : Admits step s₀ ok pre := by
  obtain ⟨rest, rfl⟩ := hp
  rintro p a post s rfl hs
  exact h p a (post ++ rest) s (by simp) hs

theorem Admits.last (h : Admits step s₀ ok (as ++ [a])) (hs : exec step s₀ as = .ok s) : ok as s a :=
  h as a [] s rfl hs

theorem Admits.and (h : Admits step s₀ ok as) (h' : Admits step s₀ ok' as) :
    Admits step s₀ (fun pre s a => ok pre s a ∧ ok' pre s a) as :=
  fun pre a post s he hs => ⟨h pre a post s he hs, h' pre a post s he hs⟩

theorem Admits.nil : Admits step s₀ ok [] := by
  rintro pre a post s h
  simp at h

theorem Admits.snoc (h : Admits step s₀ ok as) (ha : ∀ s, exec step s₀ as = .ok s → ok as s a) :
    Admits step s₀ ok (as ++ [a]) := by
  intro pre a' post s he hs
  cases post using List.reverseRecOn
  case nil =>
    have ⟨h₁, h₂⟩ := List.append_inj' he rfl
    cases h₁; cases h₂; exact ha s hs
  case append_singleton post a'' _ =>
    rw [← List.cons_append, ← List.append_assoc] at he
    exact h pre a' post s (List.append_inj' he rfl).left hs

theorem admits_snoc_iff (hs : exec step s₀ as = .ok s) :
    Admits step s₀ ok (as ++ [a]) ↔ Admits step s₀ ok as ∧ ok as s a where
  mp h  := ⟨h.restrict (List.prefix_append ..), h.last hs⟩
  mpr h := h.left.snoc fun s' hs' => by cases hs.symm.trans hs'; exact h.right

theorem admits_snoc_iff_of_error {e : ε} (hs : exec step s₀ as = .error e) :
    Admits step s₀ ok (as ++ [a]) ↔ Admits step s₀ ok as where
  mp h  := h.restrict (List.prefix_append ..)
  mpr h := h.snoc fun s' hs' => by cases hs.symm.trans hs'

theorem Admits.singleton (h : ok [] s₀ a) : Admits step s₀ ok [a] := by
  have hs : Admits step s₀ ok ([] ++ [a]) := Admits.nil.snoc fun s hs => by cases hs; exact h
  exact hs

-- The rule of invariants: an invariant may speak about the inputs that led to the state. Each
-- acceptable input has to be a step that does not fail.
structure Invariant (step : σ → α → Except ε σ) (s₀ : σ) (ok : List α → σ → α → Prop)
    (I : List α → σ → Prop) : Prop where
  init : I [] s₀
  next : ∀ {h s a}, I h s → ok h s a → ∃ s', step s a = .ok s' ∧ I (h ++ [a]) s'

theorem Invariant.exec (inv : Invariant step s₀ ok I) (h : Admits step s₀ ok as) :
    ∃ s, exec step s₀ as = .ok s ∧ I as s := by
  induction as using List.reverseRecOn
  case nil => exact ⟨s₀, rfl, inv.init⟩
  case append_singleton as a hi =>
    have ⟨s, hs, hI⟩ := hi (h.restrict (List.prefix_append ..))
    have ⟨s', hs', hI'⟩ := inv.next hI (h.last hs)
    exact ⟨s', by rw [exec_snoc_of_ok hs, hs'], hI'⟩

theorem Invariant.exec_restrict (inv : Invariant step s₀ ok I) (h : Admits step s₀ ok as) (hp : pre <+: as) :
    ∃ s, Run.exec step s₀ pre = .ok s ∧ I pre s :=
  inv.exec (h.restrict hp)

-- The same rule for a run that is known not to fail.
theorem exec_induction (init : I [] s₀)
    (next : ∀ {h s a s'}, exec step s₀ h = .ok s → I h s → step s a = .ok s' → I (h ++ [a]) s')
    (hs : exec step s₀ as = .ok s) : I as s := by
  induction as using List.reverseRecOn generalizing s
  case nil => cases hs; exact init
  case append_singleton as a hi =>
    have ⟨t, ht, hta⟩ := exec_snoc_ok hs
    exact next ht (hi ht) hta

section Map

variable {τ β : Type*} {step' : τ → β → Except ε τ} {f : σ → τ} {g : α → β}

-- A step of the one system is, seen through `f` and `g`, a step of the other.
def Maps (step : σ → α → Except ε σ) (step' : τ → β → Except ε τ) (f : σ → τ) (g : α → β) : Prop :=
  ∀ {s a s'}, step s a = .ok s' → step' (f s) (g a) = .ok (f s')

theorem Maps.exec (hf : Maps step step' f g) (h : Run.exec step s as = .ok s') :
    Run.exec step' (f s) (as.map g) = .ok (f s') := by
  induction as generalizing s
  case nil => cases h; rfl
  case cons a as hi =>
    obtain ⟨s₁, hs, h⟩ := exec_cons_ok h
    rw [List.map_cons, exec_cons_of_ok (hf hs), hi h]

theorem Maps.admits {ok : List β → τ → β → Prop} (hf : Maps step step' f g)
    (h : Admits step' (f s₀) ok (as.map g)) :
    Admits step s₀ (fun pre s a => ok (pre.map g) (f s) (g a)) as := by
  rintro pre a post s rfl hs
  exact h (pre.map g) (g a) (post.map g) (f s) (by simp) (hf.exec hs)

-- A run that does not fail is acceptable in one system if it is in the other.
theorem Maps.admits_iff {ok : List β → τ → β → Prop} (hf : Maps step step' f g) (h : Run.exec step s₀ as = .ok s) :
    Admits step' (f s₀) ok (as.map g) ↔ Admits step s₀ (fun pre s a => ok (pre.map g) (f s) (g a)) as where
  mp     := hf.admits
  mpr ha := by
    intro pre' a' post' t he ht
    obtain ⟨pre, rest, rfl, rfl, hr⟩ := List.map_eq_append_iff.mp he
    obtain ⟨a, post, rfl, rfl, rfl⟩ := List.map_eq_cons_iff.mp hr
    obtain ⟨s₁, hs⟩ := exec_prefix_ok h (List.prefix_append ..)
    cases ht.symm.trans (hf.exec hs)
    exact ha pre a post s₁ rfl hs

end Map

section Alike

variable {σ τ : Type u} {step : σ → α → Except ε σ} {step' : τ → α → Except ε τ} {R : σ → τ → Prop}
variable {x x' : Except ε σ} {y y' : Except ε τ} {s : σ} {t : τ}

-- Two computations that fail alike or end in states that belong together.
inductive Alike (R : σ → τ → Prop) : Except ε σ → Except ε τ → Prop
  | ok {s : σ} {t : τ} (h : R s t) : Alike R (.ok s) (.ok t)
  | error (e : ε) : Alike R (.error e) (.error e)

theorem Alike.of_ok (h : Alike R (.ok s) y) : ∃ t, y = .ok t ∧ R s t := by
  cases h
  case ok h => exact ⟨_, rfl, h⟩

theorem Alike.bind {α α' β β' : Type u} {R : α → α' → Prop} {Q : β → β' → Prop} {x : Except ε α} {y : Except ε α'}
    {f : α → Except ε β} {g : α' → Except ε β'} (h : Alike R x y) (hf : ∀ {a a'}, R a a' → Alike Q (f a) (g a')) :
    Alike Q (x >>= f) (y >>= g) := by
  cases h
  case ok h    => exact hf h
  case error e => exact .error e

-- A simulation step by step is one of whole runs, failures included.
theorem Alike.exec (hs : ∀ {s t a}, R s t → Alike R (step s a) (step' t a)) (h : R s t) :
    Alike R (Run.exec step s as) (Run.exec step' t as) := by
  induction as generalizing s t
  case nil => exact .ok h
  case cons a as hi =>
    rw [exec_cons, exec_cons]
    exact (hs h).bind hi

-- Where the relation tells states apart, the computations can be told apart on either side.
theorem Alike.eq_iff (hR : ∀ {s t s' t'}, R s t → R s' t' → (s = s' ↔ t = t')) (h : Alike R x y)
    (h' : Alike R x' y') : x = x' ↔ y = y' := by
  cases h <;> cases h'
  case ok.ok h _ _ h'    => rw [Except.ok.injEq, Except.ok.injEq]; exact hR h h'
  case ok.error          => exact iff_of_false ok_ne_error ok_ne_error
  case error.ok          => exact iff_of_false ok_ne_error.symm ok_ne_error.symm
  case error.error e e'  => rw [Except.error.injEq, Except.error.injEq]

end Alike

end Run
