import BistHft.Lib.Run
import BistHft.Network.Descriptors

-- The sockets keep to their own descriptors unless one of them outlives the failure of its connection.

namespace Construction

variable {c : SocketClass} {k : Construction} {fd : ℕ}

theorem opened?_of_object? (h : k.object? c = some (some fd)) :
    k.opened? c = some fd ∨ c = .tcpSocket ∧ k = .fails fd := by
  cases c <;> cases k <;> simp_all [object?, opened?, SocketClass.returns, SocketClass.closes]

-- A constructor that leaves a descriptor open makes an object that will close it, with one exception.
theorem opened?_eq_some_iff : k.opened? c = some fd ↔ k = .succeeds fd ∨ c = .udpMulticastSocket ∧ k = .fails fd := by
  cases c <;> cases k <;> simp [opened?, SocketClass.closes]

theorem fd?_of_opened? (h : k.opened? c = some fd) : k.fd? = some fd := by
  cases opened?_eq_some_iff.mp h
  case inl h => rw [h, fd?]
  case inr h => rw [h.right, fd?]

end Construction

namespace Process

variable {moves pre : List Move} {move : Move} {p p' : Process} {c : SocketClass} {k : Construction} {id id' fd fd' : ℕ}
variable {v : Option ℕ}

section Construct

theorem construct_sockets : (p.construct c id k).sockets = Function.update p.sockets id (k.object? c) := by
  cases k
  case fails => rw [construct]; split <;> rfl
  all_goals rfl

theorem construct_table (h : ∀ fd ∈ k.fd?, p.table fd = none) :
    (p.construct c id k).table fd = if k.opened? c = some fd then some (.socket id) else p.table fd := by
  cases k
  case noSocket => rfl
  case succeeds n => simp [construct, keep, opens, Construction.opened?, Function.update_apply, eq_comm]
  case fails n =>
    have hn : p.table n = none := h n rfl
    rw [construct, Construction.opened?]
    split
    case isTrue =>
      simp only [keep, close, call, opens, Function.update_idem, reduceCtorEq, if_false]
      rw [← hn, Function.update_eq_self]
    case isFalse => simp [keep, opens, Function.update_apply, eq_comm]

theorem mem_construct_calls {called : ℕ × Option Holder} (h : called ∈ (p.construct c id k).calls) :
    called ∈ p.calls ∨ called = (id, some (.socket id)) := by
  cases k
  case noSocket | succeeds => exact .inl h
  case fails n =>
    rw [construct] at h
    split at h
    case isTrue  => simpa [keep, close, call, opens] using h
    case isFalse => exact .inl h

end Construct

-- A call through an object whose constructor has closed the descriptor
def Dangling (pre : List Move) : Move → Prop
  | .use id | .destruct id                               => ∃ fd, .construct .tcpSocket id (.fails fd) ∈ pre
  | .construct _ _ _ | .otherOpens _ | .otherCloses _ => False

def Careful (moves : List Move) : Prop :=
  ∀ pre move, pre ++ [move] <+: moves → ¬Dangling pre move

theorem careful_snoc : Careful (moves ++ [move]) ↔ Careful moves ∧ ¬Dangling moves move where
  mp h := ⟨fun pre move hp => h pre move (hp.trans (List.prefix_append ..)), h moves move List.prefix_rfl⟩
  mpr h pre move' hp := by
    cases List.prefix_concat_iff.mp hp
    case inl he =>
      have ⟨he, hm⟩ := List.append_inj' he rfl
      cases he; cases hm
      exact h.right
    case inr hp => exact h.left pre move' hp

theorem careful_of_connected (h : ∀ id fd, .construct .tcpSocket id (.fails fd) ∉ moves) : Careful moves := by
  intro pre move hp hd
  cases move
  case use | destruct =>
    have ⟨fd, hm⟩ := hd
    exact h _ fd (hp.subset (List.mem_append_left _ hm))
  all_goals exact hd

-- What can be said of the process in any case
structure Sound (moves : List Move) (p : Process) : Prop where
  unique {c c' : SocketClass} {id : ℕ} {k k' : Construction} :
    .construct c id k ∈ moves → .construct c' id k' ∈ moves → c = c' ∧ k = k'
  destructed {id : ℕ} : .destruct id ∈ moves → ∃ c k, .construct c id k ∈ moves ∧ (k.object? c).isSome
  sockets {id : ℕ} {v : Option ℕ} :
    p.sockets id = some v ↔ .destruct id ∉ moves ∧ ∃ c k, .construct c id k ∈ moves ∧ k.object? c = some v
  opened {id fd : ℕ} : p.table fd = some (.socket id) → ∃ c k, .construct c id k ∈ moves ∧ k.opened? c = some fd

-- What can be said if no call goes wrong
structure Proper (moves : List Move) (p : Process) : Prop where
  own {called : ℕ × Option Holder} : called ∈ p.calls → called.2 = some (.socket called.1)
  table {id fd : ℕ} :
    p.table fd = some (.socket id) ↔ .destruct id ∉ moves ∧ ∃ c k, .construct c id k ∈ moves ∧ k.opened? c = some fd

theorem Enabled.fresh {c' : SocketClass} {k' : Construction} (he : p.Enabled moves (.construct c id k)) :
    .construct c' id k' ∉ moves :=
  fun hm => he.left (List.mem_filterMap.mpr ⟨_, hm, rfl⟩)

theorem Sound.not_destructed (h : p.Sound moves) (he : p.Enabled moves (.construct c id k)) : .destruct id ∉ moves := by
  intro hm
  have ⟨_, _, hc, _⟩ := h.destructed hm
  exact he.fresh hc

theorem exists_construct_snoc {P : SocketClass → Construction → Prop} (hf : ∀ c' k', .construct c' id k' ∉ moves) :
    (∃ c' k', .construct c' id' k' ∈ moves ++ [.construct c id k] ∧ P c' k') ↔
      if id' = id then P c k else ∃ c' k', .construct c' id' k' ∈ moves ∧ P c' k' := by
  split
  case isTrue h =>
    subst h
    simp [hf]
  case isFalse h => simp [h]

theorem Sound.construct (h : p.Sound moves) (he : p.Enabled moves (.construct c id k)) :
    (p.construct c id k).Sound (moves ++ [.construct c id k]) where
  unique {c₁ c₂ id' k₁ k₂} h₁ h₂ := by
    have hf c' k' : Move.construct c' id k' ∉ moves := he.fresh
    simp only [List.mem_append, List.mem_singleton, Move.construct.injEq] at h₁ h₂
    cases h₁ <;> cases h₂
    case inl.inl h₁ h₂ => exact h.unique h₁ h₂
    all_goals grind
  destructed {id'} hm := by
    have hm : .destruct id' ∈ moves := by simpa using hm
    have ⟨c', k', hc, ho⟩ := h.destructed hm
    exact ⟨c', k', List.mem_append_left _ hc, ho⟩
  sockets {id' v} := by
    rw [construct_sockets, exists_construct_snoc fun _ _ => he.fresh, Function.update_apply]
    split
    case isTrue h' => simp [h', h.not_destructed he]
    case isFalse   => simp [h.sockets]
  opened {id' fd} ho := by
    rw [construct_table he.right] at ho
    rw [exists_construct_snoc fun _ _ => he.fresh]
    split at ho
    case isTrue hk =>
      cases ho
      rwa [if_pos rfl]
    case isFalse =>
      have ⟨c', k', hc, hk⟩ := h.opened ho
      rw [if_neg fun hi => he.fresh (hi ▸ hc)]
      exact ⟨c', k', hc, hk⟩

theorem Proper.construct (h : p.Proper moves) (hs : p.Sound moves) (he : p.Enabled moves (.construct c id k)) :
    (p.construct c id k).Proper (moves ++ [.construct c id k]) where
  own hc := by
    cases mem_construct_calls hc
    case inl hc => exact h.own hc
    case inr hc => rw [hc]
  table {id' fd} := by
    have hd : Move.destruct id' ∈ moves ++ [.construct c id k] ↔ .destruct id' ∈ moves := by simp
    rw [construct_table he.right, exists_construct_snoc fun _ _ => he.fresh, hd]
    cases Decidable.em (id' = id)
    case inl hi =>
      subst hi
      have ht : p.table fd ≠ some (.socket id') := by
        intro ht
        have ⟨_, _, hc, _⟩ := hs.opened ht
        exact he.fresh hc
      rw [if_pos rfl, and_iff_right (hs.not_destructed he), ite_eq_left_iff]
      exact ⟨fun h => not_not.mp fun hk => ht (h hk), fun hk hn => absurd hk hn⟩
    case inr hi =>
      rw [if_neg hi, ← h.table]
      split
      case isFalse   => rfl
      case isTrue hk =>
        rw [he.right fd (Construction.fd?_of_opened? hk)]
        simpa using Ne.symm hi

-- A move that neither constructs nor destructs a socket
def Move.Neutral : Move → Prop
  | .construct _ _ _ | .destruct _                   => False
  | .use _ | .otherOpens _ | .otherCloses _ => True

theorem Move.Neutral.construct_snoc (hm : move.Neutral) :
    .construct c id k ∈ moves ++ [move] ↔ .construct c id k ∈ moves := by
  cases move <;> simp_all [Neutral]

theorem Move.Neutral.destruct_snoc (hm : move.Neutral) : .destruct id ∈ moves ++ [move] ↔ .destruct id ∈ moves := by
  cases move <;> simp_all [Neutral]

theorem Sound.neutral (h : p.Sound moves) (hm : move.Neutral) (hs : p'.sockets = p.sockets)
    (ht : ∀ {id fd}, p'.table fd = some (.socket id) ↔ p.table fd = some (.socket id)) : p'.Sound (moves ++ [move]) where
  unique     := by simp only [hm.construct_snoc]; exact h.unique
  destructed := by simp only [hm.construct_snoc, hm.destruct_snoc]; exact h.destructed
  sockets    := by simp only [hm.construct_snoc, hm.destruct_snoc, hs]; exact h.sockets
  opened     := by simp only [hm.construct_snoc, ht]; exact h.opened

theorem Proper.neutral (h : p.Proper moves) (hm : move.Neutral)
    (hc : ∀ {called}, called ∈ p'.calls → called ∈ p.calls ∨ called.2 = some (.socket called.1))
    (ht : ∀ {id fd}, p'.table fd = some (.socket id) ↔ p.table fd = some (.socket id)) : p'.Proper (moves ++ [move]) where
  own hm := (hc hm).elim h.own id
  table  := by simp only [hm.construct_snoc, hm.destruct_snoc, ht]; exact h.table

section Objects

theorem use_sockets : (p.use id).sockets = p.sockets := by
  rw [use]
  split <;> rfl

theorem use_table : (p.use id).table = p.table := by
  rw [use]
  split <;> rfl

theorem destruct_sockets : (p.destruct id).sockets = Function.update p.sockets id none := by
  rw [destruct]
  split <;> rfl

theorem destruct_table (ho : p.sockets id = some v) :
    (p.destruct id).table fd = if v = some fd then none else p.table fd := by
  rw [destruct, ho]
  cases v
  case none   => rfl
  case some n => simp [keep, close, call, Function.update_apply, eq_comm]

theorem use_calls (ho : p.sockets id = some v) :
    (p.use id).calls = p.calls ++ v.toList.map fun fd => (id, p.table fd) := by
  rw [use, ho]
  cases v
  case none => exact (List.append_nil _).symm
  case some => rfl

theorem destruct_calls (ho : p.sockets id = some v) :
    (p.destruct id).calls = p.calls ++ v.toList.map fun fd => (id, p.table fd) := by
  rw [destruct, ho]
  cases v
  case none => exact (List.append_nil _).symm
  case some => rfl

-- A descriptor that is open for an object is the one that it has.
theorem Sound.object_eq (h : p.Sound moves) (ho : p.sockets id = some v) (ht : p.table fd = some (.socket id)) :
    v = some fd := by
  have ⟨c, k, hc, hk⟩ := h.opened ht
  have ⟨_, c', k', hc', hk'⟩ := h.sockets.mp ho
  obtain ⟨rfl, rfl⟩ := h.unique hc hc'
  cases Construction.opened?_eq_some_iff.mp hk
  case inl hk =>
    subst hk
    exact (Option.some.inj hk').symm
  case inr hk =>
    cases hk.left; cases hk.right
    contradiction

theorem Sound.own (h : p.Sound moves) (hp : p.Proper moves) (ho : p.sockets id = some (some fd))
    (hd : ¬∃ fd, .construct .tcpSocket id (.fails fd) ∈ moves) : p.table fd = some (.socket id) := by
  have ⟨hn, c, k, hc, hk⟩ := h.sockets.mp ho
  cases Construction.opened?_of_object? hk
  case inl hk => exact hp.table.mpr ⟨hn, c, k, hc, hk⟩
  case inr hk =>
    cases hk.left; cases hk.right
    exact absurd ⟨fd, hc⟩ hd

theorem Sound.own_calls (h : p.Sound moves) (hp : p.Proper moves) (ho : p.sockets id = some v)
    (hd : ¬∃ fd, .construct .tcpSocket id (.fails fd) ∈ moves) :
    ∀ called ∈ p.calls ++ v.toList.map fun fd => (id, p.table fd), called.2 = some (.socket called.1) := by
  intro called hc
  cases List.mem_append.mp hc
  case inl hc => exact hp.own hc
  case inr hc =>
    obtain ⟨fd, hv, rfl⟩ := List.mem_map.mp hc
    exact h.own hp (ho.trans (congrArg some (Option.mem_toList.mp hv))) hd

theorem Sound.stray (h : p.Sound moves) (ho : p.sockets id = some v)
    (hd : ∃ fd, .construct .tcpSocket id (.fails fd) ∈ moves) :
    ∃ called ∈ p.calls ++ v.toList.map fun fd => (id, p.table fd), called.2 ≠ some (.socket called.1) := by
  obtain ⟨fd, hd⟩ := hd
  have ⟨_, c, k, hc, hk⟩ := h.sockets.mp ho
  obtain ⟨rfl, rfl⟩ := h.unique hc hd
  cases hk
  refine ⟨(id, p.table fd), by simp, fun ht => ?_⟩
  have ⟨c, k, hc, hk⟩ := h.opened ht
  obtain ⟨rfl, rfl⟩ := h.unique hc hd
  contradiction

theorem Sound.destruct (h : p.Sound moves) (he : p.Enabled moves (.destruct id)) :
    (p.destruct id).Sound (moves ++ [.destruct id]) where
  unique {c c' id' k k'} h₁ h₂ := by
    have hm c k : Move.construct c id' k ∈ moves ++ [.destruct id] ↔ .construct c id' k ∈ moves := by simp
    exact h.unique ((hm c k).mp h₁) ((hm c' k').mp h₂)
  destructed {id'} hm := by
    have ⟨v, ho⟩ := Option.isSome_iff_exists.mp he
    have ⟨_, c, k, hc, hk⟩ := h.sockets.mp ho
    cases Decidable.em (id' = id)
    case inl hi => exact ⟨c, k, List.mem_append_left _ (hi ▸ hc), Option.isSome_iff_exists.mpr ⟨v, hk⟩⟩
    case inr hi =>
      have hm : .destruct id' ∈ moves := by simpa [hi] using hm
      have ⟨c, k, hc, hk⟩ := h.destructed hm
      exact ⟨c, k, List.mem_append_left _ hc, hk⟩
  sockets {id' v} := by
    rw [destruct_sockets, Function.update_apply]
    split
    case isTrue hi  => simp [hi]
    case isFalse hi => simp [h.sockets, hi]
  opened {id' fd} ht := by
    have ⟨v, ho⟩ := Option.isSome_iff_exists.mp he
    rw [destruct_table ho] at ht
    split at ht
    case isTrue => contradiction
    case isFalse =>
      have ⟨c, k, hc, hk⟩ := h.opened ht
      exact ⟨c, k, List.mem_append_left _ hc, hk⟩

theorem Proper.destruct (hp : p.Proper moves) (h : p.Sound moves) (he : p.Enabled moves (.destruct id))
    (hd : ¬Dangling moves (.destruct id)) : (p.destruct id).Proper (moves ++ [.destruct id]) := by
  have ⟨v, ho⟩ := Option.isSome_iff_exists.mp he
  refine ⟨fun hc => h.own_calls hp ho hd _ (destruct_calls ho ▸ hc), fun {id' fd} => ?_⟩
  rw [destruct_table ho]
  cases Decidable.em (id' = id)
  case inl hi =>
    subst hi
    have ht : (if v = some fd then none else p.table fd) ≠ some (.socket id') := by
      intro ht
      split at ht
      case isTrue     => contradiction
      case isFalse hv => exact hv (h.object_eq ho ht)
    exact iff_of_false ht fun hn => hn.left (by simp)
  case inr hi =>
    have hm : Move.destruct id' ∈ moves ++ [.destruct id] ↔ .destruct id' ∈ moves := by simp [hi]
    have hc c k : Move.construct c id' k ∈ moves ++ [.destruct id] ↔ .construct c id' k ∈ moves := by simp
    simp only [hm, hc, ← hp.table]
    split
    case isFalse   => rfl
    case isTrue hv =>
      subst hv
      rw [h.own hp ho hd]
      simpa using Ne.symm hi

end Objects

theorem update_eq_iff {holder : Option Holder} (h : p.table fd ≠ some (.socket id)) (hn : holder ≠ some (.socket id)) :
    Function.update p.table fd holder fd' = some (.socket id) ↔ p.table fd' = some (.socket id) := by
  rw [Function.update_apply]
  split
  case isTrue hf => exact iff_of_false hn (hf ▸ h)
  case isFalse   => rfl

structure Session (moves : List Move) (p : Process) : Prop where
  sound  : p.Sound moves
  proper : Careful moves → p.Proper moves
  stray  : ¬Careful moves → ∃ called ∈ p.calls, called.2 ≠ some (.socket called.1)

theorem calls_subset (hs : step p move = .ok p') : p.calls ⊆ p'.calls := by
  cases move <;> cases hs
  case construct c id k =>
    cases k
    case noSocket | succeeds => exact List.Subset.refl _
    case fails =>
      rw [construct]
      split
      case isTrue  => exact List.subset_append_left ..
      case isFalse => exact List.Subset.refl _
  case use | destruct =>
    first | rw [use] | rw [destruct]
    split
    case h_1 => exact List.subset_append_left ..
    all_goals exact List.Subset.refl _
  case otherOpens | otherCloses => exact List.Subset.refl _

theorem Session.snoc (h : p.Session moves) (hs : step p move = .ok p') (sound : p'.Sound (moves ++ [move]))
    (proper : p.Proper moves → ¬Dangling moves move → p'.Proper (moves ++ [move]))
    (stray : Dangling moves move → ∃ called ∈ p'.calls, called.2 ≠ some (.socket called.1)) :
    p'.Session (moves ++ [move]) where
  sound     := sound
  proper hc := proper (h.proper (careful_snoc.mp hc).left) (careful_snoc.mp hc).right
  stray hc  := by
    rw [careful_snoc, not_and_or, not_not] at hc
    cases hc
    case inl hc =>
      have ⟨called, hm, hn⟩ := h.stray hc
      exact ⟨called, calls_subset hs hm, hn⟩
    case inr hd => exact stray hd

-- The other code changes only what is not open for a socket.
theorem Session.other {holder : Option Holder} (h : p.Session moves)
    (hs : step p move = .ok { p with table := Function.update p.table fd holder }) (hm : move.Neutral)
    (hd : ¬Dangling moves move) (hf : ∀ id, p.table fd ≠ some (.socket id)) (hn : ∀ id, holder ≠ some (.socket id)) :
    Session (moves ++ [move]) { p with table := Function.update p.table fd holder } := by
  have ht {id n} : Function.update p.table fd holder n = some (.socket id) ↔ p.table n = some (.socket id) :=
    update_eq_iff (hf id) (hn id)
  exact h.snoc hs (h.sound.neutral hm rfl ht) (fun hp _ => hp.neutral hm .inl ht) fun hx => absurd hx hd

theorem session_invariant :
    Run.Invariant step {} (fun pre p move => p.Enabled pre move) fun moves p => p.Session moves where
  init := by
    refine ⟨⟨?_, ?_, ?_, ?_⟩, fun _ => ⟨?_, ?_⟩, fun hc => absurd (fun pre move hp => ?_) hc⟩
    all_goals simp_all
  next := by
    intro moves p move h he
    cases move
    case construct c id k =>
      exact ⟨_, rfl, h.snoc rfl (h.sound.construct he) (fun hp _ => hp.construct h.sound he) False.elim⟩
    case use id =>
      have ⟨v, ho⟩ := Option.isSome_iff_exists.mp he
      have ht {n fd} : (p.use id).table fd = some (.socket n) ↔ p.table fd = some (.socket n) := by rw [use_table]
      refine ⟨_, rfl, h.snoc rfl (h.sound.neutral trivial use_sockets ht) (fun hp hd => ?_) fun hd => ?_⟩
      · exact hp.neutral trivial (fun hc => .inr <| h.sound.own_calls hp ho hd _ <| use_calls ho ▸ hc) ht
      · exact use_calls ho ▸ h.sound.stray ho hd
    case destruct id =>
      have ⟨v, ho⟩ := Option.isSome_iff_exists.mp he
      refine ⟨_, rfl, h.snoc rfl (h.sound.destruct he) (fun hp hd => hp.destruct h.sound he hd) fun hd => ?_⟩
      exact destruct_calls ho ▸ h.sound.stray ho hd
    case otherOpens fd =>
      have he : p.table fd = none := he
      exact ⟨_, rfl, h.other rfl trivial id (by simp [he]) (by simp)⟩
    case otherCloses fd =>
      have he : p.table fd = some .other := he
      exact ⟨_, rfl, h.other rfl trivial id (by simp [he]) (by simp)⟩

-- The sockets make calls on their own descriptors only, as long as no call is made through a socket
-- whose connection has failed.
theorem calls_own_iff (h : Run.Admits step {} (fun pre p move => p.Enabled pre move) moves) :
    ∃ p, Run.exec step {} moves = .ok p ∧
      ((∀ called ∈ p.calls, called.2 = some (.socket called.1)) ↔ Careful moves) := by
  obtain ⟨p, hp, hs⟩ := session_invariant.exec h
  refine ⟨p, hp, fun hc => ?_, fun hc _ hm => (hs.proper hc).own hm⟩
  by_contra hn
  obtain ⟨called, hm, hne⟩ := hs.stray hn
  exact hne (hc called hm)

-- What then is still open belongs to sockets that have not been destructed, or has been lost in a constructor.
theorem open_iff (h : Run.Admits step {} (fun pre p move => p.Enabled pre move) moves) (hc : Careful moves) :
    ∃ p, Run.exec step {} moves = .ok p ∧ ∀ id fd, p.table fd = some (.socket id) ↔
      (∃ c, .construct c id (.succeeds fd) ∈ moves) ∧ .destruct id ∉ moves ∨
        .construct .udpMulticastSocket id (.fails fd) ∈ moves := by
  obtain ⟨p, hp, hs⟩ := session_invariant.exec h
  refine ⟨p, hp, fun id fd => ?_⟩
  rw [(hs.proper hc).table]
  constructor
  case mp =>
    rintro ⟨hn, c, k, hm, hk⟩
    cases Construction.opened?_eq_some_iff.mp hk
    case inl hk => exact .inl ⟨⟨c, hk ▸ hm⟩, hn⟩
    case inr hk => exact .inr (hk.left ▸ hk.right ▸ hm)
  case mpr =>
    intro h
    cases h
    case inl h =>
      obtain ⟨⟨c, hm⟩, hn⟩ := h
      exact ⟨hn, c, _, hm, rfl⟩
    case inr hm =>
      refine ⟨fun hd => ?_, _, _, hm, rfl⟩
      obtain ⟨c, k, hc, hk⟩ := hs.sound.destructed hd
      obtain ⟨rfl, rfl⟩ := hs.sound.unique hc hm
      contradiction

section Samples

-- A file gets the number of a socket whose connection has been refused. The socket then writes to the file, and its
-- destructor closes it.
def refused : List Move := [.construct .tcpSocket 0 (.fails 3), .otherOpens 3, .use 0, .destruct 0]

theorem refused_enabled : Run.Admits step {} (fun pre p move => p.Enabled pre move) refused := by
  refine (((Run.Admits.nil.snoc ?_).snoc ?_).snoc ?_).snoc ?_
  all_goals
    intro p hp
    cases hp
    decide

theorem calls_own_iff_refused :
    ∃ p, Run.exec step {} refused = .ok p ∧ p.calls = [(0, some (.socket 0)), (0, some .other), (0, some .other)] ∧
      ¬Careful refused := by
  obtain ⟨p, hp, hc⟩ := calls_own_iff refused_enabled
  cases hp
  refine ⟨_, rfl, rfl, fun h => ?_⟩
  exact absurd (hc.mpr h) (by decide)

def unreachable : List Move := [.construct .udpMulticastSocket 0 (.fails 3), .construct .tcpSocket 1 (.succeeds 4), .destruct 1]

theorem unreachable_enabled : Run.Admits step {} (fun pre p move => p.Enabled pre move) unreachable := by
  refine ((Run.Admits.nil.snoc ?_).snoc ?_).snoc ?_
  all_goals
    intro p hp
    cases hp
    decide

-- Nobody can close the descriptor of a socket whose constructor has thrown.
theorem open_iff_unreachable :
    ∃ p, Run.exec step {} unreachable = .ok p ∧ ∀ id fd, p.table fd = some (.socket id) ↔ id = 0 ∧ fd = 3 := by
  obtain ⟨p, hp, ht⟩ := open_iff unreachable_enabled (careful_of_connected (by simp [unreachable]))
  refine ⟨p, hp, fun id fd => (ht id fd).trans ?_⟩
  simp only [unreachable, List.mem_cons, List.not_mem_nil, or_false, Move.construct.injEq, Move.destruct.injEq,
    Construction.succeeds.injEq, Construction.fails.injEq, reduceCtorEq, and_false, true_and, false_or]
  constructor
  case mp =>
    intro h
    cases h
    case inl h =>
      obtain ⟨⟨c, hc⟩, hn⟩ := h
      exact absurd hc.right.left hn
    case inr h => exact h
  case mpr => exact .inr

end Samples

end Process
