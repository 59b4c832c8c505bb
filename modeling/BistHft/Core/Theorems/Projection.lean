import BistHft.Core.Theorems.Locality

-- The run of a feed, seen at one side of one orderbook.

-- Orderbook and side of the key.
def OrderKey.site (k : OrderKey) : UInt32 × SideClass :=
  (k.1, sideClass k.2.2)

namespace OrderbookBuilder

variable {b b' b₁ : OrderbookBuilder} {site : UInt32 × SideClass} {k : OrderKey} {o : Option ItchOrder} {l : Levels}
variable {w : Option (Option ItchOrder × Levels)} {call : Call} {calls calls' : List Call}

-- Two builders hold the same orders and the same levels there. The levels are empty where there is
-- no orderbook.
structure AgreeAt (site : UInt32 × SideClass) (b b' : OrderbookBuilder) : Prop where
  orders : ∀ k : OrderKey, k.site = site → b.orderMap.lookup k = b'.orderMap.lookup k
  levels : b.levels site.1 site.2 = b'.levels site.1 site.2

theorem exists_key : (site : UInt32 × SideClass) → ∃ k : OrderKey, k.site = site
  | (id, .bid) => ⟨(id, 0, 'B'.toUInt8), rfl⟩
  | (id, .ask) => ⟨(id, 0, 'S'.toUInt8), rfl⟩

namespace AgreeAt

theorem refl : AgreeAt site b b :=
  ⟨fun _ _ => rfl, rfl⟩

theorem side (h : AgreeAt k.site b b') : b.side k = b'.side k :=
  h.levels

theorem write (h : AgreeAt k.site b b') : AgreeAt k.site (b.write k o l) (b'.write k o l) where
  orders j hj := by rw [write_lookup, write_lookup, h.orders j hj]
  levels      := by simp [OrderbookBuilder.levels, OrderKey.site, write_orderbook]

theorem writeOpt (h : AgreeAt k.site b b') : AgreeAt k.site (b.writeOpt k w) (b'.writeOpt k w) := by
  cases w
  case none => exact h
  case some => exact h.write

theorem writeOpt_other (h : AgreeAt site b b') (hk : k.site ≠ site) : AgreeAt site (b.writeOpt k w) b' where
  orders j hj := (writeOpt_frame fun he => hk (he.trans hj)).left.trans (h.orders j hj)
  levels := by
    have ⟨j, hj⟩ := exists_key site
    subst hj
    exact (writeOpt_frame hk).right.trans h.levels

theorem onSite_eq (h : AgreeAt call.site b b') :
    onSite (b.orderMap.lookup call.key) (b.side call.key) call =
      onSite (b'.orderMap.lookup call.key) (b'.side call.key) call := by
  rw [h.orders call.key rfl, side h]

end AgreeAt

theorem agreeAt_projection : Run.Projection Call.apply Call.site AgreeAt where
  skip hc hr hs := by
    obtain ⟨_, _, rfl⟩ := apply_ok_iff.mp hs
    exact hr.writeOpt_other hc
  step hr hs := by
    obtain ⟨w, hw, rfl⟩ := apply_ok_iff.mp hs
    exact ⟨_, apply_ok_iff.mpr ⟨w, hr.onSite_eq ▸ hw, rfl⟩, hr.writeOpt⟩

-- Neither other orderbooks nor the other side of the same orderbook matter, and so the way in which
-- their messages are interleaved does not matter.
theorem run_projects (h : run calls = .ok b) :
    (∀ site, ∃ b', run (calls.filter (·.site = site)) = .ok b' ∧ AgreeAt site b b') ∧
    ∀ calls', (∀ site, calls.filter (·.site = site) = calls'.filter (·.site = site)) → run calls' = .ok b :=
  ⟨fun _ => agreeAt_projection.exec .refl h, fun _ hs => run_eq_of_sites hs h⟩

section Samples

def sampleOther : AddOrder :=
  { sampleAdd 7 with side := 'S'.toUInt8 }

def sampleMixed : List Call :=
  [.addOrder (sampleAdd 10), .addOrder sampleOther, .executeOrder (sampleExecuted 4)]

theorem run_projects_sample :
    ∃ b, run sampleMixed = .ok b ∧
      (∀ site, ∃ b', run (sampleMixed.filter (·.site = site)) = .ok b' ∧ AgreeAt site b b') ∧
      ∀ calls', (∀ site, sampleMixed.filter (·.site = site) = calls'.filter (·.site = site)) → run calls' = .ok b :=
  ⟨_, rfl, run_projects rfl⟩

end Samples

end OrderbookBuilder
