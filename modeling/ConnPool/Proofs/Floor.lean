import ConnPool.Proofs.History
import ConnPool.Proofs.Outline

namespace ConnPool.Pool

variable {who : Option Nat} {p q : Pool}

theorem floor_of_outline {o : Outline} (ho : q.outline = o) (hf : o.floor = p.floor)
    (hm : o.maxSize = p.config.maxSize) (hp : p.floor ≤ p.cap) : q.floor ≤ q.cap := by
  have hfloor : q.floor = p.floor := (congrArg Outline.floor ho).trans hf
  have hcap : q.cap = p.cap := congrArg UInt64.toNat ((congrArg Outline.maxSize ho).trans hm)
  rw [hfloor, hcap]
  exact hp

theorem transition_floor (id : HandleId) (s t : State) (hp : p.floor ≤ p.cap) :
    (p.transition id s t).2.floor ≤ (p.transition id s t).2.cap := by
  rcases transition_cases p id s t with hlost | ⟨-, -, hwon⟩
  · rw [hlost]
    exact hp
  · rw [hwon]
    exact hp

theorem Step.floor (h : Step who p q) (hp : p.floor ≤ p.cap) : q.floor ≤ q.cap := by
  cases h with
  | hush same => exact floor_of_outline (outline_of_muted same) rfl rfl hp
  | setFloor n fits => exact fits
  | @forget t nothing =>
    obtain ⟨rs, htake⟩ | ⟨n, rs, -, htake⟩ := p.takeLocal_cases t
    · rw [htake]
      exact hp
    · rw [htake] at nothing
      cases nothing
  | park self isOpen parked drawn same =>
    unfold Pool.park
    split
    · exact hp
    · split
      split <;> exact hp
  | comeBack t isOpen find active full => exact floor_of_outline (outline_comeBack t) rfl rfl hp
  | miscarry e first => exact floor_of_outline (outline_miscarry _ e) rfl rfl hp
  | abandon n =>
    unfold Pool.abandon
    split
    · next creation hclosed hn => cases creation.acquirer <;> exact hp
    · exact hp
  | _ => exact hp

theorem Steps.floor (h : Steps who p q) (hp : p.floor ≤ p.cap) : q.floor ≤ q.cap := by
  induction h with
  | refl => exact hp
  | tail first last ih => exact last.floor ih

theorem Claim.floor {id : HandleId} (h : Claim who p id q) (hp : p.floor ≤ p.cap) :
    q.floor ≤ q.cap := by
  cases h with
  | @own t q take =>
    obtain ⟨rs, hnone⟩ | ⟨n, rs, -, hsome⟩ := p.takeLocal_cases t
    · cases take.symm.trans hnone
    · rw [(Prod.mk.inj (take.symm.trans hsome)).2]
      exact transition_floor (p := { p with recents := rs }) ⟨n⟩ _ _ hp
  | queued take claim =>
    obtain ⟨-, -, -, rfl⟩ := claim_eq claim
    exact hp
  | served self mem served claim =>
    obtain ⟨-, -, -, rfl⟩ := claim_eq claim
    exact hp

theorem Course.floor {bs : List Birth} (h : Course who p bs q) (hs : p.Sound)
    (hp : p.floor ≤ p.cap) : q.floor ≤ q.cap := by
  cases h with
  | calm steps => exact steps.floor hp
  | lent before lend after same =>
    obtain @⟨id, x, h, c, t, started, claim, find, full⟩ := lend
    have hassign : (x.assign t started id).floor ≤ (x.assign t started id).cap :=
      floor_of_outline (outline_assign t started) rfl rfl (claim.floor (before.floor hp))
    refine after.floor ?_
    simp only [handOver]
    exact floor_of_outline (outline_lend _ _) rfl rfl hassign
  | @birth m _ c cs x before first serial after same =>
    have hm := before.floor hp
    have hlimits : m.outline.tried.bear.floor = m.floor ∧
        m.outline.tried.bear.maxSize = m.config.maxSize := by
      simp only [Outline.bear]
      split <;> exact ⟨rfl, rfl⟩
    exact after.floor (floor_of_outline (outline_birth c x) hlimits.1 hlimits.2 hm)
  | closing before isOpen after final =>
    have hshut := outline_shut (before.sound hs).lineup
    exact after.floor (floor_of_outline hshut rfl rfl (before.floor hp))

/-- In a configuration that is in order the floor is not above the cap. -/
theorem min_le_max {c : Config} (hc : c.Accepted) : c.minSize ≤ c.maxSize := by
  refine UInt64.not_lt.mp fun hgt => ?_
  have hgt : c.minSize > c.maxSize := hgt
  simp only [Config.Accepted, Config.fault?] at hc
  rw [if_pos hgt] at hc
  split at hc
  · cases hc
  · split at hc <;> cases hc

theorem floor_of_build {c : Config} {f : Factory} {ls : List Listener} {us : Units}
    (hb : build c f ls us = .ok (some p)) : p.floor ≤ p.cap := by
  obtain ⟨hc, -, bus, -, rfl⟩ := build_iff.mp hb
  exact (steps_start (new c f ls us bus)).floor (UInt64.le_iff_toNat_le.mp (min_le_max hc))

/-- Whatever is done to a pool, its floor is not above its cap. -/
theorem floor_le_cap {c : Config} {f : Factory} {ls : List Listener} {us : Units}
    (hb : build c f ls us = .ok (some p)) (ops : List Operation) :
    (p.after ops).floor ≤ (p.after ops).cap := by
  have hrun : ∀ {r : Pool}, r.Settled → r.floor ≤ r.cap →
      (r.after ops).floor ≤ (r.after ops).cap := by
    intro r
    induction ops generalizing r with
    | nil => exact fun _ hr => hr
    | cons op ops ih =>
      exact fun hr hle => ih (hr.run op) ((op.course hr.sound hr.final).floor hr.sound hle)
  exact hrun (fresh_of_build hb).settled (floor_of_build hb)

/-- Filling up schedules creations and does nothing else. -/
theorem fillTo_same (p : Pool) (n : Nat) :
    p.fillTo n = { p with
      size := (p.fillTo n).size
      pending := (p.fillTo n).pending
      inFlight := (p.fillTo n).inFlight } := by
  have hrepeat : ∀ k : Nat, k.repeat (schedule none) p = { p with
      size := (k.repeat (schedule none) p).size
      pending := (k.repeat (schedule none) p).pending
      inFlight := (k.repeat (schedule none) p).inFlight } := by
    intro k
    induction k with
    | zero => rfl
    | succ k ih =>
      change schedule none (k.repeat (schedule none) p) = _
      rw [ih]
      rfl
  simp only [fillTo]
  split
  · rfl
  · exact hrepeat _

/-- An open pool is filled up to its floor. -/
theorem size_topUp (ho : p.closed = false) (hp : p.floor ≤ p.cap) :
    p.topUp.size.count = max p.size.count p.floor := by
  have hfill : p.outline.fill.size = p.size.count + (min p.floor p.cap - p.size.count) :=
    congrArg Outline.size
      (if_neg (by rw [show p.outline.closed = false from ho]; exact Bool.false_ne_true))
  have hsize : p.topUp.size.count = p.outline.fill.size := congrArg Outline.size outline_topUp
  omega

end ConnPool.Pool
