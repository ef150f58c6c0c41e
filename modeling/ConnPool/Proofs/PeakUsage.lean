import ConnPool.Proofs.Course

namespace ConnPool

namespace Gauges

theorem maxUsed_leave (g : Gauges) (s : State) : (g.leave s).maxUsed = g.maxUsed := by
  cases s <;> rfl

theorem active_leave (g : Gauges) (s : State) :
    (g.leave s).checkedOut.count ≤ g.checkedOut.count := by
  cases s with
  | checkedOut =>
    change g.checkedOut.down.count ≤ _
    rw [Tally.count_down]
    omega
  | _ => exact Nat.le_refl _

theorem active_moved_in (g : Gauges) :
    (g.moved .checkedOut .checkedIn).checkedOut.count ≤ g.checkedOut.count :=
  active_leave (g.enter .checkedIn) .checkedOut

end Gauges

namespace Pool

variable {who : Option Nat} {p q : Pool}

/-- A step lends nothing, so that no more handles are active after it. -/
structure Calm (p q : Pool) : Prop where
  peak : q.gauges.maxUsed = p.gauges.maxUsed
  active : q.activeCount ≤ p.activeCount

theorem Calm.of_gauges (h : q.gauges = p.gauges) : Calm p q :=
  ⟨congrArg Gauges.maxUsed h, Nat.le_of_eq (congrArg (·.checkedOut.count) h)⟩

theorem Calm.of_ledger (h : q.ledger = p.ledger) : Calm p q :=
  .of_gauges (congrArg Ledger.gauges h)

theorem Calm.leave {s : State} (h : q.gauges = p.gauges.leave s) : Calm p q := by
  refine ⟨?_, ?_⟩
  · rw [h, Gauges.maxUsed_leave]
  · rw [activeCount, h]
    exact Gauges.active_leave _ _

theorem Calm.trans {r : Pool} (h : Calm p q) (k : Calm q r) : Calm p r :=
  ⟨k.peak.trans h.peak, Nat.le_trans k.active h.active⟩

theorem comeBack_gauges (t : Thread) (id : HandleId) :
    (p.comeBack t id).gauges = p.gauges.moved .checkedOut .checkedIn := by
  have havail := available_ledger (p := p.homecoming t id) t id
  have hcache := cacheLocally_ledger (p := (((p.clearOwner id).touch id).restate id .checkedOut
    .checkedIn).count fun n => { n with returned := n.returned + 1 }) t id
  exact congrArg Ledger.gauges (havail.trans hcache)

theorem abandon_gauges (n : Nat) : (p.abandon n).gauges = p.gauges := by
  simp only [abandon]
  split
  · next creation hclosed hn => cases creation.acquirer <;> rfl
  · rfl

theorem Step.calm (h : Step who p q) : Calm p q := by
  cases h with
  | hush same => exact .of_gauges (eq_of_muted Pool.gauges (fun _ => rfl) same)
  | write n text => exact .of_ledger (write_ledger n text)
  | @forget t nothing =>
    obtain ⟨rs, htake⟩ | ⟨n, rs, -, htake⟩ := p.takeLocal_cases t
    · rw [htake]
      exact .of_gauges rfl
    · rw [htake] at nothing
      cases nothing
  | park self isOpen parked drawn same => exact .of_ledger (park_ledger _)
  | @comeBack id h c t isOpen find active full =>
    refine ⟨?_, ?_⟩
    · rw [comeBack_gauges]
      exact Gauges.maxUsed_leave _ _
    · rw [activeCount, comeBack_gauges]
      exact Gauges.active_moved_in p.gauges
  | expel reason find full => exact .leave rfl
  | letGo mem find => exact .leave rfl
  | @miscarry c cs e first =>
    have hend := endCreation_ledger (p := p.tried.forgo) c (some e)
    have hgauges : (p.miscarry c e).gauges = p.gauges := congrArg Ledger.gauges hend
    exact .of_gauges hgauges
  | abandon n => exact .of_gauges (abandon_gauges n)
  | _ => exact .of_gauges rfl

theorem Steps.calm (h : Steps who p q) : Calm p q := by
  induction h with
  | refl => exact .of_gauges rfl
  | tail first last ih => exact ih.trans last.calm

/-- A birth makes no handle active. -/
theorem birth_calm (hp : p.Sound) (c : Creation) (x : Connection) : Calm p (p.birth c x) := by
  have hfresh := id_ne_next hp.books.fitting
  simp only [birth]
  split
  · have hend := endCreation_ledger (p := p.tried.stillbear x) c none
    have hborn := stillbear_ledger (p := p.tried) hfresh x
    have hgauges : (p.tried.stillbear x).gauges = p.gauges := congrArg Ledger.gauges hborn
    have hsame : ((p.tried.stillbear x).concludeCreation c none).gauges = p.gauges :=
      (congrArg Ledger.gauges hend).trans hgauges
    exact .of_gauges hsame
  · have hend := endCreation_ledger (p := p.tried.bear x) c none
    have hborn := bear_ledger (p := p.tried) hfresh x
    have hgauges : (p.tried.bear x).gauges = p.gauges.enter .checkedIn :=
      congrArg Ledger.gauges hborn
    have hsame : ((p.tried.bear x).concludeCreation c none).gauges = p.gauges.enter .checkedIn :=
      (congrArg Ledger.gauges hend).trans hgauges
    refine ⟨?_, ?_⟩
    · rw [hsame]
      rfl
    · rw [activeCount, hsame]
      exact Nat.le_refl _

/-- The peak of usage is at least what is in use now. -/
theorem active_le_peak (hp : p.Sound) : p.activeCount ≤ p.gauges.maxUsed := by
  have hlevel := hp.books.counted.gauges_eq
  have hle := hp.books.counted.active_le
  have hactive : p.activeCount = p.ledger.active := congrArg (·.checkedOut.count) hlevel
  rw [hactive]
  exact hle

/-- A loan raises the peak to what is in use then, if that is more. -/
theorem Lent.peak (h : Lent p q) : q.gauges.maxUsed = max p.gauges.maxUsed q.activeCount := by
  rw [activeCount, h.gauges]
  rfl

theorem Course.peak {bs : List Birth} (h : Course who p bs q) (hp : p.Sound) (hfinal : p.Final) :
    q.gauges.maxUsed = max p.gauges.maxUsed q.activeCount := by
  have calm : ∀ {r : Pool}, Calm p r → r.gauges.maxUsed = max p.gauges.maxUsed r.activeCount := by
    intro r hr
    have hle := active_le_peak hp
    have hpeak := hr.peak
    have hactive := hr.active
    omega
  cases h with
  | calm steps => exact calm steps.calm
  | @lent m n _ before lend after same =>
    have hlent := (lend.lent (before.sound hp) (before.final hp hfinal)).peak
    have hbefore := before.calm.peak
    have hsame : q.activeCount = n.activeCount := congrArg (·.checkedOut.count) same
    have hpeak : q.gauges.maxUsed = n.gauges.maxUsed := congrArg Gauges.maxUsed same
    rw [hsame, hpeak, hlent, hbefore]
  | @birth m _ c cs x before first serial after same =>
    have hborn := birth_calm (before.sound hp) c x
    exact calm (before.calm.trans (hborn.trans (.of_gauges same)))
  | closing before isOpen after final =>
    have hshut := shut_ledger (before.sound hp).lineup
    exact calm (before.calm.trans ((Calm.of_ledger hshut).trans after.calm))

end Pool
end ConnPool
