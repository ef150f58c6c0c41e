import ConnPool.Proofs.DeskRules
import ConnPool.Proofs.Reach

namespace ConnPool

theorem Duration.toNanos_ofNanos {n : Nat} (hn : n < UInt64.size) :
    (Duration.ofNanos n).toNanos = n := by
  have hsecs : n / 1000000000 < UInt64.size := Nat.lt_of_le_of_lt (Nat.div_le_self _ _) hn
  have hword : (n / 1000000000).toUInt64.toNat = n / 1000000000 := UInt64.toNat_ofNat_of_lt hsecs
  simp only [ofNanos, toNanos, hword]
  omega

theorem Duration.eq_iff_toNanos {d e : Duration} : d = e ↔ d.toNanos = e.toNanos := by
  refine ⟨congrArg _, fun h => ?_⟩
  rw [← Duration.ofNanos_toNanos d, h, Duration.ofNanos_toNanos]

/-- What a pool was told to be like. -/
structure Settings where
  config : Config
  floor : Nat
  patience : Nat

namespace Pool

open Act (Always)

variable {p q : Pool}

def settings (p : Pool) : Settings := ⟨p.config, p.floor, p.patience⟩

/-- The settings are left alone. -/
def Obeys (p q : Pool) : Prop := q.settings = p.settings

instance : Act.Rule Always Obeys := ⟨fun _ => rfl, fun h k => Eq.trans k h, fun _ h => h⟩

instance : DeskRule Obeys where
  mend hd _ := by
    simp only [desk, Prod.mk.injEq] at hd
    obtain ⟨-, -, -, hconfig, hfloor, hpatience, -⟩ := hd
    simp only [Obeys, settings, hconfig, hfloor, hpatience]
  note _ _ _ := rfl
  notify _ _ _ _ := rfl
  schedule _ := rfl
  rouse _ _ _ := rfl
  shut _ := rfl

instance : CreationRule Always Obeys where
  tell _ _ _ := rfl
  flight _ _ := rfl
  warn _ _ := rfl

instance : WaitingRule Always Obeys where
  leave _ _ := rfl
  grow p a := by
    simp only [Obeys, grow]
    split
    · rfl
    · split <;> rfl
  park p a _ := by
    simp only [Obeys, park]
    split
    · rfl
    · split <;> rfl
  draw _ _ := rfl
  announce _ := rfl

namespace Operation

/-- What becomes of a pool's settings. -/
def retune (s : Settings) : Operation → Settings
  | setFloor n => if n > s.config.maxSize.toNat then s else { s with floor := n }
  | setPatience d => if d.isZero then s else { s with patience := d.toNanos % UInt64.size }
  | _ => s

/-- The settings are changed by those operations that are to change them. -/
theorem run_settings (op : Operation) (p : Pool) : (op.run p).settings = op.retune p.settings := by
  cases op with
  | setFloor n =>
    by_cases hover : n > p.cap
    · have hrefused : n > p.settings.config.maxSize.toNat := hover
      simp only [run, Pool.setFloor, retune, if_pos hover, if_pos hrefused]
    · have hset : ¬ n > p.settings.config.maxSize.toNat := hover
      simp only [run, Pool.setFloor, retune, if_neg hover, if_neg hset]
      -- filling up to the new floor leaves it as it is
      exact MaintenanceRule.fillTo (R := Obeys) Always (({ p with floor := n } : Pool).log .debug
        "Minimum size changed" [("min_size", .number n)]) n
  | setPatience d =>
    simp only [run, Pool.setPatience, retune]
    split <;> rfl
  | acquire t deadline => exact (acquire_keeps (R := Obeys) deadline).always p
  | resume n => exact (resume_keeps (R := Obeys) n).always p
  | release t lease => exact (release_keeps (R := Obeys) t lease).always p
  | invalidate lease => exact (invalidate_keeps (R := Obeys) lease).always p
  | detach lease => exact (detach_keeps (R := Obeys) lease).always p
  | releaseEnlisted t id => exact (releaseEnlisted_keeps (R := Obeys) t id).always p
  | sweep t s => exact (sweep_keeps (R := Obeys) t s).always p
  | execute t s id => exact (execute_keeps (R := Obeys) t s id).always p
  | topUp => exact MaintenanceRule.topUp (R := Obeys) Always p
  | create => exact (create_keeps (R := Obeys)).always p
  | overtake n => exact CreationRule.overtake (R := Obeys) Always p n
  | abandon n => exact CreationRule.abandon (R := Obeys) Always p n
  | close => exact (close_keeps (R := Obeys)).always p
  | vanish => exact (vanish_keeps (R := Obeys)).always p
  | _ => rfl

/-- The acquisition timeout that is agreed on: the last one that was not refused. -/
def renew (d : Duration) : Operation → Duration
  | setPatience e => if e.isZero then d else e
  | _ => d

theorem retune_patience {s : Settings} {d : Duration} (hs : s.patience = d.toNanos % UInt64.size)
    (op : Operation) : (op.retune s).patience = (op.renew d).toNanos % UInt64.size := by
  cases op with
  | setFloor n =>
    simp only [retune]
    split <;> exact hs
  | setPatience e =>
    simp only [retune, renew]
    split
    · exact hs
    · rfl
  | _ => exact hs

theorem renew_nonzero {d : Duration} (hd : d.isZero = false) (op : Operation) :
    (op.renew d).isZero = false := by
  cases op with
  | setPatience e =>
    simp only [renew]
    split
    · exact hd
    · next he => exact Bool.eq_false_iff.mpr he
  | _ => exact hd

end Operation

/-- The acquisition timeout that is agreed on after some operations. -/
def agreed (c : Config) (ops : List Operation) : Duration :=
  ops.foldl Operation.renew c.acquisitionTimeout

theorem after_patience {d : Duration} (hp : p.patience = d.toNanos % UInt64.size)
    (ops : List Operation) :
    (p.after ops).patience = (ops.foldl Operation.renew d).toNanos % UInt64.size := by
  induction ops generalizing p d with
  | nil => exact hp
  | cons op ops ih =>
    refine ih ?_
    have hrun : (op.run p).patience = (op.retune p.settings).patience :=
      congrArg Settings.patience (op.run_settings p)
    exact hrun.trans (Operation.retune_patience hp op)

/-- A timeout that is in order is not zero. -/
theorem timeout_nonzero {c : Config} (hc : c.Accepted) : c.acquisitionTimeout.isZero = false := by
  refine Bool.eq_false_iff.mpr fun hzero => ?_
  simp only [Config.Accepted, Config.fault?, hzero, if_true] at hc
  repeat' split at hc
  all_goals cases hc

/-- How the timeout in force compares with the one that was agreed on. It is what is left of it in a
word of nanoseconds: all of it if it fits, less if it does not, and nothing if it is a multiple of
the word. Then who asks for a connection without a timeout of his own is not granted any wait. -/
structure Clipped (d : Duration) (p : Pool) : Prop where
  asked : d.isZero = false
  left : p.acquisitionTimeout.toNanos = d.toNanos % 2 ^ 64
  whole : p.acquisitionTimeout = d ↔ d.toNanos < 2 ^ 64
  honoured : p.acquisitionTimeout = d ∨ 2 ^ 64 - 1 ≤ p.acquisitionTimeout.toNanos ↔
    d.toNanos < 2 ^ 64 ∨ d.toNanos % 2 ^ 64 = 2 ^ 64 - 1
  nothing : p.acquisitionTimeout = .zero ↔ 2 ^ 64 ∣ d.toNanos
  hasty : 2 ^ 64 ∣ d.toNanos → p.closed = false → (∀ h ∈ p.handles, h.state ≠ .checkedIn) →
    ∀ t, p.units.current t = none →
      ((acquire t (p.clock + p.acquisitionTimeout.toNanos)).run p).1 =
        .refused (.acquireTimeout p.name 0 p.activeCount p.cap p.handoff.waiters)
  accepted : ∀ e, (p.setPatience e).1 = .ok () ↔ e.isZero = false

theorem clipped_of_patience {d : Duration} (hp : p.Settled) (hd : d.isZero = false)
    (hword : p.patience = d.toNanos % UInt64.size) : Clipped d p := by
  have hsize : UInt64.size = 2 ^ 64 := rfl
  have hleft : p.acquisitionTimeout.toNanos = d.toNanos % 2 ^ 64 := by
    rw [acquisitionTimeout, Duration.toNanos_ofNanos (hword ▸ Nat.mod_lt _ (by decide)), hword,
      hsize]
  have hwhole : p.acquisitionTimeout = d ↔ d.toNanos < 2 ^ 64 := by
    rw [Duration.eq_iff_toNanos, hleft, Nat.mod_eq_iff_lt (by decide)]
  have hnothing : p.acquisitionTimeout = .zero ↔ 2 ^ 64 ∣ d.toNanos := by
    rw [Duration.eq_iff_toNanos, hleft, Nat.dvd_iff_mod_eq_zero]
    rfl
  refine ⟨hd, hleft, hwhole, ?_, hnothing, fun hdvd ho hidle t hu => ?_, fun e => ?_⟩
  · have hlt : d.toNanos % 2 ^ 64 < 2 ^ 64 := Nat.mod_lt _ (by decide)
    -- of the durations that do not fit only those that leave the most a word can hold are honoured
    rw [hwhole, hleft]
    omega
  · rw [hnothing.mpr hdvd]
    exact (reached_acquire hp ho hu (Nat.le_refl _)).timed_out hidle
  · simp only [setPatience]
    cases e.isZero <;> simp

/-- However a pool was built and whatever was done to it, the timeout in force is what a word holds
of the timeout that was agreed on last. -/
theorem timeout_clipped_to_word {c : Config} {f : Factory} {ls : List Listener} {us : Units}
    (hb : build c f ls us = .ok (some p)) (ops : List Operation) :
    Clipped (agreed c ops) (p.after ops) := by
  obtain ⟨hc, -, bus, -, hstart⟩ := build_iff.mp hb
  have hbuilt : p.settings = (new c f ls us bus).settings :=
    hstart ▸ MaintenanceRule.start (R := Obeys) Always (new c f ls us bus)
  have hagreed : (agreed c ops).isZero = false :=
    List.foldlRecOn (motive := fun d => d.isZero = false) ops Operation.renew (timeout_nonzero hc)
      fun _ hd op _ => Operation.renew_nonzero hd op
  exact clipped_of_patience ((fresh_of_build hb).settled.after ops) hagreed
    (after_patience (congrArg Settings.patience hbuilt) ops)

/-- One more nanosecond than a word holds. -/
def tooLong : Duration := ⟨18446744073, 709551616, by decide⟩

/-- A pool is asked for a long wait, then for one of a second and a long one again. -/
theorem long_wait_clipped :
    ∃ p, build { acquisitionTimeout := tooLong } {} [] {} = .ok (some p) ∧
      Clipped tooLong
      (p.after [.setPatience (.ofSecs 1), .setPatience .zero, .setPatience tooLong]) :=
  ⟨_, rfl, @timeout_clipped_to_word _ { acquisitionTimeout := tooLong } {} [] {} rfl
    [.setPatience (.ofSecs 1), .setPatience .zero, .setPatience tooLong]⟩

/-- A timeout that is in order is accepted, in a configuration and later, and none is in force. -/
theorem long_wait_lost :
    tooLong.toNanos = 2 ^ 64 ∧
    ∃ p, build { acquisitionTimeout := tooLong } {} [] {} = .ok (some p) ∧
      p.acquisitionTimeout = .zero ∧
      (p.setPatience (.ofSecs 1)).2.acquisitionTimeout = .ofSecs 1 ∧
      (p.setPatience tooLong).1 = .ok () ∧ (p.setPatience tooLong).2.acquisitionTimeout = .zero :=
  ⟨by decide, _, rfl, by decide +kernel, by decide +kernel, rfl, by decide +kernel⟩

end Pool
end ConnPool
