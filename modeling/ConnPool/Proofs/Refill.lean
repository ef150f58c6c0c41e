import ConnPool.Proofs.Floor
import ConnPool.Proofs.OutlineActions

namespace ConnPool.Pool

variable {p q : Pool} {id : HandleId}

/-- From `s` connections a pool is filled up to its floor and no further: what is missing, and
nothing else, is newly in flight. -/
structure Refilled (p : Pool) (s : Nat) (q : Pool) : Prop where
  size : q.size.count = max s q.floor
  pending : q.pending.count = p.pending.count + (q.floor - s)
  inFlight : q.inFlight = p.inFlight ++ List.replicate (q.floor - s) ⟨none⟩

/-- No creation is scheduled. -/
structure Unscheduled (p q : Pool) : Prop where
  pending : q.pending = p.pending
  inFlight : q.inFlight = p.inFlight

theorem repeat_schedule (n : Nat) :
    (n.repeat (schedule none) p).inFlight = p.inFlight ++ List.replicate n ⟨none⟩ ∧
      (n.repeat (schedule none) p).pending.count = p.pending.count + n := by
  induction n with
  | zero => exact ⟨(List.append_nil _).symm, rfl⟩
  | succ n ih =>
    obtain ⟨hflight, hpending⟩ := ih
    constructor
    · change (n.repeat (schedule none) p).inFlight ++ [⟨none⟩] = _
      rw [hflight, List.append_assoc, List.replicate_succ']
    · change (n.repeat (schedule none) p).pending.count + 1 = _
      rw [hpending, Nat.add_assoc]

theorem topUp_refilled (ho : p.closed = false) (hp : p.floor ≤ p.cap) :
    Refilled p p.size.count p.topUp := by
  have hfloor : p.topUp.floor = p.floor := by
    rw [topUp, fillTo_same]
  have hmissing : min p.floor p.cap - p.size.count = p.floor - p.size.count := by
    rw [Nat.min_eq_left hp]
  have hrun : p.topUp = (p.floor - p.size.count).repeat (schedule none) p := by
    rw [← hmissing]
    exact if_neg (by rw [ho]; exact Bool.false_ne_true)
  obtain ⟨hflight, hpending⟩ := repeat_schedule (p := p) (p.floor - p.size.count)
  rw [← hrun] at hflight hpending
  exact ⟨hfloor.symm ▸ size_topUp ho hp, hfloor.symm ▸ hpending, hfloor.symm ▸ hflight⟩

theorem topUp_closed (hc : p.closed = true) : p.topUp = p := if_pos hc

/-- What the loss of an active connection leaves, before the pool is filled up. -/
structure Bereft (p r : Pool) : Prop where
  size : r.size.count = p.size.count - 1
  pending : r.pending = p.pending
  inFlight : r.inFlight = p.inFlight
  floor : r.floor = p.floor
  cap : r.cap = p.cap
  closed : r.closed = p.closed

theorem Bereft.refilled {r : Pool} (h : Bereft p r) (ho : p.closed = false) (hp : p.floor ≤ p.cap) :
    Refilled p (p.size.count - 1) r.topUp := by
  have hr := topUp_refilled (h.closed.trans ho) (h.floor ▸ h.cap ▸ hp)
  rw [h.size] at hr
  exact ⟨hr.size, h.pending ▸ hr.pending, h.inFlight ▸ hr.inFlight⟩

theorem Bereft.unscheduled {r : Pool} (h : Bereft p r) (hc : p.closed = true) :
    Unscheduled p r.topUp := by
  rw [topUp_closed (h.closed.trans hc)]
  exact ⟨h.pending, h.inFlight⟩

/-- A connection is lost, and then the pool is filled up. -/
def Loses (p q : Pool) : Prop := ∃ r, q = r.topUp ∧ Bereft p r

/-- What filling up goes by. -/
def footing (p : Pool) : Tally × Tally × List Creation × Nat × Nat × Bool :=
  (p.size, p.pending, p.inFlight, p.floor, p.cap, p.closed)

/-- An active handle that is ended at its holder's wish is lost. -/
theorem retire_loses (hq : q.footing = p.footing) {h : Handle} (hf : q.find? id = some h)
    (hs : h.state = .checkedOut) (reason : DestroyReason) :
    Loses p ((retire id reason).run q).2 := by
  have hgone := destroyNow_muted (s := .checkedOut) (find_retire hf) (by decide) reason false
  have hleft := eq_of_muted footing (fun _ => rfl) hgone
  simp only [footing, Prod.mk.injEq] at hq hleft
  obtain ⟨hsize, hpending, hflight, hfloor, hcap, hclosed⟩ := hq
  obtain ⟨hsize', hpending', hflight', hfloor', hcap', hclosed'⟩ := hleft
  rw [retire_run hf hs]
  simp only [destroy, Act.run_bind, Act.run_update]
  refine ⟨_, rfl, ?_, hpending'.trans hpending, hflight'.trans hflight, hfloor'.trans hfloor,
    hcap'.trans hcap, hclosed'.trans hclosed⟩
  rw [hsize', ← hsize]
  exact Tally.count_down q.size

theorem invalidate_loses (hp : p.ledger.Fitting) {l : Lease} (hl : l ∈ p.leases) :
    Loses p ((invalidate l.number).run p).2 := by
  obtain ⟨h, hf, hs, -⟩ := find_of_lease hp hl
  have hout : (p.endLease l.number).1 = some l :=
    (Keyed.find_iff Lease.number (numbers_nodup hp)).mpr ⟨hl, rfl⟩
  simp only [invalidate, Act.run_bind, Act.run_apply, hout, Act.run_update]
  refine retire_loses (h := { h with slot := some l.connection }) ?_ ?_ hs .invalidated
  · rfl
  · exact find_restore hf

theorem detach_loses (hp : p.ledger.Fitting) {l : Lease} (hl : l ∈ p.leases) :
    Loses p ((detach l.number).run p).2 := by
  obtain ⟨h, hf, hs, -⟩ := find_of_lease hp hl
  have hout : (p.endLease l.number).1 = some l :=
    (Keyed.find_iff Lease.number (numbers_nodup hp)).mpr ⟨hl, rfl⟩
  simp only [detach, Act.run_bind, Act.run_apply, hout, Act.run_update, Act.run_pure]
  refine retire_loses ?_ ?_ hs .detached
  · rfl
  · exact hf

theorem size_pos_of_lease (hp : p.Sound) {l : Lease} (hl : l ∈ p.leases) : 0 < p.size.count := by
  obtain ⟨h, hf, -, -⟩ := find_of_lease hp.books.fitting hl
  have hcount := (tallied_of_sound (c := p.config) hp rfl).size_eq
  have hsome := List.length_pos_of_mem (mem_of_find hf).1
  omega

/-- The number of connections and the floor after the calls that fill a pool up. -/
structure Restocked (p : Pool) : Prop where
  invalidated : p.closed = false → ∀ l ∈ p.leases, 0 < p.size.count ∧
    ((invalidate l.number).run p).2.floor = p.floor ∧
    Refilled p (p.size.count - 1) ((invalidate l.number).run p).2
  detached : p.closed = false → ∀ l ∈ p.leases, 0 < p.size.count ∧
    ((detach l.number).run p).2.floor = p.floor ∧
    Refilled p (p.size.count - 1) ((detach l.number).run p).2
  floorSet : p.closed = false → ∀ n ≤ p.cap, (p.setFloor n).1 = .ok () ∧
    (p.setFloor n).2.floor = n ∧
    Refilled p p.size.count (p.setFloor n).2
  refused : ∀ n, p.cap < n → ∃ f, p.setFloor n = (.error f, p)
  closed : p.closed = true → (∀ l ∈ p.leases, Unscheduled p ((invalidate l.number).run p).2 ∧
    Unscheduled p ((detach l.number).run p).2) ∧ ∀ n, Unscheduled p (p.setFloor n).2

theorem Loses.restocked (h : Loses p q) (ho : p.closed = false) (hp : p.floor ≤ p.cap) :
    q.floor = p.floor ∧ Refilled p (p.size.count - 1) q := by
  obtain ⟨r, rfl, hr⟩ := h
  refine ⟨?_, hr.refilled ho hp⟩
  rw [topUp, fillTo_same]
  exact hr.floor

theorem Loses.unscheduled (h : Loses p q) (hc : p.closed = true) : Unscheduled p q := by
  obtain ⟨r, rfl, hr⟩ := h
  exact hr.unscheduled hc

theorem restocked_of_sound (hp : p.Sound) (hle : p.floor ≤ p.cap) : Restocked p where
  invalidated ho l hl :=
    ⟨size_pos_of_lease hp hl, (invalidate_loses hp.books.fitting hl).restocked ho hle⟩
  detached ho l hl :=
    ⟨size_pos_of_lease hp hl, (detach_loses hp.books.fitting hl).restocked ho hle⟩
  floorSet ho n hn := by
    have hset : p.setFloor n = (.ok (), (({ p with floor := n } : Pool).log .debug
        "Minimum size changed" [("min_size", .number n)]).topUp) := if_neg (Nat.not_lt.mpr hn)
    have hfilled := topUp_refilled (p := ({ p with floor := n } : Pool).log .debug
      "Minimum size changed" [("min_size", .number n)]) ho hn
    rw [hset]
    refine ⟨rfl, ?_, hfilled.size, hfilled.pending, hfilled.inFlight⟩
    rw [topUp, fillTo_same]
    rfl
  refused n hn := ⟨_, if_pos hn⟩
  closed hc := by
    refine ⟨fun l hl => ⟨(invalidate_loses hp.books.fitting hl).unscheduled hc,
      (detach_loses hp.books.fitting hl).unscheduled hc⟩, fun n => ?_⟩
    simp only [setFloor]
    split
    · exact ⟨rfl, rfl⟩
    · have hsame := topUp_closed (p := ({ p with floor := n } : Pool).log .debug
        "Minimum size changed" [("min_size", .number n)]) hc
      rw [hsame]
      exact ⟨rfl, rfl⟩

/-- Whatever was done to a pool: when a connection is lost or the floor is set, the pool is filled
up to its floor and never past it, and a closed pool is not filled up. -/
theorem refills_to_floor {c : Config} {f : Factory} {ls : List Listener} {us : Units}
    (hb : build c f ls us = .ok (some p)) (ops : List Operation) : Restocked (p.after ops) :=
  restocked_of_sound ((fresh_of_build hb).settled.after ops).sound (floor_le_cap hb ops)

/-- The only connection is invalidated, and one is scheduled in its place. -/
theorem refills_after_loss :
    ∃ p, build {} {} [] {} = .ok (some p) ∧ Restocked (p.after [.create, .acquire .background 0]) ∧
      ∃ l ∈ (p.after [.create, .acquire .background 0]).leases,
        Refilled (p.after [.create, .acquire .background 0]) 0
          ((invalidate l.number).run (p.after [.create, .acquire .background 0])).2 := by
  have hstocked := @refills_to_floor _ {} {} [] {} rfl [.create, .acquire .background 0]
  exact ⟨_, rfl, hstocked, _, List.mem_cons_self,
    (hstocked.invalidated rfl _ List.mem_cons_self).2.2⟩

end ConnPool.Pool
