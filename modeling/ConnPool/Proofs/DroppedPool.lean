import ConnPool.Proofs.Conservation
import ConnPool.Proofs.Enlistment
import ConnPool.Proofs.Shutdown

namespace ConnPool.Pool

variable {p q : Pool} {s s' : UnitView} {op : Operation} {id : HandleId} {ops : List Operation}

/-- A handle was once on loan for a unit of work in a run, and was not freed from then on. -/
def Lingers (p : Pool) (ops : List Operation) (id : HandleId) : Prop :=
  ∃ pre post, ops = pre ++ post ∧ (∃ l ∈ (p.after pre).leases, l.handle = id ∧ l.enlisted = true) ∧
    Throughout (fun q op => ¬ op.Frees q id) (p.after pre) post

theorem Lingers.cons (h : (op.run p).Lingers ops id) : p.Lingers (op :: ops) id := by
  obtain ⟨pre, post, rfl, hlent, hkept⟩ := h
  exact ⟨op :: pre, post, rfl, hlent, hkept⟩

/-- What is active after an operation is on loan, or was active before and not on loan but for a
unit. -/
theorem UnitChange.active (hchange : UnitChange s op s') (hn : (s.terms.map (·.number)).Nodup)
    (hactive : s'.active id) : (∃ l ∈ s'.terms, l.handle = id) ∨
      s.active id ∧ ∀ l ∈ s.terms, l.handle = id → l.enlisted = true := by
  -- a lease that is not for a unit stays, unless it is the one that ends
  have hstays : ∀ {ts : List Term}, s.active id →
      (∀ l ∈ s.terms, l.handle = id → l.enlisted = false → l ∈ ts) →
        (∃ l ∈ ts, l.handle = id) ∨ s.active id ∧ ∀ l ∈ s.terms, l.handle = id →
        l.enlisted = true := by
    intro ts hold hts
    by_cases hplain : ∃ l ∈ s.terms, l.handle = id ∧ l.enlisted = false
    · obtain ⟨l, hl, hid, hno⟩ := hplain
      exact Or.inl ⟨l, hts l hl hid hno, hid⟩
    · refine Or.inr ⟨hold, fun l hl hid => ?_⟩
      by_contra hno
      exact hplain ⟨l, hl, hid, by simpa using hno⟩
  have hother : ∀ {k l : Term}, k ∈ s.terms → l ∈ s.terms → l ≠ k →
      l ∈ (s.ended k.number).terms := by
    intro k l hk hl hne
    refine List.mem_filter.mpr ⟨hl, decide_eq_true fun hnumber => hne ?_⟩
    exact Keyed.unique Term.number hn hl hk hnumber
  cases hchange with
  | nothing => exact hstays hactive fun l hl _ _ => hl
  | enter => exact hstays hactive fun l hl _ _ => hl
  | regroup => exact hstays hactive fun l hl _ _ => hl
  | free => exact hstays hactive.2 fun l hl _ _ => hl
  | again => exact hstays hactive fun l hl _ _ => List.mem_append_left _ hl
  | lend =>
    rcases hactive with rfl | hold
    · exact Or.inl ⟨_, List.mem_append_right _ (List.mem_singleton_self _), rfl⟩
    · exact hstays hold fun l hl _ _ => List.mem_append_left _ hl
  | @release t k mem =>
    split at hactive
    · next hunit =>
      rw [if_pos hunit]
      refine hstays hactive fun l hl _ hno => hother mem hl ?_
      rintro rfl
      rw [hno] at hunit
      cases hunit
    · next hplain =>
      rw [if_neg hplain]
      refine hstays hactive.2 fun l hl hid _ => hother mem hl ?_
      rintro rfl
      exact hactive.1 hid.symm
  | @retire _ k mem wish =>
    refine hstays hactive.2 fun l hl hid _ => hother mem hl ?_
    rintro rfl
    exact hactive.1 hid.symm

theorem Retains.lease (h : Retains s q) (hl : ∃ l ∈ s.terms, l.handle = id) :
    ∃ l ∈ q.leases, l.handle = id := by
  obtain ⟨x, hx, hid⟩ := hl
  rw [← h.terms] at hx
  obtain ⟨l, hl, rfl⟩ := List.mem_map.mp hx
  exact ⟨l, hl, hid⟩

/-- What is active after a run is on loan, or lingers. `K` tells what lingered before. -/
theorem Settled.active_after {K : Prop} (hp : p.Settled)
    (hK : p.unitView.active id → (∃ l ∈ p.leases, l.handle = id) ∨ K)
    (hactive : (p.after ops).unitView.active id) :
    (∃ l ∈ (p.after ops).leases, l.handle = id) ∨
      K ∧ Throughout (fun q op => ¬ op.Frees q id) p ops ∨ p.Lingers ops id := by
  induction ops generalizing p K with
  | nil => exact (hK hactive).imp_right fun hk => Or.inl ⟨hk, trivial⟩
  | cons op ops ih =>
    have hstep : (op.run p).unitView.active id → (∃ l ∈ (op.run p).leases, l.handle = id) ∨
        (K ∨ ∃ l ∈ p.leases, l.handle = id ∧ l.enlisted = true) ∧ ¬ op.Frees p id := by
      intro hnext
      obtain ⟨us, s, hchange, hretains⟩ := op.changesUnits_anew hp
      have hnumbers : (p.unitView.terms.map (·.number)).Nodup := by
        simp only [unitView, List.map_map]
        exact numbers_nodup hp.sound.books.fitting
      rcases hchange.active hnumbers ((hretains.active id).mp hnext) with hlent | ⟨hold, hunits⟩
      · exact Or.inl (hretains.lease hlent)
      · refine Or.inr ⟨?_, fun hop => (freed_of_frees hp.sound hold hop).1 hnext⟩
        rcases hK hold with ⟨l, hl, hid⟩ | hk
        · exact Or.inr ⟨l, hl, hid, hunits l.term (List.mem_map_of_mem hl) hid⟩
        · exact Or.inl hk
    rcases ih (hp.run op) hstep hactive with hlent | ⟨⟨hk | hlent, hop⟩, hkept⟩ | hlingers
    · exact Or.inl hlent
    · exact Or.inr (Or.inl ⟨hk, hop, hkept⟩)
    · exact Or.inr (Or.inr ⟨[], op :: ops, rfl, hlent, hop, hkept⟩)
    · exact Or.inr (Or.inr hlingers.cons)

theorem lent_handles_nodup (hp : p.ledger.Fitting) : (p.leases.map (·.handle)).Nodup := by
  have hnodup := hp.lent.nodup_iff.mp ((List.filter_sublist.map _).nodup hp.ids_nodup)
  simp only [ledger, List.map_map] at hnodup
  exact hnodup

/-- What is on loan for a unit is kept. -/
theorem kept_of_lease (hp : p.ledger.Fitting) {l : Lease} (hl : l ∈ p.leases)
    (hunit : l.enlisted = true) :
    p.unitView.Kept l.handle := by
  obtain ⟨h, hf, hs, -⟩ := find_of_lease hp hl
  refine ⟨(stateOf_of_find hf).trans (congrArg some hs), fun x hx hid => ?_⟩
  obtain ⟨k, hk, rfl⟩ := List.mem_map.mp hx
  rw [Keyed.unique Lease.handle (lent_handles_nodup hp) hk hl hid]
  exact hunit

/-- What lingers is active. -/
theorem Lingers.active (h : p.Lingers ops id) (hp : p.Settled) :
    (p.after ops).unitView.active id := by
  obtain ⟨pre, post, rfl, ⟨l, hl, rfl, hunit⟩, hkept⟩ := h
  have hpre := hp.after pre
  rw [after_append]
  exact (hpre.keeps_after (kept_of_lease hpre.sound.books.fitting hl hunit) hkept).1

theorem UnitChange.plain (hchange : UnitChange s op s') (hnever : s.units.enlisting = .never)
    (h : ∀ l ∈ s.terms, l.enlisted = false) : ∀ l ∈ s'.terms, l.enlisted = false := by
  have hnone : ∀ t, s.units.current t = none := fun t => by simp only [Units.current, hnever]
  intro l hl
  cases hchange with
  | nothing | enter | free | regroup => exact h l hl
  | @lend _ x k n caller idle =>
    rcases List.mem_append.mp hl with hl | hl
    · exact h l hl
    · obtain rfl := List.mem_singleton.mp hl
      have hfree : (s.units.associate x.thread k).current x.thread = none := by
        simp only [Units.associate, hnever, hnone]
      exact decide_eq_false (by simp [hfree])
  | again held => exact absurd held (by simp [hnone])
  | release =>
    split at hl
    · exact h l (List.mem_filter.mp hl).1
    · exact h l (List.mem_filter.mp hl).1
  | retire => exact h l (List.mem_filter.mp hl).1

/-- In a run in which no unit of work is consulted, nothing is lent for one. -/
theorem Settled.plain_after (hp : p.Settled) (hplain : ∀ l ∈ p.leases, l.enlisted = false)
    (hnever : Throughout (fun q _ => q.units.enlisting = .never) p ops) :
    ∀ l ∈ (p.after ops).leases, l.enlisted = false := by
  induction ops generalizing p with
  | nil => exact hplain
  | cons op ops ih =>
    refine ih (hp.run op) (fun l hl => ?_) hnever.2
    have hnone : ∀ t, p.units.current t = none := fun t => by simp only [Units.current, hnever.1]
    obtain ⟨s, hchange, hretains⟩ := op.changesUnits hp fun t _ _ _ k hk => by simp [hnone] at hk
    have hterms : ∀ x ∈ p.unitView.terms, x.enlisted = false := by
      intro x hx
      obtain ⟨k, hk, rfl⟩ := List.mem_map.mp hx
      exact hplain k hk
    exact hchange.plain hnever.1 hterms l.term (hretains.terms ▸ List.mem_map_of_mem hl)

theorem Throughout.left {P : Pool → Operation → Prop} {rest : List Operation}
    (h : Throughout P p (ops ++ rest)) : Throughout P p ops := by
  induction ops generalizing p with
  | nil => trivial
  | cons op ops ih => exact ⟨h.1, ih h.2⟩

theorem births_append (ops rest : List Operation) :
    p.births (ops ++ rest) = p.births ops ++ (p.after ops).births rest := by
  induction ops generalizing p with
  | nil => rfl
  | cons op ops ih =>
    simp only [List.cons_append, births, ih, List.append_assoc]
    rfl

theorem vanish_closed (hp : p.Sound) : (vanish.run p).2.closed = true := by
  simp only [vanish, Act.run_bind, Act.run_update]
  by_cases hc : p.closed = true
  · rw [close_again hc]
    exact hc
  · exact (closedDown_close hp (by simpa using hc)).closed

/-- In a pool that has just been built nothing is on loan, and nothing active. -/
theorem idle_of_build {c : Config} {f : Factory} {ls : List Listener} {us : Units}
    (hb : build c f ls us = .ok (some p)) : p.leases = [] ∧ ∀ id, ¬ p.unitView.active id := by
  obtain ⟨bus, rfl⟩ := build_eq hb
  have hretains := start_retains (new c f ls us bus)
  exact ⟨List.map_eq_nil_iff.mp hretains.terms, fun id => (hretains.active id).not.mpr nofun⟩

/-- What becomes of the connections of a pool when it goes away after a run `ops`, all loans being
over. -/
structure Dissolved (p : Pool) (ops : List Operation) (q : Pool) : Prop where
  handles_iff : ∀ id, id ∈ q.handles.map (·.id) ↔ p.Lingers ops id
  left : ∀ b ∈ p.births ops, p.Lingers ops b.handle → q.places b.serial = [.slot b.handle]
  gone : ∀ b ∈ p.births ops, ¬ p.Lingers ops b.handle →
    q.places b.serial = [.closed] ∨ q.places b.serial = [.detached]
  never : Throughout (fun r _ => r.units.enlisting = .never) p ops → ∀ id, ¬ p.Lingers ops id

theorem Conserved.slot {bs : List Birth} (h : Conserved bs q) {b : Birth} (hb : b ∈ bs) {k : Handle}
    {c : Connection} (hk : k ∈ q.handles) (hid : k.id = b.handle) (hc : k.slot = some c) :
    q.places b.serial = [.slot b.handle] := by
  have hplace : Place.slot k.id ∈ q.places c.serial := by
    simp only [places, List.mem_append, List.mem_map, List.mem_filter]
    exact Or.inl (Or.inl (Or.inl ⟨k, ⟨hk, by simp [hc]⟩, rfl⟩))
  have hborn : c.serial ∈ bs.map (·.serial) := by
    by_contra hno
    simp [h.unborn c.serial hno] at hplace
  obtain ⟨d, hd, hdc⟩ := List.mem_map.mp hborn
  obtain ⟨x, hx, hsuits⟩ := h.placed d hd
  rw [hdc] at hx
  rw [hx, List.mem_singleton] at hplace
  subst hplace
  have hown : k.id = d.handle := hsuits
  have hsame : d = b := Keyed.unique Birth.handle h.handles_nodup hd hb (hown.symm.trans hid)
  rw [← hsame, hdc, hx, hown]

theorem Conserved.gone {bs : List Birth} (h : Conserved bs q) (hl : q.leases = []) {b : Birth}
    (hb : b ∈ bs) (hk : b.handle ∉ q.handles.map (·.id)) :
    q.places b.serial = [.closed] ∨ q.places b.serial = [.detached] := by
  obtain ⟨x, hx, hsuits⟩ := h.placed b hb
  have hmem : x ∈ q.places b.serial := hx ▸ List.mem_singleton_self x
  simp only [places, hl, List.filter_nil, List.map_nil, List.append_nil, List.mem_append,
    List.mem_map, List.mem_filter] at hmem
  rcases hmem with (⟨k, ⟨hin, -⟩, rfl⟩ | ⟨-, -, rfl⟩) | ⟨-, -, rfl⟩
  · have hown : k.id = b.handle := hsuits
    exact absurd (hown ▸ List.mem_map_of_mem hin) hk
  · exact Or.inl hx
  · exact Or.inr hx

/-- What is left when all loans are over and the pool has gone is what lingers. -/
theorem Settled.left_iff (hp : p.Settled) (hidle : ∀ id, ¬ p.unitView.active id)
    (hl : (p.after ops).leases = []) (id : HandleId) :
    id ∈ (p.after (ops ++ [.vanish])).handles.map (·.id) ↔ p.Lingers ops id := by
  have hq := hp.after (ops ++ [.vanish])
  have hretains : Retains (p.after ops).unitView (p.after (ops ++ [.vanish])) := by
    rw [after_append]
    exact .of_keeps vanish_keeps
  have hclosed : (p.after (ops ++ [.vanish])).closed = true := by
    rw [after_append]
    exact vanish_closed (hp.after ops).sound
  generalize p.after (ops ++ [.vanish]) = q at hq hretains hclosed ⊢
  have hactive : ∀ h ∈ q.handles, h.state = .checkedOut := fun h hh =>
    (idle_or_active hq.sound.books.fitting hh).resolve_left fun hin => hq.final hclosed h hh hin.1
  constructor
  · intro hin
    obtain ⟨h, hh, rfl⟩ := List.mem_map.mp hin
    have hout : q.unitView.active h.id :=
      (stateOf_of_find (find_of_mem hq.sound.books.fitting hh)).trans (congrArg some (hactive h hh))
    rcases hp.active_after (K := False) (fun hk => absurd hk (hidle h.id))
      ((hretains.active h.id).mp hout) with ⟨l, hmem, -⟩ | ⟨hno, -⟩ | hlingers
    · simp [hl] at hmem
    · exact hno.elim
    · exact hlingers
  · intro h
    obtain ⟨h, hf, -⟩ := find_of_stateOf ((hretains.active id).mpr (h.active hp))
    obtain ⟨hmem, rfl⟩ := mem_of_find hf
    exact List.mem_map_of_mem hmem

/-- Where no unit of work is consulted, nothing lingers. -/
theorem Settled.none_lingers (hp : p.Settled) (hunlent : p.leases = [])
    (hnever : Throughout (fun r _ => r.units.enlisting = .never) p ops) : ¬ p.Lingers ops id := by
  rintro ⟨pre, post, rfl, ⟨l, hlent, -, hunit⟩, -⟩
  have hplain := hp.plain_after (by simp [hunlent]) hnever.left l hlent
  rw [hplain] at hunit
  cases hunit

/-- When the last guard is gone and the pool goes away, each of its connections is closed, once, or
with a caller who detached it, but for those that were lent for a unit of work and never released:
these stay in their slots, and nothing closes them. -/
theorem dissolved_but_for_units {c : Config} {f : Factory} {ls : List Listener} {us : Units}
    (hb : build c f ls us = .ok (some p)) {ops : List Operation} (hl : (p.after ops).leases = []) :
    Dissolved p ops (p.after (ops ++ [.vanish])) := by
  have hp := (fresh_of_build hb).settled
  obtain ⟨hunlent, hidle⟩ := idle_of_build hb
  have hfit := (hp.after (ops ++ [.vanish])).sound.books.fitting
  have hiff := hp.left_iff hidle hl
  have hconserved := (fresh_of_build hb).conserved (ops ++ [.vanish])
  have hunborn : (p.after ops).births [.vanish] = [] := rfl
  rw [births_append, hunborn, List.append_nil] at hconserved
  have hnone : (p.after (ops ++ [.vanish])).leases = [] := by
    have hterms := (Retains.of_keeps (p := p.after ops) vanish_keeps).terms
    rw [after_append]
    simp only [unitView, hl, List.map_nil, List.map_eq_nil_iff] at hterms
    exact hterms
  refine ⟨hiff, fun b hb hlingers => ?_, fun b hb hno => ?_, fun hnever _ =>
    hp.none_lingers hunlent hnever⟩
  · obtain ⟨k, hk, hid⟩ := List.mem_map.mp ((hiff b.handle).mpr hlingers)
    obtain ⟨c, hc⟩ := slot_of_unlent hfit hnone hk
    exact hconserved.slot hb hk hid hc
  · exact hconserved.gone hnone hb fun hin => hno ((hiff b.handle).mp hin)

/-- A thread that keeps its unit of work gives its connection back, and the pool goes away. -/
theorem unit_outlives_pool :
    ∃ p ops, build {} {} [] { enlisting := .byThread } = .ok (some p) ∧
      Throughout Operation.Fair p (ops ++ [.disown]) ∧
        (p.after (ops ++ [.disown])).isUnused = true ∧
        p.births ops = [⟨1, ⟨1⟩⟩] ∧ (p.after (ops ++ [.disown, .vanish])).closures = [] ∧
          (p.after (ops ++ [.disown, .vanish])).detached = [] := by
  have hfair : ∀ p : Pool, build {} {} [] { enlisting := .byThread } = .ok (some p) →
      Throughout Operation.Fair p [.create, .regroup ⟨.byThread, ⟨[(.background, none)]⟩, {}⟩,
        .acquire .background 0, .release .background 0, .disown] := by
    rintro p ⟨rfl⟩
    exact ⟨trivial, .start .background,
      fun a ha => absurd ha List.not_mem_nil, trivial, trivial, trivial⟩
  exact ⟨_, [.create, .regroup ⟨.byThread, ⟨[(.background, none)]⟩, {}⟩, .acquire .background 0,
    .release .background 0], rfl, hfair _ rfl, rfl, rfl, rfl, rfl⟩

/-- Of two connections one stays with a unit of work and the other is idle: only the idle one is
closed. -/
theorem dissolved_with_a_unit :
    ∃ p ops, build { minSize := 2 } {} [] { enlisting := .shared } = .ok (some p) ∧
      (p.after ops).leases = [] ∧ Dissolved p ops (p.after (ops ++ [.vanish])) ∧
        p.births ops = [⟨1, ⟨1⟩⟩, ⟨2, ⟨2⟩⟩] ∧
          (p.after (ops ++ [.vanish])).closures.map (·.serial) = [1] ∧
            (p.after (ops ++ [.vanish])).handles.map (·.id) = [⟨2⟩] :=
  ⟨_, [.create, .create, .acquire .background 0, .release .background 0], rfl, rfl,
    @dissolved_but_for_units _ { minSize := 2 } {} [] { enlisting := .shared } rfl _ rfl, rfl,
    rfl, rfl⟩

end ConnPool.Pool
