import ConnPool.Proofs.Tickets

namespace ConnPool.Pool

variable {p q m : Pool} {n : Nat}

/-- In this run a creation that was scheduled on behalf of the acquirer failed, in the open pool. -/
def FailedFor (p : Pool) (ops : List Operation) (n : Nat) (e : String) : Prop :=
  ∃ pre post, ops = pre ++ .create :: post ∧ (p.after pre).Fails ⟨some n⟩ e ∧
    (p.after pre).closed = false

theorem Docket.opened {op : Operation} (h : Docket p op q) (ho : q.closed = false) :
    p.closed = false := by
  have hstays : p.closed = true → q.closed = true := by
    cases h with
    | discreet same => exact same.closed
    | drawn same tends => exact fun hc => tends.closed (same.closed hc)
    | resumed mem tends => exact tends.closed
    | settles ends failed => exact fun hc => ends.closed.trans hc
  exact Bool.eq_false_iff.mpr fun hc => Bool.false_ne_true (ho.symm.trans (hstays hc))

/-- A ticket tells of a failure only if it did so before, or if the failure has just happened. -/
theorem Docket.failed {op : Operation} (h : Docket p op q) (ho : q.closed = false)
    {x : Nat × Option Ticket} (hx : x ∈ q.tickets) {e : String}
    (ht : x.2 = some (.settled (some e))) : x ∈ p.tickets ∨ op = .create ∧
      p.Fails ⟨some x.1⟩ e := by
  have hopen := h.opened ho
  cases h with
  | discreet same => exact Or.inl (same.tickets ▸ hx)
  | @drawn t d m r same tends =>
    by_cases hid : x.1 = p.nextTaker
    · exact absurd ht ((tends.own x hx hid).2 _)
    · have hin : x ∈ m.tickets := tends.kept x hx hid
      exact Or.inl (same.tickets ▸ hin)
  | @resumed a r mem tends =>
    by_cases hid : x.1 = a.taker.id
    · exact absurd ht ((tends.own x hx hid).2 _)
    · exact Or.inl (tends.kept x hx hid)
  | @settles op c e' q ends failed =>
    rcases ends.ticket hx with ⟨hin, -⟩ | ⟨rfl, hsettled⟩
    · exact Or.inl hin
    · cases hsettled.symm.trans ht
      exact Or.inr (failed e rfl hopen)

/-- Whoever leaves does not come back. -/
theorem Docket.gone {op : Operation} (h : Docket p op q) (hn : n < p.nextTaker)
    (hgone : ∀ x ∈ p.tickets, x.1 ≠ n) : n < q.nextTaker ∧ ∀ x ∈ q.tickets, x.1 ≠ n := by
  cases h with
  | discreet same => exact ⟨same.nextTaker ▸ hn, fun x hx => hgone x (same.tickets ▸ hx)⟩
  | @drawn t d m r same tends =>
    have hnumber : m.nextTaker = p.nextTaker := same.nextTaker
    have hnext : r.2.nextTaker = m.nextTaker + 1 := tends.nextTaker
    refine ⟨by omega, fun x hx => ?_⟩
    by_cases hid : x.1 = p.nextTaker
    · omega
    · have hin : x ∈ m.tickets := tends.kept x hx hid
      exact hgone x (same.tickets ▸ hin)
  | @resumed a r mem tends =>
    refine ⟨tends.nextTaker ▸ hn, fun x hx => ?_⟩
    by_cases hid : x.1 = a.taker.id
    · exact hid ▸ hgone _ (List.mem_map_of_mem mem)
    · exact hgone x (tends.kept x hx hid)
  | settles ends failed =>
    refine ⟨ends.nextTaker ▸ hn, fun x hx => ?_⟩
    rw [ends.tickets] at hx
    obtain ⟨y, hy, rfl⟩ := List.mem_map.mp hx
    split <;> exact hgone y hy

/-- A creation is scheduled for an acquirer by that acquirer only. -/
theorem Docket.behalf {op : Operation} (h : Docket p op q) (hmore : p.booked n < q.booked n) :
    op.behalf p = some n := by
  cases h with
  | discreet same => exact absurd (same.booked n) (Nat.ne_of_gt hmore)
  | @drawn t d m r same tends =>
    by_cases hid : n = p.nextTaker
    · exact congrArg some hid.symm
    · exact absurd ((tends.others n hid).trans (same.booked n)) (Nat.ne_of_gt hmore)
  | @resumed a r mem tends =>
    by_cases hid : n = a.taker.id
    · exact congrArg some hid.symm
    · exact absurd (tends.others n hid) (Nat.ne_of_gt hmore)
  | settles ends failed =>
    have hbooked := ends.booked n
    omega

theorem Accounted.failed_for (h : p.Accounted) (hnew : p.tickets = []) (ops : List Operation)
    (ho : (p.after ops).closed = false) {x : Nat × Option Ticket} (hx : x ∈ (p.after ops).tickets)
    {e : String} (ht : x.2 = some (.settled (some e))) : p.FailedFor ops x.1 e := by
  induction ops using List.reverseRecOn generalizing x with
  | nil =>
    have hnone : x ∈ p.tickets := hx
    rw [hnew] at hnone
    exact absurd hnone List.not_mem_nil
  | append_singleton ops op ih =>
    have hdocket := (h.after ops).docket op
    have hlast : p.after (ops ++ [op]) = op.run (p.after ops) := after_append ops [op]
    rw [hlast] at ho hx
    have hopen := hdocket.opened ho
    rcases hdocket.failed ho hx ht with hin | ⟨rfl, hfails⟩
    · obtain ⟨pre, post, rfl, hfails, hopen'⟩ := ih hopen hin ht
      exact ⟨pre, post ++ [op], by simp, hfails, hopen'⟩
    · exact ⟨ops, [], rfl, hfails, hopen⟩

theorem Accounted.stays_gone (h : p.Accounted) (hn : n < p.nextTaker)
    (hgone : ∀ x ∈ p.tickets, x.1 ≠ n)
    (ops : List Operation) : ((resume n).run (p.after ops)).1 = .waiting n := by
  induction ops generalizing p with
  | nil =>
    have hrun : (resume n).run p = (.waiting n, p) :=
      resume_unknown fun a ha => hgone _ (List.mem_map_of_mem ha)
    exact congrArg Prod.fst hrun
  | cons op ops ih =>
    obtain ⟨hlater, habsent⟩ := (h.docket op).gone hn hgone
    exact ih (h.run op) hlater habsent

/-- Hooks but one register nobody. -/
theorem notify_listeners (p : Pool) {h : Hook} (hh : ∀ l, Listener.brought? h l = none)
    (hs : ∀ l, Listener.settled h l = l) : (p.notify h).listeners = p.listeners := by
  have hnone : p.listeners.filterMap (Listener.brought? h) = [] :=
    List.filterMap_eq_nil_iff.mpr fun l _ => hh l
  have hsame : p.listeners.map (Listener.settled h) = p.listeners := by
    rw [List.map_congr_left fun l _ => hs l, List.map_id']
  simp only [notify, hnone, hsame, List.append_nil]

/-- The warnings about a failure that no acquirer hears of. -/
def backgroundWarnings (label : String) (p : Pool) (e : String) : List String :=
  List.replicate (p.listeners.countP (·.isNamed label))
    ("background connection creation failed: " ++ e)

/-- The warnings that an operation gives to listeners with this label. -/
def Operation.warnings (label : String) (p : Pool) : Operation → List String
  | create =>
    match p.inFlight, p.factory.create (p.attempts + 1) with
    | ⟨none⟩ :: _, .error e => p.backgroundWarnings label e
    | _, _ => []
  | _ => []

theorem warned_warning (p : Pool) (message label : String) :
    (p.notify (.onWarning message)).warned label =
      List.replicate (p.listeners.countP (·.isNamed label)) message ++ p.warned label := by
  have hsome : Hook.warning? (.onWarning message) = some message := rfl
  rw [warned_notify, List.filterMap_replicate_of_some hsome]

theorem concludeCreation_warned (p : Pool) (c : Creation) (e : Option String) (label : String) :
    (p.concludeCreation c e).warned label = p.warned label := by
  simp only [concludeCreation]
  cases c.acquirer <;> rfl

/-- A failure is told as a warning if no acquirer hears of it. -/
theorem lament_warned (p : Pool) (e : String) (c : Creation) (label : String) :
    ((lament e c.acquirer).run p).2.warned label =
      (if c.acquirer = none then p.backgroundWarnings label e else []) ++ p.warned label := by
  have hgone : Discreet p p.forgo := .of_desk rfl rfl
  have hlogged := hgone.trans (MaintenanceRule.log Act.Always p.forgo .warn
    "Failed to create connection" [("error", .shown e)])
  have hsilent :=
    (hlogged.trans (notify_discreet _ (h := .afterCreate (.error e)) rfl)).warned label
  have hstay := notify_listeners (h := .afterCreate (.error e))
    (p.forgo.log .warn "Failed to create connection" [("error", .shown e)])
    (by rintro (⟨_, _, _ | _⟩ | _) <;> rfl) (by rintro (⟨_, _, _ | _⟩ | _) <;> rfl)
  have hears : ((p.forgo.log .warn "Failed to create connection"
    [("error", .shown e)]).notify (.afterCreate (.error e))).listeners = p.listeners := hstay
  simp only [lament, Act.run_bind, Act.run_update]
  generalize (p.forgo.log .warn "Failed to create connection"
    [("error", .shown e)]).notify (.afterCreate (.error e)) = q at hsilent hears
  cases c.acquirer with
  | none =>
    have htold := warned_warning (q.emit (.creationFailed q.name e))
      ("background connection creation failed: " ++ e) label
    have hsame : (q.emit (.creationFailed q.name e)).warned label = p.warned label := hsilent
    rw [if_pos rfl, ← hsame, backgroundWarnings, ← hears]
    exact htold
  | some a =>
    rw [if_neg nofun, List.nil_append]
    exact hsilent

theorem create_warned (p : Pool) (label : String) :
    (create.run p).2.warned label = Operation.warnings label p .create ++ p.warned label := by
  simp only [create, Act.run_bind, Act.run_read]
  cases hflight : p.inFlight with
  | nil => simp only [Operation.warnings, hflight, List.nil_append, Act.run_pure]
  | cons c cs =>
    have hbegun : Discreet p ((p.notify .beforeCreate).attempt (p.attempts + 1)) :=
      (notify_discreet p rfl).trans ⟨fun _ => rfl, fun _ => rfl, rfl, rfl, rfl, fun h => h⟩
    have hlisteners : ((p.notify .beforeCreate).attempt (p.attempts + 1)).listeners = p.listeners :=
      notify_listeners p (by rintro (⟨_, _, _ | _⟩ | _) <;> rfl)
        (by rintro (⟨_, _, _ | _⟩ | _) <;> rfl)
    have hfactory : ((p.notify .beforeCreate).attempt (p.attempts + 1)).factory = p.factory := rfl
    have hattempts : (p.notify .beforeCreate).attempts = p.attempts := rfl
    simp only [Act.run_bind, Act.run_update, Act.run_read, hattempts, hfactory]
    generalize (p.notify .beforeCreate).attempt (p.attempts + 1) = m at hbegun hlisteners
    cases hmade : p.factory.create (p.attempts + 1) with
    | ok x =>
      simp only [Act.run_bind, Act.run_update, Operation.warnings, hflight, hmade, List.nil_append]
      exact (concludeCreation_warned _ c none label).trans
        ((hbegun.trans ((welcome_keeps x).always m)).warned label)
    | error e =>
      have htold := lament_warned m e c label
      rw [hbegun.warned label, backgroundWarnings, hlisteners] at htold
      simp only [Act.run_bind, Act.run_update]
      refine htold.trans ?_
      obtain ⟨_ | a⟩ := c
      · simp only [Operation.warnings, hflight, hmade, if_true, backgroundWarnings]
      · simp only [Operation.warnings, hflight, reduceCtorEq, if_false]

/-- What a creation that fails leaves behind: its place is free, and no handle has come or gone. -/
structure Forgone (p q : Pool) (c : Creation) : Prop where
  inFlight : p.inFlight = c :: q.inFlight
  size : q.size.count + 1 = p.size.count
  pending : q.pending.count + 1 = p.pending.count
  counters : q.counters = { p.counters with creationFailures := p.counters.creationFailures + 1 }
  handles : q.handles = p.handles
  gauges : q.gauges = p.gauges
  leases : q.leases = p.leases
  closures : q.closures = p.closures

theorem miscarry_forgone {c : Creation} {cs : List Creation} (first : p.inFlight = c :: cs)
    (e : String)
    (hp : p.Sound) : Forgone p (p.miscarry c e) c := by
  have hsize : p.size = ⟨(p.handles.map (·.account)).length + p.inFlight.length, 0⟩ :=
    hp.books.counted.size_eq
  have hpending : p.pending = ⟨p.inFlight.length, 0⟩ := hp.books.counted.pending_eq
  have hdown : p.size.down.count + 1 = p.size.count ∧
      p.pending.down.count + 1 = p.pending.count := by
    rw [hsize, hpending, first]
    simp [Tally.down, Nat.add_assoc]
  have htail : p.inFlight = c :: p.inFlight.tail := by simp only [first, List.tail_cons]
  -- only those who wait learn for whom it was
  simp only [miscarry, concludeCreation]
  cases c.acquirer with
  | none => exact ⟨htail, hdown.1, hdown.2, rfl, rfl, rfl, rfl, rfl⟩
  | some n => exact ⟨htail, hdown.1, hdown.2, rfl, rfl, rfl, rfl, rfl⟩

theorem Forgone.of_muted {c : Creation} (h : Forgone p m c) (same : q.muted = m.muted) :
    Forgone p q c where
  inFlight := (eq_of_muted Pool.inFlight (fun _ => rfl) same).symm ▸ h.inFlight
  size := (eq_of_muted Pool.size (fun _ => rfl) same).symm ▸ h.size
  pending := (eq_of_muted Pool.pending (fun _ => rfl) same).symm ▸ h.pending
  counters := (eq_of_muted Pool.counters (fun _ => rfl) same).trans h.counters
  handles := (eq_of_muted Pool.handles (fun _ => rfl) same).trans h.handles
  gauges := (eq_of_muted Pool.gauges (fun _ => rfl) same).trans h.gauges
  leases := (eq_of_muted Pool.leases (fun _ => rfl) same).trans h.leases
  closures := (eq_of_muted Pool.closures (fun _ => rfl) same).trans h.closures

theorem Fails.forgone {c : Creation} {e : String} (h : p.Fails c e) (hp : p.Sound) :
    Forgone p (create.run p).2 c := by
  obtain ⟨cs, hfirst⟩ := h.first
  exact (miscarry_forgone hfirst e hp).of_muted (h.miscarries hp)

/-- The acquirer knows of a failure, or has gone. -/
structure Spent (n : Nat) (p : Pool) : Prop where
  unbooked : p.booked n = 0
  drawn : n < p.nextTaker
  settled : ∀ x ∈ p.tickets, x.1 = n → ∃ e, x.2 = some (.settled (some e))

/-- Who knows of a failure schedules nothing more. -/
theorem Spent.docket {op : Operation} (h : p.Spent n) (k : Docket p op q) : q.Spent n := by
  have hnone := h.unbooked
  cases k with
  | discreet same =>
    exact ⟨(same.booked n).trans hnone, same.nextTaker ▸ h.drawn,
      fun x hx => h.settled x (same.tickets ▸ hx)⟩
  | @drawn t d m r same tends =>
    have hdrawn := h.drawn
    have hnumber : m.nextTaker = p.nextTaker := same.nextTaker
    have hnext : r.2.nextTaker = m.nextTaker + 1 := tends.nextTaker
    refine ⟨?_, by omega, fun x hx hid => ?_⟩
    · exact ((tends.others n (Nat.ne_of_lt hdrawn)).trans (same.booked n)).trans hnone
    · have hin : x ∈ m.tickets := tends.kept x hx (by omega)
      exact h.settled x (same.tickets ▸ hin) hid
  | @resumed a r mem tends =>
    by_cases hid : a.taker.id = n
    · obtain ⟨e, hticket⟩ := h.settled _ (List.mem_map_of_mem mem) hid
      obtain ⟨hbooked, hgone⟩ := tends.spent e hticket
      rw [hid] at hbooked hgone
      exact ⟨hbooked.trans hnone, tends.nextTaker ▸ h.drawn, fun x hx he => absurd he (hgone x hx)⟩
    · have hne : n ≠ a.taker.id := fun he => hid he.symm
      refine ⟨(tends.others n hne).trans hnone, tends.nextTaker ▸ h.drawn, fun x hx he => ?_⟩
      exact h.settled x (tends.kept x hx (he ▸ hne)) he
  | @settles op c e q ends failed =>
    have hbooked := ends.booked n
    refine ⟨by omega, ends.nextTaker ▸ h.drawn, fun x hx hid => ?_⟩
    rcases ends.ticket hx with ⟨hin, -⟩ | ⟨hc, -⟩
    · exact h.settled x hin hid
    · rw [if_pos (hid ▸ hc)] at hbooked
      omega

theorem Accounted.spent_after (h : p.Accounted) (k : p.Spent n) (ops : List Operation) :
    (p.after ops).Spent n := by
  induction ops generalizing p with
  | nil => exact k
  | cons op ops ih => exact ih (h.run op) (k.docket (h.docket op))

/-- When a creation fails, the acquirer that it was scheduled for gets to know. -/
theorem Fails.spent {e : String} (h : p.Fails ⟨some n⟩ e) (hp : p.Accounted) :
    (create.run p).2.Spent n := by
  have hends := h.settles hp.settled.sound
  have hbooked := hends.booked n
  have hle := hp.single n
  rw [if_pos rfl] at hbooked
  refine ⟨by omega, ?_, fun x hx hid => ?_⟩
  · rw [hends.nextTaker]
    by_contra hlate
    have hzero := hp.unborn n (Nat.not_lt.mp hlate)
    omega
  · rcases hends.ticket hx with ⟨hin, hnot⟩ | ⟨-, hsettled⟩
    · have hknown : x.2 = some .inFlight := (hp.known x hin).mpr (by rw [hid]; omega)
      exact absurd ⟨congrArg _ (congrArg some hid.symm), hknown⟩ hnot
    · exact ⟨e, hsettled⟩

/-- An acquirer that goes on warns nobody. -/
theorem Accounted.resume_warned (h : p.Accounted) (n : Nat) (label : String) :
    ((resume n).run p).2.warned label = p.warned label := by
  rcases h.resume_cases n with ⟨a, ha, -, htends⟩ | hrun
  · exact htends.warned label
  · rw [hrun]

theorem Accounted.acquire_warned (h : p.Accounted) (t : Thread) (d : Nat) (label : String) :
    ((acquire t d).run p).2.warned label = p.warned label := by
  rcases acquire_tends p t d (h.unborn _ (Nat.le_refl _)) with ⟨hsame, -⟩ | ⟨m, hsame, htends⟩
  · exact hsame.warned label
  · exact (htends.warned label).trans (hsame.warned label)

theorem abandon_warned (p : Pool) (i : Nat) (label : String) :
    (p.abandon i).warned label = p.warned label := by
  simp only [abandon]
  split
  · next c _ _ => cases c.acquirer <;> rfl
  · rfl

/-- Whoever is warned is warned of a creation that failed and that no acquirer asked for. -/
theorem Accounted.run_warned (h : p.Accounted) (op : Operation) (label : String) :
    (op.run p).warned label = op.warnings label p ++ p.warned label := by
  have hsilent : ∀ {q : Pool}, op.warnings label p = [] → q.warned label = p.warned label →
      q.warned label = op.warnings label p ++ p.warned label := by
    intro q hnone hq
    rw [hnone, hq, List.nil_append]
  cases hop : op.isDiscreet with
  | true =>
    refine hsilent ?_ ((op.discreet hop p).warned label)
    cases op with
    | create => cases hop
    | _ => rfl
  | false =>
    cases op with
    | acquire t d => exact hsilent rfl (h.acquire_warned t d label)
    | resume n => exact hsilent rfl (h.resume_warned n label)
    | create => exact create_warned p label
    | abandon i => exact hsilent rfl (abandon_warned p i label)
    | _ => cases hop

theorem Accounted.blamed (h : p.Accounted) (hnew : p.tickets = []) (ops : List Operation)
    {pool e : String}
    (hr : ((resume n).run (p.after ops)).1 = .refused (.creation pool e)) :
    pool = (p.after ops).name ∧ (p.after ops).closed = false ∧ p.FailedFor ops n e := by
  rcases (h.after ops).resume_cases n with ⟨a, ha, rfl, htends⟩ | hrun
  · obtain ⟨hpool, hopen, hticket⟩ := htends.blamed pool e hr
    exact ⟨hpool, hopen, h.failed_for hnew ops hopen (List.mem_map_of_mem ha) hticket⟩
  · rw [hrun] at hr
    cases hr

theorem Accounted.never_at_once (h : p.Accounted) (t : Thread) (d : Nat) (pool e : String) :
    ((acquire t d).run p).1 ≠ .refused (.creation pool e) := by
  rcases acquire_tends p t d (h.unborn _ (Nat.le_refl _)) with ⟨-, hno⟩ | ⟨m, -, htends⟩
  · exact hno pool e
  · intro hr
    cases (htends.blamed pool e hr).2.2

/-- Who was refused is told nothing more. -/
theorem Accounted.once (h : p.Accounted) {f : Failure} (hr : ((resume n).run p).1 = .refused f)
    (later : List Operation) : ((resume n).run (p.after (.resume n :: later))).1 = .waiting n := by
  rcases h.resume_cases n with ⟨a, ha, rfl, htends⟩ | hrun
  · refine (h.run (.resume a.taker.id)).stays_gone ?_ (htends.gone f hr) later
    exact htends.nextTaker ▸ h.settled.sound.lineup.takers_lt a ha
  · rw [hrun] at hr
    cases hr

theorem Accounted.spent_of_failed (h : p.Accounted) {ops : List Operation} {e : String}
    (hf : p.FailedFor ops n e) : (p.after ops).Spent n := by
  obtain ⟨pre, post, rfl, hfails, -⟩ := hf
  have hpre := h.after pre
  rw [after_append]
  exact (hpre.run .create).spent_after (hfails.spent hpre) post

/-- What can be said of creations that fail, after a run of operations. -/
structure FailuresTold (p : Pool) (ops : List Operation) : Prop where
  blamed : ∀ n pool e, ((resume n).run (p.after ops)).1 = .refused (.creation pool e) →
    pool = (p.after ops).name ∧ (p.after ops).closed = false ∧ p.FailedFor ops n e
  never_at_once : ∀ t d pool e, ((acquire t d).run (p.after ops)).1 ≠ .refused (.creation pool e)
  once : ∀ n f, ((resume n).run (p.after ops)).1 = .refused f → ∀ later,
    ((resume n).run ((p.after ops).after (.resume n :: later))).1 = .waiting n
  spent : ∀ n e, p.FailedFor ops n e → (p.after ops).booked n = 0
  behalf : ∀ (op : Operation) n, (p.after ops).booked n < (op.run (p.after ops)).booked n →
    op.behalf (p.after ops) = some n
  single : ∀ n, (p.after ops).booked n ≤ 1
  forgone : ∀ c e, (p.after ops).Fails c e → Forgone (p.after ops) (create.run (p.after ops)).2 c
  warned : ∀ (op : Operation) label, (op.run (p.after ops)).warned label =
    op.warnings label (p.after ops) ++ (p.after ops).warned label

/-- Whatever was done to a pool, and however its creations turn out: an acquirer is blamed for the
failure of its own creation only, and once. All others are blamed on nobody and warned of. -/
theorem failures_told {c : Config} {f : Factory} {ls : List Listener} {us : Units}
    (hb : build c f ls us = .ok (some p)) (ops : List Operation) : FailuresTold p ops := by
  obtain ⟨hbuilt, hnew⟩ := accounted_of_build hb
  have hafter := hbuilt.after ops
  exact {
    blamed := fun n pool e hr => hbuilt.blamed hnew ops hr
    never_at_once := hafter.never_at_once
    once := fun n f hr later => hafter.once hr later
    spent := fun n e hf => (hbuilt.spent_of_failed hf).unbooked
    behalf := fun op n hmore => (hafter.docket op).behalf hmore
    single := hafter.single
    forgone := fun c e hf => hf.forgone hafter.settled.sound
    warned := hafter.run_warned }

/-- Both creations fail: nobody asked for the first, and the acquirer hears of the second. -/
theorem failures_told_twice :
    ∃ p ops, build {} { creating := fun _ => .fails "refused" } [.recorder "a" [] false] {} =
    .ok (some p) ∧
      ((resume 0).run (p.after ops)).1 = .refused (.creation p.name "refused") ∧
      (p.after ops).warned "a" = ["background connection creation failed: refused"] ∧
      FailuresTold p ops := by
  refine ⟨_, [.acquire .background 9, .create, .create], rfl, rfl, rfl, ?_⟩
  exact @failures_told _ {} { creating := fun _ => .fails "refused" }
    [.recorder "a" [] false] {} rfl _

end ConnPool.Pool
