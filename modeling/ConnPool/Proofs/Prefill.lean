import ConnPool.Proofs.FailedCreations
import ConnPool.Proofs.Lists
import ConnPool.Proofs.Refill

namespace ConnPool

namespace Factory

/-- The connections that the first attempts come to, in order. -/
def made (f : Factory) (n : Nat) : List Connection :=
  (List.range n).filterMap fun k => (f.create (k + 1)).toOption

/-- The errors of those of the first attempts that come to nothing. -/
def missed (f : Factory) (n : Nat) : List String :=
  (List.range n).filterMap fun k => match f.create (k + 1) with
    | .ok _ => none
    | .error e => some e

variable {f : Factory} {n : Nat}

theorem made_of_ok {x : Connection} (h : f.create (n + 1) = .ok x) :
    f.made (n + 1) = f.made n ++ [x] := by
  simp only [made, filterMap_range_succ, h]
  rfl

theorem made_of_error {e : String} (h : f.create (n + 1) = .error e) :
    f.made (n + 1) = f.made n := by
  simp only [made, filterMap_range_succ, h]
  exact List.append_nil _

theorem missed_of_ok {x : Connection} (h : f.create (n + 1) = .ok x) :
    f.missed (n + 1) = f.missed n := by
  simp only [missed, filterMap_range_succ, h]
  exact List.append_nil _

theorem missed_of_error {e : String} (h : f.create (n + 1) = .error e) :
    f.missed (n + 1) = f.missed n ++ [e] := by
  simp only [missed, filterMap_range_succ, h]
  rfl

/-- Every attempt comes to a connection or to an error. -/
theorem made_add_missed (f : Factory) (n : Nat) : (f.made n).length + (f.missed n).length = n := by
  induction n with
  | zero => rfl
  | succ n ih =>
    cases h : f.create (n + 1) with
    | ok x =>
      rw [made_of_ok h, missed_of_ok h, List.length_append, List.length_singleton]
      omega
    | error e =>
      rw [made_of_error h, missed_of_error h, List.length_append, List.length_singleton]
      omega

end Factory

namespace Pool

open Act (Always)

variable {p q : Pool} {c : Config} {f : Factory} {ls : List Listener} {us : Units} {n k : Nat}

/-- Nobody joins or leaves those who listen. -/
def Attended (p q : Pool) : Prop := q.listeners = p.listeners

instance : Act.Rule Always Attended := ⟨fun _ => rfl, fun h k => Eq.trans k h, fun _ h => h⟩

/-- All hooks but the one before an acquire leave the listeners as they are. -/
theorem notify_attended {h : Hook} (hh : h ≠ .beforeAcquire) (p : Pool) :
    Attended p (p.notify h) := by
  have hstill : ∀ l, Listener.brought? h l = none ∧ Listener.settled h l = l := by
    intro l
    cases h with
    | beforeAcquire => exact absurd rfl hh
    | _ => rcases l with ⟨_, _, _ | _⟩ | _ <;> exact ⟨rfl, rfl⟩
  exact notify_listeners p (fun l => (hstill l).1) fun l => (hstill l).2

instance : DeskRule Attended where
  mend hd _ := by
    simp only [desk, Prod.mk.injEq] at hd
    obtain ⟨-, -, -, -, -, -, -, hears⟩ := hd
    exact hears
  note _ _ _ := rfl
  notify p _ _ hb := notify_attended hb p
  schedule _ := rfl
  rouse _ _ _ := rfl
  shut _ := rfl

instance : CreationRule Always Attended where
  tell _ _ _ := rfl
  flight _ _ := rfl
  warn p _ := notify_attended Hook.noConfusion p

/-- The accounts of handles that were made for these connections and never used. -/
def seats (xs : List Connection) : List Account :=
  xs.mapIdx fun i x => ⟨⟨i + 1⟩, .checkedIn, some x.serial⟩

theorem seats_concat (xs : List Connection) (x : Connection) :
    seats (xs ++ [x]) = seats xs ++ [⟨⟨xs.length + 1⟩, .checkedIn, some x.serial⟩] :=
  List.mapIdx_concat

/-- A pool after this many of the attempts that it was built with. -/
structure Filling (f : Factory) (ls : List Listener) (n k : Nat) (p : Pool) : Prop where
  settled : p.Settled
  isOpen : p.closed = false
  factory : p.factory = f
  listeners : p.listeners = ls
  inFlight : p.inFlight = List.replicate (n - k) ⟨none⟩
  counters : p.counters = { created := (f.made k).length, creationFailures := (f.missed k).length }
  attempts : p.attempts = k
  accounts : p.ledger.accounts = seats (f.made k)
  nextHandle : p.nextHandle = (f.made k).length + 1
  warned : ∀ label, p.warned label = (f.missed k).reverse.flatMap fun e =>
    List.replicate (ls.countP (·.isNamed label)) ("background connection creation failed: " ++ e)

theorem Filling.first (h : Filling f ls n k p) (hk : k < n) :
    p.inFlight = ⟨none⟩ :: List.replicate (n - (k + 1)) ⟨none⟩ := by
  have hleft : n - k = n - (k + 1) + 1 := by omega
  rw [h.inFlight, hleft, List.replicate_succ]

theorem Filling.next (h : Filling f ls n k p) :
    p.factory.create (p.attempts + 1) = f.create (k + 1) := by
  rw [h.factory, h.attempts]

/-- An attempt that fails gives its place back, and whoever listens is warned of it. -/
theorem Filling.fails (h : Filling f ls n k p) (hk : k < n) {e : String}
    (he : f.create (k + 1) = .error e) :
    Filling f ls n (k + 1) (create.run p).2 := by
  have hfirst := h.first hk
  have hfails : p.Fails ⟨none⟩ e := ⟨⟨_, hfirst⟩, h.next.trans he⟩
  have hgone := hfails.forgone h.settled.sound
  have hsame := hfails.miscarries h.settled.sound
  have hflight : ⟨none⟩ :: (create.run p).2.inFlight =
      ⟨none⟩ :: List.replicate (n - (k + 1)) ⟨none⟩ :=
    hgone.inFlight.symm.trans hfirst
  refine ⟨h.settled.run .create, ?_, ?_, (create_keeps.always (R := Attended) p).trans h.listeners,
    (List.cons.inj hflight).2, ?_, ?_, ?_, ?_, fun label => ?_⟩
  · exact (eq_of_muted Pool.closed (fun _ => rfl) hsame).trans h.isOpen
  · exact (eq_of_muted Pool.factory (fun _ => rfl) hsame).trans h.factory
  · rw [hgone.counters, h.counters, Factory.made_of_error he, Factory.missed_of_error he,
      List.length_append, List.length_singleton]
  · exact (eq_of_muted Pool.attempts (fun _ => rfl) hsame).trans (congrArg (· + 1) h.attempts)
  · rw [Factory.made_of_error he, ← h.accounts]
    exact congrArg (List.map Handle.account) hgone.handles
  · rw [Factory.made_of_error he]
    exact (eq_of_muted Pool.nextHandle (fun _ => rfl) hsame).trans h.nextHandle
  · have hwarned := create_warned p label
    simp only [Operation.warnings, hfirst, hfails.failed, backgroundWarnings] at hwarned
    rw [hwarned, h.listeners, h.warned, Factory.missed_of_error he, List.reverse_append,
      List.reverse_singleton, List.singleton_append, List.flatMap_cons]

/-- What a creation that works leaves behind in an open pool: there is one more handle, and it is
idle. -/
structure Grown (p q : Pool) (x : Connection) : Prop where
  accounts : q.ledger.accounts = p.ledger.accounts ++ [⟨⟨p.nextHandle⟩, .checkedIn, some x.serial⟩]
  nextHandle : q.nextHandle = p.nextHandle + 1
  inFlight : q.inFlight = p.inFlight.tail
  counters : q.counters = { p.counters with created := p.counters.created + 1 }
  attempts : q.attempts = p.attempts + 1
  factory : q.factory = p.factory
  closed : q.closed = p.closed

theorem birth_grown (hp : p.ledger.Fitting) (ho : p.closed = false) (x : Connection)
    (same : q.muted =
    (p.birth ⟨none⟩ x).muted) : Grown p q x := by
  have hbirth : p.birth ⟨none⟩ x = (p.tried.bear x).endCreation := by
    simp only [birth, concludeCreation, ho, Bool.false_eq_true, if_false]
    rfl
  have hfresh := id_ne_next hp
  have hborn := bear_ledger (p := p.tried) hfresh x
  have hkept : (p.tried.bear x).inFlight = p.inFlight := inFlight_available _ _ _
  have hopen : ¬ p.outline.tried.closed = true := by
    rw [show p.outline.tried.closed = false from ho]
    exact Bool.false_ne_true
  have hseen := (outline_of_muted same).trans (outline_birth ⟨none⟩ x)
  rw [Outline.bear, if_neg hopen] at hseen
  refine ⟨?_, ?_, ?_, congrArg Outline.counters hseen, congrArg Outline.attempts hseen,
    congrArg Outline.factory hseen, congrArg Outline.closed hseen⟩
  · rw [eq_of_muted ledger (fun _ => rfl) same, hbirth]
    exact congrArg Ledger.accounts hborn
  · rw [eq_of_muted Pool.nextHandle (fun _ => rfl) same, hbirth]
    exact congrArg Ledger.nextHandle hborn
  · rw [eq_of_muted Pool.inFlight (fun _ => rfl) same, hbirth]
    exact congrArg List.tail hkept

/-- An attempt that works adds one handle, and nobody is warned. -/
theorem Filling.works (h : Filling f ls n k p) (hk : k < n) {x : Connection}
    (hx : f.create (k + 1) = .ok x) : Filling f ls n (k + 1) (create.run p).2 := by
  have hfirst := h.first hk
  have hmade : p.factory.create (p.attempts + 1) = .ok x := h.next.trans hx
  have hgrown : Grown p (create.run p).2 x := by
    have hlet := create_letThrough h.settled.sound
    generalize (create.run p).2 = q at hlet ⊢
    cases hlet with
    | idle empty => cases hfirst.symm.trans empty
    | miscarried first failed same => cases hmade.symm.trans failed
    | born first made same =>
      cases hfirst.symm.trans first
      cases hmade.symm.trans made
      exact birth_grown h.settled.sound.books.fitting h.isOpen x same
  refine ⟨h.settled.run .create, hgrown.closed.trans h.isOpen, hgrown.factory.trans h.factory,
    (create_keeps.always (R := Attended) p).trans h.listeners, ?_, ?_, ?_, ?_, ?_, fun label => ?_⟩
  · rw [hgrown.inFlight, hfirst, List.tail_cons]
  · rw [hgrown.counters, h.counters, Factory.made_of_ok hx, Factory.missed_of_ok hx,
      List.length_append, List.length_singleton]
  · rw [hgrown.attempts, h.attempts]
  · rw [hgrown.accounts, h.accounts, h.nextHandle, Factory.made_of_ok hx, seats_concat]
  · rw [hgrown.nextHandle, h.nextHandle, Factory.made_of_ok hx, List.length_append,
      List.length_singleton]
  · have hwarned := create_warned p label
    simp only [Operation.warnings, hfirst, hmade, List.nil_append] at hwarned
    rw [hwarned, h.warned, Factory.missed_of_ok hx]

/-- The creations that a pool was built with are let through, in any order, and time passes. -/
def Operation.letsThrough : Operation → Bool
  | create | overtake _ | wait _ => true
  | _ => false

def Operation.isCreate : Operation → Bool
  | create => true
  | _ => false

/-- Creations that nobody asked for are all alike. -/
theorem Filling.overtake (h : Filling f ls n k p) (i : Nat) : p.overtake i = p := by
  simp only [Pool.overtake]
  split
  · next r hr =>
    rw [h.inFlight, List.getElem?_replicate] at hr
    split at hr
    · next hi =>
      cases hr
      have hone : n - k = n - k - 1 + 1 := by omega
      have hsame : ⟨none⟩ :: p.inFlight.eraseIdx i = p.inFlight := by
        rw [h.inFlight, List.eraseIdx_replicate, if_pos hi, ← List.replicate_succ, ← hone]
      rw [hsame]
    · cases hr
  · rfl

/-- Once all attempts are over there is nothing to let through. -/
theorem Filling.idle (h : Filling f ls n k p) (hk : n ≤ k) : (create.run p).2 = p := by
  have hnone : p.inFlight = [] := by
    rw [h.inFlight, Nat.sub_eq_zero_of_le hk, List.replicate_zero]
  simp only [create, Act.run_bind, Act.run_read, hnone, Act.run_pure]

theorem Filling.wait (h : Filling f ls n k p) (d : Nat) :
    Filling f ls n k { p with clock := p.clock + d } :=
  ⟨h.settled.run (.wait d), h.isOpen, h.factory, h.listeners, h.inFlight, h.counters, h.attempts,
    h.accounts, h.nextHandle, h.warned⟩

/-- However many creations are let through, each is the next attempt as long as one is left. -/
theorem Filling.after (h : Filling f ls n k p) (hk : k ≤ n) {ops : List Operation}
    (hops : ∀ op ∈ ops, op.letsThrough = true) :
    Filling f ls n (min n (k + ops.countP Operation.isCreate)) (p.after ops) := by
  induction ops generalizing k p with
  | nil => rwa [List.countP_nil, Nat.add_zero, Nat.min_eq_right hk]
  | cons op ops ih =>
    obtain ⟨hop, hrest⟩ := List.forall_mem_cons.mp hops
    rw [after_cons]
    cases op with
    | create =>
      rw [List.countP_cons_of_pos rfl]
      by_cases hlt : k < n
      · have hnext : Filling f ls n (k + 1) (create.run p).2 := by
          cases hx : f.create (k + 1) with
          | ok x => exact h.works hlt hx
          | error e => exact h.fails hlt hx
        have hrun := ih hnext hlt hrest
        have hcount : k + 1 + ops.countP Operation.isCreate = k +
            (ops.countP Operation.isCreate + 1) := by
          omega
        rwa [hcount] at hrun
      · have hrun := ih h hk hrest
        have hcount : min n (k + ops.countP Operation.isCreate) =
            min n (k + (ops.countP Operation.isCreate + 1)) := by omega
        rw [hcount] at hrun
        have hsame : Operation.run p .create = p := h.idle (Nat.le_of_not_lt hlt)
        rwa [hsame]
    | overtake i =>
      have hsame : Operation.run p (.overtake i) = p := h.overtake i
      rw [hsame, List.countP_cons_of_neg Bool.false_ne_true]
      exact ih h hk hrest
    | wait d =>
      rw [List.countP_cons_of_neg Bool.false_ne_true]
      exact ih (h.wait d) hk hrest
    | _ => cases hop

/-- A pool starts by filling up, and warns nobody of anything. -/
theorem start_cases (p : Pool) : ∃ r fields, r.muted = p.muted ∧ Discreet p r ∧ Attended p r ∧
    p.start = (r.fillTo p.config.prefillTarget.toNat).log .info "Pool started" fields := by
  have hnamed : ∀ (ws : List Sweep) (p : Pool),
      Discreet p (ws.foldl (fun p s => p.log .debug "Sweep disabled" [("sweep", .text s.name)]) p) ∧
        Attended p (ws.foldl
        (fun p s => p.log .debug "Sweep disabled" [("sweep", .text s.name)]) p) := by
    intro ws
    induction ws with
    | nil => exact fun p => ⟨.refl p, rfl⟩
    | cons w ws ih =>
      intro p
      obtain ⟨hdiscreet, hattended⟩ := ih (p.log .debug "Sweep disabled" [("sweep", .text w.name)])
      exact ⟨Discreet.trans (MaintenanceRule.log Always p _ _ _) hdiscreet, hattended⟩
  obtain ⟨hdiscreet, hattended⟩ := hnamed (Sweep.all.filter fun s => (p.config.period s).isZero) p
  have hstart : p.start = (Pool.fillTo _ _).log .info "Pool started" _ := rfl
  rw [hdiscreet.config] at hstart
  exact ⟨_, _, foldl_log_muted _ p, hdiscreet, hattended, hstart⟩

/-- A pool is never asked to open more connections at first than it may have. -/
theorem target_le_max (hc : c.Accepted) : c.prefillTarget.toNat ≤ c.maxSize.toNat := by
  simp only [Config.prefillTarget, Prefill.target]
  split
  · exact Nat.zero_le _
  · exact UInt64.le_iff_toNat_le.mp (min_le_max hc)
  · exact Nat.le_refl _

/-- What filling up does not touch. -/
def groundwork (p : Pool) : Bool × Factory × List Handle × Counters × Nat × Nat :=
  (p.closed, p.factory, p.handles, p.counters, p.attempts, p.nextHandle)

/-- A pool that was just built has all its first creations in flight, and none of them has begun. -/
theorem filling_of_build (hb : build c f ls us = .ok (some p)) :
    Filling f ls c.prefillTarget.toNat 0 p := by
  have hsettled := (fresh_of_build hb).settled
  obtain ⟨hc, -, bus, -, rfl⟩ := build_iff.mp hb
  obtain ⟨r, fields, hmuted, hdiscreet, hattended, hstart⟩ := start_cases (new c f ls us bus)
  have hopen : r.closed = false := eq_of_muted Pool.closed (fun _ => rfl) hmuted
  have hsize : r.size = {} := eq_of_muted Pool.size (fun _ => rfl) hmuted
  have hcap : r.cap = c.maxSize.toNat := eq_of_muted Pool.cap (fun _ => rfl) hmuted
  have hempty : r.inFlight = [] := eq_of_muted Pool.inFlight (fun _ => rfl) hmuted
  have hground : r.groundwork = (new c f ls us bus).groundwork :=
    eq_of_muted groundwork (fun _ => rfl) hmuted
  have hfill : r.fillTo c.prefillTarget.toNat = c.prefillTarget.toNat.repeat (schedule none) r := by
    rw [fillTo, if_neg (by rw [hopen]; exact Bool.false_ne_true), hsize, hcap,
      Nat.min_eq_left (target_le_max hc), Nat.sub_zero]
  have hflight : (r.fillTo c.prefillTarget.toNat).inFlight =
      List.replicate c.prefillTarget.toNat ⟨none⟩ := by
    rw [hfill, (repeat_schedule c.prefillTarget.toNat).1, hempty, List.nil_append]
  have hsame := fillTo_same r c.prefillTarget.toNat
  have hsilent := (hdiscreet.trans (MaintenanceRule.fillTo Always r c.prefillTarget.toNat)).trans
    (MaintenanceRule.log Always _ .info "Pool started" fields)
  have hlogged : (new c f ls us bus).start =
      (r.fillTo c.prefillTarget.toNat).log .info "Pool started" fields := hstart
  have hlaid : (new c f ls us bus).start.groundwork = (new c f ls us bus).groundwork := by
    rw [hlogged]
    exact (congrArg groundwork hsame).trans hground
  have hears : (new c f ls us bus).start.listeners = ls := by
    rw [hlogged]
    exact (congrArg Pool.listeners hsame).trans hattended
  rw [← hlogged] at hsilent
  simp only [groundwork, Prod.mk.injEq] at hlaid
  obtain ⟨hclosed, hfactory, hhandles, hcounters, hattempts, hnext⟩ := hlaid
  exact {
    settled := hsettled
    isOpen := hclosed
    factory := hfactory
    listeners := hears
    inFlight := hlogged ▸ hflight
    counters := hcounters
    attempts := hattempts
    accounts := congrArg (List.map Handle.account) hhandles
    nextHandle := hnext
    warned := hsilent.warned }

/-- What a pool is like when all the attempts that it was built with are over. -/
structure Prefilled (c : Config) (f : Factory) (ls : List Listener) (p : Pool) : Prop where
  attempts : p.attempts = c.prefillTarget.toNat
  pending : p.pending.count = 0
  accounts : p.handles.map (·.account) = seats (f.made c.prefillTarget.toNat)
  size : p.size.count = (f.made c.prefillTarget.toNat).length
  idle : p.idleCount = (f.made c.prefillTarget.toNat).length
  created : p.counters.created = (f.made c.prefillTarget.toNat).length
  creationFailures : p.counters.creationFailures = (f.missed c.prefillTarget.toNat).length
  balanced : p.counters.created + p.counters.creationFailures = c.prefillTarget.toNat
  warned : ∀ label, p.warned label = (f.missed c.prefillTarget.toNat).reverse.flatMap fun e =>
    List.replicate (ls.countP (·.isNamed label)) ("background connection creation failed: " ++ e)

theorem Filling.prefilled (h : Filling f ls c.prefillTarget.toNat c.prefillTarget.toNat p) :
    Prefilled c f ls p := by
  have hbooks := h.settled.sound.books.counted
  have hempty : p.inFlight = [] := by
    rw [h.inFlight, Nat.sub_self, List.replicate_zero]
  have hsize : p.size = ⟨p.ledger.accounts.length + p.inFlight.length, 0⟩ := hbooks.size_eq
  have hpending : p.pending = ⟨p.inFlight.length, 0⟩ := hbooks.pending_eq
  have hgauges : p.gauges = .level p.ledger.idle p.ledger.active p.gauges.maxUsed :=
    hbooks.gauges_eq
  have hlength : (seats (f.made c.prefillTarget.toNat)).length =
    (f.made c.prefillTarget.toNat).length :=
    List.length_mapIdx
  have hidle : p.ledger.idle = (f.made c.prefillTarget.toNat).length := by
    rw [Ledger.idle, h.accounts, ← hlength, List.countP_eq_length]
    intro a ha
    obtain ⟨i, hi, rfl⟩ := List.mem_mapIdx.mp ha
    rfl
  refine ⟨h.attempts, ?_, h.accounts, ?_, ?_, congrArg Counters.created h.counters,
    congrArg Counters.creationFailures h.counters, ?_, h.warned⟩
  · rw [hpending, hempty]
    rfl
  · rw [hsize, hempty, h.accounts, hlength]
    rfl
  · rw [idleCount, hgauges]
    exact hidle
  · rw [h.counters]
    exact Factory.made_add_missed f _

/-- What becomes of the creations that a pool is built with. -/
structure Prefills (c : Config) (f : Factory) (ls : List Listener) (p : Pool) : Prop where
  scheduled : p.attempts = 0 ∧ p.inFlight = List.replicate c.prefillTarget.toNat ⟨none⟩
  attempted : ∀ ops : List Operation, (∀ op ∈ ops, op.letsThrough = true) →
    (p.after ops).attempts = min c.prefillTarget.toNat (ops.countP Operation.isCreate) ∧
      (p.after ops).inFlight.length = c.prefillTarget.toNat - ops.countP Operation.isCreate
  ended : ∀ ops : List Operation, (∀ op ∈ ops, op.letsThrough = true) →
    (p.after ops).inFlight = [] → Prefilled c f ls (p.after ops)

/-- A pool makes as many attempts as it was built with and no more, whatever comes of each. Those
that work are its idle handles, numbered without a gap; of each that fails everyone who listens is
warned once, and its place is free again. -/
theorem prefill_outcome (hb : build c f ls us = .ok (some p)) : Prefills c f ls p := by
  have hbuilt := filling_of_build hb
  refine ⟨⟨hbuilt.attempts, hbuilt.inFlight⟩, fun ops hops => ?_, fun ops hops hended => ?_⟩
  · have hrun := hbuilt.after (Nat.zero_le _) hops
    rw [hrun.attempts, hrun.inFlight, List.length_replicate, Nat.zero_add]
    exact ⟨rfl, by omega⟩
  · have hrun := hbuilt.after (Nat.zero_le _) hops
    have hleft := congrArg List.length (hrun.inFlight.symm.trans hended)
    rw [List.length_replicate, List.length_nil] at hleft
    have hall : min c.prefillTarget.toNat (0 + ops.countP Operation.isCreate) =
        c.prefillTarget.toNat := by
      omega
    rw [hall] at hrun
    exact hrun.prefilled

/-- The first of three attempts works, the second is refused, and the third panics. -/
theorem prefill_of_three :
    ∃ p f, build { prefill := .toMax, maxSize := 3 } f [.recorder "a" [] false] {} = .ok (some p) ∧
      f.creating 1 = .works ∧ f.creating 2 = .fails "refused" ∧ f.creating 3 = .panics ∧
      (p.after [.create, .overtake 1, .create, .create]).inFlight = [] ∧
      Prefills { prefill := .toMax, maxSize := 3 } f [.recorder "a" [] false] p := by
  refine ⟨_,
    { creating := fun n => if n = 1 then .works else if n = 2 then .fails "refused" else .panics },
    rfl, rfl, rfl, rfl, rfl, ?_⟩
  exact @prefill_outcome _ { prefill := .toMax, maxSize := 3 } _ [.recorder "a" [] false] {} rfl

end Pool
end ConnPool
