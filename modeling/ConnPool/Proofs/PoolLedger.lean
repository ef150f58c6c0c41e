import ConnPool.Proofs.Effect

namespace ConnPool.Pool

variable {p : Pool}

theorem ledger_accounts {pre post : List Handle} {h : Handle}
    (hb : Keyed.Between Handle.id p.handles pre h post) :
    p.ledger.accounts = pre.map (·.account) ++ h.account :: post.map (·.account) := by
  simp only [ledger, hb.eq, List.map_append, List.map_cons]

theorem modifyHandle_ledger {pre post : List Handle} {h : Handle} {id : HandleId}
    (hb : Keyed.Between Handle.id p.handles pre h post) (hid : h.id = id) (f : Handle → Handle) :
    (p.modifyHandle id f).ledger =
      { p.ledger with
        accounts := pre.map (·.account) ++ (f h).account :: post.map (·.account) } := by
  simp only [ledger, modifyHandle, hb.replace hid f, List.map_append, List.map_cons]
  rfl

/-- A change that an account does not show. -/
theorem modifyHandle_ledger_eq (id : HandleId) (f : Handle → Handle)
    (hf : ∀ h, (f h).account = h.account) : (p.modifyHandle id f).ledger = p.ledger := by
  have hmap : (p.modifyHandle id f).handles.map (·.account) = p.handles.map (·.account) := by
    simp only [modifyHandle, List.map_map]
    refine List.map_congr_left fun h _ => ?_
    simp only [Function.comp]
    split
    · exact hf h
    · rfl
  simp only [ledger, hmap]
  rfl

theorem unqueue_ledger (id : HandleId) : (p.unqueue id).ledger = p.ledger :=
  modifyHandle_ledger_eq (p := p) id (fun h => { h with queued := false }) fun _ => rfl

theorem clearOwner_ledger (id : HandleId) : (p.clearOwner id).ledger = p.ledger :=
  modifyHandle_ledger_eq (p := p) id (fun h => { h with owner := none }) fun _ => rfl

theorem touch_ledger (id : HandleId) : (p.touch id).ledger = p.ledger :=
  modifyHandle_ledger_eq (p := p) id (fun h => { h with lastAccess := p.clock }) fun _ => rfl

theorem cacheLocally_ledger (t : Thread) (id : HandleId) :
    (p.cacheLocally t id).ledger = p.ledger := by
  simp only [cacheLocally]
  split
  · exact modifyHandle_ledger_eq (p := p) id (fun h => { h with cachedBy := some t }) fun _ => rfl
  · rfl

theorem offer_ledger (t : Thread) (id : HandleId) : (p.offer t id).2.ledger = p.ledger := by
  unfold offer
  split
  split <;> rfl

theorem available_ledger (t : Thread) (id : HandleId) : (p.available t id).ledger = p.ledger := by
  simp only [available]
  split
  · rfl
  · rw [offer_ledger]
    exact modifyHandle_ledger_eq (p := p) id (fun h => { h with queued := true }) fun _ => rfl

theorem assign_ledger (t : Thread) (started : Nat) (id : HandleId) :
    (p.assign t started id).ledger = p.ledger := by
  have hown := modifyHandle_ledger_eq (p := p) id (fun h => { h with owner := some ⟨t, p.clock⟩ })
    fun _ => rfl
  rw [← hown]
  exact touch_ledger (p := (p.modifyHandle id fun h => { h with owner := some ⟨t, p.clock⟩ })) id

theorem write_ledger (n : Nat) (text : String) : (p.write n text).ledger = p.ledger := by
  have hmap : (p.write n text).leases.map (·.loan) = p.leases.map (·.loan) := by
    simp only [write, List.map_map]
    refine List.map_congr_left fun l _ => ?_
    simp only [Function.comp]
    split <;> rfl
  simp only [ledger, hmap]
  rfl

theorem park_ledger (a : Acquirer) : (p.park a).ledger = p.ledger := by
  unfold park
  split
  · rfl
  · split
    split <;> rfl

/-- An idle handle is claimed. -/
theorem restate_claim (hp : p.ledger.Fitting) {id : HandleId} {h : Handle}
    (hf : p.find? id = some h) (hs : h.state = .checkedIn) :
    Ledger.Move p.ledger [] (p.restate id .checkedIn .checkedOut).ledger := by
  obtain ⟨pre, post, hb, hid⟩ := between_of_find hp hf
  obtain ⟨c, hc⟩ := slot_of_idle hp hb.mem hs
  have hacc := ledger_accounts hb
  have hledger := modifyHandle_ledger hb hid fun h => { h with state := .checkedOut }
  have hmoved : (p.restate id .checkedIn .checkedOut).ledger =
      { (p.modifyHandle id fun h => { h with state := .checkedOut }).ledger with
        gauges := p.ledger.gauges.moved .checkedIn .checkedOut } := rfl
  rw [hmoved, hledger]
  simp only [Handle.account, hs, hc, Option.map_some] at hacc ⊢
  exact .claim hacc

/-- An active handle becomes idle. -/
theorem restate_comeBack (hp : p.ledger.Fitting) {id : HandleId} {h : Handle} {c : Connection}
    (hf : p.find? id = some h) (hs : h.state = .checkedOut) (hc : h.slot = some c) :
    Ledger.Move p.ledger [] (p.restate id .checkedOut .checkedIn).ledger := by
  obtain ⟨pre, post, hb, hid⟩ := between_of_find hp hf
  have hacc := ledger_accounts hb
  have hledger := modifyHandle_ledger hb hid fun h => { h with state := .checkedIn }
  have hmoved : (p.restate id .checkedOut .checkedIn).ledger =
      { (p.modifyHandle id fun h => { h with state := .checkedIn }).ledger with
        gauges := p.ledger.gauges.moved .checkedOut .checkedIn } := rfl
  rw [hmoved, hledger]
  simp only [Handle.account, hs, hc, Option.map_some] at hacc ⊢
  exact .comeBack hacc

theorem comeBack_ledger (hp : p.ledger.Fitting) {id : HandleId} {h : Handle} {c : Connection}
    (hf : p.find? id = some h) (hs : h.state = .checkedOut) (hc : h.slot = some c) (t : Thread) :
    Ledger.Move p.ledger [] (p.comeBack t id).ledger := by
  have hsame : ((p.clearOwner id).touch id).ledger = p.ledger := by
    rw [touch_ledger, clearOwner_ledger]
  have hfind : ((p.clearOwner id).touch id).find? id =
      some { h with owner := none, lastAccess := p.clock } := by
    rw [find_touch, find_clearOwner, hf]
    rfl
  have hmove := restate_comeBack (hsame.symm ▸ hp) hfind hs hc
  simp only [comeBack, homecoming]
  rw [available_ledger, cacheLocally_ledger, ← hsame]
  exact hmove

/-- The connection of an active handle goes out on loan. -/
theorem lend_ledger (hp : p.ledger.Fitting) {id : HandleId} {h : Handle} {c : Connection}
    (hf : p.find? id = some h) (hs : h.state = .checkedOut) (hc : h.slot = some c) (e : Bool) :
    Ledger.Move p.ledger [] (p.lend id c e).2.ledger := by
  obtain ⟨pre, post, hb, hid⟩ := between_of_find hp hf
  have hacc := ledger_accounts hb
  have hledger := modifyHandle_ledger hb hid fun h => { h with slot := none }
  have hlent : (p.lend id c e).2.ledger =
      { (p.modifyHandle id fun h => { h with slot := none }).ledger with
        loans := p.ledger.loans ++ [⟨p.ledger.nextLoan, id, c.serial⟩]
        nextLoan := p.ledger.nextLoan + 1 } := by
    simp only [ledger, lend, List.map_append, List.map_cons, List.map_nil, Lease.loan]
    rfl
  rw [hlent, hledger]
  simp only [Handle.account, hs, hc, hid, Option.map_some, Option.map_none] at hacc ⊢
  exact .lend hacc

theorem numbers_nodup (hp : p.ledger.Fitting) : (p.leases.map (·.number)).Nodup := by
  have h := hp.numbers_nodup
  simp only [ledger, List.map_map] at h
  exact h

/-- The handle of a connection on loan is active, and its slot is empty. -/
theorem find_of_lease (hp : p.ledger.Fitting) {l : Lease} (hl : l ∈ p.leases) :
    ∃ h, p.find? l.handle = some h ∧ h.state = .checkedOut ∧ h.slot = none := by
  have hmem : l.handle ∈ p.ledger.loans.map (·.handle) :=
    List.mem_map_of_mem (f := fun o : Loan => o.handle) (List.mem_map_of_mem hl)
  obtain ⟨a, ha, hid⟩ := List.mem_map.mp (hp.lent.mem_iff.mpr hmem)
  obtain ⟨hin, hnone⟩ := List.mem_filter.mp ha
  obtain ⟨h, hh, rfl⟩ := List.mem_map.mp hin
  have hslot : h.slot = none := by simpa [Handle.account] using hnone
  have hfind := find_of_mem hp hh
  refine ⟨h, (congrArg p.find? hid).symm.trans hfind, ?_, hslot⟩
  rcases idle_or_active hp hh with ⟨-, c, hc⟩ | hs
  · rw [hslot] at hc
    cases hc
  · exact hs

/-- A handle that is not on loan has its connection in its slot. -/
theorem slot_of_free (hp : p.ledger.Fitting) {id : HandleId} {h : Handle} (hf : p.find? id = some h)
    (hfree : ∀ l ∈ p.leases, l.handle ≠ id) : ∃ c, h.slot = some c := by
  obtain ⟨hmem, hid⟩ := mem_of_find hf
  cases hc : h.slot with
  | some c => exact ⟨c, rfl⟩
  | none =>
    have hempty : h.account ∈ p.ledger.accounts.filter (·.holds.isNone) :=
      List.mem_filter.mpr ⟨List.mem_map_of_mem hmem, by simp [Handle.account, hc]⟩
    have hloan : h.id ∈ p.ledger.loans.map (·.handle) :=
      hp.lent.mem_iff.mp (List.mem_map_of_mem (f := fun a : Account => a.id) hempty)
    simp only [ledger, List.map_map] at hloan
    obtain ⟨l, hl, hlid⟩ := List.mem_map.mp hloan
    exact absurd (hlid.trans hid) (hfree l hl)

theorem lease_between (hp : p.ledger.Fitting) {l : Lease} (hl : l ∈ p.leases) :
    ∃ pre post, Keyed.Between Lease.number p.leases pre l post :=
  Keyed.exists_between (numbers_nodup hp) hl

/-- A lease ends, and its connection is back in its slot. -/
theorem restore_ledger (hp : p.ledger.Fitting) {l : Lease} (hl : l ∈ p.leases) :
    Ledger.Move p.ledger [] ((p.endLease l.number).2.restore l.handle l.connection).ledger := by
  obtain ⟨h, hf, hs, hnone⟩ := find_of_lease hp hl
  obtain ⟨pre, post, hb, hid⟩ := between_of_find hp hf
  obtain ⟨before, after, hlb⟩ := lease_between hp hl
  have hacc := ledger_accounts hb
  have hloans : p.ledger.loans = before.map (·.loan) ++ l.loan :: after.map (·.loan) := by
    simp only [ledger, hlb.eq, List.map_append, List.map_cons]
  have hledger := modifyHandle_ledger hb hid fun h => { h with slot := some l.connection }
  have hended : ((p.endLease l.number).2.restore l.handle l.connection).ledger =
      { (p.modifyHandle l.handle fun h => { h with slot := some l.connection }).ledger with
        loans := before.map (·.loan) ++ after.map (·.loan) } := by
    simp only [ledger, endLease, restore, modifyHandle, hlb.erase rfl, List.map_append]
    rfl
  rw [hended, hledger]
  simp only [Handle.account, hs, hid, hnone, Option.map_some, Option.map_none] at hacc ⊢
  exact .giveUp hacc hloans

/-- The collection without a handle. -/
theorem remove_ledger {pre post : List Handle} {h : Handle}
    (hb : Keyed.Between Handle.id p.handles pre h post) :
    (p.remove h).ledger =
      { p.ledger with
        accounts := pre.map (·.account) ++ post.map (·.account)
        closed := h.slot.toList.map (·.serial) ++ p.ledger.closed
        size := p.ledger.size.down
        gauges := p.ledger.gauges.leave h.state
        destroyed := p.ledger.destroyed + 1 } := by
  simp only [ledger, remove, hb.erase rfl, List.map_append]
  rfl

/-- A handle with its connection in its slot leaves, and its connection is closed. -/
theorem remove_expel (hp : p.ledger.Fitting) {id : HandleId} {h : Handle} {c : Connection}
    (hf : p.find? id = some h) (hc : h.slot = some c) :
    Ledger.Move p.ledger [] (p.remove h).ledger := by
  obtain ⟨pre, post, hb, -⟩ := between_of_find hp hf
  have hacc := ledger_accounts hb
  rw [remove_ledger hb]
  simp only [Handle.account, hc, Option.map_some, Option.toList_some, List.map_cons, List.map_nil,
    List.singleton_append] at hacc ⊢
  exact .expel hacc

theorem letGo_ledger (hp : p.ledger.Fitting) {l : Lease} (hl : l ∈ p.leases) {h : Handle}
    (hf : p.find? l.handle = some h) : Ledger.Move p.ledger [] (p.letGo l h).ledger := by
  obtain ⟨k, hk, hs, hnone⟩ := find_of_lease hp hl
  rw [hf] at hk
  cases hk
  obtain ⟨pre, post, hb, hid⟩ := between_of_find hp hf
  obtain ⟨before, after, hlb⟩ := lease_between hp hl
  have hacc := ledger_accounts hb
  have hloans : p.ledger.loans = before.map (·.loan) ++ l.loan :: after.map (·.loan) := by
    simp only [ledger, hlb.eq, List.map_append, List.map_cons]
  have hgone : (p.letGo l h).ledger =
      { (p.remove h).ledger with
        loans := before.map (·.loan) ++ after.map (·.loan)
        detached := l.connection.serial :: p.ledger.detached } := by
    simp only [ledger, letGo, endLease, remove, hlb.erase rfl, List.map_append, List.map_cons]
    rfl
  rw [hgone, remove_ledger hb]
  simp only [Handle.account, hs, hid, hnone, Option.map_none, Option.toList_none, List.map_nil,
    List.nil_append] at hacc ⊢
  exact .detach hacc hloans

theorem schedule_ledger (h : p.hasRoom = true) (a : Option Nat) :
    Ledger.Move p.ledger [] (p.schedule a).ledger := by
  have hroom : p.size.count < p.cap := by
    simp only [hasRoom, Bool.and_eq_true, decide_eq_true_eq] at h
    exact h.2
  have hledger : (p.schedule a).ledger =
      { p.ledger with
        size := p.ledger.size.up
        pending := p.ledger.pending.up
        inFlight := p.ledger.inFlight + 1 } := by
    simp only [ledger, schedule, List.length_append, List.length_singleton]
    rfl
  rw [hledger]
  exact .reserve hroom

theorem endCreation_ledger (c : Creation) (e : Option String) :
    (p.concludeCreation c e).ledger =
      { p.ledger with pending := p.ledger.pending.down, inFlight := p.inFlight.tail.length } := by
  simp only [concludeCreation]
  cases c.acquirer <;> rfl

theorem miscarry_ledger {c : Creation} {cs : List Creation} (h : p.inFlight = c :: cs)
    (e : String) :
    Ledger.Move p.ledger [] (p.miscarry c e).ledger := by
  have hledger : (p.miscarry c e).ledger =
      { p.ledger with
        size := p.ledger.size.down
        pending := p.ledger.pending.down
        inFlight := cs.length
        attempts := p.ledger.attempts + 1 } := by
    simp only [miscarry]
    rw [endCreation_ledger]
    simp only [ledger, forgo, tried, h, List.tail_cons]
    rfl
  rw [hledger]
  exact .miscarry (congrArg List.length h) (Nat.le_succ _)

theorem abandon_ledger (n : Nat) : Ledger.Moves p.ledger [] (p.abandon n).ledger := by
  simp only [abandon]
  split
  · next creation hclosed hn =>
    obtain ⟨hlt, -⟩ := List.getElem?_eq_some_iff.mp hn
    have hlen : p.inFlight.length = (p.inFlight.eraseIdx n).length + 1 := by
      rw [List.length_eraseIdx_of_lt hlt]
      omega
    have hmove : Ledger.Move p.ledger [] { p.ledger with
        size := p.ledger.size.down
        pending := p.ledger.pending.down
        inFlight := (p.inFlight.eraseIdx n).length } :=
      .miscarry hlen (Nat.le_refl _)
    cases creation.acquirer with
    | none => exact hmove.moves
    | some a => exact hmove.moves
  · exact .refl _

/-- The handle of a new connection stands behind all others. -/
theorem between_enroll (hp : ∀ h ∈ p.handles, h.id ≠ ⟨p.nextHandle⟩) (c : Connection) :
    Keyed.Between Handle.id (p.enroll c).handles p.handles (p.newHandle c) [] :=
  ⟨rfl, hp, by simp⟩

theorem id_ne_next (hp : p.ledger.Fitting) : ∀ h ∈ p.handles, h.id ≠ ⟨p.nextHandle⟩ := by
  intro h hh he
  have hlt := hp.ids_lt h.account (List.mem_map_of_mem hh)
  simp only [Handle.account, he] at hlt
  exact Nat.lt_irrefl _ hlt

theorem bear_ledger (hp : ∀ h ∈ p.handles, h.id ≠ ⟨p.nextHandle⟩) (c : Connection) :
    (p.bear c).ledger =
      { p.ledger with
        accounts := p.ledger.accounts ++ [⟨⟨p.nextHandle⟩, .checkedIn, some c.serial⟩]
        gauges := p.ledger.gauges.enter .checkedIn
        created := p.ledger.created + 1
        nextHandle := p.ledger.nextHandle + 1 } := by
  have hledger :=
    modifyHandle_ledger (between_enroll hp c) rfl fun h => { h with state := .checkedIn }
  have hmoved : ((p.enroll c).restate ⟨p.nextHandle⟩ .new .checkedIn).ledger =
      { ((p.enroll c).modifyHandle ⟨p.nextHandle⟩ fun h =>
            { h with state := .checkedIn }).ledger with
        gauges := (p.gauges.enter .new).moved .new .checkedIn } := rfl
  simp only [newHandle] at hledger
  simp only [bear]
  rw [available_ledger, touch_ledger, hmoved, Gauges.enter_new_moved, hledger]
  rfl

theorem stillbear_ledger (hp : ∀ h ∈ p.handles, h.id ≠ ⟨p.nextHandle⟩) (c : Connection) :
    (p.stillbear c).ledger =
      { p.ledger with
        closed := c.serial :: p.ledger.closed
        size := p.ledger.size.down
        created := p.ledger.created + 1
        destroyed := p.ledger.destroyed + 1
        nextHandle := p.ledger.nextHandle + 1 } := by
  have hgauges : (p.enroll c).ledger.gauges.leave (p.newHandle c).state = p.gauges :=
    Gauges.enter_new_leave p.gauges
  simp only [stillbear]
  rw [remove_ledger (between_enroll hp c), hgauges]
  simp only [ledger, newHandle, List.map_nil, List.append_nil]
  rfl

theorem birth_ledger (hp : p.ledger.Fitting) {c : Creation} {cs : List Creation}
    (h : p.inFlight = c :: cs) {x : Connection} (hx : x.serial = p.attempts + 1) :
    Ledger.Move p.ledger [⟨p.attempts + 1, ⟨p.nextHandle⟩⟩] (p.birth c x).ledger := by
  have hlen : p.ledger.inFlight = cs.length + 1 := congrArg List.length h
  have hfresh := id_ne_next hp
  simp only [birth]
  rw [endCreation_ledger]
  split
  · have hflight : (p.tried.stillbear x).inFlight = c :: cs := h
    rw [stillbear_ledger (p := p.tried) hfresh x, hflight, List.tail_cons, hx]
    exact .stillborn hlen
  · have hflight : (p.tried.bear x).inFlight = c :: cs := (inFlight_available _ _ _).trans h
    rw [bear_ledger (p := p.tried) hfresh x, hflight, List.tail_cons, hx]
    exact .born hlen

end ConnPool.Pool
