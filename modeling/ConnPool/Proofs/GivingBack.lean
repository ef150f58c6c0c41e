import ConnPool.Proofs.UnitOperations
import ConnPool.Proofs.UnnoticedChanges
import ConnPool.Proofs.Interference

namespace ConnPool

theorem Units.disassociate_twice (us : Units) (h : HandleId) :
    (us.disassociate h).disassociate h = us.disassociate h := by
  cases hkind : us.enlisting with
  | never => simp only [disassociate, hkind]
  | byThread =>
    have hmap : (us.byThread.disassociate h).disassociate h = us.byThread.disassociate h := by
      simp only [UnitsByThread.disassociate, List.map_map]
      congr 1
      refine List.map_congr_left fun x _ => ?_
      obtain ⟨s, held⟩ := x
      by_cases hheld : held = some h <;> simp [hheld]
    simp only [disassociate, hkind, hmap]
  | shared =>
    have hslot : (us.shared.disassociate h).disassociate h = us.shared.disassociate h := by
      by_cases hheld : us.shared.slot = some h <;> simp [SharedUnit.disassociate, hheld]
    simp only [disassociate, hkind, hslot]

namespace Pool

/-- A try to give a handle back: by dropping a lease of it, or out of a unit of work. -/
inductive Returning where
  | plain (t : Thread) (since : Nat)
  | enlisted (t : Thread)

def Returning.isEnlisted : Returning → Bool
  | plain _ _ => false
  | enlisted _ => true

def Returning.run (id : HandleId) (p : Pool) : Returning → Pool
  | plain t since => ((giveBack t id since).run p).2
  | enlisted t => ((releaseEnlisted t id).run p).2

/-- The pool while a connection is out on this lease. -/
def onLoan (p : Pool) (l : Lease) : Pool := { p.emptySlot l.handle with leases := p.leases ++ [l] }

/-- Since when a handle is out, as far as that is known. -/
def outSince (p : Pool) (h : Handle) : Nat := (h.owner.map (·.since)).getD p.clock

variable {p q : Pool} {id : HandleId} {h : Handle} {c : Connection} {t : Thread}

/-- A connection is put back where it came from. -/
theorem restore_emptySlot (hp : p.ledger.Fitting) (hf : p.find? id = some h)
    (hc : h.slot = some c) :
    (p.emptySlot id).restore id c = p := by
  obtain ⟨pre, post, hb, hid⟩ := between_of_find hp hf
  have hempty := hb.replace hid fun h => { h with slot := none }
  have hrenew := hb.renew (y := { h with slot := none }) rfl
  have hfull := hrenew.replace hid fun h => { h with slot := some c }
  have hsame : ({ h with slot := some c } : Handle) = h := by rw [← hc]
  rw [hsame, ← hb.eq] at hfull
  simp only [restore, emptySlot, modifyHandle, hempty, hfull]

theorem endLease_onLoan {l : Lease} (hnew : ∀ k ∈ p.leases, k.number ≠ l.number) :
    (p.onLoan l).endLease l.number = (some l, p.emptySlot l.handle) := by
  have hfind : (p.onLoan l).lease? l.number = some l := by
    have hnone : p.leases.find? (·.number = l.number) = none :=
      List.find?_eq_none.mpr fun k hk => by simpa using hnew k hk
    simp only [lease?, onLoan, List.find?_append, hnone, Option.none_or]
    exact List.find?_cons_of_pos (decide_eq_true rfl)
  have hleft : (p.onLoan l).leases.filter (·.number ≠ l.number) = p.leases := by
    simp only [onLoan, List.filter_append, Keyed.filter_eq_self Lease.number hnew]
    simp
  simp only [endLease, hfind, hleft]
  rfl

theorem giveBack_units (p : Pool) (id : HandleId) (t : Thread) (since : Nat) :
    ((giveBack t id since).run p).2.units = p.units := by
  have hignores : Act.Ignores (beside p.units) (giveBack t id since) := giveBack_ignores t id since
  exact congrArg (fun r => r.2.units) (hignores p)

/-- Whether a handle leaves the units before it is returned or after makes no difference. -/
theorem giveBack_disassociate (p : Pool) (id : HandleId) (t : Thread) (since : Nat) :
    (giveBack t id since).run (p.disassociate id) =
      (((giveBack t id since).run p).1, ((giveBack t id since).run p).2.disassociate id) := by
  have hignores : Act.Ignores (beside (p.units.disassociate id)) (giveBack t id since) :=
    giveBack_ignores t id since
  simp only [disassociate, giveBack_units]
  exact hignores p

/-- A lease of the plain kind is dropped: its connection is put back, then its handle is
returned. -/
theorem release_run {l : Lease} {n : Nat} (hend : p.endLease n = (some l, q))
    (hplain : l.enlisted = false) (t : Thread) :
    (release t n).run p = (giveBack t l.handle l.since).run (q.restore l.handle l.connection) := by
  simp only [release, Act.run_bind, Act.run_apply, hend, Act.run_update, hplain, Bool.not_false,
    if_true]

/-- The unit of work lets go of a handle that is not on loan: it leaves the units and is
returned. -/
theorem releaseEnlisted_run (hf : p.find? id = some h) (hs : h.state = .checkedOut)
    (hc : h.slot = some c) (t : Thread) :
    (releaseEnlisted t id).run p =
      (true, ((giveBack t id (p.outSince h)).run p).2.disassociate id) := by
  have hactive : (p.disassociate id).stateOf? id = some .checkedOut :=
    (stateOf_of_find hf).trans (congrArg some hs)
  have hfirst : (releaseEnlisted t id).run p =
      (true, ((giveBack t id (p.outSince h)).run (p.disassociate id)).2) := by
    obtain ⟨i, state, slot, last, owner, queued, cached⟩ := h
    obtain rfl : state = .checkedOut := hs
    obtain rfl : slot = some c := hc
    have hmove := transition_of (legal_return p) (stateOf_home hactive)
    rw [giveBack_run hactive]
    simp only [releaseEnlisted, Act.run_bind, Act.run_read, hf, Act.run_update, Act.run_apply,
      hmove, if_true, Act.run_pure]
    rfl
  rw [hfirst, giveBack_disassociate]

/-- How long a handle was out is told to the subscribers only. -/
theorem finishReturn_since (p : Pool) (t : Thread) (id : HandleId) (target : State) (m n : Nat) :
    Hiding.unheard.hide ((finishReturn t id target m).run p).2 =
      Hiding.unheard.hide ((finishReturn t id target n).run p).2 := by
  have hseen : ∀ since, Hiding.unheard.hide ((finishReturn t id target since).run p).2 =
      ((finishReturn t id target since).run (Hiding.unheard.hide p)).2 :=
    fun since =>
      (congrArg Prod.snd (Hiding.unheard.hide_run (finishReturn_respects t id target since) p)).symm
  rw [hseen m, hseen n]
  simp only [finishReturn]
  split
  · rfl
  · simp only [Act.run_bind, Act.run_read, Act.run_update]
    rfl

theorem giveBack_since (p : Pool) (t : Thread) (id : HandleId) (m n : Nat) :
    Hiding.unheard.hide ((giveBack t id m).run p).2 = Hiding.unheard.hide
    ((giveBack t id n).run p).2 := by
  simp only [giveBack, Act.run_bind, Act.run_read, Act.run_ite, Act.run_update, Act.run_apply]
  split
  · split
    · exact finishReturn_since _ t id _ m n
    · rfl
  · rfl

/-- What is not active is not returned, however often it is tried. -/
theorem foldl_returning (hidle : p.stateOf? id ≠ some .checkedOut) (rs : List Returning) :
    rs.foldl (Returning.run id) p = if rs.any Returning.isEnlisted then
    p.disassociate id else p := by
  induction rs generalizing p with
  | nil => rfl
  | cons r rs ih =>
    cases r with
    | plain t since =>
      have hrun : Returning.run id p (.plain t since) = p :=
        congrArg Prod.snd (giveBack_idle hidle t since)
      rw [List.foldl_cons, hrun]
      exact ih hidle
    | enlisted t =>
      have hrun : Returning.run id p (.enlisted t) = p.disassociate id :=
        congrArg Prod.snd (releaseEnlisted_idle hidle t)
      have htwice : (p.disassociate id).disassociate id = p.disassociate id := by
        simp only [disassociate, Units.disassociate_twice]
      have hleft : (p.disassociate id).stateOf? id ≠ some .checkedOut := hidle
      rw [List.foldl_cons, hrun, ih hleft, htwice]
      simp [Returning.isEnlisted]

theorem giveBack_open (hp : p.Lineup) (ho : p.closed = false)
    (hs : p.stateOf? id = some .checkedOut)
    (t : Thread) (since : Nat) : ((giveBack t id since).run p).2.muted =
      (p.comeBack t id).muted := by
  have htarget :
    p.returnState = .checkedIn := by simp only [returnState, ho, Bool.false_eq_true, if_false]
  rw [giveBack_run hs, htarget]
  exact finishReturn_muted (p := ((p.clearOwner id).touch id).restate id .checkedOut .checkedIn)
    hp.numbered (hp.isClosed_eq.trans ho) t since

theorem giveBack_closed (hcl : p.closed = true) (hf : p.find? id = some h)
    (hs : h.state = .checkedOut)
    (t : Thread) (since : Nat) :
    ((giveBack t id since).run p).2.muted =
      (Pool.remove { p with clock := p.clock + 1 } h).muted := by
  have htarget : p.returnState = .toDestroy := by simp only [returnState, hcl, if_true]
  have hend := destroyNow_muted (s := .checkedOut) (find_home hf) (by decide) .shutdown false
  have hsame : ({ h with owner := none, lastAccess := p.clock, state := .checkedOut } : Handle) =
      { h with owner := none, lastAccess := p.clock } := by rw [← hs]
  simp only [hsame, remove_home hf] at hend
  rw [giveBack_run ((stateOf_of_find hf).trans (congrArg some hs)), htarget]
  simp only [finishReturn, if_true]
  exact hend

/-- A handle whose connection is at hand, to be returned. -/
structure Returnable (p : Pool) (id : HandleId) (h : Handle) (c : Connection) : Prop where
  find : p.find? id = some h
  active : h.state = .checkedOut
  full : h.slot = some c

/-- A handle is home with its connection, or, when the pool is closed, gone. -/
structure Home (p q : Pool) (id : HandleId) (c : Connection) : Prop where
  back : p.closed = false →
    (∃ h, q.find? id = some h ∧ h.state = .checkedIn ∧ h.owner = none ∧ h.slot = some c) ∧
      q.counters = { p.counters with returned := p.counters.returned + 1 }
  gone : p.closed = true →
    q.find? id = none ∧ q.closures = c :: p.closures ∧
      q.counters = { p.counters with destroyed := p.counters.destroyed + 1 }

theorem Home.idle (h : Home p q id c) : q.stateOf? id ≠ some .checkedOut := by
  cases hcl : p.closed with
  | false =>
    obtain ⟨⟨k, hf, hs, -⟩, -⟩ := h.back hcl
    rw [stateOf_of_find hf, hs]
    decide
  | true =>
    obtain ⟨hf, -⟩ := h.gone hcl
    simp only [stateOf?, hf]
    decide

theorem find_available (hp : p.ledger.Fitting) (t : Thread) (id : HandleId) :
    (p.available t id).find? id = (p.find? id).map fun h => { h with queued := true } := by
  have hmodify := find_modifyHandle p id (fun h => { h with queued := true }) fun _ => rfl
  simp only [find?, available_handles hp] at hmodify ⊢
  exact hmodify

theorem counters_available (p : Pool) (t : Thread) (id : HandleId) :
    (p.available t id).counters = p.counters := by
  unfold available Pool.offer
  split
  · rfl
  · split
    split <;> rfl

theorem find_cacheLocally (hf : p.find? id = some h) (t : Thread) :
    ∃ cache, (p.cacheLocally t id).find? id = some { h with cachedBy := cache } := by
  simp only [cacheLocally]
  split
  · refine ⟨some t, ?_⟩
    have hmodify := find_modifyHandle p id (fun h => { h with cachedBy := some t }) fun _ => rfl
    rw [hf] at hmodify
    exact hmodify
  · exact ⟨h.cachedBy, hf⟩

theorem counters_cacheLocally (p : Pool) (t : Thread) (id : HandleId) :
    (p.cacheLocally t id).counters = p.counters := by
  unfold cacheLocally
  split <;> rfl

theorem find_comeBack (hp : p.ledger.Fitting) (hr : p.Returnable id h c) (t : Thread) :
    ∃ cache, (p.comeBack t id).find? id =
      some ⟨h.id, .checkedIn, some c, p.clock, none, true, cache⟩ := by
  have hmoved := find_restate ((p.clearOwner id).touch id) id .checkedOut .checkedIn
  rw [find_home hr.find] at hmoved
  obtain ⟨cache, hcached⟩ :=
    find_cacheLocally (p := (((p.clearOwner id).touch id).restate id .checkedOut
    .checkedIn).count fun n => { n with returned := n.returned + 1 }) hmoved t
  refine ⟨cache, ?_⟩
  rw [comeBack, find_available (homecoming_fitting hp hr.find hr.active hr.full t), homecoming,
    hcached, ← hr.full]
  rfl

theorem home_giveBack (hp : p.Sound) (hr : p.Returnable id h c) (t : Thread) (since : Nat) :
    Home p ((giveBack t id since).run p).2 id c := by
  have hs : p.stateOf? id = some .checkedOut :=
    (stateOf_of_find hr.find).trans (congrArg some hr.active)
  refine ⟨fun ho => ?_, fun hcl => ?_⟩
  · have hmuted := giveBack_open hp.lineup ho hs t since
    obtain ⟨cache, hf⟩ := find_comeBack hp.books.fitting hr t
    have hcounters : (p.comeBack t id).counters =
        { p.counters with returned := p.counters.returned + 1 } := by
      rw [comeBack, counters_available, homecoming, counters_cacheLocally]
      rfl
    refine ⟨⟨_, (muted_find hmuted id).trans hf, rfl, rfl, rfl⟩, ?_⟩
    exact (eq_of_muted Pool.counters (fun _ => rfl) hmuted).trans hcounters
  · have hmuted := giveBack_closed hcl hr.find hr.active t since
    obtain ⟨-, hid⟩ := mem_of_find hr.find
    have hnone : (Pool.remove { p with clock := p.clock + 1 } h).find? id = none := by
      refine List.find?_eq_none.mpr fun k hk => ?_
      have hother := (List.mem_filter.mp hk).2
      simpa [hid] using hother
    have hsent : (Pool.remove { p with clock := p.clock + 1 } h).closures = c :: p.closures := by
      simp only [remove, hr.full, Option.toList_some, List.singleton_append]
    exact ⟨(muted_find hmuted id).trans hnone,
      (eq_of_muted Pool.closures (fun _ => rfl) hmuted).trans hsent, eq_of_muted Pool.counters
      (fun _ => rfl) hmuted⟩

/-- The unit's letting go of a handle ends as the dropping of its lease did, but that the handle is
in no unit then. Only the subscribers, who hear how long it was out, can tell them apart. -/
structure LikeDropped (p : Pool) (t : Thread) (id : HandleId) (since : Nat) (dropped : Pool) :
    Prop where
  answer : ((releaseEnlisted t id).run p).1 = true
  alike : Hiding.unheard.hide ((releaseEnlisted t id).run p).2 =
    Hiding.unheard.hide (dropped.disassociate id)
  exactly : ∀ h, p.find? id = some h → p.outSince h = since →
    ((releaseEnlisted t id).run p).2 = dropped.disassociate id

theorem likeDropped_giveBack (hr : p.Returnable id h c) (t : Thread) (since : Nat) :
    p.LikeDropped t id since ((giveBack t id since).run p).2 := by
  have hrun := releaseEnlisted_run hr.find hr.active hr.full t
  refine ⟨congrArg Prod.fst hrun, ?_, fun k hk hsince => ?_⟩
  · rw [hrun]
    have hfree : ∀ q : Pool, Hiding.unheard.hide (q.disassociate id) =
        (Hiding.unheard.hide q).disassociate id := fun _ => rfl
    rw [hfree, hfree, giveBack_since p t id (p.outSince h) since]
  · obtain rfl := Option.some.inj (hr.find.symm.trans hk)
    rw [hrun, hsince]

/-- How the ways of giving a handle back agree, and what they do to one that is not out. -/
structure ReturnsAgree (p : Pool) (t : Thread) (id : HandleId) : Prop where
  answers : ((releaseEnlisted t id).run p).1 = true ↔ ∃ h c, p.Returnable id h c
  like_lent : ∀ h c, p.Returnable id h c → ∀ l : Lease, l.handle = id → l.connection = c →
    l.enlisted = false → (∀ k ∈ p.leases, k.number ≠ l.number) →
      p.LikeDropped t id l.since ((release t l.number).run (p.onLoan l)).2
  like_dropped : ∀ l ∈ p.leases, l.handle = id → l.enlisted = false →
    ((p.endLease l.number).2.restore id l.connection).LikeDropped t id l.since
      ((release t l.number).run p).2
  home : ∀ h c, p.Returnable id h c → Home p ((releaseEnlisted t id).run p).2 id c
  refused : ((releaseEnlisted t id).run p).1 = false →
    ((releaseEnlisted t id).run p).2 =
      if p.stateOf? id = some .checkedOut then p else p.disassociate id
  units : ((releaseEnlisted t id).run p).1 = true ∨ p.stateOf? id ≠ some .checkedOut →
    ∀ s k, ((releaseEnlisted t id).run p).2.units.current s = some k ↔
      p.units.current s = some k ∧ k ≠ id
  idle : p.stateOf? id ≠ some .checkedOut → ∀ rs : List Returning,
    rs.foldl (Returning.run id) p = if rs.any Returning.isEnlisted then p.disassociate id else p
  once : ∀ h c, p.Returnable id h c → ∀ (r : Returning) (rs : List Returning),
    rs.foldl (Returning.run id) (r.run id p) =
      if rs.any Returning.isEnlisted then (r.run id p).disassociate id else r.run id p

theorem Returning.home (hp : p.Sound) (hr : p.Returnable id h c) (r : Returning) :
    Home p (r.run id p) id c := by
  cases r with
  | plain t since => exact home_giveBack hp hr t since
  | enlisted t =>
    have hhome := home_giveBack hp hr t (p.outSince h)
    have hrun : Returning.run id p (.enlisted t) =
        ((giveBack t id (p.outSince h)).run p).2.disassociate id :=
      congrArg Prod.snd (releaseEnlisted_run hr.find hr.active hr.full t)
    rw [hrun]
    exact ⟨hhome.back, hhome.gone⟩

/-- A handle is returned, is out on loan, or is not active. -/
theorem returnable_cases (p : Pool) (id : HandleId) :
    (∃ h c, p.Returnable id h c) ∨
      (∃ h, p.find? id = some h ∧ h.state = .checkedOut ∧ h.slot = none) ∨
      p.stateOf? id ≠ some .checkedOut := by
  by_cases hs : p.stateOf? id = some .checkedOut
  · obtain ⟨h, hf, hactive⟩ := find_of_stateOf hs
    cases hc : h.slot with
    | none => exact Or.inr (Or.inl ⟨h, hf, hactive, hc⟩)
    | some c => exact Or.inl ⟨h, c, hf, hactive, hc⟩
  · exact Or.inr (Or.inr hs)

theorem Returnable.unique (hr : p.Returnable id h c) {k : Handle} (hf : p.find? id = some k) :
    k = h :=
  Option.some.inj (hf.symm.trans hr.find)

theorem releaseEnlisted_answers (p : Pool) (id : HandleId) (t : Thread) :
    ((releaseEnlisted t id).run p).1 = true ↔ ∃ h c, p.Returnable id h c := by
  rcases p.returnable_cases id with ⟨h, c, hr⟩ | ⟨h, hf, hs, hc⟩ | hidle
  · exact iff_of_true (congrArg Prod.fst (releaseEnlisted_run hr.find hr.active hr.full t))
      ⟨h, c, hr⟩
  · rw [releaseEnlisted_busy hf hs hc]
    refine iff_of_false Bool.false_ne_true ?_
    rintro ⟨k, c, hr⟩
    obtain rfl := hr.unique hf
    have hfull := hr.full
    rw [hc] at hfull
    cases hfull
  · rw [releaseEnlisted_idle hidle]
    refine iff_of_false Bool.false_ne_true ?_
    rintro ⟨k, c, hr⟩
    exact hidle ((stateOf_of_find hr.find).trans (congrArg some hr.active))

theorem releaseEnlisted_refused (hno : ((releaseEnlisted t id).run p).1 = false) :
    ((releaseEnlisted t id).run p).2 =
      if p.stateOf? id = some .checkedOut then p else p.disassociate id := by
  rcases p.returnable_cases id with hr | ⟨h, hf, hs, hc⟩ | hidle
  · have hyes := (releaseEnlisted_answers p id t).mpr hr
    exact absurd (hno.symm.trans hyes) Bool.false_ne_true
  · rw [if_pos ((stateOf_of_find hf).trans (congrArg some hs)), releaseEnlisted_busy hf hs hc]
  · rw [if_neg hidle, releaseEnlisted_idle hidle]

/-- Unless the handle is out on loan, it is in no unit in the end. -/
theorem releaseEnlisted_units
    (hfree : ((releaseEnlisted t id).run p).1 = true ∨ p.stateOf? id ≠ some .checkedOut) :
    ((releaseEnlisted t id).run p).2.units = p.units.disassociate id := by
  rcases p.returnable_cases id with ⟨h, c, hr⟩ | ⟨h, hf, hs, hc⟩ | hidle
  · rw [releaseEnlisted_run hr.find hr.active hr.full]
    exact congrArg (·.disassociate id) (giveBack_units p id t (p.outSince h))
  · rw [releaseEnlisted_busy hf hs hc] at hfree
    have hs' : p.stateOf? id = some .checkedOut := (stateOf_of_find hf).trans (congrArg some hs)
    rcases hfree with hyes | hidle
    · cases hyes
    · exact absurd hs' hidle
  · rw [releaseEnlisted_idle hidle]
    rfl

/-- A lease is dropped as the unit would let go of its handle, had its connection been put back. -/
theorem likeDropped_release (hp : p.ledger.Fitting) {l : Lease} (hl : l ∈ p.leases)
    (hplain : l.enlisted = false) (t : Thread) :
    ((p.endLease l.number).2.restore l.handle l.connection).LikeDropped t l.handle l.since
      ((release t l.number).run p).2 := by
  obtain ⟨h, hf, hs, -⟩ := find_of_lease hp hl
  have hr : ((p.endLease l.number).2.restore l.handle l.connection).Returnable l.handle
      { h with slot := some l.connection } l.connection := ⟨find_restore hf, hs, rfl⟩
  have hend : p.endLease l.number = (some l, (p.endLease l.number).2) :=
    Prod.ext (endLease_fst hp hl) rfl
  rw [release_run hend hplain]
  exact likeDropped_giveBack hr t l.since

theorem likeDropped_onLoan (hp : p.ledger.Fitting) (hr : p.Returnable id h c) {l : Lease}
    (hid : l.handle = id) (hc : l.connection = c) (hplain : l.enlisted = false)
    (hnew : ∀ k ∈ p.leases, k.number ≠ l.number) (t : Thread) :
    p.LikeDropped t id l.since ((release t l.number).run (p.onLoan l)).2 := by
  rw [release_run (endLease_onLoan hnew) hplain, hid, hc, restore_emptySlot hp hr.find hr.full]
  exact likeDropped_giveBack hr t l.since

theorem Sound.both_ways (hp : p.Sound) (t : Thread) (id : HandleId) : p.ReturnsAgree t id where
  answers := releaseEnlisted_answers p id t
  like_lent _ _ hr _ hid hc hplain hnew :=
    likeDropped_onLoan hp.books.fitting hr hid hc hplain hnew t
  like_dropped l hl hid hplain := by
    subst hid
    exact likeDropped_release hp.books.fitting hl hplain t
  home _ _ hr := Returning.home hp hr (.enlisted t)
  refused := releaseEnlisted_refused
  units hfree s k := by
    rw [releaseEnlisted_units hfree]
    exact Units.current_disassociate_iff p.units id k s
  idle hidle rs := foldl_returning hidle rs
  once _ _ hr r rs := foldl_returning (r.home hp hr).idle rs

/-- Whatever was done to a pool, the two ways of giving a handle back end alike, and neither does
anything to what is not out. -/
theorem returns_agree {f : Config} {g : Factory} {ls : List Listener} {us : Units}
    (hb : build f g ls us = .ok (some p)) (ops : List Operation) (t : Thread) (id : HandleId) :
    (p.after ops).ReturnsAgree t id :=
  ((fresh_of_build hb).settled.after ops).sound.both_ways t id

/-- A thread in a unit of work has dropped its lease: the handle is still out, and its connection at
hand. -/
theorem returns_agree_in_unit :
    ∃ p ops, build {} {} [] { enlisting := .byThread } = .ok (some p) ∧
      (p.after ops).units.current .background = some ⟨1⟩ ∧
      ((releaseEnlisted .background ⟨1⟩).run (p.after ops)).1 = true ∧
      (p.after ops).ReturnsAgree .background ⟨1⟩ := by
  refine ⟨_, [.create, .regroup ⟨.byThread, ⟨[(.background, none)]⟩, {}⟩, .acquire .background 0,
    .release .background 0], rfl, rfl, rfl, ?_⟩
  exact @returns_agree _ {} {} [] { enlisting := .byThread } rfl _ .background ⟨1⟩

end Pool
end ConnPool
