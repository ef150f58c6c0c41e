import ConnPool.Proofs.Obtaining
import ConnPool.Proofs.Overlap

namespace ConnPool.Pool

/-- After the thread gave the handle back it gave back few others, nobody gave that one back again,
and the thread did not look around while it was under validation. -/
structure Lately (t : Thread) (id : HandleId) (new : List Mark) : Prop where
  recent : (returns t new).length < Recents.limit
  last : ∀ s, .returned s id ∉ new
  unseen : ∀ ids, .looked t ids ∈ new → id ∉ ids

/-- The thread has the handle on its list, behind such only as it gave back later. -/
def Recalls (p : Pool) (t : Thread) (id : HandleId) (new : List Mark) : Prop :=
  ∃ ns ms, p.memory t = ns ++ id.val :: ms ∧ ns.Sublist ((returns t new).map (·.val))

/-- What a pool knows of the returns so far. -/
structure Recalled (past : List Mark) (p : Pool) : Prop where
  known : ∀ t id, .returned t id ∈ past → id.val < p.nextHandle
  owned : ∀ h ∈ p.handles, h.state.isHome = true → h.cachedBy = returner? past h.id
  fresh : ∀ h ∈ p.handles, h.state = .new → h.cachedBy = none
  listed : ∀ h ∈ p.handles, h.state.isHome = true →
    ∀ t new old, past = new ++ .returned t h.id :: old →
    Lately t h.id new → p.Recalls t h.id new

variable {p q : Pool} {past new old : List Mark} {t u : Thread} {id : HandleId}

theorem Lately.tail {m : Mark} (h : Lately t id (m :: new)) : Lately t id new := by
  refine ⟨Nat.lt_of_le_of_lt ?_ h.recent, fun s hs => h.last s (List.mem_cons_of_mem m hs),
    fun ids hids => h.unseen ids (List.mem_cons_of_mem m hids)⟩
  exact ((List.sublist_cons_self m new).filterMap _).length_le

theorem Recalled.recalls (h : Recalled past p) {x : Handle} (hx : x ∈ p.handles)
    (hs : x.state.isHome = true) (hid : x.id = id) (hpast : past = new ++ .returned t id :: old)
    (hl : Lately t id new) : p.Recalls t id new := by
  subst hid
  exact h.listed x hx hs t new old hpast hl

theorem Recalled.shifts (h : Recalled past p) (k : Shifts p q) : Recalled past q := by
  have hgone : ∀ x : Handle, p.nextHandle ≤ x.id.val → ∀ s, .returned s x.id ∉ past :=
    fun x hlate s hs => Nat.not_lt.mpr hlate (h.known s x.id hs)
  refine ⟨fun t id hm => Nat.lt_of_lt_of_le (h.known t id hm) k.nextHandle, fun x hx hs => ?_,
    fun x hx hnew => ?_, fun x hx hs t new old hpast hl => ?_⟩
  · rcases k.homes x hx hs with ⟨y, hy, hid, hhome, -, hcached⟩ | ⟨hlate, hnone⟩
    · rw [← hcached, h.owned y hy hhome, hid]
    · rw [hnone, returner_of_none (hgone x hlate)]
  · rcases k.homes x hx (hnew ▸ rfl) with ⟨y, hy, -, -, hfresh, hcached⟩ | ⟨-, hnone⟩
    · rw [← hcached, h.fresh y hy (hfresh hnew)]
    · exact hnone
  · rcases k.homes x hx hs with ⟨y, hy, hid, hhome, -, -⟩ | ⟨hlate, -⟩
    · rw [Recalls, k.memory t]
      exact h.recalls hy hhome hid hpast hl
    · refine absurd ?_ (hgone x hlate t)
      rw [hpast]
      exact List.mem_append_right new List.mem_cons_self

/-- Who forgets what he cannot take keeps on his list what he still can. -/
theorem Recalls.seeks (h : p.Recalls t id new) (k : Seeks t p q)
    (htake : q.isCached t id.val = true) :
    q.Recalls t id new := by
  obtain ⟨as, bs, hlist, hlater⟩ := h
  obtain ⟨ns, hforgot, hnone⟩ := k.forgets
  rw [hlist] at hforgot
  rcases List.append_eq_append_iff.mp hforgot with ⟨cs, rfl, hrest⟩ | ⟨cs, rfl, hrest⟩
  · cases cs with
    | nil => exact ⟨[], bs, hrest.symm, List.nil_sublist _⟩
    | cons c cs =>
      obtain ⟨rfl, -⟩ := List.cons_eq_cons.mp hrest
      have hgone := hnone id.val (List.mem_append_right as List.mem_cons_self)
      exact absurd (hgone.symm.trans htake) Bool.false_ne_true
  · exact ⟨cs, bs, hrest, (List.sublist_append_right ns cs).trans hlater⟩

/-- A handle at home that is not under validation can be taken by the thread that gave it back
last. -/
theorem Recalled.idle (h : Recalled past p) {x : Handle} (hx : x ∈ p.handles)
    (hs : x.state.isHome = true) (hbusy : x.id ∉ p.busy) (hlast : returner? past x.id = some t) :
    x.cachedBy = some t ∧ x.state = .checkedIn := by
  have hcached : x.cachedBy = some t := (h.owned x hx hs).trans hlast
  refine ⟨hcached, ?_⟩
  cases hstate : x.state with
  | checkedIn => rfl
  | new => cases hcached.symm.trans (h.fresh x hx hstate)
  | validation =>
    exact absurd (List.mem_map_of_mem (List.mem_filter.mpr ⟨hx, decide_eq_true hstate⟩)) hbusy
  | _ => rw [hstate] at hs; cases hs

/-- A thread that looks around keeps on its list what it could have taken and did not. -/
theorem Recalled.seeks (h : Recalled past p) (k : Seeks t p q) :
    Recalled (.looked t p.busy :: past) q := by
  refine ⟨fun s id hm =>
    ?_, fun x hx hs => ?_, fun x hx hnew => ?_, fun x hx hs u new old hpast hl => ?_⟩
  · rw [k.nextHandle]
    exact h.known s id ((List.mem_cons.mp hm).resolve_left nofun)
  · obtain ⟨y, hy, hid, hstate, hcached⟩ := k.homed x hx hs
    rw [← hcached, h.owned y hy (hstate ▸ hs), hid]
    rfl
  · obtain ⟨y, hy, -, hstate, hcached⟩ := k.homed x hx (hnew ▸ rfl)
    rw [← hcached, h.fresh y hy (hstate.trans hnew)]
  · cases new with
    | nil => cases hpast
    | cons m new =>
      obtain ⟨rfl, hrest⟩ := List.cons_eq_cons.mp hpast
      obtain ⟨y, hy, hid, hstate, hcached⟩ := k.homed x hx hs
      have hlisted := h.recalls hy (hstate ▸ hs) hid hrest hl.tail
      by_cases hu : u = t
      · subst hu
        refine hlisted.seeks k ?_
        have hlast : returner? past y.id = some u := by
          rw [hrest, hid]
          exact returner_of_last hl.tail.last
        have hbusy : y.id ∉ p.busy := hid ▸ hl.unseen p.busy List.mem_cons_self
        obtain ⟨hown, hidle⟩ := h.idle hy (hstate ▸ hs) hbusy hlast
        exact List.any_eq_true.mpr
          ⟨x, hx, decide_eq_true ⟨rfl, hcached.symm.trans hown, hstate.symm.trans hidle⟩⟩
      · rw [Recalls, k.memory u hu]
        exact hlisted

/-- What a thread lately gave back moves on by one on its list when it gives back another, and is
not the one that falls off. -/
theorem Recalls.returned {j : HandleId} (h : p.Recalls u j new) (k : Returned t id p q)
    (hrecent : (returns u (.returned t id :: new)).length < Recents.limit) :
    q.Recalls u j (.returned t id :: new) := by
  obtain ⟨ns, ms, hlist, hlater⟩ := h
  by_cases hu : u = t
  · subst hu
    rw [returns_cons, List.length_cons] at hrecent
    have hshort : ns.length ≤ (returns u new).length := by
      simpa using hlater.length_le
    obtain ⟨n, hn⟩ : ∃ n, Recents.limit = (id.val :: ns).length + (n + 1) :=
      ⟨Recents.limit - ns.length - 2, by rw [List.length_cons]; omega⟩
    have hpush : q.memory u = (id.val :: ns) ++ j.val :: ms.take n := by
      rw [k.own, hlist, ← List.cons_append, hn, List.take_length_add_append, List.take_succ_cons]
    refine ⟨id.val :: ns, _, hpush, ?_⟩
    rw [returns_cons]
    exact hlater.cons_cons id.val
  · rw [Recalls, k.others u hu, returns_cons_of_ne new (Ne.symm hu)]
    exact ⟨ns, ms, hlist, hlater⟩

/-- What a thread gives back stands first on its list, and the others move on. -/
theorem Recalled.returned (h : Recalled past p) (k : Returned t id p q) :
    Recalled (.returned t id :: past) q := by
  refine ⟨fun s j hm =>
    ?_, fun x hx hs => ?_, fun x hx hnew => ?_, fun x hx hs u new old hpast hl => ?_⟩
  · rw [k.nextHandle]
    rcases List.mem_cons.mp hm with heq | hm
    · cases heq
      exact k.known
    · exact h.known s j hm
  · rcases k.homes x hx hs with ⟨hid, -, hown⟩ | ⟨hid, y, hy, hyid, hystate, hycached⟩
    · rw [hown, hid, returner_cons]
    · have hother : ∀ s, Mark.returned t id ≠ .returned s x.id := fun s heq => by
        cases heq
        exact hid rfl
      rw [returner_cons_of_ne hother, ← hycached, h.owned y hy (hystate ▸ hs), hyid]
  · rcases k.homes x hx (hnew ▸ rfl) with ⟨-, hold, -⟩ | ⟨-, y, hy, -, hystate, hycached⟩
    · exact absurd hnew hold
    · rw [← hycached, h.fresh y hy (hystate.trans hnew)]
  · cases new with
    | nil =>
      obtain ⟨heq, -⟩ := List.cons_eq_cons.mp hpast
      cases heq
      exact ⟨[], _, k.own, List.nil_sublist _⟩
    | cons m new =>
      obtain ⟨rfl, hrest⟩ := List.cons_eq_cons.mp hpast
      rcases k.homes x hx hs with ⟨rfl, -, -⟩ | ⟨hid, y, hy, hyid, hystate, -⟩
      · exact absurd List.mem_cons_self (hl.last t)
      · exact (h.recalls hy (hystate ▸ hs) hyid hrest hl.tail).returned k hl.recent

theorem Recalled.moves {who : Option Thread} (h : Recalled past p) (k : Moves who p q) :
    Recalled (p.looks who ++ past) q := by
  cases who with
  | none => exact h.shifts k
  | some t => exact h.seeks k

namespace Overlap

/-- What holds between any two deeds. -/
structure Sound (o : Overlap) : Prop where
  orderly : o.pool.Orderly
  recalled : Recalled o.past o.pool
  underway : ∀ e ∈ o.underway, Act.Keeps Orderly (Moves e.1) e.2

variable {o : Overlap} {who : Option Thread} {m : PoolAct Unit}

theorem mem_advance {held : Call → Bool} {e : Option Thread × PoolAct Unit}
    (he : e ∈ (o.advance who m held).underway) :
    e ∈ o.underway ∨ e = (who, (m.advance held o.pool).1) := by
  refine (List.mem_append.mp he).imp_right fun he => ?_
  exact List.mem_singleton.mp (List.mem_filter.mp he).1

theorem Sound.advance (h : o.Sound) (hm : m.Abides Orderly (Moves who) (fun _ => Orderly) o.pool)
    (held : Call → Bool) : (o.advance who m held).Sound := by
  obtain ⟨hmoves, hkeeps⟩ := hm.advance h.orderly held
  refine ⟨Act.Rule.keeps hmoves h.orderly, h.recalled.moves hmoves, fun e he => ?_⟩
  rcases mem_advance he with hold | rfl
  · exact h.underway e hold
  · exact hkeeps

theorem Sound.step (h : o.Sound) (d : Deed) : (o.step d).Sound := by
  cases d with
  | start op held =>
    cases hg : op.giver? o.pool with
    | none =>
      have hnothing : o.pool.gives op = [] := by rw [gives, hg]; rfl
      simp only [Overlap.step, hnothing, List.nil_append]
      exact h.advance (op.abides h.orderly hg) held
    | some g =>
      obtain ⟨t, id⟩ := g
      obtain ⟨hnobody, hreturned, hkeeps⟩ := op.gives_back h.orderly hg held
      have hgiven : o.pool.gives op = [.returned t id] := by rw [gives, hg]; rfl
      simp only [Overlap.step, hgiven, hnobody]
      refine ⟨hreturned.orderly h.orderly, h.recalled.returned hreturned, fun e he => ?_⟩
      rcases mem_advance he with hold | rfl
      · exact h.underway e hold
      · exact hkeeps.mono fun _ _ h => h.shifts
  | goOn n held =>
    simp only [Overlap.step]
    split
    · next who m hn =>
      have hleft : Sound { o with underway := o.underway.eraseIdx n } :=
        ⟨h.orderly, h.recalled, fun e he => h.underway e ((List.eraseIdx_sublist _ n).subset he)⟩
      exact hleft.advance (h.underway _ (List.mem_of_getElem? hn) o.pool h.orderly) held
    · exact h

theorem Sound.foldl (h : o.Sound) (ds : List Deed) : (ds.foldl Overlap.step o).Sound := by
  induction ds generalizing o with
  | nil => exact h
  | cons d ds ih => exact ih (h.step d)

end Overlap

variable {c : Config} {f : Factory} {ls : List Listener} {us : Units}

/-- No thread has given anything back to a pool that was just built. -/
theorem overlap_of_build (hb : build c f ls us = .ok (some p))
    (haffinity : c.threadAffinity = true) :
    Overlap.Sound { pool := p } := by
  obtain ⟨bus, rfl⟩ := build_eq hb
  have hnew : (new c f ls us bus).Orderly := by
    refine ⟨haffinity, List.nodup_nil, fun _ hh => absurd hh List.not_mem_nil,
      fun _ hh => absurd hh List.not_mem_nil, List.not_mem_nil, ?_⟩
    simp only [new]
    cases c.strategy <;> decide
  have hstart : Still (new c f ls us bus) (new c f ls us bus).start :=
    MaintenanceRule.start Orderly _
  have hnobody : ∀ h ∈ (new c f ls us bus).start.handles, h.state.isHome ≠ true := by
    intro h hh hs
    obtain ⟨k, hk, -⟩ := hstart.homed h hh hs
    cases hk
  refine ⟨hstart.orderly hnew, ⟨fun _ _ hm => absurd hm List.not_mem_nil,
    fun h hh hs => absurd hs (hnobody h hh), fun h hh hnew => ?_,
    fun h hh hs => absurd hs (hnobody h hh)⟩, fun _ he => absurd he List.not_mem_nil⟩
  exact absurd (hnew ▸ rfl) (hnobody h hh)

/-- A thread takes the first handle on its list that it can take, and leaves its connection in its
slot. -/
theorem takeIdle_own {ms : List Nat} (hp : p.Orderly)
    (hlist : (p.memory t).dropWhile (fun n => !p.isCached t n) = id.val :: ms)
    (hs : p.stateOf? id = some .checkedIn) :
    ∃ x, p.takeIdle t = (some id, x) ∧ (x.find? id).bind (·.slot) = (p.find? id).bind (·.slot) := by
  have hwon :=
    @transition_of { p with recents := p.recents.set p.cacheOwner t ms } id .checkedIn .checkedOut
    rfl hs
  have hlocal : p.takeLocal t = (some id, Pool.restate
      { p with recents := p.recents.set p.cacheOwner t ms } id .checkedIn .checkedOut) := by
    have hlist : (p.recents.list p.cacheOwner t).dropWhile
      (fun n => !p.isCached t n) = id.val :: ms := hlist
    simp only [takeLocal, hp.remembers, if_true, hlist]
    exact congrArg (fun r => (some id, r)) (congrArg Prod.snd hwon)
  refine ⟨_, by rw [takeIdle, hlocal], ?_⟩
  rw [find_restate]
  change ((p.find? id).map _).bind _ = _
  rw [Option.bind_map]
  rfl

/-- A call to acquire is granted the first handle on the thread's list that can be taken. -/
theorem acquire_own {ms : List Nat} (hp : p.Orderly) (ho : p.closed = false)
    (hu : p.units.current t = none)
    (hlist : (p.memory t).dropWhile (fun n => !p.isCached t n) = id.val :: ms)
    (hs : p.stateOf? id = some .checkedIn) (deadline : Nat) :
    Grants ((acquire t deadline).run p) id := by
  have hready : Still p { p.notify .beforeAcquire with nextTaker := p.nextTaker + 1 } :=
    .of_same rfl rfl
  obtain ⟨x, htake, hslot⟩ := takeIdle_own (hready.orderly hp) hlist hs
  obtain ⟨h, hf, hidle⟩ := find_of_stateOf hs
  obtain ⟨c, hc⟩ := Option.isSome_iff_exists.mp (hp.full h (mem_of_find hf).1 (hidle ▸ rfl))
  have hfull : (x.find? id).bind (·.slot) = some c := by
    rw [hslot]
    change (p.find? id).bind _ = _
    rw [hf]
    exact hc
  have hsearch : (search t p.clock (p.handles.length + 1)).run
      { p.notify .beforeAcquire with nextTaker := p.nextTaker + 1 } =
        (some x.nextLease, x.handOver t p.clock id c) := by
    simp only [search, Act.run_bind, Act.run_apply, htake, checkOut_full hfull, Act.run_pure]
  obtain ⟨r, hrun, hr⟩ := turn_found (a := p.newcomer t p.clock deadline) hsearch
  obtain ⟨l, hl, hnumber, hid⟩ := @handOver_lease x id t p.clock c
  have hleases : r.leases = (x.handOver t p.clock id c).leases :=
    (eq_of_muted Pool.leases (fun _ => rfl) hr).trans rfl
  rw [acquire_turn ho hu, hrun]
  exact ⟨l, hleases ▸ hl, hid, hnumber ▸ rfl⟩

namespace Overlap

/-- The thread gave the handle back, as one of the last that it gave back. It is idle, and nobody
else gave it back since. -/
structure Candidate (o : Overlap) (t : Thread) (id : HandleId) (new : List Mark) : Prop where
  happened : ∃ old, o.past = new ++ .returned t id :: old
  recent : (returns t new).length < Recents.limit
  idle : o.pool.stateOf? id = some .checkedIn
  own : ∀ s, .returned s id ∈ new → s = t

/-- Of all such returns this is the latest. -/
structure Favourite (o : Overlap) (t : Thread) (id : HandleId) (new : List Mark) : Prop where
  candidate : o.Candidate t id new
  latest : ∀ k later, o.Candidate t k later → new.length ≤ later.length

variable {o : Overlap}

/-- What the thread gave back later is not idle, or somebody else gave it back since. -/
theorem Favourite.later (h : o.Favourite t id new) {k : HandleId} (hk : .returned t k ∈ new)
    (hidle : o.pool.stateOf? k = some .checkedIn) (hown : returner? o.past k = some t) : False := by
  obtain ⟨past, hpast⟩ := h.candidate.happened
  obtain ⟨s, later, between, hsplit, hlast⟩ := last_of_mem ⟨t, hk⟩
  have hwhole : o.past = later ++ .returned s k :: (between ++ .returned t id :: past) := by
    rw [hpast, hsplit, List.append_assoc, List.cons_append]
  obtain rfl : s = t := by
    rw [hwhole, returner_of_last hlast] at hown
    exact Option.some.inj hown
  have hrecent : (returns s later).length ≤ (returns s new).length := by
    rw [hsplit]
    exact ((List.sublist_append_left later _).filterMap _).length_le
  have hless := h.latest k later ⟨⟨_, hwhole⟩, Nat.lt_of_le_of_lt hrecent h.candidate.recent, hidle,
    fun s hs => absurd hs (hlast s)⟩
  rw [hsplit, List.length_append, List.length_cons] at hless
  omega

theorem Favourite.last (h : o.Favourite t id new) (s : Thread) : .returned s id ∉ new := by
  intro hs
  obtain rfl := h.candidate.own s hs
  obtain ⟨past, hpast⟩ := h.candidate.happened
  refine h.later hs h.candidate.idle ?_
  obtain ⟨u, later, between, hsplit, hlast⟩ := last_of_mem ⟨s, hs⟩
  obtain rfl := h.candidate.own u (hsplit ▸ List.mem_append_right later List.mem_cons_self)
  rw [hpast, hsplit, List.append_assoc, List.cons_append]
  exact returner_of_last hlast

/-- On the thread's list its favourite is the first handle that it can take. -/
theorem Favourite.first (h : o.Favourite t id new) (ho : o.Sound)
    (hseen : ∀ ids, .looked t ids ∈ new → id ∉ ids) :
    ∃ ms, (o.pool.memory t).dropWhile (fun n => !o.pool.isCached t n) = id.val :: ms := by
  obtain ⟨past, hpast⟩ := h.candidate.happened
  obtain ⟨x, hf, hidle⟩ := find_of_stateOf h.candidate.idle
  obtain ⟨hx, hid⟩ := mem_of_find hf
  have hhome : x.state.isHome = true := hidle ▸ rfl
  obtain ⟨ns, ms, hlist, hlater⟩ :=
    ho.recalled.recalls hx hhome hid hpast ⟨h.candidate.recent, h.last, hseen⟩
  have hown : x.cachedBy = some t := by
    rw [ho.recalled.owned x hx hhome, hid, hpast]
    exact returner_of_last h.last
  have htake : o.pool.isCached t id.val = true :=
    List.any_eq_true.mpr ⟨x, hx, decide_eq_true ⟨congrArg _ hid, hown, hidle⟩⟩
  have hpassed : ∀ n ∈ ns, o.pool.isCached t n = false := by
    intro n hn
    refine Bool.eq_false_iff.mpr fun hcached => ?_
    obtain ⟨y, hy, hfound⟩ := List.any_eq_true.mp hcached
    obtain ⟨hyid, hyown, hyidle⟩ := of_decide_eq_true hfound
    obtain ⟨k, hk, rfl⟩ := List.mem_map.mp (hlater.subset hn)
    obtain rfl : y.id = k := congrArg HandleId.mk hyid
    refine h.later (mem_returns.mp hk) ?_ ((ho.recalled.owned y hy (hyidle ▸ rfl)).symm.trans hyown)
    rw [stateOf_of_find ((Keyed.find_iff Handle.id ho.orderly.distinct).mpr ⟨hy, rfl⟩), hyidle]
  refine ⟨ms, ?_⟩
  rw [hlist, List.dropWhile_append_of_pos fun n hn => by rw [hpassed n hn]; rfl]
  exact List.dropWhile_cons_of_neg (by rw [htake]; exact Bool.false_ne_true)

end Overlap

/-- Nothing is held up when this is done. -/
def Deed.Whole : Deed → Prop
  | .start _ held => ∀ call, held call = false
  | .goOn _ _ => False

theorem busy_of_settled (hp : p.Settled) : p.busy = [] := by
  refine List.map_eq_nil_iff.mpr (List.filter_eq_nil_iff.mpr fun h hh => ?_)
  rw [decide_eq_true_iff]
  intro hs
  rcases hp.sound.books.fitting.idle_or_active h.account
    (List.mem_map_of_mem hh) with ⟨hidle, -⟩ | hactive
  · cases hs.symm.trans hidle
  · cases hs.symm.trans hactive

/-- What is done whole leaves the pool as the operations do one after the other, and nobody ever
looks around while a handle is under validation. -/
structure Overlap.Whole (o : Overlap) : Prop where
  settled : o.pool.Settled
  quiet : ∀ t ids, .looked t ids ∈ o.past → ids = []

theorem Overlap.Whole.step {o : Overlap} (h : o.Whole) {d : Deed} (hd : d.Whole) :
    (o.step d).Whole := by
  cases d with
  | start op held =>
    have hrun : (op.act.advance held o.pool).2 = op.run o.pool := by
      rw [Act.advance_free hd, op.act_run]
    refine ⟨?_, fun t ids hm => ?_⟩
    · change Settled (op.act.advance held o.pool).2
      rw [hrun]
      exact h.settled.run op
    · rcases List.mem_append.mp hm with hlook | hm
      · obtain ⟨s, -, heq⟩ := List.mem_map.mp hlook
        cases heq
        exact busy_of_settled h.settled
      · rcases List.mem_append.mp hm with hgiven | hold
        · obtain ⟨g, -, heq⟩ := List.mem_map.mp hgiven
          cases heq
        · exact h.quiet t ids hold
  | goOn n held => exact hd.elim

theorem Overlap.Whole.foldl {o : Overlap} (h : o.Whole) {ds : List Deed} (hds : ∀ d ∈ ds, d.Whole) :
    (ds.foldl Overlap.step o).Whole := by
  induction ds generalizing o with
  | nil => exact h
  | cons d ds ih =>
    exact ih (h.step (hds d List.mem_cons_self)) fun e he => hds e (List.mem_cons_of_mem d he)

/-- Whatever is done to a pool, by whichever threads and however it overlaps: of the handles that
are idle, that a thread gave back as one of its last sixteen, and that nobody else gave back since,
the thread gets the one it gave back last. It must not have looked around while that one was under
validation, and where nothing is ever held up it never does. -/
theorem acquire_grants_last_returned (hb : build c f ls us = .ok (some p))
    (haffinity : c.threadAffinity = true)
    (ds : List Deed) (hopen : (p.amid ds).pool.closed = false)
    (hunit : (p.amid ds).pool.units.current t = none) (hlast : (p.amid ds).Favourite t id new)
    (hseen : (∀ d ∈ ds, d.Whole) ∨ ∀ ids, .looked t ids ∈ new → id ∉ ids) (deadline : Nat) :
    Grants ((acquire t deadline).run (p.amid ds).pool) id := by
  have hsound : (p.amid ds).Sound := (overlap_of_build hb haffinity).foldl ds
  have hunseen : ∀ ids, .looked t ids ∈ new → id ∉ ids := by
    rcases hseen with hwhole | hseen
    · have hbuilt : Overlap.Whole { pool := p } :=
        ⟨(fresh_of_build hb).settled, fun _ _ hm => absurd hm List.not_mem_nil⟩
      obtain ⟨past, hpast⟩ := hlast.candidate.happened
      intro ids hids
      have hmem : .looked t ids ∈ (p.amid ds).past := hpast ▸ List.mem_append_left _ hids
      rw [(hbuilt.foldl hwhole).quiet t ids hmem]
      exact List.not_mem_nil
    · exact hseen
  obtain ⟨ms, hlist⟩ := hlast.first hsound hunseen
  exact acquire_own hsound.orderly hopen hunit hlist hlast.candidate.idle deadline

/-- A thread gives back the first of three handles, and while that is under validation it takes the
second. The first is idle again, but passed by: the thread gets the third. -/
theorem last_returned_passed_by :
    ∃ p, build { strategy := .fifo, prefill := .toMax, minSize := 0, maxSize := 3 } {} [] {} =
        .ok (some p) ∧
      let o := p.amid [.start .create fun _ => false, .start .create fun _ => false,
        .start .create fun _ => false, .start (.acquire (.named "a") 9) fun _ => false,
        .start (.release (.named "a") 0) fun _ => false,
        .start (.sweep (.named "b") .validation) fun call => call = .probe 1,
        .start (.acquire (.named "a") 9) fun _ => false, .goOn 0 fun _ => false]
      o.pool.closed = false ∧ o.pool.units.current (.named "a") = none ∧
        o.Favourite (.named "a") ⟨1⟩ [.looked (.named "a") [⟨1⟩]] ∧
        (((acquire (.named "a") 9).run o.pool).2.lease? 2).map (·.handle) = some ⟨3⟩ ∧
        ¬ Grants ((acquire (.named "a") 9).run o.pool) ⟨1⟩ := by
  refine ⟨_, rfl, rfl, rfl,
    ⟨⟨⟨_, rfl⟩, by decide +kernel, by decide +kernel, nofun⟩, fun k later h => ?_⟩,
    by decide +kernel, ?_⟩
  · obtain ⟨old, hpast⟩ := h.happened
    cases later with
    | nil => cases hpast
    | cons m later => exact Nat.succ_le_succ (Nat.zero_le _)
  · rintro ⟨l, hl, hid, -⟩
    revert l
    decide +kernel

/-- A thread gives back the first handle and then the second. While the second is under validation
the thread gets the first. -/
theorem last_returned_granted_behind_another :
    ∃ p, build { strategy := .fifo, prefill := .toMax, minSize := 0, maxSize := 3 } {} [] {} =
        .ok (some p) ∧
      let o := p.amid [.start .create fun _ => false, .start .create fun _ => false,
        .start .create fun _ => false, .start (.acquire (.named "a") 9) fun _ => false,
        .start (.acquire (.named "a") 9)
        fun _ => false, .start (.release (.named "a") 0)
          fun _ => false, .start (.release (.named "a") 1) fun _ => false,
        .start (.sweep (.named "b") .validation) fun call => call = .probe 2]
      o.past = [.returned (.named "a") ⟨2⟩, .returned (.named "a") ⟨1⟩, .looked (.named "a") [],
          .looked (.named "a") []] ∧
        o.pool.stateOf? ⟨2⟩ = some .validation ∧ o.pool.handoff.toList.head? = some ⟨3⟩ ∧
        Grants ((acquire (.named "a") 9).run o.pool) ⟨1⟩ := by
  refine ⟨_, rfl, by decide +kernel, by decide +kernel, by decide +kernel,
    @acquire_grants_last_returned _ [.returned (.named "a") ⟨2⟩] (.named "a") ⟨1⟩
      { strategy := .fifo, prefill := .toMax, minSize := 0, maxSize := 3 } {} []
      {} rfl rfl _ rfl rfl
      ⟨⟨⟨_, rfl⟩, by decide +kernel, by decide +kernel, ?_⟩, fun k later h => ?_⟩ (.inr ?_) 9⟩
  · intro s hs
    cases List.mem_singleton.mp hs
  · cases later with
    | nil =>
      obtain ⟨old, hpast⟩ := h.happened
      have hidle := h.idle
      obtain ⟨heq, -⟩ := List.cons_eq_cons.mp hpast
      cases heq
      revert hidle
      decide +kernel
    | cons m later => exact Nat.succ_le_succ (Nat.zero_le _)
  · intro ids hids
    cases List.mem_singleton.mp hids

end ConnPool.Pool
