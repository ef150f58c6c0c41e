import ConnPool.Proofs.HandoffRequests
import ConnPool.Proofs.NoGrowth

namespace ConnPool.Pool

variable {who : Option Nat} {p q r : Pool} {id : HandleId}

/-- Who counts on a creation has it in flight; `who` is not asked. -/
def Ticketed (who : Option Nat) (p : Pool) : Prop :=
  ∀ a ∈ p.acquirers, who ≠ some a.taker.id → a.ticket = some .inFlight →
    ⟨some a.taker.id⟩ ∈ p.inFlight

/-- What all that is done on behalf of `who` leaves to the other acquirers: a handoff in order, what
they were given, and the creations on which they count. -/
structure KeepsOthers (who : Option Nat) (p q : Pool) : Prop where
  orderly : p.handoff.view.Orderly → q.handoff.view.Orderly
  given : ∀ a ∈ p.acquirers, who ≠ some a.taker.id → a.waiting ≠ .parked →
    a.stance ∈ q.acquirers.map (·.stance)
  ticketed : p.Ticketed who → q.Ticketed who

theorem KeepsOthers.refl (p : Pool) : KeepsOthers who p p :=
  ⟨fun h => h, fun _ ha _ _ => List.mem_map_of_mem ha, fun h => h⟩

theorem KeepsOthers.trans (h : KeepsOthers who p q) (k : KeepsOthers who q r) :
    KeepsOthers who p r := by
  refine ⟨fun hv => k.orderly (h.orderly hv), fun a ha hwho hw => ?_,
    fun ht => k.ticketed (h.ticketed ht)⟩
  obtain ⟨b, hb, hba⟩ := List.mem_map.mp (h.given a ha hwho hw)
  have htaker : b.taker = a.taker := congrArg Prod.fst hba
  have hwait : b.waiting = a.waiting := congrArg Prod.snd hba
  rw [← hba]
  exact k.given b hb (htaker ▸ hwho) (hwait ▸ hw)

/-- The acquirers stay who they are, and no creation is lost. -/
theorem KeepsOthers.of_acquirers (ho : p.handoff.view.Orderly → q.handoff.view.Orderly)
    (ha : q.acquirers = p.acquirers) (hf : ∀ c ∈ p.inFlight, c ∈ q.inFlight) :
    KeepsOthers who p q := by
  refine ⟨ho, fun a hmem _ _ => ?_, fun ht a hmem hwho hticket => ?_⟩
  · rw [ha]
    exact List.mem_map_of_mem hmem
  · rw [ha] at hmem
    exact hf _ (ht a hmem hwho hticket)

theorem KeepsOthers.of_same (hh : q.handoff = p.handoff) (ha : q.acquirers = p.acquirers)
    (hf : q.inFlight = p.inFlight) : KeepsOthers who p q :=
  .of_acquirers (fun h => hh ▸ h) ha fun _ hc => hf ▸ hc

theorem KeepsOthers.of_muted (h : q.muted = p.muted) : KeepsOthers who p q :=
  .of_same (eq_of_muted Pool.handoff (fun _ => rfl) h) (eq_of_muted Pool.acquirers (fun _ => rfl) h)
    (eq_of_muted Pool.inFlight (fun _ => rfl) h)

/-- Only acquirers with the number of `who` go or come. -/
theorem leave_keepsOthers (hn : p.handoff.Numbered) {n : Nat} (self : who = some n) :
    KeepsOthers who p (p.leave n) := by
  have hstays : Stays who p (p.leave n) := .leave self rfl
  refine ⟨fun hv => (Handoff.withdraw_next hn n).orderly hv, fun a ha hwho _ => hstays a ha hwho,
    fun ht a ha hwho hticket => ?_⟩
  exact ht a (List.mem_filter.mp ha).1 hwho hticket

/-- An acquirer that parks takes its own place, or a new one behind the others. -/
theorem park_acquirers (a : Acquirer) :
    (p.park a).acquirers = p.acquirers.map (fun b => if b.taker.id = a.taker.id then a else b) ∨
      (∀ b ∈ p.acquirers, b.taker.id ≠ a.taker.id) ∧ ∃ b : Acquirer, b.taker = a.taker ∧
        b.ticket = a.ticket ∧ (p.park a).acquirers = p.acquirers ++ [b] := by
  simp only [park]
  split
  · exact Or.inl rfl
  · next hnew =>
    refine Or.inr ⟨by simpa using hnew, ?_⟩
    split
    · next id _ => exact ⟨{ a with waiting := .served id }, rfl, rfl, rfl⟩
    · exact ⟨{ a with waiting := .dismissed }, rfl, rfl, rfl⟩
    · exact ⟨a, rfl, rfl, rfl⟩
    · exact ⟨a, rfl, rfl, rfl⟩

theorem park_handoff (hn : p.handoff.Numbered) (a : Acquirer) (hv : p.handoff.view.Orderly) :
    (p.park a).handoff.view.Orderly := by
  have htake := (Handoff.take_next hn p.recents a.taker false).orderly hv
  simp only [park]
  split
  · exact hv
  · split <;> exact htake

theorem park_inFlight (a : Acquirer) : (p.park a).inFlight = p.inFlight := by
  simp only [park]
  split
  · rfl
  · split <;> rfl

theorem park_keepsOthers (hn : p.handoff.Numbered) {a : Acquirer} (self : who = some a.taker.id) :
    KeepsOthers who p (p.park a) := by
  have hflight := park_inFlight (p := p) a
  refine ⟨park_handoff hn a, fun b hb hwho _ => ?_, fun ht b hb hwho hticket => ?_⟩
  · have hother : b.taker.id ≠ a.taker.id := fun he => hwho (self.trans (congrArg some he.symm))
    rcases park_acquirers (p := p) a with hlist | ⟨-, x, -, -, hlist⟩
    · rw [hlist, List.map_map]
      exact List.mem_map.mpr ⟨b, hb, by simp [hother]⟩
    · rw [hlist]
      exact List.mem_map_of_mem (List.mem_append_left _ hb)
  · have hother : b.taker.id ≠ a.taker.id := fun he => hwho (self.trans (congrArg some he.symm))
    rw [hflight]
    rcases park_acquirers (p := p) a with hlist | ⟨-, x, hx, -, hlist⟩
    · rw [hlist] at hb
      obtain ⟨y, hy, rfl⟩ := List.mem_map.mp hb
      split at hother
      · exact absurd rfl hother
      · next hid =>
        rw [if_neg hid] at hwho hticket ⊢
        exact ht y hy hwho hticket
    · rw [hlist] at hb
      rcases List.mem_append.mp hb with hb | hb
      · exact ht b hb hwho hticket
      · rw [List.mem_singleton.mp hb, hx] at hother
        exact absurd rfl hother

/-- The changes to one acquirer that leave its number and its creation alone. -/
theorem Ticketed.map {f : Acquirer → Acquirer}
    (hf : ∀ a, (f a).taker = a.taker ∧ (f a).ticket = a.ticket) (hp : p.Ticketed who)
    (ha : q.acquirers = p.acquirers.map f) (hi : q.inFlight = p.inFlight) : q.Ticketed who := by
  intro b hb hwho hticket
  rw [ha] at hb
  obtain ⟨a, hmem, rfl⟩ := List.mem_map.mp hb
  obtain ⟨htaker, hsame⟩ := hf a
  rw [htaker] at hwho ⊢
  rw [hi]
  exact hp a hmem hwho (hsame ▸ hticket)

/-- An entry goes to no one who was given one before. -/
theorem deliver_keepsOthers (hp : p.Lineup) {w : Taker} {ws : List Taker}
    (first : p.handoff.parked = w :: ws) (ho : p.handoff.view.Orderly → q.handoff.view.Orderly)
    (hi : q.inFlight = p.inFlight) {x : HandleId} (ha : q.acquirers = (p.deliver w x).acquirers) :
    KeepsOthers who p q := by
  obtain ⟨pre, a, post, hb, hw, hparked, -, -⟩ := hp.first_parked first
  refine ⟨ho, fun b hmem _ hgiven => ?_, fun ht => ?_⟩
  · have hother : b.taker.id ≠ w.id := by
      intro he
      have hsame := Keyed.unique (fun a : Acquirer => a.taker.id) hp.takers_nodup hmem hb.mem
        (he.trans (congrArg Taker.id hw.symm))
      exact hgiven (hsame ▸ hparked)
    rw [ha]
    exact List.mem_map.mpr ⟨b, List.mem_map.mpr ⟨b, hmem, if_neg hother⟩, rfl⟩
  · refine ht.map (f := fun a => if a.taker.id = w.id then { a with waiting := .served x } else a)
      (fun a => ?_) ha hi
    split <;> exact ⟨rfl, rfl⟩

theorem available_keepsOthers (hp : p.Lineup) (ho : p.closed = false) (t : Thread) (id : HandleId) :
    KeepsOthers who p (p.available t id) := by
  have hopen := hp.isClosed_eq.trans ho
  have hnext : p.handoff.view.Orderly → (p.handoff.put p.recents t id).2.1.view.Orderly :=
    fun hv => (Handoff.put_next hp.numbered hv p.recents t id).orderly hv
  simp only [available]
  split
  · exact .refl p
  · obtain ⟨h', rs', -, -, ⟨-, -, hput⟩ | ⟨w, x, first, -, hput⟩⟩ :=
      Handoff.put_cases hp.numbered hopen p.recents t id
    · rw [offer_kept (p := p.modifyHandle id fun h => { h with queued := true }) hput]
      rw [hput] at hnext
      exact .of_acquirers hnext rfl fun _ hc => hc
    · rw [offer_served (p := p.modifyHandle id fun h => { h with queued := true }) hput]
      rw [hput] at hnext
      exact deliver_keepsOthers hp first hnext rfl rfl

theorem touch_keepsOthers (id : HandleId) : KeepsOthers who p (p.touch id) := .of_same rfl rfl rfl

theorem restate_keepsOthers (id : HandleId) (s t : State) : KeepsOthers who p (p.restate id s t) :=
  .of_same rfl rfl rfl

theorem homecoming_keepsOthers (t : Thread) (id : HandleId) :
    KeepsOthers who p (p.homecoming t id) := by
  have hclear : KeepsOthers who p (p.clearOwner id) := .of_same rfl rfl rfl
  have hmoved := hclear.trans
    ((touch_keepsOthers id).trans (restate_keepsOthers id .checkedOut .checkedIn))
  refine hmoved.trans ?_
  simp only [homecoming]
  generalize ((p.clearOwner id).touch id).restate id .checkedOut .checkedIn = m
  simp only [cacheLocally]
  split
  · exact .of_same rfl rfl rfl
  · exact .of_same rfl rfl rfl

theorem arrival_keepsOthers (x : Connection) : KeepsOthers who p (p.arrival x) := by
  have henrolled : KeepsOthers who p (p.enroll x) := .of_same rfl rfl rfl
  simp only [arrival]
  exact henrolled.trans ((restate_keepsOthers _ _ _).trans (touch_keepsOthers _))

theorem bear_keepsOthers (hp : p.Lineup) (ho : p.closed = false) (x : Connection) :
    KeepsOthers who p (p.bear x) := by
  have harrived : KeepsOthers who (p.arrival x)
      ((p.arrival x).available .background ⟨p.nextHandle⟩) :=
    available_keepsOthers (arrival_lineup hp x) ho .background _
  exact (arrival_keepsOthers x).trans harrived

/-- A creation that ends is missed by nobody: who counted on it hears of it. -/
theorem told_keepsOthers {c : Creation} {e : Option String} (hh : q.handoff = p.handoff)
    (ha : q.acquirers = (c.acquirer.elim p (p.tellAcquirer · e)).acquirers)
    (hf : ∀ d ∈ p.inFlight, d ≠ c → d ∈ q.inFlight) : KeepsOthers who p q := by
  obtain ⟨_ | n⟩ := c
  · refine ⟨fun hv => hh ▸ hv, fun a hmem _ _ => ?_, fun ht a hmem hwho hticket => ?_⟩
    · rw [ha]
      exact List.mem_map_of_mem hmem
    · rw [ha] at hmem
      exact hf _ (ht a hmem hwho hticket) (by simp)
  · have hlist : q.acquirers = p.acquirers.map fun a =>
        if a.taker.id = n ∧ a.ticket = some .inFlight then { a with ticket := some (.settled e) }
        else a := ha
    refine ⟨fun hv => hh ▸ hv, fun a hmem _ _ => ?_, fun ht b hb hwho hticket => ?_⟩
    · rw [hlist, stances_tell]
      exact List.mem_map_of_mem hmem
    · rw [hlist] at hb
      obtain ⟨a, hmem, rfl⟩ := List.mem_map.mp hb
      split at hticket
      · cases hticket
      · next hnot =>
        rw [if_neg hnot] at hwho ⊢
        refine hf _ (ht a hmem hwho hticket) fun he => hnot ⟨?_, hticket⟩
        simpa using he

theorem conclude_keepsOthers {c : Creation} {cs : List Creation} (first : p.inFlight = c :: cs)
    (e : Option String) : KeepsOthers who p (p.concludeCreation c e) := by
  refine told_keepsOthers (c := c) (e := e) ?_ rfl fun d hd hne => ?_
  · exact (frame_conclude c e).handoff
  · have htail : (p.concludeCreation c e).inFlight = cs := by
      simp only [concludeCreation, endCreation]
      cases c.acquirer <;> simp [tellAcquirer, first]
    rw [first] at hd
    rw [htail]
    exact (List.mem_cons.mp hd).resolve_left hne

theorem abandon_keepsOthers (n : Nat) : KeepsOthers who p (p.abandon n) := by
  simp only [abandon]
  split
  · next creation hclosed hn =>
    obtain ⟨hlt, hget⟩ := List.getElem?_eq_some_iff.mp hn
    have hleft : ∀ d ∈ p.inFlight, d ≠ creation → d ∈ p.inFlight.eraseIdx n := by
      intro d hd hne
      have hperm := List.getElem_cons_eraseIdx_perm hlt
      rw [hget] at hperm
      exact (List.mem_cons.mp (hperm.mem_iff.mpr hd)).resolve_left hne
    refine told_keepsOthers (c := creation) (e := some p.closedFailure.message) ?_ ?_
      fun d hd hne => ?_
    · cases creation.acquirer <;> rfl
    · cases creation.acquirer <;> rfl
    · have hflight := hleft d hd hne
      cases creation.acquirer <;> exact hflight
  · exact .refl p

/-- Nobody but `who` is disturbed by a step. -/
theorem Step.keepsOthers (h : Step who p q) (hp : p.Sound) : KeepsOthers who p q := by
  have hn := hp.lineup.numbered
  cases h with
  | hush same => exact .of_muted same
  | schedule a room =>
    exact .of_acquirers (fun h => h) rfl fun _ hc => List.mem_append_left _ hc
  | @forget t nothing =>
    obtain ⟨rs, htake⟩ | ⟨n, rs, -, htake⟩ := p.takeLocal_cases t
    · rw [htake]
      exact .of_same rfl rfl rfl
    · rw [htake] at nothing
      cases nothing
  | @exhaust t h' rs' take =>
    have hnext := Handoff.tryTake_next hn p.recents t
    rw [take] at hnext
    exact .of_acquirers hnext.orderly rfl fun _ hc => hc
  | @skip t id h' rs' take stale =>
    have hnext := Handoff.tryTake_next hn p.recents t
    rw [take] at hnext
    exact .of_acquirers hnext.orderly rfl fun _ hc => hc
  | leave self unserved => exact leave_keepsOthers hn self
  | @miss a id self mem served stale =>
    have hleft : KeepsOthers who p (p.leave a.taker.id) := leave_keepsOthers hn self
    exact hleft.trans (.of_same rfl rfl rfl)
  | park self isOpen parked drawn same => exact park_keepsOthers hn self
  | @comeBack id h c t isOpen find active full =>
    have hclosed := (homecoming_closed (p := p) t id).trans isOpen
    exact (homecoming_keepsOthers t id).trans
      (available_keepsOthers (homecoming_lineup hp.lineup t id) hclosed t id)
  | @miscarry c cs e first =>
    have hforgone : KeepsOthers who p p.tried.forgo := .of_same rfl rfl rfl
    exact hforgone.trans (conclude_keepsOthers (p := p.tried.forgo) first _)
  | abandon n => exact abandon_keepsOthers n
  | reorder cs same => exact .of_acquirers (fun h => h) rfl fun _ hc => same.mem_iff.mpr hc
  | _ => exact .of_same rfl rfl rfl

theorem Steps.keepsOthers (h : Steps who p q) (hp : p.Sound) : KeepsOthers who p q := by
  induction h with
  | refl => exact .refl p
  | tail first last ih => exact ih.trans (last.keepsOthers (Steps.sound first hp))

/-- A birth serves the first that waits, if anyone does. -/
theorem birth_keepsOthers (hp : p.Sound) {c : Creation} {cs : List Creation}
    (first : p.inFlight = c :: cs) (x : Connection) : KeepsOthers who p (p.birth c x) := by
  simp only [birth]
  split
  · have hborn : KeepsOthers who p (p.tried.stillbear x) := .of_same rfl rfl rfl
    exact hborn.trans (conclude_keepsOthers (p := p.tried.stillbear x) first none)
  · next hcl =>
    have ho : p.closed = false := by simpa using hcl
    have hbegun : KeepsOthers who p p.tried := .of_same rfl rfl rfl
    have hborn : KeepsOthers who p.tried (p.tried.bear x) := bear_keepsOthers hp.lineup.tried ho x
    have hflight : (p.tried.bear x).inFlight = c :: cs := (inFlight_available _ _ _).trans first
    exact (hbegun.trans hborn).trans (conclude_keepsOthers hflight none)

theorem transition_keepsOthers (id : HandleId) (s t : State) :
    KeepsOthers who p (p.transition id s t).2 := by
  simp only [transition]
  split
  · exact .of_same rfl rfl rfl
  · exact .refl p

theorem claim_keepsOthers {q : Pool} (h : p.claim id = (true, q)) : KeepsOthers who p q := by
  have hmarked : KeepsOthers who p (p.unqueue id) := .of_same rfl rfl rfl
  have hmoved : KeepsOthers who (p.unqueue id)
      ((p.unqueue id).transition id .checkedIn .checkedOut).2 := transition_keepsOthers id _ _
  have hq : ((p.unqueue id).transition id .checkedIn .checkedOut).2 = q := congrArg Prod.snd h
  rw [hq] at hmoved
  exact hmarked.trans hmoved

/-- Who claims a handle takes it from no other acquirer. -/
theorem Claim.keepsOthers (h : Claim who p id q) (hp : p.Sound) : KeepsOthers who p q := by
  have hn := hp.lineup.numbered
  cases h with
  | @own t q take =>
    obtain ⟨rs, hnone⟩ | ⟨n, rs, -, hsome⟩ := p.takeLocal_cases t
    · rw [take] at hnone
      cases hnone
    · have hforgot : KeepsOthers who p { p with recents := rs } := .of_same rfl rfl rfl
      rw [take] at hsome
      rw [(Prod.mk.inj hsome).2]
      exact hforgot.trans (transition_keepsOthers ⟨n⟩ .checkedIn .checkedOut)
  | @queued t h' rs' q take claim =>
    have hnext := Handoff.tryTake_next hn p.recents t
    rw [take] at hnext
    have hlooked : KeepsOthers who p { p with handoff := h', recents := rs' } :=
      .of_acquirers hnext.orderly rfl fun _ hc => hc
    exact hlooked.trans (claim_keepsOthers claim)
  | served self mem served claim =>
    exact (leave_keepsOthers hn self).trans (claim_keepsOthers claim)

theorem Lend.keepsOthers (h : Lend who p q) (hp : p.Sound) : KeepsOthers who p q := by
  obtain @⟨id, m, h, c, t, started, claim, find, full⟩ := h
  have hsame : Untouched m (m.handOver t started id c) := handOver_untouched t started c
  have hh : (m.handOver t started id c).handoff = m.handoff := by
    simp only [handOver, lend, modifyHandle]
    exact (assign_frame t started id).handoff
  exact (claim.keepsOthers hp).trans (.of_same hh hsame.acquirers hsame.inFlight)

theorem shut_keepsOthers (hp : p.Lineup) : KeepsOthers who p p.shut := by
  obtain ⟨h', hn, hc, hnil, hpk, heq⟩ := closeHandoff_eq hp
  simp only [shut]
  rw [heq]
  refine ⟨fun _ => ⟨fun _ => hnil, fun _ => ⟨hnil, hpk⟩⟩, fun a ha _ hw => ?_, fun ht => ?_⟩
  · refine List.mem_map.mpr ⟨sentAway a, List.mem_map_of_mem ha, ?_⟩
    simp only [sentAway, if_neg hw]
  · refine ht.map (f := sentAway) (fun a => ⟨sentAway_taker a, ?_⟩) rfl rfl
    simp only [sentAway]
    split <;> rfl

theorem Course.keepsOthers {bs : List Birth} (h : Course who p bs q) (hp : p.Sound)
    (hfinal : p.Final) :
    KeepsOthers who p q := by
  cases h with
  | calm steps => exact steps.keepsOthers hp
  | lent before lend after same =>
    have hm := before.sound hp
    have hlent := lend.lent hm (before.final hp hfinal)
    exact (before.keepsOthers hp).trans
      ((lend.keepsOthers hm).trans (after.keepsOthers hlent.sound))
  | birth before first serial after same =>
    have hm := before.sound hp
    exact (before.keepsOthers hp).trans
      ((birth_keepsOthers hm first _).trans (after.keepsOthers (birth_sound hm first serial)))
  | closing before isOpen after final =>
    have hm := before.sound hp
    exact (before.keepsOthers hp).trans
      ((shut_keepsOthers hm.lineup).trans (after.keepsOthers (shut_sound hm)))

end ConnPool.Pool
