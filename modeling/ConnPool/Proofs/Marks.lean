import ConnPool.Proofs.Entries

namespace ConnPool.Pool

variable {who : Option Nat} {p q : Pool} {id k : HandleId} {bs : List Birth}

/-- The handle is marked, in the collection or out of it. -/
def isMarked (p : Pool) (id : HandleId) : Bool :=
  p.handles.any (fun h => h.id = id && h.queued) || p.strays.contains id

/-- The marks tell which handles have entries. -/
def Tagged (p : Pool) : Prop := ∀ id, p.isMarked id = true ↔ id ∈ p.entries

theorem isMarked_iff : p.isMarked id = true ↔
    (∃ h ∈ p.handles, h.id = id ∧ h.queued = true) ∨ id ∈ p.strays := by
  simp [isMarked]

theorem isMarked_of_same (hh : q.handles = p.handles) (hs : q.strays = p.strays) :
    q.isMarked = p.isMarked := by
  funext id
  simp only [isMarked, hh, hs]

/-- A handle is changed, but for its mark. -/
theorem isMarked_modify (p : Pool) (id : HandleId) (f : Handle → Handle)
    (hf : ∀ h, (f h).id = h.id ∧ (f h).queued = h.queued) :
    (p.modifyHandle id f).isMarked = p.isMarked := by
  funext k
  simp only [isMarked, modifyHandle, List.any_map]
  congr 2
  funext h
  simp only [Function.comp]
  split
  · rw [(hf h).1, (hf h).2]
  · rfl

/-- One handle is changed, and its mark as the change says. -/
theorem isMarked_modifyHandle (f : Handle → Handle) (hf : ∀ h, (f h).id = h.id) :
    (p.modifyHandle id f).isMarked k = true ↔
      (∃ h ∈ p.handles, h.id = k ∧ (if k = id then f h else h).queued = true) ∨ k ∈ p.strays := by
  rw [isMarked_iff]
  refine or_congr_left ⟨?_, ?_⟩
  · rintro ⟨_, hmem, hk, hq⟩
    obtain ⟨h, hh, rfl⟩ := List.mem_map.mp hmem
    have hid : h.id = k := by
      rw [← hk]
      split
      · exact (hf h).symm
      · rfl
    rw [hid] at hq
    exact ⟨h, hh, hid, hq⟩
  · rintro ⟨h, hh, rfl, hq⟩
    refine ⟨_, List.mem_map_of_mem hh, ?_, hq⟩
    split
    · exact hf h
    · rfl

theorem isMarked_mark (hid : id ∈ p.ids) :
    (p.modifyHandle id fun h => { h with queued := true }).isMarked k = true ↔
      k = id ∨ p.isMarked k = true := by
  rw [isMarked_modifyHandle (fun h => { h with queued := true }) fun _ => rfl, isMarked_iff]
  by_cases hk : k = id
  · obtain ⟨h, hh, hhid⟩ := List.mem_map.mp hid
    exact iff_of_true (Or.inl ⟨h, hh, hhid.trans hk.symm, by rw [if_pos hk]⟩) (Or.inl hk)
  · simp only [hk, if_false, false_or]

theorem isMarked_unqueue : (p.unqueue id).isMarked k = true ↔ p.isMarked k = true ∧ k ≠ id := by
  have hhandles : (p.unqueue id).isMarked k = true ↔
      (∃ h ∈ p.handles, h.id = k ∧
        (if k = id then { h with queued := false } else h).queued = true) ∨
        k ∈ p.strays ∧ k ≠ id := by
    have hsame : k ∈ (p.unqueue id).strays ↔ k ∈ p.strays ∧ k ≠ id := by
      simp [unqueue]
    rw [← hsame]
    exact isMarked_modifyHandle (p := { p with strays := p.strays.filter (· ≠ id) }) _ fun _ => rfl
  rw [hhandles, isMarked_iff]
  by_cases hk : k = id
  · simp [hk]
  · simp only [hk, if_false, ne_eq, not_false_eq_true, and_true]

/-- Who leaves the collection takes his mark along. -/
theorem isMarked_remove {h : Handle} (hn : p.ids.Nodup) (hh : h ∈ p.handles) :
    (p.remove h).isMarked k = true ↔ p.isMarked k = true := by
  have hstrays : k ∈ (p.remove h).strays ↔ (h.queued = true ∧ k = h.id) ∨ k ∈ p.strays := by
    simp only [remove]
    split
    · next hq => simp [hq]
    · next hq => simp [hq]
  rw [isMarked_iff, isMarked_iff, hstrays]
  simp only [remove, List.mem_filter, decide_eq_true_eq]
  constructor
  · rintro (⟨x, ⟨hx, -⟩, hxk, hxq⟩ | ⟨hq, rfl⟩ | hk)
    · exact Or.inl ⟨x, hx, hxk, hxq⟩
    · exact Or.inl ⟨h, hh, rfl, hq⟩
    · exact Or.inr hk
  · rintro (⟨x, hx, rfl, hxq⟩ | hk)
    · by_cases hid : x.id = h.id
      · obtain rfl : x = h := Keyed.unique Handle.id hn hx hh hid
        exact Or.inr (Or.inl ⟨hxq, rfl⟩)
      · exact Or.inl ⟨x, ⟨hx, hid⟩, rfl, hxq⟩
    · exact Or.inr (Or.inr hk)

theorem Tagged.of_marks (hp : p.Tagged) (hm : ∀ k, q.isMarked k = true ↔ p.isMarked k = true)
    (hes : ∀ k, k ∈ q.entries ↔ k ∈ p.entries) : q.Tagged :=
  fun k => (hm k).trans ((hp k).trans (hes k).symm)

theorem Tagged.of_same (hp : p.Tagged) (hm : q.isMarked = p.isMarked)
    (hes : q.entries = p.entries) : q.Tagged :=
  hp.of_marks (fun k => by rw [hm]) fun k => by rw [hes]

theorem Tagged.modify (hp : p.Tagged) (id : HandleId) (f : Handle → Handle)
    (hf : ∀ h, (f h).id = h.id ∧ (f h).queued = h.queued) : (p.modifyHandle id f).Tagged :=
  hp.of_same (isMarked_modify p id f hf) rfl

theorem Tagged.restate (hp : p.Tagged) (id : HandleId) (s t : State) : (p.restate id s t).Tagged :=
  (hp.modify id (fun h => { h with state := t }) fun _ => ⟨rfl, rfl⟩).of_same rfl rfl

/-- An entry goes, and the mark with it. -/
theorem Tagged.left (hp : p.Tagged) (hn : p.entries.Nodup) (hes : p.entries.Perm (id :: q.entries))
    (hm : ∀ k, q.isMarked k = true ↔ p.isMarked k = true ∧ k ≠ id) : q.Tagged := by
  obtain ⟨hgone, -⟩ := List.nodup_cons.mp (hes.nodup_iff.mp hn)
  intro k
  rw [hm, hp, hes.mem_iff, List.mem_cons]
  constructor
  · rintro ⟨rfl | hk, hne⟩
    · exact absurd rfl hne
    · exact hk
  · rintro hk
    exact ⟨Or.inr hk, fun heq => hgone (heq ▸ hk)⟩

/-- An entry comes, and the mark with it. -/
theorem Tagged.entered (hp : p.Tagged) (hes : q.entries.Perm (id :: p.entries))
    (hm : ∀ k, q.isMarked k = true ↔ k = id ∨ p.isMarked k = true) : q.Tagged := by
  intro k
  rw [hm, hp, hes.mem_iff, List.mem_cons]

theorem isMarked_offer (p : Pool) (t : Thread) (id : HandleId) :
    (p.offer t id).2.isMarked = p.isMarked := by
  simp only [offer]
  split <;> exact isMarked_of_same rfl rfl

theorem Tagged.available (hp : p.Tagged) (hl : p.Lineup) (ho : p.closed = false) (hid : id ∈ p.ids)
    (t : Thread) : (p.available t id).Tagged := by
  simp only [Pool.available]
  split
  · exact hp
  · have hes := entries_offer hl ho t id
    rw [← entries_offer_modify p (fun h => { h with queued := true }) t id id] at hes
    refine hp.entered hes fun k => ?_
    rw [isMarked_offer]
    exact isMarked_mark hid

theorem Tagged.conclude (hp : p.Tagged) (c : Creation) (e : Option String) :
    (p.concludeCreation c e).Tagged := by
  refine hp.of_same (isMarked_of_same ?_ ?_) (frame_conclude c e).entries
  · simp only [concludeCreation]
    cases c.acquirer <;> rfl
  · simp only [concludeCreation]
    cases c.acquirer <;> rfl

theorem isMarked_cacheLocally (p : Pool) (t : Thread) (id : HandleId) :
    (p.cacheLocally t id).isMarked = p.isMarked := by
  simp only [cacheLocally]
  split
  · exact isMarked_modify p id (fun h => { h with cachedBy := some t }) fun _ => ⟨rfl, rfl⟩
  · rfl

theorem Tagged.homecoming (hp : p.Tagged) (t : Thread) (id : HandleId) :
    (p.homecoming t id).Tagged := by
  have hcleared : (p.clearOwner id).Tagged :=
    hp.modify id (fun h => { h with owner := none }) fun _ => ⟨rfl, rfl⟩
  have htouched : ((p.clearOwner id).touch id).Tagged :=
    (hcleared.modify id (fun h => { h with lastAccess := p.clock }) fun _ => ⟨rfl, rfl⟩).of_same
      rfl rfl
  have hmoved : (((p.clearOwner id).touch id).restate id .checkedOut .checkedIn).Tagged :=
    (htouched.modify id (fun h => { h with state := .checkedIn }) fun _ => ⟨rfl, rfl⟩).of_same
      rfl rfl
  have hframe := cacheLocally_frame (p := (((p.clearOwner id).touch id).restate id .checkedOut
    .checkedIn).count fun n => { n with returned := n.returned + 1 }) t id
  exact hmoved.of_same (isMarked_cacheLocally _ t id) hframe.entries

theorem ids_modifyHandle (p : Pool) (id : HandleId) (f : Handle → Handle)
    (hf : ∀ h, (f h).id = h.id) :
    (p.modifyHandle id f).ids = p.ids :=
  Keyed.map_key_replace hf

theorem ids_homecoming (p : Pool) (t : Thread) (id : HandleId) :
    (p.homecoming t id).ids = p.ids := by
  have hcleared : (p.clearOwner id).ids = p.ids :=
    ids_modifyHandle p id (fun h => { h with owner := none }) fun _ => rfl
  have htouched : ((p.clearOwner id).touch id).ids = (p.clearOwner id).ids :=
    ids_modifyHandle (p.clearOwner id) id (fun h => { h with lastAccess := p.clock }) fun _ => rfl
  have hmoved : (((p.clearOwner id).touch id).restate id .checkedOut .checkedIn).ids = p.ids :=
    (ids_modifyHandle ((p.clearOwner id).touch id) id (fun h => { h with state := .checkedIn })
      fun _ =>
      rfl).trans (htouched.trans hcleared)
  simp only [homecoming, cacheLocally]
  split
  · exact (ids_modifyHandle _ id (fun h => { h with cachedBy := some t }) fun _ => rfl).trans hmoved
  · exact hmoved

theorem ids_arrival (p : Pool) (x : Connection) :
    (p.arrival x).ids = p.ids ++ [⟨p.nextHandle⟩] := by
  have hmoved : ((p.enroll x).restate ⟨p.nextHandle⟩ .new .checkedIn).ids = (p.enroll x).ids :=
    ids_modifyHandle (p.enroll x) _ (fun h => { h with state := .checkedIn }) fun _ => rfl
  have htouched : (p.arrival x).ids = ((p.enroll x).restate ⟨p.nextHandle⟩ .new .checkedIn).ids :=
    ids_modifyHandle _ _ (fun h => { h with lastAccess := p.clock }) fun _ => rfl
  exact htouched.trans (hmoved.trans List.map_append)

/-- Parking takes an entry along at most. -/
theorem entries_park (hp : p.Lineup) (ho : p.closed = false) {a : Acquirer}
    (hw : a.waiting = .parked)
    (ha : ∀ b ∈ p.acquirers, b.taker.id = a.taker.id → b.stance = a.stance) :
    (p.park a).entries.Perm p.entries := by
  simp only [park]
  split
  · simp only [entries, stance_handle, stances_renewed ha]
    exact List.Perm.refl _
  · obtain ⟨h', rs', -, -, ⟨hnil, hnil', -, htake⟩ | ⟨x, hperm, -, htake⟩⟩ :=
      Handoff.take_cases hp.numbered (hp.isClosed_eq.trans ho) p.recents a.taker
    · rw [htake]
      refine entries_joined ?_
      rw [hnil, hnil', hw]
      exact List.Perm.refl _
    · rw [htake]
      exact entries_joined (a := { a with waiting := .served x })
        ((List.perm_append_singleton x _).trans hperm.symm)

theorem isMarked_park (p : Pool) (a : Acquirer) : (p.park a).isMarked = p.isMarked := by
  simp only [park]
  split
  · rfl
  · split <;> rfl

/-- A thread that looks through its own list changes no mark and no entry. -/
theorem takeLocal_tagged {t : Thread} (hp : p.Tagged) : (p.takeLocal t).2.Tagged := by
  obtain ⟨rs, hnone⟩ | ⟨n, rs, -, hsome⟩ := p.takeLocal_cases t
  · rw [hnone]
    exact hp.of_same rfl rfl
  · rw [hsome]
    have hlooked : Tagged { p with recents := rs } := hp.of_same rfl rfl
    rcases transition_cases { p with recents := rs }
      ⟨n⟩ .checkedIn .checkedOut with hlost | ⟨-, -, hwon⟩
    · rw [hlost]
      exact hlooked
    · rw [hwon]
      exact hlooked.restate ⟨n⟩ .checkedIn .checkedOut

/-- An entry that is taken out of the handoff takes the mark along. -/
theorem Tagged.take (hp : p.Tagged) (hl : p.Lineup) {t : Thread} {h' : Handoff HandleId}
    {rs' : Recents}
    (htake : p.handoff.tryTake p.recents t = (some id, h', rs')) :
    ({ p with handoff := h', recents := rs' }.unqueue id).Tagged := by
  have hperm := (hl.take htake).2
  exact hp.left hl.entries_nodup (hperm.append_right _) fun _ =>
    isMarked_unqueue (p := { p with handoff := h', recents := rs' })

/-- An acquirer that was served takes his entry along, and the mark goes. -/
theorem Tagged.leave_served (hp : p.Tagged) (hl : p.Lineup) {a : Acquirer} (ha : a ∈ p.acquirers)
    (hw : a.waiting = .served id) : ((p.leave a.taker.id).unqueue id).Tagged :=
  hp.left hl.entries_nodup (entries_leave_served hl ha hw) fun _ =>
    isMarked_unqueue (p := p.leave a.taker.id)

/-- Marks tell of entries after every step, if they did before it. -/
theorem Step.tagged (h : Step who p q) (hp : p.Sound) (ht : p.Tagged) : q.Tagged := by
  have gone : ∀ {r : Pool} {k : Handle}, r.handles = p.handles → r.strays = p.strays →
      r.entries = p.entries → k ∈ p.handles → (r.remove k).Tagged := by
    intro r k hh hs hes hk
    refine (ht.of_same (isMarked_of_same hh hs) hes).of_marks (fun _ => ?_) fun _ => Iff.rfl
    have hids : r.ids.Nodup := by
      simp only [ids, hh]
      exact ids_nodup hp.books.fitting
    exact isMarked_remove hids (hh ▸ hk)
  cases h with
  | hush same =>
    have hhandles := eq_of_muted Pool.handles (fun _ => rfl) same
    have hstrays := eq_of_muted Pool.strays (fun _ => rfl) same
    exact ht.of_same (isMarked_of_same hhandles hstrays) (eq_of_muted entries (fun _ => rfl) same)
  | touch id =>
    exact (ht.modify id (fun h => { h with lastAccess := p.clock }) fun _ => ⟨rfl, rfl⟩).of_same
      rfl rfl
  | forget nothing => exact takeLocal_tagged ht
  | exhaust take =>
    have hnil := (hp.lineup.exhaust take).2
    have hnil' := List.subset_nil.mp (hnil ▸ tryTake_queued hp.lineup take)
    refine ht.of_same (isMarked_of_same rfl rfl) ?_
    simp only [entries, hnil, hnil']
  | skip take stale => exact ht.take hp.lineup take
  | leave self unserved => exact ht.of_same rfl (entries_leave unserved)
  | miss self mem served stale => exact ht.leave_served hp.lineup mem served
  | park self isOpen parked drawn same =>
    have hes := entries_park hp.lineup isOpen parked same
    exact ht.of_marks (fun k => by rw [isMarked_park]) fun k => hes.mem_iff
  | @lend id h c e isOpen find active full =>
    exact (ht.modify id (fun h => { h with slot := none }) fun _ => ⟨rfl, rfl⟩).of_same rfl rfl
  | @giveUp l mem =>
    exact (ht.modify l.handle (fun h => { h with slot := some l.connection }) fun _ =>
      ⟨rfl, rfl⟩).of_same rfl rfl
  | @comeBack id h c t isOpen find active full =>
    have hid : id ∈ (p.homecoming t id).ids := by
      obtain ⟨hmem, rfl⟩ := mem_of_find find
      rw [ids_homecoming]
      exact List.mem_map_of_mem hmem
    exact (ht.homecoming t id).available (homecoming_lineup hp.lineup t id)
      ((homecoming_closed t id).trans isOpen) hid t
  | expel reason find full => exact gone rfl rfl rfl (mem_of_find find).1
  | letGo mem find => exact gone rfl rfl rfl (mem_of_find find).1
  | @probe id h c c' find full same =>
    exact ht.modify id (fun h => { h with slot := some c' }) fun _ => ⟨rfl, rfl⟩
  | @miscarry c cs e first =>
    have hforgone : p.tried.forgo.Tagged := ht.of_same rfl rfl
    exact hforgone.conclude c (some e)
  | abandon n =>
    refine ht.of_same (isMarked_of_same ?_ ?_) (frame_abandon n).entries
    · simp only [Pool.abandon]
      split
      · next creation _ _ => cases creation.acquirer <;> rfl
      · rfl
    · simp only [Pool.abandon]
      split
      · next creation _ _ => cases creation.acquirer <;> rfl
      · rfl
  | _ => exact ht.of_same rfl rfl

theorem Steps.tagged (h : Steps who p q) (hp : p.Sound) (ht : p.Tagged) : q.Tagged := by
  induction h with
  | refl => exact ht
  | tail first last ih => exact last.tagged (Steps.sound first hp) ih

theorem Claim.tagged (h : Claim who p id q) (hp : p.Sound) (ht : p.Tagged) : q.Tagged := by
  cases h with
  | @own t q take =>
    have hlooked := takeLocal_tagged (t := t) ht
    rw [take] at hlooked
    exact hlooked
  | queued take claim =>
    obtain ⟨k, -, -, rfl⟩ := claim_eq claim
    exact (ht.take hp.lineup take).restate id .checkedIn .checkedOut
  | served self mem served claim =>
    obtain ⟨k, -, -, rfl⟩ := claim_eq claim
    exact (ht.leave_served hp.lineup mem served).restate id .checkedIn .checkedOut

theorem Tagged.handOver (ht : p.Tagged) (t : Thread) (started : Nat) (id : HandleId)
    (c : Connection) :
    (p.handOver t started id c).Tagged := by
  have howned : (p.modifyHandle id fun h => { h with owner := some ⟨t, p.clock⟩ }).Tagged :=
    ht.modify id (fun h => { h with owner := some ⟨t, p.clock⟩ }) fun _ => ⟨rfl, rfl⟩
  have htouched := howned.modify id (fun h => { h with lastAccess := p.clock }) fun _ => ⟨rfl, rfl⟩
  have hassigned : (p.assign t started id).Tagged := htouched.of_same rfl rfl
  exact (hassigned.modify id (fun h => { h with slot := none }) fun _ => ⟨rfl, rfl⟩).of_same rfl rfl

theorem Lend.tagged (h : Lend who p q) (hp : p.Sound) (ht : p.Tagged) : q.Tagged := by
  obtain @⟨id, m, k, c, t, started, claim, find, full⟩ := h
  exact (claim.tagged hp ht).handOver t started id c

/-- A new handle has neither a mark nor an entry before it is published. -/
theorem Tagged.arrival (ht : p.Tagged) (x : Connection) : (p.arrival x).Tagged := by
  have henrolled : (p.enroll x).Tagged := by
    refine ht.of_marks (fun k => ?_) fun k => Iff.rfl
    rw [isMarked_iff, isMarked_iff]
    simp [enroll]
  have hmoved := henrolled.restate ⟨p.nextHandle⟩ .new .checkedIn
  exact (hmoved.modify ⟨p.nextHandle⟩ (fun h => { h with lastAccess := p.clock }) fun _ =>
    ⟨rfl, rfl⟩).of_same rfl rfl

theorem birth_tagged (hp : p.Sound) (ht : p.Tagged) (c : Creation) (x : Connection) :
    (p.birth c x).Tagged := by
  simp only [birth]
  split
  · have hfresh : ∀ h ∈ p.handles, h.id ≠ ⟨p.nextHandle⟩ := id_ne_next hp.books.fitting
    have hsame := stillbear_handles (p := p.tried) hfresh x
    have hstill : (p.tried.stillbear x).Tagged := ht.of_same (isMarked_of_same hsame rfl) rfl
    exact hstill.conclude c none
  · next hc =>
    have hopen : p.closed = false := by simpa using hc
    have hid : ⟨p.nextHandle⟩ ∈ (p.tried.arrival x).ids := by
      rw [ids_arrival]
      exact List.mem_append_right _ (List.mem_singleton_self _)
    have htried : p.tried.Tagged := ht.of_same rfl rfl
    have hborn : (p.tried.bear x).Tagged :=
      (htried.arrival x).available (arrival_lineup hp.lineup.tried x) hopen hid .background
    exact hborn.conclude c none

theorem isMarked_foldl_unqueue (is : List HandleId) :
    (is.foldl unqueue p).isMarked k = true ↔ p.isMarked k = true ∧ k ∉ is := by
  induction is generalizing p with
  | nil => simp
  | cons id is ih =>
    rw [List.foldl_cons, ih, isMarked_unqueue, List.mem_cons, not_or, and_assoc]

/-- The entries that a closing takes out of the handoff take their marks along. -/
theorem shut_tagged (hp : p.Lineup) (ht : p.Tagged) : p.shut.Tagged := by
  have hes := entries_shut hp
  have hdrained : p.handoff.close.1 = p.handoff.toList := by
    obtain ⟨h', -, -, -, -, hclose⟩ := Handoff.close_cases p.handoff
    rw [hclose]
  have hmarks : ∀ k, p.shut.isMarked k = true ↔ p.isMarked k = true ∧ k ∉ p.handoff.toList := by
    intro k
    have hsame :
      p.shut.isMarked = (p.handoff.close.1.foldl unqueue { p with closed := true }).isMarked :=
      isMarked_of_same rfl rfl
    rw [hsame, isMarked_foldl_unqueue, hdrained]
    rfl
  obtain ⟨-, -, hapart⟩ := List.nodup_append.mp hp.entries_nodup
  intro k
  rw [hmarks, ht, show p.shut.entries = _ from hes, entries, List.mem_append]
  constructor
  · rintro ⟨hin | hin, hout⟩
    · exact absurd hin hout
    · exact hin
  · exact fun hin => ⟨Or.inr hin, fun hq => hapart k hq k hin rfl⟩

theorem Course.tagged (h : Course who p bs q) (hp : p.Settled) (ht : p.Tagged) : q.Tagged := by
  cases h with
  | calm steps => exact steps.tagged hp.sound ht
  | lent before lend after same =>
    have hm := hp.steps before
    have hlent := lend.lent hm.sound hm.final
    exact after.tagged hlent.sound (lend.tagged hm.sound (before.tagged hp.sound ht))
  | birth before first serial after same =>
    have hm := before.sound hp.sound
    exact after.tagged (birth_sound hm first serial)
      (birth_tagged hm (before.tagged hp.sound ht) _ _)
  | closing before isOpen after final =>
    have hm := before.sound hp.sound
    exact after.tagged (shut_sound hm) (shut_tagged hm.lineup (before.tagged hp.sound ht))

theorem Tagged.after (ht : p.Tagged) (hp : p.Settled) (ops : List Operation) :
    (p.after ops).Tagged := by
  induction ops generalizing p with
  | nil => exact ht
  | cons op ops ih => exact ih ((op.course hp.sound hp.final).tagged hp ht) (hp.run op)

theorem tagged_of_build {c : Config} {f : Factory} {ls : List Listener} {us : Units}
    (hb : build c f ls us = .ok (some p)) : p.Tagged := by
  obtain ⟨bus, rfl⟩ := build_eq hb
  have hnew : (new c f ls us bus).Tagged := by
    intro k
    have hentries : (new c f ls us bus).entries = [] := by
      simp only [entries, new, toList_new, List.nil_append, List.filterMap_nil]
    rw [hentries]
    exact iff_of_false Bool.false_ne_true List.not_mem_nil
  exact (steps_start (new c f ls us bus)).tagged (settled_new c f ls us bus).sound hnew

/-- No acquirer has been handed an entry that it has not looked at yet. -/
def Rested (p : Pool) : Prop := ∀ a ∈ p.acquirers, a.waiting.handle? = none

theorem Rested.entries (h : p.Rested) : p.entries = p.handoff.toList := by
  have hnone : p.acquirers.filterMap (·.waiting.handle?) = [] := List.filterMap_eq_nil_iff.mpr h
  rw [Pool.entries, hnone, List.append_nil]

/-- What marks, entries and idle handles have to do with each other. Where an acquirer was handed an
entry and has not looked at it yet, that entry counts with those that are queued. -/
structure Enqueued (p : Pool) : Prop where
  once : ∀ id, p.handoff.toList.count id ≤ 1
  marked_iff : p.Rested → ∀ id, p.isMarked id = true ↔ id ∈ p.handoff.toList
  idle_queued : p.Rested → p.closed = false → ∀ h ∈ p.handles, h.state = .checkedIn →
    h.queued = true ∧ h.id ∈ p.handoff.toList
  once_in_hand : ∀ id, p.entries.count id ≤ 1
  marked_in_hand : ∀ id, p.isMarked id = true ↔ id ∈ p.entries
  idle_in_hand : p.closed = false → ∀ h ∈ p.handles, h.state = .checkedIn →
    h.queued = true ∧ h.id ∈ p.entries
  /-- Nothing is queued in a closed pool, and nothing is marked. -/
  emptied : p.closed = true → p.handoff.toList = []
  unmarked : p.Rested → p.closed = true →
    (∀ id, p.isMarked id = false) ∧ ∀ h ∈ p.handles, h.queued = false

/-- Whatever was done to a pool of any strategy, each handle that it ever made is queued at most
once and marked if and only if it is queued, and every idle one of an open pool is. A closed pool
has no marks left. -/
theorem marks_tell_entries {c : Config} {f : Factory} {ls : List Listener} {us : Units}
    (hb : build c f ls us = .ok (some p)) (ops : List Operation) : Enqueued (p.after ops) := by
  have hsettled := (fresh_of_build hb).settled
  have hq := (hsettled.after ops).sound
  have htagged := (tagged_of_build hb).after hsettled ops
  have horderly := ((watched_of_build hb).after ops).orderly
  generalize p.after ops = q at *
  have hqueued : q.handoff.toList.Nodup := (List.nodup_append.mp hq.lineup.entries_nodup).1
  have hidle : q.closed = false → ∀ h ∈ q.handles, h.state = .checkedIn →
      h.queued = true ∧ h.id ∈ q.entries := by
    intro ho h hh hs
    have hmark := hq.marked ho h hh hs
    exact ⟨hmark, (hq.lineup.queued_iff h hh).mp hmark⟩
  have hnil : q.closed = true → q.handoff.toList = [] := fun hc =>
    (horderly.none_left (hq.lineup.isClosed_eq.trans hc)).1
  exact {
    once := List.nodup_iff_count_le_one.mp hqueued
    marked_iff := fun hr id => hr.entries ▸ htagged id
    idle_queued := fun hr => hr.entries ▸ hidle
    once_in_hand := List.nodup_iff_count_le_one.mp hq.lineup.entries_nodup
    marked_in_hand := htagged
    idle_in_hand := hidle
    emptied := hnil
    unmarked := fun hr hc => by
      have hnone : q.entries = [] := hr.entries.trans (hnil hc)
      refine ⟨fun id => ?_, fun h hh => ?_⟩
      · exact Bool.eq_false_iff.mpr fun hm => List.not_mem_nil (hnone ▸ (htagged id).mp hm)
      · exact Bool.eq_false_iff.mpr
          fun hm => List.not_mem_nil (hnone ▸ (hq.lineup.queued_iff h hh).mp hm) }

/-- A handle that is gone keeps its mark as long as its entry is queued, and loses it at the
closing. -/
theorem marks_tell_entries_of_gone :
    ∃ p, build { minSize := 1, maxSize := 1 }
    { probing := fun n => if n = 1 then .invalid else .valid }
        [] {} = .ok (some p) ∧
      Enqueued (p.after [.create, .sweep .background .validation, .create]) ∧
      Enqueued (p.after [.create, .sweep .background .validation, .create, .close]) ∧
      (p.after [.create, .sweep .background .validation, .create]).ids = [⟨2⟩] ∧
      (p.after [.create, .sweep .background .validation, .create]).isMarked ⟨1⟩ = true ∧
      (p.after [.create, .sweep .background .validation, .create, .close]).isMarked ⟨1⟩ = false :=
  ⟨_, rfl,
    @marks_tell_entries _ { minSize := 1, maxSize := 1 }
      { probing := fun n => if n = 1 then .invalid else .valid } [] {} rfl
      [.create, .sweep .background .validation, .create],
    @marks_tell_entries _ { minSize := 1, maxSize := 1 }
      { probing := fun n => if n = 1 then .invalid else .valid } [] {} rfl
      [.create, .sweep .background .validation, .create, .close], rfl, rfl, rfl⟩

end ConnPool.Pool
