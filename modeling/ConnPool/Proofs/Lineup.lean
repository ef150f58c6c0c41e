import ConnPool.Proofs.Effect

namespace ConnPool.Pool

theorem stance_taker (as : List Acquirer) :
    as.map (·.taker) = (as.map (·.stance)).map (·.1) := by
  rw [List.map_map]
  rfl

theorem stance_parked (as : List Acquirer) :
    (as.filter (·.waiting = .parked)).map (·.taker) =
      ((as.map (·.stance)).filter (·.2 = .parked)).map (·.1) := by
  rw [List.filter_map, List.map_map]
  rfl

theorem stance_handle (as : List Acquirer) :
    as.filterMap (·.waiting.handle?) = (as.map (·.stance)).filterMap (·.2.handle?) := by
  rw [List.filterMap_map]
  rfl

theorem takers_id (as : List Acquirer) : as.map (·.taker.id) = (as.map (·.taker)).map (·.id) := by
  rw [List.map_map]
  rfl

theorem Lineup.takers_of_sublist {p q : Pool} (hp : p.Lineup)
    (hs : (q.acquirers.map (·.taker)).Sublist (p.acquirers.map (·.taker)))
    (ht : p.nextTaker ≤ q.nextTaker) :
    (q.acquirers.map (·.taker.id)).Nodup ∧ ∀ a ∈ q.acquirers, a.taker.id < q.nextTaker := by
  constructor
  · rw [takers_id]
    have hids := hp.takers_nodup
    rw [takers_id] at hids
    exact hids.sublist (hs.map _)
  · intro a hmem
    obtain ⟨b, hb, hbt⟩ := List.mem_map.mp (hs.subset (List.mem_map_of_mem hmem))
    rw [← hbt]
    exact Nat.lt_of_lt_of_le (hp.takers_lt b hb) ht

/-- Every handle of `q` is one of `p` with the same mark, and idle only if it was so there. -/
def Shadows (q p : Pool) : Prop :=
  ∀ h ∈ q.handles, ∃ k ∈ p.handles,
    k.id = h.id ∧ k.queued = h.queued ∧ (h.state = .checkedIn → k.state = .checkedIn)

theorem Shadows.of_sublist {p q : Pool} (h : q.handles.Sublist p.handles) : Shadows q p :=
  fun k hk => ⟨k, h.subset hk, rfl, rfl, id⟩

theorem Shadows.trans {p q r : Pool} (h : Shadows r q) (k : Shadows q p) : Shadows r p := by
  intro x hx
  obtain ⟨y, hy, hid, hq, hs⟩ := h x hx
  obtain ⟨z, hz, hid', hq', hs'⟩ := k y hy
  exact ⟨z, hz, hid'.trans hid, hq'.trans hq, fun hidle => hs' (hs hidle)⟩

theorem shadows_modify (p : Pool) (id : HandleId) (f : Handle → Handle)
    (hf : ∀ h, (f h).id = h.id ∧ (f h).queued = h.queued ∧
      ((f h).state = .checkedIn → h.state = .checkedIn)) : Shadows (p.modifyHandle id f) p := by
  refine List.forall_mem_map.mpr fun h hh => ⟨h, hh, ?_⟩
  by_cases hid : h.id = id
  · rw [if_pos hid]
    obtain ⟨hfid, hq, hs⟩ := hf h
    exact ⟨hfid.symm, hq.symm, hs⟩
  · rw [if_neg hid]
    exact ⟨rfl, rfl, fun hs => hs⟩

/-- `q` comes from `p` without a change to the handoff, the marks or what the acquirers have come
to. Handles may go, but none becomes idle. -/
structure Frame (p q : Pool) : Prop where
  handoff : q.handoff = p.handoff
  stances : q.acquirers.map (·.stance) = p.acquirers.map (·.stance)
  closed : q.closed = p.closed
  nextHandle : p.nextHandle ≤ q.nextHandle
  nextTaker : p.nextTaker ≤ q.nextTaker
  handles : Shadows q p

theorem Frame.entries {p q : Pool} (hf : Frame p q) : q.entries = p.entries := by
  rw [Pool.entries, Pool.entries, hf.handoff, stance_handle, stance_handle, hf.stances]

theorem Lineup.frame {p q : Pool} (hp : p.Lineup) (hf : Frame p q) : q.Lineup := by
  have hentries := hf.entries
  obtain ⟨hh, ha, hc, hn, ht, hm⟩ := hf
  have htakers : q.acquirers.map (·.taker) = p.acquirers.map (·.taker) := by
    rw [stance_taker, stance_taker, ha]
  obtain ⟨hnodup, hlast⟩ := hp.takers_of_sublist (htakers ▸ List.Sublist.refl _) ht
  refine ⟨hh ▸ hp.numbered, ?_, hentries ▸ hp.entries_nodup, ?_, ?_, hnodup, hlast, ?_⟩
  · rw [hh, hc]
    exact hp.isClosed_eq
  · intro id hid
    exact Nat.lt_of_lt_of_le (hp.entries_lt id (hentries ▸ hid)) hn
  · intro h hmem
    obtain ⟨k, hk, hid, hq, -⟩ := hm h hmem
    rw [← hid, ← hq, hentries]
    exact hp.queued_iff k hk
  · rw [hh, stance_parked, ha, ← stance_parked]
    exact hp.parked_eq

theorem Lineup.tried {p : Pool} (hp : p.Lineup) : p.tried.Lineup :=
  hp.frame ⟨rfl, rfl, rfl, Nat.le_refl _, Nat.le_refl _, Shadows.of_sublist (List.Sublist.refl _)⟩

theorem Lineup.restate {p : Pool} (hp : p.Lineup) (id : HandleId) (s t : State) :
    (p.restate id s t).Lineup := by
  refine ⟨hp.numbered, hp.isClosed_eq, hp.entries_nodup, hp.entries_lt, ?_, hp.takers_nodup,
    hp.takers_lt, hp.parked_eq⟩
  refine List.forall_mem_map.mpr fun h hh => ?_
  by_cases hid : h.id = id
  · rw [if_pos hid]
    exact hp.queued_iff h hh
  · rw [if_neg hid]
    exact hp.queued_iff h hh

theorem Marked.shadows {p q : Pool} (hp : p.Marked) (hc : q.closed = p.closed) (hm : Shadows q p) :
    q.Marked := by
  intro ho h hh hs
  obtain ⟨k, hk, -, hq, hidle⟩ := hm h hh
  rw [← hq]
  exact hp (hc ▸ ho) k hk (hidle hs)

theorem Final.shadows {p q : Pool} (hp : p.Final) (hc : q.closed = p.closed) (hm : Shadows q p) :
    q.Final := by
  intro ho h hh hs
  obtain ⟨k, hk, -, -, hidle⟩ := hm h hh
  exact hp (hc ▸ ho) k hk (hidle hs)

/-- Marks of one handle change together with its entries. -/
theorem queued_modify {p : Pool} {id : HandleId} {b : Bool} {es es' : List HandleId}
    (hp : ∀ h ∈ p.handles, h.queued = true ↔ h.id ∈ es) (hb : b = true ↔ id ∈ es')
    (hes : ∀ k, k ≠ id → (k ∈ es' ↔ k ∈ es)) :
    ∀ h ∈ (p.modifyHandle id fun h => { h with queued := b }).handles,
      h.queued = true ↔ h.id ∈ es' := by
  refine List.forall_mem_map.mpr fun h hh => ?_
  by_cases hid : h.id = id
  · rw [if_pos hid]
    simpa only [hid] using hb
  · rw [if_neg hid, hes h.id hid]
    exact hp h hh

/-- The first that waits in the handoff is one of the acquirers, and waits there before all
others. -/
theorem Lineup.first_parked {p : Pool} (hp : p.Lineup) {w : Taker} {ws : List Taker}
    (hw : p.handoff.parked = w :: ws) :
    ∃ pre a post, Keyed.Between (·.taker.id) p.acquirers pre a post ∧ a.taker = w ∧
      a.waiting = .parked ∧ pre.filter (·.waiting = .parked) = [] ∧
      ws = (post.filter (·.waiting = .parked)).map (·.taker) := by
  have heq := hp.parked_eq
  rw [hw] at heq
  obtain ⟨a, as, hfilter, ha, hws⟩ := List.map_eq_cons_iff.mp heq.symm
  have hmem : a ∈ p.acquirers.filter (·.waiting = .parked) := hfilter ▸ List.mem_cons_self
  obtain ⟨hin, hparked⟩ := List.mem_filter.mp hmem
  have hwait : a.waiting = .parked := by simpa using hparked
  obtain ⟨pre, post, hb⟩ := Keyed.exists_between hp.takers_nodup hin
  rw [hb.eq, List.filter_append, List.filter_cons, if_pos hparked] at hfilter
  have hnone : pre.filter (·.waiting = .parked) = [] := by
    cases hpre : pre.filter (·.waiting = .parked) with
    | nil => rfl
    | cons b bs =>
      rw [hpre] at hfilter
      have hba : b = a := (List.cons.inj hfilter).1
      have hbmem : b ∈ pre := (List.mem_filter.mp (hpre ▸ List.mem_cons_self)).1
      exact absurd (congrArg (·.taker.id) hba) (hb.before b hbmem)
  rw [hnone, List.nil_append] at hfilter
  refine ⟨pre, a, post, hb, ha, hwait, hnone, ?_⟩
  rw [← hws, (List.cons.inj hfilter).2]

theorem promised_middle {pre post : List Acquirer} {a : Acquirer} :
    (pre ++ a :: post).filterMap (·.waiting.handle?) =
      pre.filterMap (·.waiting.handle?) ++
        (a.waiting.handle?.toList ++ post.filterMap (·.waiting.handle?)) := by
  rw [List.filterMap_append, List.filterMap_cons]
  cases a.waiting.handle? <;> rfl

/-- An entry that comes in is marked on its handle. -/
theorem Lineup.entered {p q : Pool} (hp : p.Lineup) {id : HandleId} (hid : id ∉ p.entries)
    (hlt : id.val < p.nextHandle) (hes : q.entries.Perm (id :: p.entries))
    (hh : q.handles = (p.modifyHandle id fun h => { h with queued := true }).handles)
    (hn : q.handoff.Numbered) (hc : q.handoff.isClosed = q.closed)
    (hnext : q.nextHandle = p.nextHandle)
    (hs : (q.acquirers.map (·.taker)).Sublist (p.acquirers.map (·.taker)))
    (ht : p.nextTaker ≤ q.nextTaker)
    (hpk : q.handoff.parked = (q.acquirers.filter (·.waiting = .parked)).map (·.taker)) :
    q.Lineup := by
  obtain ⟨hnodup, hlast⟩ := hp.takers_of_sublist hs ht
  refine ⟨hn, hc, ?_, ?_, ?_, hnodup, hlast, hpk⟩
  · exact hes.nodup_iff.mpr (List.nodup_cons.mpr ⟨hid, hp.entries_nodup⟩)
  · intro k hk
    rw [hnext]
    rcases List.mem_cons.mp (hes.mem_iff.mp hk) with rfl | hk
    · exact hlt
    · exact hp.entries_lt k hk
  · rw [hh]
    refine queued_modify hp.queued_iff ?_ ?_
    · exact iff_of_true rfl (hes.mem_iff.mpr List.mem_cons_self)
    · intro k hk
      exact hes.mem_iff.trans (List.mem_cons.trans (or_iff_right hk))

/-- The mark goes with the entry. -/
theorem Lineup.left {p q : Pool} (hp : p.Lineup) {id : HandleId}
    (hes : p.entries.Perm (id :: q.entries)) (hh : q.handles = (p.unqueue id).handles)
    (hn : q.handoff.Numbered) (hc : q.handoff.isClosed = q.closed)
    (hnext : q.nextHandle = p.nextHandle)
    (hs : (q.acquirers.map (·.taker)).Sublist (p.acquirers.map (·.taker)))
    (ht : p.nextTaker ≤ q.nextTaker)
    (hpk : q.handoff.parked = (q.acquirers.filter (·.waiting = .parked)).map (·.taker)) :
    q.Lineup := by
  obtain ⟨hnodup, hlast⟩ := hp.takers_of_sublist hs ht
  obtain ⟨hid, hrest⟩ := List.nodup_cons.mp (hes.nodup_iff.mp hp.entries_nodup)
  refine ⟨hn, hc, hrest, ?_, ?_, hnodup, hlast, hpk⟩
  · intro k hk
    rw [hnext]
    exact hp.entries_lt k (hes.mem_iff.mpr (List.mem_cons_of_mem _ hk))
  · rw [hh]
    refine queued_modify hp.queued_iff ?_ ?_
    · exact iff_of_false Bool.false_ne_true hid
    · intro k hk
      exact (hes.mem_iff.trans (List.mem_cons.trans (or_iff_right hk))).symm

/-- An entry that is offered stays in the handoff, or goes to the first that waits. -/
theorem entries_offer {p : Pool} (hp : p.Lineup) (ho : p.closed = false) (t : Thread)
    (id : HandleId) :
    (p.offer t id).2.entries.Perm (id :: p.entries) := by
  obtain ⟨h', rs', -, -, ⟨-, hperm, hput⟩ | ⟨w, x, hpk, hperm, hput⟩⟩ :=
    Handoff.put_cases hp.numbered (hp.isClosed_eq.trans ho) p.recents t id
  · rw [offer_kept hput]
    exact hperm.append_right _
  · obtain ⟨pre, a, post, hb, ha, hwait, -, -⟩ := hp.first_parked hpk
    have hserved := hb.replace (k := w.id) (congrArg (·.id) ha)
      fun a => { a with waiting := .served x }
    rw [offer_served hput]
    simp only [entries, deliver]
    rw [hserved, promised_middle, hb.eq, promised_middle, hwait]
    simp only [Waiting.handle?, Option.toList_some, Option.toList_none, List.nil_append,
      List.singleton_append]
    have hmid := (hperm.append_right (pre.filterMap (·.waiting.handle?) ++
      post.filterMap (·.waiting.handle?)))
    refine List.Perm.trans ?_ hmid
    rw [← List.append_assoc, ← List.append_assoc]
    exact List.perm_middle.trans (List.Perm.refl _)

/-- Where an entry goes does not depend on what is said of handles. -/
theorem entries_offer_modify (p : Pool) (f : Handle → Handle) (t : Thread) (k id : HandleId) :
    ((p.modifyHandle k f).offer t id).2.entries = (p.offer t id).2.entries := by
  have hput : (p.modifyHandle k f).handoff.put (p.modifyHandle k f).recents t id =
      p.handoff.put p.recents t id := rfl
  simp only [offer]
  rw [hput]
  split <;> rfl

/-- An idle handle without an entry gets one, which stays in the handoff or goes to the first that
waits. -/
theorem Lineup.offer {p : Pool} (hp : p.Lineup) (ho : p.closed = false) {id : HandleId}
    (hid : id ∉ p.entries) (hlt : id.val < p.nextHandle) (t : Thread) :
    ((p.modifyHandle id fun h => { h with queued := true }).offer t id).2.Lineup := by
  have hes := entries_offer hp ho t id
  rw [← entries_offer_modify p (fun h => { h with queued := true }) t id id] at hes
  obtain ⟨h', rs', hn, hc, ⟨hpk, -, hput⟩ | ⟨w, x, hpk, -, hput⟩⟩ :=
    Handoff.put_cases hp.numbered (hp.isClosed_eq.trans ho) p.recents t id
  · rw [offer_kept (p := p.modifyHandle id fun h => { h with queued := true }) hput] at hes ⊢
    exact hp.entered hid hlt hes rfl hn (hc.trans ho.symm) rfl
      (List.Sublist.refl _) (Nat.le_refl _) (hpk.trans hp.parked_eq)
  · obtain ⟨pre, a, post, hb, ha, hwait, hnone, hws⟩ := hp.first_parked hpk
    have hserved := hb.replace (k := w.id) (congrArg (·.id) ha)
      fun a => { a with waiting := .served x }
    rw [offer_served (p := p.modifyHandle id fun h => { h with queued := true }) hput] at hes ⊢
    refine hp.entered hid hlt hes rfl hn (hc.trans ho.symm) rfl ?_ (Nat.le_refl _) ?_
    · simp only [deliver, modifyHandle]
      rw [hserved, hb.eq]
      simp
    · simp only [deliver, modifyHandle]
      rw [hserved, List.filter_append, List.filter_cons, hnone]
      simpa using hws

/-- An entry that is taken out of the handoff loses its mark. -/
theorem Lineup.take {p : Pool} (hp : p.Lineup) {t : Thread} {id : HandleId} {h' : Handoff HandleId}
    {rs' : Recents} (htake : p.handoff.tryTake p.recents t = (some id, h', rs')) :
    ({ p with handoff := h', recents := rs' }.unqueue id).Lineup ∧
      p.handoff.toList.Perm (id :: h'.toList) := by
  obtain ⟨h'', rs'', hn, hpk, hc, ⟨-, -, hnone⟩ | ⟨x, hperm, hsome⟩⟩ :=
    Handoff.tryTake_cases hp.numbered p.recents t
  · rw [htake] at hnone
    cases hnone
  · rw [htake] at hsome
    cases hsome
    refine ⟨?_, hperm⟩
    exact hp.left (hperm.append_right _) rfl hn (hc.trans hp.isClosed_eq) rfl (List.Sublist.refl _)
      (Nat.le_refl _) (hpk.trans hp.parked_eq)

theorem Lineup.exhaust {p : Pool} (hp : p.Lineup) {t : Thread} {h' : Handoff HandleId}
    {rs' : Recents} (htake : p.handoff.tryTake p.recents t = (none, h', rs')) :
    Lineup { p with handoff := h', recents := rs' } ∧ p.handoff.toList = [] := by
  obtain ⟨h'', rs'', hn, hpk, hc, ⟨hnil, hnil', hnone⟩ | ⟨x, hperm, hsome⟩⟩ :=
    Handoff.tryTake_cases hp.numbered p.recents t
  · rw [htake] at hnone
    cases hnone
    have hes : Pool.entries { p with handoff := h', recents := rs' } = p.entries := by
      simp only [entries, hnil, hnil']
    refine ⟨⟨hn, hc.trans hp.isClosed_eq, hes ▸ hp.entries_nodup, hes ▸ hp.entries_lt, ?_,
      hp.takers_nodup, hp.takers_lt, hpk.trans hp.parked_eq⟩, hnil⟩
    rw [hes]
    exact hp.queued_iff
  · rw [htake] at hsome
    cases hsome

theorem parked_leave {p : Pool} (hp : p.Lineup) (id : Nat) :
    (p.leave id).handoff.parked =
      ((p.leave id).acquirers.filter (·.waiting = .parked)).map (·.taker) := by
  simp only [leave, Handoff.parked_withdraw, hp.parked_eq, List.filter_map, List.filter_filter]
  congr 1
  refine List.filter_congr fun a _ => ?_
  simp only [Function.comp, Bool.and_comm]

/-- An acquirer that was not served takes no entry along. -/
theorem entries_leave {p : Pool} {id : Nat}
    (hw : ∀ a ∈ p.acquirers, a.taker.id = id → a.waiting.handle? = none) :
    (p.leave id).entries = p.entries := by
  have hpromised : ∀ as : List Acquirer,
      (∀ a ∈ as, a.taker.id = id → a.waiting.handle? = none) →
      (as.filter (·.taker.id ≠ id)).filterMap (·.waiting.handle?) =
        as.filterMap (·.waiting.handle?) := by
    intro as has
    rw [List.filterMap_filter]
    refine List.filterMap_congr fun a ha => ?_
    by_cases hid : a.taker.id = id
    · simp [hid, has a ha hid]
    · simp [hid]
  simp only [entries, Pool.leave, Handoff.toList_withdraw, hpromised p.acquirers hw]

/-- An acquirer that was not served leaves no entry behind. -/
theorem Lineup.leave {p : Pool} (hp : p.Lineup) {id : Nat}
    (hw : ∀ a ∈ p.acquirers, a.taker.id = id → a.waiting.handle? = none) : (p.leave id).Lineup := by
  have hes := entries_leave hw
  have hsub : ((p.leave id).acquirers.map (·.taker)).Sublist (p.acquirers.map (·.taker)) :=
    List.filter_sublist.map _
  obtain ⟨hnodup, hlast⟩ := hp.takers_of_sublist hsub (Nat.le_refl _)
  refine ⟨hp.numbered.withdraw id, ?_, hes ▸ hp.entries_nodup, hes ▸ hp.entries_lt, ?_, hnodup,
    hlast, parked_leave hp id⟩
  · exact (Handoff.isClosed_withdraw _ _).trans hp.isClosed_eq
  · rw [hes]
    exact hp.queued_iff

/-- An acquirer that was served takes its entry along. -/
theorem entries_leave_served {p : Pool} (hp : p.Lineup) {a : Acquirer} (ha : a ∈ p.acquirers)
    {id : HandleId} (hw : a.waiting = .served id) :
    p.entries.Perm (id :: ((p.leave a.taker.id).unqueue id).entries) := by
  obtain ⟨pre, post, hb⟩ := Keyed.exists_between hp.takers_nodup ha
  have herase := hb.erase rfl
  simp only [entries, unqueue, modifyHandle, Pool.leave, Handoff.toList_withdraw]
  rw [herase, hb.eq, promised_middle, hw, List.filterMap_append]
  simp only [Waiting.handle?, Option.toList_some, List.singleton_append]
  rw [← List.append_assoc, ← List.append_assoc]
  exact List.perm_middle

theorem Lineup.leave_served {p : Pool} (hp : p.Lineup) {a : Acquirer} (ha : a ∈ p.acquirers)
    {id : HandleId} (hw : a.waiting = .served id) : ((p.leave a.taker.id).unqueue id).Lineup := by
  refine hp.left (entries_leave_served hp ha hw) rfl (hp.numbered.withdraw _) ?_ rfl
    (List.filter_sublist.map _) (Nat.le_refl _) (parked_leave hp _)
  exact (Handoff.isClosed_withdraw _ _).trans hp.isClosed_eq

/-- What a new acquirer takes along at once was there before. -/
theorem entries_joined {p : Pool} {a : Acquirer} {h' : Handoff HandleId} {rs' : Recents}
    (hes : (h'.toList ++ a.waiting.handle?.toList).Perm p.handoff.toList) :
    (Pool.entries { p with
      handoff := h', recents := rs', acquirers := p.acquirers ++ [a] }).Perm p.entries := by
  simp only [entries, promised_middle, List.filterMap_nil, List.append_nil]
  refine (List.perm_append_comm.append_left _).trans ?_
  rw [← List.append_assoc]
  exact hes.append_right _

/-- One more acquirer, who takes his place behind the others. -/
theorem Lineup.joined {p : Pool} (hp : p.Lineup) {a : Acquirer} {h' : Handoff HandleId}
    {rs' : Recents} (hn : h'.Numbered) (hc : h'.isClosed = p.closed)
    (hes : (h'.toList ++ a.waiting.handle?.toList).Perm p.handoff.toList)
    (hpk : h'.parked = p.handoff.parked ++ ([a].filter (·.waiting = .parked)).map (·.taker))
    (hlt : a.taker.id < p.nextTaker) (ha : ∀ b ∈ p.acquirers, b.taker.id ≠ a.taker.id) :
    Lineup { p with handoff := h', recents := rs', acquirers := p.acquirers ++ [a] } := by
  have hperm : (Pool.entries { p with
      handoff := h', recents := rs', acquirers := p.acquirers ++ [a] }).Perm p.entries :=
    entries_joined hes
  refine ⟨hn, hc, hperm.nodup_iff.mpr hp.entries_nodup, ?_, ?_, ?_, ?_, ?_⟩
  · intro k hk
    exact hp.entries_lt k (hperm.mem_iff.mp hk)
  · intro h hh
    exact (hp.queued_iff h hh).trans hperm.mem_iff.symm
  · rw [List.map_append]
    refine List.nodup_append.mpr ⟨hp.takers_nodup, List.nodup_singleton _, ?_⟩
    intro n hn k hk he
    obtain ⟨b, hb, rfl⟩ := List.mem_map.mp hn
    exact ha b hb (he.trans (List.mem_singleton.mp hk))
  · simp only [List.forall_mem_append, List.forall_mem_singleton]
    exact ⟨hp.takers_lt, hlt⟩
  · simp only [List.filter_append, List.map_append, hpk, hp.parked_eq]

/-- An acquirer that is put in its own place stands as it did. -/
theorem stances_renewed {as : List Acquirer} {a : Acquirer}
    (ha : ∀ b ∈ as, b.taker.id = a.taker.id → b.stance = a.stance) :
    (as.map fun b => if b.taker.id = a.taker.id then a else b).map (·.stance) =
      as.map (·.stance) := by
  rw [List.map_map]
  refine List.map_congr_left fun b hb => ?_
  by_cases hid : b.taker.id = a.taker.id
  · simp only [Function.comp, if_pos hid, ha b hb hid]
  · simp only [Function.comp, if_neg hid]

/-- Parking adds an acquirer to those that wait, or leaves it where it is. -/
theorem Lineup.park {p : Pool} (hp : p.Lineup) (ho : p.closed = false) {a : Acquirer}
    (hw : a.waiting = .parked) (hlt : a.taker.id < p.nextTaker)
    (ha : ∀ b ∈ p.acquirers, b.taker.id = a.taker.id → b.stance = a.stance) :
    (p.park a).Lineup := by
  simp only [Pool.park]
  split
  · exact hp.frame ⟨rfl, stances_renewed ha, rfl, Nat.le_refl _, Nat.le_refl _,
      Shadows.of_sublist (List.Sublist.refl _)⟩
  · next hnew =>
    have hfresh : ∀ b ∈ p.acquirers, b.taker.id ≠ a.taker.id := by simpa using hnew
    obtain ⟨h', rs', hn, hc, ⟨hnil, hnil', hpk, htake⟩ | ⟨x, hperm, hpk, htake⟩⟩ :=
      Handoff.take_cases hp.numbered (hp.isClosed_eq.trans ho) p.recents a.taker
    · rw [htake]
      refine hp.joined hn (hc.trans ho.symm) ?_ ?_ hlt hfresh
      · rw [hnil, hnil', hw]
        exact List.Perm.refl _
      · simp [hpk, hw]
    · rw [htake]
      refine hp.joined (a := { a with waiting := .served x }) hn (hc.trans ho.symm) ?_ ?_ hlt hfresh
      · exact (List.perm_append_singleton x _).trans hperm.symm
      · simp [hpk]

/-- The handles once one of them is published. -/
theorem available_handles {p : Pool} (hp : p.ledger.Fitting) (t : Thread) (id : HandleId) :
    (p.available t id).handles =
    (p.modifyHandle id fun h => { h with queued := true }).handles := by
  simp only [available]
  split
  · next hall =>
    cases hf : p.find? id with
    | none =>
      have hnone := List.find?_eq_none.mp hf
      exact (Keyed.map_eq_self Handle.id (fun h => { h with queued := true })
        fun h hh => by simpa using hnone h hh).symm
    | some h =>
      obtain ⟨pre, post, hb, hid⟩ := between_of_find hp hf
      have hq : h.queued = true := by simpa [hf] using hall
      have hsame : { h with queued := true } = h := by rw [← hq]
      exact (hb.eq.trans (congrArg (fun x => pre ++ x :: post) hsame).symm).trans
        (hb.replace hid fun h => { h with queued := true }).symm
  · unfold Pool.offer
    split
    split <;> rfl

theorem Lineup.available {p : Pool} (hp : p.Lineup) (hfit : p.ledger.Fitting)
    (ho : p.closed = false)
    (t : Thread) (id : HandleId) : (p.available t id).Lineup := by
  simp only [Pool.available]
  split
  · exact hp
  · next hall =>
    obtain ⟨h, hf, hq⟩ : ∃ h, p.find? id = some h ∧ h.queued = false := by
      cases hf : p.find? id with
      | none => simp [hf] at hall
      | some h => exact ⟨h, rfl, by simpa [hf] using hall⟩
    obtain ⟨hmem, rfl⟩ := mem_of_find hf
    refine hp.offer ho ?_ (hfit.ids_lt h.account (List.mem_map_of_mem hmem)) t
    intro hin
    have hmark := (hp.queued_iff h hmem).mpr hin
    rw [hq] at hmark
    cases hmark

/-- A new handle has no entry yet. -/
theorem Lineup.enroll {p : Pool} (hp : p.Lineup) (c : Connection) : (p.enroll c).Lineup := by
  refine ⟨hp.numbered, hp.isClosed_eq, hp.entries_nodup, ?_, ?_, hp.takers_nodup, hp.takers_lt,
    hp.parked_eq⟩
  · intro id hid
    exact Nat.lt_succ_of_lt (hp.entries_lt id hid)
  · refine List.forall_mem_append.mpr ⟨hp.queued_iff, List.forall_mem_singleton.mpr ?_⟩
    refine iff_of_false Bool.false_ne_true fun hid => ?_
    exact Nat.lt_irrefl _ (hp.entries_lt _ hid)

theorem foldl_unqueue (ids : List HandleId) (p : Pool) :
    ids.foldl unqueue p =
      { p with
        handles := p.handles.map fun h => if h.id ∈ ids then { h with queued := false } else h
        strays := p.strays.filter (· ∉ ids) } := by
  induction ids generalizing p with
  | nil => simp
  | cons id ids ih =>
    rw [List.foldl_cons, ih]
    have hmap : ((p.unqueue id).handles.map fun h =>
        if h.id ∈ ids then { h with queued := false } else h) =
        p.handles.map fun h => if h.id ∈ id :: ids then { h with queued := false } else h := by
      simp only [unqueue, modifyHandle, List.map_map]
      refine List.map_congr_left fun h _ => ?_
      by_cases hid : h.id = id <;> by_cases hids : h.id ∈ ids <;>
        simp_all [Function.comp]
    have hstrays : (p.unqueue id).strays.filter (· ∉ ids) = p.strays.filter (· ∉ id :: ids) := by
      simp only [unqueue, List.filter_filter]
      exact List.filter_congr fun k _ => by simp [not_or, Bool.and_comm]
    rw [hmap, hstrays]
    rfl

/-- An acquirer that a closing sends away. -/
def sentAway (a : Acquirer) : Acquirer :=
  if a.waiting = .parked then { a with waiting := .dismissed } else a

theorem sentAway_taker (a : Acquirer) : (sentAway a).taker = a.taker := by
  simp only [sentAway]
  split <;> rfl

theorem sentAway_handle (a : Acquirer) : (sentAway a).waiting.handle? = a.waiting.handle? := by
  simp only [sentAway]
  split
  · next h =>
    rw [h]
    rfl
  · rfl

theorem sentAway_not_parked (a : Acquirer) : (sentAway a).waiting ≠ .parked := by
  simp only [sentAway]
  split
  · exact Waiting.noConfusion
  · assumption

/-- Those who wait in the handoff are the acquirers that are parked. -/
theorem Lineup.any_parked {p : Pool} (hp : p.Lineup) {a : Acquirer} (ha : a ∈ p.acquirers) :
    p.handoff.parked.any (·.id = a.taker.id) = true ↔ a.waiting = .parked := by
  rw [hp.parked_eq, List.any_eq_true]
  constructor
  · rintro ⟨w, hw, hid⟩
    obtain ⟨b, hb, rfl⟩ := List.mem_map.mp hw
    obtain ⟨hbmem, hbw⟩ := List.mem_filter.mp hb
    have hba : b = a :=
      Keyed.unique (fun a : Acquirer => a.taker.id) hp.takers_nodup hbmem ha (by simpa using hid)
    rw [← hba]
    simpa using hbw
  · intro hw
    exact ⟨a.taker, List.mem_map_of_mem (List.mem_filter.mpr ⟨ha, by simpa using hw⟩), by simp⟩

/-- The pool once its handoff is closed. -/
theorem closeHandoff_eq {p : Pool} (hp : p.Lineup) :
    ∃ h', h'.Numbered ∧ h'.isClosed = true ∧ h'.toList = [] ∧ h'.parked = [] ∧
      closeHandoff { p with closed := true } =
        { p with
          closed := true
          handoff := h'
          handles := p.handles.map fun h =>
            if h.id ∈ p.handoff.toList then { h with queued := false } else h
          strays := p.strays.filter (· ∉ p.handoff.toList)
          acquirers := p.acquirers.map sentAway } := by
  obtain ⟨h', hn, hc, hnil, hpk, hclose⟩ := Handoff.close_cases p.handoff
  refine ⟨h', hn, hc, hnil, hpk, ?_⟩
  simp only [closeHandoff]
  rw [hclose]
  have haway : (p.acquirers.map fun a =>
      if p.handoff.parked.any (·.id = a.taker.id) then { a with waiting := .dismissed } else a) =
      p.acquirers.map sentAway := by
    refine List.map_congr_left fun a ha => ?_
    simp only [sentAway]
    by_cases hw : a.waiting = .parked
    · rw [if_pos ((hp.any_parked ha).mpr hw), if_pos hw]
    · rw [if_neg fun h => hw ((hp.any_parked ha).mp h), if_neg hw]
  simp only [foldl_unqueue, dismiss, haway]

/-- What the handoff has is gone once it is closed; who was served keeps his entry. -/
theorem entries_shut {p : Pool} (hp : p.Lineup) :
    (closeHandoff { p with closed := true }).entries = p.acquirers.filterMap
    (·.waiting.handle?) := by
  obtain ⟨h', -, -, hnil, -, heq⟩ := closeHandoff_eq hp
  rw [heq]
  simp only [entries, hnil, List.nil_append, List.filterMap_map]
  exact List.filterMap_congr fun a _ => sentAway_handle a

/-- Closing the handoff takes out its entries with their marks, and lets everyone go who waits
there. -/
theorem Lineup.shut {p : Pool} (hp : p.Lineup) :
    (closeHandoff { p with closed := true }).Lineup := by
  obtain ⟨h', hn, hc, hnil, hpk, heq⟩ := closeHandoff_eq hp
  have hshut := entries_shut hp
  rw [heq] at hshut ⊢
  have htakers : (p.acquirers.map sentAway).map (·.taker) = p.acquirers.map (·.taker) := by
    rw [List.map_map]
    exact List.map_congr_left fun a _ => sentAway_taker a
  obtain ⟨hnodup, hlast⟩ := hp.takers_of_sublist
    (q := { p with acquirers := p.acquirers.map sentAway }) (htakers ▸ List.Sublist.refl _)
    (Nat.le_refl _)
  have hes := hp.entries_nodup
  have hqi := hp.queued_iff
  simp only [entries] at hes hqi
  obtain ⟨hleft, hright, hdisj⟩ := List.nodup_append.mp hes
  refine ⟨hn, hc, ?_, ?_, ?_, hnodup, hlast, ?_⟩
  · rw [hshut]
    exact hright
  · intro k hk
    rw [hshut] at hk
    exact hp.entries_lt k (List.mem_append_right _ hk)
  · rw [hshut]
    refine List.forall_mem_map.mpr fun h hh => ?_
    by_cases hid : h.id ∈ p.handoff.toList
    · rw [if_pos hid]
      exact iff_of_false Bool.false_ne_true fun hk => hdisj _ hid _ hk rfl
    · rw [if_neg hid]
      exact (hqi h hh).trans (List.mem_append.trans (or_iff_right hid))
  · have hnone : (p.acquirers.map sentAway).filter (·.waiting = .parked) = [] := by
      refine List.filter_eq_nil_iff.mpr fun b hb => ?_
      obtain ⟨a, -, rfl⟩ := List.mem_map.mp hb
      simpa using sentAway_not_parked a
    rw [hnone]
    exact hpk

end ConnPool.Pool
