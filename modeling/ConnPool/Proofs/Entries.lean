import ConnPool.Proofs.Capacity
import ConnPool.Proofs.Conservation
import ConnPool.Proofs.Reach
import ConnPool.Proofs.WaiterProgress

namespace ConnPool

/-- No handle comes but by a birth. -/
theorem Ledger.Move.present {l m : Ledger} {bs : List Birth} (h : Move l bs m) :
    m.accounts.map (·.id) ⊆ l.accounts.map (·.id) ++ bs.map (·.handle) := by
  cases h with
  | reserve | miscarry | stillborn => exact List.subset_append_left _ _
  | born => exact List.map_append ▸ List.Subset.refl _
  | claim full | lend full | giveUp full | comeBack full =>
    rw [full]
    simp only [List.map_append, List.map_cons]
    exact List.subset_append_left _ _
  | expel full | detach full =>
    rw [full]
    refine List.subset_append_of_subset_left _ (List.Sublist.map _ ?_).subset
    exact (List.sublist_cons_self ..).append_left _

theorem Ledger.Moves.present {l m : Ledger} {bs : List Birth} (h : Moves l bs m) :
    m.accounts.map (·.id) ⊆ l.accounts.map (·.id) ++ bs.map (·.handle) := by
  induction h with
  | refl l => exact List.subset_append_left _ _
  | step first rest ih =>
    rw [List.map_append, ← List.append_assoc]
    refine List.Subset.trans ih (List.append_subset.mpr ⟨?_, List.subset_append_right _ _⟩)
    exact List.subset_append_of_subset_left _ first.present

namespace Pool

variable {who : Option Nat} {p q r : Pool} {is js : List HandleId} {id : HandleId} {bs : List Birth}

def ids (p : Pool) : List HandleId := p.handles.map (·.id)

theorem present_of_moves (h : Ledger.Moves p.ledger bs q.ledger) :
    q.ids ⊆ p.ids ++ bs.map (·.handle) := by
  have hids : ∀ r : Pool, r.ids = r.ledger.accounts.map (·.id) := fun r => by
    simp only [ids, ledger, List.map_map]
    rfl
  rw [hids, hids]
  exact h.present

/-- What is queued in `q` was so in `p`, or its handle was there, or is one of those that were
made. -/
def Admits (p : Pool) (is : List HandleId) (q : Pool) : Prop :=
  ∀ id ∈ q.handoff.toList, id ∈ p.handoff.toList ∨ id ∈ p.ids ++ is

theorem Admits.trans (h : Admits p is q) (hpresent : q.ids ⊆ p.ids ++ is) (k : Admits q js r) :
    Admits p (is ++ js) r := by
  intro id hid
  rw [← List.append_assoc]
  rcases k id hid with hold | hnew
  · exact (h id hold).imp_right (List.mem_append_left js)
  · exact Or.inr (List.append_subset.mpr
      ⟨List.subset_append_of_subset_left js hpresent, List.subset_append_right _ _⟩ hnew)

theorem Admits.of_subset (h : q.handoff.toList ⊆ p.handoff.toList) : Admits p is q :=
  fun _ hid => Or.inl (h hid)

theorem tryTake_queued (hp : p.Lineup) {t : Thread} {x : Option HandleId} {h' : Handoff HandleId}
    {rs' : Recents} (htake : p.handoff.tryTake p.recents t = (x, h', rs')) :
    h'.toList ⊆ p.handoff.toList := by
  obtain ⟨h'', rs'', -, -, -, ⟨-, hnil, hnone⟩ | ⟨y, hperm, hsome⟩⟩ :=
    Handoff.tryTake_cases hp.numbered p.recents t
  · rw [htake] at hnone
    cases hnone
    rw [hnil]
    exact List.nil_subset _
  · rw [htake] at hsome
    cases hsome
    exact fun k hk => hperm.mem_iff.mpr (List.mem_cons_of_mem _ hk)

theorem park_queued (hn : p.handoff.Numbered) (ho : p.handoff.isClosed = false) (a : Acquirer) :
    (p.park a).handoff.toList ⊆ p.handoff.toList := by
  simp only [park]
  split
  · exact List.Subset.refl _
  · obtain ⟨h', rs', -, -, ⟨-, hnil, -, htake⟩ | ⟨x, hperm, -, htake⟩⟩ :=
      Handoff.take_cases hn ho p.recents a.taker
    · rw [htake]
      simp only [hnil]
      exact List.nil_subset _
    · rw [htake]
      exact fun k hk => hperm.mem_iff.mpr (List.mem_cons_of_mem _ hk)

/-- What is offered is queued, or the one that leaves for it is not. -/
theorem offer_queued (hn : p.handoff.Numbered) (ho : p.handoff.isClosed = false) (t : Thread)
    (id : HandleId) : ∀ k ∈ (p.offer t id).2.handoff.toList, k ∈ p.handoff.toList ∨ k = id := by
  intro k hk
  obtain ⟨h', rs', -, -, ⟨-, hperm, hput⟩ | ⟨w, x, -, hperm, hput⟩⟩ :=
    Handoff.put_cases hn ho p.recents t id
  · rw [offer_kept hput] at hk
    exact (List.mem_cons.mp (hperm.mem_iff.mp hk)).symm
  · rw [offer_served hput] at hk
    exact (List.mem_cons.mp (hperm.mem_iff.mp (List.mem_cons_of_mem _ hk))).symm

theorem available_queued (hn : p.handoff.Numbered) (ho : p.handoff.isClosed = false) (t : Thread)
    (id : HandleId) : ∀ k ∈ (p.available t id).handoff.toList, k ∈ p.handoff.toList ∨ k = id := by
  simp only [available]
  split
  · exact fun k hk => Or.inl hk
  · exact offer_queued (p := p.modifyHandle id fun h => { h with queued := true }) hn ho t id

/-- No step queues what is not in the collection. -/
theorem Step.admits (h : Step who p q) (hp : p.Sound) : Admits p [] q := by
  have same : ∀ {r : Pool}, r.handoff = p.handoff → Admits p [] r :=
    fun hh => .of_subset (hh ▸ List.Subset.refl _)
  cases h with
  | hush muted => exact same (eq_of_muted Pool.handoff (fun _ => rfl) muted)
  | @forget t nothing =>
    obtain ⟨rs, htake⟩ | ⟨n, rs, -, htake⟩ := p.takeLocal_cases t
    · rw [htake]
      exact same rfl
    · rw [htake] at nothing
      cases nothing
  | exhaust take => exact .of_subset (tryTake_queued hp.lineup take)
  | skip take stale => exact .of_subset (tryTake_queued hp.lineup take)
  | @leave n self unserved =>
    exact .of_subset (Handoff.toList_withdraw p.handoff n ▸ List.Subset.refl _)
  | @miss a id self mem served stale =>
    exact .of_subset (Handoff.toList_withdraw p.handoff a.taker.id ▸ List.Subset.refl _)
  | @park a self isOpen parked drawn same =>
    exact .of_subset (park_queued hp.lineup.numbered (hp.lineup.isClosed_eq.trans isOpen) a)
  | @comeBack id h c t isOpen find active full =>
    have hhandoff : (p.homecoming t id).handoff = p.handoff := (cacheLocally_frame t id).handoff
    obtain ⟨hmem, hid⟩ := mem_of_find find
    have hback := available_queued (hhandoff ▸ hp.lineup.numbered)
      (hhandoff ▸ hp.lineup.isClosed_eq.trans isOpen) t id
    rw [hhandoff] at hback
    intro k hk
    refine (hback k hk).imp_right ?_
    rintro rfl
    exact List.mem_append_left _ (hid ▸ List.mem_map_of_mem hmem)
  | @miscarry c cs e first => exact same (frame_conclude c (some e)).handoff
  | abandon n => exact same (frame_abandon n).handoff
  | _ => exact same rfl

theorem Steps.admits (h : Steps who p q) (hp : p.Sound) : Admits p [] q := by
  induction h with
  | refl => exact .of_subset (List.Subset.refl _)
  | tail first last ih =>
    exact ih.trans (present_of_moves (Steps.moves first hp)) (last.admits (Steps.sound first hp))

theorem Claim.toList_subset (h : Claim who p id q) (hp : p.Lineup) :
    q.handoff.toList ⊆ p.handoff.toList := by
  cases h with
  | @own t q take =>
    obtain ⟨rs, hnone⟩ | ⟨n, rs, -, hsome⟩ := p.takeLocal_cases t
    · rw [take] at hnone
      cases hnone
    · rw [take] at hsome
      obtain ⟨-, rfl⟩ := Prod.mk.inj hsome
      rcases transition_cases { p with recents := rs } ⟨n⟩ .checkedIn .checkedOut with
        hlost | ⟨-, -, hwon⟩
      · rw [hlost]
        exact List.Subset.refl _
      · rw [hwon]
        exact List.Subset.refl _
  | queued take claim =>
    obtain ⟨k, -, -, rfl⟩ := claim_eq claim
    exact tryTake_queued hp take
  | @served a q self mem served claim =>
    obtain ⟨k, -, -, rfl⟩ := claim_eq claim
    exact Handoff.toList_withdraw p.handoff a.taker.id ▸ List.Subset.refl _

theorem Lend.toList_subset (h : Lend who p q) (hp : p.Lineup) :
    q.handoff.toList ⊆ p.handoff.toList := by
  obtain @⟨id, m, k, c, t, started, claim, find, full⟩ := h
  have hlent : (m.handOver t started id c).handoff = (m.assign t started id).handoff := rfl
  rw [hlent, (assign_frame t started id).handoff]
  exact claim.toList_subset hp

theorem birth_admits (hp : p.Sound) (c : Creation) (x : Connection) :
    Admits p [⟨p.nextHandle⟩] (p.birth c x) := by
  simp only [birth]
  split
  · refine .of_subset ?_
    rw [(frame_conclude c none).handoff]
    exact List.Subset.refl _
  · next hc =>
    have hopen : (p.tried.arrival x).handoff.isClosed = false :=
      hp.lineup.isClosed_eq.trans (by simpa using hc)
    have hborn := available_queued (p := p.tried.arrival x) hp.lineup.numbered hopen .background
      ⟨p.nextHandle⟩
    intro k hk
    rw [(frame_conclude c none).handoff] at hk
    refine (hborn k hk).imp_right ?_
    rintro rfl
    exact List.mem_append_right _ (List.mem_singleton_self _)

theorem shut_queued (hp : p.Lineup) : p.shut.handoff.toList = [] := by
  obtain ⟨h', -, -, hnil, -, heq⟩ := closeHandoff_eq hp
  simp only [shut]
  rw [heq]
  exact hnil

theorem Course.admits (h : Course who p bs q) (hp : p.Settled) :
    Admits p (bs.map (·.handle)) q := by
  cases h with
  | calm steps => exact steps.admits hp.sound
  | @lent m n q before lend after same =>
    have hm := hp.steps before
    have hlent := lend.lent hm.sound hm.final
    have htaken : Admits m [] n := .of_subset (lend.toList_subset hm.sound.lineup)
    have hfirst := (before.admits hp.sound).trans (present_of_moves (before.moves hp.sound)) htaken
    have hmoves := (before.moves hp.sound).trans hlent.moves
    exact hfirst.trans (present_of_moves hmoves) (after.admits hlent.sound)
  | @birth m q c cs x before first serial after same =>
    have hm := before.sound hp.sound
    have hborn := (birth_ledger hm.books.fitting first serial).moves
    have hfirst := (before.admits hp.sound).trans (present_of_moves (before.moves hp.sound))
      (birth_admits hm c x)
    exact hfirst.trans (present_of_moves ((before.moves hp.sound).trans hborn))
      (after.admits (birth_sound hm first serial))
  | closing before isOpen after final =>
    have hm := before.sound hp.sound
    have hmoves := shut_ledger hm.lineup ▸ before.moves hp.sound
    have hshut : Admits p [] _ := .of_subset (shut_queued hm.lineup ▸ List.nil_subset _)
    exact hshut.trans (present_of_moves hmoves) (after.admits (shut_sound hm))

theorem Settled.admits (hp : p.Settled) (ops : List Operation) :
    Admits p ((p.births ops).map (·.handle)) (p.after ops) := by
  induction ops generalizing p with
  | nil => exact .of_subset (List.Subset.refl _)
  | cons op ops ih =>
    have hcourse := op.course hp.sound hp.final
    simp only [births, List.map_append]
    exact (hcourse.admits hp).trans (present_of_moves (hcourse.moves hp.sound hp.final))
      (ih (hp.run op))

theorem conclude_handoff (p : Pool) (e : Except Failure Nat) :
    ((conclude e).run p).2.handoff = p.handoff :=
  eq_of_muted Pool.handoff (fun _ => rfl) (conclude_muted e)

theorem grow_handoff {a b : Acquirer} (h : grow a p = (b, q)) : q.handoff = p.handoff := by
  have hcases := (grow_cases a p).1
  rw [h] at hcases
  rcases hcases with (rfl : q = p) | ⟨-, (rfl : q = p.schedule (some a.taker.id))⟩
  · rfl
  · rfl

/-- Who lingers queues nothing. -/
theorem linger_queued (hn : p.handoff.Numbered) (a : Acquirer) :
    ((linger a).run p).2.handoff.toList ⊆ p.handoff.toList := by
  have hleft : ∀ (m : Pool) (n : Nat), (m.leave n).handoff.toList = m.handoff.toList :=
    fun m n => Handoff.toList_withdraw m.handoff n
  have hlingers := linger_cases a p
  generalize (linger a).run p = r at hlingers ⊢
  cases hlingers with
  | told ticket =>
    rw [conclude_handoff, hleft]
    exact List.Subset.refl _
  | @late b q untold grown past =>
    have htimed : (timedOut b (q.leave a.taker.id)).2.handoff = (q.leave a.taker.id).handoff := rfl
    rw [conclude_handoff, htimed, hleft, grow_handoff grown]
    exact List.Subset.refl _
  | @away b q untold grown early shut =>
    rw [conclude_handoff, hleft, grow_handoff grown]
    exact List.Subset.refl _
  | @parks b q untold grown early isOpen =>
    have hsame := grow_handoff grown
    have hparked := park_queued (hsame ▸ hn) isOpen b
    rw [hsame] at hparked
    exact hparked

/-- Who looks for a connection in vain has taken out all that was queued. -/
theorem turn_clears (hp : p.Sound) {a : Acquirer} (hnone : ∀ n, ((turn a).run p).1 ≠ .granted n) :
    ((turn a).run p).2.handoff.toList = [] := by
  rcases search_cases none hp a.taker.thread a.started p.handles.length with
    ⟨q, hs, hl, hnil⟩ | ⟨n, m, q, hs, -, -⟩
  · have hrest := linger_queued (hl.steps.sound hp).lineup.numbered a
    rw [hnil, List.subset_nil] at hrest
    rw [turn_none hs]
    exact hrest
  · obtain ⟨r, hrun, -⟩ := turn_found hs
    exact absurd (congrArg Prod.fst hrun) (hnone n)

/-- A call that hands out nothing in an open pool leaves nothing queued, if no unit answers it. -/
theorem acquire_clears (hp : p.Sound) {t : Thread} {d : Nat} (ho : p.closed = false)
    (hu : p.units.current t = none) (hnone : ∀ n, ((acquire t d).run p).1 ≠ .granted n) :
    ((acquire t d).run p).2.handoff.toList = [] := by
  have hdraw : Step none p { p with nextTaker := p.nextTaker + 1 } := .draw
  have hsteps : Steps none p { p.notify .beforeAcquire with nextTaker := p.nextTaker + 1 } :=
    hdraw.steps.hush rfl
  rw [acquire_turn ho hu] at hnone ⊢
  exact turn_clears (hsteps.sound hp) hnone

/-- Of the entries of a list without repetition those that are in another are no more than it
has. -/
theorem length_filter_mem_le {l m : List HandleId} (hl : l.Nodup) :
    (l.filter (· ∈ m)).length ≤ m.length :=
  ((hl.filter _).subperm fun id hid => by simpa using (List.mem_filter.mp hid).2).length_le

theorem length_filter_not_mem_le {l m n : List HandleId} (hl : l.Nodup) (hm : m.Nodup) (hln : l ⊆ n)
    (hmn : m ⊆ n) : (l.filter (· ∉ m)).length + m.length ≤ n.length := by
  have hapart : (l.filter (· ∉ m) ++ m).Nodup := by
    refine (hl.filter _).append hm fun id hid hin => ?_
    simp [hin] at hid
  have hsub : l.filter (· ∉ m) ++ m ⊆ n :=
    List.append_subset.mpr ⟨fun id hid => hln (List.mem_filter.mp hid).1, hmn⟩
  have hle := (hapart.subperm hsub).length_le
  rwa [List.length_append] at hle

/-- What is queued in a pool of a configuration that has made the handles of `bs`. -/
structure Lined (c : Config) (bs : List Birth) (p : Pool) : Prop where
  once : p.handoff.toList.Nodup
  made : ∀ id ∈ p.handoff.toList, id ∈ bs.map (·.handle)
  present_le : (p.handoff.toList.filter (· ∈ p.ids)).length ≤ p.handles.length
  handles_le : p.handles.length ≤ c.maxSize.toNat
  stale_le : (p.handoff.toList.filter (· ∉ p.ids)).length + p.handles.length ≤ bs.length
  never_anew : ∀ ops, ∀ id ∈ (p.after ops).handoff.toList,
    id ∈ p.handoff.toList ∨ id ∈ p.ids ∨ id ∈ (p.births ops).map (·.handle)
  cleared : ∀ t d, p.closed = false → p.units.current t = none →
    (∀ n, ((acquire t d).run p).1 ≠ .granted n) → ((acquire t d).run p).2.handoff.toList = []
  closed : p.closed = true → p.handoff.toList = []

/-- A pool that has just been built has no handles, and nothing is queued. -/
theorem bare_of_build {c : Config} {f : Factory} {ls : List Listener} {us : Units}
    (hb : build c f ls us = .ok (some p)) : p.handoff.toList = [] ∧ p.ids = [] := by
  obtain ⟨bus, rfl⟩ := build_eq hb
  have hnew := settled_new c f ls us bus
  have hsteps := steps_start (new c f ls us bus)
  have hnil : (new c f ls us bus).handoff.toList = [] := toList_new c.strategy 1
  have hids := List.subset_nil.mp (present_of_moves (hsteps.moves hnew.sound))
  refine ⟨List.eq_nil_iff_forall_not_mem.mpr fun id hid => ?_, hids⟩
  rcases hsteps.admits hnew.sound id hid with hin | hin
  · exact absurd (hnil ▸ hin) List.not_mem_nil
  · exact absurd hin List.not_mem_nil

/-- Whatever was done to a pool, each handle is queued at most once, and so at most as many handles
of the collection as it has. An entry whose handle is gone stays until a taker comes to it: who
finds nothing idle leaves none of these, and none is ever made for a handle that is gone. -/
theorem entries_lined {c : Config} {f : Factory} {ls : List Listener} {us : Units}
    (hb : build c f ls us = .ok (some p)) (ops : List Operation) :
    Lined c (p.births ops) (p.after ops) := by
  have hfresh := fresh_of_build hb
  obtain ⟨hnil, hnone⟩ := bare_of_build hb
  have hq := hfresh.settled.after ops
  have horderly := ((watched_of_build hb).after ops).orderly
  have htallied := tallied_of_sound hq.sound (hfresh.cap_after ops)
  have hadmits := hfresh.settled.admits ops
  have hpresent := present_of_moves (hfresh.settled.moves ops)
  rw [hnone, List.nil_append] at hpresent
  generalize p.after ops = q at *
  have hids : q.ids.Nodup := ids_nodup hq.sound.books.fitting
  have honce : q.handoff.toList.Nodup := (List.nodup_append.mp hq.sound.lineup.entries_nodup).1
  have hmade : ∀ id ∈ q.handoff.toList, id ∈ (p.births ops).map (·.handle) := fun id hid => by
    simpa [hnil, hnone] using hadmits id hid
  have hcount : q.ids.length = q.handles.length := List.length_map _
  have hmany : ((p.births ops).map (·.handle)).length = (p.births ops).length := List.length_map _
  exact {
    once := honce
    made := hmade
    present_le := hcount ▸ length_filter_mem_le honce
    handles_le := Nat.le_trans (htallied.size_eq ▸ Nat.le_add_right _ _) htallied.size_le
    stale_le := hcount ▸ hmany ▸ length_filter_not_mem_le honce hids hmade hpresent
    never_anew := fun rest id hid => (hq.admits rest id hid).imp_right List.mem_append.mp
    cleared := fun t d => acquire_clears hq.sound
    closed := fun hc => (horderly.none_left (hq.sound.lineup.isClosed_eq.trans hc)).1 }

/-- A handle whose connection is found to be broken goes, but not its entry. -/
theorem entry_outlives_handle :
    ∃ p ops, build { minSize := 1, maxSize := 1 }
    { probing := fun n => if n = 1 then .invalid else .valid }
        [] {} = .ok (some p) ∧ (p.after ops).cap = 1 ∧ (p.after ops).ids = [⟨2⟩] ∧
          (p.after ops).handoff.toList = [⟨1⟩, ⟨2⟩] :=
  ⟨_, [.create, .sweep .background .validation, .create], rfl, rfl, rfl, rfl⟩

theorem entries_lined_with_stale :
    ∃ p, build { minSize := 1, maxSize := 1 }
    { probing := fun n => if n = 1 then .invalid else .valid }
        [] {} = .ok (some p) ∧
      Lined { minSize := 1, maxSize := 1 } [⟨1, ⟨1⟩⟩, ⟨2, ⟨2⟩⟩]
        (p.after [.create, .sweep .background .validation, .create]) :=
  ⟨_, rfl, @entries_lined _ { minSize := 1, maxSize := 1 }
    { probing := fun n => if n = 1 then .invalid else .valid } [] {} rfl
    [.create, .sweep .background .validation, .create]⟩

end Pool
end ConnPool
