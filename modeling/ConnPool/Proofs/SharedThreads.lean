import ConnPool.Proofs.OwnerNumbers

namespace ConnPool

open Pool (Answer Turn Alike)

/-- The pool among what threads remember elsewhere. -/
def Pool.among (r : Recents) (p : Pool) : Pool := { p with recents := r }

variable {α : Type}

/-- Somebody for whom threads keep lists. A container has one owner number; a pool has two, of which
`cacheOwner` is the first, and it may be in the middle of calls that are held up. -/
inductive Tenant (α : Type) where
  | container (owner : Nat) (h : Handoff α)
  | pool (p : Pool) (underway : List (PoolAct Answer))

namespace Tenant

def first : Tenant α → Nat
  | container owner _ => owner
  | pool p _ => p.cacheOwner

/-- How many owner numbers a tenant has. -/
def span : Tenant α → Nat
  | container .. => 1
  | pool .. => 2

/-- All that there is to a tenant but for the place where its lists are. -/
inductive Face (α : Type) where
  | container (h : Handoff α)
  | pool (p : Pool) (held : List (Option Call))

def face : Tenant α → Face α
  | container _ h => .container (h.labelled 0)
  | pool p underway => .pool (p.housed 0 (p.handoff.labelled 0, {})) (underway.map (·.heldAt?))

/-- The number is one of the tenant's, if there is a tenant. -/
def Owns : Option (Tenant α) → Nat → Prop
  | none, _ => False
  | some t, o => ∃ i < t.span, o = t.first + i

/-- What is done to one who may or may not be there. -/
inductive Deed (α : Type) where
  | make (s : Strategy)
  | build (c : Config) (f : Factory) (ls : List Listener) (us : Units)
  | ask (r : Handoff.Request α)
  | start (t : Turn) (held : Call → Bool)
  | goOn (n : Nat) (held : Call → Bool)
  | drop

/-- What a deed comes to for those who see it done. A call that is held up has no answer yet. -/
inductive Report (α : Type) where
  | nothing
  | made
  | built (r : Except Failure Bool)
  | served (e : Handoff.Effect α)
  | answered (a : Option Answer)
  | dropped (last : Face α)

end Tenant

open Tenant (Deed Report)

/-- What threads remember for everybody, and the first owner number that nobody has had. -/
structure ThreadLists where
  recents : Recents := {}
  next : Nat := 0

namespace ThreadLists

/-- A call on a pool goes on until it is held up. -/
def stretch (l : ThreadLists) (p : Pool) (underway : List (PoolAct Answer)) (m : PoolAct Answer)
    (held : Call → Bool) : Report α × Option (Tenant α) × ThreadLists :=
  let (m, q) := m.advance held (p.among l.recents)
  (.answered m.answer?, some (.pool q (underway ++ [m].filter (·.heldAt?.isSome))),
    { l with recents := q.recents })

/-- Where nobody is, somebody may move in; who is there may be asked for something. A pool leaves
when nobody can reach it any more. -/
def serve (l : ThreadLists) (t : Option (Tenant α)) (d : Deed α) :
    Report α × Option (Tenant α) × ThreadLists :=
  match t, d with
  | none, .make s =>
    (.made, some (.container l.next (.new s l.next)), { l with next := l.next + 1 })
  | none, .build c f ls us =>
    match Pool.build c f ls us with
    | .error e => (.built (.error e), none, l)
    | .ok none => (.built (.ok false), none, l)
    | .ok (some p) =>
      (.built (.ok true), some (.pool (p.lodge l.next) []), { l with next := l.next + 2 })
  | some (.container o h), .ask r =>
    let (e, x) := (Exchange.mk h l.recents).step r
    (.served e, some (.container o x.handoff), { l with recents := x.recents })
  | some (.container o h), .drop =>
    (.dropped (Tenant.container o h).face, none, { l with recents := l.recents.retire o })
  | some (.pool p underway), .start t held => l.stretch p underway t.call held
  | some (.pool p underway), .goOn n held =>
    match underway[n]? with
    | some m => l.stretch p (underway.eraseIdx n) m held
    | none => (.nothing, some (.pool p underway), l)
  | some (.pool p underway), .drop =>
    if p.isUnused && underway.isEmpty then
      let q := (Pool.vanish.run (p.among l.recents)).2
      (.dropped (Tenant.pool q []).face, none,
        { l with recents := (q.recents.retire p.cacheOwner).retire (p.cacheOwner + 1) })
    else (.nothing, some (.pool p underway), l)
  | t, _ => (.nothing, t, l)

/-- Whoever comes next finds nothing that was left behind under the number that he gets. -/
def Fresh (l : ThreadLists) : Prop :=
  ∀ o, l.next ≤ o → o ∉ l.recents.dead ∧ ∀ t, l.recents.list o t = []

end ThreadLists

namespace Tenant

/-- The same tenant in two systems, each among what threads remember there. -/
inductive Matches (r s : Recents) : Option (Tenant α) → Option (Tenant α) → Prop where
  | nobody : Matches r s none none
  | container {o o' : Nat} {h k : Handoff α}
    (sameLists : Handoff.SameLists 0 1 ⟨o, r⟩ ⟨o', s⟩ (h, r) (k, s)) :
    Matches r s (some (.container o h)) (some (.container o' k))
  | pool {p q : Pool} {ms ns : List (PoolAct Answer)}
    (alike : Alike (⟨p.cacheOwner, r⟩, ⟨q.cacheOwner, s⟩) (p.among r) (q.among s))
    (underway : List.Forall₂ (Act.Paired Alike) ms ns) :
    Matches r s (some (.pool p ms)) (some (.pool q ns))

variable {r s r' s' : Recents} {t u : Option (Tenant α)} {o : Nat}

theorem Matches.alive (h : Matches r s t u) (ho : Owns t o) : o ∉ r.dead := by
  cases h with
  | nobody => exact ho.elim
  | container sameLists =>
    obtain ⟨i, hi, rfl⟩ := ho
    exact sameLists.recents.left.alive i hi
  | pool alike underway =>
    obtain ⟨i, hi, rfl⟩ := ho
    obtain ⟨x, -, -, hlists⟩ := alike
    exact hlists.recents.left.alive i hi

theorem Matches.face (h : Matches r s t u) : u.map face = t.map face := by
  cases h with
  | nobody => rfl
  | @container o o' h k sameLists =>
    have hlabel : k.labelled 0 = h.labelled 0 :=
      (congrArg (·.labelled 0) sameLists.same).trans (Handoff.labelled_labelled h _ 0)
    exact congrArg (fun h => some (Face.container h)) hlabel
  | @pool p q ms ns alike underway =>
    obtain ⟨x, hsame, -, hlists⟩ := alike
    have hlabel : x.1.labelled 0 = p.handoff.labelled 0 :=
      (congrArg (·.labelled 0) hlists.same).trans (Handoff.labelled_labelled p.handoff _ 0)
    have hpool : q.housed 0 (q.handoff.labelled 0, {}) = p.housed 0 (x.1.labelled 0, {}) :=
      congrArg (fun r : Pool => r.housed 0 (r.handoff.labelled 0, {})) hsame
    have hheld : ns.map (·.heldAt?) = ms.map (·.heldAt?) := by
      induction underway with
      | nil => rfl
      | cons hm _ ih => exact congrArg₂ List.cons hm.heldAt ih
    simp only [Option.map_some, Tenant.face, hpool, hlabel, hheld]

/-- The lists of a tenant are the same, and he lives. -/
def Kept (t : Option (Tenant α)) (r r' : Recents) : Prop :=
  ∀ o, Owns t o → o ∉ r'.dead ∧ ∀ s, r'.list o s = r.list o s

/-- A tenant still matches after others have been at work. -/
theorem Matches.elsewhere (h : Matches r s t u) (ht : Kept t r r') (hu : Kept u s s') :
    Matches r' s' t u := by
  cases h with
  | nobody => exact .nobody
  | container sameLists =>
    exact .container ⟨sameLists.mine, sameLists.same,
      sameLists.recents.elsewhere (fun i hi => ht _ ⟨i, hi, rfl⟩) fun i hi => hu _ ⟨i, hi, rfl⟩⟩
  | pool alike underway =>
    obtain ⟨⟨k, s₂⟩, hsame, -, hlists⟩ := alike
    obtain rfl : s = s₂ := congrArg Pool.recents hsame
    refine .pool ⟨(k, s'), congrArg (Pool.among s') hsame, rfl, hlists.mine, hlists.same, ?_⟩
      underway
    exact hlists.recents.elsewhere (fun i hi => ht _ ⟨i, hi, rfl⟩) fun i hi => hu _ ⟨i, hi, rfl⟩

end Tenant

namespace ThreadLists

/-- A deed leaves those alone whom it does not concern, and gives out no number twice. -/
structure Moved (l : ThreadLists) (t : Option (Tenant α)) (m : ThreadLists)
    (u : Option (Tenant α)) : Prop where
  next_le : l.next ≤ m.next
  others : ∀ o, ¬ Tenant.Owns t o → o ∉ l.recents.dead →
    o ∉ m.recents.dead ∧ ∀ s, m.recents.list o s = l.recents.list o s
  mine : ∀ o, Tenant.Owns u o → Tenant.Owns t o ∨ l.next ≤ o ∧ o < m.next

variable {l m : ThreadLists} {t u : Option (Tenant α)}

theorem Moved.refl (l : ThreadLists) (t : Option (Tenant α)) : Moved l t l t :=
  ⟨Nat.le_refl _, fun _ _ hd => ⟨hd, fun _ => rfl⟩, fun _ ho => .inl ho⟩

theorem moved_in (l : ThreadLists) {t : Tenant α} (ht : t.first = l.next) :
    Moved l none { l with next := l.next + t.span } (some t) := by
  refine ⟨Nat.le_add_right _ _, fun _ _ hd => ⟨hd, fun _ => rfl⟩, ?_⟩
  rintro o ⟨i, hi, rfl⟩
  exact .inr (by dsimp only; omega)

theorem moved_within {t u : Tenant α} {r : Recents}
    (h : OwnerRange.Keeps ⟨t.first, l.recents⟩ t.span r)
    (hfirst : u.first = t.first) (hspan : u.span = t.span) :
    Moved l (some t) { l with recents := r } (some u) := by
  refine ⟨Nat.le_refl _, fun o ho hd => ⟨h.dead ▸ hd, ?_⟩, ?_⟩
  · exact h.others o (fun i hi he => ho ⟨i, hi, he⟩) hd
  · rintro o ⟨i, hi, rfl⟩
    exact .inl ⟨i, hspan ▸ hi, by rw [hfirst]⟩

/-- At the numbers that are next, nothing is remembered in either system. -/
theorem sameLists_next (n : Nat) (hl : l.Fresh) (hm : m.Fresh) :
    Recents.SameLists n ⟨l.next, l.recents⟩ ⟨m.next, m.recents⟩ l.recents m.recents where
  left := ⟨fun i _ => (hl _ (Nat.le_add_right _ i)).1, rfl, fun _ _ _ _ => rfl⟩
  right := ⟨fun i _ => (hm _ (Nat.le_add_right _ i)).1, rfl, fun _ _ _ _ => rfl⟩
  own i _ t := ((hm _ (Nat.le_add_right _ i)).2 t).trans ((hl _ (Nat.le_add_right _ i)).2 t).symm

/-- What a deed does to a tenant in one system it does to the matching one in the other. -/
structure Goes (l : ThreadLists) (t : Option (Tenant α))
    (x y : Report α × Option (Tenant α) × ThreadLists) :
    Prop where
  report : y.1 = x.1
  matching : Tenant.Matches x.2.2.recents y.2.2.recents x.2.1 y.2.1
  moved : Moved l t x.2.2 x.2.1

theorem goes_make (hl : l.Fresh) (hm : m.Fresh) (s : Strategy) :
    Goes (α := α) l none (l.serve none (.make s)) (m.serve none (.make s)) where
  report := rfl
  matching := .container
    ⟨Handoff.labelled_new s _ _, (Handoff.labelled_new s _ _).symm, sameLists_next 1 hl hm⟩
  moved := moved_in l (t := .container l.next (.new s l.next)) rfl

theorem goes_build (hl : l.Fresh) (hm : m.Fresh) (c : Config) (f : Factory) (ls : List Listener)
    (us : Units) :
    Goes (α := α) l none (l.serve none (.build c f ls us)) (m.serve none (.build c f ls us)) := by
  simp only [serve]
  rcases Pool.build c f ls us with e | _ | p
  · exact ⟨rfl, .nobody, .refl l none⟩
  · exact ⟨rfl, .nobody, .refl l none⟩
  · have hmoved := moved_in l (t := (.pool (p.lodge l.next) [] : Tenant α)) rfl
    refine ⟨rfl, .pool ⟨(_, m.recents), rfl, rfl, ?_, ?_, sameLists_next 2 hl hm⟩ .nil, hmoved⟩
    · exact Handoff.labelled_new p.config.strategy _ _
    · exact (Handoff.labelled_new p.config.strategy _ _).symm

theorem goes_ask {o o' : Nat} {h k : Handoff α}
    (sameLists : Handoff.SameLists 0 1 ⟨o, l.recents⟩ ⟨o', m.recents⟩ (h, l.recents) (k, m.recents))
    (r : Handoff.Request α) :
    Goes l (some (.container o h)) (l.serve (some (.container o h)) (.ask r))
      (m.serve (some (.container o' k)) (.ask r)) := by
  obtain ⟨hreport, hmine, hsame, hlists⟩ :=
    Exchange.step_sameLists (x := ⟨h, l.recents⟩) (y := ⟨k, m.recents⟩) sameLists (by decide) r
  exact ⟨congrArg Report.served hreport, .container ⟨hmine, hsame, hlists.here⟩,
    moved_within hlists.left rfl rfl⟩

theorem goes_stretch {p q : Pool} {was ms ns : List (PoolAct Answer)} {a b : PoolAct Answer}
    (alike : Alike (⟨p.cacheOwner, l.recents⟩, ⟨q.cacheOwner, m.recents⟩) (p.among l.recents)
      (q.among m.recents))
    (underway : List.Forall₂ (Act.Paired Alike) ms ns) (hcall : Act.Paired Alike a b)
    (held : Call → Bool) :
    Goes (α := α) l (some (.pool p was)) (l.stretch p ms a held) (m.stretch q ns b held) := by
  obtain ⟨hleft, hstate⟩ := hcall.advance held alike
  have hheld :=
    List.rel_append underway (List.rel_filter (p := (·.heldAt?.isSome)) (q := (·.heldAt?.isSome))
    (fun _ _ h => iff_of_eq (by simp only [h.heldAt])) (.cons hleft .nil))
  refine ⟨congrArg Report.answered hleft.answer, .pool hstate.here hheld, ?_⟩
  obtain ⟨x, -, hown, hlists⟩ := hstate
  exact moved_within hlists.recents.left hown rfl

theorem goes_drop_container {o o' : Nat} {h k : Handoff α}
    (matching : Tenant.Matches l.recents m.recents (some (.container o h))
      (some (.container o' k))) :
    Goes l (some (.container o h)) (l.serve (some (.container o h)) .drop)
      (m.serve (some (.container o' k)) .drop) := by
  refine ⟨?_, .nobody, Nat.le_refl _, fun n hn hd => ⟨?_, fun _ => rfl⟩, fun _ ho => ho.elim⟩
  · exact congrArg Report.dropped (Option.some.inj matching.face)
  · intro hdead
    rcases List.mem_cons.mp hdead with rfl | hdead
    · exact hn ⟨0, Nat.one_pos, rfl⟩
    · exact hd hdead

theorem goes_drop_pool {p q : Pool} {ms ns : List (PoolAct Answer)}
    (alike : Alike (⟨p.cacheOwner, l.recents⟩, ⟨q.cacheOwner, m.recents⟩) (p.among l.recents)
      (q.among m.recents))
    (underway : List.Forall₂ (Act.Paired Alike) ms ns) :
    Goes (α := α) l (some (.pool p ms)) (l.serve (some (.pool p ms)) .drop)
      (m.serve (some (.pool q ns)) .drop) := by
  have hreach : (q.among m.recents).isUnused = (p.among l.recents).isUnused :=
    Pool.PairRule.same (f := Pool.isUnused) (fun _ _ => rfl) alike
  have hunused : q.isUnused = p.isUnused := hreach
  have hfree : ns.isEmpty = ms.isEmpty := by
    cases underway <;> rfl
  simp only [serve, hunused, hfree]
  split
  · obtain ⟨-, hgone⟩ := Pool.vanish_respects.run alike
    have hmatches : Tenant.Matches (α := α) _ _ _ _ := .pool hgone.here .nil
    obtain ⟨x, -, hown, hlists⟩ := hgone
    have hleft := hlists.recents.left
    refine ⟨congrArg Report.dropped (Option.some.inj hmatches.face), .nobody, Nat.le_refl _, ?_,
      fun _ ho => ho.elim⟩
    intro n hn hd
    refine ⟨fun hdead => ?_, hleft.others n (fun i hi he => hn ⟨i, hi, he⟩) hd⟩
    rcases List.mem_cons.mp hdead with rfl | hdead
    · exact hn ⟨1, Nat.one_lt_two, rfl⟩
    · rcases List.mem_cons.mp hdead with rfl | hdead
      · exact hn ⟨0, Nat.two_pos, rfl⟩
      · exact hd (hleft.dead ▸ hdead)
  · exact ⟨rfl, .pool alike underway, .refl l _⟩

/-- Of two lists of calls that go side by side, one is picked out. -/
theorem paired_at {ms ns : List (PoolAct Answer)} (h : List.Forall₂ (Act.Paired Alike) ms ns)
    (n : Nat) :
    ms[n]? = none ∧ ns[n]? = none ∨
      ∃ a b, ms[n]? = some a ∧ ns[n]? = some b ∧ Act.Paired Alike a b ∧
        List.Forall₂ (Act.Paired Alike) (ms.eraseIdx n) (ns.eraseIdx n) := by
  induction h generalizing n with
  | nil => exact .inl ⟨rfl, rfl⟩
  | @cons a b ms ns hab hrest ih =>
    cases n with
    | zero => exact .inr ⟨a, b, rfl, rfl, hab, hrest⟩
    | succ n =>
      rcases ih n with hnone | ⟨c, d, hc, hd, hcd, hleft⟩
      · exact .inl hnone
      · exact .inr ⟨c, d, hc, hd, hcd, .cons hab hleft⟩

theorem goes_serve (hl : l.Fresh) (hm : m.Fresh) (h : Tenant.Matches l.recents m.recents t u)
    (d : Deed α) :
    Goes l t (l.serve t d) (m.serve u d) := by
  cases h with
  | nobody =>
    cases d with
    | make s => exact goes_make hl hm s
    | build c f ls us => exact goes_build hl hm c f ls us
    | _ => exact ⟨rfl, .nobody, .refl l none⟩
  | container sameLists =>
    cases d with
    | ask r => exact goes_ask sameLists r
    | drop => exact goes_drop_container (.container sameLists)
    | _ => exact ⟨rfl, .container sameLists, .refl l _⟩
  | @pool p q ms ns alike underway =>
    cases d with
    | start t held => exact goes_stretch alike underway t.call_alike held
    | goOn n held =>
      simp only [serve]
      rcases paired_at underway n with ⟨hms, hns⟩ | ⟨a, b, hms, hns, hab, hleft⟩
      · rw [hms, hns]
        exact ⟨rfl, .pool alike underway, .refl l _⟩
      · rw [hms, hns]
        exact goes_stretch alike hleft hab held
    | drop => exact goes_drop_pool alike underway
    | _ => exact ⟨rfl, .pool alike underway, .refl l _⟩

end ThreadLists

/-- All tenants by their names, and what threads remember for them. -/
structure TenantSystem (α : Type) where
  lists : ThreadLists := {}
  tenants : Nat → Option (Tenant α) := fun _ => none

namespace TenantSystem

def step (x : TenantSystem α) (k : Nat) (d : Deed α) : Report α × TenantSystem α :=
  let (r, t, l) := x.lists.serve (x.tenants k) d
  (r, ⟨l, Function.update x.tenants k t⟩)

def after (x : TenantSystem α) (es : List (Nat × Deed α)) : TenantSystem α :=
  es.foldl (fun x e => (x.step e.1 e.2).2) x

/-- What becomes of one tenant by a deed: what it comes to, and what there is to him then. -/
structure Entry (α : Type) where
  who : Nat
  report : Report α
  face : Option (Tenant.Face α)

/-- All that is done in a system and what it comes to. -/
def log (x : TenantSystem α) : List (Nat × Deed α) → List (Entry α)
  | [] => []
  | (k, d) :: es =>
    ⟨k, (x.step k d).1, ((x.step k d).2.tenants k).map Tenant.face⟩ :: (x.step k d).2.log es

/-- Every tenant matches himself, and no owner number is had by two, or by somebody before it is
given out. -/
structure Sound (x : TenantSystem α) : Prop where
  fresh : x.lists.Fresh
  matching : ∀ k, Tenant.Matches x.lists.recents x.lists.recents (x.tenants k) (x.tenants k)
  below : ∀ k o, Tenant.Owns (x.tenants k) o → o < x.lists.next
  apart : ∀ j k o, Tenant.Owns (x.tenants j) o → Tenant.Owns (x.tenants k) o → j = k

/-- One tenant in two systems. -/
def Matches (k : Nat) (x y : TenantSystem α) : Prop :=
  Tenant.Matches x.lists.recents y.lists.recents (x.tenants k) (y.tenants k)

variable {x y : TenantSystem α} {j k : Nat}

theorem Sound.goes (hx : x.Sound) (hy : y.Sound) (h : Matches k x y) (d : Deed α) :
    ThreadLists.Goes x.lists (x.tenants k) (x.lists.serve (x.tenants k) d)
    (y.lists.serve (y.tenants k) d) :=
  ThreadLists.goes_serve hx.fresh hy.fresh h d

theorem Sound.moved (hx : x.Sound) (k : Nat) (d : Deed α) :
    x.lists.Moved (x.tenants k) (x.step k d).2.lists (x.lists.serve (x.tenants k) d).2.1 :=
  (hx.goes hx (hx.matching k) d).moved

theorem tenants_step (x : TenantSystem α) (k : Nat) (d : Deed α) :
    (x.step k d).2.tenants k = (x.lists.serve (x.tenants k) d).2.1 :=
  Function.update_self ..

theorem tenants_step_of_ne (x : TenantSystem α) (hj : j ≠ k) (d : Deed α) :
    (x.step k d).2.tenants j = x.tenants j :=
  Function.update_of_ne hj ..

/-- The lists of one tenant, when something is done to another. -/
theorem Sound.kept (hx : x.Sound) (hj : j ≠ k) (d : Deed α) :
    Tenant.Kept (x.tenants j) x.lists.recents (x.step k d).2.lists.recents :=
  fun o ho => (hx.moved k d).others o
    (fun hk => hj (hx.apart j k o ho hk)) ((hx.matching j).alive ho)

theorem Sound.step (hx : x.Sound) (k : Nat) (d : Deed α) : (x.step k d).2.Sound := by
  have hmoved := hx.moved k d
  -- whose numbers they were before, or they are new
  have hwhose : ∀ j o, Tenant.Owns ((x.step k d).2.tenants j) o →
      Tenant.Owns (x.tenants j) o ∨ j = k ∧ x.lists.next ≤ o ∧ o < (x.step k d).2.lists.next := by
    intro j o ho
    by_cases hj : j = k
    · subst hj
      rw [tenants_step] at ho
      exact (hmoved.mine o ho).imp_right fun hnew => ⟨rfl, hnew⟩
    · rw [tenants_step_of_ne x hj] at ho
      exact .inl ho
  refine ⟨fun o ho => ?_, fun j => ?_, fun j o ho => ?_, fun i j o hi hj => ?_⟩
  · have hnext : x.lists.next ≤ o := Nat.le_trans hmoved.next_le ho
    obtain ⟨hdead, hlist⟩ := hx.fresh o hnext
    have hnobody : ¬ Tenant.Owns (x.tenants k) o := fun hk => by
      have := hx.below k o hk
      omega
    obtain ⟨hdead', hlist'⟩ := hmoved.others o hnobody hdead
    exact ⟨hdead', fun t => (hlist' t).trans (hlist t)⟩
  · by_cases hj : j = k
    · subst hj
      rw [tenants_step]
      exact (hx.goes hx (hx.matching j) d).matching
    · rw [tenants_step_of_ne x hj]
      exact (hx.matching j).elsewhere (hx.kept hj d) (hx.kept hj d)
  · rcases hwhose j o ho with ho | ⟨-, -, hnew⟩
    · exact Nat.lt_of_lt_of_le (hx.below j o ho) hmoved.next_le
    · exact hnew
  · rcases hwhose i o hi with hold | ⟨hik, hnew, -⟩ <;>
      rcases hwhose j o hj with hold' | ⟨hjk, hnew', -⟩
    · exact hx.apart i j o hold hold'
    · exact absurd (hx.below i o hold) (Nat.not_lt.mpr hnew')
    · exact absurd (hx.below j o hold') (Nat.not_lt.mpr hnew)
    · exact hik.trans hjk.symm

theorem sound_empty : ({} : TenantSystem α).Sound where
  fresh _ _ := ⟨List.not_mem_nil, fun _ => rfl⟩
  matching _ := .nobody
  below _ _ ho := ho.elim
  apart _ _ _ ho := ho.elim

theorem Sound.after (hx : x.Sound) (es : List (Nat × Deed α)) : (x.after es).Sound := by
  induction es generalizing x with
  | nil => exact hx
  | cons e es ih => exact ih (hx.step e.1 e.2)

/-- What is done to a tenant in both systems comes to the same. -/
theorem Matches.step (h : Matches k x y) (hx : x.Sound) (hy : y.Sound) (d : Deed α) :
    (y.step k d).1 = (x.step k d).1 ∧ Matches k (x.step k d).2 (y.step k d).2 := by
  obtain ⟨hreport, hmatches, -⟩ := hx.goes hy h d
  refine ⟨hreport, ?_⟩
  rw [Matches, tenants_step, tenants_step]
  exact hmatches

/-- What is done to another in one of the systems makes no difference to him. -/
theorem Matches.step_other (h : Matches k x y) (hx : x.Sound) (hy : y.Sound) (hj : k ≠ j)
    (d : Deed α) :
    Matches k (x.step j d).2 y := by
  rw [Matches, tenants_step_of_ne x hj]
  exact h.elsewhere (hx.kept hj d) fun o ho => ⟨(hy.matching k).alive ho, fun _ => rfl⟩

theorem Matches.log (h : Matches k x y) (hx : x.Sound) (hy : y.Sound) (es : List (Nat × Deed α)) :
    (x.log es).filter (·.who = k) = y.log (es.filter (·.1 = k)) := by
  induction es generalizing x y with
  | nil => rfl
  | cons e es ih =>
    obtain ⟨j, d⟩ := e
    by_cases hj : j = k
    · subst hj
      obtain ⟨hreport, hmatches⟩ := h.step hx hy d
      have hface := Tenant.Matches.face hmatches
      have hrest := ih hmatches (hx.step j d) (hy.step j d)
      rw [List.filter_cons_of_pos (by simp)]
      simp only [TenantSystem.log, hreport, hface]
      rw [List.filter_cons_of_pos (by simp), hrest]
    · have hrest := ih (h.step_other hx hy (Ne.symm hj) d) (hx.step j d) hy
      rw [List.filter_cons_of_neg (by simpa using hj)]
      simp only [TenantSystem.log]
      rw [List.filter_cons_of_neg (by simpa using hj), hrest]

/-- What threads remember for a tenant is safe from sweeping and from whatever is done to others. -/
structure Undisturbed (x : TenantSystem α) (k : Nat) : Prop where
  swept : ∀ o, Tenant.Owns (x.tenants k) o → ∀ t,
    (x.lists.recents.swept t).find? (·.1 = o) = (x.lists.recents.owners t).find? (·.1 = o)
  others : ∀ j, k ≠ j → ∀ d,
    Tenant.Kept (x.tenants k) x.lists.recents (x.step j d).2.lists.recents

theorem Sound.undisturbed (hx : x.Sound) (k : Nat) : x.Undisturbed k where
  swept _ ho := Recents.find_swept ((hx.matching k).alive ho)
  others _ hj := hx.kept hj

/-- However many containers and pools come, go and are used on the same threads, and in whatever
order: what is done to one of them comes to what it comes to where there is nobody else, and the
lists of whoever is there outlast all sweeping. -/
theorem log_filter_eq_log_alone (es : List (Nat × Deed α)) (k : Nat) :
    (({} : TenantSystem α).log es).filter (·.who = k) = ({} : TenantSystem α).log
    (es.filter (·.1 = k)) ∧
      (({} : TenantSystem α).after es).Undisturbed k := by
  have hempty : ({} : TenantSystem α).Sound := sound_empty
  have halone : Matches k ({} : TenantSystem α) {} := .nobody
  exact ⟨halone.log hempty hempty es, (hempty.after es).undisturbed k⟩

/-- Nine of ten bags go; the tenth is asked for what it was given, and by then all others are swept
out. -/
example :
    (({} : TenantSystem Nat).after ((List.range 10).flatMap (fun k =>
        [(k, .make .bag), (k, .ask (.put .background k))]) ++
      (List.range 9).map (fun k => (k, .drop)) ++
      [(9, .ask (.put .background 0))])).lists.recents.owners .background = [(9, [1, 0])] := by
  decide

end TenantSystem
end ConnPool
