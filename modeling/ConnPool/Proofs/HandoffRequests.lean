import ConnPool.Proofs.Handoff

namespace ConnPool

variable {α : Type}

namespace Handoff

/-- What threads ask of a container. `expire` is no call but the moment at which the deadline of a
taker that waits has come. -/
inductive Request (α : Type) where
  | put (t : Thread) (a : α)
  | tryTake (t : Thread)
  | take (t : Taker) (expired : Bool)
  | expire (taker : Nat)
  | close
  deriving DecidableEq

/-- The taker of a request that is a take. -/
def Request.taker? : Request α → Option Taker
  | take t _ => some t
  | _ => none

/-- The request, whichever item it is about. -/
def Request.blank : Request α → Request Unit
  | put t _ => .put t ()
  | tryTake t => .tryTake t
  | take t expired => .take t expired
  | expire id => .expire id
  | close => .close

/-- What a request comes to, for its caller and for those who waited. -/
inductive Effect (α : Type) where
  | offered (o : Offer α)
  | found (a : Option α)
  | took (t : Taker) (x : Taking α)
  | gaveUp (ts : List Taker)
  | drained (as : List α) (ts : List Taker)
  deriving DecidableEq

namespace Effect

/-- The effect, whichever items it is about. -/
def kind : Effect α → Effect Unit
  | offered (.rejected _) => .offered (.rejected ())
  | offered .kept => .offered .kept
  | offered (.served t _) => .offered (.served t ())
  | found a => .found (a.map fun _ => ())
  | took t (.item _) => .took t (.item ())
  | took t .timedOut => .took t .timedOut
  | took t .closed => .took t .closed
  | took t .parked => .took t .parked
  | gaveUp ts => .gaveUp ts
  | drained as ts => .drained (as.map fun _ => ()) ts

/-- The items that go out. -/
def items : Effect α → List α
  | offered (.served _ a) => [a]
  | found a => a.toList
  | took _ (.item a) => [a]
  | drained as _ => as
  | _ => []

/-- The takes that are answered. -/
def answers : Effect α → List (Taker × Take α)
  | offered (.served t a) => [(t, .item a)]
  | took t (.item a) => [(t, .item a)]
  | took t .timedOut => [(t, .timedOut)]
  | took t .closed => [(t, .closed)]
  | gaveUp ts => ts.map (·, .timedOut)
  | drained _ ts => ts.map (·, .closed)
  | _ => []

/-- The item that a request brings in. -/
def accepted : Request α → Effect α → List α
  | .put _ _, .offered (.rejected _) => []
  | .put _ a, _ => [a]
  | _, _ => []

end Effect

/-- What can be seen of a container from outside. -/
@[ext] structure View (α : Type) where
  queued : List α
  parked : List Taker
  closed : Bool
  deriving DecidableEq

def view (h : Handoff α) : View α := ⟨h.toList, h.parked, h.isClosed⟩

/-- The view, whichever items it shows. -/
def View.blank (v : View α) : View Unit := ⟨v.queued.map fun _ => (), v.parked, v.closed⟩

/-- Nothing is both open and closed. -/
theorem View.clash {v : View α} {P : Prop} (isOpen : v.closed = false) (closed : v.closed = true) :
    P :=
  absurd (isOpen.symm.trans closed) Bool.false_ne_true

/-- Nobody waits beside a queued item, and nothing and nobody is left once the container is
closed. -/
structure View.Orderly (v : View α) : Prop where
  none_beside : v.parked ≠ [] → v.queued = []
  none_left : v.closed = true → v.queued = [] ∧ v.parked = []

theorem orderly_new (s : Strategy) (owner : Nat) :
    (Handoff.new s owner : Handoff α).view.Orderly := by
  cases s <;> exact ⟨fun _ => rfl, fun h => Bool.noConfusion h⟩

/-- What a container does on a request, all strategies alike. Queued items leave in an order of
which `same` says how closely it follows that of their coming. -/
inductive Serves (same : List α → List α → Prop) (v : View α) :
    Request α → Effect α → View α → Prop where
  | refuse {t : Thread} {a : α} (closed : v.closed = true) :
    Serves same v (.put t a) (.offered (.rejected a)) v
  | keep {t : Thread} {a : α} {q : List α} (isOpen : v.closed = false) (alone : v.parked = [])
    (more : same (v.queued ++ [a]) q) :
    Serves same v (.put t a) (.offered .kept) { v with queued := q }
  | pass {t : Thread} {a : α} {w : Taker} {ws : List Taker} (isOpen : v.closed = false)
    (first : v.parked = w :: ws) :
    Serves same v (.put t a) (.offered (.served w a)) { v with parked := ws }
  | find {t : Thread} {a : α} {q : List α} (less : same v.queued (a :: q)) :
    Serves same v (.tryTake t) (.found (some a)) { v with queued := q }
  | miss {t : Thread} (empty : v.queued = []) : Serves same v (.tryTake t) (.found none) v
  | hand {t : Taker} {expired : Bool} {a : α} {q : List α} (less : same v.queued (a :: q)) :
    Serves same v (.take t expired) (.took t (.item a)) { v with queued := q }
  | dismiss {t : Taker} {expired : Bool} (empty : v.queued = []) (closed : v.closed = true) :
    Serves same v (.take t expired) (.took t .closed) v
  | late {t : Taker} (empty : v.queued = []) (isOpen : v.closed = false) :
    Serves same v (.take t true) (.took t .timedOut) v
  | park {t : Taker} (empty : v.queued = []) (isOpen : v.closed = false) :
    Serves same v (.take t false) (.took t .parked) { v with parked := v.parked ++ [t] }
  | expire {id : Nat} :
    Serves same v (.expire id) (.gaveUp (v.parked.filter (·.id = id)))
      { v with parked := v.parked.filter (·.id ≠ id) }
  | close : Serves same v .close (.drained v.queued v.parked) ⟨[], [], true⟩

namespace Serves

variable {same : List α → List α → Prop} {v w w' : View α} {r : Request α} {e e' : Effect α}

/-- Who waits still waits beside nothing. -/
theorem orderly (hs : ∀ l m, same l m → l.Perm m) (h : Serves same v r e w) (hv : v.Orderly) :
    w.Orderly := by
  have fewer : ∀ {a : α} {q : List α}, same v.queued (a :: q) →
      View.Orderly { v with queued := q } := by
    intro a q hless
    have hsome : v.queued ≠ [] := fun hnil => by
      have hperm := hs _ _ hless
      simp [hnil] at hperm
    have halone : v.parked = [] := by
      by_contra hparked
      exact hsome (hv.none_beside hparked)
    exact ⟨fun hparked => absurd halone hparked, fun hc => absurd (hv.none_left hc).1 hsome⟩
  cases h with
  | refuse closed => exact hv
  | keep isOpen alone more =>
    exact ⟨fun hparked => absurd alone hparked, fun hc => View.clash isOpen hc⟩
  | pass isOpen first =>
    exact ⟨fun _ => hv.none_beside (by simp [first]), fun hc => View.clash isOpen hc⟩
  | find less => exact fewer less
  | miss empty => exact hv
  | hand less => exact fewer less
  | dismiss empty closed => exact hv
  | late empty isOpen => exact hv
  | park empty isOpen => exact ⟨fun _ => empty, fun hc => View.clash isOpen hc⟩
  | expire =>
    refine ⟨fun hparked => hv.none_beside fun hnil => hparked (by simp [hnil]), fun hc => ?_⟩
    obtain ⟨hqueued, hparked⟩ := hv.none_left hc
    exact ⟨hqueued, by simp [hparked]⟩
  | close => exact ⟨fun _ => rfl, fun _ => ⟨rfl, rfl⟩⟩

/-- What comes in goes out or stays. -/
theorem items_perm (hs : ∀ l m, same l m → l.Perm m) (h : Serves same v r e w) :
    (e.accepted r ++ v.queued).Perm (e.items ++ w.queued) := by
  cases h with
  | @keep t a q isOpen alone more =>
    have hlast : ([a] ++ v.queued).Perm (v.queued ++ [a]) := List.perm_append_comm
    exact hlast.trans (hs _ _ more)
  | find less => exact hs _ _ less
  | hand less => exact hs _ _ less
  | close => exact (List.append_nil v.queued).symm ▸ List.Perm.refl _
  | _ => exact List.Perm.refl _

/-- Who begins to take is answered or waits. -/
theorem takers_perm (h : Serves same v r e w) :
    (r.taker?.toList ++ v.parked).Perm (e.answers.map (·.1) ++ w.parked) := by
  cases h with
  | pass isOpen first => exact first ▸ List.Perm.refl _
  | park empty isOpen => exact List.perm_append_comm
  | @expire id =>
    have hsplit := List.filter_append_perm (fun w : Taker => decide (w.id = id)) v.parked
    simpa [Request.taker?, Effect.answers, Function.comp_def] using hsplit.symm
  | close => simp [Request.taker?, Effect.answers, Function.comp_def]
  | _ => exact List.Perm.refl _

theorem closed_iff (h : Serves same v r e w) : w.closed = true ↔ v.closed = true ∨ r = .close := by
  cases h with
  | close => exact iff_of_true rfl (Or.inr rfl)
  | _ => simp

/-- Only a closed container hands back what is put. -/
theorem closed_of_rejected {t : Thread} {a b : α}
    (h : Serves same v (.put t a) (.offered (.rejected b)) w) : v.closed = true := by
  cases h with
  | refuse closed => exact closed

/-- Where queued items keep their order, nothing is left to choice. -/
theorem functional (h : Serves Eq v r e w) (k : Serves Eq v r e' w') : e = e' ∧ w = w' := by
  have filled : ∀ {P : Prop} {a : α} {q : List α}, v.queued = a :: q → v.queued = [] → P :=
    fun hsome hnil => absurd (hsome.symm.trans hnil) (List.cons_ne_nil _ _)
  have joined : ∀ {P : Prop} {t : Taker} {ts : List Taker}, v.parked = t :: ts →
    v.parked = [] → P :=
    fun hsome hnil => absurd (hsome.symm.trans hnil) (List.cons_ne_nil _ _)
  cases h with
  | refuse closed =>
    cases k with
    | refuse _ => exact ⟨rfl, rfl⟩
    | keep isOpen _ _ => exact View.clash isOpen closed
    | pass isOpen _ => exact View.clash isOpen closed
  | keep isOpen alone more =>
    cases k with
    | refuse closed => exact View.clash isOpen closed
    | keep _ _ more' => exact ⟨rfl, by rw [← more, ← more']⟩
    | pass _ first => exact joined first alone
  | pass isOpen first =>
    cases k with
    | refuse closed => exact View.clash isOpen closed
    | keep _ alone _ => exact joined first alone
    | pass _ first' =>
      cases first.symm.trans first'
      exact ⟨rfl, rfl⟩
  | find less =>
    cases k with
    | find less' =>
      cases less.symm.trans less'
      exact ⟨rfl, rfl⟩
    | miss empty => exact filled less empty
  | miss empty =>
    cases k with
    | find less => exact filled less empty
    | miss _ => exact ⟨rfl, rfl⟩
  | hand less =>
    cases k with
    | hand less' =>
      cases less.symm.trans less'
      exact ⟨rfl, rfl⟩
    | dismiss empty _ => exact filled less empty
    | late empty _ => exact filled less empty
    | park empty _ => exact filled less empty
  | dismiss empty closed =>
    cases k with
    | hand less => exact filled less empty
    | dismiss _ _ => exact ⟨rfl, rfl⟩
    | late _ isOpen => exact View.clash isOpen closed
    | park _ isOpen => exact View.clash isOpen closed
  | late empty isOpen =>
    cases k with
    | hand less => exact filled less empty
    | dismiss _ closed => exact View.clash isOpen closed
    | late _ _ => exact ⟨rfl, rfl⟩
  | park empty isOpen =>
    cases k with
    | hand less => exact filled less empty
    | dismiss _ closed => exact View.clash isOpen closed
    | park _ _ => exact ⟨rfl, rfl⟩
  | expire =>
    cases k
    exact ⟨rfl, rfl⟩
  | close =>
    cases k
    exact ⟨rfl, rfl⟩

/-- Items that cannot be told apart keep every order. -/
theorem blank (hs : ∀ l m, same l m → l.Perm m) (h : Serves same v r e w) :
    Serves Eq v.blank r.blank e.kind w.blank := by
  have units : ∀ {l m : List α}, same l m → (l.map fun _ => ()) = m.map fun _ => () := by
    intro l m hlm
    simp only [List.map_const', (hs _ _ hlm).length_eq]
  have gone : v.queued = [] → v.blank.queued = [] := fun hnil => List.map_eq_nil_iff.mpr hnil
  cases h with
  | refuse closed => exact .refuse closed
  | keep isOpen alone more =>
    refine .keep isOpen alone ?_
    rw [← units more, List.map_append]
    rfl
  | pass isOpen first => exact .pass isOpen first
  | find less => exact .find (units less)
  | miss empty => exact .miss (gone empty)
  | hand less => exact .hand (units less)
  | dismiss empty closed => exact .dismiss (gone empty) closed
  | late empty isOpen => exact .late (gone empty) isOpen
  | park empty isOpen => exact .park (gone empty) isOpen
  | expire => exact .expire
  | close => exact .close

end Serves

end Handoff

/-- How the items of a container keep the order in which they came. -/
def Strategy.order : Strategy → List α → List α → Prop
  | .bag => List.Perm
  | _ => Eq

theorem Strategy.perm_of_order (s : Strategy) (l m : List α) (h : s.order l m) : l.Perm m := by
  cases s with
  | bag => exact h
  | fifo => exact List.Perm.of_eq h
  | rendezvous => exact List.Perm.of_eq h

namespace Handoff

theorem Serves.target {same : List α → List α → Prop} {v w w' : View α} {r : Request α}
    {e : Effect α} (h : Serves same v r e w) (hw : w' = w) : Serves same v r e w' :=
  hw ▸ h

theorem toList_erase {b : Bag α} {pre post : List (Nat × α)} {e : Nat × α}
    (heq : b.entries = pre ++ e :: post) :
    (view (.bag b)).queued.Perm
      (e.2 :: (view (.bag { b with entries := pre ++ post })).queued) := by
  simp only [view, toList, heq, List.map_append, List.map_cons]
  exact List.perm_middle

theorem fifo_put {q : Fifo α} (hv : (view (.fifo q)).Orderly) (t : Thread) (a : α) :
    Serves Eq (view (.fifo q)) (.put t a) (.offered (q.put a).1) (view (.fifo (q.put a).2)) := by
  cases hc : q.closed with
  | true =>
    have hput : q.put a = (.rejected a, q) := if_pos hc
    rw [hput]
    exact .refuse hc
  | false =>
    cases hp : q.parked with
    | nil =>
      have hput : q.put a = (.kept, { q with queue := q.queue ++ [a] }) := by
        simp [Fifo.put, hc, hp]
      rw [hput]
      exact .keep hc hp rfl
    | cons w ws =>
      have hnil : q.queue = [] := hv.none_beside (by simp [view, parked, hp])
      have hput : q.put a = (.served w a, { q with queue := [], parked := ws }) := by
        simp [Fifo.put, hc, hp, hnil]
      rw [hput]
      exact (Serves.pass hc hp).target (View.ext hnil.symm rfl rfl)

theorem fifo_tryTake (q : Fifo α) (t : Thread) :
    Serves Eq (view (.fifo q)) (.tryTake t) (.found q.tryTake.1) (view (.fifo q.tryTake.2)) := by
  cases hq : q.queue with
  | nil =>
    have htake : q.tryTake = (none, q) := by simp [Fifo.tryTake, hq]
    rw [htake]
    exact .miss hq
  | cons x xs =>
    have htake : q.tryTake = (some x, { q with queue := xs }) := by simp [Fifo.tryTake, hq]
    rw [htake]
    exact .find hq

theorem fifo_take (q : Fifo α) (t : Taker) (expired : Bool) :
    Serves Eq (view (.fifo q)) (.take t expired) (.took t (q.take t expired).1)
      (view (.fifo (q.take t expired).2)) := by
  cases hq : q.queue with
  | cons x xs =>
    have htake : q.take t expired = (.item x, { q with queue := xs }) := by simp [Fifo.take, hq]
    rw [htake]
    exact .hand hq
  | nil =>
    cases hc : q.closed with
    | true =>
      have htake : q.take t expired = (.closed, q) := by simp [Fifo.take, hq, hc]
      rw [htake]
      exact .dismiss hq hc
    | false =>
      cases expired with
      | true =>
        have htake : q.take t true = (.timedOut, q) := by simp [Fifo.take, hq, hc]
        rw [htake]
        exact .late hq hc
      | false =>
        have htake : q.take t false = (.parked, { q with parked := q.parked ++ [t] }) := by
          simp [Fifo.take, hq, hc]
        rw [htake]
        exact .park hq hc

theorem rendezvous_put {z : Rendezvous α} (t : Thread) (a : α) :
    Serves Eq (view (.rendezvous z)) (.put t a) (.offered (z.put a).1)
      (view (.rendezvous (z.put a).2)) := by
  cases hc : z.closed with
  | true =>
    have hput : z.put a = (.rejected a, z) := if_pos hc
    rw [hput]
    exact .refuse hc
  | false =>
    have hp := z.parked_dropWhile
    cases hw : z.waiting.dropWhile (·.abandoned) with
    | nil =>
      have hput : z.put a = (.kept, { z with waiting := [], shared := z.shared ++ [a] }) := by
        simp [Rendezvous.put, hc, hw]
      rw [hw] at hp
      rw [hput]
      exact (Serves.keep hc hp rfl).target (View.ext rfl hp.symm rfl)
    | cons w ws =>
      have hfirst : w.abandoned = false := by
        have hne := List.head?_dropWhile_not (fun w : Registration => w.abandoned) z.waiting
        rw [hw] at hne
        simpa using hne
      have hput : z.put a = (.served w.taker a, { z with waiting := ws }) := by
        simp [Rendezvous.put, hc, hw]
      rw [hw, List.filter_cons_of_pos (by simp [hfirst]), List.map_cons] at hp
      rw [hput]
      exact .pass hc hp

theorem rendezvous_tryTake (z : Rendezvous α) (t : Thread) :
    Serves Eq (view (.rendezvous z)) (.tryTake t) (.found z.tryTake.1)
      (view (.rendezvous z.tryTake.2)) := by
  cases hz : z.shared with
  | nil =>
    have htake : z.tryTake = (none, z) := by simp [Rendezvous.tryTake, hz]
    rw [htake]
    exact .miss hz
  | cons x xs =>
    have htake : z.tryTake = (some x, { z with shared := xs }) := by simp [Rendezvous.tryTake, hz]
    rw [htake]
    exact .find hz

theorem shared_prune (z : Rendezvous α) : z.prune.shared = z.shared := by
  simp only [Rendezvous.prune]
  split <;> rfl

theorem closed_prune (z : Rendezvous α) : z.prune.closed = z.closed := by
  simp only [Rendezvous.prune]
  split <;> rfl

/-- A taker that registers waits behind the others, unless it is abandoned at once. -/
theorem view_register (z : Rendezvous α) (t : Taker) (abandoned : Bool) :
    view (.rendezvous { z.prune with waiting := z.prune.waiting ++ [⟨t, abandoned⟩] }) =
      ⟨z.shared, z.parked ++ if abandoned then [] else [t], z.closed⟩ := by
  refine View.ext (shared_prune z) ?_ (closed_prune z)
  have hp := z.parked_prune
  simp only [Rendezvous.parked] at hp
  cases abandoned <;> simp [view, parked, Rendezvous.parked, hp]

theorem rendezvous_take (z : Rendezvous α) (t : Taker) (expired : Bool) :
    Serves Eq (view (.rendezvous z)) (.take t expired) (.took t (z.take t expired).1)
      (view (.rendezvous (z.take t expired).2)) := by
  cases hz : z.shared with
  | cons x xs =>
    have htake : z.take t expired = (.item x, { z with shared := xs }) := by
      simp [Rendezvous.take, hz]
    rw [htake]
    exact .hand hz
  | nil =>
    cases hc : z.closed with
    | true =>
      have htake : z.take t expired = (.closed, z) := by simp [Rendezvous.take, hz, hc]
      rw [htake]
      exact .dismiss hz hc
    | false =>
      have hview := view_register z t expired
      cases expired with
      | true =>
        have htake : z.take t true =
            (.timedOut, { z.prune with waiting := z.prune.waiting ++ [⟨t, true⟩] }) := by
          simp [Rendezvous.take, hz, hc]
        rw [htake]
        exact (Serves.late hz hc).target (hview.trans (View.ext rfl (List.append_nil _) rfl))
      | false =>
        have htake : z.take t false =
            (.parked, { z.prune with waiting := z.prune.waiting ++ [⟨t, false⟩] }) := by
          simp [Rendezvous.take, hz, hc]
        rw [htake]
        exact (Serves.park hz hc).target hview

theorem bag_put {b : Bag α} (hb : b.Numbered) (hv : (view (.bag b)).Orderly) (rs : Recents)
    (t : Thread) (a : α) :
    (b.put rs t a).2.1.Numbered ∧
      Serves List.Perm (view (.bag b)) (.put t a) (.offered (b.put rs t a).1)
        (view (.bag (b.put rs t a).2.1)) := by
  cases hc : b.closed with
  | true =>
    have hput : b.put rs t a = (.rejected a, b, rs) := if_pos hc
    rw [hput]
    exact ⟨hb, .refuse hc⟩
  | false =>
    have hnum := Bag.numbered_put hb a
    cases hp : b.parked with
    | nil =>
      have hput : b.put rs t a = (.kept, { b with
          entries := b.entries ++ [(b.sequence, a)], sequence := b.sequence + 1 },
          rs.push b.owner t b.sequence) := by
        simp [Bag.put, hc, hp]
      rw [hput]
      refine ⟨hnum, (Serves.keep hc hp (List.Perm.refl _)).target (View.ext ?_ rfl rfl)⟩
      exact List.map_append
    | cons w ws =>
      -- who waits waits beside nothing, so that the new entry is the only one
      have hnil : b.entries = [] :=
        List.map_eq_nil_iff.mp (hv.none_beside (by simp [view, parked, hp]))
      obtain ⟨rs', ⟨hempty, -⟩ | ⟨pre, e, post, heq, htake⟩⟩ :=
        Bag.tryTake_cases hnum (rs.push b.owner t b.sequence) w.thread
      · exact absurd hempty (by simp)
      · obtain ⟨hpre, he, hpost⟩ : pre = [] ∧ e = (b.sequence, a) ∧ post = [] := by
          simp only [hnil, List.nil_append] at heq
          have hsingle := List.singleton_eq_append_iff.mp heq
          simpa using hsingle
        subst hpre he hpost
        have hput : b.put rs t a = (.served w a, { b with
            entries := [], sequence := b.sequence + 1, parked := ws }, rs') := by
          simp only [hc, hp] at htake
          simp [Bag.put, hc, hp, htake]
        have hleft := hnum.erase heq
        rw [hput]
        refine ⟨⟨hleft.nodup, hleft.lt⟩, (Serves.pass hc hp).target (View.ext ?_ rfl rfl)⟩
        simp [view, toList, hnil]

theorem bag_tryTake {b : Bag α} (hb : b.Numbered) (rs : Recents) (t : Thread) :
    (b.tryTake rs t).2.1.Numbered ∧
      Serves List.Perm (view (.bag b)) (.tryTake t) (.found (b.tryTake rs t).1)
        (view (.bag (b.tryTake rs t).2.1)) := by
  obtain ⟨rs', ⟨hnil, htake⟩ | ⟨pre, e, post, heq, htake⟩⟩ := Bag.tryTake_cases hb rs t
  · rw [htake]
    exact ⟨hb, .miss (List.map_eq_nil_iff.mpr hnil)⟩
  · rw [htake]
    exact ⟨hb.erase heq, .find (toList_erase heq)⟩

theorem bag_take {b : Bag α} (hb : b.Numbered) (rs : Recents) (t : Taker) (expired : Bool) :
    (b.take rs t expired).2.1.Numbered ∧
      Serves List.Perm (view (.bag b)) (.take t expired) (.took t (b.take rs t expired).1)
        (view (.bag (b.take rs t expired).2.1)) := by
  obtain ⟨rs', ⟨hnil, hlook⟩ | ⟨pre, e, post, heq, hlook⟩⟩ := Bag.tryTake_cases hb rs t.thread
  · have hempty : (view (.bag b)).queued = [] := List.map_eq_nil_iff.mpr hnil
    cases hc : b.closed with
    | true =>
      have htake : b.take rs t expired = (.closed, b, rs') := by simp [Bag.take, hlook, hc]
      rw [htake]
      exact ⟨hb, .dismiss hempty hc⟩
    | false =>
      cases expired with
      | true =>
        have htake : b.take rs t true = (.timedOut, b, rs') := by simp [Bag.take, hlook, hc]
        rw [htake]
        exact ⟨hb, .late hempty hc⟩
      | false =>
        have htake : b.take rs t false = (.parked, { b with parked := b.parked ++ [t] }, rs') := by
          simp [Bag.take, hlook, hc]
        rw [htake]
        exact ⟨⟨hb.nodup, hb.lt⟩, .park hempty hc⟩
  · have htake : b.take rs t expired = (.item e.2, { b with entries := pre ++ post }, rs') := by
      simp [Bag.take, hlook]
    rw [htake]
    exact ⟨hb.erase heq, .hand (toList_erase heq)⟩

/-- `h'` is what a container `h` becomes by serving a request. -/
structure Next (h : Handoff α) (r : Request α) (e : Effect α) (h' : Handoff α) : Prop where
  numbered : h'.Numbered
  strategy : h'.strategy = h.strategy
  serves : Serves h.strategy.order h.view r e h'.view

variable {h : Handoff α}

theorem put_next (hn : h.Numbered) (hv : h.view.Orderly) (rs : Recents) (t : Thread) (a : α) :
    Next h (.put t a) (.offered (h.put rs t a).1) (h.put rs t a).2.1 := by
  cases h with
  | fifo q => exact ⟨trivial, rfl, fifo_put hv t a⟩
  | rendezvous z => exact ⟨trivial, rfl, rendezvous_put t a⟩
  | bag b =>
    obtain ⟨hnum, hserves⟩ := bag_put hn hv rs t a
    exact ⟨hnum, rfl, hserves⟩

theorem tryTake_next (hn : h.Numbered) (rs : Recents) (t : Thread) :
    Next h (.tryTake t) (.found (h.tryTake rs t).1) (h.tryTake rs t).2.1 := by
  cases h with
  | fifo q => exact ⟨trivial, rfl, fifo_tryTake q t⟩
  | rendezvous z => exact ⟨trivial, rfl, rendezvous_tryTake z t⟩
  | bag b =>
    obtain ⟨hnum, hserves⟩ := bag_tryTake hn rs t
    exact ⟨hnum, rfl, hserves⟩

theorem take_next (hn : h.Numbered) (rs : Recents) (t : Taker) (expired : Bool) :
    Next h (.take t expired) (.took t (h.take rs t expired).1) (h.take rs t expired).2.1 := by
  cases h with
  | fifo q => exact ⟨trivial, rfl, fifo_take q t expired⟩
  | rendezvous z => exact ⟨trivial, rfl, rendezvous_take z t expired⟩
  | bag b =>
    obtain ⟨hnum, hserves⟩ := bag_take hn rs t expired
    exact ⟨hnum, rfl, hserves⟩

theorem withdraw_next (hn : h.Numbered) (id : Nat) :
    Next h (.expire id) (.gaveUp (h.parked.filter (·.id = id))) (h.withdraw id) where
  numbered := hn.withdraw id
  strategy := by cases h <;> rfl
  serves := Serves.expire.target
    (View.ext (toList_withdraw h id) (parked_withdraw h id) (isClosed_withdraw h id))

theorem close_next (h : Handoff α) :
    Next h .close (.drained h.close.1 h.close.2.1) h.close.2.2 := by
  obtain ⟨h', hn, hc, hnil, hpk, hclose⟩ := close_cases h
  have hstrategy : h.close.2.2.strategy = h.strategy := by cases h <;> rfl
  rw [hclose] at hstrategy ⊢
  exact ⟨hn, hstrategy, Serves.close.target (View.ext hnil hpk hc)⟩

theorem Next.orderly {r : Request α} {e : Effect α} {h' : Handoff α} (hn : Next h r e h')
    (hv : h.view.Orderly) : h'.view.Orderly :=
  hn.serves.orderly h.strategy.perm_of_order hv

end Handoff

/-- A container in use, with the lists that threads keep beside it. -/
structure Exchange (α : Type) where
  handoff : Handoff α
  recents : Recents := {}

namespace Exchange

open Handoff

/-- A container that nobody has used yet, beside whatever lists the threads have. -/
def new (s : Strategy) (owner : Nat) (rs : Recents) : Exchange α := ⟨.new s owner, rs⟩

/-- One request, with all that it comes to. -/
def step (x : Exchange α) : Request α → Effect α × Exchange α
  | .put t a =>
    let (o, h, rs) := x.handoff.put x.recents t a
    (.offered o, ⟨h, rs⟩)
  | .tryTake t =>
    let (a, h, rs) := x.handoff.tryTake x.recents t
    (.found a, ⟨h, rs⟩)
  | .take t expired =>
    let (k, h, rs) := x.handoff.take x.recents t expired
    (.took t k, ⟨h, rs⟩)
  | .expire id =>
    (.gaveUp (x.handoff.parked.filter (·.id = id)), ⟨x.handoff.withdraw id, x.recents⟩)
  | .close =>
    let (as, ts, h) := x.handoff.close
    (.drained as ts, ⟨h, x.recents⟩)

def after (x : Exchange α) (rs : List (Request α)) : Exchange α :=
  rs.foldl (fun x r => (x.step r).2) x

/-- What holds of a container between any two requests. -/
structure Sound (x : Exchange α) : Prop where
  numbered : x.handoff.Numbered
  orderly : x.handoff.view.Orderly

variable {x : Exchange α}

theorem sound_new (s : Strategy) (owner : Nat) (rs : Recents) :
    (new s owner rs : Exchange α).Sound :=
  ⟨numbered_new s owner, orderly_new s owner⟩

theorem Sound.next (hx : x.Sound) (r : Request α) :
    Next x.handoff r (x.step r).1 (x.step r).2.handoff := by
  cases r with
  | put t a => exact put_next hx.numbered hx.orderly x.recents t a
  | tryTake t => exact tryTake_next hx.numbered x.recents t
  | take t expired => exact take_next hx.numbered x.recents t expired
  | expire id => exact withdraw_next hx.numbered id
  | close => exact close_next x.handoff

theorem Sound.step (hx : x.Sound) (r : Request α) : (x.step r).2.Sound :=
  ⟨(hx.next r).numbered, (hx.next r).orderly hx.orderly⟩

theorem Sound.after (hx : x.Sound) (rs : List (Request α)) : (x.after rs).Sound := by
  induction rs generalizing x with
  | nil => exact hx
  | cons r rs ih => exact ih (hx.step r)

end Exchange
end ConnPool
