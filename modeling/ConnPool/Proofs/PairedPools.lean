import ConnPool.Proofs.Operation
import ConnPool.Proofs.HandoffRequests
import ConnPool.Proofs.PairedRuns

namespace ConnPool

/-- A note that a pool makes itself, and not one of its listeners. -/
def Note.isOwn : Note → Bool
  | create _ | probe _ | close _ => true
  | line _ _ (("pool", .shown _) :: _) => true
  | _ => false

namespace Pool

/-- The pool with all that lies around another one. -/
def inPlaceOf (p q : Pool) : Pool :=
  { p with
    listeners := q.listeners
    journal := q.journal
    bus := q.bus
    recents := q.recents
    cacheOwner := q.cacheOwner
    handoff := q.handoff }

/-- Ways for two pools to be the same but for what lies around them. That of one looks like that of
the other to the pool itself, and each way lasts through all that a pool does to its
surroundings. -/
class PairRule {φ : Type} (R : φ → Pool → Pool → Prop) : Prop where
  around : ∀ {w p q}, R w p q → q = p.inPlaceOf q
  within : ∀ {w p q p'}, R w p q → p'.inPlaceOf p = p' → R w p' (p'.inPlaceOf q)
  note : ∀ {w p q} (n : Note), n.isOwn = true → R w p q → R w (p.note n) (q.note n)
  notify : ∀ {w p q} (k : Hook), R w p q → R w (p.notify k) (q.notify k)
  emit : ∀ {w p q} (e : Event), R w p q → R w (p.emit e) (q.emit e)
  shut : ∀ {w p q}, R w p q → R w { p with bus := p.bus.close } { q with bus := q.bus.close }
  list : ∀ {w p q} (t : Thread), R w p q →
    q.recents.list q.cacheOwner t = p.recents.list p.cacheOwner t
  set : ∀ {w p q} (t : Thread) (xs : List Nat), R w p q →
    R w { p with recents := p.recents.set p.cacheOwner t xs }
      { q with recents := q.recents.set q.cacheOwner t xs }
  view : ∀ {w p q}, R w p q → q.handoff.view = p.handoff.view
  put : ∀ {w p q} (t : Thread) (id : HandleId), R w p q →
    (q.handoff.put q.recents t id).1 = (p.handoff.put p.recents t id).1 ∧
      R w { p with handoff := (p.handoff.put p.recents t id).2.1
                   recents := (p.handoff.put p.recents t id).2.2 }
        { q with handoff := (q.handoff.put q.recents t id).2.1
                 recents := (q.handoff.put q.recents t id).2.2 }
  tryTake : ∀ {w p q} (t : Thread), R w p q →
    (q.handoff.tryTake q.recents t).1 = (p.handoff.tryTake p.recents t).1 ∧
      R w { p with handoff := (p.handoff.tryTake p.recents t).2.1
                   recents := (p.handoff.tryTake p.recents t).2.2 }
        { q with handoff := (q.handoff.tryTake q.recents t).2.1
                 recents := (q.handoff.tryTake q.recents t).2.2 }
  take : ∀ {w p q} (t : Taker) (expired : Bool), R w p q →
    (q.handoff.take q.recents t expired).1 = (p.handoff.take p.recents t expired).1 ∧
      R w { p with handoff := (p.handoff.take p.recents t expired).2.1
                   recents := (p.handoff.take p.recents t expired).2.2 }
        { q with handoff := (q.handoff.take q.recents t expired).2.1
                 recents := (q.handoff.take q.recents t expired).2.2 }
  withdraw : ∀ {w p q} (n : Nat), R w p q →
    R w { p with handoff := p.handoff.withdraw n } { q with handoff := q.handoff.withdraw n }
  close : ∀ {w p q}, R w p q →
    q.handoff.close.1 = p.handoff.close.1 ∧ q.handoff.close.2.1 = p.handoff.close.2.1 ∧
      R w { p with handoff := p.handoff.close.2.2 } { q with handoff := q.handoff.close.2.2 }

section

variable (p q : Pool)

theorem inPlaceOf_transition (id : HandleId) (s t : State) :
    (p.inPlaceOf q).transition id s t =
      ((p.transition id s t).1, (p.transition id s t).2.inPlaceOf q) := by
  have hstate : (p.inPlaceOf q).stateOf? id = p.stateOf? id := rfl
  simp only [transition, hstate]
  split <;> rfl

theorem inPlaceOf_strike (id : HandleId) (reserved : Bool) :
    (p.inPlaceOf q).strike id reserved = (p.strike id reserved).inPlaceOf q := by
  simp only [strike, inPlaceOf_transition]
  rfl

theorem inPlaceOf_fillTo (target : Nat) :
    (p.inPlaceOf q).fillTo target = (p.fillTo target).inPlaceOf q := by
  have hrepeat : ∀ n : Nat, n.repeat (schedule none) (p.inPlaceOf q) =
      (n.repeat (schedule none) p).inPlaceOf q := by
    intro n
    induction n with
    | zero => rfl
    | succ n ih => simp only [Nat.repeat, ih]; rfl
  have hclosed : (p.inPlaceOf q).closed = p.closed := rfl
  simp only [fillTo, hclosed]
  split
  · rfl
  · exact hrepeat _

theorem inPlaceOf_claim (id : HandleId) :
    (p.inPlaceOf q).claim id = ((p.claim id).1, (p.claim id).2.inPlaceOf q) :=
  inPlaceOf_transition (p.unqueue id) q id _ _

theorem inPlaceOf_grow (a : Acquirer) :
    grow a (p.inPlaceOf q) = ((grow a p).1, (grow a p).2.inPlaceOf q) := by
  have hroom : (p.inPlaceOf q).hasRoom = p.hasRoom := rfl
  simp only [grow, hroom]
  split
  · rfl
  · split <;> rfl

theorem inPlaceOf_claimStale (id : HandleId) :
    (p.inPlaceOf q).claimStale id = ((p.claimStale id).1, (p.claimStale id).2.inPlaceOf q) := by
  have hfind : (p.inPlaceOf q).find? id = p.find? id := rfl
  simp only [claimStale, hfind]
  split
  · rfl
  · next h _ =>
    have hguard : ((p.inPlaceOf q).closed || !(p.inPlaceOf q).isStale h ||
        decide ((p.inPlaceOf q).size.count ≤ (p.inPlaceOf q).floor)) =
          (p.closed || !p.isStale h || decide (p.size.count ≤ p.floor)) := rfl
    have hmoved := inPlaceOf_transition { p with size := p.size.down } q id .checkedIn .toDestroy
    have hsame : transition { p.inPlaceOf q with size := (p.inPlaceOf q).size.down } id
        .checkedIn .toDestroy =
        (inPlaceOf { p with size := p.size.down } q).transition id .checkedIn .toDestroy := rfl
    rw [hguard, hsame, hmoved]
    split
    · rfl
    · rcases transition { p with size := p.size.down } id .checkedIn .toDestroy with ⟨_ | _, r⟩ <;>
        rfl

theorem inPlaceOf_overtake (n : Nat) : (p.inPlaceOf q).overtake n = (p.overtake n).inPlaceOf q := by
  have hflight : (p.inPlaceOf q).inFlight = p.inFlight := rfl
  simp only [overtake, hflight]
  split <;> rfl

theorem inPlaceOf_abandon (n : Nat) : (p.inPlaceOf q).abandon n = (p.abandon n).inPlaceOf q := by
  have hflight : (p.inPlaceOf q).inFlight = p.inFlight := rfl
  have hclosed : (p.inPlaceOf q).closed = p.closed := rfl
  simp only [abandon, hflight, hclosed]
  split
  · next creation _ _ => cases creation.acquirer <;> rfl
  · rfl

end

namespace PairRule

variable {φ : Type} {R : φ → Pool → Pool → Prop} [PairRule R] {w : φ} {p q : Pool}

/-- What has nothing to do with the surroundings is the same for both. -/
theorem inside {f : Pool → Pool} (hf : ∀ p q, f (p.inPlaceOf q) = (f p).inPlaceOf q) (h : R w p q) :
    R w (f p) (f q) := by
  have hq : f q = (f p).inPlaceOf q := (congrArg f (around h)).trans (hf p q)
  have hp : (f p).inPlaceOf p = f p := (hf p p).symm
  rw [hq]
  exact within h hp

theorem inner {α : Type} {f : Pool → α × Pool}
    (hf : ∀ p q, f (p.inPlaceOf q) = ((f p).1, (f p).2.inPlaceOf q)) (h : R w p q) :
    (f q).1 = (f p).1 ∧ R w (f p).2 (f q).2 := by
  have hq : f q = ((f p).1, (f p).2.inPlaceOf q) := (congrArg f (around h)).trans (hf p q)
  exact ⟨congrArg (·.1) hq, inside (f := fun p => (f p).2) (fun p q => congrArg (·.2) (hf p q)) h⟩

/-- What does not look at the surroundings sees the same in both. -/
theorem same {α : Type} {f : Pool → α} (hf : ∀ p q, f (p.inPlaceOf q) = f p) (h : R w p q) :
    f q = f p :=
  (congrArg f (around h)).trans (hf p q)

/-- An event that tells nothing of the surroundings. -/
theorem emitted {e : Pool → Event} (he : ∀ p q, e (p.inPlaceOf q) = e p) (h : R w p q) :
    R w (p.emit (e p)) (q.emit (e q)) := by
  rw [same he h]
  exact emit _ h

theorem log (level : Level) (message : String) (fields : List (String × Field)) (h : R w p q) :
    R w (p.log level message fields) (q.log level message fields) := by
  have hname : q.name = p.name := same (fun _ _ => rfl) h
  simp only [Pool.log, hname]
  exact note _ rfl h

theorem surrender (c : Connection) (h : R w p q) : R w (p.surrender c) (q.surrender c) := by
  have hfactory : q.factory = p.factory := same (fun _ _ => rfl) h
  have hkept : ∀ {p q : Pool}, R w p q →
      R w { p with closures := c :: p.closures } { q with closures := c :: q.closures } :=
    inside (f := fun r => { r with closures := c :: r.closures }) fun _ _ => rfl
  simp only [Pool.surrender, hfactory]
  split
  · exact hkept h
  · exact hkept (note (.close c) rfl h)

theorem logCloseError (id : HandleId) (e : Option String) (h : R w p q) :
    R w (p.logCloseError id e) (q.logCloseError id e) := by
  cases e with
  | none => exact h
  | some e => exact log _ _ _ h

theorem transition (id : HandleId) (s t : State) (h : R w p q) :
    (q.transition id s t).1 = (p.transition id s t).1 ∧
      R w (p.transition id s t).2 (q.transition id s t).2 :=
  inner (f := (·.transition id s t)) (fun p q => inPlaceOf_transition p q id s t) h

theorem topUp (h : R w p q) : R w p.topUp q.topUp :=
  inside (f := Pool.topUp) (fun p q => inPlaceOf_fillTo p q p.floor) h

theorem offer (t : Thread) (id : HandleId) (h : R w p q) :
    (q.offer t id).1 = (p.offer t id).1 ∧ R w (p.offer t id).2 (q.offer t id).2 := by
  obtain ⟨hanswer, hput⟩ := put t id h
  simp only [Pool.offer, hanswer]
  cases (p.handoff.put p.recents t id).1 with
  | rejected a => exact ⟨rfl, hput⟩
  | kept => exact ⟨rfl, hput⟩
  | served taker a => exact ⟨rfl, inside (f := (·.deliver taker a)) (fun _ _ => rfl) hput⟩

theorem cacheLocally (t : Thread) (id : HandleId) (h : R w p q) :
    R w (p.cacheLocally t id) (q.cacheLocally t id) := by
  have haffinity : q.config.threadAffinity = p.config.threadAffinity :=
    same (f := (·.config.threadAffinity)) (fun _ _ => rfl) h
  have hpushed := set t ((id.val :: p.recents.list p.cacheOwner t).take Recents.limit) h
  simp only [Pool.cacheLocally, haffinity, Recents.push, list t h]
  split
  · exact inside (f := (·.modifyHandle id fun h => { h with cachedBy := some t }))
      (fun _ _ => rfl) hpushed
  · exact h

theorem takeLocal (t : Thread) (h : R w p q) :
    (q.takeLocal t).1 = (p.takeLocal t).1 ∧ R w (p.takeLocal t).2 (q.takeLocal t).2 := by
  have haffinity : q.config.threadAffinity = p.config.threadAffinity :=
    same (f := (·.config.threadAffinity)) (fun _ _ => rfl) h
  have hcached : ∀ n, q.isCached t n = p.isCached t n :=
    fun n => same (f := (·.isCached t n)) (fun _ _ => rfl) h
  simp only [Pool.takeLocal, haffinity, list t h, hcached]
  split
  · split
    · next n ns _ =>
      exact ⟨rfl, (transition ⟨n⟩ .checkedIn .checkedOut (set t ns h)).2⟩
    · exact ⟨rfl, set t [] h⟩
  · exact ⟨rfl, h⟩

theorem claim (id : HandleId) (h : R w p q) :
    (q.claim id).1 = (p.claim id).1 ∧ R w (p.claim id).2 (q.claim id).2 :=
  inner (f := (·.claim id)) (fun p q => inPlaceOf_claim p q id) h

theorem takeQueued (t : Thread) (fuel : Nat) (h : R w p q) :
    (q.takeQueued t fuel).1 = (p.takeQueued t fuel).1 ∧
      R w (p.takeQueued t fuel).2 (q.takeQueued t fuel).2 := by
  induction fuel generalizing p q with
  | zero => exact ⟨rfl, h⟩
  | succ fuel ih =>
    obtain ⟨hanswer, htaken⟩ := tryTake t h
    rcases hp : p.handoff.tryTake p.recents t with ⟨x, hp', rp⟩
    rcases hq : q.handoff.tryTake q.recents t with ⟨y, hq', rq⟩
    rw [hp, hq] at hanswer htaken
    obtain rfl : y = x := hanswer
    cases y with
    | none =>
      simp only [Pool.takeQueued, hp, hq, true_and]
      exact htaken
    | some id =>
      obtain ⟨hsame, hclaimed⟩ := claim id htaken
      simp only [Pool.takeQueued, hp, hq]
      rcases hcp : Pool.claim { p with handoff := hp', recents := rp } id with ⟨b, p'⟩
      rcases hcq : Pool.claim { q with handoff := hq', recents := rq } id with ⟨c, q'⟩
      rw [hcp, hcq] at hsame hclaimed
      obtain rfl : c = b := hsame
      cases c with
      | false => exact ih hclaimed
      | true => exact ⟨rfl, hclaimed⟩

theorem takeIdle (t : Thread) (h : R w p q) :
    (q.takeIdle t).1 = (p.takeIdle t).1 ∧ R w (p.takeIdle t).2 (q.takeIdle t).2 := by
  obtain ⟨hanswer, htaken⟩ := takeLocal t h
  simp only [Pool.takeIdle]
  rcases hp : p.takeLocal t with ⟨x, p'⟩
  rcases hq : q.takeLocal t with ⟨y, q'⟩
  rw [hp, hq] at hanswer htaken
  obtain rfl : y = x := hanswer
  cases y with
  | some id => exact ⟨rfl, htaken⟩
  | none =>
    have hsize : q'.handoff.size = p'.handoff.size := congrArg (·.queued.length) (view htaken)
    simp only [takeShared, hsize]
    exact takeQueued t _ htaken

theorem assign (t : Thread) (started : Nat) (id : HandleId) (h : R w p q) :
    R w (p.assign t started id) (q.assign t started id) := by
  have hheld := inside (f := fun r => (r.modifyHandle id fun h =>
    { h with owner := some ⟨t, r.clock⟩ }).count fun n => { n with acquired := n.acquired + 1 })
    (fun _ _ => rfl) h
  have hsaid := emitted (e := fun r => .acquired r.name id (.ofNanos (r.clock - started)))
    (fun _ _ => rfl) hheld
  exact inside (f := fun r => { r.touch id with units := r.units.associate t id })
    (fun _ _ => rfl) hsaid

theorem timedOut (a : Acquirer) (h : R w p q) :
    (Pool.timedOut a q).1 = (Pool.timedOut a p).1 ∧
    R w (Pool.timedOut a p).2 (Pool.timedOut a q).2 := by
  have hfailure : ∀ n,
      Failure.acquireTimeout q.name ((q.clock - a.started) / 1000000) q.activeCount q.cap n =
      .acquireTimeout p.name ((p.clock - a.started) / 1000000) p.activeCount p.cap n :=
    fun n => same (f := fun r => Failure.acquireTimeout r.name ((r.clock - a.started) / 1000000)
      r.activeCount r.cap n) (fun _ _ => rfl) h
  have hwaiters : q.handoff.waiters = p.handoff.waiters := congrArg (·.parked.length) (view h)
  have hanswer : (Pool.timedOut a q).1 = (Pool.timedOut a p).1 :=
    (hfailure _).trans (congrArg (Failure.acquireTimeout _ _ _ _) hwaiters)
  have hcount := inside (f := fun r => r.count fun n => { n with timeouts := n.timeouts + 1 })
    (fun _ _ => rfl) h
  have hsaid := emitted (e := fun r => .acquireTimedOut r.name (.ofNanos (r.clock - a.started)))
    (fun _ _ => rfl) hcount
  have hlogged :=
    log .debug "Acquire timed out" [("error", .shown (Pool.timedOut a p).1.message)] hsaid
  refine ⟨hanswer, ?_⟩
  have hq : (Pool.timedOut a q).2 = ((q.count fun n => { n with timeouts := n.timeouts + 1 }).emit
      (.acquireTimedOut q.name (.ofNanos (q.clock - a.started)))).log .debug "Acquire timed out"
        [("error", .shown (Pool.timedOut a q).1.message)] := rfl
  rw [hq, hanswer]
  exact hlogged

theorem park (a : Acquirer) (h : R w p q) : R w (Pool.park a p) (Pool.park a q) := by
  have hlisted : q.acquirers = p.acquirers := same (fun _ _ => rfl) h
  obtain ⟨hanswer, htaken⟩ := take a.taker false h
  have hjoined : ∀ b, R w
      { p with
        handoff := (p.handoff.take p.recents a.taker false).2.1
        recents := (p.handoff.take p.recents a.taker false).2.2
        acquirers := p.acquirers ++ [b] }
      { q with
        handoff := (q.handoff.take q.recents a.taker false).2.1
        recents := (q.handoff.take q.recents a.taker false).2.2
        acquirers := q.acquirers ++ [b] } :=
    fun b => inside (f := fun r => { r with acquirers := r.acquirers ++ [b] })
      (fun _ _ => rfl) htaken
  have hany : q.acquirers.any (·.taker.id = a.taker.id) =
    p.acquirers.any (·.taker.id = a.taker.id) :=
    congrArg (·.any (·.taker.id = a.taker.id)) hlisted
  simp only [Pool.park, hany, hanswer]
  split
  · exact inside (f := fun r => { r with
      acquirers := r.acquirers.map fun b => if b.taker.id = a.taker.id then a else b })
      (fun _ _ => rfl) h
  · cases (p.handoff.take p.recents a.taker false).1 <;> exact hjoined _

theorem leave (n : Nat) (h : R w p q) : R w (p.leave n) (q.leave n) :=
  withdraw n (inside (f := fun r => { r with acquirers := r.acquirers.filter (·.taker.id ≠ n) })
    (fun _ _ => rfl) h)

theorem closeHandoff (h : R w p q) : R w p.closeHandoff q.closeHandoff := by
  obtain ⟨hids, htakers, hclosed⟩ := close h
  have hempty :=
    inside (f := fun r => (p.handoff.close.1.foldl unqueue r).dismiss p.handoff.close.2.1)
    (fun r s => by simp only [foldl_unqueue]; rfl) hclosed
  simp only [foldl_unqueue] at hempty
  simp only [Pool.closeHandoff, foldl_unqueue, hids, htakers]
  exact hempty

theorem setFloor (n : Nat) (h : R w p q) :
    (q.setFloor n).1 = (p.setFloor n).1 ∧ R w (p.setFloor n).2 (q.setFloor n).2 := by
  have hcap : q.cap = p.cap := same (fun _ _ => rfl) h
  have hmax : q.config.maxSize = p.config.maxSize :=
    same (f := (·.config.maxSize)) (fun _ _ => rfl) h
  have hset := inside (f := fun r => { r with floor := n }) (fun _ _ => rfl) h
  simp only [Pool.setFloor, hcap, hmax]
  split
  · exact ⟨rfl, h⟩
  · exact ⟨rfl, topUp (log _ _ _ hset)⟩

theorem setPatience (d : Duration) (h : R w p q) :
    (q.setPatience d).1 = (p.setPatience d).1 ∧ R w (p.setPatience d).2 (q.setPatience d).2 := by
  have hset : ∀ n, R w { p with patience := n } { q with patience := n } :=
    fun n => inside (f := fun r => { r with patience := n }) (fun _ _ => rfl) h
  simp only [Pool.setPatience]
  split
  · exact ⟨rfl, h⟩
  · exact ⟨rfl, hset _⟩

theorem start (h : R w p q) : R w p.start q.start := by
  have hnamed : ∀ (ws : List Sweep) {p q : Pool}, R w p q →
      R w (ws.foldl (fun p s => p.log .debug "Sweep disabled" [("sweep", .text s.name)]) p)
        (ws.foldl (fun p s => p.log .debug "Sweep disabled" [("sweep", .text s.name)]) q) := by
    intro ws
    induction ws with
    | nil => exact id
    | cons s ws ih => exact fun h => ih (log _ _ _ h)
  have hconfig : ∀ {p q : Pool}, R w p q → q.config = p.config := same fun _ _ => rfl
  have hfilled := hnamed (Sweep.all.filter fun s => (p.config.period s).isZero) h
  simp only [Pool.start, hconfig h]
  rw [hconfig hfilled]
  exact log _ _ _ (inside (f := (·.fillTo _)) (fun p q => inPlaceOf_fillTo p q _) hfilled)

end PairRule
end Pool
end ConnPool
