import ConnPool.Proofs.NewHandle
import ConnPool.Proofs.Claim
import Mathlib.Logic.Relation

namespace ConnPool.Pool

/-- Any number of steps on behalf of one acquirer. -/
abbrev Steps (who : Option Nat) : Pool → Pool → Prop := Relation.ReflTransGen (Step who)

variable {who : Option Nat} {p q r : Pool} {id : HandleId}

theorem Step.steps (h : Step who p q) : Steps who p q := .single h

/-- What is only heard or written down may be added to any course. -/
theorem Steps.hush (h : Steps who p q) (same : r.muted = q.muted) : Steps who p r :=
  h.tail (.hush same)

theorem Steps.of_muted (same : q.muted = p.muted) : Steps who p q := .single (.hush same)

theorem Steps.sound (h : Steps who p q) (hp : p.Sound) : q.Sound := by
  induction h with
  | refl => exact hp
  | tail first last ih => exact last.sound ih

theorem Steps.final (h : Steps who p q) (hp : p.Sound) (hfinal : p.Final) : q.Final := by
  induction h with
  | refl => exact hfinal
  | tail first last ih => exact (last.keeps (Steps.sound first hp)).final ih

theorem Steps.closed (h : Steps who p q) (hp : p.Sound) : q.closed = p.closed := by
  induction h with
  | refl => rfl
  | tail first last ih => exact (last.keeps (Steps.sound first hp)).closed.trans ih

theorem Steps.moves (h : Steps who p q) (hp : p.Sound) : Ledger.Moves p.ledger [] q.ledger := by
  induction h with
  | refl => exact .refl _
  | tail first last ih => exact ih.trans (last.moves (Steps.sound first hp).books.fitting)

/-- All that one operation does: steps, one loan and steps that leave the gauges alone, one birth,
or the closing. -/
inductive Course (who : Option Nat) (p : Pool) : List Birth → Pool → Prop where
  | calm {q : Pool} (steps : Steps who p q) : Course who p [] q
  | lent {m n q : Pool} (before : Steps who p m) (lend : Lend who m n) (after : Steps who n q)
    (same : q.gauges = n.gauges) : Course who p [] q
  | birth {m q : Pool} {c : Creation} {cs : List Creation} {x : Connection} (before : Steps who p m)
    (first : m.inFlight = c :: cs) (serial : x.serial = m.attempts + 1)
    (after : Steps who (m.birth c x) q) (same : q.gauges = (m.birth c x).gauges) :
    Course who p [⟨m.attempts + 1, ⟨m.nextHandle⟩⟩] q
  | closing {m q : Pool} (before : Steps who p m) (isOpen : m.closed = false)
    (after : Steps who m.shut q) (final : q.Final) : Course who p [] q

theorem Course.prepend {bs : List Birth} (h : Steps who p q) (k : Course who q bs r) :
    Course who p bs r := by
  cases k with
  | calm steps => exact .calm (h.trans steps)
  | lent before lend after same => exact .lent (h.trans before) lend after same
  | birth before first serial after same => exact .birth (h.trans before) first serial after same
  | closing before isOpen after final => exact .closing (h.trans before) isOpen after final

variable (p) in
/-- Of a handle that goes only its number, its state, its slot and its mark count. -/
theorem remove_modify (f : Handle → Handle) (hf : ∀ h, (f h).id = h.id) {h k : Handle}
    (hid : h.id = id) (hk : k.id = id) (hs : k.state = h.state) (hc : k.slot = h.slot)
    (hm : k.queued = h.queued) : (p.modifyHandle id f).remove k = p.remove h := by
  have hh := filter_modify p.handles id f hf
  simp only [remove, modifyHandle, hid, hk, hs, hc, hm, hh]

/-- A handle that is moved to its end, its connection in its slot, is expelled. On the way there
only what leaves with it may have changed. -/
theorem steps_destroyNow {h k : Handle} {c : Connection} {s : State} (reason : DestroyReason)
    (hf : p.find? id = some h) (hc : h.slot = some c) (hk : q.find? id = some k)
    (hs : k.state = s) (hend : s ≠ .toDestroy)
    (hsame : (q.remove k).muted = ((p.count reason.charge).remove h).muted) :
    Steps who p ((destroyNow id reason false).run (q.restate id s .toDestroy)).2 := by
  subst hs
  exact (Step.expel reason hf hc).steps.hush ((destroyNow_muted hk hend reason false).trans hsame)

theorem steps_repeat {n : Nat} (ho : p.closed = false) (hroom : p.size.count + n ≤ p.cap) :
    Steps who p (n.repeat (schedule none) p) ∧
      (n.repeat (schedule none) p).closed = false ∧
      (n.repeat (schedule none) p).size.count = p.size.count + n ∧
      (n.repeat (schedule none) p).cap = p.cap := by
  induction n with
  | zero => exact ⟨.refl, ho, rfl, rfl⟩
  | succ n ih =>
    obtain ⟨hsteps, hclosed, hsize, hcap⟩ := ih (by omega)
    have hlast : (n.repeat (schedule none) p).hasRoom = true := by
      simp only [hasRoom, hclosed, hsize, hcap, Bool.not_false, Bool.true_and, decide_eq_true_eq]
      omega
    refine ⟨hsteps.tail (.schedule none hlast), hclosed, ?_, hcap⟩
    change (n.repeat (schedule none) p).size.count + 1 = _
    omega

theorem steps_fillTo (target : Nat) : Steps who p (p.fillTo target) := by
  simp only [fillTo]
  split
  · exact .refl
  · next hcl =>
    by_cases hle : min target p.cap ≤ p.size.count
    · have hzero : min target p.cap - p.size.count = 0 := by omega
      rw [hzero]
      exact .refl
    · refine (steps_repeat (by simpa using hcl) ?_).1
      omega

theorem steps_topUp : Steps who p p.topUp := steps_fillTo p.floor

theorem steps_destroy {h k : Handle} {c : Connection} {s : State} (reason : DestroyReason)
    (hf : p.find? id = some h) (hc : h.slot = some c) (hk : q.find? id = some k)
    (hs : k.state = s) (hend : s ≠ .toDestroy)
    (hsame : (q.remove k).muted = ((p.count reason.charge).remove h).muted) :
    Steps who p ((destroy id reason).run (q.restate id s .toDestroy)).2 := by
  simp only [destroy, Act.run_bind, Act.run_update]
  exact (steps_destroyNow reason hf hc hk hs hend hsame).trans steps_topUp

end ConnPool.Pool
