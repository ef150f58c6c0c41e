import ConnPool.Proofs.RendezvousRegistrations

namespace ConnPool
namespace Rendezvous
namespace Crowd

variable {α : Type} {c c' d : Crowd α} {n w : Nat} {ph ph' : Phase α}

/-- What a call comes to by steps of its own. -/
def Comes (n : Nat) (c c' : Crowd α) : Prop := ∃ k, c.run (.replicate k (.go n)) = c'

theorem Comes.refl (n : Nat) (c : Crowd α) : Comes n c c := ⟨0, rfl⟩

theorem Comes.head (h : c.step (.go n) = d) (hrest : Comes n d c') : Comes n c c' := by
  obtain ⟨k, hk⟩ := hrest
  refine ⟨k + 1, ?_⟩
  rw [List.replicate_succ]
  change (c.step (.go n)).run _ = _
  rw [h, hk]

theorem Comes.trans (h : Comes n c d) (h' : Comes n d c') : Comes n c c' := by
  obtain ⟨k, rfl⟩ := h
  obtain ⟨j, rfl⟩ := h'
  refine ⟨k + j, ?_⟩
  rw [← List.replicate_append_replicate]
  exact List.foldl_append

theorem step_go {i : Nat} (h : c.phases[i]? = some ph) : c.step (.go i) = c.next i ph := by
  simp only [step, h]

section begin

variable (c) (ph) (ph')

@[simp] theorem begin_shared : (c.begin ph).shared = c.shared := rfl

@[simp] theorem begin_waiting : (c.begin ph).waiting = c.waiting := rfl

@[simp] theorem begin_slots : (c.begin ph).slots = c.slots := rfl

@[simp] theorem begin_waiters : (c.begin ph).waiters = c.waiters := rfl

@[simp] theorem begin_closed : (c.begin ph).closed = c.closed := rfl

theorem go_begin : (c.begin ph).step (.go c.phases.length) = (c.begin ph).next c.phases.length ph :=
  step_go List.getElem?_concat_length

theorem move_begin : (c.begin ph).move c.phases.length ph' = c.begin ph' := by
  simp [move, begin]

end begin

/-- The last call to come does its next step. -/
theorem Comes.step (h : (c.begin ph).next c.phases.length ph = d)
    (hrest : Comes c.phases.length d c') : Comes c.phases.length (c.begin ph) c' :=
  .head ((go_begin c ph).trans h) hrest

theorem Comes.last (h : (c.begin ph).next c.phases.length ph = c') :
    Comes c.phases.length (c.begin ph) c' :=
  .step h (.refl _ _)

/-- Nobody stands at the gate while a call is the only one. -/
theorem Quiet.free (hq : c.Quiet) {p : Phase α → Bool} (hp : ∀ ph, ph.settled = true → p ph = false)
    (hph : p ph = false) : (c.begin ph).count p = 0 := by
  rw [count_begin, hq.count_eq hp, hph]
  rfl

theorem settled_idle (ph : Phase α) (h : ph.settled = true) :
    ph.reads = false ∧ ph.writes = false := by
  cases ph <;> first | exact ⟨rfl, rfl⟩ | cases h

/-- Whatever a slot is given, the line looks the same. -/
theorem view_amend (c : Crowd α) (w : Nat) {f : Slot α → Slot α}
    (hf : ∀ s, (f s).abandoned = s.abandoned) : (c.amend w f).view = c.view := by
  have hsame : ∀ v, ((c.amend w f).slots v).abandoned = (c.slots v).abandoned := by
    intro v
    by_cases hv : v = w
    · subst hv
      simp [amend, hf]
    · simp [amend, hv]
  simp only [view, hsame]
  rfl

/-- What a producer is told. -/
def told : Offer α → Outcome α
  | .rejected a => .rejected a
  | _ => .stored

/-- What an item that is handed over does to the slots. -/
def filled (slots : Nat → Slot α) : Offer α → Nat → Slot α
  | .served t a => Function.update slots t.id ((slots t.id).fill a)
  | _ => slots

/-- A producer goes along the line, past those who gave up. -/
theorem look_alone (c : Crowd α) (a : α) (hopen : c.closed = false)
    (hblank : ∀ w ∈ c.waiting, (c.slots w).item = none ∧ (c.slots w).marked = false) :
    ∃ r : Crowd α,
      Comes c.phases.length (c.begin (.look a none)) (r.begin (.done (told (c.view.put a).1))) ∧
        r.phases = c.phases ∧ r.view = (c.view.put a).2 ∧
        r.slots = filled c.slots (c.view.put a).1 := by
  induction hw : c.waiting generalizing c with
  | nil =>
    have hput : c.view.put a = (.kept, ({ c with shared := c.shared ++ [a] } : Crowd α).view) := by
      simp [put, view, hopen, hw]
    rw [hput]
    refine ⟨{ c with shared := c.shared ++ [a] }, .step (d := c.begin (.push a none)) ?_
      (.last ?_), rfl, rfl, rfl⟩
    · simp only [next, begin_waiting, hw]
      exact move_begin c _ _
    · exact move_begin { c with shared := c.shared ++ [a] } _ _
  | cons v vs ih =>
    have htaken : (c.begin (.look a none)).next c.phases.length (.look a none) =
        { c with waiting := vs }.begin (.deliver v a none) := by
      simp only [next, begin_waiting, hw]
      exact move_begin { c with waiting := vs } _ _
    obtain ⟨hitem, hmarked⟩ := hblank v (by simp [hw])
    by_cases hgone : (c.slots v).abandoned = true
    · have hdeaf : (c.slots v).vacant = false := by simp [Slot.vacant, hgone]
      have hpassed : ({ c with waiting := vs }.begin (.deliver v a none)).next c.phases.length
          (.deliver v a none) = { c with waiting := vs }.begin (.look a none) := by
        simp only [next, begin_slots, hdeaf, Bool.false_eq_true, if_false]
        exact move_begin { c with waiting := vs } _ _
      have hsame : c.view.put a = ({ c with waiting := vs } : Crowd α).view.put a := by
        simp [put, view, hopen, hw, hgone]
      obtain ⟨r, hcomes, hphases, hr⟩ := ih { c with waiting := vs } hopen
        (fun u hu => hblank u (by simp [hw, show u ∈ vs from hu])) rfl
      rw [hsame]
      exact ⟨r, .step htaken (.step hpassed hcomes), hphases, hr⟩
    · have hvacant : (c.slots v).vacant = true :=
        Slot.vacant_iff.mpr ⟨hitem, Bool.eq_false_iff.mpr hgone, hmarked⟩
      have hfilled : ({ c with waiting := vs }.begin (.deliver v a none)).next c.phases.length
          (.deliver v a none) =
            (({ c with waiting := vs } : Crowd α).amend v (.fill a)).begin (.done .stored) := by
        simp only [next, begin_slots, hvacant, if_true]
        exact move_begin (({ c with waiting := vs } : Crowd α).amend v (.fill a)) _ _
      have hput : c.view.put a =
          (.served ⟨v, .background⟩ a, ({ c with waiting := vs } : Crowd α).view) := by
        simp [put, view, hopen, hw, hgone]
      rw [hput]
      exact ⟨({ c with waiting := vs } : Crowd α).amend v (.fill a),
        .step htaken (.last hfilled), rfl, view_amend _ _ fun _ => rfl, rfl⟩

theorem Sound.blank_line (h : c.Sound) :
    ∀ w ∈ c.waiting, (c.slots w).item = none ∧ (c.slots w).marked = false := by
  intro w hw
  exact h.blank w (Nat.lt_of_lt_of_le (List.count_pos_iff.mpr hw) (Nat.le_add_right _ _))

/-- A put that nobody comes between. -/
theorem put_alone (hs : c.Sound) (hq : c.Quiet) (a : α) :
    ∃ r : Crowd α,
      Comes c.phases.length (c.step (.put a)) (r.begin (.done (told (c.view.put a).1))) ∧
        r.phases = c.phases ∧ r.view = (c.view.put a).2 ∧
        r.slots = filled c.slots (c.view.put a).1 := by
  have hfree : (c.begin (.knock a none)).count (·.writes) = 0 :=
    hq.free (fun ph hph => (settled_idle ph hph).2) rfl
  have hentered : (c.begin (.knock a none)).next c.phases.length (.knock a none) =
      c.begin (.check a none) := by
    simp only [next, hfree, if_true]
    exact move_begin c _ _
  by_cases hclosed : c.closed = true
  · have hput : c.view.put a = (.rejected a, c.view) := by
      simp [put, view, hclosed]
    rw [hput]
    refine ⟨c, .step hentered (.last ?_), rfl, rfl, rfl⟩
    simp only [next, begin_closed, hclosed, if_true, Option.isSome_none, Bool.false_eq_true,
      if_false]
    exact move_begin c _ _
  · have hchecked : (c.begin (.check a none)).next c.phases.length (.check a none) =
        c.begin (.look a none) := by
      simp only [next, begin_closed, hclosed, Bool.false_eq_true, if_false]
      exact move_begin c _ _
    obtain ⟨r, hcomes, hr⟩ := look_alone c a (Bool.eq_false_iff.mpr hclosed) hs.blank_line
    exact ⟨r, .step hentered (.step hchecked hcomes), hr⟩

/-- A taker clears the line: those who gave up are dropped, and the others come behind those that it
has put back already. -/
theorem sift_alone (c : Crowd α) (l k : List Nat) :
    Comes c.phases.length ({ c with waiting := l ++ k }.begin (.sift l.length))
      ({ c with waiting := k ++ l.filter fun w => !(c.slots w).abandoned }.begin .enroll) := by
  induction l generalizing k with
  | nil =>
    rw [List.filter_nil, List.append_nil]
    exact .last (move_begin { c with waiting := k } _ _)
  | cons v l ih =>
    have htaken :
      ({ c with waiting := v :: l ++ k }.begin (.sift (l.length + 1))).next c.phases.length
        (.sift (l.length + 1)) = { c with waiting := l ++ k }.begin (.judge l.length v) :=
      move_begin { c with waiting := l ++ k } _ _
    by_cases hgone : (c.slots v).abandoned = true
    · have hdropped : ({ c with waiting := l ++ k }.begin (.judge l.length v)).next c.phases.length
          (.judge l.length v) = { c with waiting := l ++ k }.begin (.sift l.length) := by
        simp only [next, begin_slots, hgone, if_true]
        exact move_begin { c with waiting := l ++ k } _ _
      have hfilter : (v :: l).filter (fun w => !(c.slots w).abandoned) =
          l.filter fun w => !(c.slots w).abandoned := by
        simp [hgone]
      rw [hfilter]
      exact .step htaken (.step hdropped (ih k))
    · have hjudged : ({ c with waiting := l ++ k }.begin (.judge l.length v)).next c.phases.length
          (.judge l.length v) = { c with waiting := l ++ k }.begin (.putBack l.length v) := by
        simp only [next, begin_slots, hgone, Bool.false_eq_true, if_false]
        exact move_begin { c with waiting := l ++ k } _ _
      have hback : ({ c with waiting := l ++ k }.begin (.putBack l.length v)).next c.phases.length
          (.putBack l.length v) = { c with waiting := l ++ (k ++ [v]) }.begin (.sift l.length) := by
        rw [← List.append_assoc]
        exact move_begin { c with waiting := l ++ k ++ [v] } _ _
      have hfilter : k ++ (v :: l).filter (fun w => !(c.slots w).abandoned) =
          k ++ [v] ++ l.filter fun w => !(c.slots w).abandoned := by
        simp [hgone]
      rw [hfilter]
      exact .step htaken (.step hjudged (.step hback (ih (k ++ [v]))))

/-- Whoever sleeps has nothing to wake for. -/
def Idle (c : Crowd α) : Prop := ∀ w, c.phases[w]?.any (·.sleeps) = true → c.Forlorn w

/-- Those that the line shows as waiting are those that are counted. -/
theorem waiters_eq (hs : c.Sound) (hq : c.Quiet) (hidle : c.Idle) :
    c.view.parked.length = c.waiters := by
  have hsleeps : c.waiters = c.count (·.sleeps) := by
    rw [hs.counted]
    apply List.countP_congr
    intro ph hph
    have hsettled := hq ph hph
    cases ph <;> first | rfl | cases hsettled
  have hline :
      c.view.parked.length = (c.waiting.filter fun w => !(c.slots w).abandoned).length := by
    simp only [parked, view, List.length_map, List.filter_map]
    rfl
  rw [hsleeps, count, ← length_filter_range, hline]
  apply List.Perm.length_eq
  have hnodup : c.waiting.Nodup := by
    rw [List.nodup_iff_count_le_one]
    intro w
    exact Nat.le_trans (Nat.le_add_right _ _) (hs.once w)
  rw [List.perm_ext_iff_of_nodup (hnodup.filter _) (List.nodup_range.filter _)]
  intro w
  simp only [List.mem_filter, List.mem_range, Bool.not_eq_true']
  constructor
  · rintro ⟨hw, hlive⟩
    have hlistens :=
      hs.kept w (Nat.lt_of_lt_of_le (List.count_pos_iff.mpr hw) (Nat.le_add_right _ _)) hlive
    obtain ⟨ph, hph, hl⟩ := (Option.any_eq_true ..).mp hlistens
    have hsettled := hq ph (List.mem_of_getElem? hph)
    refine ⟨(List.getElem?_eq_some_iff.mp hph).1, ?_⟩
    rw [hph]
    cases ph <;> simp_all [Phase.settled, Phase.listens, Phase.sleeps]
  · rintro ⟨-, hw⟩
    obtain ⟨-, hvacant, hcount⟩ := (hidle w hw).registered hs hq
    exact ⟨List.count_pos_iff.mp (by omega), (Slot.vacant_iff.mp hvacant).2.1⟩

/-- What a taker has come to. -/
def reached : Taking α → Phase α
  | .item a => .done (.took (.item a))
  | .timedOut => .done (.took .timedOut)
  | .closed => .done (.took .closed)
  | .parked => .asleep

/-- A taker measures the line, and clears it if it is long. -/
theorem prune_alone (hs : c.Sound) (hq : c.Quiet) (hidle : c.Idle) :
    ∃ ws, Comes c.phases.length (c.begin .measure) ({ c with waiting := ws }.begin .enroll) ∧
      ({ c with waiting := ws } : Crowd α).view = c.view.prune := by
  have hparked := waiters_eq hs hq hidle
  have hlength : c.view.waiting.length = c.waiting.length := List.length_map _
  have hmeasured : (c.begin .measure).next c.phases.length .measure =
    c.begin (.weigh c.waiting.length) :=
    move_begin c _ _
  by_cases hshort : c.waiting.length ≤ 2 * c.waiters + slack
  · refine ⟨c.waiting, .step hmeasured (.last ?_), ?_⟩
    · simp only [next, begin_waiters, hshort, if_true]
      exact move_begin c _ _
    · rw [prune, hlength, hparked, if_pos hshort]
  · have hweighed : (c.begin (.weigh c.waiting.length)).next c.phases.length
      (.weigh c.waiting.length) =
        c.begin (.sift c.waiting.length) := by
      simp only [next, begin_waiters, hshort, if_false]
      exact move_begin c _ _
    have hsifted := sift_alone c c.waiting []
    rw [List.append_nil, List.nil_append] at hsifted
    refine ⟨_, .step hmeasured (.step hweighed hsifted), ?_⟩
    rw [prune, hlength, hparked, if_neg hshort]
    simp only [view, List.filter_map]
    rfl

/-- A take that nobody comes between. -/
theorem take_alone (hs : c.Sound) (hq : c.Quiet) (hidle : c.Idle) :
    ∃ r : Crowd α, Comes c.phases.length (c.step .take)
        (r.begin (reached (c.view.take ⟨c.phases.length, .background⟩ false).1)) ∧
      r.phases = c.phases ∧ r.view = (c.view.take ⟨c.phases.length, .background⟩ false).2 ∧
      r.slots = c.slots := by
  cases hx : c.shared with
  | cons x xs =>
    have htake : c.view.take ⟨c.phases.length, .background⟩ false =
        (.item x, ({ c with shared := xs } : Crowd α).view) := by
      simp [take, view, hx]
    rw [htake]
    refine ⟨{ c with shared := xs }, .last ?_, rfl, rfl, rfl⟩
    simp only [next, begin_shared, hx]
    exact move_begin { c with shared := xs } _ _
  | nil =>
    have hfirst : (c.begin .first).next c.phases.length .first = c.begin .second := by
      simp only [next, begin_shared, hx]
      exact move_begin c _ _
    by_cases hclosed : c.closed = true
    · have htake : c.view.take ⟨c.phases.length, .background⟩ false = (.closed, c.view) := by
        simp [take, view, hx, hclosed]
      rw [htake]
      refine ⟨c, .step hfirst (.last ?_), rfl, rfl, rfl⟩
      simp only [next, begin_closed, hclosed, if_true]
      exact move_begin c _ _
    · have hsecond : (c.begin .second).next c.phases.length .second = c.begin .measure := by
        simp only [next, begin_closed, hclosed, Bool.false_eq_true, if_false]
        exact move_begin c _ _
      obtain ⟨ws, hpruned, hview⟩ := prune_alone hs hq hidle
      have hfresh : c.slots c.phases.length = {} :=
        (hs.absent _ (by rw [List.getElem?_eq_none (Nat.le_refl _)]; rfl)).2
      let r : Crowd α := { c with waiting := ws ++ [c.phases.length], waiters := c.waiters + 1 }
      have htake : c.view.take ⟨c.phases.length, .background⟩ false = (.parked, r.view) := by
        have hopen : c.view.closed = false := Bool.eq_false_iff.mpr hclosed
        have hempty : c.view.shared = [] := hx
        simp only [take, hempty, hopen, Bool.false_eq_true, if_false, ← hview]
        simp [view, r, hfresh]
      rw [htake]
      have henroll : ({ c with waiting := ws }.begin .enroll).next c.phases.length .enroll =
          { c with waiting := ws, waiters := c.waiters + 1 }.begin .register :=
        move_begin { c with waiting := ws, waiters := c.waiters + 1 } _ _
      have hregister : ({ c with waiting := ws, waiters := c.waiters + 1 }.begin .register).next
          c.phases.length .register = r.begin .last :=
        move_begin r _ _
      have hlast : (r.begin .last).next c.phases.length .last = r.begin .ask := by
        simp only [next, begin_shared, show r.shared = [] from hx]
        exact move_begin r _ _
      have hask : (r.begin .ask).next c.phases.length .ask = r.begin .park := by
        simp only [next, begin_closed, show r.closed = false from Bool.eq_false_iff.mpr hclosed,
          Bool.false_eq_true, if_false]
        exact move_begin r _ _
      have hpark : (r.begin .park).next c.phases.length .park = r.begin .asleep := by
        simp only [next, rest, begin_slots, show r.slots c.phases.length = {} from hfresh,
          Option.isSome_none, Bool.false_eq_true, if_false]
        exact move_begin r _ _
      have hsleep : Comes r.phases.length (r.begin .last) (r.begin .asleep) :=
        .step hlast (.step hask (.last hpark))
      have henter : Comes c.phases.length ({ c with waiting := ws }.begin .enroll)
        (r.begin .asleep) :=
        .step henroll (.step hregister hsleep)
      exact ⟨r, .step hfirst (.step hsecond (hpruned.trans henter)), rfl, rfl, rfl⟩

theorem tryTake_alone (c : Crowd α) :
    ∃ r : Crowd α, Comes c.phases.length (c.step .tryTake)
    (r.begin (.done (.tried c.view.tryTake.1))) ∧
      r.phases = c.phases ∧ r.view = c.view.tryTake.2 := by
  cases hx : c.shared with
  | nil =>
    have htry : c.view.tryTake = (none, c.view) := by
      simp [tryTake, view, hx]
    rw [htry]
    refine ⟨c, .last ?_, rfl, rfl⟩
    simp only [next, begin_shared, hx]
    exact move_begin c _ _
  | cons x xs =>
    have htry : c.view.tryTake = (some x, ({ c with shared := xs } : Crowd α).view) := by
      simp [tryTake, view, hx]
    rw [htry]
    refine ⟨{ c with shared := xs }, .last ?_, rfl, rfl⟩
    simp only [next, begin_shared, hx]
    exact move_begin { c with shared := xs } _ _

/-- A sleeper's deadline passes, and nobody comes between until it has left. -/
theorem withdraw_alone (hf : c.Forlorn w) :
    let r := (c.step (.expire w)).step (.go w)
    r.view = c.view.withdraw w ∧ r.phases = c.phases.set w (.done (.took .timedOut)) := by
  intro r
  obtain ⟨hsleeps, hitem, hmarked⟩ := hf
  have hasleep : c.phases[w]? = some .asleep :=
    asleep_of_any (fun ph hph => by cases ph <;> first | rfl | cases hph) hsleeps
  have hlt : w < c.phases.length := (List.getElem?_eq_some_iff.mp hasleep).1
  have hexpired : c.step (.expire w) = (c.amend w .vacate).move w (.leave .timedOut) := by
    simp only [step, hasleep, depart, hitem, hmarked, Option.map_none, Option.getD_none,
      Bool.false_eq_true, if_false]
  have hleaving : ((c.amend w .vacate).move w (.leave .timedOut)).phases[w]? =
      some (.leave .timedOut) := List.getElem?_set_self hlt
  have hr : r = { c.amend w .vacate with
      waiters := c.waiters - 1, phases := c.phases.set w (.done (.took .timedOut)) } := by
    change (c.step (.expire w)).step (.go w) = _
    rw [hexpired, step_go hleaving]
    simp only [next, move, List.set_set]
    rfl
  rw [hr]
  refine ⟨?_, rfl⟩
  simp only [view, amend, withdraw, List.map_map]
  congr 1
  apply List.map_congr_left
  intro v hv
  by_cases hvw : v = w
  · subst hvw
    simp [Slot.vacate]
  · simp [hvw]

/-- A close tells those in the line. -/
theorem rouse_alone (c : Crowd α) (l : List Nat) :
    ∃ r : Crowd α, Comes c.phases.length ({ c with waiting := l }.begin .rouse)
    (r.begin (.drain [])) ∧
      r.phases = c.phases ∧ r.shared = c.shared ∧ r.waiting = [] ∧ r.closed = c.closed ∧
      ∀ w, w ∈ l ∨ (c.slots w).marked = true → (r.slots w).marked = true := by
  induction l generalizing c with
  | nil =>
    exact ⟨{ c with waiting := [] }, .last (move_begin { c with waiting := [] } _ _), rfl, rfl,
      rfl, rfl,
      fun w hw => hw.resolve_left List.not_mem_nil⟩
  | cons v l ih =>
    have htaken : ({ c with waiting := v :: l }.begin .rouse).next c.phases.length .rouse =
        { c with waiting := l }.begin (.notify v) :=
      move_begin { c with waiting := l } _ _
    have htold : ({ c with waiting := l }.begin (.notify v)).next c.phases.length (.notify v) =
        { c.amend v .shut with waiting := l }.begin .rouse :=
      move_begin { c.amend v .shut with waiting := l } _ _
    obtain ⟨r, hcomes, hphases, hshared, hwaiting, hclosed, hmarked⟩ := ih (c.amend v .shut)
    refine ⟨r, .step htaken (.step htold hcomes), hphases, hshared, hwaiting, hclosed, ?_⟩
    intro w hw
    apply hmarked w
    by_cases hvw : w = v
    · subst hvw
      exact .inr (by simp [amend, Slot.shut])
    · refine hw.imp (fun hmem => (List.mem_cons.mp hmem).resolve_left hvw) fun hold => ?_
      simpa [amend, hvw] using hold

theorem drain_alone (c : Crowd α) (xs as : List α) :
    Comes c.phases.length ({ c with shared := xs }.begin (.drain as))
      ({ c with shared := [] }.begin (.done (.drained (as ++ xs)))) := by
  induction xs generalizing as with
  | nil =>
    rw [List.append_nil]
    exact .last (move_begin { c with shared := [] } _ _)
  | cons x xs ih =>
    have htaken :
        ({ c with shared := x :: xs }.begin (.drain as)).next c.phases.length (.drain as) =
        { c with shared := xs }.begin (.drain (as ++ [x])) :=
      move_begin { c with shared := xs } _ _
    have hrest := ih (as ++ [x])
    rw [List.append_assoc, List.singleton_append] at hrest
    exact .step htaken hrest

/-- A close that nobody comes between. -/
theorem close_alone (hq : c.Quiet) :
    ∃ r : Crowd α, Comes c.phases.length (c.step .close)
    (r.begin (.done (.drained c.view.close.1))) ∧
      r.phases = c.phases ∧ r.view = c.view.close.2.2 ∧
      ∀ t ∈ c.view.close.2.1, (r.slots t.id).marked = true := by
  have hfree : (c.begin .shut).count (·.reads) = 0 ∧ (c.begin .shut).count (·.writes) = 0 :=
    ⟨hq.free (fun ph hph => (settled_idle ph hph).1) rfl,
      hq.free (fun ph hph => (settled_idle ph hph).2) rfl⟩
  have hentered : (c.begin .shut).next c.phases.length .shut = c.begin .mark := by
    simp only [next, hfree, and_self, if_true]
    exact move_begin c _ _
  have hmarked : (c.begin .mark).next c.phases.length .mark =
    { c with closed := true }.begin .rouse :=
    move_begin { c with closed := true } _ _
  obtain ⟨r, hroused, hphases, hshared, hwaiting, hclosed, htold⟩ :=
    rouse_alone { c with closed := true } c.waiting
  have hdrained := drain_alone r r.shared []
  rw [List.nil_append, show r.phases.length = c.phases.length from congrArg List.length
    hphases] at hdrained
  have hclose :
      c.view.close = (r.shared, c.view.parked, ({ r with shared := [] } : Crowd α).view) := by
    simp [close, view, hshared, hwaiting, hclosed]
  rw [hclose]
  refine ⟨{ r with shared := [] }, .step hentered (.step hmarked (hroused.trans hdrained)),
    hphases, rfl,
    fun t ht => htold t.id (.inl ?_)⟩
  obtain ⟨x, hx, rfl⟩ := List.mem_map.mp ht
  obtain ⟨v, hv, rfl⟩ := List.mem_map.mp (List.mem_filter.mp hx).1
  exact hv

end Crowd
end Rendezvous
end ConnPool
