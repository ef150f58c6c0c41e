import Mathlib.Data.List.TakeWhile
import ConnPool.Proofs.RendezvousRegistrations

namespace ConnPool
namespace Rendezvous
namespace Crowd

variable {α : Type} {c c' : Crowd α} {i w : Nat} {ph ph' : Phase α}

/-- A taker counts on being found: it listens, has been given nothing and been told nothing, and is
not going to learn of a close by itself. -/
def Reliant (c : Crowd α) (w : Nat) : Prop :=
  c.phases[w]?.any (fun ph => ph.stays || ph.nears && !c.closed) = true ∧ (c.slots w).vacant = true

/-- What holds of a taker between any two steps as long as nobody has overlooked it. -/
structure Heeded (c : Crowd α) (w : Nat) : Prop where
  ahead : 0 < c.count (·.pushes) → c.Reliant w → 0 < c.count (·.hands w)
  seen : c.shared ≠ [] → c.phases[w]?.any (·.settling) = true → c.Reliant w →
    0 < c.count (·.hands w)
  told : c.closed = true → c.Reliant w → 0 < c.count (·.rouses)

/-- A thread looks for a registration and finds none, while a taker that clears the line has this
one's in hand; or this one registers while an item is on its way from such a look to the queue. -/
def overlooks (c : Crowd α) (w : Nat) : Move α → Bool
  | .go i =>
    match c.phases[i]? with
    | some (.look _ _) | some .rouse => c.waiting.isEmpty && decide (0 < c.count (·.sifts w))
    | some .register => decide (i = w) && decide (0 < c.count (·.pushes))
    | _ => false
  | _ => false

/-- Whether some step of a run overlooks a taker. -/
def overlooked (c : Crowd α) (w : Nat) : List (Move α) → Bool
  | [] => false
  | m :: ms => c.overlooks w m || (c.step m).overlooked w ms

theorem Reliant.listens (h : c.Reliant w) : c.phases[w]?.any (·.listens) = true := by
  obtain ⟨hphase, -⟩ := h
  cases hw : c.phases[w]? with
  | none =>
    rw [hw] at hphase
    cases hphase
  | some ph =>
    rw [hw] at hphase
    cases ph <;> first | rfl | cases hphase

/-- Who holds a registration is about to serve its taker, or clears the line, or tells of a
close. -/
theorem holds_le (c : Crowd α) (w : Nat) :
    c.count (·.holds w) ≤ c.count (·.hands w) + c.count (·.sifts w) + c.count (·.tells w) := by
  simp only [count]
  induction c.phases with
  | nil => exact Nat.zero_le _
  | cons ph l ih =>
    have hhead : (ph.holds w).toNat ≤ (ph.hands w).toNat + (ph.sifts w).toNat +
        (ph.tells w).toNat := by
      cases ph <;> simp [Phase.holds, Phase.hands, Phase.sifts, Phase.tells]
    simp only [Keyed.countP_first]
    omega

/-- A taker that relies on its registration and has it nowhere in the line is about to be served, or
its registration is being sifted, or it is about to be told of a close. -/
theorem Sound.held (h : c.Sound) (hw : c.Reliant w) (hempty : c.waiting = [])
    (hsifts : c.count (·.sifts w) = 0) (htells : c.count (·.tells w) = 0) :
    0 < c.count (·.hands w) := by
  have hspot := h.found w hw.listens hw.2
  have hle := holds_le c w
  rw [spot, hempty, List.count_nil] at hspot
  omega

theorem Turn.reliant_back (t : Turn c c' i ph ph') (hclosed : c'.closed = c.closed)
    (hvacant : (c'.slots w).vacant = true → (c.slots w).vacant = true)
    (hself : i = w → (ph'.stays || ph'.nears && !c.closed) = true →
      (ph.stays || ph.nears && !c.closed) = true) (hr : c'.Reliant w) : c.Reliant w := by
  obtain ⟨hphase, hslot⟩ := hr
  refine ⟨?_, hvacant hslot⟩
  rw [hclosed] at hphase
  by_cases hi : w = i
  · subst hi
    exact t.any_back (hself rfl) hphase
  · rwa [t.other hi] at hphase

/-- A step of some call that leaves a taker no worse off. -/
theorem Heeded.turn (h : c.Heeded w) (t : Turn c c' i ph ph') (hclosed : c'.closed = c.closed)
    (hvacant : (c'.slots w).vacant = true → (c.slots w).vacant = true ∧ ph.hands w = false)
    (hshared : c'.shared ≠ [] → c.shared ≠ [])
    (hpushes : ph'.pushes = true → ph.pushes = true)
      (hrouses : ph.rouses = true → ph'.rouses = true)
    (hself : i = w →
      ((ph'.stays || ph'.nears && !c.closed) = true → (ph.stays || ph.nears && !c.closed) = true) ∧
        (ph'.settling = true → c'.shared ≠ [] → ph.settling = true)) : c'.Heeded w := by
  have hreliant : c'.Reliant w → c.Reliant w ∧ c.count (·.hands w) ≤ c'.count (·.hands w) := by
    intro hr
    have hcount := t.count (·.hands w)
    rw [(hvacant hr.2).2, Bool.toNat_false] at hcount
    exact ⟨t.reliant_back hclosed (fun hv => (hvacant hv).1) (fun hi => (hself hi).1) hr, by omega⟩
  refine ⟨?_, ?_, ?_⟩
  · intro hpos hr
    obtain ⟨hr', hle⟩ := hreliant hr
    have hcount := t.count (·.pushes)
    have hmono := Bool.toNat_le_toNat hpushes
    have hhands := h.ahead (by omega) hr'
    omega
  · intro hne hphase hr
    obtain ⟨hr', hle⟩ := hreliant hr
    have hsettling : c.phases[w]?.any (·.settling) = true := by
      by_cases hi : w = i
      · subst hi
        exact t.any_back (fun hs => (hself rfl).2 hs hne) hphase
      · rwa [t.other hi] at hphase
    have hhands := h.seen (hshared hne) hsettling hr'
    omega
  · intro hc hr
    have hcount := t.count (·.rouses)
    have hmono := Bool.toNat_le_toNat hrouses
    have hold := h.told (hclosed ▸ hc) (hreliant hr).1
    omega

/-- A step that puts nothing on its way to the queue and brings no taker nearer to its sleep. -/
theorem Heeded.pass (h : c.Heeded w) (t : Turn c c' i ph ph') (hclosed : c'.closed = c.closed)
    (hvacant : (c'.slots w).vacant = true → (c.slots w).vacant = true ∧ ph.hands w = false)
    (hshared : c'.shared ≠ [] → c.shared ≠ []) (heases : ph.eases ph' = true) : c'.Heeded w := by
  have hor : ∀ a b : Bool, (a || !b) = true ↔ (b = true → a = true) := by decide
  simp only [Phase.eases, Bool.and_eq_true, hor] at heases
  obtain ⟨⟨⟨⟨hstays, hnears⟩, hsettling⟩, hpushes⟩, hrouses⟩ := heases
  refine h.turn t hclosed hvacant hshared hpushes hrouses
    fun _ => ⟨fun hp => ?_, fun hs _ => hsettling hs⟩
  simp only [Bool.or_eq_true, Bool.and_eq_true] at hp ⊢
  exact hp.imp hstays fun hn => ⟨hnears hn.1, hn.2⟩

/-- A taker turns away. -/
theorem Heeded.vacate (h : c.Heeded w) (hi : c.phases[i]? = some ph) (hhands : ph.hands w = false)
    (heases : ph.eases ph' = true) : ((c.amend i .vacate).move i ph').Heeded w := by
  refine h.pass ⟨hi, rfl⟩ rfl (fun hv => ⟨?_, hhands⟩) id heases
  by_cases hw : w = i
  · subst hw
    have hslot : ((c.amend w .vacate).move w ph').slots w = (c.slots w).vacate :=
      Function.update_self ..
    rw [hslot, Slot.vacant_vacate] at hv
    cases hv
  · have hslot : ((c.amend i .vacate).move i ph').slots w = c.slots w := Function.update_of_ne hw ..
    rwa [hslot] at hv

theorem Heeded.rest (h : c.Heeded w) (hi : c.phases[i]? = some ph) (hstays : ph.stays = true) :
    (c.rest i).Heeded w := by
  have hfacts : ph.hands w = false ∧ ph.settling = true ∧ ph.rouses = false := by
    cases ph <;> first | exact ⟨rfl, rfl, rfl⟩ | cases hstays
  obtain ⟨hhands, hsettling, hrouses⟩ := hfacts
  have hleave : ∀ u : Take α, ph.eases (.leave u) = true := by
    intro u
    simp [Phase.eases, Phase.stays, Phase.nears, Phase.settling, Phase.pushes, hrouses]
  have hsleep : ph.eases .asleep = true := by
    simp [Phase.eases, Phase.nears, Phase.pushes, hstays, hsettling, hrouses]
  simp only [Crowd.rest]
  split
  · exact h.vacate hi hhands (hleave _)
  · split
    · exact h.pass ⟨hi, rfl⟩ rfl (fun hv => ⟨hv, hhands⟩) id (hleave _)
    · exact h.pass ⟨hi, rfl⟩ rfl (fun hv => ⟨hv, hhands⟩) id hsleep

/-- A call that has a registration gives its taker something, or tells it of a close. -/
theorem Heeded.answer (h : c.Heeded w) {v : Nat} (t : Turn c c' i ph ph') {f : Slot α → Slot α}
    (hslots : c'.slots = Function.update c.slots v (f (c.slots v))) (hf : ∀ s, (f s).vacant = false)
    (hclosed : c'.closed = c.closed) (hshared : c'.shared = c.shared)
    (hhands : w ≠ v → ph.hands w = false) (heases : ph.eases ph' = true) : c'.Heeded w := by
  refine h.pass t hclosed (fun hv => ?_) (hshared ▸ id) heases
  have hw : w ≠ v := by
    rintro rfl
    rw [hslots, Function.update_self, hf] at hv
    cases hv
  rw [hslots, Function.update_of_ne hw] at hv
  exact ⟨hv, hhands hw⟩

theorem count_mono (c : Crowd α) {p q : Phase α → Bool} (h : ∀ ph, p ph = true → q ph = true) :
    c.count p ≤ c.count q :=
  List.countP_mono_left fun ph _ => h ph

theorem rouses_le_writes (c : Crowd α) : c.count (·.rouses) ≤ c.count (·.writes) :=
  c.count_mono fun ph hr => by cases ph <;> first | rfl | cases hr

theorem tells_le_rouses (c : Crowd α) (w : Nat) : c.count (·.tells w) ≤ c.count (·.rouses) :=
  c.count_mono fun ph hr => by cases ph <;> first | rfl | cases hr

theorem hands_le_reads (c : Crowd α) (w : Nat) : c.count (·.hands w) ≤ c.count (·.reads) :=
  c.count_mono fun ph hr => by cases ph <;> first | rfl | cases hr

/-- No reader of the gate meets anyone who tells of a close. -/
theorem Sound.no_rouser (h : c.Sound) (hi : c.phases[i]? = some ph) (hreads : ph.reads = true) :
    c.count (·.rouses) = 0 := by
  have hpos : 0 < c.count (·.reads) := List.countP_pos_iff.mpr ⟨_, List.mem_of_getElem? hi, hreads⟩
  have hgate := h.gate.2
  have hle := rouses_le_writes c
  by_contra hne
  have hnone := hgate (by omega)
  omega

/-- A taker that gives its item up to a closed rendezvous puts it into the queue at once. -/
theorem Heeded.giveUp (h : c.Heeded w) (hs : c.Sound) {a : α} {k : Option α}
    (hi : c.phases[i]? = some (.check a k)) (hclosed : c.closed = true) :
    (c.move i (.push a k)).Heeded w := by
  have t : Turn c (c.move i (.push a k)) i (.check a k) (.push a k) := ⟨hi, rfl⟩
  have hnone : ¬ (c.move i (.push a k)).Reliant w := by
    intro hr
    have htold := h.told hclosed (t.reliant_back rfl id (fun _ => id) hr)
    have hno := hs.no_rouser hi rfl
    omega
  exact ⟨fun _ hr => absurd hr hnone, fun _ _ hr => absurd hr hnone, fun _ hr => absurd hr hnone⟩

/-- A producer finds nobody in the line. -/
theorem Heeded.miss (h : c.Heeded w) (hs : c.Sound) {a : α} {k : Option α}
    (hi : c.phases[i]? = some (.look a k)) (hempty : c.waiting = [])
    (hsifts : c.count (·.sifts w) = 0) :
    (c.move i (.push a k)).Heeded w := by
  have t : Turn c (c.move i (.push a k)) i (.look a k) (.push a k) := ⟨hi, rfl⟩
  have hback : (c.move i (.push a k)).Reliant w → c.Reliant w := t.reliant_back rfl id (fun _ => id)
  have htells : c.count (·.tells w) = 0 := by
    have hno := hs.no_rouser hi rfl
    have hle := tells_le_rouses c w
    omega
  have hhands : (c.move i (.push a k)).count (·.hands w) = c.count (·.hands w) :=
    t.count (·.hands w)
  refine ⟨fun _ hr => ?_, fun _ _ hr => ?_, fun hc hr => ?_⟩
  · rw [hhands]
    exact hs.held (hback hr) hempty hsifts htells
  · rw [hhands]
    exact hs.held (hback hr) hempty hsifts htells
  · have hrouses : (c.move i (.push a k)).count (·.rouses) = c.count (·.rouses) :=
      t.count (·.rouses)
    rw [hrouses]
    exact h.told hc (hback hr)

/-- An item arrives in the queue. -/
theorem Heeded.arrive (h : c.Heeded w) {a : α} {k : Option α}
    (hi : c.phases[i]? = some (.push a k)) :
    (c.next i (.push a k)).Heeded w := by
  have t : Turn c (c.next i (.push a k)) i (.push a k) (.afterPut k) := ⟨hi, rfl⟩
  have hafter : (Phase.afterPut k).stays = false ∧ (Phase.afterPut k).nears = false ∧
      (Phase.afterPut k).hands w = false ∧ (Phase.afterPut k).rouses = false := by
    cases k <;> exact ⟨rfl, rfl, rfl, rfl⟩
  obtain ⟨hstays, hnears, hhands, hrouses⟩ := hafter
  have hback : (c.next i (.push a k)).Reliant w → c.Reliant w := by
    refine t.reliant_back rfl id fun _ hp => ?_
    rw [hstays, hnears] at hp
    cases hp
  have hpushing : 0 < c.count (·.pushes) :=
    List.countP_pos_iff.mpr ⟨_, List.mem_of_getElem? hi, rfl⟩
  have hhandsCount := t.count (·.hands w)
  have hrousesCount := t.count (·.rouses)
  rw [hhands] at hhandsCount
  rw [hrouses] at hrousesCount
  change _ + 0 = _ + 0 at hhandsCount hrousesCount
  refine ⟨fun _ hr => ?_, fun _ _ hr => ?_, fun hc hr => ?_⟩
  · have hserved := h.ahead hpushing (hback hr)
    omega
  · have hserved := h.ahead hpushing (hback hr)
    omega
  · have htold := h.told hc (hback hr)
    omega

/-- A taker registers while nothing is on its way to the queue. -/
theorem Heeded.register (hi : c.phases[w]? = some .register) (hpushes : c.count (·.pushes) = 0) :
    (c.next w .register).Heeded w := by
  have t : Turn c (c.next w .register) w .register .last := ⟨hi, rfl⟩
  refine ⟨fun hpos _ => ?_, fun _ hphase _ => ?_, fun hc hr => ?_⟩
  · have hcount : (c.next w .register).count (·.pushes) = c.count (·.pushes) := t.count (·.pushes)
    omega
  · rw [t.own] at hphase
    cases hphase
  · have hphase := hr.1
    rw [t.own, hc] at hphase
    cases hphase

/-- A close begins to tell the takers. -/
theorem Heeded.mark (h : c.Heeded w) (hi : c.phases[i]? = some .mark) :
    (c.next i .mark).Heeded w := by
  have t : Turn c (c.next i .mark) i .mark .rouse := ⟨hi, rfl⟩
  have hback : (c.next i .mark).Reliant w → c.Reliant w := by
    rintro ⟨hphase, hslot⟩
    refine ⟨?_, hslot⟩
    by_cases hw : w = i
    · subst hw
      rw [t.own] at hphase
      cases hphase
    · rw [t.other hw] at hphase
      cases hold : c.phases[w]? with
      | none =>
        rw [hold] at hphase
        cases hphase
      | some ph =>
        rw [hold] at hphase
        have hstays : ph.stays = true := by
          have hclosed : (c.next i .mark).closed = true := rfl
          simpa [hclosed] using hphase
        simp [hstays]
  have hhands : (c.next i .mark).count (·.hands w) = c.count (·.hands w) := t.count (·.hands w)
  have hpushes : (c.next i .mark).count (·.pushes) = c.count (·.pushes) := t.count (·.pushes)
  have hrouses : (c.next i .mark).count (·.rouses) = c.count (·.rouses) + 1 := t.count (·.rouses)
  refine ⟨fun hpos hr => ?_, fun hne hphase hr => ?_, fun _ _ => by omega⟩
  · rw [hhands]
    exact h.ahead (hpushes ▸ hpos) (hback hr)
  · rw [hhands]
    refine h.seen hne ?_ (hback hr)
    exact t.any_back (by intro hs; cases hs) hphase

/-- A close finds nobody left to tell. -/
theorem Heeded.conclude (hs : c.Sound) (hi : c.phases[i]? = some .rouse)
    (hempty : c.waiting = []) (hsifts : c.count (·.sifts w) = 0) :
    (c.move i (.drain [])).Heeded w := by
  have t : Turn c (c.move i (.drain [])) i .rouse (.drain []) := ⟨hi, rfl⟩
  have hwrites : 0 < c.count (·.writes) :=
    List.countP_pos_iff.mpr ⟨_, List.mem_of_getElem? hi, rfl⟩
  -- without this call nobody would write, so nobody else tells of a close
  have htells : c.count (·.tells w) = 0 := by
    have turn : Turn c (c.move i (.done .stored)) i .rouse (.done .stored) := ⟨hi, rfl⟩
    have hwriters : (c.move i (.done .stored)).count (·.writes) + 1 = c.count (·.writes) :=
      turn.count (·.writes)
    have htelling : (c.move i (.done .stored)).count (·.tells w) = c.count (·.tells w) :=
      turn.count (·.tells w)
    have hrouses := tells_le_rouses (c.move i (.done .stored)) w
    have hwriting := rouses_le_writes (c.move i (.done .stored))
    have hone := hs.gate.1
    omega
  have hhands : c.count (·.hands w) = 0 := by
    have hle := hands_le_reads c w
    have hno := hs.gate.2 hwrites
    omega
  have hnone : ¬ (c.move i (.drain [])).Reliant w := by
    intro hr
    have hserved := hs.held (t.reliant_back rfl id (fun _ => id) hr) hempty hsifts htells
    omega
  exact ⟨fun _ hr => absurd hr hnone, fun _ _ hr => absurd hr hnone, fun _ hr => absurd hr hnone⟩

theorem Heeded.next (h : c.Heeded w) (hs : c.Sound) (hi : c.phases[i]? = some ph)
    (hno : c.overlooks w (.go i) = false) : (c.next i ph).Heeded w := by
  -- what most steps need: the call serves nobody, and leaves the slots alone
  have hsame : ph.hands w = false →
      ((c.slots w).vacant = true → (c.slots w).vacant = true ∧ ph.hands w = false) :=
      fun hp hv => ⟨hv, hp⟩
  simp only [overlooks, hi] at hno
  cases ph with
  | knock a k =>
    simp only [Crowd.next]
    split
    · exact h.pass ⟨hi, rfl⟩ rfl (hsame rfl) id rfl
    · exact h
  | check a k =>
    simp only [Crowd.next]
    split
    · next hclosed =>
      cases k with
      | none => exact h.pass ⟨hi, rfl⟩ rfl (hsame rfl) id rfl
      | some x => exact h.giveUp hs hi hclosed
    · exact h.pass ⟨hi, rfl⟩ rfl (hsame rfl) id rfl
  | look a k =>
    simp only [Crowd.next]
    split
    · next hempty =>
      have hsifts : c.count (·.sifts w) = 0 := by simpa [hempty] using hno
      exact h.miss hs hi hempty hsifts
    · exact h.pass ⟨hi, rfl⟩ rfl (hsame rfl) id rfl
  | deliver v a k =>
    have hother : w ≠ v → (Phase.deliver v a k).hands w = false := by
      intro hw
      simp [Phase.hands, Ne.symm hw]
    simp only [Crowd.next]
    split
    · cases k with
      | none => exact h.answer (f := .fill a) ⟨hi, rfl⟩ rfl (by simp) rfl rfl hother rfl
      | some x => exact h.answer (f := .fill a) ⟨hi, rfl⟩ rfl (by simp) rfl rfl hother rfl
    · next hdeaf =>
      refine h.pass ⟨hi, rfl⟩ rfl (fun hv => ⟨hv, hother ?_⟩) id rfl
      rintro rfl
      exact hdeaf hv
  | push a k => exact h.arrive hi
  | first =>
    simp only [Crowd.next]
    split
    · exact h.pass ⟨hi, rfl⟩ rfl (hsame rfl) id rfl
    · next hx => exact h.pass ⟨hi, rfl⟩ rfl (hsame rfl) (fun _ => by simp [hx]) rfl
  | second =>
    simp only [Crowd.next]
    split <;> exact h.pass ⟨hi, rfl⟩ rfl (hsame rfl) id rfl
  | measure => exact h.pass ⟨hi, rfl⟩ rfl (hsame rfl) id rfl
  | weigh n =>
    simp only [Crowd.next]
    split <;> exact h.pass ⟨hi, rfl⟩ rfl (hsame rfl) id rfl
  | sift n =>
    cases n with
    | zero => exact h.pass ⟨hi, rfl⟩ rfl (hsame rfl) id rfl
    | succ n =>
      simp only [Crowd.next]
      split <;> exact h.pass ⟨hi, rfl⟩ rfl (hsame rfl) id rfl
  | judge n v =>
    simp only [Crowd.next]
    split <;> exact h.pass ⟨hi, rfl⟩ rfl (hsame rfl) id rfl
  | putBack n v => exact h.pass ⟨hi, rfl⟩ rfl (hsame rfl) id rfl
  | enroll => exact h.pass ⟨hi, rfl⟩ rfl (hsame rfl) id rfl
  | register =>
    by_cases hw : i = w
    · subst hw
      have hpushes : c.count (·.pushes) = 0 := by simpa using hno
      exact Heeded.register hi hpushes
    · exact h.turn ⟨hi, rfl⟩ rfl (hsame rfl) id id id fun heq => absurd heq hw
  | last =>
    simp only [Crowd.next]
    split
    · next hempty =>
      exact h.turn ⟨hi, rfl⟩ rfl (hsame rfl) id id id fun _ => ⟨id, fun _ hne => absurd hempty hne⟩
    · next hx => exact h.pass ⟨hi, rfl⟩ rfl (hsame rfl) (fun _ => by simp [hx]) rfl
  | quit x =>
    simp only [Crowd.next]
    split <;> exact h.vacate hi rfl rfl
  | ask =>
    simp only [Crowd.next]
    split
    · exact h.pass ⟨hi, rfl⟩ rfl (hsame rfl) id rfl
    · next hopen =>
      have hnears : (Phase.ask : Phase α).nears && !c.closed := by simpa [Phase.nears] using hopen
      exact h.turn ⟨hi, rfl⟩ rfl (hsame rfl) id id id
        fun _ => ⟨fun _ => by simp [hnears], fun _ _ => rfl⟩
  | resign => exact h.vacate hi rfl rfl
  | park => exact h.rest hi rfl
  | asleep => exact h.rest hi rfl
  | leave u => exact h.pass ⟨hi, rfl⟩ rfl (hsame rfl) id rfl
  | shut =>
    simp only [Crowd.next]
    split
    · exact h.pass ⟨hi, rfl⟩ rfl (hsame rfl) id rfl
    · exact h
  | mark => exact h.mark hi
  | rouse =>
    simp only [Crowd.next]
    split
    · next hempty =>
      have hsifts : c.count (·.sifts w) = 0 := by simpa [hempty] using hno
      exact Heeded.conclude hs hi hempty hsifts
    · exact h.pass ⟨hi, rfl⟩ rfl (hsame rfl) id rfl
  | notify v =>
    exact h.answer (f := .shut) ⟨hi, rfl⟩ rfl (by simp) rfl rfl (fun _ => rfl) rfl
  | drain as =>
    simp only [Crowd.next]
    split
    · exact h.pass ⟨hi, rfl⟩ rfl (hsame rfl) id rfl
    · next hx => exact h.pass ⟨hi, rfl⟩ rfl (hsame rfl) (fun _ => by simp [hx]) rfl
  | glance =>
    simp only [Crowd.next]
    split
    · exact h.pass ⟨hi, rfl⟩ rfl (hsame rfl) id rfl
    · next hx => exact h.pass ⟨hi, rfl⟩ rfl (hsame rfl) (fun _ => by simp [hx]) rfl
  | done o => exact h

/-- A call comes in. -/
theorem Heeded.begin (h : c.Heeded w) (hstays : ph.stays = false) (hnears : ph.nears = false)
    (hsettling : ph.settling = false) (hpushes : ph.pushes = false) : (c.begin ph).Heeded w := by
  have hback : ∀ p : Phase α → Bool, p ph = false → (c.begin ph).phases[w]?.any p = true →
      c.phases[w]?.any p = true := by
    intro p hp hw
    rcases phases_begin c ph w with hsame | ⟨-, hnew⟩
    · rwa [hsame] at hw
    · rw [hnew, Option.any_some, hp] at hw
      cases hw
  have hreliant : (c.begin ph).Reliant w → c.Reliant w := by
    rintro ⟨hphase, hslot⟩
    exact ⟨hback _ (by simp [hstays, hnears]) hphase, hslot⟩
  have hhands := count_begin c ph (·.hands w)
  have hrouses := count_begin c ph (·.rouses)
  refine ⟨fun hpos hr => ?_, fun hne hphase hr => ?_, fun hc hr => ?_⟩
  · rw [count_begin, hpushes] at hpos
    have hserved := h.ahead hpos (hreliant hr)
    omega
  · have hserved := h.seen hne (hback _ hsettling hphase) (hreliant hr)
    omega
  · have htold := h.told hc (hreliant hr)
    omega

theorem Heeded.step (h : c.Heeded w) (hs : c.Sound) {m : Move α} (hno : c.overlooks w m = false) :
    (c.step m).Heeded w := by
  cases m with
  | put a => exact h.begin rfl rfl rfl rfl
  | take => exact h.begin rfl rfl rfl rfl
  | tryTake => exact h.begin rfl rfl rfl rfl
  | close => exact h.begin rfl rfl rfl rfl
  | go i =>
    simp only [Crowd.step]
    split
    · next ph hi => exact h.next hs hi hno
    · exact h
  | expire i =>
    simp only [Crowd.step]
    split
    · next hi => exact h.vacate hi rfl rfl
    · exact h

theorem Heeded.run (h : c.Heeded w) (hs : c.Sound) {ms : List (Move α)}
    (hno : c.overlooked w ms = false) : (c.run ms).Heeded w := by
  induction ms generalizing c with
  | nil => exact h
  | cons m ms ih =>
    obtain ⟨hfirst, hrest⟩ := Bool.or_eq_false_iff.mp hno
    exact ih (h.step hs hfirst) (hs.step m) hrest

theorem heeded_empty (w : Nat) : (({} : Crowd α)).Heeded w :=
  ⟨nofun, fun hne => absurd rfl hne, nofun⟩

/-- While somebody sleeps and is registered, an item that comes is handed over. -/
theorem put_served (hw : c.waiting.count w = 1) (hvacant : (c.slots w).vacant = true)
    (hopen : c.closed = false) (a : α) : ∃ t q, c.view.put a = (.served t a, q) := by
  have hmem : w ∈ c.waiting := List.count_pos_iff.mp (by omega)
  have habandoned := (Slot.vacant_iff.mp hvacant).2.1
  have hne : c.view.waiting.dropWhile (·.abandoned) ≠ [] := by
    intro hall
    have hgone := List.dropWhile_eq_nil_iff.mp hall _ (List.mem_map_of_mem hmem)
    simp only [habandoned] at hgone
    cases hgone
  simp only [put, show c.view.closed = false from hopen, Bool.false_eq_true, if_false]
  cases hd : c.view.waiting.dropWhile (·.abandoned) with
  | nil => exact absurd hd hne
  | cons t ts => exact ⟨_, _, rfl⟩

end Crowd

open Crowd

variable {α : Type}

/-- However the steps of any calls come between each other: when nobody is in the middle of a call,
a taker that sleeps, with nothing given to it and no word of a close, has its registration in the
line, once, so that the next item that is put is handed over; and beside a queue that is not empty,
or after a close, it sleeps only if some step overlooked it. -/
theorem sleeps_only_if_overlooked (ms : List (Move α)) (w : Nat) :
    let r := Crowd.run {} ms
    r.Quiet → r.Forlorn w →
      r.waiting.count w = 1 ∧
        (r.closed = false → ∀ a, ∃ t q, r.view.put a = (.served t a, q)) ∧
        (r.shared ≠ [] ∨ r.closed = true → Crowd.overlooked {} w ms = true) := by
  intro r hq hf
  have hs : r.Sound := sound_empty.run ms
  obtain ⟨hasleep, hvacant, hcount⟩ := hf.registered hs hq
  have hr : r.Reliant w := ⟨by rw [hasleep]; rfl, hvacant⟩
  refine ⟨hcount, fun hopen a => put_served hcount hvacant hopen a, fun hcause => ?_⟩
  by_contra hno
  have hh : r.Heeded w := (heeded_empty w).run sound_empty (Bool.eq_false_iff.mpr hno)
  rcases hcause with hshared | hclosed
  · have hhands : r.count (·.hands w) = 0 := hq.count_eq fun ph hph => by
      cases ph <;> first | rfl | cases hph
    have hserved := hh.seen hshared (by rw [hasleep]; rfl) hr
    omega
  · have hrouses : r.count (·.rouses) = 0 := hq.count_eq fun ph hph => by
      cases ph <;> first | rfl | cases hph
    have htold := hh.told hclosed hr
    omega

/-- A producer finds nobody in the line; a taker registers, finds the queue empty and goes to sleep;
and the item comes to the queue. -/
def betweenLookAndPush : List (Move Nat) :=
  .put 7 :: .replicate 3 (.go 0) ++ .take :: .replicate 9 (.go 1) ++ [.go 0]

/-- A taker's call up to its sleep. -/
def sleep (i : Nat) : List (Move Nat) := .take :: .replicate 9 (.go i)

/-- One taker sleeps, and many have given up. Another clears the line and has the sleeper's
registration in hand while a close tells those that it finds. -/
def behindTheClose : List (Move Nat) :=
  sleep 0 ++ (List.range' 1 34).flatMap (fun k => sleep k ++ [.expire k, .go k]) ++
    .take :: .replicate 5 (.go 35) ++ .close :: .replicate 72 (.go 36) ++ .replicate 112 (.go 35)

/-- A taker can sleep on beside an item with nobody in the middle of a call, and after a close
without ever being told. -/
theorem sleeper_left_alone :
    ((Crowd.run {} betweenLookAndPush).phases.all (·.settled) = true ∧
      (Crowd.run {} betweenLookAndPush).Forlorn 1 ∧ (Crowd.run {} betweenLookAndPush).shared = [7] ∧
      (Crowd.run {} betweenLookAndPush).closed = false) ∧
    (Crowd.run {} behindTheClose).phases.all (·.settled) = true ∧
      (Crowd.run {} behindTheClose).Forlorn 0 ∧ (Crowd.run {} behindTheClose).closed = true := by
  unfold Forlorn
  decide +kernel

theorem sleeper_overlooked :
    (Crowd.run {} betweenLookAndPush).Quiet ∧ (Crowd.run {} betweenLookAndPush).Forlorn 1 ∧
      (Crowd.run {} betweenLookAndPush).waiting.count 1 = 1 ∧
      Crowd.overlooked {} 1 betweenLookAndPush = true := by
  have hquiet : (Crowd.run {} betweenLookAndPush).Quiet := List.all_eq_true.mp (by decide +kernel)
  have hforlorn : (Crowd.run {} betweenLookAndPush).Forlorn 1 := by
    unfold Forlorn
    decide +kernel
  have hshared : (Crowd.run {} betweenLookAndPush).shared ≠ [] := by decide +kernel
  obtain ⟨hcount, -, hoverlooked⟩ := sleeps_only_if_overlooked betweenLookAndPush 1 hquiet hforlorn
  exact ⟨hquiet, hforlorn, hcount, hoverlooked (.inl hshared)⟩

end Rendezvous
end ConnPool
