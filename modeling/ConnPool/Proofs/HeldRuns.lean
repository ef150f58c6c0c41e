import ConnPool.Act

namespace ConnPool.Act

variable {σ ι α β : Type} {I : σ → Prop} {R S : σ → σ → Prop} {Q : α → σ → Prop} {P : β → σ → Prop}
  {s : σ}

/-- A rule for changes of the state, one after the other, that keep an invariant. -/
class Rule (I : σ → Prop) (R : σ → σ → Prop) : Prop where
  refl : ∀ s, R s s
  trans : ∀ {s t u}, R s t → R t u → R s u
  keeps : ∀ {s t}, R s t → I s → I t

/-- From this state on each step keeps to the rule, whatever others make of the state while a call
is held, as long as they keep the invariant. -/
def Abides (I : σ → Prop) (R : σ → σ → Prop) (Q : α → σ → Prop) : Act σ ι α → σ → Prop
  | done a, s => Q a s
  | step next rest, s => R s (next s) ∧ (rest s).Abides I R Q (next s)
  | hold _ rest, _ => ∀ t, I t → rest.Abides I R Q t

theorem Abides.bind {m : Act σ ι α} {f : α → Act σ ι β} (h : m.Abides I R Q s)
    (hf : ∀ a t, Q a t → (f a).Abides I R P t) : (m >>= f).Abides I R P s := by
  change (m.bind f).Abides I R P s
  induction m generalizing s with
  | done a => exact hf a s h
  | step next rest ih => exact ⟨h.1, ih s h.2⟩
  | hold call rest ih => exact fun t ht => ih (h t ht)

theorem Abides.mono {m : Act σ ι α} {Q' : α → σ → Prop} (h : m.Abides I R Q s)
    (hR : ∀ s t, R s t → S s t)
    (hQ : ∀ a t, Q a t → Q' a t) : m.Abides I S Q' s := by
  induction m generalizing s with
  | done a => exact hQ a s h
  | step next rest ih => exact ⟨hR _ _ h.1, ih s h.2⟩
  | hold call rest ih => exact fun t ht => ih (h t ht)

theorem Abides.read_bind [Rule I R] {g : σ → Act σ ι α} (h : (g s).Abides I R Q s) :
    (Act.read >>= g).Abides I R Q s := ⟨Rule.refl I s, h⟩

theorem Abides.update_bind {f : σ → σ} {g : Unit → Act σ ι α} (hf : R s (f s))
    (h : (g ()).Abides I R Q (f s)) : (Act.update f >>= g).Abides I R Q s := ⟨hf, h⟩

theorem Abides.apply_bind {f : σ → β × σ} {g : β → Act σ ι α} (hf : R s (f s).2)
    (h : (g (f s).1).Abides I R Q (f s).2) : (Act.apply f >>= g).Abides I R Q s := ⟨hf, h⟩

theorem advance_read_bind (g : σ → Act σ ι α) (held : ι → Bool) (s : σ) :
    (Act.read >>= g).advance held s = (g s).advance held s := rfl

theorem advance_update_bind (f : σ → σ) (g : Unit → Act σ ι α) (held : ι → Bool) (s : σ) :
    (Act.update f >>= g).advance held s = (g ()).advance held (f s) := rfl

theorem advance_apply_bind (f : σ → β × σ) (g : β → Act σ ι α) (held : ι → Bool) (s : σ) :
    (Act.apply f >>= g).advance held s = (g (f s).1).advance held (f s).2 := rfl

/-- Where nothing is held there is no stretch but the whole. -/
theorem advance_free {held : ι → Bool} (hfree : ∀ call, held call = false) (m : Act σ ι α) (s : σ) :
    m.advance held s = (done (m.run s).1, (m.run s).2) := by
  induction m generalizing s with
  | done a => rfl
  | step next rest ih => exact ih s (next s)
  | hold call rest ih =>
    simp only [Act.advance, hfree, Bool.false_eq_true, if_false]
    exact ih s

/-- From every state in which the invariant holds the rule is kept to. -/
def Keeps (I : σ → Prop) (R : σ → σ → Prop) (m : Act σ ι α) : Prop :=
  ∀ s, I s → m.Abides I R (fun _ => I) s

theorem Keeps.pure (a : α) : Keeps I R (Pure.pure a : Act σ ι α) := fun _ hs => hs

theorem Keeps.bind {m : Act σ ι α} {f : α → Act σ ι β} (hm : Keeps I R m)
    (hf : ∀ a, Keeps I R (f a)) :
    Keeps I R (m >>= f) := fun s hs => (hm s hs).bind fun a t ht => hf a t ht

theorem Keeps.mark (c : ι) : Keeps I R (Act.mark c : Act σ ι Unit) := fun _ _ _ ht => ht

theorem Keeps.ite {c : Prop} [Decidable c] {m n : Act σ ι α} (hm : Keeps I R m) (hn : Keeps I R n) :
    Keeps I R (if c then m else n) := by
  split
  · exact hm
  · exact hn

theorem Keeps.mono {m : Act σ ι α} (h : Keeps I S m) (hS : ∀ s t, S s t → R s t) : Keeps I R m :=
  fun s hs => (h s hs).mono hS fun _ _ ht => ht

section

variable [Rule I R]

theorem Keeps.read {f : σ → Act σ ι β} (hf : ∀ s, Keeps I R (f s)) : Keeps I R (Act.read >>= f) :=
  fun s hs => .read_bind (hf s s hs)

theorem Keeps.apply {f : σ → α × σ} (hf : ∀ s, I s → R s (f s).2) :
    Keeps I R (Act.apply f : Act σ ι α) := by
  intro s hs
  have hkept : I (f s).2 := Rule.keeps (hf s hs) hs
  exact ⟨hf s hs, hkept⟩

theorem Keeps.update {f : σ → σ} (hf : ∀ s, I s → R s (f s)) :
    Keeps I R (Act.update f : Act σ ι Unit) :=
  Keeps.apply (f := fun s => ((), f s)) hf

/-- What a stretch comes to is as the rule has it, and what is left goes on keeping to it. -/
theorem Abides.advance {m : Act σ ι α} (h : m.Abides I R (fun _ => I) s) (hs : I s)
    (held : ι → Bool) :
    R s (m.advance held s).2 ∧ Keeps I R (m.advance held s).1 := by
  induction m generalizing s with
  | done a => exact ⟨Rule.refl I s, fun _ ht => ht⟩
  | step next rest ih =>
    obtain ⟨hstep, hrest⟩ := h
    obtain ⟨hgone, hleft⟩ := ih s hrest (Rule.keeps hstep hs)
    exact ⟨Rule.trans I hstep hgone, hleft⟩
  | hold call rest ih =>
    simp only [Act.advance]
    split
    · exact ⟨Rule.refl I s, fun _ _ => h⟩
    · exact ih (h s hs) hs

/-- Done at once, a computation keeps to the rule as a whole. -/
theorem Abides.run {m : Act σ ι α} (h : m.Abides I R (fun _ => I) s) (hs : I s) :
    R s (m.run s).2 := by
  have hdone := (h.advance hs fun _ => false).1
  rwa [advance_free fun _ => rfl] at hdone

theorem Keeps.run {m : Act σ ι α} (h : Keeps I R m) (hs : I s) : R s (m.run s).2 := (h s hs).run hs

end

/-- The invariant of rules that depend on nothing. -/
abbrev Always : σ → Prop := fun _ => True

theorem Keeps.always [Rule Always R] {m : Act σ ι α} (h : Keeps Always R m) (s : σ) :
    R s (m.run s).2 :=
  h.run trivial

end ConnPool.Act
