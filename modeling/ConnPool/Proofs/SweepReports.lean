import ConnPool.Proofs.OperationEvents

namespace ConnPool

/-- A note of a call of the factory. -/
def Note.isCall : Note → Bool
  | create _ | probe _ | close _ => true
  | hook .. | line .. => false

/-- What a listener writes down is no call. -/
theorem Listener.hear_isCall (pool : String) (h : Hook) (l : Listener) :
    ∀ n ∈ l.hear pool h, n.isCall = false := by
  intro n hn
  simp only [hear] at hn
  rcases List.mem_append.mp hn with hn | hn
  · cases l with
    | recorder label panics brings =>
      rw [List.mem_singleton.mp hn]
      rfl
    | logger =>
      simp only [lines] at hn
      split at hn
      all_goals first
        | exact absurd hn List.not_mem_nil
        | rw [List.mem_singleton.mp hn]; rfl
  · split at hn
    · rw [List.mem_singleton.mp hn]
      rfl
    · exact absurd hn List.not_mem_nil

namespace Pool

/-- All calls of the factory so far, latest first. -/
def calls (p : Pool) : List Note := p.journal.filter (·.isCall)

/-- Said on the way: these calls of the factory, of which a plain one hears nothing, and these
events. -/
structure Utters (p : Pool) (ns : List Note) (es : List Event) (q : Pool) : Prop where
  name : q.name = p.name
  factory : q.factory = p.factory
  calls : q.calls = (if p.factory.isPlain then [] else ns.reverse) ++ p.calls
  told : p.bus.Carries es q.bus

variable {p q r : Pool} {id : HandleId} {ns ms : List Note} {es fs : List Event}

theorem Utters.trans (h : p.Utters ns es q) (k : q.Utters ms fs r) :
    p.Utters (ns ++ ms) (es ++ fs) r := by
  refine ⟨k.name.trans h.name, k.factory.trans h.factory, ?_, h.told.trans k.told⟩
  rw [k.calls, h.calls, h.factory]
  split
  · rfl
  · rw [List.reverse_append, List.append_assoc]

/-- Nothing was said. -/
theorem Utters.nothing (hn : q.name = p.name) (hf : q.factory = p.factory) (hc : q.calls = p.calls)
    (hb : q.bus = p.bus) : p.Utters [] [] q := by
  refine ⟨hn, hf, ?_, hb ▸ .refl p.bus⟩
  rw [hc, List.reverse_nil, ite_self]
  rfl

theorem Utters.refl (p : Pool) : p.Utters [] [] p := .nothing rfl rfl rfl rfl

/-- What was said before or after nothing. -/
theorem Utters.after (h : p.Utters [] [] q) (k : q.Utters ns es r) : p.Utters ns es r := h.trans k

theorem Utters.then (h : p.Utters ns es q) (k : q.Utters [] [] r) : p.Utters ns es r := by
  have hall := h.trans k
  rw [List.append_nil, List.append_nil] at hall
  exact hall

theorem calls_note (n : Note) : (p.note n).calls = (if n.isCall then [n] else []) ++ p.calls := by
  simp only [calls, note, List.filter_cons]
  split <;> rfl

theorem utters_log (l : Level) (m : String) (fs : List (String × Field)) :
    p.Utters [] [] (p.log l m fs) :=
  .nothing rfl rfl (calls_note _) rfl

theorem utters_notify (h : Hook) : p.Utters [] [] (p.notify h) := by
  refine .nothing rfl rfl ?_ rfl
  have hnone : (p.listeners.flatMap (Listener.hear p.name h)).reverse.filter (·.isCall) = [] := by
    rw [List.filter_eq_nil_iff]
    intro n hn
    obtain ⟨l, -, hl⟩ := List.mem_flatMap.mp (List.mem_reverse.mp hn)
    rw [Listener.hear_isCall p.name h l n hl]
    exact Bool.false_ne_true
  simp only [calls, notify, List.filter_append, hnone, List.nil_append]

theorem utters_emit (e : Event) : p.Utters [] [e] (p.emit e) := by
  refine ⟨rfl, rfl, ?_, p.bus.carries_emit e⟩
  rw [List.reverse_nil, ite_self]
  rfl

theorem utters_transition (id : HandleId) (s t : State) :
    p.Utters [] [] (p.transition id s t).2 := by
  rcases transition_cases p id s t with hlost | ⟨-, -, hwon⟩
  · rw [hlost]
    exact .refl p
  · rw [hwon]
    exact .nothing rfl rfl rfl rfl

theorem utters_surrender (c : Connection) : p.Utters [.close c] [] (p.surrender c) := by
  by_cases hplain : p.factory.isPlain = true
  · have hkept : p.surrender c = { p with closures := c :: p.closures } := by
      simp only [surrender, if_pos hplain]
    rw [hkept]
    exact ⟨rfl, rfl, by rw [if_pos hplain]; rfl, .refl p.bus⟩
  · have hnoted : p.surrender c = { p.note (.close c) with closures := c :: p.closures } := by
      simp only [surrender, if_neg hplain]
    rw [hnoted]
    exact ⟨rfl, rfl, by rw [if_neg hplain]; exact calls_note _, .refl p.bus⟩

theorem utters_closeSlot {c : Connection} (hc : (p.find? id).bind (·.slot) = some c) :
    p.Utters [.close c] [] ((closeSlot id).run p).2 := by
  have hlogged : ∀ (m : Pool) (e : Option String), m.Utters [] [] (m.logCloseError id e) := by
    intro m e
    cases e with
    | none => exact .refl m
    | some e => exact utters_log _ _ _
  have hempty : p.Utters [] [] (p.emptySlot id) := .nothing rfl rfl rfl rfl
  simp only [closeSlot, Act.run_bind, Act.run_read, hc, Act.run_update, closeConnection_run]
  exact ((hempty.after (utters_surrender c)).then (hlogged _ _)).then (utters_notify _)

theorem utters_strike (id : HandleId) (reserved : Bool) : p.Utters [] [] (p.strike id reserved) :=
  (utters_transition id .toDestroy .destroyed).then (.nothing rfl rfl rfl rfl)

/-- A handle that goes has its connection closed and then is told to be gone. -/
theorem utters_destroyNow {c : Connection} (hc : (p.find? id).bind (·.slot) = some c)
    (reason : DestroyReason) (reserved : Bool) :
    p.Utters [.close c] [.destroyed p.name id reason]
      ((destroyNow id reason reserved).run p).2 := by
  simp only [destroyNow, Act.run_bind, Act.run_update]
  have hsaid := ((utters_closeSlot hc).then (utters_strike id reserved)).then
    (utters_log .debug "Connection destroyed"
      [("handle", .shown id.label), ("reason", .shown reason.label)])
  rw [hsaid.name]
  exact hsaid.trans (utters_emit _)

theorem utters_fillTo (n : Nat) : p.Utters [] [] (p.fillTo n) := by
  have hrepeat : ∀ k : Nat, p.Utters [] [] (k.repeat (schedule none) p) := by
    intro k
    induction k with
    | zero => exact .refl p
    | succ k ih => exact ih.then (.nothing rfl rfl rfl rfl)
  simp only [fillTo]
  split
  · exact .refl p
  · exact hrepeat _

theorem utters_topUp : p.Utters [] [] p.topUp := utters_fillTo p.floor

theorem utters_probe {c : Connection} (hc : (p.find? id).bind (·.slot) = some c) :
    p.Utters [.probe c] [] ((probe id).run p).2 := by
  simp only [probe, Act.run_bind, Act.run_read, hc, Act.run_ite]
  by_cases hplain : p.factory.isPlain = true
  · simp only [hplain, Bool.not_true, Bool.false_eq_true, if_false, Act.run_apply]
    refine ⟨rfl, rfl, ?_, .refl p.bus⟩
    rw [if_pos hplain]
    rfl
  · simp only [hplain, Bool.not_false, if_true, Act.run_update, Act.run_mark, Act.run_apply]
    refine ⟨rfl, rfl, ?_, .refl p.bus⟩
    rw [if_neg hplain]
    exact calls_note _

end Pool
end ConnPool
