import ConnPool.Json.Parse
import ConnPool.Json.Print
import Mathlib.Data.List.Chain

namespace ConnPool.Json

/-- The ways to write one unit of a string: as a character that may stand there, as an escape of one
letter, or as four hexadecimal digits. -/
inductive UnitSpelling : Nat → List Char → Prop
  | plain {c : Char} (quote : c ≠ '"') (slash : c ≠ '\\') (visible : 0x20 ≤ c.toNat) :
    UnitSpelling c.toNat [c]
  | letter {e : Char} {u : Nat} (unit : escaped? e = some u) : UnitSpelling u ['\\', e]
  | digits {a b c d : Char} {u v w x : Nat} (first : hexValue? a = some u)
    (second : hexValue? b = some v) (third : hexValue? c = some w) (last : hexValue? d = some x) :
    UnitSpelling (((u * 16 + v) * 16 + w) * 16 + x) ['\\', 'u', a, b, c, d]

def Digits (ds : List Char) : Prop := ds ≠ [] ∧ ∀ d ∈ ds, d.isDigit = true

/-- The fraction of a number, if it has one. -/
def Fraction (cs : List Char) : Prop := cs = [] ∨ ∃ ds, Digits ds ∧ cs = '.' :: ds

/-- The exponent of a number, if it has one. -/
def Exponent (cs : List Char) : Prop :=
  cs = [] ∨ ∃ e sign ds, e ∈ ['e', 'E'] ∧ sign ∈ [[], ['+'], ['-']] ∧ Digits ds ∧
    cs = e :: (sign ++ ds)

/-- The ways to write a token. Only strings have more than one. -/
def Token.Spelling : Token → List Char → Prop
  | .num negative whole tail, cs =>
    (∃ fraction exponent, Fraction fraction ∧ Exponent exponent ∧ tail = fraction ++ exponent) ∧
      cs = chars (.num negative whole tail)
  | .str text, cs =>
    ∃ units pieces, List.Forall₂ UnitSpelling units pieces ∧
      text = (joinHalves? units).map String.ofList ∧ cs = '"' :: (pieces.flatten ++ ['"'])
  | t, cs => cs = t.chars

/-- A text that holds the tokens, with any blanks before, between and after them. -/
inductive Laid : List Token → List Char → Prop
  | nil {blanks : List Char} (blank : ∀ b ∈ blanks, isBlank b = true) : Laid [] blanks
  | cons {blanks cs rest : List Char} {t : Token} {ts : List Token}
    (blank : ∀ b ∈ blanks, isBlank b = true) (spelling : t.Spelling cs) (laid : Laid ts rest) :
    Laid (t :: ts) (blanks ++ (cs ++ rest))

/-- The spelling ends only where another token begins. -/
def Token.RunsOn : Token → Prop
  | .null | .bool _ | .num .. => True
  | _ => False

/-- The marks that come after a value. -/
def Token.Ends : Token → Prop
  | .comma | .closeArr | .closeObj => True
  | _ => False

/-- What may stand right behind a word or a number: blanks, and the marks that come after a
value. -/
def breaks : List Char := [' ', '\n', '\t', '\r', ',', ']', '\x7d']

/-- Nothing, or something that ends a word or a number. -/
def Apart (rest : List Char) : Prop := ∀ c ∈ rest.head?, c ∈ breaks

/-- Words and numbers are followed by a mark that ends them, or by nothing. -/
def Separate (ts : List Token) : Prop := ts.IsChain fun t u => t.RunsOn → u.Ends

/-- Reading the characters in the first mode completes no token and leads to the second. -/
def Leads (m : Mode) (cs : List Char) (m' : Mode) : Prop :=
  ∀ rest, tokensFrom? m (cs ++ rest) = tokensFrom? m' rest

namespace Leads

theorem nil (m : Mode) : Leads m [] m := fun _ => rfl

theorem append {m₁ m₂ m₃ : Mode} {cs ds : List Char} (h : Leads m₁ cs m₂) (k : Leads m₂ ds m₃) :
    Leads m₁ (cs ++ ds) m₃ := by
  intro rest
  rw [List.append_assoc, h, k]

theorem single {m m' : Mode} {c : Char} (h : m.read? c = some ([], m')) : Leads m [c] m' := by
  intro rest
  simp only [List.singleton_append, tokensFrom?, h, List.nil_append, Option.map_id']

theorem cons {m₁ m₂ m₃ : Mode} {c : Char} {cs : List Char} (h : m₁.read? c = some ([], m₂))
    (k : Leads m₂ cs m₃) : Leads m₁ (c :: cs) m₃ :=
  (single h).append k

end Leads

theorem tokensFrom?_between (c : Char) (cs : List Char) :
    tokensFrom? .between (c :: cs) =
      (begin? c).bind fun (t, m) => (tokensFrom? m cs).map (t.toList ++ ·) := by
  simp only [tokensFrom?, Mode.read?]
  cases begin? c <;> rfl

/-- In a mode whose token is complete, the rest of the text is read as from its beginning. -/
theorem tokensFrom?_pending {m : Mode} {t : Token} {rest : List Char}
    (hend : m.pending? = some (some t))
    (hnext : ∀ c ∈ breaks, m.read? c = (begin? c).map fun (u, m) => (t :: u.toList, m))
    (hrest : Apart rest) : tokensFrom? m rest = (tokensFrom? .between rest).map (t :: ·) := by
  cases rest with
  | nil =>
    simp only [tokensFrom?, hend]
    rfl
  | cons c cs =>
    have hread := hnext c (hrest c rfl)
    rw [tokensFrom?_between]
    simp only [tokensFrom?, hread]
    cases begin? c with
    | none => rfl
    | some b =>
      simp only [Option.map_some, Option.bind_some]
      cases tokensFrom? b.2 cs <;> rfl

/-- Blanks between tokens lead nowhere. -/
theorem leads_blanks {blanks : List Char} (blank : ∀ b ∈ blanks, isBlank b = true) :
    Leads .between blanks .between := by
  induction blanks with
  | nil => exact Leads.nil _
  | cons b bs ih =>
    obtain ⟨hb, hbs⟩ := List.forall_mem_cons.mp blank
    refine Leads.cons ?_ (ih hbs)
    simp only [Mode.read?, begin?, hb, if_true, Option.map_some, Option.toList_none]

theorem read?_word {letters : List Char} {w : Token} (hw : wordToken? letters = some w) {c : Char}
    (hc : c ∈ breaks) :
    (Mode.word letters).read? c = (begin? c).map fun (u, m) => (w :: u.toList, m) := by
  have hlower : c.isLower = false := by
    simp only [breaks, List.mem_cons, List.not_mem_nil, or_false] at hc
    rcases hc with rfl | rfl | rfl | rfl | rfl | rfl | rfl <;> rfl
  simp only [Mode.read?, hlower, Bool.false_eq_true, if_false, hw]
  cases begin? c <;> rfl

theorem leads_letters (letters : List Char) (seen : List Char)
    (hlower : ∀ c ∈ letters, c.isLower = true) :
    Leads (.word seen) letters (.word (letters.reverse ++ seen)) := by
  induction letters generalizing seen with
  | nil => exact Leads.nil _
  | cons c cs ih =>
    obtain ⟨hc, hcs⟩ := List.forall_mem_cons.mp hlower
    rw [List.reverse_cons, List.append_assoc]
    refine Leads.cons ?_ (ih (c :: seen) hcs)
    simp only [Mode.read?, hc, if_true]

theorem tokensFrom?_word {c : Char} (letters : List Char) {w : Token} {rest : List Char}
    (hbegin : begin? c = some (none, .word [c])) (hlower : letters.all Char.isLower = true)
    (hword : wordToken? (letters.reverse ++ [c]) = some w) (hrest : Apart rest) :
    tokensFrom? .between (c :: letters ++ rest) = (tokensFrom? .between rest).map (w :: ·) := by
  have hleads : Leads .between (c :: letters) (.word (letters.reverse ++ [c])) := by
    refine Leads.cons ?_ (leads_letters letters [c] (List.all_eq_true.mp hlower))
    simp only [Mode.read?, hbegin, Option.map_some, Option.toList_none]
  rw [hleads]
  refine tokensFrom?_pending ?_ (fun d hd => read?_word hword hd) hrest
  simp only [Mode.pending?, hword, Option.map_some]

theorem read?_number {phase : NumberPhase} (complete : phase.complete = true) (negative : Bool)
    (n : Nat) (tail : List Char) {c : Char} (hc : c ∈ breaks) :
    (Mode.number phase negative n tail).read? c =
      (begin? c).map fun (u, m) => (.num negative n tail.reverse :: u.toList, m) := by
  have hextend : extend? phase negative n tail c = none := by
    simp only [breaks, List.mem_cons, List.not_mem_nil, or_false] at hc
    cases phase <;> rcases hc with rfl | rfl | rfl | rfl | rfl | rfl | rfl <;> rfl
  simp only [Mode.read?, hextend, complete, if_true]

theorem Leads.extend {phase : NumberPhase} {negative : Bool} {n : Nat} {tail : List Char} {c : Char}
    {m m' : Mode} {cs : List Char} (h : extend? phase negative n tail c = some m)
    (k : Leads m cs m') : Leads (.number phase negative n tail) (c :: cs) m' := by
  refine Leads.cons ?_ k
  simp only [Mode.read?, h]

/-- The mode before the first digit of a number. -/
def beforeDigits : Bool → Mode
  | true => .number .sign true 0 []
  | false => .between

theorem leads_sign (negative : Bool) :
    Leads .between (if negative then ['-'] else []) (beforeDigits negative) := by
  cases negative with
  | false => exact Leads.nil _
  | true => exact Leads.single rfl

theorem read?_digitChar (negative : Bool) {n : Nat} (hn : n < 10) (hpos : 0 < n) :
    (beforeDigits negative).read? n.digitChar = some ([], .number .whole negative n []) := by
  have hall : ∀ k, k < 10 → 0 < k →
      (beforeDigits negative).read? k.digitChar = some ([], .number .whole negative k []) := by
    cases negative <;> decide
  exact hall n hn hpos

/-- The digits of a positive number are read one after the other. -/
theorem leads_toDigits (negative : Bool) (n : Nat) (hn : 0 < n) :
    Leads (beforeDigits negative) (Nat.toDigits 10 n) (.number .whole negative n []) := by
  induction n using Nat.strongRecOn with
  | ind n ih =>
    by_cases hlt : n < 10
    · rw [Nat.toDigits_of_lt_base hlt]
      exact Leads.single (read?_digitChar negative hlt hn)
    · have hle : 10 ≤ n := Nat.le_of_not_lt hlt
      have hread : (Mode.number .whole negative (n / 10) []).read? (n % 10).digitChar =
          some ([], .number .whole negative n []) := by
        have hdigit : ∀ k, k < 10 → k.digitChar.isDigit = true ∧
          k.digitChar.toNat - 48 = k := by decide
        obtain ⟨hisdigit, hvalue⟩ := hdigit (n % 10) (Nat.mod_lt _ (by decide))
        simp only [Mode.read?, extend?, hisdigit, if_true, hvalue]
        rw [Nat.mul_comm, Nat.div_add_mod]
      rw [Nat.toDigits_of_base_le (by decide) hle]
      exact (ih (n / 10) (by omega) (by omega)).append (Leads.single hread)

/-- A number whose whole part has been read. -/
theorem leads_whole (negative : Bool) (n : Nat) :
    ∃ phase, (phase = .zero ∨ phase = .whole) ∧
      Leads (beforeDigits negative) (Nat.toDigits 10 n) (.number phase negative n []) := by
  rcases Nat.eq_zero_or_pos n with rfl | hn
  · refine ⟨.zero, Or.inl rfl, ?_⟩
    rw [Nat.toDigits_zero]
    cases negative with
    | false => exact Leads.single rfl
    | true => exact Leads.single rfl
  · exact ⟨.whole, Or.inr rfl, leads_toDigits negative n hn⟩

/-- In a fraction and in an exponent, all further digits are taken. -/
theorem leads_digits {phase : NumberPhase} (hphase : phase = .fraction ∨ phase = .exponentDigits)
    (negative : Bool) (n : Nat) (tail : List Char) {ds : List Char}
    (hds : ∀ d ∈ ds, d.isDigit = true) :
    Leads (.number phase negative n tail) ds (.number phase negative n (ds.reverse ++ tail)) := by
  induction ds generalizing tail with
  | nil => exact Leads.nil _
  | cons d ds ih =>
    obtain ⟨hd, hds⟩ := List.forall_mem_cons.mp hds
    rw [List.reverse_cons, List.append_assoc]
    refine Leads.extend ?_ (ih (d :: tail) hds)
    rcases hphase with rfl | rfl <;> simp only [extend?, hd, if_true]

/-- Digits where some must come, and then all that follow. -/
theorem leads_someDigits {phase phase' : NumberPhase}
    (hphase' : phase' = .fraction ∨ phase' = .exponentDigits) {negative : Bool} {n : Nat}
    {tail : List Char} (hfirst : ∀ d : Char, d.isDigit = true →
      extend? phase negative n tail d = some (.number phase' negative n (d :: tail)))
    {ds : List Char} (hds : Digits ds) :
    Leads (.number phase negative n tail) ds (.number phase' negative n (ds.reverse ++ tail)) := by
  obtain ⟨hne, hall⟩ := hds
  obtain ⟨d, ds, rfl⟩ := List.exists_cons_of_ne_nil hne
  obtain ⟨hd, hds⟩ := List.forall_mem_cons.mp hall
  rw [List.reverse_cons, List.append_assoc]
  exact Leads.extend (hfirst d hd) (leads_digits hphase' negative n (d :: tail) hds)

/-- The number is complete here and may go on with an exponent. -/
structure MayRaise (phase : NumberPhase) (negative : Bool) (n : Nat) (tail : List Char) : Prop where
  complete : phase.complete = true
  raises : ∀ e ∈ ['e', 'E'],
    extend? phase negative n tail e = some (.number .exponent negative n (e :: tail))

theorem leads_fraction {phase : NumberPhase} (hphase : phase = .zero ∨ phase = .whole)
    (negative : Bool) (n : Nat) {cs : List Char} (hcs : Fraction cs) :
    ∃ phase', MayRaise phase' negative n cs.reverse ∧
      Leads (.number phase negative n []) cs (.number phase' negative n cs.reverse) := by
  rcases hcs with rfl | ⟨ds, hds, rfl⟩
  · refine ⟨phase, ⟨?_, ?_⟩, Leads.nil _⟩
    · rcases hphase with rfl | rfl <;> rfl
    · intro e he
      simp only [List.mem_cons, List.not_mem_nil, or_false] at he
      rcases hphase with rfl | rfl <;> rcases he with rfl | rfl <;> rfl
  · have hpoint : extend? phase negative n [] '.' = some (.number .point negative n ['.']) := by
      rcases hphase with rfl | rfl <;> rfl
    refine ⟨.fraction, ⟨rfl, ?_⟩, ?_⟩
    · intro e he
      simp only [List.mem_cons, List.not_mem_nil, or_false] at he
      rcases he with rfl | rfl <;> rfl
    · rw [List.reverse_cons]
      refine Leads.extend hpoint (leads_someDigits (Or.inl rfl) (fun d hd => ?_) hds)
      simp only [extend?, hd, if_true]

theorem leads_exponent {phase : NumberPhase} {negative : Bool} {n : Nat} {tail : List Char}
    (hphase : MayRaise phase negative n tail) {cs : List Char} (hcs : Exponent cs) :
    ∃ phase' : NumberPhase, phase'.complete = true ∧
      Leads (.number phase negative n tail) cs
        (.number phase' negative n (cs.reverse ++ tail)) := by
  rcases hcs with rfl | ⟨e, sign, ds, he, hsign, hds, rfl⟩
  · exact ⟨phase, hphase.complete, Leads.nil _⟩
  · refine ⟨.exponentDigits, rfl, Leads.extend (hphase.raises e he) ?_⟩
    have hsigned : ∀ s, s = '+' ∨ s = '-' → Leads (.number .exponent negative n (e :: tail))
        (s :: ds) (.number .exponentDigits negative n (ds.reverse ++ s :: e :: tail)) := by
      intro s hs
      have hmark : extend? .exponent negative n (e :: tail) s =
          some (.number .exponentSign negative n (s :: e :: tail)) := by
        rcases hs with rfl | rfl <;> rfl
      refine Leads.extend hmark (leads_someDigits (Or.inr rfl) (fun d hd => ?_) hds)
      simp only [extend?, hd, if_true]
    simp only [List.mem_cons, List.not_mem_nil, or_false] at hsign
    rw [List.reverse_cons, List.append_assoc, List.reverse_append, List.append_assoc]
    rcases hsign with rfl | rfl | rfl
    · refine leads_someDigits (Or.inr rfl) (fun d hd => ?_) hds
      simp only [extend?, hd, if_true]
    · exact hsigned '+' (Or.inl rfl)
    · exact hsigned '-' (Or.inr rfl)

theorem tokensFrom?_num {negative : Bool} {n : Nat} {fraction exponent rest : List Char}
    (hfraction : Fraction fraction) (hexponent : Exponent exponent) (hrest : Apart rest) :
    tokensFrom? .between ((Token.num negative n (fraction ++ exponent)).chars ++ rest) =
      (tokensFrom? .between rest).map (.num negative n (fraction ++ exponent) :: ·) := by
  obtain ⟨p₁, hp₁, hwhole⟩ := leads_whole negative n
  obtain ⟨p₂, hp₂, hleads₂⟩ := leads_fraction hp₁ negative n hfraction
  obtain ⟨p₃, hp₃, hleads₃⟩ := leads_exponent hp₂ hexponent
  have hleads : Leads .between (Token.num negative n (fraction ++ exponent)).chars
      (.number p₃ negative n (fraction ++ exponent).reverse) := by
    rw [List.reverse_append]
    exact ((leads_sign negative).append hwhole).append (hleads₂.append hleads₃)
  rw [hleads]
  refine tokensFrom?_pending ?_ (fun c hc => ?_) hrest
  · simp only [Mode.pending?, hp₃, if_true, List.reverse_reverse]
  · rw [read?_number hp₃ negative n _ hc, List.reverse_reverse]

/-- However a unit is written, it is read as itself. -/
theorem leads_unit {u : Nat} {cs : List Char} (h : UnitSpelling u cs) (units : List Nat) :
    Leads (.string units) cs (.string (u :: units)) := by
  cases h with
  | @plain c quote slash visible =>
    have hvisible : ¬ c.toNat < 0x20 := Nat.not_lt.mpr visible
    exact Leads.single (by simp only [Mode.read?, quote, slash, hvisible, if_false])
  | @letter e _ unit =>
    have he : e ≠ 'u' := by
      rintro rfl
      cases unit
    refine Leads.cons rfl (Leads.single ?_)
    simp only [Mode.read?, he, if_false, unit, Option.map_some]
  | digits first second third last =>
    have hread : ∀ {k v x : Nat} {c : Char}, hexValue? c = some x → k ≠ 3 →
        (Mode.hex units k v).read? c = some ([], .hex units (k + 1) (v * 16 + x)) := by
      intro k v x c hc hk
      simp only [Mode.read?, hc, Option.map_some, hk, if_false]
    refine Leads.cons rfl (Leads.cons rfl (Leads.cons (hread first (by decide))
      (Leads.cons (hread second (by decide)) (Leads.cons (hread third (by decide))
        (Leads.single ?_)))))
    simp only [Mode.read?, last, Option.map_some, if_true, Nat.zero_mul, Nat.zero_add]

theorem leads_units {units : List Nat} {pieces : List (List Char)}
    (h : List.Forall₂ UnitSpelling units pieces) (seen : List Nat) :
    Leads (.string seen) pieces.flatten (.string (units.reverse ++ seen)) := by
  induction h generalizing seen with
  | nil => exact Leads.nil _
  | @cons u cs us css hu _ ih =>
    rw [List.flatten_cons, List.reverse_cons, List.append_assoc]
    exact (leads_unit hu seen).append (ih (u :: seen))

theorem tokensFrom?_str {units : List Nat} {pieces : List (List Char)}
    (h : List.Forall₂ UnitSpelling units pieces) (rest : List Char) :
    tokensFrom? .between ('"' :: (pieces.flatten ++ ['"']) ++ rest) =
      (tokensFrom? .between rest).map (.str ((joinHalves? units).map String.ofList) :: ·) := by
  have hleads : Leads .between ('"' :: pieces.flatten) (.string (units.reverse ++ [])) :=
    Leads.cons rfl (leads_units h [])
  rw [← List.cons_append, List.append_assoc, hleads]
  simp only [List.append_nil, List.singleton_append, tokensFrom?, Mode.read?, if_true,
    List.reverse_reverse]

/-- A mark is read as soon as it is seen. -/
theorem tokensFrom?_mark {c : Char} {t : Token} (hc : begin? c = some (some t, .between))
    (rest : List Char) :
    tokensFrom? .between (c :: rest) = (tokensFrom? .between rest).map (t :: ·) := by
  rw [tokensFrom?_between, hc]
  rfl

/-- A token is read off each of its spellings. -/
theorem tokensFrom?_spelling {t : Token} {cs rest : List Char} (h : t.Spelling cs)
    (hrest : t.RunsOn → Apart rest) :
    tokensFrom? .between (cs ++ rest) = (tokensFrom? .between rest).map (t :: ·) := by
  cases t with
  | openObj | closeObj | openArr | closeArr | comma | colon =>
    subst h
    exact tokensFrom?_mark rfl rest
  | null =>
    subst h
    exact tokensFrom?_word ['u', 'l', 'l'] rfl rfl rfl (hrest trivial)
  | bool b =>
    subst h
    cases b with
    | true => exact tokensFrom?_word ['r', 'u', 'e'] rfl rfl rfl (hrest trivial)
    | false => exact tokensFrom?_word ['a', 'l', 's', 'e'] rfl rfl rfl (hrest trivial)
  | num negative whole tail =>
    obtain ⟨⟨fraction, exponent, hfraction, hexponent, rfl⟩, rfl⟩ := h
    exact tokensFrom?_num hfraction hexponent (hrest trivial)
  | str text =>
    obtain ⟨units, pieces, hpieces, rfl, rfl⟩ := h
    exact tokensFrom?_str hpieces rest

theorem isBlank_breaks {c : Char} (hc : isBlank c = true) : c ∈ breaks := by
  simp only [isBlank, Bool.or_eq_true, decide_eq_true_eq] at hc
  rcases hc with ((rfl | rfl) | rfl) | rfl <;> decide

theorem Token.Ends.apart {t : Token} (ht : t.Ends) {cs : List Char} (h : t.Spelling cs)
    (rest : List Char) : Apart (cs ++ rest) := by
  cases t with
  | closeObj | closeArr | comma =>
    subst h
    rintro c ⟨⟩
    decide
  | _ => exact ht.elim

theorem apart_blanks {blanks rest : List Char} (blank : ∀ b ∈ blanks, isBlank b = true)
    (hrest : Apart rest) : Apart (blanks ++ rest) := by
  cases blanks with
  | nil => exact hrest
  | cons b bs =>
    rintro c ⟨⟩
    exact isBlank_breaks (blank b List.mem_cons_self)

theorem Laid.apart {ts : List Token} {cs : List Char} (h : Laid ts cs)
    (hends : ∀ t ∈ ts.head?, t.Ends) : Apart cs := by
  cases h with
  | nil blank =>
    rw [← List.append_nil cs]
    exact apart_blanks blank nofun
  | cons blank spelling _ => exact apart_blanks blank ((hends _ rfl).apart spelling _)

/-- The tokens are found in each text that holds them. -/
theorem tokensFrom?_laid {ts : List Token} {cs : List Char} (h : Laid ts cs) (hts : Separate ts) :
    tokensFrom? .between cs = some ts := by
  induction h with
  | @nil blanks blank =>
    have hblanks := leads_blanks blank []
    rw [List.append_nil] at hblanks
    rw [hblanks]
    rfl
  | @cons blanks cs rest t ts blank spelling laid ih =>
    obtain ⟨hhead, hchain⟩ := List.isChain_cons.mp hts
    have hapart : t.RunsOn → Apart rest := fun hruns =>
      laid.apart fun u hu => hhead u hu hruns
    rw [leads_blanks blank, tokensFrom?_spelling spelling hapart, ih hchain]
    rfl

/-- A token that another may follow at once. -/
theorem Separate.cons {t : Token} {ts : List Token} (hmark : ¬ t.RunsOn) (hts : Separate ts) :
    Separate (t :: ts) :=
  List.isChain_cons.mpr ⟨fun _ _ hruns => absurd hruns hmark, hts⟩

mutual

/-- Inside a value, and in front of what may follow it, words and numbers are kept apart. -/
theorem separate_tokens (j : Json) {ts : List Token} (hends : ∀ t ∈ ts.head?, t.Ends)
    (hts : Separate ts) : Separate (j.tokens ++ ts) := by
  have hlast : ∀ t, Separate ([t] ++ ts) := fun t =>
    List.isChain_cons.mpr ⟨fun u hu _ => hends u hu, hts⟩
  match j with
  | .null | .bool _ | .num .. | .str _ => exact hlast _
  | .arr [] | .obj [] => exact .cons nofun (hlast _)
  | .arr (j :: js) =>
    simp only [tokens, List.cons_append, List.append_assoc]
    obtain ⟨hitems, hclose⟩ := separate_itemTokens js hts
    exact .cons nofun (separate_tokens j hclose hitems)
  | .obj ((k, j) :: ms) =>
    simp only [tokens, List.cons_append, List.append_assoc]
    obtain ⟨hmembers, hclose⟩ := separate_memberTokens ms hts
    exact .cons nofun (.cons nofun (.cons nofun (separate_tokens j hclose hmembers)))

theorem separate_itemTokens (js : List Json) {ts : List Token} (hts : Separate ts) :
    Separate (itemTokens js ++ ts) ∧ ∀ t ∈ (itemTokens js ++ ts).head?, t.Ends := by
  match js with
  | [] => exact ⟨.cons nofun hts, by rintro t ⟨⟩; trivial⟩
  | j :: js =>
    obtain ⟨hitems, hclose⟩ := separate_itemTokens js hts
    simp only [itemTokens, List.cons_append, List.append_assoc]
    exact ⟨.cons nofun (separate_tokens j hclose hitems), by rintro t ⟨⟩; trivial⟩

theorem separate_memberTokens (ms : List (Option String × Json)) {ts : List Token}
    (hts : Separate ts) :
    Separate (memberTokens ms ++ ts) ∧ ∀ t ∈ (memberTokens ms ++ ts).head?, t.Ends := by
  match ms with
  | [] => exact ⟨.cons nofun hts, by rintro t ⟨⟩; trivial⟩
  | (k, j) :: ms =>
    obtain ⟨hmembers, hclose⟩ := separate_memberTokens ms hts
    simp only [memberTokens, List.cons_append, List.append_assoc]
    exact ⟨.cons nofun (.cons nofun (.cons nofun (separate_tokens j hclose hmembers))),
      by rintro t ⟨⟩; trivial⟩

end

theorem tokens?_laid {j : Json} {cs : List Char} (h : Laid j.tokens cs) :
    tokens? (String.ofList cs) = some j.tokens := by
  have hseparate : Separate (j.tokens ++ []) := separate_tokens j nofun List.IsChain.nil
  rw [List.append_nil] at hseparate
  rw [tokens?, String.toList_ofList]
  exact tokensFrom?_laid h hseparate

end ConnPool.Json
