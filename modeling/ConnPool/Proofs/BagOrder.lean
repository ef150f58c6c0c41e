import ConnPool.Proofs.ItemAccounting
import Mathlib.Logic.Function.Basic

namespace ConnPool

open Handoff

/-- A free list, told by its puts. Puts are numbered in the order in which they came. `available` is
what they brought and nobody has had yet, in that order; `own` is the stack of puts that each thread
has made and still remembers, latest first. -/
structure Stacks (α : Type) where
  available : List (Nat × α) := []
  own : Thread → List Nat := fun _ => []
  puts : Nat := 0
  parked : List Taker := []
  closed : Bool := false

namespace Stacks

variable {α : Type}

def Has (s : Stacks α) (n : Nat) : Prop := ∃ a, (n, a) ∈ s.available

/-- A put goes on top of the thread's own stack, where there is room for sixteen. -/
def push (s : Stacks α) (t : Thread) (a : α) : Stacks α :=
  { s with
    available := s.available ++ [(s.puts, a)]
    own := Function.update s.own t ((s.puts :: s.own t).take 16)
    puts := s.puts + 1 }

/-- The item of one put is handed out to a thread whose stack then has `left` on it. -/
def handOut (s : Stacks α) (t : Thread) (n : Nat) (left : List Nat) : Stacks α :=
  { s with
    available := s.available.filter (·.1 ≠ n)
    own := Function.update s.own t left }

/-- What a thread gets that looks for an item: of what is on its own stack, the newest that is still
there, and else, of all that is there, the oldest. Its stack loses what it has looked at. -/
inductive Takes (s : Stacks α) (t : Thread) : Option α → Stacks α → Prop where
  | newest {n : Nat} {a : α} (mine : n ∈ s.own t) (here : (n, a) ∈ s.available)
    (last : ∀ m ∈ s.own t, s.Has m → m ≤ n) :
    Takes s t (some a) (s.handOut t n ((s.own t).filter (· < n)))
  | oldest {n : Nat} {a : α} (gone : ∀ m ∈ s.own t, ¬ s.Has m) (here : (n, a) ∈ s.available)
    (first : ∀ m, s.Has m → n ≤ m) : Takes s t (some a) (s.handOut t n [])
  | nothing (empty : s.available = []) : Takes s t none { s with own := Function.update s.own t [] }

/-- What requests come to. Who is parked looks again when something is put. -/
inductive Serves (s : Stacks α) : Request α → Effect α → Stacks α → Prop where
  | refuse {t : Thread} {a : α} (closed : s.closed = true) :
    Serves s (.put t a) (.offered (.rejected a)) s
  | keep {t : Thread} {a : α} (isOpen : s.closed = false) (alone : s.parked = []) :
    Serves s (.put t a) (.offered .kept) (s.push t a)
  | pass {t : Thread} {a x : α} {w : Taker} {ws : List Taker} {s' : Stacks α}
    (isOpen : s.closed = false) (first : s.parked = w :: ws)
    (looks : (s.push t a).Takes w.thread (some x) s') :
    Serves s (.put t a) (.offered (.served w x)) { s' with parked := ws }
  | find {t : Thread} {x : Option α} {s' : Stacks α} (looks : s.Takes t x s') :
    Serves s (.tryTake t) (.found x) s'
  | hand {t : Taker} {expired : Bool} {a : α} {s' : Stacks α}
      (looks : s.Takes t.thread (some a) s') :
    Serves s (.take t expired) (.took t (.item a)) s'
  | dismiss {t : Taker} {expired : Bool} {s' : Stacks α} (looks : s.Takes t.thread none s')
    (closed : s.closed = true) : Serves s (.take t expired) (.took t .closed) s'
  | late {t : Taker} {s' : Stacks α} (looks : s.Takes t.thread none s')
      (isOpen : s.closed = false) :
    Serves s (.take t true) (.took t .timedOut) s'
  | park {t : Taker} {s' : Stacks α} (looks : s.Takes t.thread none s')
      (isOpen : s.closed = false) :
    Serves s (.take t false) (.took t .parked) { s' with parked := s.parked ++ [t] }
  | expire {id : Nat} :
    Serves s (.expire id) (.gaveUp (s.parked.filter (·.id = id)))
      { s with parked := s.parked.filter (·.id ≠ id) }
  | close :
    Serves s .close (.drained (s.available.map (·.2)) s.parked)
      { s with available := [], parked := [], closed := true }

/-- Requests, one after the other, with what they come to. -/
inductive Course : Stacks α → List (Request α × Effect α) → Stacks α → Prop where
  | nil {s : Stacks α} : Course s [] s
  | cons {s s' s'' : Stacks α} {r : Request α} {e : Effect α} {ls : List (Request α × Effect α)}
    (first : s.Serves r e s') (rest : Course s' ls s'') : Course s ((r, e) :: ls) s''

/-- Items stand in the order of their puts, stacks in the reverse order, and no number is used
twice. -/
structure Ranked (s : Stacks α) : Prop where
  ascending : s.available.Pairwise (·.1 < ·.1)
  descending : ∀ t, (s.own t).Pairwise (· > ·)
  available_lt : ∀ e ∈ s.available, e.1 < s.puts
  own_lt : ∀ t, ∀ n ∈ s.own t, n < s.puts
  own_le : ∀ t, (s.own t).length ≤ 16

variable {s s' s'' : Stacks α} {t : Thread} {x : Option α}

theorem ranked_nil : (Stacks.mk (α := α) [] (fun _ => []) 0 [] false).Ranked where
  ascending := List.Pairwise.nil
  descending _ := List.Pairwise.nil
  available_lt e he := by simp at he
  own_lt t n hn := by simp at hn
  own_le t := by simp

theorem Ranked.push (hs : s.Ranked) (t : Thread) (a : α) : (s.push t a).Ranked := by
  have hpushed : ∀ u, ((s.push t a).own u).Sublist (s.puts :: s.own u) := by
    intro u
    by_cases hu : u = t
    · subst hu
      simp only [Stacks.push, Function.update_self]
      exact List.take_sublist _ _
    · simp only [Stacks.push, Function.update_of_ne hu]
      exact List.sublist_cons_self _ _
  refine ⟨?_, ?_, ?_, ?_, ?_⟩
  · refine List.pairwise_append.mpr ⟨hs.ascending, List.pairwise_singleton _ _, ?_⟩
    intro e he e' he'
    rw [List.mem_singleton.mp he']
    exact hs.available_lt e he
  · intro u
    have hall : (s.puts :: s.own u).Pairwise (· > ·) := by
      refine List.pairwise_cons.mpr ⟨?_, hs.descending u⟩
      intro n hn
      exact hs.own_lt u n hn
    exact hall.sublist (hpushed u)
  · intro e he
    simp only [Stacks.push, List.mem_append, List.mem_singleton] at he ⊢
    rcases he with he | rfl
    · have := hs.available_lt e he
      omega
    · simp
  · intro u n hn
    simp only [Stacks.push]
    rcases List.mem_cons.mp ((hpushed u).subset hn) with rfl | hn
    · omega
    · have := hs.own_lt u n hn
      omega
  · intro u
    by_cases hu : u = t
    · subst hu
      simp only [Stacks.push, Function.update_self]
      exact List.length_take_le _ _
    · simp only [Stacks.push, Function.update_of_ne hu]
      exact hs.own_le u

/-- Fewer items and shorter stacks rank as before. -/
theorem Ranked.fewer (hs : s.Ranked) (hitems : s'.available.Sublist s.available)
    (hown : ∀ u, (s'.own u).Sublist (s.own u)) (hputs : s'.puts = s.puts) : s'.Ranked where
  ascending := hs.ascending.sublist hitems
  descending u := (hs.descending u).sublist (hown u)
  available_lt e he := by
    rw [hputs]
    exact hs.available_lt e (hitems.subset he)
  own_lt u n hn := by
    rw [hputs]
    exact hs.own_lt u n ((hown u).subset hn)
  own_le u := le_trans (hown u).length_le (hs.own_le u)

theorem update_sublist {left : List Nat} (hleft : left.Sublist (s.own t)) (u : Thread) :
    (Function.update s.own t left u).Sublist (s.own u) := by
  by_cases hu : u = t
  · subst hu
    rw [Function.update_self]
    exact hleft
  · rw [Function.update_of_ne hu]

theorem Takes.ranked (h : s.Takes t x s') (hs : s.Ranked) : s'.Ranked := by
  cases h with
  | newest mine here last =>
    exact hs.fewer List.filter_sublist (update_sublist List.filter_sublist) rfl
  | oldest gone here first =>
    exact hs.fewer List.filter_sublist (update_sublist (List.nil_sublist _)) rfl
  | nothing empty => exact hs.fewer (List.Sublist.refl _) (update_sublist (List.nil_sublist _)) rfl

theorem Serves.ranked {r : Request α} {e : Effect α} (h : s.Serves r e s') (hs : s.Ranked) :
    s'.Ranked := by
  cases h with
  | refuse closed => exact hs
  | keep isOpen alone => exact hs.push _ _
  | pass isOpen first looks =>
    have hlooked := looks.ranked (hs.push _ _)
    exact hlooked.fewer (List.Sublist.refl _) (fun _ => List.Sublist.refl _) rfl
  | find looks => exact looks.ranked hs
  | hand looks => exact looks.ranked hs
  | dismiss looks closed => exact looks.ranked hs
  | late looks isOpen => exact looks.ranked hs
  | park looks isOpen =>
    exact (looks.ranked hs).fewer (List.Sublist.refl _) (fun _ => List.Sublist.refl _) rfl
  | expire => exact hs.fewer (List.Sublist.refl _) (fun _ => List.Sublist.refl _) rfl
  | close => exact hs.fewer (List.nil_sublist _) (fun _ => List.Sublist.refl _) rfl

theorem Course.ranked {ls : List (Request α × Effect α)} (h : Course s ls s') (hs : s.Ranked) :
    s'.Ranked := by
  induction h with
  | nil => exact hs
  | cons first rest ih => exact ih (first.ranked hs)

theorem Ranked.nodup (hs : s.Ranked) : (s.available.map (·.1)).Nodup :=
  List.pairwise_map.mpr (hs.ascending.imp fun hlt => Nat.ne_of_lt hlt)

/-- A put brought one item. -/
theorem Ranked.item_eq (hs : s.Ranked) {n : Nat} {a b : α} (ha : (n, a) ∈ s.available)
    (hb : (n, b) ∈ s.available) : a = b := by
  have hsame : (n, a) = (n, b) := Keyed.unique (·.1) hs.nodup ha hb rfl
  exact congrArg Prod.snd hsame

/-- A look leaves nothing to choice. -/
theorem Takes.functional (hs : s.Ranked) {y : Option α} (h : s.Takes t x s') (k : s.Takes t y s'') :
    x = y ∧ s' = s'' := by
  have filled : ∀ {P : Prop} {e : Nat × α}, e ∈ s.available → s.available = [] → P := by
    intro P e he hnil
    simp [hnil] at he
  cases h with
  | @newest n a mine here last =>
    cases k with
    | @newest m b mine' here' last' =>
      have hnm : n = m := Nat.le_antisymm (last' n mine ⟨a, here⟩) (last m mine' ⟨b, here'⟩)
      subst hnm
      exact ⟨congrArg some (hs.item_eq here here'), rfl⟩
    | oldest gone _ _ => exact absurd ⟨a, here⟩ (gone n mine)
    | nothing empty => exact filled here empty
  | @oldest n a gone here first =>
    cases k with
    | @newest m b mine' here' _ => exact absurd ⟨b, here'⟩ (gone m mine')
    | @oldest m b _ here' first' =>
      have hnm : n = m := Nat.le_antisymm (first m ⟨b, here'⟩) (first' n ⟨a, here⟩)
      subst hnm
      exact ⟨congrArg some (hs.item_eq here here'), rfl⟩
    | nothing empty => exact filled here empty
  | nothing empty =>
    cases k with
    | newest _ here' _ => exact filled here' empty
    | oldest _ here' _ => exact filled here' empty
    | nothing _ => exact ⟨rfl, rfl⟩

theorem Serves.functional (hs : s.Ranked) {r : Request α} {e e' : Effect α} (h : s.Serves r e s')
    (k : s.Serves r e' s'') : e = e' ∧ s' = s'' := by
  have clash : ∀ {P : Prop}, s.closed = false → s.closed = true → P := by
    intro P isOpen closed
    exact absurd (isOpen.symm.trans closed) Bool.false_ne_true
  have joined : ∀ {P : Prop} {w : Taker} {ws : List Taker},
      s.parked = w :: ws → s.parked = [] → P := by
    intro P w ws first alone
    exact absurd (first.symm.trans alone) (List.cons_ne_nil w ws)
  cases h with
  | refuse closed =>
    cases k with
    | refuse _ => exact ⟨rfl, rfl⟩
    | keep isOpen _ => exact clash isOpen closed
    | pass isOpen _ _ => exact clash isOpen closed
  | keep isOpen alone =>
    cases k with
    | refuse closed => exact clash isOpen closed
    | keep _ _ => exact ⟨rfl, rfl⟩
    | pass _ first _ => exact joined first alone
  | pass isOpen first looks =>
    cases k with
    | refuse closed => exact clash isOpen closed
    | keep _ alone => exact joined first alone
    | pass _ first' looks' =>
      cases first.symm.trans first'
      obtain ⟨hx, rfl⟩ := looks.functional (hs.push _ _) looks'
      cases hx
      exact ⟨rfl, rfl⟩
  | find looks =>
    cases k with
    | find looks' =>
      obtain ⟨rfl, rfl⟩ := looks.functional hs looks'
      exact ⟨rfl, rfl⟩
  | hand looks =>
    cases k with
    | hand looks' =>
      obtain ⟨hx, rfl⟩ := looks.functional hs looks'
      cases hx
      exact ⟨rfl, rfl⟩
    | dismiss looks' _ => exact nomatch (looks.functional hs looks').1
    | late looks' _ => exact nomatch (looks.functional hs looks').1
    | park looks' _ => exact nomatch (looks.functional hs looks').1
  | dismiss looks closed =>
    cases k with
    | hand looks' => exact nomatch (looks.functional hs looks').1
    | dismiss looks' _ => exact ⟨rfl, (looks.functional hs looks').2⟩
    | late _ isOpen => exact clash isOpen closed
    | park _ isOpen => exact clash isOpen closed
  | late looks isOpen =>
    cases k with
    | hand looks' => exact nomatch (looks.functional hs looks').1
    | dismiss _ closed => exact clash isOpen closed
    | late looks' _ => exact ⟨rfl, (looks.functional hs looks').2⟩
  | park looks isOpen =>
    cases k with
    | hand looks' => exact nomatch (looks.functional hs looks').1
    | dismiss _ closed => exact clash isOpen closed
    | park looks' _ =>
      obtain ⟨-, rfl⟩ := looks.functional hs looks'
      exact ⟨rfl, rfl⟩
  | expire =>
    cases k with
    | expire => exact ⟨rfl, rfl⟩
  | close =>
    cases k with
    | close => exact ⟨rfl, rfl⟩

/-- The same requests come to the same. -/
theorem Course.functional {ls ms : List (Request α × Effect α)} (h : Course s ls s')
    (k : Course s ms s'') (hs : s.Ranked) (hreq : ls.map (·.1) = ms.map (·.1)) : ls = ms := by
  induction h generalizing ms with
  | nil =>
    cases k with
    | nil => rfl
    | cons _ _ => simp at hreq
  | cons first rest ih =>
    cases k with
    | nil => simp at hreq
    | cons first' rest' =>
      simp only [List.map_cons, List.cons.injEq] at hreq
      obtain ⟨rfl, hrest⟩ := hreq
      obtain ⟨rfl, rfl⟩ := first.functional hs first'
      rw [ih rest' (first.ranked hs) hrest]

/-- The stacks tell what stands in a free list and in the lists that threads keep beside it. -/
structure Mirrors (s : Stacks α) (b : Bag α) (rs : Recents) : Prop where
  entries : b.entries = s.available
  own : rs.list b.owner = s.own
  next : b.closed = false → b.sequence = s.puts
  parked : b.parked = s.parked
  closed : b.closed = s.closed

theorem owners_set_of_ne (rs : Recents) (owner : Nat) {t u : Thread} (hu : u ≠ t) (xs : List Nat) :
    (rs.set owner t xs).owners u = rs.owners u := by
  simp only [Recents.owners, Recents.set]
  rw [List.find?_cons_of_neg (by simpa using Ne.symm hu), Keyed.find_filter_of_ne Prod.fst _ hu]

theorem list_set (rs : Recents) (owner : Nat) (t : Thread) (xs : List Nat) :
    (rs.set owner t xs).list owner = Function.update (rs.list owner) t xs := by
  funext u
  by_cases hu : u = t
  · subst hu
    rw [Function.update_self, Recents.list_set_self]
  · rw [Function.update_of_ne hu]
    simp only [Recents.list, owners_set_of_ne rs owner hu xs]

variable {b : Bag α} {rs : Recents}

theorem Mirrors.has_iff (hm : s.Mirrors b rs) (n : Nat) : b.has n = true ↔ s.Has n := by
  simp only [Bag.has, hm.entries, List.any_eq_true, decide_eq_true_eq, Has]
  constructor
  · rintro ⟨⟨m, a⟩, he, rfl⟩
    exact ⟨a, he⟩
  · rintro ⟨a, he⟩
    exact ⟨(n, a), he, rfl⟩

theorem Mirrors.handOut (hm : s.Mirrors b rs) (t : Thread) (n : Nat) (left : List Nat) :
    (s.handOut t n left).Mirrors { b with entries := b.entries.filter (·.1 ≠ n) }
      (rs.set b.owner t left) where
  entries := by rw [hm.entries]; rfl
  own := by rw [list_set, hm.own]; rfl
  next := hm.next
  parked := hm.parked
  closed := hm.closed

/-- A free list looks for an item as the stacks say. -/
theorem Mirrors.looks (hm : s.Mirrors b rs) (hs : s.Ranked) (t : Thread) :
    ∃ s', s.Takes t (b.tryTake rs t).1 s' ∧ s'.parked = s.parked ∧ s'.closed = s.closed ∧
      s'.Mirrors (b.tryTake rs t).2.1 (b.tryTake rs t).2.2 := by
  have hlist : rs.list b.owner t = s.own t := congrFun hm.own t
  simp only [Bag.tryTake]
  split
  · next n ns hd =>
    rw [hlist] at hd
    obtain ⟨hmine, hhas, hlast, hless⟩ := dropWhile_falling (hs.descending t) hd
    obtain ⟨a, here⟩ := (hm.has_iff n).mp hhas
    have hfind : b.entries.find? (·.1 = n) = some (n, a) := by
      rw [hm.entries]
      exact (Keyed.find_iff (·.1) hs.nodup).mpr ⟨here, rfl⟩
    refine ⟨s.handOut t n ns, ?_, rfl, rfl, hm.handOut t n ns⟩
    simp only [Bag.claim, hfind, Option.map_some]
    rw [← hless]
    exact .newest hmine here fun m hm' hmhas => hlast m hm' ((hm.has_iff m).mpr hmhas)
  · next hd =>
    rw [hlist] at hd
    have hgone : ∀ m ∈ s.own t, ¬ s.Has m := by
      intro m hmine hmhas
      have hnot := List.dropWhile_eq_nil_iff.mp hd m hmine
      rw [(hm.has_iff m).mpr hmhas] at hnot
      exact Bool.false_ne_true hnot
    split
    · next hnil =>
      refine ⟨{ s with own := Function.update s.own t [] }, .nothing (hm.entries ▸ hnil), rfl,
        rfl, ?_⟩
      refine ⟨hm.entries, ?_, hm.next, hm.parked, hm.closed⟩
      rw [list_set, hm.own]
    · next n a es hcons =>
      have heq : s.available = (n, a) :: es := hm.entries ▸ hcons
      obtain ⟨hafter, -⟩ := List.pairwise_cons.mp (heq ▸ hs.ascending)
      have hrest : b.entries.filter (·.1 ≠ n) = es := by
        rw [hcons, List.filter_cons_of_neg (by simp)]
        exact List.filter_eq_self.mpr fun e he => by simpa using (Nat.ne_of_lt (hafter e he)).symm
      refine ⟨s.handOut t n [], ?_, rfl, rfl, ?_⟩
      · refine .oldest hgone (heq ▸ List.mem_cons_self) ?_
        rintro m ⟨c, hc⟩
        rw [heq] at hc
        rcases List.mem_cons.mp hc with hc | hc
        · cases hc
          exact Nat.le_refl _
        · exact Nat.le_of_lt (hafter _ hc)
      · have hout := hm.handOut t n []
        rw [hrest] at hout
        exact hout

theorem Mirrors.push (hm : s.Mirrors b rs) (hopen : b.closed = false) (t : Thread) (a : α) :
    (s.push t a).Mirrors
      { b with entries := b.entries ++ [(b.sequence, a)], sequence := b.sequence + 1 }
      (rs.push b.owner t b.sequence) where
  entries := by rw [hm.entries, hm.next hopen]; rfl
  own := by rw [Recents.push, list_set, hm.own, hm.next hopen]; rfl
  next _ := congrArg (· + 1) (hm.next hopen)
  parked := hm.parked
  closed := hm.closed

theorem Mirrors.put (hm : s.Mirrors b rs) (hs : s.Ranked) (t : Thread) (a : α) :
    ∃ s', s.Serves (.put t a) (.offered (b.put rs t a).1) s' ∧
      s'.Mirrors (b.put rs t a).2.1 (b.put rs t a).2.2 := by
  cases hc : b.closed with
  | true =>
    have hput : b.put rs t a = (.rejected a, b, rs) := if_pos hc
    rw [hput]
    exact ⟨s, .refuse (hm.closed ▸ hc), hm⟩
  | false =>
    have hopen : s.closed = false := hm.closed ▸ hc
    have hpushed := hm.push hc t a
    cases hp : b.parked with
    | nil =>
      have hput : b.put rs t a =
          (.kept, { b with entries := b.entries ++ [(b.sequence, a)], sequence := b.sequence + 1 },
            rs.push b.owner t b.sequence) := by
        simp [Bag.put, hc, hp]
      rw [hput]
      exact ⟨s.push t a, .keep hopen (hm.parked ▸ hp), hpushed⟩
    | cons w ws =>
      obtain ⟨s', htakes, hparked, hclosed, hmirrors⟩ := hpushed.looks (hs.push t a) w.thread
      simp only [Bag.put, hc, hp, Bool.false_eq_true, if_false] at htakes hmirrors ⊢
      split
      · next x b' rs' hlook =>
        rw [hlook] at htakes hmirrors
        refine ⟨{ s' with parked := ws }, .pass hopen (hm.parked ▸ hp) htakes, ?_⟩
        exact ⟨hmirrors.entries, hmirrors.own, hmirrors.next, rfl, hmirrors.closed⟩
      · next b' rs' hlook =>
        rw [hlook] at htakes
        cases htakes with
        | nothing empty => exact absurd empty (by simp [Stacks.push])

theorem Mirrors.take (hm : s.Mirrors b rs) (hs : s.Ranked) (t : Taker) (expired : Bool) :
    ∃ s', s.Serves (.take t expired) (.took t (b.take rs t expired).1) s' ∧
      s'.Mirrors (b.take rs t expired).2.1 (b.take rs t expired).2.2 := by
  obtain ⟨s', htakes, hparked, hclosed, hmirrors⟩ := hm.looks hs t.thread
  rcases hlook : b.tryTake rs t.thread with ⟨_ | x, b', rs'⟩
  · rw [hlook] at htakes hmirrors
    have hsame : b'.closed = b.closed := by rw [hmirrors.closed, hclosed, hm.closed]
    cases hc : b.closed with
    | true =>
      have htake : b.take rs t expired = (.closed, b', rs') := by simp [Bag.take, hlook, hc]
      rw [htake]
      exact ⟨s', .dismiss htakes (hm.closed ▸ hc), hmirrors⟩
    | false =>
      cases expired with
      | true =>
        have htake : b.take rs t true = (.timedOut, b', rs') := by simp [Bag.take, hlook, hc]
        rw [htake]
        exact ⟨s', .late htakes (hm.closed ▸ hc), hmirrors⟩
      | false =>
        have htake :
            b.take rs t false = (.parked, { b' with parked := b'.parked ++ [t] }, rs') := by
          simp [Bag.take, hlook, hc]
        rw [htake]
        refine ⟨{ s' with parked := s.parked ++ [t] }, .park htakes (hm.closed ▸ hc), ?_⟩
        refine ⟨hmirrors.entries, hmirrors.own, hmirrors.next, ?_, hmirrors.closed⟩
        exact congrArg (· ++ [t]) (hmirrors.parked.trans hparked)
  · have htake : b.take rs t expired = (.item x, b', rs') := by simp [Bag.take, hlook]
    rw [hlook] at htakes hmirrors
    rw [htake]
    exact ⟨s', .hand htakes, hmirrors⟩

theorem Mirrors.close (hm : s.Mirrors b rs) :
    ∃ s', s.Serves .close (.drained b.close.1 b.close.2.1) s' ∧ s'.Mirrors b.close.2.2 rs := by
  refine ⟨{ s with available := [], parked := [], closed := true }, ?_, ?_⟩
  · simp only [Bag.close, hm.entries, hm.parked]
    exact .close
  · exact ⟨rfl, hm.own, fun h => Bool.noConfusion h, rfl, rfl⟩

theorem Mirrors.step {x : Exchange α} (hm : s.Mirrors b x.recents) (hs : s.Ranked)
    (hb : x.handoff = .bag b) (r : Request α) :
    ∃ s' b', s.Serves r (x.step r).1 s' ∧ (x.step r).2.handoff = .bag b' ∧
      s'.Mirrors b' (x.step r).2.recents := by
  cases r with
  | put t a =>
    obtain ⟨s', hserves, hmirrors⟩ := hm.put hs t a
    simp only [Exchange.step, Handoff.put, hb]
    exact ⟨s', _, hserves, rfl, hmirrors⟩
  | tryTake t =>
    obtain ⟨s', htakes, -, -, hmirrors⟩ := hm.looks hs t
    simp only [Exchange.step, Handoff.tryTake, hb]
    exact ⟨s', _, .find htakes, rfl, hmirrors⟩
  | take t expired =>
    obtain ⟨s', hserves, hmirrors⟩ := hm.take hs t expired
    simp only [Exchange.step, Handoff.take, hb]
    exact ⟨s', _, hserves, rfl, hmirrors⟩
  | expire id =>
    simp only [Exchange.step, Handoff.withdraw, Handoff.parked, hb, hm.parked]
    refine ⟨_, _, .expire, rfl, ?_⟩
    exact ⟨hm.entries, hm.own, hm.next, congrArg (List.filter _) hm.parked, hm.closed⟩
  | close =>
    obtain ⟨s', hserves, hmirrors⟩ := hm.close
    simp only [Exchange.step, Handoff.close, hb]
    exact ⟨s', _, hserves, rfl, hmirrors⟩

theorem Mirrors.run {x : Exchange α} (hm : s.Mirrors b x.recents) (hs : s.Ranked)
    (hb : x.handoff = .bag b) (reqs : List (Request α)) :
    ∃ s' b', Course s (x.log reqs) s' ∧ (x.after reqs).handoff = .bag b' ∧
      s'.Mirrors b' (x.after reqs).recents := by
  induction reqs generalizing s b x with
  | nil => exact ⟨s, b, .nil, hb, hm⟩
  | cons r reqs ih =>
    obtain ⟨s', b', hserves, hb', hm'⟩ := hm.step hs hb r
    obtain ⟨s'', b'', hcourse, hb'', hm''⟩ := ih hm' (hserves.ranked hs) hb'
    exact ⟨s'', b'', .cons hserves hcourse, hb'', hm''⟩

end Stacks

namespace Exchange

variable {α : Type}

theorem log_requests (x : Exchange α) (reqs : List (Request α)) :
    (x.log reqs).map (·.1) = reqs := by
  induction reqs generalizing x with
  | nil => rfl
  | cons r reqs ih => exact congrArg (r :: ·) (ih _)

/-- Whatever threads ask of a free list, each gets of what it put itself and remembers the newest
that is left, and else the oldest of all that is left; a stack has sixteen puts at most; and the
closing hands out what is left in the order of the puts. These rules leave nothing to choice. -/
theorem newest_own_else_oldest (owner : Nat) (recents : Recents)
    (fresh : ∀ t, recents.list owner t = []) (reqs : List (Request α)) :
    let x : Exchange α := .new .bag owner recents
    ∃ s : Stacks α, Stacks.Course {} (x.log reqs) s ∧
      (x.after reqs).handoff.toList = s.available.map (·.2) ∧ (∀ t, (s.own t).length ≤ 16) ∧
      ∀ ls s', Stacks.Course {} ls s' → ls.map (·.1) = reqs → ls = x.log reqs := by
  intro x
  have hstart : Stacks.Mirrors ({} : Stacks α) { owner := owner } x.recents :=
    ⟨rfl, funext fresh, fun _ => rfl, rfl, rfl⟩
  obtain ⟨s, b, hcourse, hb, hmirrors⟩ := hstart.run Stacks.ranked_nil rfl reqs
  refine ⟨s, hcourse, ?_, (hcourse.ranked Stacks.ranked_nil).own_le, ?_⟩
  · rw [hb]
    exact congrArg (List.map _) hmirrors.entries
  · intro ls s' hother hreqs
    exact hother.functional hcourse Stacks.ranked_nil (hreqs.trans (log_requests x reqs).symm)

/-- Thread `a` puts seventeen items, of which it forgets the first, and `b` has the oldest of all,
which is that one; then `a` has its newest, and `b` once more the oldest. -/
theorem newest_own_in_turns :
    let t : String → Thread := .named
    let recents : Recents := { threads := [(t "a", [(7, [3])])] }
    let reqs : List (Handoff.Request Nat) := (List.range 17).map (.put (t "a")) ++
      [.tryTake (t "b"), .take ⟨0, t "a"⟩ true, .tryTake (t "b"), .close]
    (∀ u, recents.list 1 u = []) ∧
      ((Exchange.new .bag 1 recents).log reqs).map (·.2.items) =
        List.replicate 17 [] ++ [[0], [16], [1], (List.range 14).map (· + 2)] ∧
      ∃ s : Stacks Nat, Stacks.Course {} ((Exchange.new .bag 1 recents).log reqs) s := by
  intro t recents reqs
  have hfresh : ∀ u, recents.list 1 u = [] := by
    intro u
    by_cases hu : u = t "a"
    · subst hu
      rfl
    · simp [recents, Recents.list, Recents.owners, Ne.symm hu]
  obtain ⟨s, hcourse, -⟩ := newest_own_else_oldest 1 recents hfresh reqs
  exact ⟨hfresh, by decide +kernel, s, hcourse⟩

end Exchange
end ConnPool
