import ConnPool.Event.Bus
import Mathlib.Algebra.Ring.Nat
import Mathlib.Data.List.Induction

namespace ConnPool.Bus

/-- What a subscriber writes down: an event was sent, an answer was given, the bus is gone. -/
inductive Entry where
  | sent (e : Event)
  | got (x : Received)
  | gone
  deriving DecidableEq

namespace Entry

def sent? : Entry → Option Event
  | sent e => some e
  | _ => none

def event? : Entry → Option Event
  | got (.event e) => some e
  | _ => none

/-- The number of events that are reported as lost. -/
def lag : Entry → Nat
  | got (.lagged n) => n
  | _ => 0

/-- How many events are received or reported as lost. -/
def taken (a : Entry) : Nat := a.event?.toList.length + a.lag

/-- What is outstanding after an entry. -/
def owe (es : List Event) : Entry → List Event
  | sent e => es ++ [e]
  | got (.event _) => es.tail
  | got (.lagged n) => es.drop n
  | _ => es

end Entry

/-- The events that were sent. -/
def emitted (es : List Entry) : List Event := es.filterMap Entry.sent?

/-- The events that were received. -/
def received (es : List Entry) : List Event := es.filterMap Entry.event?

/-- How many events were received or reported as lost. -/
def accounted (es : List Entry) : Nat := (received es).length + (es.map Entry.lag).sum

/-- How a line with these events outstanding answers. -/
def reply (capacity : Nat) (isOpen : Bool) (es : List Event) : Received :=
  if capacity < es.length then .lagged (es.length - capacity)
  else match es with
    | e :: _ => .event e
    | [] => if isOpen then .empty else .closed

/-- What an answer of a line says of it. -/
inductive Replies (capacity : Nat) (isOpen : Bool) (es : List Event) : Received → Prop where
  | lagged (behind : capacity < es.length) :
      Replies capacity isOpen es (.lagged (es.length - capacity))
  | event {e : Event} {rest : List Event} (first : es = e :: rest) (kept : es.length ≤ capacity) :
    Replies capacity isOpen es (.event e)
  | empty (nothing : es = []) (waits : isOpen = true) : Replies capacity isOpen es .empty
  | closed (nothing : es = []) (ended : isOpen = false) : Replies capacity isOpen es .closed

/-- What is outstanding at the end of a history. -/
def outstanding (es : List Entry) : List Event := es.foldl Entry.owe []

/-- Every answer in a history is that of a line with what was outstanding. -/
def Faithful (capacity : Nat) (es : List Entry) : Prop :=
  ∀ pre x post, es = pre ++ .got x :: post →
    x = reply capacity (decide (.gone ∉ pre)) (outstanding pre)

variable {capacity : Nat} {e : Event} {es pre post : List Entry} {a : Entry} {x : Received}

theorem reply_over {isOpen : Bool} {es : List Event} (h : capacity < es.length) :
    reply capacity isOpen es = .lagged (es.length - capacity) :=
  if_pos h

theorem reply_cons {isOpen : Bool} {rest : List Event} (h : (e :: rest).length ≤ capacity) :
    reply capacity isOpen (e :: rest) = .event e :=
  if_neg (Nat.not_lt.mpr h)

theorem reply_nil (isOpen : Bool) : reply capacity isOpen [] = if isOpen then .empty else .closed :=
  if_neg (Nat.not_lt_zero _)

theorem replies (capacity : Nat) (isOpen : Bool) (es : List Event) :
    Replies capacity isOpen es (reply capacity isOpen es) := by
  by_cases hover : capacity < es.length
  · rw [reply_over hover]
    exact .lagged hover
  · have hkept := Nat.not_lt.mp hover
    cases es with
    | cons e rest =>
      rw [reply_cons hkept]
      exact .event rfl hkept
    | nil =>
      rw [reply_nil]
      cases isOpen with
      | true => exact .empty rfl rfl
      | false => exact .closed rfl rfl

theorem emitted_snoc : emitted (es ++ [a]) = emitted es ++ a.sent?.toList := by
  simp only [emitted, List.filterMap_append]
  cases h : a.sent? <;> simp [h]

theorem received_snoc : received (es ++ [a]) = received es ++ a.event?.toList := by
  simp only [received, List.filterMap_append]
  cases h : a.event? <;> simp [h]

theorem accounted_snoc : accounted (es ++ [a]) = accounted es + a.taken := by
  simp only [accounted, received_snoc, Entry.taken, List.length_append, List.map_append,
    List.sum_append, List.map_cons, List.map_nil, List.sum_cons, List.sum_nil]
  omega

theorem outstanding_snoc : outstanding (es ++ [a]) = a.owe (outstanding es) :=
  List.foldl_append

theorem Faithful.prior (h : Faithful capacity (pre ++ post)) : Faithful capacity pre := by
  rintro pre' x post' rfl
  exact h pre' x (post' ++ post) (by rw [List.append_assoc, List.cons_append])

theorem Faithful.snoc (h : Faithful capacity es)
    (ha : ∀ x, a = .got x → x = reply capacity (decide (.gone ∉ es)) (outstanding es)) :
    Faithful capacity (es ++ [a]) := by
  intro pre x post hsplit
  -- the answer is the new entry, or an earlier one
  rcases List.eq_nil_or_concat post with rfl | ⟨post, a', rfl⟩
  · obtain ⟨rfl, hlast⟩ := List.append_inj' hsplit rfl
    exact ha x (List.cons.inj hlast).1
  · have hinit : es ++ [a] = (pre ++ .got x :: post) ++ [a'] := by
      rw [hsplit, List.concat_eq_append, List.append_assoc, List.cons_append]
    exact h pre x post (List.append_inj' hinit rfl).1

theorem Faithful.replies (h : Faithful capacity (pre ++ .got x :: post)) :
    Replies capacity (decide (.gone ∉ pre)) (outstanding pre) x :=
  h pre x post rfl ▸ Bus.replies capacity _ _

/-- What is outstanding is what was sent last, but for what is accounted for. What was received is
among the first that were sent, in their order. -/
structure Balanced (es : List Entry) : Prop where
  within : accounted es ≤ (emitted es).length
  rest : outstanding es = (emitted es).drop (accounted es)
  inOrder : (received es).Sublist ((emitted es).take (accounted es))

theorem Balanced.length (h : Balanced es) :
    accounted es + (outstanding es).length = (emitted es).length := by
  rw [h.rest, List.length_drop, Nat.add_sub_cancel' h.within]

/-- An entry takes from the front of what is outstanding, what it brings included. -/
theorem Balanced.snoc (h : Balanced es)
    (hwithin : a.taken ≤ (outstanding es ++ a.sent?.toList).length)
    (howe : a.owe (outstanding es) = (outstanding es ++ a.sent?.toList).drop a.taken)
    (hevent : a.event?.toList.Sublist ((outstanding es ++ a.sent?.toList).take a.taken)) :
    Balanced (es ++ [a]) := by
  have hlength := h.length
  -- what the entry brings is sent last, so it is outstanding last
  have hrest : (emitted es ++ a.sent?.toList).drop (accounted es) = outstanding es ++
      a.sent?.toList := by
    rw [List.drop_append_of_le_length h.within, h.rest]
  refine ⟨?_, ?_, ?_⟩
  · rw [List.length_append] at hwithin
    rw [accounted_snoc, emitted_snoc, List.length_append]
    omega
  · rw [outstanding_snoc, howe, accounted_snoc, emitted_snoc, ← hrest, List.drop_drop]
  · rw [received_snoc, accounted_snoc, emitted_snoc, List.take_add, hrest,
      List.take_append_of_le_length h.within]
    exact h.inOrder.append hevent

/-- A faithful history is balanced. -/
theorem Faithful.balanced (h : Faithful capacity es) : Balanced es := by
  induction es using List.reverseRecOn with
  | nil => exact ⟨Nat.le_refl _, rfl, .slnil⟩
  | append_singleton es a ih =>
    have hbalanced := ih h.prior
    have hsame : outstanding es = outstanding es ++ [] := (List.append_nil _).symm
    cases a with
    | sent e => exact hbalanced.snoc (Nat.zero_le _) rfl (List.nil_sublist _)
    | gone => exact hbalanced.snoc (Nat.zero_le _) hsame (List.nil_sublist _)
    | got x =>
      have hreplies := h.replies
      cases hreplies with
      | lagged behind =>
        refine hbalanced.snoc ?_ ?_ (List.nil_sublist _)
        · simp [Entry.taken, Entry.event?, Entry.lag, Entry.sent?]
        · simp [Entry.owe, Entry.taken, Entry.event?, Entry.lag, Entry.sent?]
      | event first kept =>
        refine hbalanced.snoc ?_ ?_ ?_
        · simp [first, Entry.taken, Entry.event?, Entry.lag]
        · simp [first, Entry.owe, Entry.taken, Entry.event?, Entry.lag, Entry.sent?]
        · simp [first, Entry.taken, Entry.event?, Entry.lag]
      | empty nothing waits => exact hbalanced.snoc (Nat.zero_le _) hsame (List.nil_sublist _)
      | closed nothing ended => exact hbalanced.snoc (Nat.zero_le _) hsame (List.nil_sublist _)

/-- As long as nothing is sent, what is outstanding does not grow. -/
theorem length_owe_le {mid : List Entry} (hmid : ∀ e, .sent e ∉ mid) (es : List Event) :
    (mid.foldl Entry.owe es).length ≤ es.length := by
  induction mid generalizing es with
  | nil => exact Nat.le_refl _
  | cons a mid ih =>
    have hrest := ih (fun e he => hmid e (List.mem_cons_of_mem _ he)) (a.owe es)
    have hone : (a.owe es).length ≤ es.length := by
      cases a with
      | sent e => exact absurd List.mem_cons_self (hmid e)
      | gone => exact Nat.le_refl _
      | got x => cases x <;> simp [Entry.owe]
    exact Nat.le_trans hrest hone

/-- What a subscriber's history tells of the events that were sent since it came: what it received
is in their order, each event next after all that was received before or reported as lost; it is
told of a loss only if more is outstanding than the bus keeps, then of all that the bus does not
keep, and of one more only if something was sent in between; and when it is told that there is
nothing, everything was received or reported, and it is told that there will be nothing only if the
bus is gone. -/
structure Candid (capacity : Nat) (es : List Entry) : Prop where
  inOrder : (received es).Sublist (emitted es)
  next : ∀ pre e post, es = pre ++ .got (.event e) :: post → (emitted pre)[accounted pre]? = some e
  lag : ∀ pre n post, es = pre ++ .got (.lagged n) :: post →
    capacity < (emitted pre).length - accounted pre ∧
      n = (emitted pre).length - accounted pre - capacity
  apart : ∀ pre n mid m post, es = pre ++ .got (.lagged n) :: mid ++ .got (.lagged m) :: post →
    ∃ e, .sent e ∈ mid
  nothing : ∀ pre x post, es = pre ++ .got x :: post → x = .empty ∨ x = .closed →
    accounted pre = (emitted pre).length ∧ (x = .closed ↔ .gone ∈ pre)

theorem Faithful.apart {mid : List Entry} {m n : Nat}
    (h : Faithful capacity (pre ++ .got (.lagged n) :: mid ++ .got (.lagged m) :: post)) :
    ∃ e, .sent e ∈ mid := by
  by_contra hnone
  have hfirst :
      Faithful capacity (pre ++ .got (.lagged n) :: (mid ++ .got (.lagged m) :: post)) := by
    rw [← List.cons_append, ← List.append_assoc]
    exact h
  -- the first lag leaves as much as is kept, and nothing is added to that until the second
  have hleft : (outstanding (pre ++ .got (.lagged n) :: mid)).length ≤ capacity := by
    have hn := hfirst.replies
    rw [outstanding, List.foldl_append]
    have hless :=
      length_owe_le (fun e he => hnone ⟨e, he⟩) (Entry.owe (outstanding pre) (.got (.lagged n)))
    refine Nat.le_trans hless ?_
    cases hn with
    | lagged behind =>
      simp only [Entry.owe, List.length_drop]
      omega
  have hm := h.replies
  cases hm with
  | lagged behind => exact absurd behind (Nat.not_lt.mpr hleft)

theorem Faithful.candid (h : Faithful capacity es) : Candid capacity es := by
  refine ⟨h.balanced.inOrder.trans (List.take_sublist _ _), ?_, ?_, ?_, ?_⟩
  · rintro pre e post rfl
    have hreplies := h.replies
    cases hreplies with
    | event first kept => rw [← List.head?_drop, ← h.prior.balanced.rest, first]; rfl
  · rintro pre n post rfl
    have hlength := h.prior.balanced.length
    have hreplies := h.replies
    cases hreplies with
    | lagged behind =>
      have hleft : (emitted pre).length - accounted pre = (outstanding pre).length := by omega
      rw [hleft]
      exact ⟨behind, rfl⟩
  · rintro pre n mid m post rfl
    exact h.apart
  · rintro pre x post rfl hx
    have hlength := h.prior.balanced.length
    have hreplies := h.replies
    generalize hopen : decide (.gone ∉ pre) = isOpen at hreplies
    cases hreplies with
    | lagged behind => simp at hx
    | event first kept => simp at hx
    | empty nothing waits =>
      rw [nothing] at hlength
      subst waits
      exact ⟨hlength, by simpa using hopen⟩
    | closed nothing ended =>
      rw [nothing] at hlength
      subst ended
      exact ⟨hlength, by simpa using hopen⟩

end ConnPool.Bus
