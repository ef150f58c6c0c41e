import ConnPool.Proofs.SubscriberHistory
import ConnPool.Proofs.Ring
import ConnPool.Scenario.Events

namespace ConnPool.Bus

/-- What is asked of a bus, or done to it. -/
inductive Request where
  | subscribe (name : String)
  | unsubscribe (name : String)
  | emit (e : Event)
  | receive (name : String)
  | drop

def Request.step : Request → Scenario.Events.Step
  | subscribe name => .subscribe name
  | unsubscribe name => .unsubscribe name
  | emit e => .emit [e]
  | receive name => .receive name
  | drop => .drop

/-- The bus after a request. -/
def serve (b : Bus) (r : Request) : Bus := (Scenario.Events.perform b r.step).2

/-- The bus after some requests. -/
def serveAll (b : Bus) (rs : List Request) : Bus := rs.foldl serve b

/-- What a subscriber of this name has been through, if there is one, after a request. It begins
with its subscription. -/
def extend (name : String) (b : Bus) (history : Option (List Entry)) : Request → Option (List Entry)
  | .subscribe n => if n = name ∧ b.isOpen = true then some [] else history
  | .unsubscribe n => if n = name then none else history
  | .emit e => if b.isOpen then history.map (· ++ [.sent e]) else history
  | .receive n =>
    match (Scenario.Events.perform b (.receive n)).1 with
    | .received x => if n = name then history.map (· ++ [.got x]) else history
    | _ => history
  | .drop => history.map (· ++ [.gone])

/-- What a subscriber has been through after some requests. -/
def history (name : String) (b : Bus) (es : Option (List Entry)) :
    List Request → Option (List Entry)
  | [] => es
  | r :: rs => history name (b.serve r) (extend name b es r) rs

variable {b c : Bus} {name n : String} {k capacity : Nat} {e : Event} {es : List Entry}
  {x : Received} {r : Request}

/-- All there is to a bus for one subscriber. -/
structure Line where
  isOpen : Bool
  history : Option (List Entry)

namespace Line

/-- What comes of a request. A line answers its subscriber by itself. -/
def serve (capacity : Nat) (name : String) (l : Line) : Request → Line
  | .subscribe n => if n = name ∧ l.isOpen = true then { l with history := some [] } else l
  | .unsubscribe n => if n = name then { l with history := none } else l
  | .emit e => if l.isOpen then { l with history := l.history.map (· ++ [.sent e]) } else l
  | .receive n =>
    if n = name then
      { l with
        history := l.history.map fun es => es ++ [.got (reply capacity l.isOpen (outstanding es))] }
    else l
  | .drop => { isOpen := false, history := l.history.map (· ++ [.gone]) }

/-- The history is faithful, and says whether the bus is gone. -/
def Sound (capacity : Nat) (l : Line) : Prop :=
  ∀ es, l.history = some es → Faithful capacity es ∧ l.isOpen = decide (.gone ∉ es)

variable {l : Line}

theorem Sound.serve (h : l.Sound capacity) (name : String) (r : Request) :
    (l.serve capacity name r).Sound capacity := by
  cases r with
  | subscribe n =>
    simp only [Line.serve]
    split
    · next hnew =>
      intro es hes
      cases hes
      exact ⟨fun pre x post hsplit => absurd hsplit.symm (by simp), hnew.2⟩
    · exact h
  | unsubscribe n =>
    simp only [Line.serve]
    split
    · intro es hes
      cases hes
    · exact h
  | emit e =>
    simp only [Line.serve]
    split
    · intro es hes
      obtain ⟨es, hbefore, rfl⟩ := Option.map_eq_some_iff.mp hes
      obtain ⟨hfaithful, hopen⟩ := h es hbefore
      refine ⟨hfaithful.snoc fun x hx => (by cases hx), hopen.trans (by simp)⟩
    · exact h
  | receive n =>
    simp only [Line.serve]
    split
    · intro es hes
      obtain ⟨es, hbefore, rfl⟩ := Option.map_eq_some_iff.mp hes
      obtain ⟨hfaithful, hopen⟩ := h es hbefore
      refine ⟨hfaithful.snoc fun x hx => ?_, hopen.trans (by simp)⟩
      cases hx
      rw [hopen]
    · exact h
  | drop =>
    intro es hes
    obtain ⟨es, hbefore, rfl⟩ := Option.map_eq_some_iff.mp hes
    exact ⟨(h es hbefore).1.snoc fun x hx => (by cases hx), by simp [Line.serve]⟩

/-- The line after some requests. -/
def serveAll (capacity : Nat) (name : String) (l : Line) (rs : List Request) : Line :=
  rs.foldl (·.serve capacity name) l

theorem Sound.serveAll (h : l.Sound capacity) (name : String) (rs : List Request) :
    (l.serveAll capacity name rs).Sound capacity := by
  induction rs generalizing l with
  | nil => exact h
  | cons r rs ih => exact ih (h.serve name r)

end Line

/-- The requests that have to do with a subscriber: its own, and all that is sent to everybody. -/
def Request.concerns (name : String) : Request → Bool
  | subscribe n | unsubscribe n | receive n => n = name
  | emit _ | drop => true

theorem Line.serve_other {l : Line} (hr : r.concerns name = false) :
    l.serve capacity name r = l := by
  cases r with
  | emit e => cases hr
  | drop => cases hr
  | subscribe n => exact if_neg fun h => of_decide_eq_false hr h.1
  | unsubscribe n => exact if_neg (of_decide_eq_false hr)
  | receive n => exact if_neg (of_decide_eq_false hr)

/-- A line is left alone by the requests of others. -/
theorem Line.serveAll_concerns (l : Line) (rs : List Request) :
    l.serveAll capacity name (rs.filter (·.concerns name)) = l.serveAll capacity name rs := by
  induction rs generalizing l with
  | nil => rfl
  | cons r rs ih =>
    cases hr : r.concerns name with
    | true =>
      rw [List.filter_cons_of_pos hr]
      exact ih _
    | false =>
      rw [List.filter_cons_of_neg (by simp [hr]), ih]
      exact (congrArg (·.serveAll capacity name rs) (Line.serve_other hr)).symm

/-- For a subscriber, a bus does as its line does. -/
structure Follows (capacity : Nat) (name : String) (b : Bus) (l : Line) : Prop where
  capacity : b.capacity = capacity
  isOpen : b.isOpen = l.isOpen
  absent : l.history = none → b.place? name = none
  present : ∀ es, l.history = some es → ∃ k ≤ b.sent.size,
    b.place? name = some (name, k) ∧ b.sent.toList.drop k = outstanding es

/-- A subscriber is answered from the events that it has not been told of. -/
theorem receive_reply (hplace : b.place? name = some (name, k)) (hk : k ≤ b.sent.size) :
    ∃ c, b.receive? name = some (reply b.capacity b.isOpen (b.sent.toList.drop k), c) ∧
      c.capacity = b.capacity ∧ c.isOpen = b.isOpen ∧ ∃ j ≤ c.sent.size,
        c.place? name = some (name, j) ∧ c.sent.toList.drop j =
          Entry.owe (b.sent.toList.drop k)
          (.got (reply b.capacity b.isOpen (b.sent.toList.drop k))) := by
  have hlength : (b.sent.toList.drop k).length = b.sent.size - k := by
    rw [List.length_drop, Array.length_toList]
  have hfind : b.cursors.find? (·.1 = name) = some (name, k) := hplace
  have hmoved : ∀ j, place? { b with cursors := moveCursor name j b.cursors } name =
    some (name, j) :=
    fun j => find_moveCursor_self hfind
  simp only [receive?, hfind, Option.map_some]
  by_cases hover : b.sent.size - k > b.capacity
  -- the place jumps to the oldest event that is kept
  · have hreply : reply b.capacity b.isOpen (b.sent.toList.drop k) =
        .lagged (b.sent.size - b.capacity - k) := by
      rw [reply_over (hlength ▸ hover), hlength, Nat.sub_right_comm]
    rw [if_pos hover, hreply]
    refine ⟨_, rfl, rfl, rfl, b.sent.size - b.capacity, Nat.sub_le _ _, hmoved _, ?_⟩
    have hjump : k + (b.sent.size - b.capacity - k) = b.sent.size - b.capacity := by omega
    simp only [Entry.owe, List.drop_drop, hjump]
  · rw [if_neg hover]
    cases he : b.sent[k]? with
    | some e =>
      obtain ⟨hlt, hget⟩ := Array.getElem?_eq_some_iff.mp he
      have hdrop : b.sent.toList.drop k = e :: b.sent.toList.drop (k + 1) := by
        rw [List.drop_eq_getElem_cons (by simpa using hlt), ← hget]
        rfl
      have hreply : reply b.capacity b.isOpen (b.sent.toList.drop k) = .event e := by
        rw [hdrop] at hlength ⊢
        exact reply_cons (hlength ▸ Nat.not_lt.mp hover)
      rw [hreply, hdrop]
      exact ⟨_, rfl, rfl, rfl, k + 1, hlt, hmoved _, rfl⟩
    | none =>
      have hnothing : b.sent.toList.drop k = [] :=
        List.drop_eq_nil_of_le (Array.getElem?_eq_none_iff.mp he)
      have hreply : reply b.capacity b.isOpen (b.sent.toList.drop k) =
          if b.isOpen then .empty else .closed := by
        rw [hnothing, reply_nil]
      rw [hreply]
      refine ⟨b, rfl, rfl, rfl, k, hk, hplace, ?_⟩
      cases b.isOpen <;> rfl

theorem receive_none (h : b.place? name = none) : b.receive? name = none := by
  have hfind : b.cursors.find? (·.1 = name) = none := h
  rw [receive?, hfind]
  rfl

theorem emit_keeps (b : Bus) (e : Event) : (b.emit e).capacity = b.capacity ∧
    (b.emit e).isOpen = b.isOpen ∧ (b.emit e).cursors = b.cursors := by
  unfold emit
  split <;> exact ⟨rfl, rfl, rfl⟩

/-- Who is there sees to it that an event goes somewhere. -/
theorem emit_sent (hplace : b.place? name = some (name, k)) (e : Event) :
    (b.emit e).sent = b.sent.push e := by
  have hsome : b.hasSubscribers = true := by
    cases hc : b.cursors with
    | nil =>
      rw [place?, hc] at hplace
      cases hplace
    | cons c cs => simp only [hasSubscribers, hc, List.isEmpty_cons, Bool.not_false]
  rw [emit, if_pos hsome]

variable {l : Line}

/-- The places of others do not matter. -/
theorem Follows.keep (h : Follows capacity name b l) (hcapacity : c.capacity = b.capacity)
    (hopen : c.isOpen = b.isOpen) (hsent : c.sent = b.sent)
    (hplace : c.place? name = b.place? name) :
    Follows capacity name c l where
  capacity := hcapacity.trans h.capacity
  isOpen := hopen.trans h.isOpen
  absent hl := hplace.trans (h.absent hl)
  present es hes := by
    rw [hsent, hplace]
    exact h.present es hes

theorem Follows.subscribe (h : Follows capacity name b l) (n : String) :
    Follows capacity name (b.serve (.subscribe n)) (l.serve capacity name (.subscribe n)) ∧
      extend name b l.history (.subscribe n) = (l.serve capacity name (.subscribe n)).history := by
  by_cases hopen : b.isOpen = true
  · have hbus : b.serve (.subscribe n) = b.subscribe n := congrArg Prod.snd (if_pos hopen)
    by_cases hn : n = name
    · subst hn
      have hline : l.serve capacity n (.subscribe n) = { l with history := some [] } :=
        if_pos ⟨rfl, h.isOpen ▸ hopen⟩
      rw [hbus, hline]
      refine ⟨⟨h.capacity, h.isOpen, (fun hl => by cases hl), fun es hes => ?_⟩,
        if_pos ⟨rfl, hopen⟩⟩
      cases hes
      exact ⟨b.sent.size, Nat.le_refl _, place_subscribe b n, List.drop_length⟩
    · have hline : l.serve capacity name (.subscribe n) = l := if_neg fun hnew => hn hnew.1
      rw [hbus, hline]
      exact ⟨h.keep rfl rfl rfl (place_subscribe_of_ne hn), if_neg fun hnew => hn hnew.1⟩
  · have hbus : b.serve (.subscribe n) = b := congrArg Prod.snd (if_neg hopen)
    have hline : l.serve capacity name (.subscribe n) = l :=
      if_neg fun hnew => hopen (h.isOpen.trans hnew.2)
    rw [hbus, hline]
    exact ⟨h, if_neg fun hnew => hopen hnew.2⟩

theorem Follows.unsubscribe (h : Follows capacity name b l) (n : String) :
    Follows capacity name (b.serve (.unsubscribe n)) (l.serve capacity name (.unsubscribe n)) ∧
      extend name b l.history (.unsubscribe n) =
      (l.serve capacity name (.unsubscribe n)).history := by
  by_cases hn : n = name
  · subst hn
    have hline : l.serve capacity n (.unsubscribe n) = { l with history := none } := if_pos rfl
    rw [hline]
    exact ⟨⟨h.capacity, h.isOpen, fun _ => place_unsubscribe b n, fun es hes => by cases hes⟩,
      if_pos rfl⟩
  · have hline : l.serve capacity name (.unsubscribe n) = l := if_neg hn
    rw [hline]
    exact ⟨h.keep rfl rfl rfl (place_unsubscribe_of_ne hn), if_neg hn⟩

theorem Follows.emit (h : Follows capacity name b l) (e : Event) :
    Follows capacity name (b.serve (.emit e)) (l.serve capacity name (.emit e)) ∧
      extend name b l.history (.emit e) = (l.serve capacity name (.emit e)).history := by
  by_cases hopen : b.isOpen = true
  · have hbus : b.serve (.emit e) = b.emit e := congrArg Prod.snd (if_pos hopen)
    have hline : l.serve capacity name (.emit e) =
      { l with history := l.history.map (· ++ [.sent e]) } :=
      if_pos (h.isOpen ▸ hopen)
    obtain ⟨hcapacity, hsame, hcursors⟩ := b.emit_keeps e
    have hplace : (b.emit e).place? name = b.place? name := by rw [place?, place?, hcursors]
    rw [hbus, hline]
    refine ⟨⟨hcapacity.trans h.capacity, hsame.trans h.isOpen, fun hl => ?_, fun es hes => ?_⟩,
      if_pos hopen⟩
    · exact hplace.trans (h.absent (Option.map_eq_none_iff.mp hl))
    -- the event does go somewhere, since the subscriber is there
    · obtain ⟨es, hbefore, rfl⟩ := Option.map_eq_some_iff.mp hes
      obtain ⟨k, hk, hat, hrest⟩ := h.present es hbefore
      have hle : k ≤ b.sent.toList.length := hk
      rw [emit_sent hat]
      refine ⟨k, Nat.le_trans hk (Array.size_push _ ▸ Nat.le_succ _), hplace.trans hat, ?_⟩
      rw [Array.toList_push, List.drop_append_of_le_length hle, hrest, outstanding_snoc]
      rfl
  · have hbus : b.serve (.emit e) = b := congrArg Prod.snd (if_neg hopen)
    have hline : l.serve capacity name (.emit e) = l := if_neg (h.isOpen ▸ hopen)
    rw [hbus, hline]
    exact ⟨h, if_neg hopen⟩

theorem Follows.receive (h : Follows capacity name b l) (n : String) :
    Follows capacity name (b.serve (.receive n)) (l.serve capacity name (.receive n)) ∧
      extend name b l.history (.receive n) = (l.serve capacity name (.receive n)).history := by
  simp only [Bus.serve, Request.step, Scenario.Events.perform, extend]
  by_cases hn : n = name
  · subst hn
    have hline : l.serve capacity n (.receive n) =
        { l with
          history := l.history.map fun es =>
            es ++ [.got (reply capacity l.isOpen (outstanding es))] } := if_pos rfl
    rw [hline]
    cases hl : l.history with
    | none =>
      rw [receive_none (h.absent hl)]
      exact ⟨⟨h.capacity, h.isOpen, fun _ => h.absent hl, fun es hes => by cases hes⟩, rfl⟩
    | some es =>
      obtain ⟨k, hk, hat, hrest⟩ := h.present es hl
      obtain ⟨c, hreceive, hcapacity, hopen, j, hj, hnow, hleft⟩ := receive_reply hat hk
      rw [hrest, h.capacity, h.isOpen] at hreceive hleft
      rw [hreceive]
      refine ⟨⟨hcapacity.trans h.capacity, hopen.trans h.isOpen, (fun hd => by cases hd),
        fun es' hes => ?_⟩, if_pos rfl⟩
      cases hes
      exact ⟨j, hj, hnow, hleft.trans outstanding_snoc.symm⟩
  · have hline : l.serve capacity name (.receive n) = l := if_neg hn
    rw [hline]
    cases hreceive : b.receive? n with
    | none => exact ⟨h, rfl⟩
    | some r =>
      obtain ⟨x, c⟩ := r
      obtain ⟨hsent, hcapacity, hplace⟩ := receive_keeps hreceive
      exact ⟨h.keep hcapacity (receive_isOpen hreceive) hsent (hplace name (Ne.symm hn)), if_neg hn⟩

theorem Follows.drop (h : Follows capacity name b l) :
    Follows capacity name (b.serve .drop) (l.serve capacity name .drop) := by
  refine ⟨h.capacity, rfl, fun hl => ?_, fun es hes => ?_⟩
  · exact h.absent (Option.map_eq_none_iff.mp hl)
  · obtain ⟨es, hbefore, rfl⟩ := Option.map_eq_some_iff.mp hes
    obtain ⟨k, hk, hat, hrest⟩ := h.present es hbefore
    have hsame : outstanding (es ++ [.gone]) = outstanding es := outstanding_snoc
    exact ⟨k, hk, hat, hrest.trans hsame.symm⟩

theorem Follows.serve (h : Follows capacity name b l) (r : Request) :
    Follows capacity name (b.serve r) (l.serve capacity name r) ∧
      extend name b l.history r = (l.serve capacity name r).history := by
  cases r with
  | subscribe n => exact h.subscribe n
  | unsubscribe n => exact h.unsubscribe n
  | emit e => exact h.emit e
  | receive n => exact h.receive n
  | drop => exact ⟨h.drop, rfl⟩

/-- A subscriber's history is that of its line. -/
theorem Follows.history (h : Follows capacity name b l) (rs : List Request) :
    Follows capacity name (b.serveAll rs) (l.serveAll capacity name rs) ∧
      Bus.history name b l.history rs = (l.serveAll capacity name rs).history := by
  induction rs generalizing b l with
  | nil => exact ⟨h, rfl⟩
  | cons r rs ih =>
    obtain ⟨hnext, hjot⟩ := h.serve r
    rw [Bus.history, hjot]
    exact ih hnext

/-- A bus of any size that the channel accepts opens with nobody there. -/
theorem open?_eq {buffer : Nat} (hb : open? buffer = some b) :
    b = ⟨roundUp buffer, #[], true, []⟩ := by
  simp only [open?] at hb
  split at hb <;> cases hb
  rfl

/-- What comes of a sequence of requests to a bus with a buffer, for one subscriber: the capacity is
the least power of two that is not below the buffer nor below one; whoever is there has a history,
and it is candid; and what others ask for does not show in it. -/
structure Served (buffer : Nat) (b : Bus) (name : String) (rs : List Request) : Prop where
  capacity : (∃ k, b.capacity = 2 ^ k) ∧ ∀ k, b.capacity ≤ 2 ^ k ↔ max 1 buffer ≤ 2 ^ k
  attended : (history name b none rs).isSome = (b.serveAll rs).isSubscribed name
  candid : ∀ es, history name b none rs = some es → Candid b.capacity es
  alone : history name b none (rs.filter (·.concerns name)) = history name b none rs

/-- However many subscribers there are and whatever is done, none of them loses an event without
being told of it. -/
theorem nothing_lost_silently {buffer : Nat} (hb : open? buffer = some b) (name : String)
    (rs : List Request) : Served buffer b name rs := by
  obtain rfl := open?_eq hb
  have hfollows : Follows (roundUp buffer) name ⟨roundUp buffer, #[], true, []⟩ ⟨true, none⟩ :=
    ⟨rfl, rfl, fun _ => rfl, fun es hes => by cases hes⟩
  have hnew : Line.Sound (roundUp buffer) ⟨true, none⟩ := fun es hes => by cases hes
  obtain ⟨hafter, hhistory⟩ := hfollows.history rs
  refine ⟨⟨roundUp_eq_pow buffer, fun k => ?_⟩, ?_, fun es hes => ?_, ?_⟩
  · rw [roundUp_le_pow_iff, Nat.max_le, and_iff_right Nat.one_le_two_pow]
  · rw [hhistory, ← isSome_place]
    cases hl : (Line.serveAll (roundUp buffer) name ⟨true, none⟩ rs).history with
    | none =>
      rw [hafter.absent hl]
      rfl
    | some es =>
      obtain ⟨k, -, hat, -⟩ := hafter.present es hl
      rw [hat]
      rfl
  · exact ((hnew.serveAll name rs) es (hhistory.symm.trans hes)).1.candid
  · rw [hhistory, (hfollows.history (rs.filter (·.concerns name))).2, Line.serveAll_concerns]

/-- Five events are sent to two subscribers of a bus that keeps four. One of them lags, the other
goes, and the bus is gone before the first has heard the last of it. -/
theorem lag_told_beside_another :
    ∃ b, open? 3 = some b ∧
      history "a" b none [.subscribe "a", .emit (.creationFailed "p" "1"), .subscribe "b",
        .emit (.creationFailed "p" "2"), .emit (.creationFailed "p" "3"), .receive "b",
        .emit (.creationFailed "p" "4"), .emit (.creationFailed "p" "5"), .receive "a",
        .unsubscribe "b", .drop, .receive "a"] =
          some [.sent (.creationFailed "p" "1"), .sent (.creationFailed "p" "2"),
            .sent (.creationFailed "p" "3"), .sent (.creationFailed "p" "4"),
            .sent (.creationFailed "p" "5"), .got (.lagged 1), .gone,
            .got (.event (.creationFailed "p" "2"))] ∧
      Served 3 b "a" [.subscribe "a", .emit (.creationFailed "p" "1"), .subscribe "b",
        .emit (.creationFailed "p" "2"), .emit (.creationFailed "p" "3"), .receive "b",
        .emit (.creationFailed "p" "4"), .emit (.creationFailed "p" "5"), .receive "a",
        .unsubscribe "b", .drop, .receive "a"] :=
  ⟨_, rfl, rfl, nothing_lost_silently rfl "a" _⟩

/-- If something is sent between a lag and the next receive, one gap is told in two lags. -/
theorem gap_told_in_two :
    ∃ b es, open? 1 = some b ∧
      history "a" b none [.subscribe "a", .emit (.creationFailed "p" "1"),
        .emit (.creationFailed "p" "2"), .receive "a", .emit (.creationFailed "p" "3"),
        .receive "a", .receive "a"] = some es ∧
      emitted es = [.creationFailed "p" "1", .creationFailed "p" "2", .creationFailed "p" "3"] ∧
      received es = [.creationFailed "p" "3"] ∧
      es.count (.got (.lagged 1)) = 2 ∧ .got (.lagged 2) ∉ es :=
  ⟨_, _, rfl, rfl, rfl, rfl, by decide, by decide⟩

end ConnPool.Bus
