import ConnPool.Proofs.StrategyAgreement
import ConnPool.Proofs.ItemAccounting

namespace ConnPool

variable {α : Type}

namespace Rendezvous

/-- The registrations whose takers still listen. -/
def live (ws : List Registration) : List Registration := ws.filter fun w => !w.abandoned

/-- Takes registrations off the front of a line, one after the other, and puts each back behind the
others if its taker still listens. -/
def rotate : Nat → List Registration → List Registration
  | 0, ws => ws
  | _ + 1, [] => []
  | n + 1, w :: ws => rotate n (if w.abandoned then ws else ws ++ [w])

/-- What has come round stands behind what has not, in its old order. -/
theorem rotate_append (ws vs : List Registration) :
    rotate ws.length (ws ++ vs) = vs ++ live ws := by
  induction ws generalizing vs with
  | nil => exact (List.append_nil vs).symm
  | cons w ws ih =>
    cases h : w.abandoned with
    | true =>
      have hgone : live (w :: ws) = live ws := List.filter_cons_of_neg (by simp [h])
      simp only [List.length_cons, List.cons_append, rotate, h, if_true, hgone]
      exact ih vs
    | false =>
      have hstays : live (w :: ws) = w :: live ws := List.filter_cons_of_pos (by simp [h])
      simp only [List.length_cons, List.cons_append, rotate, h, Bool.false_eq_true, if_false,
        hstays]
      rw [List.append_assoc, ih, List.append_assoc, List.singleton_append]

/-- Once round the line leaves those who listen, in their order. -/
theorem rotate_length (ws : List Registration) : rotate ws.length ws = live ws := by
  have hround := rotate_append ws []
  rwa [List.append_nil, List.nil_append] at hround

variable {z : Rendezvous α}

/-- A prune goes once round the line, if there are many in it. -/
theorem prune_line (z : Rendezvous α) :
    z.prune.waiting = if z.waiting.length ≤ 2 * z.parked.length + slack then z.waiting
      else rotate z.waiting.length z.waiting := by
  rw [rotate_length]
  simp only [prune]
  split <;> rfl

theorem prune_sublist (z : Rendezvous α) : z.prune.waiting.Sublist z.waiting := by
  simp only [prune]
  split
  · exact List.Sublist.refl _
  · exact List.filter_sublist

theorem live_prune (z : Rendezvous α) : live z.prune.waiting = live z.waiting := by
  simp only [prune]
  split
  · rfl
  · simp only [live, List.filter_filter, Bool.and_self]

/-- A prune leaves a line that is short for those who wait in it. -/
theorem length_prune (z : Rendezvous α) : z.prune.waiting.length ≤ 2 * z.parked.length + slack := by
  simp only [prune]
  split
  · assumption
  · have hparked : (live z.waiting).length = z.parked.length := by
      simp only [live, parked, List.length_map]
    change (live z.waiting).length ≤ _
    omega

/-- A take that never clears the line. -/
def hoard (z : Rendezvous α) (t : Taker) (expired : Bool) : Taking α × Rendezvous α :=
  match z.shared with
  | x :: xs => (.item x, { z with shared := xs })
  | [] =>
    if z.closed then (.closed, z)
    else (if expired then .timedOut else .parked, { z with waiting := z.waiting ++ [⟨t, expired⟩] })

/-- A take that does not get an item, and is not sent away, registers behind what a prune has
left. -/
theorem take_registers {t : Taker} {expired : Bool}
    (h : (z.take t expired).1 = .parked ∨ (z.take t expired).1 = .timedOut) :
    (z.take t expired).2.waiting = z.prune.waiting ++ [⟨t, expired⟩] := by
  simp only [take] at h ⊢
  split
  · next heq =>
    rw [heq] at h
    rcases h with h | h <;> cases h
  · next heq =>
    rw [heq] at h
    split
    · next hclosed =>
      simp only [hclosed, if_true] at h
      rcases h with h | h <;> cases h
    · rfl

end Rendezvous

namespace Handoff

open Rendezvous

/-- The line in which takers stand that have registered. -/
def line : Handoff α → List Registration
  | rendezvous z => z.waiting
  | _ => []

/-- Only a rendezvous has anything to clear away. -/
def prune : Handoff α → Handoff α
  | rendezvous z => .rendezvous z.prune
  | h => h

/-- A take that never clears the line. -/
def hoard (h : Handoff α) (rs : Recents) (t : Taker) (expired : Bool) :
    Taking α × Handoff α × Recents :=
  match h with
  | rendezvous z => let (x, z) := z.hoard t expired; (x, .rendezvous z, rs)
  | h => h.take rs t expired

/-- Who waits after an effect, going by what callers are told. -/
def attend (ws : List Taker) : Effect α → List Taker
  | .took t .parked => ws ++ [t]
  | .offered (.served t _) => ws.erase t
  | .gaveUp ts | .drained _ ts => ws.filter (· ∉ ts)
  | _ => ws

/-- Callers are told enough to know who waits. -/
theorem Serves.attended {same : List α → List α → Prop} {v w : View α} {r : Request α}
    {e : Effect α}
    (h : Serves same v r e w) : w.parked = attend v.parked e := by
  cases h with
  | pass isOpen first => simp only [attend, first, List.erase_cons_head]
  | @expire id =>
    refine List.filter_congr fun t ht => ?_
    simp [ht]
  | close => simp [attend]
  | _ => rfl

theorem view_prune (h : Handoff α) : h.prune.view = h.view := by
  cases h with
  | rendezvous z => exact View.ext (shared_prune z) (parked_prune z) (closed_prune z)
  | _ => rfl

/-- A take does the same whether or not it clears the line. -/
theorem hoard_serves (z : Rendezvous α) (t : Taker) (expired : Bool) :
    Serves Eq (view (.rendezvous z)) (.take t expired) (.took t (z.hoard t expired).1)
      (view (.rendezvous (z.hoard t expired).2)) := by
  cases hz : z.shared with
  | cons x xs =>
    have htake : z.hoard t expired = (.item x, { z with shared := xs }) := by
      simp only [Rendezvous.hoard, hz]
    rw [htake]
    exact .hand hz
  | nil =>
    cases hc : z.closed with
    | true =>
      have htake : z.hoard t expired = (.closed, z) := by
        simp only [Rendezvous.hoard, hz, hc, if_true]
      rw [htake]
      exact .dismiss hz hc
    | false =>
      have htake : z.hoard t expired = (if expired then .timedOut else .parked,
          { z with waiting := z.waiting ++ [⟨t, expired⟩] }) := by
        simp only [Rendezvous.hoard, hz, hc, Bool.false_eq_true, if_false]
      rw [htake]
      cases expired with
      | true =>
        refine (Serves.late hz hc).target (View.ext rfl ?_ rfl)
        simp [view, parked, Rendezvous.parked]
      | false =>
        refine (Serves.park hz hc).target (View.ext rfl ?_ rfl)
        simp [view, parked, Rendezvous.parked]

end Handoff

namespace Exchange

open Handoff Rendezvous

variable {x y : Exchange α} {rs : List (Request α)}

/-- Clears the line now, if there are many in it. -/
def prune (x : Exchange α) : Exchange α := { x with handoff := x.handoff.prune }

/-- One request to a container whose takes never clear the line. -/
def hoardStep (x : Exchange α) : Request α → Effect α × Exchange α
  | .take t expired =>
    let (k, h, rs) := x.handoff.hoard x.recents t expired
    (.took t k, ⟨h, rs⟩)
  | r => x.step r

/-- All that users can tell of a run of requests if takes never clear the line. -/
def hoardTrace (x : Exchange α) : List (Request α) → List (Effect α × View α)
  | [] => []
  | r :: rs =>
    shown ((x.hoardStep r).1, (x.hoardStep r).2.handoff) :: (x.hoardStep r).2.hoardTrace rs

/-- Who waits after some requests, going by what callers were told. -/
def stillWaiting (x : Exchange α) (rs : List (Request α)) : List Taker :=
  (x.log rs).foldl (fun ws l => attend ws l.2) x.handoff.parked

theorem Sound.stillWaiting_eq (hx : x.Sound) (rs : List (Request α)) :
    (x.after rs).handoff.parked = x.stillWaiting rs := by
  induction rs generalizing x with
  | nil => rfl
  | cons r rs ih =>
    have hfirst : (x.step r).2.handoff.parked = attend x.handoff.parked (x.step r).1 :=
      (hx.next r).serves.attended
    have hrest := ih (hx.step r)
    simp only [stillWaiting, log, List.foldl_cons, ← hfirst]
    exact hrest

/-- Who stands in the line and no longer listens did so before, or was told now that his time was
up. -/
theorem abandoned_step (x : Exchange α) (r : Request α) {w : Registration}
    (hw : w ∈ (x.step r).2.handoff.line) (ha : w.abandoned = true) :
    w ∈ x.handoff.line ∨ (w.taker, .timedOut) ∈ (x.step r).1.answers := by
  obtain ⟨h, rec⟩ := x
  cases h with
  | fifo q => cases r <;> exact absurd hw List.not_mem_nil
  | bag b => cases r <;> exact absurd hw List.not_mem_nil
  | rendezvous z =>
    cases r with
    | put t a =>
      refine Or.inl ?_
      simp only [step, Handoff.put, Rendezvous.put] at hw
      split at hw
      · exact hw
      · split at hw
        · next heq =>
          have htail := (List.dropWhile_suffix (fun w : Registration => w.abandoned)).subset
            (heq ▸ List.mem_cons_of_mem _ hw)
          exact htail
        · exact absurd hw List.not_mem_nil
    | tryTake t =>
      refine Or.inl ?_
      simp only [step, Handoff.tryTake, Rendezvous.tryTake] at hw
      split at hw <;> exact hw
    | take t expired =>
      simp only [step, Handoff.take, Rendezvous.take] at hw ⊢
      split at hw
      · exact Or.inl hw
      · split at hw
        · exact Or.inl hw
        · next hnil hopen =>
          rcases List.mem_append.mp hw with hw | hw
          · exact Or.inl (z.prune_sublist.subset hw)
          · obtain rfl : w = ⟨t, expired⟩ := List.mem_singleton.mp hw
            obtain rfl : expired = true := ha
            refine Or.inr ?_
            simp [hopen, Effect.answers]
    | expire id =>
      obtain ⟨v, hv, rfl⟩ := List.mem_map.mp hw
      by_cases hid : v.taker.id = id
      · rw [if_pos hid] at ha ⊢
        cases hva : v.abandoned with
        | true =>
          refine Or.inl ?_
          rw [show ({ v with abandoned := true } : Registration) = v from hva ▸ rfl]
          exact hv
        | false =>
          have hparked : v.taker ∈ z.parked :=
            List.mem_map_of_mem (List.mem_filter.mpr ⟨hv, by simp [hva]⟩)
          refine Or.inr (List.mem_map_of_mem (List.mem_filter.mpr ⟨hparked, ?_⟩))
          exact decide_eq_true hid
      · rw [if_neg hid]
        exact Or.inl hv
    | close => exact absurd hw List.not_mem_nil

/-- Who stands in the line and no longer listens was told that his time was up. -/
theorem abandoned_after (rs : List (Request α)) {w : Registration}
    (hw : w ∈ (x.after rs).handoff.line) (ha : w.abandoned = true) :
    w ∈ x.handoff.line ∨ (w.taker, .timedOut) ∈ x.answers rs := by
  induction rs generalizing x with
  | nil => exact Or.inl hw
  | cons r rs ih =>
    have hanswers : x.answers (r :: rs) = (x.step r).1.answers ++ (x.step r).2.answers rs :=
      List.flatMap_cons
    rw [hanswers, List.mem_append]
    rcases ih hw with hearly | hlate
    · exact (abandoned_step x r hearly ha).imp_right Or.inl
    · exact Or.inr (Or.inr hlate)

/-- A container that never clears its line serves requests like any other. -/
theorem Sound.hoard_next (hx : x.Sound) (r : Request α) :
    Next x.handoff r (x.hoardStep r).1 (x.hoardStep r).2.handoff := by
  cases r with
  | take t expired =>
    obtain ⟨h, rec⟩ := x
    cases h with
    | rendezvous z => exact ⟨trivial, rfl, hoard_serves z t expired⟩
    | fifo q => exact hx.next (.take t expired)
    | bag b => exact hx.next (.take t expired)
  | put t a => exact hx.next (.put t a)
  | tryTake t => exact hx.next (.tryTake t)
  | expire id => exact hx.next (.expire id)
  | close => exact hx.next .close

/-- Whether takes clear the line cannot be told from what a container does. -/
theorem hoardTrace_eq (hx : x.Sound) (hy : y.Sound) (hxs : x.handoff.strategy ≠ .bag)
    (hys : y.handoff.strategy ≠ .bag) (hv : y.handoff.view = x.handoff.view)
    (rs : List (Request α)) :
    y.hoardTrace rs = (x.trace rs).map shown := by
  induction rs generalizing x y with
  | nil => rfl
  | cons r rs ih =>
    have hnext := hy.hoard_next r
    have hserved := hnext.exactly hys
    rw [hv] at hserved
    obtain ⟨heffect, hview⟩ := hserved.functional (hx.exactly hxs r)
    have hrest := ih (hx.step r) ⟨hnext.numbered, hnext.orderly hy.orderly⟩
      ((hx.next r).strategy ▸ hxs) (hnext.strategy ▸ hys) hview
    simp only [hoardTrace, trace, List.map_cons, hrest]
    rw [shown, shown, heffect, hview]

/-- A prune at any time cannot be told from what a container does afterwards. -/
theorem trace_prune (hx : x.Sound) (hs : x.handoff.strategy ≠ .bag) (rs : List (Request α)) :
    (x.prune.trace rs).map shown = (x.trace rs).map shown := by
  have hview := view_prune x.handoff
  have hpruned : x.prune.Sound ∧ x.prune.handoff.strategy ≠ .bag := by
    obtain ⟨h, rec⟩ := x
    refine ⟨⟨?_, hview ▸ hx.orderly⟩, ?_⟩
    · cases h <;> exact hx.numbered
    · cases h <;> exact hs
  exact trace_shown hx hpruned.1 hs hpruned.2 hview rs

/-- What a rendezvous makes of its line, after some requests. -/
structure Tended (x : Exchange α) (rs : List (Request α)) : Prop where
  /-- Those who listen in the line are those who wait, longest first. -/
  listening : (live (x.after rs).handoff.line).map (·.taker) = x.stillWaiting rs
  /-- All others in the line were told that their time was up. -/
  abandoned : ∀ w ∈ (x.after rs).handoff.line, w.abandoned = true →
    (w.taker, .timedOut) ∈ x.answers rs
  /-- A prune goes once round the line, and takes registrations out, but none of those who
  listen. -/
  prune_line : (x.after rs).prune.handoff.line =
    if (x.after rs).handoff.line.length ≤ 2 * (x.after rs).handoff.parked.length + 32 then
      (x.after rs).handoff.line
    else rotate (x.after rs).handoff.line.length (x.after rs).handoff.line
  prune_sublist : (x.after rs).prune.handoff.line.Sublist (x.after rs).handoff.line
  prune_live : live (x.after rs).prune.handoff.line = live (x.after rs).handoff.line
  /-- Who registers does so after a prune, behind all others, and the line is short then. -/
  registers : ∀ t expired k, ((x.after rs).step (.take t expired)).1 = .took t k →
    k = .parked ∨ k = .timedOut →
    ((x.after rs).step (.take t expired)).2.handoff.line =
      (x.after rs).prune.handoff.line ++ [⟨t, expired⟩] ∧
    ((x.after rs).step (.take t expired)).2.handoff.line.length ≤
      2 * (x.after rs).handoff.parked.length + 33
  /-- Nobody can tell whether there was a prune, now or ever. -/
  unseen : ∀ more, ((x.after rs).prune.trace more).map shown = ((x.after rs).trace more).map shown
  needless : x.hoardTrace rs = (x.trace rs).map shown

/-- A rendezvous stays one. -/
theorem Sound.strategy_after (hx : x.Sound) (rs : List (Request α)) :
    (x.after rs).handoff.strategy = x.handoff.strategy := by
  induction rs generalizing x with
  | nil => rfl
  | cons r rs ih => exact (ih (hx.step r)).trans (hx.next r).strategy

/-- Whatever threads ask of a rendezvous, and however many takers have given up: pruning its line
does nothing that anyone could tell, and leaves few besides those who wait. -/
theorem prune_unseen_and_line_short (owner : Nat) (recents : Recents) (rs : List (Request α)) :
    Tended (new .rendezvous owner recents) rs := by
  have hnew : (new .rendezvous owner recents : Exchange α).Sound := sound_new _ _ _
  have hx := hnew.after rs
  have hs : ((new .rendezvous owner recents : Exchange α).after rs).handoff.strategy =
      .rendezvous := hnew.strategy_after rs
  have hwaiting := hnew.stillWaiting_eq rs
  have hgone :=
    fun w => abandoned_after (x := (new .rendezvous owner recents : Exchange α)) rs (w := w)
  have hunseen := trace_prune hx fun hbag => Strategy.noConfusion (hs.symm.trans hbag)
  have hneedless : (new .rendezvous owner recents : Exchange α).hoardTrace rs =
      ((new .rendezvous owner recents : Exchange α).trace rs).map shown :=
    hoardTrace_eq hnew hnew Strategy.noConfusion Strategy.noConfusion rfl rs
  generalize hy : (new .rendezvous owner recents : Exchange α).after rs = y at *
  obtain ⟨h, rec⟩ := y
  cases h with
  | fifo q => cases hs
  | bag b => cases hs
  | rendezvous z =>
    refine ⟨?_, ?_, ?_, ?_, ?_, ?_, ?_, hneedless⟩ <;> rw [hy]
    · exact hwaiting
    · exact fun w hw ha => (hgone w hw ha).resolve_left List.not_mem_nil
    · exact z.prune_line
    · exact z.prune_sublist
    · exact z.live_prune
    · rintro t expired k hk hreg
      cases hk
      have hline : ((step ⟨.rendezvous z, rec⟩ (.take t expired)).2.handoff.line) =
          z.prune.waiting ++ [⟨t, expired⟩] := take_registers hreg
      refine ⟨hline, ?_⟩
      have hshort := z.length_prune
      rw [hline, List.length_append, List.length_singleton]
      exact Nat.succ_le_succ hshort
    · exact hunseen

end Exchange
end ConnPool
