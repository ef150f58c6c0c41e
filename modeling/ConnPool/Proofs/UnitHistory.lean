import ConnPool.Proofs.Lists
import ConnPool.Scenario.Enlistments

namespace ConnPool.UnitsByThread

open Scenario.Enlistments (Deed Outcome perform)

/-- The units after these calls, each on its thread. -/
def after (calls : List (Thread × Deed)) : UnitsByThread :=
  calls.foldl (fun u c => (perform u c.1 c.2).2) {}

/-- The thread's last begin is later than its last end. -/
def Begun (calls : List (Thread × Deed)) (t : Thread) : Prop :=
  ∃ before since, calls = before ++ (t, .start) :: since ∧ (t, Deed.finish) ∉ since

/-- After these calls the next one starts a unit of the thread's, or takes away what is enlisted in
it. -/
inductive Resets (calls : List (Thread × Deed)) (t : Thread) : Thread × Deed → Prop where
  | opened (idle : ¬ Begun calls t) : Resets calls t (t, .start)
  | cleared {s : Thread} {h : HandleId} (held : (after calls).current t = some h) :
    Resets calls t (s, .disassociate h)

/-- The calls since the later of the start of the thread's unit and the last time that its handle
was taken away. -/
structure Lately (calls : List (Thread × Deed)) (t : Thread) (since : List (Thread × Deed)) :
    Prop where
  reset : ∃ before c, calls = before ++ c :: since ∧ Resets before t c
  last : ∀ before c later, calls = before ++ c :: later → Resets before t c →
    since.length ≤ later.length

/-- The handle that a call associates with the thread's unit. -/
def associated? (t : Thread) : Thread × Deed → Option HandleId
  | (s, .associate h) => if s = t then some h else none
  | _ => none

variable {calls since : List (Thread × Deed)} {c : Thread × Deed} {t : Thread}

theorem after_snoc (calls : List (Thread × Deed)) (c : Thread × Deed) :
    after (calls ++ [c]) = (perform (after calls) c.1 c.2).2 :=
  List.foldl_append

section

variable (u : UnitsByThread)

theorem isActive_start_iff (s t : Thread) :
    (u.start s).isActive t = true ↔ s = t ∨ u.isActive t = true := by
  unfold start
  split
  · next hactive =>
    refine ⟨Or.inr, ?_⟩
    rintro (rfl | ht)
    · exact hactive
    · exact ht
  · simp [isActive]

theorem isActive_finish_iff (s t : Thread) :
    (u.finish s).isActive t = true ↔ s ≠ t ∧ u.isActive t = true := by
  simp only [isActive, finish, List.any_filter, List.any_eq_true, Bool.and_eq_true,
    decide_eq_true_eq]
  constructor
  · rintro ⟨x, hx, hs, rfl⟩
    exact ⟨Ne.symm hs, x, hx, rfl⟩
  · rintro ⟨hs, x, hx, rfl⟩
    exact ⟨x, hx, Ne.symm hs, rfl⟩

/-- What is done to the handles of units opens none and ends none. -/
theorem isActive_map (f : Thread → Option HandleId → Option HandleId) (t : Thread) :
    (UnitsByThread.mk (u.active.map fun (s, held) => (s, f s held))).isActive t = u.isActive t := by
  simp only [isActive, List.any_map]
  rfl

theorem isActive_associate (s : Thread) (h : HandleId) (t : Thread) :
    (u.associate s h).isActive t = u.isActive t :=
  isActive_map u (fun r held => if r = s then held.or (some h) else held) t

theorem isActive_disassociate (h : HandleId) (t : Thread) :
    (u.disassociate h).isActive t = u.isActive t :=
  isActive_map u (fun _ held => if held = some h then none else held) t

/-- A call opens a unit on its thread only, and ends one on its thread only. -/
theorem isActive_perform (c : Thread × Deed) (t : Thread) :
    (perform u c.1 c.2).2.isActive t = true ↔
      c = (t, .start) ∨ c ≠ (t, .finish) ∧ u.isActive t = true := by
  obtain ⟨s, d⟩ := c
  cases d with
  | start => simpa [perform] using isActive_start_iff u s t
  | finish => simpa [perform] using isActive_finish_iff u s t
  | associate h => simp [perform, isActive_associate u s h t]
  | disassociate h => simp [perform, isActive_disassociate u h t]
  | look => simp [perform]

end

theorem begun_snoc :
    Begun (calls ++ [c]) t ↔ c = (t, .start) ∨ c ≠ (t, .finish) ∧ Begun calls t := by
  simp only [Begun, snoc_eq_split]
  constructor
  · rintro ⟨before, since, ⟨rfl, rfl, rfl⟩ | ⟨rest, rfl, rfl⟩, hopen⟩
    · exact Or.inl rfl
    · rw [List.mem_append, List.mem_singleton, not_or] at hopen
      exact Or.inr ⟨Ne.symm hopen.2, before, rest, rfl, hopen.1⟩
  · rintro (rfl | ⟨hc, before, rest, rfl, hopen⟩)
    · exact ⟨calls, [], Or.inl ⟨rfl, rfl, rfl⟩, List.not_mem_nil⟩
    · refine ⟨before, rest ++ [c], Or.inr ⟨rest, rfl, rfl⟩, ?_⟩
      rw [List.mem_append, List.mem_singleton, not_or]
      exact ⟨hopen, Ne.symm hc⟩

/-- A thread is active if its last begin is later than its last end, and only then. -/
theorem isActive_after (calls : List (Thread × Deed)) (t : Thread) :
    (after calls).isActive t = true ↔ Begun calls t := by
  induction calls using List.reverseRecOn with
  | nil =>
    refine iff_of_false (by simp [after, isActive]) ?_
    rintro ⟨before, since, hnil, -⟩
    exact absurd hnil (by simp)
  | append_singleton calls c ih => rw [after_snoc, isActive_perform, begun_snoc, ih]

theorem lately_of_resets (h : Resets calls t c) : Lately (calls ++ [c]) t [] :=
  ⟨⟨calls, c, rfl, h⟩, fun _ _ _ _ _ => Nat.zero_le _⟩

/-- Nothing has happened since a call that has just reset the unit. -/
theorem Lately.nil_of_resets (h : Lately (calls ++ [c]) t since) (hc : Resets calls t c) :
    since = [] :=
  List.length_eq_zero_iff.mp (Nat.le_zero.mp (h.last calls c [] rfl hc))

theorem lately_snoc (hc : ¬ Resets calls t c) :
    Lately (calls ++ [c]) t since ↔ ∃ rest, since = rest ++ [c] ∧ Lately calls t rest := by
  constructor
  · rintro ⟨⟨before, x, hsplit, hx⟩, hlast⟩
    rcases snoc_eq_split.mp hsplit with ⟨rfl, rfl, rfl⟩ | ⟨rest, rfl, rfl⟩
    · exact absurd hx hc
    · refine ⟨rest, rfl, ⟨before, x, rfl, hx⟩, fun before' x' later hsplit' hx' => ?_⟩
      have hle := hlast before' x' (later ++ [c])
        (snoc_eq_split.mpr (Or.inr ⟨later, rfl, hsplit'⟩)) hx'
      simpa using hle
  · rintro ⟨rest, rfl, ⟨before, x, rfl, hx⟩, hlast⟩
    refine ⟨⟨before, x, snoc_eq_split.mpr (Or.inr ⟨rest, rfl, rfl⟩), hx⟩,
      fun before' x' later hsplit' hx' => ?_⟩
    rcases snoc_eq_split.mp hsplit' with ⟨rfl, rfl, rfl⟩ | ⟨rest', rfl, hsplit⟩
    · exact absurd hx' hc
    · simpa using hlast before' x' rest' hsplit hx'

/-- A call that does not reset the unit of an active thread adds to it the handle that it
associates, if the unit has none. -/
theorem current_perform {u : UnitsByThread} (hu : u.isActive t = true) (hc : c ≠ (t, .finish))
    (hkept : ∀ s h, c = (s, .disassociate h) → u.current t ≠ some h) :
    (perform u c.1 c.2).2.current t = (u.current t).or (associated? t c) := by
  obtain ⟨s, d⟩ := c
  cases d with
  | start => simp [perform, current_start, associated?]
  | finish =>
    have hs : t ≠ s := fun hs => hc (hs ▸ rfl)
    simp [perform, current_finish, associated?, hs]
  | associate h =>
    rw [perform, current_associate]
    by_cases hs : s = t
    · subst hs
      simp [associated?, hu]
    · simp [associated?, hs, Ne.symm hs]
  | disassociate h =>
    rw [perform, current_disassociate, if_neg (hkept s h rfl)]
    simp [associated?]
  | look => simp [perform, associated?]

/-- A reset leaves nothing enlisted. -/
theorem Resets.current_none (h : Resets calls t c) :
    (perform (after calls) c.1 c.2).2.current t = none := by
  cases h with
  | opened idle =>
    rw [perform, current_start]
    exact current_of_idle (Bool.eq_false_iff.mpr fun ht => idle ((isActive_after calls t).mp ht))
  | cleared held => rw [perform, current_disassociate, if_pos held]

theorem active_before (ha : (after (calls ++ [c])).isActive t = true) (hc : ¬ Resets calls t c) :
    (after calls).isActive t = true ∧ c ≠ (t, .finish) := by
  rw [after_snoc, isActive_perform] at ha
  rcases ha with rfl | ⟨hfinish, ha⟩
  · refine ⟨?_, by simp⟩
    by_contra hidle
    exact hc (.opened fun hb => hidle ((isActive_after calls t).mpr hb))
  · exact ⟨ha, hfinish⟩

theorem exists_lately (ha : (after calls).isActive t = true) : ∃ since, Lately calls t since := by
  induction calls using List.reverseRecOn with
  | nil => simp [after, isActive] at ha
  | append_singleton calls c ih =>
    by_cases hc : Resets calls t c
    · exact ⟨[], lately_of_resets hc⟩
    · obtain ⟨since, hs⟩ := ih (active_before ha hc).1
      exact ⟨since ++ [c], (lately_snoc hc).mpr ⟨since, rfl, hs⟩⟩

/-- What an active thread has enlisted is what it associated first since its unit was last reset. -/
theorem current_after (ha : (after calls).isActive t = true) (hl : Lately calls t since) :
    (after calls).current t = since.findSome? (associated? t) := by
  induction calls using List.reverseRecOn generalizing since with
  | nil => simp [after, isActive] at ha
  | append_singleton calls c ih =>
    by_cases hc : Resets calls t c
    · rw [hl.nil_of_resets hc, after_snoc, hc.current_none]
      rfl
    · obtain ⟨hactive, hfinish⟩ := active_before ha hc
      obtain ⟨rest, rfl, hrest⟩ := (lately_snoc hc).mp hl
      have hkept : ∀ s h, c = (s, .disassociate h) → (after calls).current t ≠ some h := by
        rintro s h rfl held
        exact hc (.cleared held)
      rw [after_snoc, current_perform hactive hfinish hkept, ih hactive hrest,
        List.findSome?_append, List.findSome?_singleton]

/-- No thread has two units. -/
theorem threads_nodup (calls : List (Thread × Deed)) : ((after calls).active.map (·.1)).Nodup := by
  have hmap : ∀ (u : UnitsByThread) (f : Thread → Option HandleId → Option HandleId),
      (u.active.map fun (s, held) => (s, f s held)).map (·.1) = u.active.map (·.1) := by
    intro u f
    rw [List.map_map]
    rfl
  induction calls using List.reverseRecOn with
  | nil => exact List.nodup_nil
  | append_singleton calls c ih =>
    obtain ⟨s, d⟩ := c
    rw [after_snoc]
    cases d with
    | start =>
      simp only [perform, start]
      split
      · exact ih
      · next hidle =>
        refine List.nodup_cons.mpr ⟨fun hs => hidle ?_, ih⟩
        obtain ⟨x, hx, rfl⟩ := List.mem_map.mp hs
        exact List.any_eq_true.mpr ⟨x, hx, by simp⟩
    | finish => exact ih.sublist (List.filter_sublist.map _)
    | associate h =>
      simp only [perform, associate]
      rw [hmap (after calls) fun r held => if r = s then held.or (some h) else held]
      exact ih
    | disassociate h =>
      simp only [perform, disassociate]
      rw [hmap (after calls) fun _ held => if held = some h then none else held]
      exact ih
    | look => exact ih

theorem isEnlisted_iff {u : UnitsByThread} (hu : (u.active.map (·.1)).Nodup) (h : HandleId) :
    u.isEnlisted h = true ↔ ∃ t, u.current t = some h := by
  simp only [isEnlisted, List.any_eq_true, decide_eq_true_eq]
  constructor
  · rintro ⟨x, hx, hheld⟩
    refine ⟨x.1, ?_⟩
    have hfind := (Keyed.find_iff (fun x : Thread × Option HandleId => x.1) hu).mpr ⟨hx, rfl⟩
    rw [current, hfind]
    exact hheld
  · rintro ⟨t, ht⟩
    obtain ⟨x, hfind, hheld⟩ := Option.bind_eq_some_iff.mp ht
    exact ⟨x, List.mem_of_find?_eq_some hfind, hheld⟩

/-- What the units of work mean after some calls: for each thread, and for the answers to the two
calls that have one. -/
structure Meant (calls : List (Thread × Deed)) : Prop where
  active : ∀ t, (after calls).isActive t = true ↔ Begun calls t
  idle : ∀ t, ¬ Begun calls t → (after calls).current t = none
  reset : ∀ t, Begun calls t → ∃ since, Lately calls t since
  current : ∀ t since, Begun calls t → Lately calls t since →
    (after calls).current t = since.findSome? (associated? t)
  finish : ∀ t, (perform (after calls) t .finish).1 = .handle ((after calls).current t)
  found : ∀ s h, ∃ b, (perform (after calls) s (.disassociate h)).1 = .flag b ∧
    (b = true ↔ ∃ t, (after calls).current t = some h)
  cleared : ∀ s h t, (after calls).current t = some h →
    (after (calls ++ [(s, .disassociate h)])).current t = none
  kept : ∀ s h t, (after calls).current t ≠ some h →
    (after (calls ++ [(s, .disassociate h)])).current t = (after calls).current t
  going : ∀ s h t, (after (calls ++ [(s, .disassociate h)])).isActive t = (after calls).isActive t

/-- Whatever calls are made on whichever threads, each thread's unit is what its history says. -/
theorem units_as_recalled (calls : List (Thread × Deed)) : Meant calls where
  active := isActive_after calls
  idle t ht := current_of_idle (Bool.eq_false_iff.mpr fun ha => ht ((isActive_after calls t).mp ha))
  reset t ht := exists_lately ((isActive_after calls t).mpr ht)
  current t _ ht hl := current_after ((isActive_after calls t).mpr ht) hl
  finish _ := rfl
  found _ h := ⟨_, rfl, isEnlisted_iff (threads_nodup calls) h⟩
  cleared s h t ht := by rw [after_snoc, perform, current_disassociate, if_pos ht]
  kept s h t ht := by rw [after_snoc, perform, current_disassociate, if_neg ht]
  going s h t := by rw [after_snoc, perform, isActive_disassociate]

end ConnPool.UnitsByThread
