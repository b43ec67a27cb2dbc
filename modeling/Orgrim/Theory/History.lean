import Mathlib.Data.List.Basic

/-!
# Histories

A log tells which thread did what, in the order in which it happened.  `select` picks what is of
interest, `doneBy` what one thread did, and `Each P` says that `P` held of every entry when it was
made, with what the log said before.
-/

namespace History

variable {T E B : Type*}

/-- What is of interest in a log. -/
def select (f : E → Option B) (log : List (T × E)) : List B := log.filterMap (fun e => f e.2)

/-- What a thread did. -/
def doneBy [DecidableEq T] (t : T) (log : List (T × E)) : List (T × E) :=
  log.filter (fun e => e.1 = t)

/-- What the other threads did. -/
def doneByOthers [DecidableEq T] (t : T) (log : List (T × E)) : List (T × E) :=
  log.filter (fun e => !decide (e.1 = t))

/-- Every entry was right when it was made. -/
def Each (P : List (T × E) → T × E → Prop) (log : List (T × E)) : Prop :=
  ∀ before e after, log = before ++ e :: after → P before e

section

variable {f : E → Option B} {log new : List (T × E)} {t t' : T} {events : List E}

@[simp]
theorem select_nil :
  select f ([] : List (T × E)) = []
  := rfl

@[simp]
theorem select_append :
  select f (log ++ new) = select f log ++ select f new
  := List.filterMap_append

@[simp]
theorem select_events :
  select f (events.map (fun e => (t, e))) = events.filterMap f
  := by
  rw [select, List.filterMap_map]
  rfl

@[simp]
theorem select_singleton {e : E} :
  select f [(t, e)] = (f e).toList
  := by
  rw [select, List.filterMap_cons, List.filterMap_nil]
  cases f e <;> rfl

variable [DecidableEq T]

@[simp]
theorem doneBy_append :
  doneBy t (log ++ new) = doneBy t log ++ doneBy t new
  := List.filter_append ..

/-- What a thread does is done by it. -/
@[simp]
theorem doneBy_self :
  doneBy t (events.map (fun e => (t, e))) = events.map (fun e => (t, e))
  := by
  apply List.filter_eq_self.mpr
  intro e he
  obtain ⟨e, -, rfl⟩ := List.mem_map.mp he
  simp only [decide_true]

theorem doneBy_of_ne (hne : t' ≠ t) :
  doneBy t' (events.map (fun e => (t, e))) = []
  := by
  apply List.filter_eq_nil_iff.mpr
  intro e he
  obtain ⟨e, -, rfl⟩ := List.mem_map.mp he
  simp only [hne.symm, decide_false, Bool.false_eq_true, not_false_eq_true]

/-- What the others did. -/
theorem doneBy_others :
  doneBy t' (doneByOthers t log) = if t' = t then [] else doneBy t' log
  := by
  rw [doneByOthers, doneBy, List.filter_filter]
  split
  · rename_i h
    subst h
    apply List.filter_eq_nil_iff.mpr
    intro e _ he
    simp only [Bool.and_eq_true, decide_eq_true_eq, Bool.not_eq_true',
      decide_eq_false_iff_not] at he
    apply he.2 he.1
  · rename_i h
    apply List.filter_congr
    intro e _
    by_cases he : e.1 = t'
    · simp [he, h]
    · simp [he]

/-- A log is what one thread did, and what the others did. -/
theorem select_split :
  (select f log).Perm (select f (doneBy t log) ++ select f (doneByOthers t log))
  := by
  rw [← select_append]
  apply List.Perm.filterMap
  exact (List.filter_append_perm _ log).symm

/-- Where every thread has done as much of the one as of the other, so have all together. -/
theorem select_perm {g : E → Option B}
    (h : ∀ t, (select f (doneBy t log)).Perm (select g (doneBy t log))) :
  (select f log).Perm (select g log)
  := by
  induction hn : log.length using Nat.strongRecOn generalizing log with
  | ind n ih =>
      cases log with
      | nil => apply List.Perm.refl
      | cons e log =>
          have hshort : (doneByOthers e.1 (e :: log)).length < n := by
            rw [← hn, doneByOthers, List.filter_cons_of_neg (by simp)]
            apply Nat.lt_succ_of_le (List.length_filter_le _ _)
          have hothers : (select f (doneByOthers e.1 (e :: log))).Perm
              (select g (doneByOthers e.1 (e :: log))) := by
            apply ih _ hshort _ rfl
            intro t'
            rw [doneBy_others]
            split
            · apply List.Perm.refl
            · apply h t'
          exact select_split.trans (((h e.1).append hothers).trans select_split.symm)

end

section

variable {P : List (T × E) → T × E → Prop} {log : List (T × E)} {e : T × E}

theorem each_nil :
  Each P []
  := by
  intro before e after h
  cases before <;> cases h

/-- One more entry. -/
theorem Each.concat (h : Each P log) (he : P log e) :
  Each P (log ++ [e])
  := by
  intro before e' after hsplit
  rcases List.eq_nil_or_concat after with rfl | ⟨after, last, rfl⟩
  · obtain ⟨rfl, hlast⟩ := List.append_inj' hsplit rfl
    obtain ⟨rfl, -⟩ := List.cons.inj hlast
    exact he
  · rw [List.concat_eq_append, ← List.cons_append, ← List.append_assoc] at hsplit
    obtain ⟨hlog, -⟩ := List.append_inj' hsplit rfl
    apply h before e' after hlog

theorem Each.of_append {new : List (T × E)} (h : Each P (log ++ new)) :
  Each P log
  := by
  intro before e' after hsplit
  apply h before e' (after ++ new)
  rw [hsplit, List.append_assoc, List.cons_append]

theorem each_concat :
  Each P (log ++ [e]) ↔ Each P log ∧ P log e
  := by
  constructor
  · intro h
    exact ⟨h.of_append, h log e [] rfl⟩
  · rintro ⟨h, he⟩
    exact h.concat he

end

end History
