import Mathlib.Data.List.Nodup
import Mathlib.Data.List.Perm.Subperm
import Mathlib.Data.List.Range
import Mathlib.Logic.Function.Basic

/-!
# Dealing

The numbers from zero on are dealt in turn, each into one hand or away; who has one in hand puts
it away.  `Dealt n hand away` tells that of the numbers below `n`, each is in exactly one hand or
has been put away exactly once; where all hands are empty, all have been put away.
-/

/-- Each number below `n` is in one hand, or has been put away once. -/
structure Dealt {T : Type*} (n : ℕ) (hand : T → Option ℕ) (away : List ℕ) : Prop where
  nodup : away.Nodup
  lt_of_mem : ∀ k ∈ away, k < n
  lt : ∀ t, ∀ k ∈ hand t, k < n
  notMem : ∀ t, ∀ k ∈ hand t, k ∉ away
  unique : ∀ t t' k, k ∈ hand t → k ∈ hand t' → t = t'
  cover : ∀ k < n, k ∈ away ∨ ∃ t, k ∈ hand t

namespace Dealt

variable {T : Type*} {n k : ℕ} {hand : T → Option ℕ} {away : List ℕ} {t : T}

/-- Before anything is dealt. -/
theorem empty :
  Dealt 0 (fun _ : T => none) []
  := by
  constructor
  case nodup => apply List.nodup_nil
  case lt_of_mem => exact fun _ hk => absurd hk List.not_mem_nil
  case lt => exact fun _ _ hk => absurd hk (Option.not_mem_none _)
  case notMem => exact fun _ _ hk => absurd hk (Option.not_mem_none _)
  case unique => exact fun _ _ _ hk => absurd hk (Option.not_mem_none _)
  case cover => exact fun _ hk => absurd hk (Nat.not_lt_zero _)

/-- What is not dealt yet is in no hand. -/
theorem notMem_hand (h : Dealt n hand away) :
  n ∉ hand t
  := by
  intro hn
  apply lt_irrefl _ (h.lt t n hn)

theorem notMem_away (h : Dealt n hand away) :
  n ∉ away
  := by
  intro hn
  apply lt_irrefl _ (h.lt_of_mem n hn)

/-- Something that is not there yet is put away, too. -/
theorem nodup_concat (h : Dealt n hand away) (hk : k ∉ away) :
  (away ++ [k]).Nodup
  := by
  apply List.nodup_append.mpr ⟨h.nodup, List.nodup_singleton k, ?_⟩
  rintro j hj k' hk' rfl
  rw [List.mem_singleton.mp hk'] at hj
  apply hk hj

/-- The next one is dealt away. -/
theorem discard (h : Dealt n hand away) :
  Dealt (n + 1) hand (away ++ [n])
  := by
  constructor
  case nodup => apply h.nodup_concat h.notMem_away
  case lt_of_mem =>
    intro k hk
    rcases List.mem_append.mp hk with hk | hk
    · apply (h.lt_of_mem k hk).trans (Nat.lt_succ_self _)
    · rw [List.mem_singleton.mp hk]
      apply Nat.lt_succ_self
  case lt => exact fun t k hk => (h.lt t k hk).trans (Nat.lt_succ_self _)
  case notMem =>
    intro t k hk hmem
    rcases List.mem_append.mp hmem with hmem | hmem
    · apply h.notMem t k hk hmem
    · rw [List.mem_singleton.mp hmem] at hk
      apply h.notMem_hand hk
  case unique => exact h.unique
  case cover =>
    intro k hk
    rcases Nat.lt_succ_iff_lt_or_eq.mp hk with hk | rfl
    · rcases h.cover k hk with hk | hk
      · exact Or.inl (List.mem_append_left _ hk)
      · exact Or.inr hk
    · exact Or.inl (List.mem_append_right _ (List.mem_singleton_self _))

variable [DecidableEq T]

theorem mem_update {t' : T} {next : Option ℕ} :
  k ∈ Function.update hand t next t' ↔ (t' = t ∧ k ∈ next) ∨ (t' ≠ t ∧ k ∈ hand t')
  := by
  rcases eq_or_ne t' t with rfl | hne
  · simp only [Function.update_self, true_and, ne_eq, not_true_eq_false, false_and, or_false]
  · simp only [Function.update_of_ne hne, hne, false_and, ne_eq, not_false_eq_true, true_and,
      false_or]

/-- The next one is dealt into an empty hand. -/
theorem deal (h : Dealt n hand away) (ht : hand t = none) :
  Dealt (n + 1) (Function.update hand t (some n)) away
  := by
  constructor
  case nodup => exact h.nodup
  case lt_of_mem => exact fun k hk => (h.lt_of_mem k hk).trans (Nat.lt_succ_self _)
  case lt =>
    intro t' k hk
    rcases mem_update.mp hk with ⟨-, ⟨⟩⟩ | ⟨-, hk⟩
    · apply Nat.lt_succ_self
    · apply (h.lt t' k hk).trans (Nat.lt_succ_self _)
  case notMem =>
    intro t' k hk
    rcases mem_update.mp hk with ⟨-, ⟨⟩⟩ | ⟨-, hk⟩
    · exact h.notMem_away
    · apply h.notMem t' k hk
  case unique =>
    intro t₁ t₂ k h₁ h₂
    rcases mem_update.mp h₁ with ⟨rfl, ⟨⟩⟩ | ⟨-, hk₁⟩
    · rcases mem_update.mp h₂ with ⟨rfl, -⟩ | ⟨-, hk₂⟩
      · rfl
      · exact absurd hk₂ h.notMem_hand
    · rcases mem_update.mp h₂ with ⟨rfl, ⟨⟩⟩ | ⟨-, hk₂⟩
      · exact absurd hk₁ h.notMem_hand
      · apply h.unique t₁ t₂ k hk₁ hk₂
  case cover =>
    intro k hk
    rcases Nat.lt_succ_iff_lt_or_eq.mp hk with hk | rfl
    · rcases h.cover k hk with hk | ⟨t', hk⟩
      · exact Or.inl hk
      · right
        use t'
        apply mem_update.mpr (Or.inr ⟨?_, hk⟩)
        rintro rfl
        rw [ht] at hk
        cases hk
    · right
      use t
      apply mem_update.mpr (Or.inl ⟨rfl, rfl⟩)

/-- What is in a hand is put away. -/
theorem putAway (h : Dealt n hand away) (ht : hand t = some k) :
  Dealt n (Function.update hand t none) (away ++ [k])
  := by
  constructor
  case nodup => apply h.nodup_concat (h.notMem t k ht)
  case lt_of_mem =>
    intro j hj
    rcases List.mem_append.mp hj with hj | hj
    · apply h.lt_of_mem j hj
    · rw [List.mem_singleton.mp hj]
      apply h.lt t k ht
  case lt =>
    intro t' j hj
    rcases mem_update.mp hj with ⟨-, ⟨⟩⟩ | ⟨-, hj⟩
    apply h.lt t' j hj
  case notMem =>
    intro t' j hj hmem
    rcases mem_update.mp hj with ⟨-, ⟨⟩⟩ | ⟨hne, hj⟩
    rcases List.mem_append.mp hmem with hmem | hmem
    · apply h.notMem t' j hj hmem
    · rw [List.mem_singleton.mp hmem] at hj
      apply hne (h.unique t' t k hj ht)
  case unique =>
    intro t₁ t₂ j h₁ h₂
    rcases mem_update.mp h₁ with ⟨-, ⟨⟩⟩ | ⟨-, h₁⟩
    rcases mem_update.mp h₂ with ⟨-, ⟨⟩⟩ | ⟨-, h₂⟩
    apply h.unique t₁ t₂ j h₁ h₂
  case cover =>
    intro j hj
    rcases h.cover j hj with hj | ⟨t', hj⟩
    · exact Or.inl (List.mem_append_left _ hj)
    · rcases eq_or_ne t' t with rfl | hne
      · left
        rw [ht] at hj
        obtain rfl := Option.some.inj hj
        apply List.mem_append_right _ (List.mem_singleton_self _)
      · right
        use t'
        apply mem_update.mpr (Or.inr ⟨hne, hj⟩)

omit [DecidableEq T] in
/-- Where all hands are empty, all that have been dealt are away. -/
theorem perm_range (h : Dealt n hand away) (hempty : ∀ t, hand t = none) :
  away.Perm (List.range n)
  := by
  apply (List.perm_ext_iff_of_nodup h.nodup List.nodup_range).mpr
  intro k
  rw [List.mem_range]
  constructor
  · apply h.lt_of_mem k
  · intro hk
    rcases h.cover k hk with hk | ⟨t, hk⟩
    · exact hk
    · rw [hempty t] at hk
      cases hk

end Dealt
