import Mathlib

/-! Singly linked chains in a memory, and insertion into one. -/
namespace Poly.Lib

open List

variable {α : Type} {next next' : α → Option α} {nil a b x : α} {l l₁ l₂ : List α}

/-- From `a` the pointers lead through `l` and then to `nil`. -/
def Linked (next : α → Option α) (nil : α) : α → List α → Prop
  | a, [] => next a = some nil
  | a, b :: l => next a = some b ∧ Linked next nil b l

theorem Linked.next_eq (h : Linked next nil a l) : next a = some (l.head?.getD nil) := by
  cases l with
  | nil => exact h
  | cons b l => exact h.1

theorem Linked.suffix (h : Linked next nil a l) (hl : a :: l = l₁ ++ b :: l₂) :
    Linked next nil b l₂ := by
  induction l₁ generalizing a l with
  | nil =>
    cases hl
    exact h
  | cons c l₁ ih =>
    obtain ⟨rfl, htail⟩ := List.cons.inj hl
    cases l with
    | nil => exact absurd htail.symm (append_ne_nil_of_right_ne_nil _ (cons_ne_nil _ _))
    | cons d l => exact ih h.2 htail

theorem Linked.congr (h : Linked next nil a l) (heq : ∀ x ∈ a :: l, next' x = next x) :
    Linked next' nil a l := by
  induction l generalizing a with
  | nil => exact (heq a mem_cons_self).trans h
  | cons b l ih =>
    obtain ⟨ha, hl⟩ := forall_mem_cons.mp heq
    exact ⟨ha.trans h.1, ih h.2 hl⟩

/-- A new cell goes in after the last of `a :: l₁`: that one now points to it, and it points where
that one pointed. -/
theorem Linked.insert (h : Linked next nil a (l₁ ++ l₂)) (hnodup : (a :: (l₁ ++ l₂)).Nodup)
    (hpred : next' (l₁.getLastD a) = some x) (hnew : next' x = next (l₁.getLastD a))
    (hother : ∀ y ∈ a :: (l₁ ++ l₂), y ≠ l₁.getLastD a → next' y = next y) :
    Linked next' nil a (l₁ ++ x :: l₂) := by
  induction l₁ generalizing a with
  | nil =>
    obtain ⟨ha, -⟩ := nodup_cons.mp hnodup
    refine ⟨hpred, ?_⟩
    -- behind the new cell nothing has changed
    have hrest : ∀ y ∈ l₂, next' y = next y := by
      intro y hy
      apply hother y (mem_cons_of_mem a hy)
      rintro rfl
      exact ha hy
    cases l₂ with
    | nil => exact hnew.trans h
    | cons b l₂ => exact ⟨hnew.trans h.1, h.2.congr hrest⟩
  | cons b l₁ ih =>
    obtain ⟨ha, hnodup⟩ := nodup_cons.mp hnodup
    rw [getLastD_cons] at hpred hnew hother
    have hlast : l₁.getLastD b ∈ b :: (l₁ ++ l₂) := by
      cases l₁ with
      | nil => exact mem_cons_self
      | cons c l₁ =>
        refine mem_cons_of_mem b (mem_append_left l₂ ?_)
        rw [getLastD_eq_getLast?]
        exact getLast_mem _
    refine ⟨(hother a mem_cons_self fun he => ha (he ▸ hlast)).trans h.1, ?_⟩
    exact ih h.2 hnodup hpred hnew fun y hy => hother y (mem_cons_of_mem a hy)

end Poly.Lib
