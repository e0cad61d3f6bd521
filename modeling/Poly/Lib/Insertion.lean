import Mathlib

/-! Lists that differ by one inserted element. -/
namespace Poly.Lib

open List

variable {α : Type} {l l' : List α}

/-- The second list is the first with one element inserted. -/
def OneInserted (l l' : List α) : Prop := ∃ p x q, l = p ++ q ∧ l' = p ++ x :: q

/-- The second list has two elements in a place where the first has another one. -/
def OneForTwo (l l' : List α) : Prop :=
  ∃ p a b c q, l = p ++ a :: q ∧ l' = p ++ b :: c :: q ∧ a ≠ b

/-- Where the lists first differ, the first list goes on with the second one's next element. -/
def ResumesNext (l l' : List α) : Prop :=
  ∀ p a b c q, l = p ++ a :: q → l' = p ++ b :: c :: q → a ≠ b → a = c

theorem OneInserted.length_eq (h : OneInserted l l') : l'.length = l.length + 1 := by
  obtain ⟨p, x, q, rfl, rfl⟩ := h
  simp only [length_append, length_cons]
  omega

theorem OneInserted.mem_or_eq (h : OneInserted l l') : ∃ x, ∀ a ∈ l', a = x ∨ a ∈ l := by
  obtain ⟨p, x, q, rfl, rfl⟩ := h
  refine ⟨x, fun a ha => ?_⟩
  simp only [mem_append, mem_cons] at ha ⊢
  tauto

theorem OneInserted.subset (h : OneInserted l l') : l ⊆ l' := by
  obtain ⟨p, x, q, rfl, rfl⟩ := h
  intro a ha
  simp only [mem_append, mem_cons] at ha ⊢
  tauto

theorem OneInserted.resumesNext (h : OneInserted l l') : ResumesNext l l' := by
  obtain ⟨p', x, q', hl, hl'⟩ := h
  intro p a b c q hp hp' hab
  have ha : (p' ++ q')[p.length]? = some a := by
    rw [← hl, hp]
    simp
  have hb : (p' ++ x :: q')[p.length]? = some b := by
    rw [← hl', hp']
    simp
  have hc : (p' ++ x :: q')[p.length + 1]? = some c := by
    rw [← hl', hp']
    simp
  rcases Nat.lt_or_ge p.length p'.length with hlt | hge
  · -- before the insertion the lists agree
    rw [getElem?_append_left hlt] at ha hb
    exact absurd (Option.some.inj (ha.symm.trans hb)) hab
  · rw [getElem?_append_right hge] at ha
    rw [getElem?_append_right (by omega), Nat.sub_add_comm hge] at hc
    exact Option.some.inj (ha.symm.trans hc)

/-- A list in which one element stands for two others is an insertion only if it resumes. -/
theorem OneForTwo.oneInserted (h : OneForTwo l l') (hr : ResumesNext l l') : OneInserted l l' := by
  obtain ⟨p, a, b, c, q, hl, hl', hab⟩ := h
  cases hr p a b c q hl hl' hab
  exact ⟨p, b, a :: q, hl, hl'⟩

end Poly.Lib
