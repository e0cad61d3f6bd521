import Mathlib

/-! A cursor that moves over a list in both directions. -/
namespace Poly.Lib

open List

/-- Before the first entry, at one with those before it in reverse and those after it, or after the
last. -/
inductive Cursor (α : Type) where
  | before
  | at (l : List α) (x : α) (r : List α)
  | after

namespace Cursor

variable {α κ : Type}

/-- Going on to the right, with `l` behind in reverse and `r` ahead. -/
def enter (l : List α) : List α → Cursor α
  | [] => .after
  | x :: r => .at l x r

/-- Going on to the left, with `l` ahead in reverse and `r` behind. -/
def leave (r : List α) : List α → Cursor α
  | [] => .before
  | x :: l => .at l x r

def current : Cursor α → Option α
  | .at _ x _ => some x
  | _ => none

inductive Move (κ : Type) where
  | first
  | last
  | seek (k : κ)
  | next
  | prev

variable [LinearOrder κ] (key : α → κ)

variable (es : List α)

variable (c : Cursor α)

/-- The place that a move over the list `es` leads to. -/
def move : Move κ → Cursor α
  | .first => enter [] es
  | .last => leave [] es.reverse
  | .seek k => enter (es.takeWhile fun x => key x < k).reverse (es.dropWhile fun x => key x < k)
  | .next =>
    match c with
    | .before => enter [] es
    | .at l x r => enter (x :: l) r
    | .after => .after
  | .prev =>
    match c with
    | .after => leave [] es.reverse
    | .at l x r => leave (x :: r) l
    | .before => .before

/-- What the cursor shows after each of some moves. -/
def shown (es : List α) : Cursor α → List (Move κ) → List (Option α)
  | _, [] => []
  | c, m :: ms => (move key es c m).current :: shown es (move key es c m) ms

theorem shown_cons (m : Move κ) (ms : List (Move κ)) :
    shown key es c (m :: ms) = (move key es c m).current :: shown key es (move key es c m) ms := rfl

theorem current_enter (l r : List α) : (enter l r).current = r.head? := by
  cases r <;> rfl

theorem current_leave (l r : List α) : (leave r l).current = l.head? := by
  cases l <;> rfl

theorem takeWhile_dropWhile_of_cut {α : Type} {q : α → Bool} {l₁ l₂ : List α}
    (h₁ : ∀ x ∈ l₁, q x = true) (h₂ : ∀ x ∈ l₂, q x = false) :
    (l₁ ++ l₂).takeWhile q = l₁ ∧ (l₁ ++ l₂).dropWhile q = l₂ := by
  have htake : l₂.takeWhile q = [] := by
    cases l₂ with
    | nil => rfl
    | cons x l₂ => rw [takeWhile_cons_of_neg (by simp [h₂ x mem_cons_self])]
  have hdrop : l₂.dropWhile q = l₂ := by
    cases l₂ with
    | nil => rfl
    | cons x l₂ => rw [dropWhile_cons_of_neg (by simp [h₂ x mem_cons_self])]
  rw [takeWhile_append_of_pos h₁, dropWhile_append_of_pos h₁, htake, hdrop]
  exact ⟨append_nil _, rfl⟩

theorem move_seek {k : κ} {l₁ l₂ : List α} {c : Cursor α}
    (h₁ : ∀ x ∈ l₁, key x < k) (h₂ : ∀ x ∈ l₂, ¬ key x < k) :
    move key (l₁ ++ l₂) c (.seek k) = enter l₁.reverse l₂ := by
  obtain ⟨htake, hdrop⟩ := takeWhile_dropWhile_of_cut (q := fun x => decide (key x < k))
    (fun x hx => decide_eq_true (h₁ x hx)) (fun x hx => decide_eq_false (h₂ x hx))
  rw [move, htake, hdrop]

/-- Steps in one direction show what lies ahead, one after the other, and then nothing more. -/
theorem shown_replicate {m : Move κ} (go : List α → List α → Cursor α)
    (hcurrent : ∀ l r, (go l r).current = r.head?) (hstay : ∀ l, move key es (go l []) m = go l [])
    (hgo : ∀ l x r, move key es (go l (x :: r)) m = go (x :: l) r) (l r : List α) (n : ℕ) :
    shown key es (go l r) (replicate n m) = (range n).map fun i => r[i + 1]? := by
  induction n generalizing l r with
  | zero => rfl
  | succ n ih =>
    rw [replicate_succ, shown_cons, range_succ_eq_map, map_cons, map_map]
    cases r with
    | nil =>
      rw [hstay, ih, hcurrent]
      rfl
    | cons x r =>
      rw [hgo, ih, hcurrent, head?_eq_getElem?]
      rfl

theorem shown_next (es l r : List α) (n : ℕ) :
    shown key es (enter l r) (replicate n (.next : Move κ)) =
      (range n).map fun i => r[i + 1]? :=
  shown_replicate key es enter current_enter (fun _ => rfl) (fun _ _ _ => rfl) l r n

theorem shown_prev (es l r : List α) (n : ℕ) :
    shown key es (leave r l) (replicate n (.prev : Move κ)) =
      (range n).map fun i => l[i + 1]? :=
  shown_replicate key es leave (fun r l => current_leave l r) (fun _ => rfl) (fun _ _ _ => rfl) r l n

theorem head_shown (r : List α) (n : ℕ) :
    (r.head? :: (range n).map fun i => r[i + 1]?) = (range (n + 1)).map fun i => r[i]? := by
  rw [range_succ_eq_map, map_cons, map_map, head?_eq_getElem?]
  rfl

theorem shown_first (n : ℕ) :
    shown key es c (.first :: replicate n (.next : Move κ)) =
      (range (n + 1)).map fun i => es[i]? := by
  change (enter [] es).current :: shown key es (enter [] es) _ = _
  rw [shown_next, current_enter, head_shown]

theorem shown_last (n : ℕ) :
    shown key es c (.last :: replicate n (.prev : Move κ)) =
      (range (n + 1)).map fun i => es.reverse[i]? := by
  change (leave [] es.reverse).current :: shown key es (leave [] es.reverse) _ = _
  rw [shown_prev, current_leave, head_shown]

theorem dropWhile_lt_eq_filter {es : List α} (hs : es.Pairwise fun a b => key a < key b) (k : κ) :
    es.dropWhile (fun x => key x < k) = es.filter fun x => k ≤ key x := by
  induction es with
  | nil => rfl
  | cons x es ih =>
    obtain ⟨hx, hs⟩ := pairwise_cons.mp hs
    by_cases hlt : key x < k
    · rw [dropWhile_cons_of_pos (by simpa using hlt), ih hs,
        filter_cons_of_neg (by simpa using hlt)]
    · rw [dropWhile_cons_of_neg (by simpa using hlt), eq_comm, filter_eq_self]
      intro y hy
      rcases mem_cons.mp hy with rfl | hy
      · simpa using hlt
      · simpa using (not_lt.mp hlt).trans (hx y hy).le

theorem shown_seek {es : List α} (hs : es.Pairwise fun a b => key a < key b) (c : Cursor α) (k : κ)
    (n : ℕ) : shown key es c (.seek k :: replicate n .next) =
      (range (n + 1)).map fun i => (es.filter fun x => k ≤ key x)[i]? := by
  change (enter _ (es.dropWhile _)).current :: shown key es (enter _ (es.dropWhile _)) _ = _
  rw [shown_next, current_enter, head_shown, dropWhile_lt_eq_filter key hs]

end Cursor

end Poly.Lib
