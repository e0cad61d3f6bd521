import Mathlib

/-! Binary hash trees that split at a power of two: roots, audit paths and binding. -/
namespace Poly.Lib

open List

/-- Two different messages of the list have one digest. -/
def Collision {M D : Type} (H : M → D) (ms : List M) : Prop :=
  ∃ x ∈ ms, ∃ y ∈ ms, x ≠ y ∧ H x = H y

instance {M D : Type} [DecidableEq M] [DecidableEq D] (H : M → D) (ms : List M) :
    Decidable (Collision H ms) :=
  inferInstanceAs (Decidable (∃ x ∈ ms, ∃ y ∈ ms, x ≠ y ∧ H x = H y))

theorem Collision.mono {M D : Type} {H : M → D} {ms ns : List M} (h : Collision H ms)
    (hs : ms ⊆ ns) : Collision H ns := by
  obtain ⟨x, hx, y, hy, hne, hxy⟩ := h
  exact ⟨x, hs hx, y, hs hy, hne, hxy⟩

theorem eq_or_collision {M D : Type} {H : M → D} {x y : M} (h : H x = H y) :
    x = y ∨ Collision H [x, y] := by
  by_cases hne : x = y
  · exact .inl hne
  · exact .inr ⟨x, by simp, y, by simp, hne, h⟩

namespace MerkleTree

variable {α : Type}

/-- The largest power of two below `n`, for `2 ≤ n`. -/
def splitWidth (n : ℕ) : ℕ := 2 ^ Nat.log 2 (n - 1)

theorem splitWidth_pos (n : ℕ) : 0 < splitWidth n := Nat.pow_pos (by decide)

theorem splitWidth_lt {n : ℕ} (h : 2 ≤ n) : splitWidth n < n := by
  have := Nat.pow_log_le_self 2 (x := n - 1) (by omega)
  unfold splitWidth
  omega

theorem le_two_mul_splitWidth {n : ℕ} (h : 2 ≤ n) : n ≤ 2 * splitWidth n := by
  have := Nat.lt_pow_succ_log_self (b := 2) (by decide) (n - 1)
  unfold splitWidth
  omega

theorem splitWidth_eq {n k : ℕ} (h₁ : 2 ^ k < n) (h₂ : n ≤ 2 ^ (k + 1)) :
    splitWidth n = 2 ^ k := by
  unfold splitWidth
  rw [Nat.log_eq_of_pow_le_of_lt_pow (m := k) (by omega) (by omega)]

/-- Halving the width halves the split, so both trees have one shape. -/
theorem splitWidth_half {n : ℕ} (h : 3 ≤ n) : splitWidth n = 2 * splitWidth ((n + 1) / 2) := by
  obtain ⟨k, hk⟩ : ∃ k, Nat.log 2 ((n + 1) / 2 - 1) = k := ⟨_, rfl⟩
  have hlt := splitWidth_lt (n := (n + 1) / 2) (by omega)
  have hle := le_two_mul_splitWidth (n := (n + 1) / 2) (by omega)
  have hs : splitWidth ((n + 1) / 2) = 2 ^ k := by rw [splitWidth, hk]
  rw [hs] at hlt hle ⊢
  rw [splitWidth_eq (k := k + 1) (by rw [pow_succ]; omega) (by rw [pow_succ]; omega)]
  ring

theorem split_lengths {l : List α} (h : 2 ≤ l.length) :
    (l.take (splitWidth l.length)).length = splitWidth l.length ∧
      (l.drop (splitWidth l.length)).length = l.length - splitWidth l.length :=
  ⟨length_take_of_le (splitWidth_lt h).le, length_drop⟩

theorem split_shorter (a b : α) (l : List α) :
    ((a :: b :: l).take (splitWidth (l.length + 2))).length < (a :: b :: l).length ∧
      ((a :: b :: l).drop (splitWidth (l.length + 2))).length < (a :: b :: l).length := by
  have hlt := splitWidth_lt (n := l.length + 2) (by omega)
  have hpos := splitWidth_pos (l.length + 2)
  simp only [length_take, length_drop, length_cons]
  omega

section Root

variable (node : α → α → α) (e : α)

/-- The root over a list of leaf digests; `e` stands for the tree without leaves. -/
def root : List α → α
  | [] => e
  | [a] => a
  | a :: b :: l =>
    let k := splitWidth (l.length + 2)
    node (root ((a :: b :: l).take k)) (root ((a :: b :: l).drop k))
termination_by l => l.length
decreasing_by
  · exact (split_shorter a b l).1
  · exact (split_shorter a b l).2

theorem root_split {l : List α} (h : 2 ≤ l.length) :
    root node e l = node (root node e (l.take (splitWidth l.length)))
      (root node e (l.drop (splitWidth l.length))) := by
  match l, h with
  | a :: b :: l, _ => rw [root, length_cons, length_cons]

/-- One level up: neighbours are combined and an odd last digest is carried over. -/
def pairUp : List α → List α
  | [] => []
  | [a] => [a]
  | a :: b :: l => node a b :: pairUp l

@[simp] theorem pairUp_length (l : List α) : (pairUp node l).length = (l.length + 1) / 2 := by
  fun_induction pairUp node l with
  | case1 => simp
  | case2 => simp
  | case3 a b l ih =>
    simp only [length_cons, ih]
    omega

theorem pairUp_append {l : List α} (h : l.length % 2 = 0) (m : List α) :
    pairUp node (l ++ m) = pairUp node l ++ pairUp node m := by
  fun_induction pairUp node l with
  | case1 => rfl
  | case2 a => simp at h
  | case3 a b l ih =>
    simp only [length_cons] at h
    simp [pairUp, ih (by omega)]

theorem root_pairUp (l : List α) : root node e (pairUp node l) = root node e l := by
  induction hn : l.length using Nat.strong_induction_on generalizing l with
  | _ n ih =>
    match l, hn with
    | [], _ => rfl
    | [a], _ => rfl
    | [a, b], _ =>
      have h1 : splitWidth 2 = 1 := rfl
      simp [pairUp, root, h1]
    | a :: b :: c :: l, hn =>
      generalize hx : a :: b :: c :: l = x at hn ⊢
      have h3 : 3 ≤ x.length := by simp [← hx]
      have hk := splitWidth_half h3
      have hlt := splitWidth_lt (n := x.length) (by omega)
      have hpos := splitWidth_pos ((x.length + 1) / 2)
      -- an even split commutes with pairing, so the induction hypothesis applies to both halves
      have hp : pairUp node x = pairUp node (x.take (splitWidth x.length)) ++
          pairUp node (x.drop (splitWidth x.length)) := by
        rw [← pairUp_append node (by rw [length_take]; omega), take_append_drop]
      have hlen : (pairUp node (x.take (splitWidth x.length))).length =
          splitWidth ((x.length + 1) / 2) := by
        rw [pairUp_length, length_take]
        omega
      have hl := ih _ (by rw [length_take]; omega) (x.take (splitWidth x.length)) rfl
      have hr := ih _ (by rw [length_drop]; omega) (x.drop (splitWidth x.length)) rfl
      rw [root_split node e (l := pairUp node x) (by rw [pairUp_length]; omega), pairUp_length,
        ← hlen, hp, take_left, drop_left, hl, hr, ← root_split node e (by omega)]

end Root

/-- The side of the running digest on which a sibling stands. -/
inductive Side where
  | left
  | right
  deriving DecidableEq, Repr

section Path

variable (node : α → α → α)

def climbStep (h : α) : Side × α → α
  | (.left, v) => node v h
  | (.right, v) => node h v

/-- The digest reached by combining a digest with the siblings of a path, bottom up. -/
def climb (h : α) (path : List (Side × α)) : α := path.foldl (climbStep node) h

@[simp] theorem climb_nil (h : α) : climb node h [] = h := rfl

@[simp] theorem climb_cons (h : α) (x : Side × α) (p : List (Side × α)) :
    climb node h (x :: p) = climb node (climbStep node h x) p := rfl

theorem climb_append (h : α) (p q : List (Side × α)) :
    climb node h (p ++ q) = climb node (climb node h p) q := foldl_append

/-- The sibling of position `i` on a level; an odd last digest has none. -/
def sibling (l : List α) (i : ℕ) : List (Side × α) :=
  if i + 1 = l.length ∧ l.length % 2 = 1 then []
  else if i % 2 = 1 then (l[i - 1]?.map (Side.left, ·)).toList
  else (l[i + 1]?.map (Side.right, ·)).toList

/-- The siblings met from position `i` upwards over `d` levels. -/
def auditPath : ℕ → List α → ℕ → List (Side × α)
  | 0, _, _ => []
  | d + 1, l, i => sibling l i ++ auditPath d (pairUp node l) (i / 2)

theorem sibling_cons_cons (a b : α) (l : List α) (i : ℕ) :
    sibling (a :: b :: l) (i + 2) = sibling l i := by
  have hc : (i + 2 + 1 = (a :: b :: l).length ∧ (a :: b :: l).length % 2 = 1) ↔
      (i + 1 = l.length ∧ l.length % 2 = 1) := by
    simp only [length_cons]
    omega
  unfold sibling
  simp only [hc]
  rcases i with _ | i
  · simp
  · simp [Nat.add_mod]

theorem pairUp_sibling {l : List α} {i : ℕ} {h : α} (hi : l[i]? = some h) :
    (pairUp node l)[i / 2]? = some (climb node h (sibling l i)) := by
  fun_induction pairUp node l generalizing i with
  | case1 => simp at hi
  | case2 a =>
    obtain ⟨rfl⟩ : i = 0 := by
      by_contra hne
      simp [hne] at hi
    simpa [sibling] using hi
  | case3 a b l ih =>
    match i with
    | 0 =>
      obtain rfl : a = h := by simpa using hi
      simp [sibling, climb, climbStep]
    | 1 =>
      obtain rfl : b = h := by simpa using hi
      cases l <;> simp [sibling, climb, climbStep]
    | i + 2 =>
      rw [sibling_cons_cons, show (i + 2) / 2 = i / 2 + 1 by omega]
      exact ih (by simpa using hi)

theorem climb_auditPath (e : α) {d : ℕ} {l : List α} {i : ℕ} {h : α} (hd : l.length ≤ 2 ^ d)
    (hi : l[i]? = some h) : climb node h (auditPath node d l i) = root node e l := by
  induction d generalizing l i h with
  | zero =>
    obtain ⟨hlt, rfl⟩ := List.getElem?_eq_some_iff.mp hi
    match l, hd with
    | [a], _ => simp [auditPath, root]
  | succ d ih =>
    rw [auditPath, climb_append, ← root_pairUp]
    refine ih ?_ (pairUp_sibling node hi)
    rw [pairUp_length]
    omega

end Path

variable {V M D : Type} (H : M → D) (leafMsg : V → M) (nodeMsg : D → D → M) (e : D)

/-- Leaves and inner nodes are hashed as different, unambiguous messages. -/
structure Separated : Prop where
  leaf_inj : Function.Injective leafMsg
  node_inj : ∀ {a b c d : D}, nodeMsg a b = nodeMsg c d → a = c ∧ b = d
  leaf_ne_node : ∀ v a b, leafMsg v ≠ nodeMsg a b

def nodeHash (a b : D) : D := H (nodeMsg a b)

def treeRoot (vs : List V) : D := root (nodeHash H nodeMsg) e (vs.map fun v => H (leafMsg v))

/-- The messages hashed to compute the root over the values. -/
def treeMessages : List V → List M
  | [] => []
  | [v] => [leafMsg v]
  | a :: b :: l =>
    let k := splitWidth (l.length + 2)
    nodeMsg (treeRoot H leafMsg nodeMsg e ((a :: b :: l).take k))
        (treeRoot H leafMsg nodeMsg e ((a :: b :: l).drop k)) ::
      (treeMessages ((a :: b :: l).take k) ++ treeMessages ((a :: b :: l).drop k))
termination_by l => l.length
decreasing_by
  · exact (split_shorter a b l).1
  · exact (split_shorter a b l).2

/-- The message that combines a digest with one sibling. -/
def stepMessage (h : D) : Side × D → M
  | (.left, v) => nodeMsg v h
  | (.right, v) => nodeMsg h v

/-- The messages hashed along a path. -/
def climbMessages : D → List (Side × D) → List M
  | _, [] => []
  | h, x :: p => stepMessage nodeMsg h x :: climbMessages (H (stepMessage nodeMsg h x)) p

theorem climbStep_eq (h : D) (x : Side × D) :
    climbStep (nodeHash H nodeMsg) h x = H (stepMessage nodeMsg h x) := by
  obtain ⟨side, v⟩ := x
  cases side <;> rfl

theorem climbMessages_append (h : D) (p q : List (Side × D)) :
    climbMessages H nodeMsg h (p ++ q) = climbMessages H nodeMsg h p ++
      climbMessages H nodeMsg (climb (nodeHash H nodeMsg) h p) q := by
  induction p generalizing h with
  | nil => rfl
  | cons x p ih =>
    rw [cons_append, climbMessages, ih, climbMessages, climb_cons, climbStep_eq,
      cons_append]

/-- The digest a path ends in is that of a message hashed on the way. -/
theorem climb_eq_hash (v : V) (path : List (Side × D)) :
    ∃ m ∈ leafMsg v :: climbMessages H nodeMsg (H (leafMsg v)) path,
      climb (nodeHash H nodeMsg) (H (leafMsg v)) path = H m ∧
        (m = leafMsg v ∨ ∃ a b, m = nodeMsg a b) := by
  rcases path.eq_nil_or_concat' with rfl | ⟨p, x, rfl⟩
  · exact ⟨_, by simp, rfl, .inl rfl⟩
  · refine ⟨stepMessage nodeMsg (climb (nodeHash H nodeMsg) (H (leafMsg v)) p) x, ?_, ?_, .inr ?_⟩
    · simp [climbMessages_append, climbMessages]
    · rw [climb_append, climb_cons, climb_nil, climbStep_eq]
    · obtain ⟨side, d⟩ := x
      cases side <;> exact ⟨_, _, rfl⟩

variable {H leafMsg nodeMsg e}

theorem stepMessage_ne_leaf (hs : Separated leafMsg nodeMsg) (v : V) (h : D) (x : Side × D) :
    leafMsg v ≠ stepMessage nodeMsg h x := by
  obtain ⟨side, d⟩ := x
  cases side <;> exact hs.leaf_ne_node _ _ _

/-- Equal combining messages have the running digest as one of the two children. -/
theorem stepMessage_eq_node (hs : Separated leafMsg nodeMsg) {h a b : D} {x : Side × D}
    (he : stepMessage nodeMsg h x = nodeMsg a b) : h = a ∨ h = b := by
  obtain ⟨side, d⟩ := x
  cases side
  · exact .inr (hs.node_inj he).2
  · exact .inl (hs.node_inj he).1

theorem treeRoot_split {a b : V} {l : List V} :
    treeRoot H leafMsg nodeMsg e (a :: b :: l) =
      H (nodeMsg (treeRoot H leafMsg nodeMsg e ((a :: b :: l).take (splitWidth (l.length + 2))))
        (treeRoot H leafMsg nodeMsg e ((a :: b :: l).drop (splitWidth (l.length + 2))))) := by
  unfold treeRoot
  rw [root_split _ _ (by simp), map_take, map_drop, length_map]
  rfl

/-- A path that leads from a value to the root starts at one of the values, or two of the
messages hashed on the way and in the tree collide. -/
theorem binding (hs : Separated leafMsg nodeMsg) {vs : List V} (hne : vs ≠ []) {v : V}
    {path : List (Side × D)}
    (h : climb (nodeHash H nodeMsg) (H (leafMsg v)) path = treeRoot H leafMsg nodeMsg e vs) :
    v ∈ vs ∨ Collision H (leafMsg v :: climbMessages H nodeMsg (H (leafMsg v)) path ++
      treeMessages H leafMsg nodeMsg e vs) := by
  -- the path is taken apart from its end, since that is where it meets the root
  fun_induction treeMessages H leafMsg nodeMsg e vs generalizing path with
  | case1 => exact absurd rfl hne
  | case2 w =>
    rcases path.eq_nil_or_concat' with rfl | ⟨p, x, rfl⟩
    · have hw : H (leafMsg v) = H (leafMsg w) := by simpa [treeRoot, root] using h
      rcases eq_or_collision hw with hvw | hc
      · exact .inl (by simp [hs.leaf_inj hvw])
      · exact .inr (hc.mono (by simp [climbMessages]))
    · rw [climb_append, climb_cons, climb_nil, climbStep_eq] at h
      have hw : treeRoot H leafMsg nodeMsg e [w] = H (leafMsg w) := by simp [treeRoot, root]
      rcases eq_or_collision (h.trans hw) with hx | hc
      · exact (stepMessage_ne_leaf hs w _ x hx.symm).elim
      · exact .inr (hc.mono (by simp [climbMessages_append, climbMessages]))
  | case3 a b l k ihl ihr =>
    have hk₁ : 0 < k := splitWidth_pos _
    have hk₂ : k < l.length + 2 := splitWidth_lt (by omega)
    have hl : (a :: b :: l).take k ≠ [] := by simp; omega
    have hr : (a :: b :: l).drop k ≠ [] := by simp; omega
    rw [treeRoot_split] at h
    rcases path.eq_nil_or_concat' with rfl | ⟨p, x, rfl⟩
    · exact .inr ⟨leafMsg v, by simp, _, by simp [k], hs.leaf_ne_node _ _ _, h⟩
    · rw [climb_append, climb_cons, climb_nil, climbStep_eq] at h
      rw [climbMessages_append]
      rcases eq_or_collision h with hxy | hc
      · rcases stepMessage_eq_node hs hxy with hp | hp
        · rcases ihl hl hp with hv | hc
          · exact .inl (mem_of_mem_take hv)
          · exact .inr (hc.mono (by intro m; simp; tauto))
        · rcases ihr hr hp with hv | hc
          · exact .inl (mem_of_mem_drop hv)
          · exact .inr (hc.mono (by intro m; simp; tauto))
      · refine .inr (hc.mono ?_)
        simp [climbMessages, k]

end MerkleTree

end Poly.Lib
