import Poly.Lib.MerkleTree

/-! Walks through the levels of a hash tree: what a digest at a known position of one level becomes on
the next, and what equal digests say about their parts. -/
namespace Poly.Lib.MerkleTree

open List

section Levels

variable {α : Type} (node : α → α → α) {l : List α} {i : ℕ} {a b : α}

theorem getElem?_pairUp_even (hi : i % 2 = 0) (ha : l[i]? = some a) (hb : l[i + 1]? = some b) :
    (pairUp node l)[i / 2]? = some (node a b) := by
  have h := pairUp_sibling node ha
  have hlt := (List.getElem?_eq_some_iff.mp hb).1
  have hlast : ¬ (i + 1 = l.length ∧ l.length % 2 = 1) := by omega
  rw [sibling, if_neg hlast, if_neg (by omega), hb] at h
  exact h

theorem getElem?_pairUp_last (hi : i % 2 = 0) (hlen : l.length = i + 1) :
    (pairUp node l)[i / 2]? = l[i]? := by
  have hlt : i < l.length := by omega
  have h := pairUp_sibling node (getElem?_eq_getElem hlt)
  have hlast : i + 1 = l.length ∧ l.length % 2 = 1 := by omega
  rw [sibling, if_pos hlast] at h
  exact h.trans (getElem?_eq_getElem hlt).symm

/-- An even number of digests is paired up apart from the others. -/
theorem pairUp_take (h : i % 2 = 0) (hi : i ≤ l.length) :
    pairUp node (l.take i) = (pairUp node l).take (i / 2) := by
  have hlen : (l.take i).length = i := length_take_of_le hi
  have happ := pairUp_append node (l := l.take i) (by omega) (l.drop i)
  rw [take_append_drop] at happ
  rw [happ, take_left']
  rw [pairUp_length]
  omega

theorem pairUp_drop (h : i % 2 = 0) (hi : i ≤ l.length) :
    pairUp node (l.drop i) = (pairUp node l).drop (i / 2) := by
  have hlen : (l.take i).length = i := length_take_of_le hi
  have happ := pairUp_append node (l := l.take i) (by omega) (l.drop i)
  rw [take_append_drop] at happ
  rw [happ, drop_left']
  rw [pairUp_length]
  omega

/-- From three digests on the two sides of a tree are paired up apart. -/
theorem splitWidth_pairUp (h : 3 ≤ l.length) :
    splitWidth l.length = 2 * splitWidth (pairUp node l).length := by
  rw [pairUp_length]
  exact splitWidth_half h

theorem pairUp_take_split (h : 3 ≤ l.length) :
    pairUp node (l.take (splitWidth l.length)) =
      (pairUp node l).take (splitWidth (pairUp node l).length) := by
  have hk := splitWidth_pairUp node h
  have hlt := splitWidth_lt (n := l.length) (by omega)
  rw [pairUp_take node (by omega) hlt.le, hk, Nat.mul_div_cancel_left _ Nat.two_pos]

theorem pairUp_drop_split (h : 3 ≤ l.length) :
    pairUp node (l.drop (splitWidth l.length)) =
      (pairUp node l).drop (splitWidth (pairUp node l).length) := by
  have hk := splitWidth_pairUp node h
  have hlt := splitWidth_lt (n := l.length) (by omega)
  rw [pairUp_drop node (by omega) hlt.le, hk, Nat.mul_div_cancel_left _ Nat.two_pos]

theorem pairUp_take_concat_even (h : i % 2 = 0) (hi : i ≤ l.length) (x : α) :
    pairUp node (l.take i ++ [x]) = (pairUp node l).take (i / 2) ++ [x] := by
  have hlen : (l.take i).length = i := length_take_of_le hi
  rw [pairUp_append node (by omega), pairUp_take node h hi]
  rfl

/-- A digest after an odd number of others joins the last of them. -/
theorem pairUp_take_concat_odd (h : i % 2 = 1) (ha : l[i - 1]? = some a) (x : α) :
    pairUp node (l.take i ++ [x]) = (pairUp node l).take (i / 2) ++ [node a x] := by
  have hlt := (List.getElem?_eq_some_iff.mp ha).1
  have htake : l.take i = l.take (i - 1) ++ [a] := by
    have hsucc := List.take_add_one (l := l) (i := i - 1)
    rw [ha, show i - 1 + 1 = i by omega] at hsucc
    exact hsucc
  have hlen : (l.take (i - 1)).length = i - 1 := List.length_take_of_le (by omega)
  rw [htake, List.append_assoc, pairUp_append node (by omega), pairUp_take node (by omega) (by omega),
    show (i - 1) / 2 = i / 2 by omega]
  rfl

end Levels

section Paths

variable {α : Type} (node : α → α → α) (e : α) {l : List α} {i k d : ℕ} {a : α}

theorem sibling_odd (hi : i % 2 = 1) (ha : l[i - 1]? = some a) :
    sibling l i = [(.left, a)] := by
  rw [sibling, if_neg (by omega), if_pos hi, ha]
  rfl

theorem sibling_even (hi : i % 2 = 0) (ha : l[i + 1]? = some a) : sibling l i = [(.right, a)] := by
  have hlt := (List.getElem?_eq_some_iff.mp ha).1
  rw [sibling, if_neg (by omega), if_neg (by omega), ha]
  rfl

theorem sibling_last (hi : i % 2 = 0) (hlen : l.length = i + 1) : sibling l i = [] := by
  rw [sibling, if_pos (by omega)]

theorem sibling_take (hk : k % 2 = 0) (hi : i < k) (hle : k ≤ l.length) :
    sibling (l.take k) i = sibling l i := by
  have hget : ∀ j < k, (l.take k)[j]? = l[j]? := fun j hj => getElem?_take_of_lt hj
  by_cases hodd : i % 2 = 1
  · have ha := getElem?_eq_getElem (l := l) (i := i - 1) (by omega)
    rw [sibling_odd hodd ha, sibling_odd hodd (by rw [hget _ (by omega), ha])]
  · have ha := getElem?_eq_getElem (l := l) (i := i + 1) (by omega)
    rw [sibling_even (by omega) ha, sibling_even (by omega) (by rw [hget _ (by omega), ha])]

theorem sibling_drop (hk : k % 2 = 0) (hi : k ≤ i) (hlt : i < l.length) :
    sibling (l.drop k) (i - k) = sibling l i := by
  have hlen : (l.drop k).length = l.length - k := length_drop
  have hget : ∀ j, (l.drop k)[j]? = l[k + j]? := fun j => getElem?_drop
  by_cases hodd : i % 2 = 1
  · have ha := getElem?_eq_getElem (l := l) (i := i - 1) (by omega)
    rw [sibling_odd hodd ha, sibling_odd (by omega)]
    rw [hget, ← ha, show k + (i - k - 1) = i - 1 by omega]
  · by_cases hlast : i + 1 = l.length
    · rw [sibling_last (by omega) hlast.symm, sibling_last (by omega) (by omega)]
    · have ha := getElem?_eq_getElem (l := l) (i := i + 1) (by omega)
      rw [sibling_even (by omega) ha, sibling_even (by omega)]
      rw [hget, ← ha, show k + (i - k + 1) = i + 1 by omega]

theorem auditPath_singleton (a : α) (d : ℕ) : auditPath node d [a] 0 = [] := by
  induction d with
  | zero => rfl
  | succ d ih =>
    rw [auditPath, pairUp, ih]
    rfl

/-- The last sibling of a path is the root over the other side of the tree. -/
theorem auditPath_split (hd : l.length ≤ 2 ^ d) (hl : 2 ≤ l.length) (hi : i < l.length) :
    auditPath node d l i = if i < splitWidth l.length
      then auditPath node d (l.take (splitWidth l.length)) i ++
        [(.right, root node e (l.drop (splitWidth l.length)))]
      else auditPath node d (l.drop (splitWidth l.length)) (i - splitWidth l.length) ++
        [(.left, root node e (l.take (splitWidth l.length)))] := by
  induction d generalizing l i with
  | zero => omega
  | succ d ih =>
    by_cases htwo : l.length = 2
    · obtain ⟨a, b, rfl⟩ := length_eq_two.mp htwo
      have hone : splitWidth [a, b].length = 1 := rfl
      rw [hone]
      match i, hi with
      | 0, _ =>
        rw [auditPath, sibling_even rfl rfl]
        simp [pairUp, auditPath_singleton, root]
      | 1, _ =>
        rw [auditPath, sibling_odd rfl rfl]
        simp [pairUp, auditPath_singleton, root]
    · -- both sides have full pairs, so that the level above splits at half the width
      have hk := splitWidth_pairUp node (l := l) (by omega)
      have hlt := splitWidth_lt hl
      have hup := pairUp_length node l
      rw [auditPath, ih (by omega) (by omega) (by omega), ← pairUp_take_split node (by omega),
        ← pairUp_drop_split node (by omega), root_pairUp, root_pairUp]
      by_cases hside : i < splitWidth l.length
      · rw [if_pos hside, if_pos (by omega), auditPath, sibling_take (by omega) hside hlt.le,
          append_assoc]
      · rw [if_neg hside, if_neg (by omega), auditPath, sibling_drop (by omega) (by omega) hi,
          append_assoc, show (i - splitWidth l.length) / 2 =
            i / 2 - splitWidth (pairUp node l).length by omega]

theorem auditPath_ne_nil (hd : l.length ≤ 2 ^ d) (hl : 2 ≤ l.length) (hi : i < l.length) :
    auditPath node d l i ≠ [] := by
  obtain ⟨x, -⟩ := exists_mem_of_length_pos (show 0 < l.length by omega)
  rw [auditPath_split node x hd hl hi]
  split_ifs <;> exact append_ne_nil_of_right_ne_nil _ (cons_ne_nil _ _)

/-- The position over `i` on the first level where it is no right child. -/
def sharedNode (i : ℕ) : ℕ := if i % 2 = 1 then sharedNode (i / 2) else i
termination_by i

theorem sharedNode_eq_zero {i : ℕ} (h : sharedNode i = 0) : ∃ j, i + 1 = 2 ^ j := by
  fun_induction sharedNode i with
  | case1 i hodd ih =>
    obtain ⟨j, hj⟩ := ih h
    refine ⟨j + 1, ?_⟩
    omega
  | case2 i _ =>
    subst h
    exact ⟨0, rfl⟩

theorem sharedNode_pow (j : ℕ) : sharedNode (2 ^ j - 1) = 0 := by
  induction j with
  | zero =>
    rw [sharedNode]
    rfl
  | succ j ih =>
    have hpos : 0 < 2 ^ j := Nat.two_pow_pos j
    rw [sharedNode, pow_succ, if_pos (by omega), show (2 ^ j * 2 - 1) / 2 = 2 ^ j - 1 by omega, ih]

/-- The digest over the last full subtree that ends at position `i`, and its siblings. -/
def sharedPath : ℕ → List α → ℕ → Option α × List (Side × α)
  | 0, l, i => (l[i]?, [])
  | d + 1, l, i =>
    if i % 2 = 1 then sharedPath d (pairUp node l) (i / 2)
    else (l[i]?, auditPath node (d + 1) l i)

theorem sharedPath_pow {j : ℕ} (hd : j ≤ d) (hl : l.length = 2 ^ j) :
    sharedPath node d l (2 ^ j - 1) = (some (root node e l), []) := by
  induction d generalizing l j with
  | zero =>
    obtain rfl : j = 0 := by omega
    obtain ⟨a, rfl⟩ := length_eq_one_iff.mp hl
    rw [root]
    rfl
  | succ d ih =>
    cases j with
    | zero =>
      obtain ⟨a, rfl⟩ := length_eq_one_iff.mp hl
      rw [sharedPath, pow_zero, Nat.sub_self, auditPath_singleton, root]
      rfl
    | succ j =>
      have hpos : 0 < 2 ^ j := Nat.two_pow_pos j
      have hup := pairUp_length node l
      rw [pow_succ] at hl ⊢
      rw [sharedPath, if_pos (by omega), show (2 ^ j * 2 - 1) / 2 = 2 ^ j - 1 by omega,
        ih (by omega) (by omega), root_pairUp]

/-- Short of the last position, the last sibling is the root over the other side of the tree. -/
theorem sharedPath_split (hd : l.length ≤ 2 ^ d) (hi : i + 1 < l.length) :
    sharedPath node d l i = if i < splitWidth l.length
      then let p := sharedPath node d (l.take (splitWidth l.length)) i
        (p.1, p.2 ++ [(.right, root node e (l.drop (splitWidth l.length)))])
      else let p := sharedPath node d (l.drop (splitWidth l.length)) (i - splitWidth l.length)
        (p.1, p.2 ++ [(.left, root node e (l.take (splitWidth l.length)))]) := by
  induction d generalizing l i with
  | zero => omega
  | succ d ih =>
    have hpos := splitWidth_pos l.length
    rw [sharedPath]
    by_cases hodd : i % 2 = 1
    · have hk := splitWidth_pairUp node (l := l) (by omega)
      have hup := pairUp_length node l
      rw [if_pos hodd, ih (by omega) (by omega), ← pairUp_take_split node (by omega),
        ← pairUp_drop_split node (by omega), root_pairUp, root_pairUp]
      by_cases hside : i < splitWidth l.length
      · rw [if_pos hside, if_pos (by omega), sharedPath, if_pos hodd]
      · rw [if_neg hside, if_neg (by omega), sharedPath, if_pos (by omega),
          show (i - splitWidth l.length) / 2 = i / 2 - splitWidth (pairUp node l).length by omega]
    · rw [if_neg hodd, auditPath_split node e hd (by omega) (by omega)]
      by_cases hside : i < splitWidth l.length
      · rw [if_pos hside, if_pos hside, sharedPath, if_neg hodd, getElem?_take_of_lt hside]
      · have hk := splitWidth_pairUp node (l := l)
        have hwide : 3 ≤ l.length := by omega
        rw [if_neg hside, if_neg hside, sharedPath, if_neg (by have := hk hwide; omega),
          getElem?_drop, Nat.add_sub_cancel' (by omega)]

end Paths

section Messages

variable {M D : Type} (H : M → D) (nodeMsg : D → D → M)

/-- The messages hashed to pair up one level. -/
def pairMessages : List D → List M
  | a :: b :: l => nodeMsg a b :: pairMessages l
  | _ => []

/-- The messages hashed for the inner nodes over a list of digests. -/
def nodeMessages (l : List D) : List M :=
  if l.length ≤ 1 then []
  else pairMessages nodeMsg l ++ nodeMessages (pairUp (nodeHash H nodeMsg) l)
termination_by l.length
decreasing_by
  rw [pairUp_length]
  omega

variable {H nodeMsg} {l : List D} {i : ℕ} {a b : D}

variable (nodeMsg) in
theorem mem_pairMessages (hi : i % 2 = 0) (ha : l[i]? = some a) (hb : l[i + 1]? = some b) :
    nodeMsg a b ∈ pairMessages nodeMsg l := by
  induction i using Nat.twoStepInduction generalizing l with
  | zero =>
    match l, ha, hb with
    | c :: d :: l, ha, hb =>
      obtain rfl : c = a := by simpa using ha
      obtain rfl : d = b := by simpa using hb
      exact mem_cons_self
  | one => omega
  | more i ih _ =>
    match l, ha, hb with
    | c :: d :: l, ha, hb =>
      exact mem_cons_of_mem _ (ih (by omega) (by simpa using ha) (by simpa using hb))

theorem pairMessages_subset (l : List D) (h : 2 ≤ l.length) :
    pairMessages nodeMsg l ⊆ nodeMessages H nodeMsg l := by
  intro m hm
  rw [nodeMessages, if_neg (by omega)]
  exact mem_append_left _ hm

theorem nodeMessages_pairUp_subset (l : List D) :
    nodeMessages H nodeMsg (pairUp (nodeHash H nodeMsg) l) ⊆ nodeMessages H nodeMsg l := by
  intro m hm
  by_cases h : l.length ≤ 1
  · rw [nodeMessages, if_pos (by rw [pairUp_length]; omega)] at hm
    cases hm
  · rw [nodeMessages, if_neg h]
    exact mem_append_right _ hm

/-- Inner nodes are hashed as messages that tell the two children apart. -/
def NodeInjective (nodeMsg : D → D → M) : Prop :=
  ∀ a b c d, nodeMsg a b = nodeMsg c d → a = c ∧ b = d

/-- Two parents with one digest have the same children, or their messages collide. -/
theorem children_eq_or_collision (hinj : NodeInjective nodeMsg) {c d : D}
    (h : nodeHash H nodeMsg a b = nodeHash H nodeMsg c d) :
    a = c ∧ b = d ∨ Collision H [nodeMsg a b, nodeMsg c d] := by
  have hmsg : H (nodeMsg a b) = H (nodeMsg c d) := h
  rcases eq_or_collision hmsg with heq | hc
  · exact .inl (hinj a b c d heq)
  · exact .inr hc

end Messages

variable {V M D : Type} {H : M → D} {leafMsg : V → M} {nodeMsg : D → D → M} {e : D} {vs ws : List V}

section

variable (h : 2 ≤ vs.length)
include h

theorem treeRoot_sides : treeRoot H leafMsg nodeMsg e vs =
    nodeHash H nodeMsg (treeRoot H leafMsg nodeMsg e (vs.take (splitWidth vs.length)))
      (treeRoot H leafMsg nodeMsg e (vs.drop (splitWidth vs.length))) := by
  match vs, h with
  | a :: b :: l, _ => exact treeRoot_split

theorem treeMessages_sides : treeMessages H leafMsg nodeMsg e vs =
    nodeMsg (treeRoot H leafMsg nodeMsg e (vs.take (splitWidth vs.length)))
        (treeRoot H leafMsg nodeMsg e (vs.drop (splitWidth vs.length))) ::
      (treeMessages H leafMsg nodeMsg e (vs.take (splitWidth vs.length)) ++
        treeMessages H leafMsg nodeMsg e (vs.drop (splitWidth vs.length))) := by
  match vs, h with
  | a :: b :: l, _ => rw [treeMessages, length_cons, length_cons]

theorem treeMessages_take_subset :
    treeMessages H leafMsg nodeMsg e (vs.take (splitWidth vs.length)) ⊆
      treeMessages H leafMsg nodeMsg e vs := by
  intro m hm
  rw [treeMessages_sides h]
  exact mem_cons_of_mem _ (mem_append_left _ hm)

theorem treeMessages_drop_subset :
    treeMessages H leafMsg nodeMsg e (vs.drop (splitWidth vs.length)) ⊆
      treeMessages H leafMsg nodeMsg e vs := by
  intro m hm
  rw [treeMessages_sides h]
  exact mem_cons_of_mem _ (mem_append_right _ hm)

theorem mem_treeMessages_root :
    nodeMsg (treeRoot H leafMsg nodeMsg e (vs.take (splitWidth vs.length)))
      (treeRoot H leafMsg nodeMsg e (vs.drop (splitWidth vs.length))) ∈
        treeMessages H leafMsg nodeMsg e vs := by
  rw [treeMessages_sides h]
  exact mem_cons_self

end

theorem splitWidth_pow (k : ℕ) : splitWidth (2 ^ (k + 1)) = 2 ^ k :=
  splitWidth_eq (Nat.pow_lt_pow_succ (by decide)) le_rfl

theorem treeMessages_pow_subset {i j : ℕ} (hij : i ≤ j) (h : 2 ^ j ≤ vs.length) :
    treeMessages H leafMsg nodeMsg e (vs.take (2 ^ i)) ⊆
      treeMessages H leafMsg nodeMsg e (vs.take (2 ^ j)) := by
  induction j, hij using Nat.le_induction with
  | base => exact List.Subset.refl _
  | succ j hij ih =>
    have hlt : 2 ^ j < 2 ^ (j + 1) := Nat.pow_lt_pow_succ (by decide)
    have hlen : (vs.take (2 ^ (j + 1))).length = 2 ^ (j + 1) := length_take_of_le h
    have hsplit : vs.take (2 ^ j) =
        (vs.take (2 ^ (j + 1))).take (splitWidth (vs.take (2 ^ (j + 1))).length) := by
      rw [hlen, splitWidth_pow, take_take, min_eq_left hlt.le]
    refine List.Subset.trans (ih (by omega)) ?_
    rw [hsplit]
    exact treeMessages_take_subset (by omega)

/-- Two full trees of different heights have different roots, or two of their messages collide. -/
theorem full_roots_collision (hs : Separated leafMsg nodeMsg) {a b : ℕ} (hab : a < b)
    (hv : vs.length = 2 ^ a) (hw : ws.length = 2 ^ b)
    (h : treeRoot H leafMsg nodeMsg e vs = treeRoot H leafMsg nodeMsg e ws) :
    Collision H (treeMessages H leafMsg nodeMsg e vs ++ treeMessages H leafMsg nodeMsg e ws) := by
  induction a generalizing b vs ws with
  | zero =>
    obtain ⟨v, rfl⟩ := length_eq_one_iff.mp hv
    have hlen : 2 ≤ ws.length := by
      rw [hw]
      exact (Nat.pow_le_pow_right (by decide) hab : 2 ^ 1 ≤ 2 ^ b)
    have hleaf : treeRoot H leafMsg nodeMsg e [v] = H (leafMsg v) := by
      rw [treeRoot, map_singleton, root]
    rw [hleaf, treeRoot_sides hlen] at h
    refine ⟨leafMsg v, ?_, _, mem_append_right _ (mem_treeMessages_root hlen),
      hs.leaf_ne_node _ _ _, h⟩
    rw [treeMessages]
    exact mem_append_left _ mem_cons_self
  | succ a ih =>
    obtain ⟨b, rfl⟩ : ∃ c, b = c + 1 := ⟨b - 1, by omega⟩
    have hvlen : 2 ≤ vs.length := by
      rw [hv, pow_succ]
      have := Nat.two_pow_pos a
      omega
    have hwlen : 2 ≤ ws.length := by
      rw [hw, pow_succ]
      have := Nat.two_pow_pos b
      omega
    rw [treeRoot_sides hvlen, treeRoot_sides hwlen] at h
    rcases children_eq_or_collision (fun _ _ _ _ heq => hs.node_inj heq) h with ⟨hleft, -⟩ | hcol
    · have hvw : splitWidth vs.length = 2 ^ a := by rw [hv, splitWidth_pow]
      have hww : splitWidth ws.length = 2 ^ b := by rw [hw, splitWidth_pow]
      have hcol := ih (Nat.lt_of_succ_lt_succ hab)
        (by rw [length_take, hvw, hv, pow_succ]; omega)
        (by rw [length_take, hww, hw, pow_succ]; omega) hleft
      refine hcol.mono (append_subset.mpr ⟨?_, ?_⟩)
      · exact List.Subset.trans (treeMessages_take_subset hvlen) (subset_append_left _ _)
      · exact List.Subset.trans (treeMessages_take_subset hwlen) (subset_append_right _ _)
    · refine hcol.mono (cons_subset.mpr ⟨?_, cons_subset.mpr ⟨?_, nil_subset _⟩⟩)
      · exact mem_append_left _ (mem_treeMessages_root hvlen)
      · exact mem_append_right _ (mem_treeMessages_root hwlen)

end Poly.Lib.MerkleTree
