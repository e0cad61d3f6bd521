import Poly.Store.SkipList

/-! What the arrays of a skip list stand for, and what its searches find. -/
namespace Poly.Overlaydb

open Lib List Nat

/-- A node with what is stored for it. -/
structure Cell where
  pos : ℕ
  height : ℕ
  key : Bytes
  value : Bytes

namespace Cell

/-- The node that every level starts from. -/
def head : Cell := ⟨0, tMaxHeight, [], []⟩

def entry (c : Cell) : Bytes × Bytes := (c.key, c.value)

/-- The end of the node's part of the array. -/
def stop (c : Cell) : ℕ := c.pos + nNext + c.height

/-- Parts of the array that do not meet. -/
def Apart (a b : Cell) : Prop := a.stop ≤ b.pos ∨ b.stop ≤ a.pos

instance : Std.Symm Apart := ⟨fun _ _ => Or.symm⟩

end Cell

/-- The positions of the cells on a level. -/
def level (h : ℕ) (cells : List Cell) : List ℕ :=
  (cells.filter fun c => h < c.height).map Cell.pos

/-- The first cell on a level, or the head at its end. -/
def levelNext (h : ℕ) (cells : List Cell) : ℕ := (level h cells).head?.getD 0

/-- The last cell on a level, or the head at its start. -/
def levelPred (h : ℕ) (cells : List Cell) : ℕ := (level h cells).getLastD 0

/-- A key and a value one after the other in the buffer. -/
def Stored (kvData : Bytes) (o : ℕ) (key value : Bytes) : Prop :=
  ∃ before after, kvData = before ++ (key ++ (value ++ after)) ∧ before.length = o

/-- The fields of a node are those of the cell. -/
def CellAt (kvData : Bytes) (nodeData : List ℕ) (c : Cell) : Prop :=
  ∃ o, nodeData[c.pos]? = some o ∧ nodeData[c.pos + nKey]? = some c.key.length ∧
    nodeData[c.pos + nVal]? = some c.value.length ∧ Stored kvData o c.key c.value

/-- The arrays hold exactly these cells, in key order, and every level links those that are high
enough. -/
structure MemDB.Rep (p : MemDB) (cells : List Cell) : Prop where
  cellAt : ∀ c ∈ cells, CellAt p.kvData p.nodeData c
  height : ∀ c ∈ cells, 1 ≤ c.height ∧ c.height ≤ p.maxHeight
  maxHeight : 1 ≤ p.maxHeight ∧ p.maxHeight ≤ tMaxHeight
  sorted : cells.Pairwise fun a b => a.key < b.key
  fits : ∀ c ∈ Cell.head :: cells, c.stop ≤ p.nodeData.length
  apart : (Cell.head :: cells).Pairwise Cell.Apart
  linked : ∀ h < tMaxHeight,
    Linked (fun x => p.nodeData[x + nNext + h]?) 0 0 (level h cells)
  prevNode : p.prevNode.length = tMaxHeight
  length_lt : tMaxHeight + cells.length < p.nodeData.length
  n_eq : p.n = cells.length
  kvSize_eq : p.kvSize = (cells.map fun c => (c.key.length + c.value.length : ℤ)).sum

section Levels

variable {h : ℕ} {s s₁ s₂ : List Cell} {c : Cell}

theorem level_append : level h (s₁ ++ s₂) = level h s₁ ++ level h s₂ := by
  rw [level, filter_append, map_append]
  rfl

theorem level_cons_of_lt (hc : h < c.height) : level h (c :: s) = c.pos :: level h s := by
  rw [level, filter_cons_of_pos (by simpa using hc)]
  rfl

theorem level_cons_of_le (hc : c.height ≤ h) : level h (c :: s) = level h s := by
  rw [level, filter_cons_of_neg (by simpa using hc)]
  rfl

theorem mem_level {x : ℕ} : x ∈ level h s ↔ ∃ c ∈ s, h < c.height ∧ c.pos = x := by
  simp [level, and_assoc]

theorem level_head_cons (hh : h < tMaxHeight) : level h (Cell.head :: s) = 0 :: level h s :=
  level_cons_of_lt hh

/-- Along a level one either meets another cell of `s`, or goes past all of it. -/
theorem level_cases (h : ℕ) (s : List Cell) :
    (∃ s₁ y s₂, s = s₁ ++ y :: s₂ ∧ h < y.height ∧
      ∀ hi, levelNext h (s ++ hi) = y.pos) ∨
    (level h s = [] ∧ ∀ hi, levelNext h (s ++ hi) = levelNext h hi) := by
  induction s with
  | nil => exact .inr ⟨rfl, fun _ => rfl⟩
  | cons c s ih =>
    by_cases hc : h < c.height
    · refine .inl ⟨[], c, s, rfl, hc, fun hi => ?_⟩
      rw [levelNext, cons_append, level_cons_of_lt hc]
      rfl
    · have hle := not_lt.mp hc
      have hnext (hi : List Cell) : levelNext h (c :: s ++ hi) = levelNext h (s ++ hi) := by
        rw [levelNext, cons_append, level_cons_of_le hle]
        rfl
      rcases ih with ⟨s₁, y, s₂, rfl, hy, hmeet⟩ | ⟨hnone, hpast⟩
      · exact .inl ⟨c :: s₁, y, s₂, rfl, hy, fun hi => (hnext hi).trans (hmeet hi)⟩
      · exact .inr ⟨(level_cons_of_le hle).trans hnone, fun hi => (hnext hi).trans (hpast hi)⟩

theorem getLastD_of_cons_eq {α : Type} {a b : α} {l l₁} (h : a :: l = l₁ ++ [b]) :
    l.getLastD a = b := by
  have hlast : (a :: l).getLast (cons_ne_nil a l) = b := by
    simp [h]
  rw [← hlast, getLast_eq_getLastD]

theorem levelPred_eq {lo} (hsplit : Cell.head :: lo = s₁ ++ c :: s) (hh : h < tMaxHeight)
    (hc : h < c.height) (hs : level h s = []) : levelPred h lo = c.pos := by
  have hlevel := congrArg (level h) hsplit
  rw [level_head_cons hh, level_append, level_cons_of_lt hc, hs] at hlevel
  exact getLastD_of_cons_eq hlevel

theorem exists_levelPred (lo : List Cell) (hh : h < tMaxHeight) :
    ∃ c ∈ Cell.head :: lo, h < c.height ∧ c.pos = levelPred h lo := by
  have hmem : levelPred h lo ∈ level h (Cell.head :: lo) := by
    rw [level_head_cons hh, levelPred]
    cases hl : level h lo with
    | nil => exact mem_cons_self
    | cons x l =>
      rw [getLastD_eq_getLast?]
      exact mem_cons_of_mem 0 (getLast_mem _)
  exact mem_level.mp hmem

end Levels

section Buffers

variable {kvData more : Bytes} {o : ℕ} {key value : Bytes}

theorem goSlice_append {α : Type} (a b c : List α) :
    goSlice (a ++ (b ++ c)) a.length (a.length + b.length) = .ok b := by
  rw [goSlice, if_pos ⟨by omega, by simp only [length_append]; omega⟩]
  have htake : (a ++ (b ++ c)).take (a.length + b.length) = a ++ b := by
    rw [← append_assoc, ← length_append, take_left]
  rw [htake, drop_left]

section

variable (h : Stored kvData o key value)
include h

theorem Stored.key_eq :
    goSlice kvData o (o + key.length) = .ok key := by
  obtain ⟨before, after, rfl, rfl⟩ := h
  exact goSlice_append before key (value ++ after)

theorem Stored.value_eq :
    goSlice kvData (o + key.length) (o + key.length + value.length) = .ok value := by
  obtain ⟨before, after, rfl, rfl⟩ := h
  have hslice := goSlice_append (before ++ key) value after
  rwa [length_append, append_assoc] at hslice

theorem Stored.append : Stored (kvData ++ more) o key value := by
  obtain ⟨before, after, rfl, rfl⟩ := h
  exact ⟨before, after ++ more, by simp only [append_assoc], rfl⟩

theorem Stored.delete : Stored kvData o key [] := by
  obtain ⟨before, after, rfl, rfl⟩ := h
  exact ⟨before, value ++ after, rfl, rfl⟩

end

theorem stored_new (kvData key value : Bytes) :
    Stored (kvData ++ key ++ value) kvData.length key value :=
  ⟨kvData, [], by simp only [append_assoc, append_nil], rfl⟩

variable {p : MemDB} {c : Cell}

theorem CellAt.nodeKey_eq (h : CellAt p.kvData p.nodeData c) : p.nodeKey c.pos = .ok c.key := by
  obtain ⟨o, ho, hkey, -, hstored⟩ := h
  refine bind_ok.mpr ⟨o, goIndex_ok.mpr ho, bind_ok.mpr ⟨_, goIndex_ok.mpr hkey, ?_⟩⟩
  exact hstored.key_eq

theorem CellAt.nodeEntry_eq (h : CellAt p.kvData p.nodeData c) :
    p.nodeEntry c.pos = .ok c.entry := by
  obtain ⟨o, ho, hkey, hval, hstored⟩ := h
  refine bind_ok.mpr ⟨o, goIndex_ok.mpr ho, bind_ok.mpr ⟨_, goIndex_ok.mpr hkey, ?_⟩⟩
  refine bind_ok.mpr ⟨_, hstored.key_eq, bind_ok.mpr ⟨_, goIndex_ok.mpr hval, ?_⟩⟩
  exact bind_ok.mpr ⟨_, hstored.value_eq, rfl⟩

end Buffers

namespace MemDB.Rep

variable {p : MemDB} {cells lo hi s l : List Cell} {c : Cell} {h : ℕ} {key : Bytes}

section

variable (hrep : p.Rep cells)
include hrep

theorem height_le (hc : c ∈ Cell.head :: cells) : c.height ≤ tMaxHeight := by
  rcases mem_cons.mp hc with rfl | hc
  · exact le_rfl
  · exact (hrep.height c hc).2.trans hrep.maxHeight.2

theorem pos_ne_zero (hc : c ∈ cells) : c.pos ≠ 0 := by
  have hapart := (pairwise_cons.mp hrep.apart).1 c hc
  intro hzero
  rcases hapart with hle | hle
  · rw [Cell.stop, nNext] at hle
    omega
  · rw [Cell.stop, Cell.head, nNext] at hle
    simp only at hle
    omega

/-- Two fields of nodes that lie at one place are the same field of the same node. -/
theorem index_inj {a b} (ha : a ∈ Cell.head :: cells) (hb : b ∈ Cell.head :: cells) {i j}
    (hi : i < nNext + a.height) (hj : j < nNext + b.height) (hij : a.pos + i = b.pos + j) :
    a = b ∧ i = j := by
  by_cases hab : a = b
  · subst hab
    exact ⟨rfl, add_left_cancel hij⟩
  · have hapart := hrep.apart.forall ha hb hab
    rcases hapart with hle | hle <;> rw [Cell.stop] at hle <;> omega

theorem lt_tMaxHeight (hsplit : Cell.head :: cells = l ++ c :: s) (hc : h < c.height) :
    h < tMaxHeight :=
  hc.trans_le (hrep.height_le (hsplit ▸ mem_append_right _ mem_cons_self))

theorem next_eq (hsplit : Cell.head :: cells = l ++ c :: s)
    (hc : h < c.height) : p.nodeData[c.pos + nNext + h]? = some (levelNext h s) := by
  have hh := hrep.lt_tMaxHeight hsplit hc
  have hlevel := congrArg (level h) hsplit
  rw [level_head_cons hh, level_append, level_cons_of_lt hc] at hlevel
  exact ((hrep.linked h hh).suffix hlevel).next_eq

theorem levelNext_zero (hs : ∀ c ∈ s, c ∈ cells) :
    levelNext 0 s = (s.head?.map Cell.pos).getD 0 := by
  cases s with
  | nil => rfl
  | cons c s =>
    rw [levelNext, level_cons_of_lt (hrep.height c (hs c mem_cons_self)).1]
    rfl

theorem levelPred_zero (hs : ∀ c ∈ s, c ∈ cells) :
    levelPred 0 s = (s.getLast?.map Cell.pos).getD 0 := by
  have hlevel : level 0 s = s.map Cell.pos :=
    congrArg (List.map Cell.pos) (filter_eq_self.mpr fun c hc =>
      decide_eq_true (hrep.height c (hs c hc)).1)
  rw [levelPred, hlevel, getLastD_eq_getLast?, getLast?_map]

end

theorem split_append {x} (hsplit : x :: lo = l ++ c :: s) :
    x :: (lo ++ hi) = l ++ c :: (s ++ hi) := by
  rw [← cons_append, hsplit, append_assoc, cons_append]

/-- What a search sees next from a cell before the place it looks for. -/
theorem search_cases (hrep : p.Rep (lo ++ hi)) (hsplit : Cell.head :: lo = l ++ c :: s)
    (hc : h < c.height) :
    (∃ l' y s', Cell.head :: lo = l' ++ y :: s' ∧ s'.length < s.length ∧ y ∈ lo ∧ h < y.height ∧
      p.nodeData[c.pos + nNext + h]? = some y.pos) ∨
    (level h s = [] ∧ p.nodeData[c.pos + nNext + h]? = some (levelNext h hi)) := by
  have hnext := hrep.next_eq (split_append hsplit) hc
  rcases level_cases h s with ⟨s₁, y, s₂, rfl, hy, hmeet⟩ | ⟨hnone, hpast⟩
  · refine .inl ⟨l ++ c :: s₁, y, s₂, ?_, ?_, ?_, hy, by rw [hnext, hmeet]⟩
    · rw [hsplit, append_assoc, cons_append]
    · rw [length_append, length_cons]
      omega
    have htail : l.tail ++ c :: (s₁ ++ y :: s₂) = lo ∨ s₁ ++ y :: s₂ = lo := by
      cases l with
      | nil => exact .inr (List.cons.inj hsplit).2.symm
      | cons d l => exact .inl (List.cons.inj hsplit).2.symm
    rcases htail with rfl | rfl <;> simp
  · exact .inr ⟨hnone, by rw [hnext, hpast]⟩

theorem levelNext_cases (hrep : p.Rep (lo ++ hi)) (h : ℕ) :
    levelNext h hi = 0 ∧ level h hi = [] ∨
      ∃ y ∈ hi, h < y.height ∧ levelNext h hi = y.pos ∧ y.pos ≠ 0 := by
  rcases level_cases h hi with ⟨s₁, y, s₂, rfl, hy, hmeet⟩ | ⟨hnone, -⟩
  · have hmem : y ∈ s₁ ++ y :: s₂ := mem_append_right _ mem_cons_self
    have hnext := hmeet []
    rw [append_nil] at hnext
    exact .inr ⟨y, hmem, hy, hnext, hrep.pos_ne_zero (mem_append_right _ hmem)⟩
  · exact .inl ⟨by rw [levelNext, hnone]; rfl, hnone⟩

/-- The first cell that is not below a key has the key if any has. -/
theorem head?_of_key_eq (hrep : p.Rep (lo ++ hi)) (hhi : ∀ c ∈ hi, key ≤ c.key) {y} (hy : y ∈ hi)
    (hkey : y.key = key) : hi.head? = some y := by
  have hsorted := (pairwise_append.mp hrep.sorted).2.1
  cases hi with
  | nil => exact absurd hy not_mem_nil
  | cons d hi =>
    rcases mem_cons.mp hy with rfl | hy
    · rfl
    · have hlt := (pairwise_cons.mp hsorted).1 y hy
      have hle := hhi d mem_cons_self
      rw [hkey] at hlt
      exact absurd hlt (not_lt.mpr hle)

theorem compareNode_eq (hrep : p.Rep cells) (key : Bytes) (hc : c ∈ cells) :
    p.compareNode key c.pos = .ok (compareBytes c.key key) := by
  rw [compareNode, if_pos (hrep.pos_ne_zero hc), (hrep.cellAt c hc).nodeKey_eq]
  rfl

section FindGE

variable (hrep : p.Rep (lo ++ hi)) (hlo : ∀ c ∈ lo, c.key < key) (hhi : ∀ c ∈ hi, key ≤ c.key)

include hrep hlo hhi

omit hlo in
/-- Beyond the place that is looked for no cell is below the key, and one with the key is the first
of all. -/
theorem compareNode_hi (h : ℕ) : ∃ o, p.compareNode key (levelNext h hi) = .ok o ∧ o ≠ .lt ∧
    (o = .eq → levelNext h hi = levelNext 0 hi ∧ hi.head?.map Cell.key = some key) ∧
    (h = 0 → hi.head?.map Cell.key = some key → o = .eq) := by
  have hsub : ∀ c ∈ hi, c ∈ lo ++ hi := fun c hc => mem_append_right lo hc
  rcases hrep.levelNext_cases h with ⟨hzero, hnone⟩ | ⟨y, hy, hh, hnext, hne⟩
  · rw [hzero]
    refine ⟨.gt, rfl, by decide, (by intro he; cases he), ?_⟩
    rintro rfl hkey
    -- on the lowest level there is no cell only if there is none at all
    cases hi with
    | nil => cases hkey
    | cons d hi =>
      rw [level_cons_of_lt (hrep.height d (hsub d mem_cons_self)).1] at hnone
      cases hnone
  · rw [hnext, hrep.compareNode_eq key (hsub y hy)]
    refine ⟨_, rfl, fun he => ?_, fun he => ?_, ?_⟩
    · exact absurd (compareBytes_eq_lt.mp he) (not_lt.mpr (hhi y hy))
    · have hkey := compareBytes_eq_eq.mp he
      have hfirst := hrep.head?_of_key_eq hhi hy hkey
      rw [hrep.levelNext_zero hsub, hfirst, Option.map_some, Option.map_some, hkey]
      exact ⟨rfl, rfl⟩
    · rintro rfl hkey
      obtain ⟨d, hd, hdkey⟩ := Option.map_eq_some_iff.mp hkey
      have hfirst := hrep.levelNext_zero hsub
      rw [hd, hnext] at hfirst
      have hdmem : d ∈ hi := mem_of_head? hd
      -- both are at the place of the first node
      have hsame := (hrep.index_inj (mem_cons_of_mem _ (hsub y hy))
        (mem_cons_of_mem _ (hsub d hdmem)) (i := 0) (j := 0) (by rw [nNext]; omega)
        (by rw [nNext]; omega) hfirst).1
      exact compareBytes_eq_eq.mpr (hsame ▸ hdkey)

/-- The search ends at the first cell that is not below the key and, where it was asked to, has
noted the last cell before it on every level. -/
theorem findGELoop_eq (prev : Bool) {fuel prevNode} (hsplit : Cell.head :: lo = l ++ c :: s)
    (hc : h < c.height) (hfuel : h + s.length < fuel) (hprev : prevNode.length = tMaxHeight) :
    ∃ prevNode', findGELoop p key prev fuel c.pos h prevNode =
        .ok (levelNext 0 hi, decide (hi.head?.map Cell.key = some key), prevNode') ∧
      prevNode'.length = tMaxHeight ∧
      (prev = true → ∀ i ≤ h, prevNode'[i]? = some (levelPred i lo)) ∧
      ∀ i > h, prevNode'[i]? = prevNode[i]? := by
  induction fuel generalizing l c s h prevNode with
  | zero => exact absurd hfuel (not_lt_zero _)
  | succ fuel ih =>
    have hh := hrep.lt_tMaxHeight (split_append hsplit) hc
    rw [findGELoop]
    rcases hrep.search_cases hsplit hc with ⟨l', y, s', hstep, hless, hy, hyh, hnext⟩ | ⟨hnone, hnext⟩
    · -- a cell below the key: the search goes on from it
      have hcmp := hrep.compareNode_eq key (mem_append_left hi hy)
      rw [goIndex_ok.mpr hnext, ok_bind, hcmp, ok_bind, if_pos (compareBytes_eq_lt.mpr (hlo y hy))]
      exact ih hstep hyh (by omega) hprev
    · obtain ⟨o, hcmp, hlt, heq, hexact⟩ := hrep.compareNode_hi hhi h
      rw [goIndex_ok.mpr hnext, ok_bind, hcmp, ok_bind, if_neg hlt]
      by_cases hfound : prev = false ∧ o = .eq
      · obtain ⟨hnext0, hkey⟩ := heq hfound.2
        rw [if_pos hfound, hnext0, decide_eq_true hkey]
        refine ⟨prevNode, rfl, hprev, fun htrue => ?_, fun _ _ => rfl⟩
        rw [hfound.1] at htrue
        cases htrue
      · rw [if_neg hfound]
        -- the step down, with the node noted where that was asked for
        obtain ⟨noted, hnoted, hlen, hat, hother⟩ : ∃ noted,
            notePrev prev prevNode h c.pos = .ok noted ∧
            noted.length = tMaxHeight ∧
            (prev = true → noted[h]? = some (levelPred h lo)) ∧
            ∀ i > h, noted[i]? = prevNode[i]? := by
          cases prev with
          | false => exact ⟨prevNode, rfl, hprev, (by intro htrue; cases htrue), fun _ _ => rfl⟩
          | true =>
            refine ⟨prevNode.set h c.pos, ?_, ?_, fun _ => ?_, fun i hi => ?_⟩
            · rw [notePrev, if_pos rfl, goSet, if_pos (by omega)]
            · rw [length_set, hprev]
            · rw [getElem?_set_self (by omega), levelPred_eq hsplit hh hc hnone]
            · rw [getElem?_set_ne (by omega)]
        rw [hnoted, ok_bind]
        cases h with
        | zero =>
          have hbool : (o == .eq) = decide (hi.head?.map Cell.key = some key) := by
            rw [Bool.eq_iff_iff, beq_iff_eq, decide_eq_true_eq]
            exact ⟨fun he => (heq he).2, hexact rfl⟩
          refine ⟨noted, by rw [← hbool]; rfl, hlen, fun htrue i hi => ?_, hother⟩
          cases le_zero.mp hi
          exact hat htrue
        | succ h =>
          obtain ⟨prevNode', hrun, hlen', hlow, hhigh⟩ := ih hsplit
            (lt_of_succ_lt hc) (by omega) hlen
          refine ⟨prevNode', hrun, hlen', fun htrue i hi => ?_, fun i hi => ?_⟩
          · rcases lt_or_ge h i with hlt | hle
            · obtain rfl : i = h + 1 := by omega
              rw [hhigh _ hlt]
              exact hat htrue
            · exact hlow htrue i hle
          · rw [hhigh i (by omega), hother i hi]

theorem findGE_eq (prev : Bool) : ∃ prevNode', p.findGE key prev =
      .ok (levelNext 0 hi, decide (hi.head?.map Cell.key = some key), prevNode') ∧
    prevNode'.length = tMaxHeight ∧
    (prev = true → ∀ i < p.maxHeight, prevNode'[i]? = some (levelPred i lo)) := by
  obtain ⟨hpos, hmax⟩ := hrep.maxHeight
  have hlength := hrep.length_lt
  rw [length_append] at hlength
  obtain ⟨prevNode', hrun, hlen, hlow, -⟩ := hrep.findGELoop_eq hlo hhi prev
    (l := []) (c := Cell.head) rfl (show p.maxHeight - 1 < tMaxHeight by omega)
    (show p.maxHeight - 1 + lo.length < p.nodeData.length by omega) hrep.prevNode
  exact ⟨prevNode', hrun, hlen, fun htrue i hi => hlow htrue i (by omega)⟩

theorem findLTLoop_eq {fuel : ℕ} (hsplit : Cell.head :: lo = l ++ c :: s) (hc : h < c.height)
    (hfuel : h + s.length < fuel) : findLTLoop p key fuel c.pos h = .ok (levelPred 0 lo) := by
  induction fuel generalizing l c s h with
  | zero => exact absurd hfuel (not_lt_zero _)
  | succ fuel ih =>
    have hh := hrep.lt_tMaxHeight (split_append hsplit) hc
    rw [findLTLoop]
    rcases hrep.search_cases hsplit hc with ⟨l', y, s', hstep, hless, hy, hyh, hnext⟩ | ⟨hnone, hnext⟩
    · have hmem' := mem_append_left hi hy
      have hcmp := hrep.compareNode_eq key hmem'
      obtain ⟨o, ho, -⟩ := hrep.cellAt y hmem'
      rw [goIndex_ok.mpr hnext, ok_bind, goIndex_ok.mpr ho, ok_bind, hcmp, ok_bind,
        if_neg (not_not.mpr (compareBytes_eq_lt.mpr (hlo y hy)))]
      exact ih hstep hyh (by omega)
    · obtain ⟨o, hcmp, hlt, -, -⟩ := hrep.compareNode_hi hhi h
      obtain ⟨x, hx⟩ : ∃ x, p.nodeData[levelNext h hi]? = some x := by
        rcases hrep.levelNext_cases h with ⟨hzero, -⟩ | ⟨y, hy, -, hy', -⟩
        · rw [hzero]
          exact ⟨_, getElem?_eq_getElem (lt_of_le_of_lt (zero_le _) hrep.length_lt)⟩
        · obtain ⟨x, hx, -⟩ := hrep.cellAt y (mem_append_right lo hy)
          exact ⟨x, hy' ▸ hx⟩
      rw [goIndex_ok.mpr hnext, ok_bind, goIndex_ok.mpr hx, ok_bind, hcmp, ok_bind,
        if_pos hlt]
      cases h with
      | zero =>
        rw [if_pos rfl, levelPred_eq hsplit hh hc hnone]
        rfl
      | succ h =>
        rw [if_neg (succ_ne_zero h)]
        exact ih hsplit (lt_of_succ_lt hc) (by omega)

theorem findLT_eq : p.findLT key = .ok (levelPred 0 lo) := by
  obtain ⟨hpos, hmax⟩ := hrep.maxHeight
  have hlength := hrep.length_lt
  rw [length_append] at hlength
  exact hrep.findLTLoop_eq hlo hhi (l := []) (c := Cell.head) rfl
    (show p.maxHeight - 1 < tMaxHeight by omega) (by omega)

end FindGE

theorem findLastLoop_eq (hrep : p.Rep cells) {fuel : ℕ}
    (hsplit : Cell.head :: cells = l ++ c :: s) (hc : h < c.height)
    (hfuel : h + s.length < fuel) : findLastLoop p fuel c.pos h = .ok (levelPred 0 cells) := by
  have hrep' : p.Rep (cells ++ []) := by rwa [append_nil]
  induction fuel generalizing l c s h with
  | zero => exact absurd hfuel (not_lt_zero _)
  | succ fuel ih =>
    have hh := hrep.lt_tMaxHeight hsplit hc
    rw [findLastLoop]
    rcases hrep'.search_cases hsplit hc with ⟨l', y, s', hstep, hless, hy, hyh, hnext⟩ | ⟨hnone, hnext⟩
    · rw [goIndex_ok.mpr hnext, ok_bind, if_neg (hrep.pos_ne_zero hy)]
      exact ih hstep hyh (by omega)
    · rw [goIndex_ok.mpr hnext, ok_bind]
      cases h with
      | zero =>
        rw [levelPred_eq hsplit hh hc hnone]
        rfl
      | succ h =>
        exact ih hsplit (lt_of_succ_lt hc) (by omega)

theorem findLast_eq (hrep : p.Rep cells) : p.findLast = .ok (levelPred 0 cells) := by
  obtain ⟨hpos, hmax⟩ := hrep.maxHeight
  have hlength := hrep.length_lt
  exact hrep.findLastLoop_eq (l := []) (c := Cell.head) rfl
    (show p.maxHeight - 1 < tMaxHeight by omega) (by omega)

end MemDB.Rep

end Poly.Overlaydb
