import Poly.Store.SkipSearch

/-! Writing to the skip list: it stays the representation of a map, with the written key changed. -/
namespace Poly.Overlaydb

open Lib List Option

theorem randHeight_bounds (rnd : ℕ → ℕ) {h : ℕ} (hh : h ≤ tMaxHeight) :
    h ≤ (randHeight rnd h).1 ∧ (randHeight rnd h).1 ≤ tMaxHeight := by
  fun_induction randHeight rnd h with
  | case1 rnd h hlt hzero ih =>
    obtain ⟨hlow, hhigh⟩ := ih hlt
    exact ⟨Nat.le_of_succ_le hlow, hhigh⟩
  | case2 rnd h hlt hzero => exact ⟨le_rfl, hh⟩
  | case3 rnd h hge => exact ⟨le_rfl, hh⟩

theorem goSet_ok {α : Type} {l i} (h : i < l.length) (a : α) :
    goSet l i a = .ok (l.set i a) := if_pos h

/-- The places of the links that lead to a new node. -/
def linkPlaces (i : ℕ) (ns : List ℕ) : List ℕ := ns.mapIdx fun j n => n + nNext + (i + j)

theorem linkPlaces_cons (i n : ℕ) (ns : List ℕ) :
    linkPlaces i (n :: ns) = (n + nNext + i) :: linkPlaces (i + 1) ns := by
  rw [linkPlaces, mapIdx_cons]
  refine congrArg₂ List.cons rfl (congrArg ns.mapIdx ?_)
  funext j n
  omega

/-- Linking a node in: the old links move to its end of the array, and lead to it themselves. -/
theorem linkLoop_eq (node : ℕ) (nodeData : List ℕ) {i ns}
    (hplace : ∀ m ∈ linkPlaces i ns, m < nodeData.length) (hnodup : (linkPlaces i ns).Nodup) :
    ∃ out, MemDB.linkLoop node i ns nodeData = .ok out ∧
      out.length = nodeData.length + ns.length ∧
      (∀ j m, (linkPlaces i ns)[j]? = some m →
        out[m]? = some node ∧ out[nodeData.length + j]? = nodeData[m]?) ∧
      ∀ x < nodeData.length, x ∉ linkPlaces i ns → out[x]? = nodeData[x]? := by
  induction ns generalizing i nodeData with
  | nil => exact ⟨nodeData, rfl, rfl, by simp [linkPlaces], fun _ _ _ => rfl⟩
  | cons n ns ih =>
    rw [linkPlaces_cons] at hplace hnodup ⊢
    obtain ⟨hm, hplaces⟩ := forall_mem_cons.mp hplace
    obtain ⟨hnew, hnodup⟩ := nodup_cons.mp hnodup
    have hlt : n + nNext + i < (nodeData ++ [nodeData[n + nNext + i]]).length := by
      rw [length_append]
      omega
    obtain ⟨out, hrun, hlength, hlinks, hothers⟩ := ih
      ((nodeData ++ [nodeData[n + nNext + i]]).set (n + nNext + i) node) (i := i + 1)
      (fun m hmem => by
        rw [length_set, length_append]
        exact Nat.lt_add_right _ (hplaces m hmem)) hnodup
    rw [length_set, length_append, length_singleton] at hlength hlinks hothers
    refine ⟨out, ?_, ?_, ?_, ?_⟩
    · rw [MemDB.linkLoop, goIndex_ok.mpr (getElem?_eq_getElem hm), ok_bind,
        goSet_ok hlt]
      exact hrun
    · rw [length_cons]
      omega
    · intro j m hj
      cases j with
      | zero =>
        cases hj
        constructor
        · rw [hothers _ (by omega) hnew, getElem?_set_self hlt]
        · have hend : nodeData.length ∉ linkPlaces (i + 1) ns :=
            fun hmem => absurd (hplaces _ hmem) (lt_irrefl _)
          rw [Nat.add_zero, hothers _ (by omega) hend, getElem?_set_ne (by omega),
            getElem?_concat_length, getElem?_eq_getElem hm]
      | succ j =>
        rw [getElem?_cons_succ] at hj
        have hmem := mem_of_getElem? hj
        obtain ⟨hlink, hold⟩ := hlinks j m hj
        refine ⟨hlink, ?_⟩
        have hne : n + nNext + i ≠ m := fun he => hnew (he ▸ hmem)
        rw [show nodeData.length + (j + 1) = nodeData.length + 1 + j by omega, hold,
          getElem?_set_ne hne, getElem?_append_left (hplaces m hmem)]
    · intro x hx hmem
      have hne : n + nNext + i ≠ x := fun he => hmem (he ▸ mem_cons_self)
      have hrest : x ∉ linkPlaces (i + 1) ns := fun h => hmem (mem_cons_of_mem _ h)
      rw [hothers x (by omega) hrest, getElem?_set_ne hne,
        getElem?_append_left hx]

namespace MemDB.Rep

variable {p : MemDB} {cells lo hi : List Cell} {key value : Bytes}

theorem stop_le (hrep : p.Rep cells) {c} (hc : c ∈ Cell.head :: cells) {i}
    (hi : i < nNext + c.height) : c.pos + i < p.nodeData.length := by
  have hfits := hrep.fits c hc
  rw [Cell.stop] at hfits
  omega

theorem level_nodup (hrep : p.Rep cells) {h : ℕ} (hh : h < tMaxHeight) :
    (0 :: level h cells).Nodup := by
  rw [← level_head_cons hh]
  refine List.Pairwise.map Cell.pos (fun a b hapart hpos => ?_) (hrep.apart.filter _)
  rcases hapart with hle | hle <;> rw [Cell.stop, nNext] at hle <;> omega

theorem mem_head_append {c} (hc : c ∈ Cell.head :: lo) : c ∈ Cell.head :: (lo ++ hi) := by
  exact mem_append_left _ hc

/-- The links that lead to a new node of height `ht` are links of different places. -/
theorem linkPlaces_eq (hrep : p.Rep (lo ++ hi)) {ht} (hht : ht ≤ tMaxHeight) {ns}
    (hlength : ns.length = ht) (hns : ∀ i < ht, ns[i]? = some (levelPred i lo)) :
    linkPlaces 0 ns = (List.range ht).map (fun i => levelPred i lo + nNext + i) ∧
      (linkPlaces 0 ns).Nodup := by
  have heq : linkPlaces 0 ns = (List.range ht).map fun i => levelPred i lo + nNext + i := by
    apply ext_getElem?
    intro i
    rw [linkPlaces, getElem?_mapIdx, getElem?_map]
    rcases Nat.lt_or_ge i ht with hi | hi
    · rw [hns i hi, getElem?_range hi, map_some, map_some, Nat.zero_add]
    · rw [getElem?_eq_none (by omega), getElem?_eq_none (by rw [length_range]; omega)]
      rfl
  refine ⟨heq, ?_⟩
  rw [heq]
  refine List.Nodup.map_on (fun i hi j hj hij => ?_) nodup_range
  rw [mem_range] at hi hj
  obtain ⟨a, ha, hai, hapos⟩ := exists_levelPred lo (h := i) (by omega)
  obtain ⟨b, hb, hbj, hbpos⟩ := exists_levelPred lo (h := j) (by omega)
  have hsame := (hrep.index_inj (mem_head_append ha) (mem_head_append hb) (i := nNext + i) (j := nNext + j) (by omega)
    (by omega) (by omega)).2
  omega

/-- The array with a new node at its end that is linked in after `lo` on its levels. -/
structure Spliced (p : MemDB) (lo hi : List Cell) (kv k v ht : ℕ) (out : List ℕ) : Prop where
  length : out.length = p.nodeData.length + nNext + ht
  field : out[p.nodeData.length]? = some kv ∧ out[p.nodeData.length + nKey]? = some k ∧
    out[p.nodeData.length + nVal]? = some v
  link : ∀ j < ht, out[levelPred j lo + nNext + j]? = some p.nodeData.length
  next : ∀ j < ht, out[p.nodeData.length + nNext + j]? = p.nodeData[levelPred j lo + nNext + j]?
  old : ∀ c ∈ Cell.head :: (lo ++ hi), ∀ i < nNext + c.height,
    (∀ j < ht, ¬ (c.pos = levelPred j lo ∧ i = nNext + j)) → out[c.pos + i]? = p.nodeData[c.pos + i]?

theorem linkLoop_spliced (hrep : p.Rep (lo ++ hi)) {ht} (hht : ht ≤ tMaxHeight) {ns}
    (hlength : ns.length = ht) (hns : ∀ i < ht, ns[i]? = some (levelPred i lo)) (kv k v : ℕ) :
    ∃ out, linkLoop p.nodeData.length 0 ns (p.nodeData ++ [kv, k, v, ht]) = .ok out ∧
      Spliced p lo hi kv k v ht out := by
  obtain ⟨hplaces, hnodup⟩ := hrep.linkPlaces_eq hht hlength hns
  -- every link lies within the old part of the array
  have hplace (j : ℕ) (hj : j < ht) : levelPred j lo + nNext + j < p.nodeData.length := by
    obtain ⟨c, hc, hcj, hpos⟩ := exists_levelPred lo (h := j) (by omega)
    have := hrep.stop_le (mem_head_append hc) (i := nNext + j) (by omega)
    omega
  have hmem {m : ℕ} (hm : m ∈ linkPlaces 0 ns) : ∃ j < ht, m = levelPred j lo + nNext + j := by
    rw [hplaces] at hm
    obtain ⟨j, hj, rfl⟩ := mem_map.mp hm
    exact ⟨j, mem_range.mp hj, rfl⟩
  have hold : ∀ m ∈ linkPlaces 0 ns, m < p.nodeData.length := by
    intro m hm
    obtain ⟨j, hj, rfl⟩ := hmem hm
    exact hplace j hj
  have hat (j : ℕ) (hj : j < ht) : (linkPlaces 0 ns)[j]? = some (levelPred j lo + nNext + j) := by
    rw [hplaces, getElem?_map, getElem?_range hj]
    rfl
  obtain ⟨out, hrun, hlen, hlinks, hothers⟩ := linkLoop_eq p.nodeData.length
    (p.nodeData ++ [kv, k, v, ht]) (i := 0)
    (fun m hm => by rw [length_append]; exact Nat.lt_add_right _ (hold m hm)) hnodup
  have hsize : (p.nodeData ++ [kv, k, v, ht]).length = p.nodeData.length + nNext := by
    rw [length_append]
    rfl
  rw [hsize] at hlen hlinks hothers
  have hfield (i : ℕ) (hi : i < nNext) :
      out[p.nodeData.length + i]? = [kv, k, v, ht][i]? := by
    rw [hothers _ (by omega) (fun hm => absurd (hold _ hm) (by omega)),
      getElem?_append_right (by omega), Nat.add_sub_cancel_left]
  refine ⟨out, hrun, by rw [hlen, hlength], ⟨hfield 0 (by decide), hfield 1 (by decide),
    hfield 2 (by decide)⟩, fun j hj => (hlinks j _ (hat j hj)).1, fun j hj => ?_, ?_⟩
  · rw [(hlinks j _ (hat j hj)).2, getElem?_append_left (hplace j hj)]
  · intro c hc i hi hnot
    have hlt := hrep.stop_le hc hi
    have hfree : c.pos + i ∉ linkPlaces 0 ns := by
      intro hm
      obtain ⟨j, hj, he⟩ := hmem hm
      obtain ⟨d, hd, hdj, hpos⟩ := exists_levelPred lo (h := j) (by omega)
      obtain ⟨rfl, rfl⟩ := hrep.index_inj hc (mem_head_append hd) hi
        (show nNext + j < nNext + d.height by omega) (by omega)
      exact hnot j hj ⟨hpos, rfl⟩
    rw [hothers _ (by omega) hfree, getElem?_append_left hlt]

theorem insertNew_rep (hrep : p.Rep (lo ++ hi)) (hlo : ∀ c ∈ lo, c.key < key)
    (hhi : ∀ c ∈ hi, key < c.key) {ht} (hht : 1 ≤ ht ∧ ht ≤ tMaxHeight) {out}
    (hout : Spliced p lo hi p.kvData.length key.length value.length ht out) {prevNode}
    (hprev : prevNode.length = tMaxHeight) (rnd : ℕ → ℕ) :
    MemDB.Rep ⟨rnd, p.kvData ++ key ++ value, out, prevNode, max p.maxHeight ht, p.n + 1,
      p.kvSize + (key.length + value.length)⟩
      (lo ++ ⟨p.nodeData.length, ht, key, value⟩ :: hi) := by
  obtain ⟨hsortedLo, hsortedHi, -⟩ := pairwise_append.mp hrep.sorted
  -- of an old node only links to the new one have changed
  have hfields {c : Cell} (hc : c ∈ lo ++ hi) {i : ℕ} (hi : i < nNext) :
      out[c.pos + i]? = p.nodeData[c.pos + i]? :=
    hout.old c (mem_cons_of_mem _ hc) i (by omega) (by omega)
  have hmem {c : Cell} (hc : c ∈ lo ++ ⟨p.nodeData.length, ht, key, value⟩ :: hi) :
      c = ⟨p.nodeData.length, ht, key, value⟩ ∨ c ∈ lo ++ hi := by
    simp only [mem_append, mem_cons] at hc ⊢
    tauto
  refine ⟨?_, ?_, ?_, ?_, ?_, ?_, ?_, hprev, ?_, ?_, ?_⟩
  · intro c hc
    rcases hmem hc with rfl | hc
    · exact ⟨_, hout.field.1, hout.field.2.1, hout.field.2.2, stored_new _ _ _⟩
    · obtain ⟨o, ho, hkey, hval, hstored⟩ := hrep.cellAt c hc
      have hfirst := hfields hc (i := 0) (by decide)
      refine ⟨o, hfirst.trans ho, (hfields hc (by decide)).trans hkey,
        (hfields hc (by decide)).trans hval, ?_⟩
      rw [append_assoc]
      exact hstored.append
  · intro c hc
    rcases hmem hc with rfl | hc
    · exact ⟨hht.1, le_max_right _ _⟩
    · exact ⟨(hrep.height c hc).1, (hrep.height c hc).2.trans (le_max_left _ _)⟩
  · exact ⟨hrep.maxHeight.1.trans (le_max_left _ _), max_le hrep.maxHeight.2 hht.2⟩
  · refine pairwise_append.mpr ⟨hsortedLo, pairwise_cons.mpr ⟨hhi, hsortedHi⟩, ?_⟩
    intro a ha b hb
    rcases mem_cons.mp hb with rfl | hb
    · exact hlo a ha
    · exact (hlo a ha).trans (hhi b hb)
  · intro c hc
    rw [hout.length]
    rcases mem_cons.mp hc with rfl | hc
    · have := hrep.fits Cell.head mem_cons_self
      omega
    · rcases hmem hc with rfl | hc
      · exact le_rfl
      · have := hrep.fits c (mem_cons_of_mem _ hc)
        omega
  · -- the new part of the array begins where all the others have ended
    have hnew : (⟨p.nodeData.length, ht, key, value⟩ :: Cell.head :: (lo ++ hi)).Pairwise
        Cell.Apart :=
      pairwise_cons.mpr ⟨fun c hc => .inr (hrep.fits c hc), hrep.apart⟩
    refine hnew.perm ?_ (fun hapart => hapart.symm)
    exact (List.Perm.swap _ _ _).trans (List.Perm.cons _ perm_middle.symm)
  · intro h hh
    have hlinked := hrep.linked h hh
    rw [level_append] at hlinked
    have hcell {x : ℕ} (hx : x ∈ 0 :: (level h lo ++ level h hi)) :
        ∃ c ∈ Cell.head :: (lo ++ hi), h < c.height ∧ c.pos = x := by
      rw [← level_append, ← level_head_cons hh] at hx
      exact mem_level.mp hx
    rcases Nat.lt_or_ge h ht with hlt | hge
    · rw [level_append, level_cons_of_lt hlt]
      refine hlinked.insert ?_ (hout.link h hlt) (hout.next h hlt) fun x hx hne => ?_
      · rw [← level_append]
        exact hrep.level_nodup hh
      · obtain ⟨c, hc, hch, rfl⟩ := hcell hx
        have hold := hout.old c hc (nNext + h) (by omega) fun j _ hj =>
          hne ((show h = j by omega) ▸ hj.1)
        rwa [← Nat.add_assoc] at hold
    · rw [level_append, level_cons_of_le hge]
      refine hlinked.congr fun x hx => ?_
      obtain ⟨c, hc, hch, rfl⟩ := hcell hx
      have hold := hout.old c hc (nNext + h) (by omega) (by omega)
      rwa [← Nat.add_assoc] at hold
  · have := hrep.length_lt
    rw [hout.length]
    simp only [length_append, length_cons] at this ⊢
    omega
  · simp only [length_append, length_cons, hrep.n_eq]
    omega
  · rw [hrep.kvSize_eq]
    simp only [map_append, map_cons, sum_append, sum_cons]
    ring

/-- The noted nodes, and the head on the levels that the list gets with a node of this height. -/
def raisedPrev (p : MemDB) (ht : ℕ) : List ℕ :=
  if ht > p.maxHeight then p.prevNode.mapIdx fun i n => if p.maxHeight ≤ i ∧ i < ht then 0 else n
  else p.prevNode

/-- The nodes before the place of a new node are noted on all of its levels. -/
theorem raisedPrev_take (hrep : p.Rep (lo ++ hi))
    (hprev : ∀ i < p.maxHeight, p.prevNode[i]? = some (levelPred i lo)) {ht : ℕ}
    (hht : ht ≤ tMaxHeight) :
    (raisedPrev p ht).length = tMaxHeight ∧ ((raisedPrev p ht).take ht).length = ht ∧
      ∀ i < ht, ((raisedPrev p ht).take ht)[i]? = some (levelPred i lo) := by
  have hlen := hrep.prevNode
  have hlength : (raisedPrev p ht).length = tMaxHeight := by
    rw [raisedPrev]
    split_ifs
    · rw [length_mapIdx, hlen]
    · exact hlen
  refine ⟨hlength, by rw [length_take]; omega, fun i hi => ?_⟩
  rw [getElem?_take_of_lt hi, raisedPrev]
  -- above the height of the list there is nothing before the new node
  have hhigh (hge : p.maxHeight ≤ i) : levelPred i lo = 0 := by
    have hnone : level i lo = [] := by
      rw [level, filter_eq_nil_iff.mpr fun c hc => ?_, map_nil]
      have := (hrep.height c (mem_append_left _ hc)).2
      simp only [decide_eq_true_eq]
      omega
    rw [levelPred, hnone]
    rfl
  split_ifs with hgt
  · rw [getElem?_mapIdx, getElem?_eq_getElem (by omega), map_some]
    split_ifs with hi'
    · rw [hhigh hi'.1]
    · rw [← getElem?_eq_getElem, hprev i (by omega)]
  · exact hprev i (by omega)

theorem insertNew_eq (hrep : p.Rep (lo ++ hi)) (hlo : ∀ c ∈ lo, c.key < key)
    (hhi : ∀ c ∈ hi, key < c.key)
    (hprev : ∀ i < p.maxHeight, p.prevNode[i]? = some (levelPred i lo)) (value : Bytes) :
    ∃ p' c, p.insertNew key value = .ok p' ∧ c.entry = (key, value) ∧ p'.Rep (lo ++ c :: hi) := by
  obtain ⟨hpos, hmax⟩ := randHeight_bounds p.rnd (h := 1) (by decide)
  obtain ⟨hlen, htake, hns⟩ := hrep.raisedPrev_take hprev hmax
  obtain ⟨out, hrun, hout⟩ := hrep.linkLoop_spliced hmax htake hns p.kvData.length key.length
    value.length
  refine ⟨_, ⟨p.nodeData.length, _, key, value⟩, ?_, rfl,
    hrep.insertNew_rep hlo hhi ⟨hpos, hmax⟩ hout hlen (randHeight p.rnd 1).2⟩
  unfold insertNew
  unfold raisedPrev at hrun ⊢
  by_cases hgt : (randHeight p.rnd 1).1 > p.maxHeight
  · simp only [if_pos hgt, max_eq_right hgt.le] at hrun ⊢
    rw [hrun]
    rfl
  · simp only [if_neg hgt, max_eq_left (not_lt.mp hgt)] at hrun ⊢
    rw [hrun]
    rfl

/-- The position of a cell and the end of its part of the array. -/
def shape (c : Cell) : ℕ × ℕ := (c.pos, c.stop)

theorem level_replace (h : ℕ) (c : Cell) (value : Bytes) :
    level h (lo ++ { c with value := value } :: hi) = level h (lo ++ c :: hi) := by
  rw [level_append, level_append]
  by_cases hc : h < c.height
  · rw [level_cons_of_lt hc, level_cons_of_lt (c := { c with value := value }) hc]
  · rw [level_cons_of_le (not_lt.mp hc),
      level_cons_of_le (c := { c with value := value }) (not_lt.mp hc)]

theorem overwrite_rep {c} (hrep : p.Rep (lo ++ c :: hi)) {out kvData}
    (hlength : out.length = p.nodeData.length)
    (hold : ∀ x, x ≠ c.pos → x ≠ c.pos + nVal → out[x]? = p.nodeData[x]?)
    (hcell : CellAt kvData out { c with value := value })
    (hstored : ∀ o k v, Stored p.kvData o k v → Stored kvData o k v) :
    MemDB.Rep { p with
      kvData := kvData
      nodeData := out
      kvSize := p.kvSize + (value.length - c.value.length) }
      (lo ++ { c with value := value } :: hi) := by
  have hcmem : c ∈ Cell.head :: (lo ++ c :: hi) :=
    mem_cons_of_mem _ (mem_append_right _ mem_cons_self)
  obtain ⟨-, hhi, hloc⟩ := pairwise_append.mp hrep.sorted
  have hne {d : Cell} (hd : d ∈ lo ∨ d ∈ hi) : d ≠ c := by
    rintro rfl
    rcases hd with hd | hd
    · exact lt_irrefl _ (hloc d hd d mem_cons_self)
    · exact lt_irrefl _ ((pairwise_cons.mp hhi).1 d hd)
  -- only two fields of this cell are written
  have hkept {d : Cell} (hd : d ∈ Cell.head :: (lo ++ c :: hi)) {i : ℕ} (hi : i < nNext + d.height)
      (hother : d ≠ c ∨ nNext ≤ i) : out[d.pos + i]? = p.nodeData[d.pos + i]? := by
    have hfree {j : ℕ} (hj : j < nNext) : d.pos + i ≠ c.pos + j := by
      intro he
      obtain ⟨rfl, rfl⟩ := hrep.index_inj hd hcmem hi (Nat.lt_add_right _ hj) he
      rcases hother with hother | hother
      · exact hother rfl
      · exact absurd hother (not_le.mpr hj)
    exact hold _ (hfree (j := 0) (by decide)) (hfree (by decide))
  have hmem {d : Cell} (hd : d ∈ lo ++ { c with value := value } :: hi) :
      d = { c with value := value } ∨ (d ∈ lo ∨ d ∈ hi) := by
    simp only [mem_append, mem_cons] at hd
    tauto
  have hin {d : Cell} (hd : d ∈ lo ∨ d ∈ hi) : d ∈ lo ++ c :: hi := by
    simp only [mem_append, mem_cons]
    tauto
  refine ⟨?_, ?_, hrep.maxHeight, ?_, ?_, ?_, ?_, hrep.prevNode, ?_, ?_, ?_⟩
  · intro d hd
    rcases hmem hd with rfl | hd
    · exact hcell
    · obtain ⟨o, ho, hkey, hval, hdata⟩ := hrep.cellAt d (hin hd)
      have hsame {i : ℕ} (hi : i < nNext) : out[d.pos + i]? = p.nodeData[d.pos + i]? :=
        hkept (mem_cons_of_mem _ (hin hd)) (by omega) (.inl (hne hd))
      have hfirst := hsame (i := 0) (by decide)
      exact ⟨o, hfirst.trans ho, (hsame (by decide)).trans hkey, (hsame (by decide)).trans hval,
        hstored _ _ _ hdata⟩
  · intro d hd
    rcases hmem hd with rfl | hd
    · exact hrep.height c (mem_append_right _ mem_cons_self)
    · exact hrep.height d (hin hd)
  · have hkeys := pairwise_map.mpr hrep.sorted
    rw [show (lo ++ c :: hi).map Cell.key =
      (lo ++ { c with value := value } :: hi).map Cell.key by simp] at hkeys
    exact pairwise_map.mp hkeys
  · intro d hd
    rw [hlength]
    rcases mem_cons.mp hd with rfl | hd
    · exact hrep.fits _ mem_cons_self
    · rcases hmem hd with rfl | hd
      · exact hrep.fits c hcmem
      · exact hrep.fits d (mem_cons_of_mem _ (hin hd))
  · have hshapes := pairwise_map (f := shape)
      (R := fun a b => a.2 ≤ b.1 ∨ b.2 ≤ a.1) |>.mpr hrep.apart
    rw [show (Cell.head :: (lo ++ c :: hi)).map shape =
      (Cell.head :: (lo ++ { c with value := value } :: hi)).map shape by
        simp [shape, Cell.stop]] at hshapes
    exact (pairwise_map (f := shape)).mp hshapes
  · intro h hh
    rw [level_replace]
    refine (hrep.linked h hh).congr fun x hx => ?_
    rw [← level_head_cons hh] at hx
    obtain ⟨d, hd, hdh, rfl⟩ := mem_level.mp hx
    have hsame := hkept hd (i := nNext + h) (by omega) (.inr (Nat.le_add_right _ _))
    rwa [← Nat.add_assoc] at hsame
  · have := hrep.length_lt
    rw [hlength]
    simpa using this
  · rw [hrep.n_eq]
    simp
  · change p.kvSize + _ = _
    rw [hrep.kvSize_eq]
    simp only [map_append, map_cons, sum_append, sum_cons]
    ring

theorem overwrite_eq {c} (hrep : p.Rep (lo ++ c :: hi)) (hkey : c.key = key) (value : Bytes) :
    ∃ p', p.overwrite c.pos key value = .ok p' ∧
      p'.Rep (lo ++ { c with value := value } :: hi) := by
  have hcmem : c ∈ lo ++ c :: hi := mem_append_right _ mem_cons_self
  obtain ⟨o, ho, hlen, hval, hstored⟩ := hrep.cellAt c hcmem
  have hposlt : c.pos < p.nodeData.length := (List.getElem?_eq_some_iff.mp ho).1
  have hvallt : c.pos + nVal < p.nodeData.length := (List.getElem?_eq_some_iff.mp hval).1
  have hne₁ : c.pos ≠ c.pos + nVal := by rw [nVal]; omega
  have hne₂ : c.pos ≠ c.pos + nKey := by rw [nKey]; omega
  have hne₃ : c.pos + nVal ≠ c.pos + nKey := by rw [nVal, nKey]; omega
  unfold overwrite
  by_cases hvalue : value.length ≠ 0
  · rw [if_pos hvalue, goSet_ok hposlt]
    have hm : (p.nodeData.set c.pos p.kvData.length)[c.pos + nVal]? = some c.value.length := by
      rw [getElem?_set_ne hne₁, hval]
    have hlt : c.pos + nVal < (p.nodeData.set c.pos p.kvData.length).length := by
      rwa [length_set]
    refine ⟨_, bind_ok.mpr ⟨_, rfl, bind_ok.mpr ⟨_, rfl, bind_ok.mpr ⟨_,
      goIndex_ok.mpr hm, bind_ok.mpr ⟨_, goSet_ok hlt _, rfl⟩⟩⟩⟩, ?_⟩
    refine hrep.overwrite_rep (by rw [length_set, length_set]) ?_ ?_ ?_
    · intro x hx hx'
      rw [getElem?_set_ne hx'.symm, getElem?_set_ne hx.symm]
    · refine ⟨p.kvData.length, ?_, ?_, ?_, ?_⟩
      · rw [getElem?_set_ne hne₁.symm, getElem?_set_self hposlt]
      · rw [getElem?_set_ne hne₃, getElem?_set_ne hne₂, hlen]
      · exact getElem?_set_self hlt
      · rw [hkey]
        exact stored_new _ _ _
    · intro o k v h
      rw [append_assoc]
      exact h.append
  · obtain rfl : value = [] := length_eq_zero_iff.mp (not_not.mp hvalue)
    rw [if_neg hvalue]
    refine ⟨_, bind_ok.mpr ⟨_, rfl, bind_ok.mpr ⟨_, goIndex_ok.mpr hval,
      bind_ok.mpr ⟨_, goSet_ok hvallt _, rfl⟩⟩⟩, ?_⟩
    refine hrep.overwrite_rep (by rw [length_set]) ?_ ?_ fun o k v h => h
    · intro x hx hx'
      rw [getElem?_set_ne hx'.symm]
    · refine ⟨o, ?_, ?_, getElem?_set_self hvallt, hstored.delete⟩
      · rw [getElem?_set_ne hne₁.symm, ho]
      · rw [getElem?_set_ne hne₃, hlen]

variable (hrep : p.Rep cells)
include hrep

theorem exists_split (key : Bytes) : ∃ lo hi, cells = lo ++ hi ∧
    (∀ c ∈ lo, c.key < key) ∧ ∀ c ∈ hi, key ≤ c.key := by
  have hsorted := hrep.sorted
  clear hrep
  induction cells with
  | nil => exact ⟨[], [], rfl, by simp, by simp⟩
  | cons c cells ih =>
    obtain ⟨hc, hsorted⟩ := pairwise_cons.mp hsorted
    by_cases hlt : c.key < key
    · obtain ⟨lo, hi, rfl, hlo, hhi⟩ := ih hsorted
      exact ⟨c :: lo, hi, rfl, forall_mem_cons.mpr ⟨hlt, hlo⟩, hhi⟩
    · have hle := not_lt.mp hlt
      refine ⟨[], c :: cells, rfl, by simp, forall_mem_cons.mpr ⟨hle, fun d hd => ?_⟩⟩
      exact hle.trans (hc d hd).le

theorem put_eq (key value : Bytes) :
    ∃ p' cells', p.put key value = .ok p' ∧ p'.Rep cells' ∧
      cells'.map Cell.entry = OrderedMap.insertEntry key value (cells.map Cell.entry) := by
  obtain ⟨lo, hi, rfl, hlo, hhi⟩ := hrep.exists_split key
  obtain ⟨prevNode, hfind, hlength, hprev⟩ := hrep.findGE_eq hlo hhi true
  have hrep' : MemDB.Rep { p with prevNode } _ := { hrep with prevNode := hlength }
  have hentries : ∀ x ∈ lo.map Cell.entry, x.1 < key := forall_mem_map.mpr hlo
  rw [put, hfind, ok_bind, map_append, OrderedMap.insertEntry_append hentries]
  by_cases hfound : hi.head?.map Cell.key = some key
  · -- the key has a node
    obtain ⟨c, hc, hkey⟩ := map_eq_some_iff.mp hfound
    obtain ⟨hi, rfl⟩ := head?_eq_some_iff.mp hc
    obtain ⟨p', hrun, hnew⟩ := hrep'.overwrite_eq hkey value
    have hpos := hrep.levelNext_zero (s := c :: hi) fun d hd => mem_append_right _ hd
    refine ⟨p', _, ?_, hnew, ?_⟩
    · simp only [hfound, decide_true, if_true, hpos]
      exact hrun
    · rw [map_append, map_cons, map_cons, Cell.entry, Cell.entry,
        OrderedMap.insertEntry, hkey, if_neg (lt_irrefl _), if_pos rfl]
  · have hlt : ∀ c ∈ hi, key < c.key := by
      intro c hc
      refine lt_of_le_of_ne (hhi c hc) fun he => hfound ?_
      rw [hrep.head?_of_key_eq hhi hc he.symm, map_some, he]
    obtain ⟨p', c, hrun, hentry, hnew⟩ := hrep'.insertNew_eq hlo hlt (hprev rfl) value
    refine ⟨p', _, ?_, hnew, ?_⟩
    · simp only [hfound, decide_false]
      exact hrun
    · rw [map_append, map_cons, hentry]
      cases hi with
      | nil => rfl
      | cons d hi =>
        rw [map_cons, OrderedMap.insertEntry, if_pos]
        exact hlt d mem_cons_self

theorem get_eq (key : Bytes) : p.get key =
    .ok (match OrderedMap.find key (cells.map Cell.entry) with
      | some value => (value, false)
      | none => ([], true)) := by
  obtain ⟨lo, hi, rfl, hlo, hhi⟩ := hrep.exists_split key
  obtain ⟨prevNode, hfind, -, -⟩ := hrep.findGE_eq hlo hhi false
  have hentries : ∀ x ∈ lo.map Cell.entry, x.1 < key := forall_mem_map.mpr hlo
  rw [get, hfind, ok_bind, map_append, OrderedMap.find_append_of_lt hentries]
  by_cases hfound : hi.head?.map Cell.key = some key
  · obtain ⟨c, hc, rfl⟩ := map_eq_some_iff.mp hfound
    obtain ⟨hi, rfl⟩ := head?_eq_some_iff.mp hc
    have hpos := hrep.levelNext_zero (s := c :: hi) fun d hd => mem_append_right _ hd
    obtain ⟨o, ho, hlen, hval, hstored⟩ := hrep.cellAt c
      (mem_append_right _ mem_cons_self)
    rw [map_cons, Cell.entry, OrderedMap.find]
    simp only [decide_true, if_true, hpos, head?_cons, map_some, getD_some]
    rw [goIndex_ok.mpr hval, ok_bind]
    split_ifs with hvalue
    · rw [goIndex_ok.mpr ho, ok_bind, goIndex_ok.mpr hlen, ok_bind, hstored.value_eq]
      rfl
    · rw [length_eq_zero_iff.mp (not_not.mp hvalue)]
      rfl
  · have hnone : OrderedMap.find key (hi.map Cell.entry) = none := by
      cases hf : OrderedMap.find key (hi.map Cell.entry) with
      | none => rfl
      | some v =>
        obtain ⟨c, hc, he⟩ := mem_map.mp (OrderedMap.find_eq_some hf)
        have hkey : c.key = key := congrArg Prod.fst he
        exact absurd (by rw [hrep.head?_of_key_eq hhi hc hkey, map_some, hkey]) hfound
    rw [hnone]
    simp only [hfound, decide_false]
    rfl

theorem forEachLoop_eq {l s} (hsplit : cells = l ++ s) {fuel} (hfuel : s.length < fuel) :
    p.forEachLoop fuel (levelNext 0 s) = .ok (s.map Cell.entry) := by
  induction s generalizing l fuel with
  | nil =>
    obtain ⟨fuel, rfl⟩ : ∃ n, fuel = n + 1 := ⟨fuel - 1, by omega⟩
    rfl
  | cons c s ih =>
    obtain ⟨fuel, rfl⟩ : ∃ n, fuel = n + 1 := ⟨fuel - 1, by omega⟩
    have hc : c ∈ cells := hsplit ▸ mem_append_right _ mem_cons_self
    have hpos : levelNext 0 (c :: s) = c.pos := by
      rw [levelNext, level_cons_of_lt (hrep.height c hc).1]
      rfl
    have hnext : p.nodeData[c.pos + nNext]? = some (levelNext 0 s) :=
      hrep.next_eq (l := Cell.head :: l) (by rw [hsplit]; rfl) (hrep.height c hc).1
    have hrest := ih (l := l ++ [c]) (by rw [hsplit]; simp) (Nat.lt_of_succ_lt_succ hfuel)
    rw [forEachLoop, hpos, if_neg (hrep.pos_ne_zero hc), (hrep.cellAt c hc).nodeEntry_eq, ok_bind,
      goIndex_ok.mpr hnext, ok_bind, hrest]
    rfl

theorem forEach_eq : p.forEach = .ok (cells.map Cell.entry) := by
  have hnext : p.nodeData[nNext]? = some (levelNext 0 cells) :=
    hrep.next_eq (l := []) (c := Cell.head) (h := 0) rfl (by decide)
  have hlength := hrep.length_lt
  rw [forEach, goIndex_ok.mpr hnext]
  exact hrep.forEachLoop_eq (l := []) rfl (by omega)

end MemDB.Rep

theorem MemDB.newMemDB_rep (rnd : ℕ → ℕ) : (newMemDB rnd).Rep [] := by
  have hlength : (newMemDB rnd).nodeData.length = 16 := rfl
  refine ⟨by simp, by simp, ⟨le_rfl, ?_⟩, List.Pairwise.nil, ?_, ?_, ?_, rfl, ?_, rfl, rfl⟩
  · change 1 ≤ 12
    decide
  · intro c hc
    cases mem_singleton.mp hc
    rw [hlength]
    decide
  · exact pairwise_singleton _ _
  · intro h hh
    change ([0, 0, 0, tMaxHeight] ++ List.replicate tMaxHeight 0)[0 + nNext + h]? = some 0
    rw [getElem?_append_right (by rw [nNext]; simp), getElem?_replicate_of_lt]
    rw [nNext]
    simp only [length_cons, length_nil]
    omega
  · rw [hlength]
    decide

end Poly.Overlaydb
