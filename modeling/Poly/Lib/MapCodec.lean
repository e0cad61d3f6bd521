import Poly.Lib.OrderedMap
import Poly.Lib.Reader

/-! Maps written item by item in a fixed order: the bytes do not depend on the order in which the
map was walked, and give the map back. -/
namespace Poly.Lib

section Descending

variable {α ρ : Type} [LinearOrder ρ]

variable (rank : α → ρ)

/-- A list sorted by descending rank. -/
def descending (l : List α) : List α := l.mergeSort fun a b => rank b ≤ rank a

theorem descending_perm (l : List α) : (descending rank l).Perm l :=
  List.mergeSort_perm l _

theorem descending_pairwise (l : List α) :
    (descending rank l).Pairwise fun a b => rank b ≤ rank a := by
  have htrans : ∀ a b c, decide (rank b ≤ rank a) = true → decide (rank c ≤ rank b) = true →
      decide (rank c ≤ rank a) = true := by
    simp only [decide_eq_true_eq]
    exact fun a b c hba hcb => hcb.trans hba
  have htotal : ∀ a b, (decide (rank b ≤ rank a) || decide (rank a ≤ rank b)) = true := by
    simp only [Bool.or_eq_true, decide_eq_true_eq]
    exact fun a b => le_total _ _
  exact (List.pairwise_mergeSort htrans htotal l).imp of_decide_eq_true

theorem eq_descending {rank : α → ρ} {l l' : List α} (h : l'.Perm l)
    (hl : l'.Pairwise fun a b => rank b ≤ rank a) (hrank : (l.map rank).Nodup) :
    descending rank l = l' := by
  have hperm := (descending_perm rank l).trans h.symm
  refine hperm.eq_of_pairwise ?_ (descending_pairwise rank l) hl
  intro a b ha hb hba hab
  have ha' : a ∈ l := (descending_perm rank l).mem_iff.mp ha
  exact List.inj_on_of_nodup_map hrank ha' (h.mem_iff.mp hb) (le_antisymm hab hba)

theorem descending_eq_of_perm {rank : α → ρ} {l l' : List α} (h : l'.Perm l)
    (hrank : (l.map rank).Nodup) : descending rank l' = descending rank l :=
  (eq_descending ((descending_perm rank l').trans h) (descending_pairwise rank l') hrank).symm

end Descending

section Items

open OrderedMap Reader

variable {ε χ κ ν ρ : Type} [LinearOrder κ] [LinearOrder ρ]

theorem get_foldl_insert {l : List (κ × ν)} (hl : (l.map Prod.fst).Nodup) (m : OrderedMap κ ν)
    (k : κ) {v : ν} : (l.foldl (fun m x => m.insert x.1 x.2) m).get k = some v ↔
      (k, v) ∈ l ∨ k ∉ l.map Prod.fst ∧ m.get k = some v := by
  induction l generalizing m with
  | nil => simp
  | cons x l ih =>
    obtain ⟨hx, hl⟩ := List.nodup_cons.mp hl
    rw [List.foldl_cons, ih hl]
    by_cases hk : k = x.1
    · -- the key does not come again, so the entry just inserted stays
      subst hk
      have hnot : (x.1, v) ∉ l := fun hmem => hx (List.mem_map.mpr ⟨_, hmem, rfl⟩)
      simp [hx, hnot, Prod.ext_iff, eq_comm]
    · rw [get_insert_of_ne _ _ hk]
      simp [hk, Prod.ext_iff]

theorem foldl_insert_of_perm {m : OrderedMap κ ν} {l : List (κ × ν)} (h : l.Perm m.entries) :
    l.foldl (fun m x => m.insert x.1 x.2) empty = m := by
  have hnodup : (l.map Prod.fst).Nodup := (h.map Prod.fst).nodup_iff.mpr m.keys_nodup
  apply ext_get
  intro k
  apply Option.ext
  intro v
  rw [get_foldl_insert hnodup, get_empty, get_eq_some, h.mem_iff]
  simp

variable {rank : χ → ρ} {e : χ → κ × ν} {m : OrderedMap κ ν} {order : List χ}

omit [LinearOrder ρ] in
theorem nodup_rank (hrank : ∀ x y, rank x = rank y → (e x).1 = (e y).1)
    (h : (order.map e).Perm m.entries) : (order.map rank).Nodup := by
  have hkeys : (order.map fun x => (e x).1).Nodup := by
    have hnodup := (h.map Prod.fst).nodup_iff.mpr m.keys_nodup
    rwa [List.map_map] at hnodup
  rw [List.nodup_iff_pairwise_ne, List.pairwise_map] at hkeys ⊢
  exact hkeys.imp fun hne heq => hne (hrank _ _ heq)

/-- The items of a map, sorted and written one after the other, are read back as the map. -/
theorem readItems_run {V : Type} {w : χ → Bytes} {r : Reader ε χ} {P : χ → Prop}
    (hr : RoundTrip r w P) (f : OrderedMap κ ν → V) (h : (order.map e).Perm m.entries)
    (hsize : m.size < 2 ^ 64) (hP : ∀ x ∈ order, P x) :
    (do
      let items ← Reader.replicate r (UInt64.ofNat m.size).toNat
      return f (items.foldl (fun m x => m.insert (e x).1 (e x).2) empty) :
        Reader ε V).run ((descending rank order).flatMap w) = .ok (f m, []) := by
  have hperm := descending_perm rank order
  have hlength : (UInt64.ofNat m.size).toNat = (descending rank order).length := by
    rw [UInt64.toNat_ofNat_of_lt' hsize, hperm.length_eq, size, ← h.length_eq, List.length_map]
  have hrun := roundTrip_replicate hr (descending rank order)
    (fun x hx => hP x (hperm.mem_iff.mp hx)) []
  rw [List.append_nil, ← hlength] at hrun
  refine run_bind_ok.mpr ⟨_, [], hrun, ?_⟩
  rw [← List.foldl_map (f := e) (g := fun m x => OrderedMap.insert m x.1 x.2),
    foldl_insert_of_perm ((hperm.map e).trans h)]
  rfl

/-- A Go map has fewer than `2^64` entries, and its entries are values of Go too. -/
def FitsBy (P : κ × ν → Prop) (m : OrderedMap κ ν) : Prop :=
  m.size < 2 ^ 64 ∧ ∀ x ∈ m.entries, P x

theorem readEntries_run {V : Type} {rank : κ × ν → ρ} {w : κ × ν → Bytes} {r : Reader ε (κ × ν)}
    {P : κ × ν → Prop} (hr : RoundTrip r w P) (f : OrderedMap κ ν → V) (hm : FitsBy P m) :
    (do
      let items ← Reader.replicate r (UInt64.ofNat m.size).toNat
      return f (items.foldl (fun m x => m.insert x.1 x.2) empty) : Reader ε V).run
        ((descending rank m.entries).flatMap w) = .ok (f m, []) :=
  readItems_run (e := id) hr f (by rw [List.map_id]) hm.1 hm.2

/-- The entries of a map are sorted the same way whatever their order. -/
theorem descending_walk {rank : κ × ν → ρ} (hrank : ∀ x y, rank x = rank y → x.1 = y.1)
    {order : List (κ × ν)} (h : order.Perm m.entries) :
    descending rank order = descending rank m.entries :=
  descending_eq_of_perm h (nodup_rank (e := id) hrank (by rw [List.map_id]))

end Items

variable {ε V χ : Type}

/-- The values of `P` have one encoding: the bytes of a value are the same whatever the order in
which the map inside it is walked, reading them leaves nothing and gives the value back, and no other
value has them. -/
structure OneEncoding (P : V → Prop) (entries : V → List χ) (write : V → List χ → Bytes)
    (read : Reader ε V) : Prop where
  same : ∀ v, P v → ∀ order, order.Perm (entries v) → write v order = write v (entries v)
  back : ∀ v, P v → ∀ order, order.Perm (entries v) → read.run (write v order) = .ok (v, [])
  injective : ∀ v v', P v → P v' → ∀ order order', order.Perm (entries v) →
    order'.Perm (entries v') → write v order = write v' order' → v = v'

theorem OneEncoding.of_back {P : V → Prop} {entries : V → List χ} {write : V → List χ → Bytes}
    {read : Reader ε V}
    (hsame : ∀ v, P v → ∀ order, order.Perm (entries v) → write v order = write v (entries v))
    (hback : ∀ v, P v → read.run (write v (entries v)) = .ok (v, [])) :
    OneEncoding P entries write read where
  same := hsame
  back v hv order h := by rw [hsame v hv order h, hback v hv]
  injective v v' hv hv' order order' h h' heq := by
    rw [hsame v hv order h, hsame v' hv' order' h'] at heq
    have hrun := hback v hv
    rw [heq, hback v' hv'] at hrun
    exact (ok_mk_inj hrun).1.symm

end Poly.Lib
