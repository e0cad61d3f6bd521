import Poly.Store.JoinIter
import Poly.Store.CacheDB

/-! The transaction cache over the block cache over the persistent store, with the skip list as the
memory of both caches. -/
namespace Poly.Overlaydb

open Lib OrderedMap

/-- The least byte string after all those that begin with the given one. -/
def prefixLimit : Bytes → Option Bytes
  | [] => none
  | c :: p =>
    match prefixLimit p with
    | some limit => some (c :: limit)
    | none => if c < 0xff then some [c + 1] else none

/-- `util.BytesPrefix`. -/
def bytesPrefix (key : Bytes) : Range := ⟨some key, prefixLimit key⟩

/-- The block cache. -/
structure OverlayDB where
  store : KVStore
  memdb : MemDB

namespace OverlayDB

def newOverlayDB (store : KVStore) (rnd : ℕ → ℕ) : OverlayDB := ⟨store, .newMemDB rnd⟩

variable (self : OverlayDB)

/-- An empty value is a deleted or an absent one. -/
def get (key : Bytes) : Result Bytes := do
  let (value, unknown) ← self.memdb.get key
  if unknown = false then return value else return (self.store.get key).getD []

def put (key value : Bytes) : Result OverlayDB := do
  let memdb ← self.memdb.put key value
  return { self with memdb := memdb }

def delete (key : Bytes) : Result OverlayDB := do
  let memdb ← self.memdb.delete key
  return { self with memdb := memdb }

/-- The store once the batch that is filled here has been committed. -/
def commitTo : Result KVStore := do
  let entries ← self.memdb.forEach
  return entries.foldl applyWrite self.store

variable {σ : Type} (openStore : KVStore → Bytes → σ)

def newIterator (key : Bytes) : JoinIter DbIter σ :=
  .newJoinIter (.newIterator (some (bytesPrefix key))) (openStore self.store key)

def iterOps (S : StoreIterator σ) (fuel : ℕ) (self : OverlayDB) : StoreIterator (JoinIter DbIter σ) :=
  JoinIter.ops (DbIter.ops self.memdb) S fuel

end OverlayDB

/-- The transaction cache. -/
structure CacheDB where
  memdb : MemDB
  backend : OverlayDB

namespace CacheDB

def newCacheDB (store : OverlayDB) (rnd : ℕ → ℕ) : CacheDB := ⟨.newMemDB rnd, store⟩

variable (self : CacheDB)

def get (key : Bytes) : Result Bytes := do
  let (value, unknown) ← self.memdb.get (ST_STORAGE :: key)
  if unknown then self.backend.get (ST_STORAGE :: key) else return value

def put (key value : Bytes) : Result CacheDB := do
  let memdb ← self.memdb.put (ST_STORAGE :: key) value
  return { self with memdb := memdb }

def delete (key : Bytes) : Result CacheDB := do
  let memdb ← self.memdb.delete (ST_STORAGE :: key)
  return { self with memdb := memdb }

/-- One entry on its way into the block cache. -/
def commitOne (backend : OverlayDB) (x : Bytes × Bytes) : Result OverlayDB :=
  if x.2.length = 0 then backend.delete x.1 else backend.put x.1 x.2

def commit : Result CacheDB := do
  let entries ← self.memdb.forEach
  let backend ← entries.foldlM commitOne self.backend
  return { self with backend := backend }

variable {σ : Type} (openStore : KVStore → Bytes → σ)

def newIterator (key : Bytes) : JoinIter DbIter (JoinIter DbIter σ) :=
  .newJoinIter (.newIterator (some (bytesPrefix (ST_STORAGE :: key))))
    (self.backend.newIterator openStore (ST_STORAGE :: key))

/-- The key of an `Iter`: without the byte of the storage. -/
def stripKey (key : Bytes) : Bytes := if key.length ≠ 0 then key.drop 1 else key

def iterOps (S : StoreIterator σ) (fuel : ℕ) (self : CacheDB) :
    StoreIterator (JoinIter DbIter (JoinIter DbIter σ)) :=
  let join := JoinIter.ops (DbIter.ops self.memdb) (self.backend.iterOps S fuel) fuel
  { join with key := fun s => stripKey (join.key s) }

end CacheDB

/-- What is done to the block cache and to the transaction cache over it. -/
inductive LayerOp where
  | overlayPut (key value : Bytes)
  | overlayDelete (key : Bytes)
  | cachePut (key value : Bytes)
  | cacheDelete (key : Bytes)

namespace LayerOp

def apply (db : CacheDB) : LayerOp → Result CacheDB
  | overlayPut key value => do
    let backend ← db.backend.put key value
    return { db with backend := backend }
  | overlayDelete key => do
    let backend ← db.backend.delete key
    return { db with backend := backend }
  | cachePut key value => db.put key value
  | cacheDelete key => db.delete key

/-- What it does to the memory of the block cache. -/
def overlayOp : LayerOp → Option Op
  | overlayPut key value => some (.put key value)
  | overlayDelete key => some (.delete key)
  | _ => none

def cacheOp : LayerOp → Option Op
  | cachePut key value => some (.put (ST_STORAGE :: key) value)
  | cacheDelete key => some (.delete (ST_STORAGE :: key))
  | _ => none

end LayerOp

def runLayers (store : KVStore) (rnd rnd' : ℕ → ℕ) (ops : List LayerOp) : Result CacheDB :=
  ops.foldlM LayerOp.apply (.newCacheDB (.newOverlayDB store rnd) rnd')

/-- The layers as one map: what was last written to the key in the newest layer that knows it,
where an empty value is a deletion, and else what the store has. -/
def view (store : KVStore) (ops : List LayerOp) (key : Bytes) : Option Bytes :=
  match (lastWrite (ops.filterMap LayerOp.cacheOp) key).or
    (lastWrite (ops.filterMap LayerOp.overlayOp) key) with
  | some value => nonNil value
  | none => store.get key

section Refinement

theorem nonNil_getD (value : Bytes) : (nonNil value).getD [] = value := by
  rw [nonNil]
  split_ifs with h
  · exact h.symm
  · rfl

/-- The block cache with a skip list stands for the one with a map. -/
def OverlayDB.Represents (db : OverlayDB) (m : Poly.OverlayDB) : Prop :=
  db.store = m.store ∧ db.memdb.Represents m.memdb

namespace OverlayDB.Represents

variable {db : OverlayDB} {m : Poly.OverlayDB}

theorem new (store : KVStore) (rnd : ℕ → ℕ) :
    (newOverlayDB store rnd).Represents (Poly.OverlayDB.new store) :=
  ⟨rfl, .new rnd⟩

variable (h : db.Represents m)
include h

theorem get (key : Bytes) : db.get key = .ok ((m.get key).getD []) := by
  rw [OverlayDB.get, h.2.get, Poly.OverlayDB.get, h.1]
  cases m.memdb.get key with
  | none => rfl
  | some value =>
    rw [nonNil_getD]
    rfl

theorem put (key value : Bytes) :
    ∃ db', db.put key value = .ok db' ∧ db'.Represents (m.put key value) := by
  obtain ⟨memdb, hrun, hmem⟩ := h.2.put key value
  exact ⟨{ db with memdb := memdb }, by rw [OverlayDB.put, hrun]; rfl, h.1, hmem⟩

theorem delete (key : Bytes) :
    ∃ db', db.delete key = .ok db' ∧ db'.Represents (m.delete key) :=
  h.put key []

theorem commitTo : db.commitTo = .ok (applyWriteSet m.store m.memdb) := by
  rw [OverlayDB.commitTo, h.2.forEach, h.1]
  rfl

end OverlayDB.Represents

/-- The transaction cache likewise. -/
def CacheDB.Represents (db : CacheDB) (m : Poly.CacheDB) : Prop :=
  db.memdb.Represents m.memdb ∧ db.backend.Represents m.backend

namespace CacheDB.Represents

variable {db : CacheDB} {m : Poly.CacheDB}

theorem get (h : db.Represents m) (key : Bytes) : db.get key = .ok ((m.get key).getD []) := by
  rw [CacheDB.get, h.1.get, Poly.CacheDB.get]
  cases m.memdb.get (ST_STORAGE :: key) with
  | none => exact h.2.get _
  | some value =>
    rw [nonNil_getD]
    rfl

theorem put (h : db.Represents m) (key value : Bytes) :
    ∃ db', db.put key value = .ok db' ∧ db'.Represents (m.put key value) := by
  obtain ⟨memdb, hrun, hmem⟩ := h.1.put (ST_STORAGE :: key) value
  exact ⟨{ db with memdb := memdb }, by rw [CacheDB.put, hrun]; rfl, hmem, h.2⟩

theorem delete (h : db.Represents m) (key : Bytes) :
    ∃ db', db.delete key = .ok db' ∧ db'.Represents (m.delete key) :=
  h.put key []

theorem commitOne {backend b} (h : backend.Represents b) (x : Bytes × Bytes) :
    ∃ backend', CacheDB.commitOne backend x = .ok backend' ∧
      backend'.Represents (commitEntry b x) := by
  rw [CacheDB.commitOne, commitEntry]
  by_cases hx : x.2 = []
  · rw [if_pos (List.length_eq_zero_iff.mpr hx), if_pos hx]
    exact h.delete x.1
  · rw [if_neg fun hlen => hx (List.length_eq_zero_iff.mp hlen), if_neg hx]
    exact h.put x.1 x.2

theorem foldlM_commitOne {backend b} (h : backend.Represents b) (l : List (Bytes × Bytes)) :
    ∃ backend', l.foldlM CacheDB.commitOne backend = .ok backend' ∧
      backend'.Represents (l.foldl commitEntry b) := by
  induction l generalizing backend b with
  | nil => exact ⟨backend, rfl, h⟩
  | cons x l ih =>
    obtain ⟨backend₁, hone, h₁⟩ := commitOne h x
    obtain ⟨backend₂, hrun, h₂⟩ := ih h₁
    exact ⟨backend₂, bind_ok.mpr ⟨backend₁, hone, hrun⟩, h₂⟩

theorem commit (h : db.Represents m) :
    ∃ db', db.commit = .ok db' ∧ db'.backend.Represents m.commit := by
  obtain ⟨backend, hrun, hback⟩ := foldlM_commitOne h.2 m.memdb.entries
  refine ⟨{ db with backend := backend }, ?_, hback⟩
  rw [CacheDB.commit, h.1.forEach, ok_bind, hrun]
  rfl

end CacheDB.Represents

/-- The operation on the caches with maps. -/
def LayerOp.write (m : Poly.CacheDB) : LayerOp → Poly.CacheDB
  | overlayPut key value => { m with backend := m.backend.put key value }
  | overlayDelete key => { m with backend := m.backend.delete key }
  | cachePut key value => m.put key value
  | cacheDelete key => m.delete key

theorem LayerOp.apply_represents {db m} (h : db.Represents m) (op : LayerOp) :
    ∃ db', op.apply db = .ok db' ∧ db'.Represents (op.write m) := by
  cases op with
  | overlayPut key value =>
    obtain ⟨backend, hrun, hback⟩ := h.2.put key value
    exact ⟨{ db with backend := backend }, bind_ok.mpr ⟨backend, hrun, rfl⟩, h.1, hback⟩
  | overlayDelete key =>
    obtain ⟨backend, hrun, hback⟩ := h.2.delete key
    exact ⟨{ db with backend := backend }, bind_ok.mpr ⟨backend, hrun, rfl⟩, h.1, hback⟩
  | cachePut key value => exact h.put key value
  | cacheDelete key => exact h.delete key

theorem foldlM_layers {db m} (h : db.Represents m) (ops : List LayerOp) :
    ∃ db', ops.foldlM LayerOp.apply db = .ok db' ∧ db'.Represents (ops.foldl LayerOp.write m) := by
  induction ops generalizing db m with
  | nil => exact ⟨db, rfl, h⟩
  | cons op ops ih =>
    obtain ⟨db₁, hone, h₁⟩ := LayerOp.apply_represents h op
    obtain ⟨db₂, hrun, h₂⟩ := ih h₁
    exact ⟨db₂, bind_ok.mpr ⟨db₁, hone, hrun⟩, h₂⟩

theorem foldl_write_layers (ops : List LayerOp) (m : Poly.CacheDB) :
    (ops.foldl LayerOp.write m).memdb = (ops.filterMap LayerOp.cacheOp).foldl Op.write m.memdb ∧
      (ops.foldl LayerOp.write m).backend.memdb =
        (ops.filterMap LayerOp.overlayOp).foldl Op.write m.backend.memdb ∧
      (ops.foldl LayerOp.write m).backend.store = m.backend.store := by
  induction ops generalizing m with
  | nil => exact ⟨rfl, rfl, rfl⟩
  | cons op ops ih =>
    obtain ⟨hcache, hoverlay, hstore⟩ := ih (op.write m)
    rw [List.foldl_cons, hcache, hoverlay, hstore]
    cases op <;> exact ⟨rfl, rfl, rfl⟩

/-- The caches with maps after some operations on new ones. -/
def written (store : KVStore) (ops : List LayerOp) : Poly.CacheDB :=
  ops.foldl LayerOp.write (.new (.new store))

variable {store : KVStore} {ops : List LayerOp}

theorem runLayers_represents (store : KVStore) (rnd rnd' : ℕ → ℕ) (ops : List LayerOp) :
    ∃ db, runLayers store rnd rnd' ops = .ok db ∧ db.Represents (written store ops) :=
  foldlM_layers ⟨.new rnd', .new store rnd⟩ ops

theorem written_store : (written store ops).backend.store = store :=
  (foldl_write_layers ops _).2.2

theorem view_eq (key : Bytes) : view store ops key =
    match ((written store ops).memdb.get key).or ((written store ops).backend.memdb.get key) with
    | some value => nonNil value
    | none => store.get key := by
  obtain ⟨hcache, hoverlay, -⟩ := foldl_write_layers ops (.new (.new store))
  rw [written, hcache, hoverlay, get_foldl_write, get_foldl_write]
  rfl

end Refinement

section Iteration

theorem byte_lt_succ_iff {c d : UInt8} (h : c < 0xff) : d < c + 1 ↔ d ≤ c := by
  have hc : c.toNat < 255 := UInt8.lt_iff_toNat_lt.mp h
  rw [UInt8.lt_iff_toNat_lt, UInt8.le_iff_toNat_le]
  change d.toNat < (c.toNat + 1) % 256 ↔ _
  omega

variable {key : Bytes}

theorem le_and_lt_prefixLimit {k} :
    (key ≤ k ∧ ∀ limit ∈ prefixLimit key, k < limit) ↔ key <+: k := by
  induction key generalizing k with
  | nil => simpa [prefixLimit] using not_lt.mp (List.not_lt_nil k)
  | cons c key ih =>
    cases k with
    | nil => simp
    | cons d k =>
      have hle : c :: key ≤ d :: k ↔ c < d ∨ c = d ∧ key ≤ k := by
        rw [le_iff_lt_or_eq, List.cons_lt_cons_iff, le_iff_lt_or_eq, List.cons.injEq]
        tauto
      rw [hle, List.cons_prefix_cons, ← ih, prefixLimit]
      cases hlimit : prefixLimit key with
      | some limit =>
        have hlt : d :: k < c :: limit ↔ d < c ∨ d = c ∧ k < limit := List.cons_lt_cons_iff
        simp only [Option.mem_def, Option.some.injEq, forall_eq', hlt]
        constructor
        · rintro ⟨hcd | ⟨rfl, hkey⟩, hdc | ⟨heq, hk⟩⟩
          · exact absurd hcd hdc.asymm
          · exact absurd hcd (heq ▸ lt_irrefl _)
          · exact absurd hdc (lt_irrefl _)
          · exact ⟨rfl, hkey, hk⟩
        · rintro ⟨rfl, hkey, hk⟩
          exact ⟨.inr ⟨rfl, hkey⟩, .inr ⟨rfl, hk⟩⟩
      | none =>
        by_cases hc : c < 0xff
        · have hlt : d :: k < [c + 1] ↔ d ≤ c := by
            rw [List.cons_lt_cons_iff]
            simp only [List.not_lt_nil, and_false, or_false]
            exact byte_lt_succ_iff hc
          simp only [if_pos hc, Option.mem_def, Option.some.injEq, forall_eq', hlt]
          constructor
          · rintro ⟨hcd | ⟨rfl, hkey⟩, hdc⟩
            · exact absurd hcd (not_lt.mpr hdc)
            · exact ⟨rfl, hkey, nofun⟩
          · rintro ⟨rfl, hkey, -⟩
            exact ⟨.inr ⟨rfl, hkey⟩, le_rfl⟩
        · simp only [if_neg hc]
          constructor
          · rintro ⟨hcd | ⟨rfl, hkey⟩, -⟩
            · exact absurd (hcd.trans_le (UInt8.le_iff_toNat_le.mpr (Nat.le_of_lt_succ d.toNat_lt) : d ≤ 0xff)) hc
            · exact ⟨rfl, hkey, nofun⟩
          · rintro ⟨rfl, hkey, -⟩
            exact ⟨.inr ⟨rfl, hkey⟩, nofun⟩

theorem live_sorted {l} (h : l.Pairwise fun a b => a.1 < b.1) :
    (live l).Pairwise fun a b => a.1 < b.1 :=
  h.filter _

theorem find_live {l} (h : l.Pairwise fun a b => a.1 < b.1) (k : Bytes) :
    OrderedMap.find k (live l) = (OrderedMap.find k l).bind nonNil := by
  rw [live, find_filter_value (· ≠ []) h]
  cases OrderedMap.find k l with
  | none => rfl
  | some value =>
    rw [Option.bind_some, nonNil]
    split_ifs with hvalue
    · rw [hvalue]
      rfl
    · rw [Option.filter_some_pos (by simpa using hvalue)]

/-- The keys that begin with the given one. -/
def under (key : Bytes) (m : OrderedMap Bytes Bytes) : OrderedMap Bytes Bytes :=
  m.filterKeys (key <+: ·)

/-- What the join of the caches' iterators goes over. -/
def underMerged (m : Poly.CacheDB) (key : Bytes) : List (Bytes × Bytes) :=
  live (merge (under key m.memdb).entries
    (live (merge (under key m.backend.memdb).entries (under key m.backend.store).entries)))

theorem underMerged_sorted (m : Poly.CacheDB) (key : Bytes) :
    (underMerged m key).Pairwise fun a b => a.1 < b.1 :=
  live_sorted (merge_sorted (OrderedMap.sorted _)
    (live_sorted (merge_sorted (OrderedMap.sorted _) (OrderedMap.sorted _))))

theorem find_underMerged {store} (hvalues : ∀ x ∈ store.entries, x.2 ≠ []) (ops : List LayerOp)
    (key k : Bytes) : OrderedMap.find k (underMerged (written store ops) key) =
      if key <+: k then view store ops k else none := by
  have hget (m : OrderedMap Bytes Bytes) :
      OrderedMap.find k (under key m).entries = if key <+: k then m.get k else none :=
    get_filterKeys m _ k
  have hsorted := merge_sorted (OrderedMap.sorted (under key (written store ops).backend.memdb))
    (OrderedMap.sorted (under key store))
  rw [underMerged, written_store, find_live (merge_sorted (OrderedMap.sorted _) (live_sorted hsorted)),
    find_merge (OrderedMap.sorted _), find_live hsorted, find_merge (OrderedMap.sorted _), hget, hget,
    hget, view_eq]
  split_ifs with hk
  · have hnonNil (value : Bytes) : (nonNil value).bind nonNil = nonNil value := by
      rw [nonNil]
      split_ifs with h
      · rfl
      · exact if_neg h
    cases (written store ops).memdb.get k with
    | some value => rfl
    | none =>
      cases (written store ops).backend.memdb.get k with
      | some value => exact hnonNil value
      | none =>
        cases hstore : store.get k with
        | none => rfl
        | some value =>
          have hne := hvalues _ (get_eq_some.mp hstore)
          exact (hnonNil value).trans (nonNil_of_ne hne)
  · rfl

theorem StoreIterator.CursorOver.mapKey {σ : Type} {O : StoreIterator σ} {s : σ} {es}
    (h : O.CursorOver s es) {f : Bytes → Bytes} (hf : f [] = []) :
    StoreIterator.CursorOver { O with key := fun s => f (O.key s) } s
      (es.map fun x => (f x.1, x.2)) := by
  have hne (es : List (Bytes × Bytes)) :
      decide (es.map (fun x => (f x.1, x.2)) ≠ []) = decide (es ≠ []) :=
    decide_eq_decide.mpr List.map_eq_nil_iff.not
  obtain ⟨R, hw, s', hfirst, h'⟩ := h
  refine ⟨fun s l => ∃ es, R s es ∧ l = es.map fun x => (f x.1, x.2), ⟨?_, ?_, ?_, ?_⟩, s', ?_, es,
    h', rfl⟩
  · rintro s l ⟨es, hs, rfl⟩
    change f (O.key s) = _
    rw [hw.key hs]
    cases es with
    | nil => exact hf
    | cons x es => rfl
  · rintro s l ⟨es, hs, rfl⟩
    rw [hw.value hs]
    cases es <;> rfl
  · rintro s l ⟨es, hs, rfl⟩
    exact hw.error hs
  · rintro s l ⟨es, hs, rfl⟩
    obtain ⟨s', hnext, hs'⟩ := hw.next hs
    refine ⟨s', ?_, es.tail, hs', List.map_tail.symm⟩
    rw [hnext, ← List.map_tail, hne]
  · change O.first s = _
    rw [hfirst, hne]

theorem filter_inRange (m : OrderedMap Bytes Bytes) (key : Bytes) :
    (m.entries.filter fun x => InRange (some (bytesPrefix key)) x.1) = (under key m).entries := by
  refine List.filter_congr fun x _ => decide_eq_decide.mpr ?_
  simp [InRange, bytesPrefix, ← le_and_lt_prefixLimit]

theorem ne_nil_of_mem_under {m c x} (h : x ∈ (under (c :: key) m).entries) : x.1 ≠ [] := by
  intro hnil
  have hprefix := (List.mem_filter.mp h).2
  rw [hnil] at hprefix
  simp at hprefix

/-- The iterator of the transaction cache, with enough steps for its loops. -/
theorem CacheDB.Represents.cursorOver {σ : Type} {S} {openStore : KVStore → Bytes → σ}
    {db : CacheDB} {m} (h : db.Represents m)
    (hstore : S.CursorOver (openStore m.backend.store (ST_STORAGE :: key))
      (under (ST_STORAGE :: key) m.backend.store).entries) :
    ∃ bound, ∀ fuel ≥ bound, (db.iterOps S fuel).CursorOver (db.newIterator openStore key)
      ((underMerged m (ST_STORAGE :: key)).map fun x => (stripKey x.1, x.2)) := by
  have hoverlay := h.2.2.cursorOver (some (bytesPrefix (ST_STORAGE :: key)))
  have hcache := h.1.cursorOver (some (bytesPrefix (ST_STORAGE :: key)))
  rw [filter_inRange] at hoverlay hcache
  rw [← h.2.1] at hstore
  have hkeys : ∀ x ∈ (under (ST_STORAGE :: key) m.memdb).entries ++
      ((under (ST_STORAGE :: key) m.backend.memdb).entries ++
        (under (ST_STORAGE :: key) db.backend.store).entries), x.1 ≠ [] := by
    intro x hx
    simp only [List.mem_append] at hx
    rcases hx with hx | hx | hx <;> exact ne_nil_of_mem_under hx
  obtain ⟨bound, hbound⟩ := JoinIter.cursorOver_nested hcache hoverlay hstore hkeys
  rw [underMerged, ← h.2.1]
  exact ⟨bound, fun fuel hfuel => (hbound fuel hfuel).mapKey rfl⟩

theorem exists_cons_of_mem {m c x} (h : x ∈ underMerged m (c :: key)) :
    ∃ k, x.1 = c :: k ∧ key <+: k := by
  have hunder {o : OrderedMap Bytes Bytes} (hx : x ∈ (under (c :: key) o).entries) :
      c :: key <+: x.1 := by
    simpa using (List.mem_filter.mp hx).2
  have hpre : c :: key <+: x.1 := by
    rcases mem_merge (mem_of_mem_live h) with hx | hx
    · exact hunder hx
    · rcases mem_merge (mem_of_mem_live hx) with hx | hx
      · exact hunder hx
      · exact hunder hx
  obtain ⟨rest, hrest⟩ := hpre
  exact ⟨key ++ rest, hrest.symm, List.prefix_append key rest⟩

variable {store : KVStore} (hvalues : ∀ x ∈ store.entries, x.2 ≠ []) (ops : List LayerOp) (key : Bytes)

/-- The entries that the iterator of the transaction cache shows. -/
def shownEntries (store : KVStore) (ops : List LayerOp) (key : Bytes) : List (Bytes × Bytes) :=
  (underMerged (written store ops) (ST_STORAGE :: key)).map fun x => (CacheDB.stripKey x.1, x.2)

theorem shownEntries_sorted : (shownEntries store ops key).Pairwise fun a b => a.1 < b.1 := by
  refine List.pairwise_map.mpr ((underMerged_sorted _ _).imp_of_mem ?_)
  intro a b ha hb hlt
  obtain ⟨ka, hka, -⟩ := exists_cons_of_mem ha
  obtain ⟨kb, hkb, -⟩ := exists_cons_of_mem hb
  rw [hka, hkb, List.cons_lt_cons_iff] at hlt
  rw [hka, hkb]
  exact (hlt.resolve_left (lt_irrefl _)).2

include hvalues

theorem mem_shownEntries (k value : Bytes) : (k, value) ∈ shownEntries store ops key ↔
    key <+: k ∧ view store ops (ST_STORAGE :: k) = some value := by
  have hmem : (k, value) ∈ shownEntries store ops key ↔
      (ST_STORAGE :: k, value) ∈ underMerged (written store ops) (ST_STORAGE :: key) := by
    rw [shownEntries, List.mem_map]
    constructor
    · rintro ⟨x, hx, heq⟩
      obtain ⟨k', hk', -⟩ := exists_cons_of_mem hx
      obtain ⟨hkey, rfl⟩ := Prod.mk.inj heq
      rw [hk'] at hkey
      obtain rfl : k' = k := hkey
      rw [← hk']
      exact hx
    · intro hx
      exact ⟨_, hx, rfl⟩
  have hfind : (ST_STORAGE :: k, value) ∈ underMerged (written store ops) (ST_STORAGE :: key) ↔
      OrderedMap.find (ST_STORAGE :: k) (underMerged (written store ops) (ST_STORAGE :: key)) =
        some value :=
    ⟨find_of_mem (underMerged_sorted _ _), find_eq_some⟩
  rw [hmem, hfind, find_underMerged hvalues]
  simp

end Iteration

/-- The layers behave as one map, whatever was written to them: for look-ups, for the store after
both commits, and for the iterator over each prefix, where the iterator of the store is taken to be a
sorted cursor over a snapshot. -/
theorem layers_refine_map {σ : Type} {S : StoreIterator σ} {openStore : KVStore → Bytes → σ}
    (hcursor : ∀ store key, S.CursorOver (openStore store key)
      (store.entries.filter fun x => key <+: x.1))
    {store : KVStore} (hstore : ∀ x ∈ store.entries, x.1 ≠ [] ∧ x.2 ≠ []) (rnd rnd' : ℕ → ℕ)
    (ops : List LayerOp) :
    ∃ db, runLayers store rnd rnd' ops = .ok db ∧
      (∀ k, db.get k = .ok ((view store ops (ST_STORAGE :: k)).getD [])) ∧
      (∃ db' store', db.commit = .ok db' ∧ db'.backend.commitTo = .ok store' ∧
        ∀ k, store'.get k = view store ops k) ∧
      ∀ key, ∃ es : List (Bytes × Bytes), es.Pairwise (fun a b => a.1 < b.1) ∧
        (∀ k value, (k, value) ∈ es ↔
          key <+: k ∧ view store ops (ST_STORAGE :: k) = some value) ∧
        ∃ bound, ∀ fuel ≥ bound, ∀ n, (db.iterOps S fuel).enumerate n (db.newIterator openStore key) =
          .ok ((List.range (n + 1)).map fun i => es[i]?) := by
  obtain ⟨db, hrun, h⟩ := runLayers_represents store rnd rnd' ops
  refine ⟨db, hrun, fun k => ?_, ?_, fun key => ?_⟩
  · rw [h.get, view_eq, Poly.CacheDB.get, Poly.OverlayDB.get, written_store]
    cases (written store ops).memdb.get (ST_STORAGE :: k) <;> rfl
  · obtain ⟨db', hcommit, hback⟩ := h.commit
    refine ⟨db', _, hcommit, hback.commitTo, fun k => ?_⟩
    rewrite [get_applyWriteSet, view_eq, Poly.OverlayDB.get, Poly.CacheDB.get_commit_memdb,
      Poly.CacheDB.commit_store, written_store]
    rfl
  · have hopen := hcursor (written store ops).backend.store (ST_STORAGE :: key)
    obtain ⟨bound, hbound⟩ := h.cursorOver hopen
    exact ⟨_, shownEntries_sorted ops key, mem_shownEntries (fun x hx => (hstore x hx).2) ops key,
      bound, fun fuel hfuel n => (hbound fuel hfuel).enumerate_eq n⟩

/-- A cursor over a list. -/
def snapshotIter : StoreIterator (List (Bytes × Bytes)) where
  first s := .ok (decide (s ≠ []), s)
  next s := .ok (decide (s.tail ≠ []), s.tail)
  key := headKey
  value := headValue
  error _ := none

theorem snapshotIter_cursorOver (es : List (Bytes × Bytes)) : snapshotIter.CursorOver es es := by
  refine ⟨fun s l => s = l, ⟨?_, ?_, ?_, ?_⟩, es, rfl, rfl⟩
  · rintro s l rfl
    rfl
  · rintro s l rfl
    rfl
  · intro s l _
    rfl
  · rintro s l rfl
    exact ⟨s.tail, rfl, rfl⟩

def storedPair : KVStore := (OrderedMap.empty.insert [ST_STORAGE, 1] [7]).insert [ST_STORAGE, 2] [8]

/-- The first key is deleted in the block cache and the second written in the transaction cache. -/
def layerWrites : List LayerOp := [.overlayDelete [ST_STORAGE, 1], .cachePut [2] [9]]

theorem layers_refine_map_pair : ∃ db, runLayers storedPair (fun _ => 0) (fun _ => 0) layerWrites =
      .ok db ∧ db.get [1] = .ok [] ∧ db.get [2] = .ok [9] := by
  obtain ⟨db, hrun, hget, -⟩ := layers_refine_map
    (fun store key => snapshotIter_cursorOver (store.entries.filter fun x => key <+: x.1))
    (show ∀ x ∈ storedPair.entries, x.1 ≠ [] ∧ x.2 ≠ [] by decide +kernel) (fun _ => 0) (fun _ => 0)
    layerWrites
  refine ⟨db, hrun, ?_, ?_⟩
  · rw [hget, show view storedPair layerWrites [ST_STORAGE, 1] = none by decide +kernel]
    rfl
  · rw [hget, show view storedPair layerWrites [ST_STORAGE, 2] = some [9] by decide +kernel]
    rfl

end Poly.Overlaydb
