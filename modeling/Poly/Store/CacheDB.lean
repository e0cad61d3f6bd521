import Poly.Common.ZeroCopy
import Poly.Lib.OrderedMap

/-! The contract storage: a transaction cache over a block cache over the persistent store. -/
namespace Poly

open Lib OrderedMap

/-- The persistent key-value store. -/
abbrev KVStore := OrderedMap Bytes Bytes

/-- Writes not yet persistent; an empty value stands for a deletion. -/
abbrev MemDB := OrderedMap Bytes Bytes

def MemDB.put (m : MemDB) (key value : Bytes) : MemDB := m.insert key value

def MemDB.delete (m : MemDB) (key : Bytes) : MemDB := m.insert key []

variable (value : Bytes)

/-- A stored value as the readers see it: a value of length zero is `nil`. -/
def nonNil : Option Bytes := if value = [] then none else some value

theorem nonNil_of_ne {value} (h : value ≠ []) : nonNil value = some value := if_neg h

/-- The block cache. -/
structure OverlayDB where
  store : KVStore
  memdb : MemDB
  deriving DecidableEq

namespace OverlayDB

def new (store : KVStore) : OverlayDB := ⟨store, OrderedMap.empty⟩

variable (db : OverlayDB)

def get (key : Bytes) : Option Bytes :=
  match db.memdb.get key with
  | some value => nonNil value
  | none => db.store.get key

def put (key value : Bytes) : OverlayDB :=
  { db with memdb := db.memdb.put key value }

def delete (key : Bytes) : OverlayDB :=
  { db with memdb := db.memdb.delete key }

def getWriteSet : MemDB := db.memdb

/-- The digest of the writes in key order. -/
def changeHash (sha256 : Bytes → Uint256) (db : OverlayDB) : Uint256 :=
  sha256 (db.memdb.entries.flatMap fun x => x.1 ++ x.2)

theorem get_put (key k value : Bytes) :
    (db.put key value).get k = if k = key then nonNil value else db.get k := by
  unfold get put MemDB.put
  rw [get_insert]
  split_ifs <;> rfl

end OverlayDB

variable (store : KVStore)

/-- One write of a block on its way into the store: an empty value deletes. -/
def applyWrite (x : Bytes × Bytes) : KVStore :=
  if x.2 = [] then store.erase x.1 else store.insert x.1 x.2

/-- The write set of a block, saved. -/
def applyWriteSet (writeSet : MemDB) : KVStore :=
  writeSet.entries.foldl applyWrite store

theorem get_applyWrite (x : Bytes × Bytes) (k : Bytes) :
    (applyWrite store x).get k = if k = x.1 then nonNil x.2 else store.get k := by
  unfold applyWrite nonNil
  split_ifs with hx hk hk
  · rw [get_erase, if_pos hk]
  · rw [get_erase, if_neg hk]
  · rw [get_insert, if_pos hk]
  · rw [get_insert, if_neg hk]

theorem get_applyWriteSet (writeSet : MemDB) (k : Bytes) :
    (applyWriteSet store writeSet).get k = (OverlayDB.mk store writeSet).get k := by
  refine (foldl_write applyWrite (OrderedMap.get · k) nonNil k
    (fun s x hk => (get_applyWrite s x k).trans (if_pos hk))
    (fun s x hk => (get_applyWrite s x k).trans (if_neg hk)) writeSet.sorted store).trans ?_
  unfold OverlayDB.get OrderedMap.get
  cases OrderedMap.find k writeSet.entries <;> rfl

/-- One entry of a transaction cache on its way into the block cache. -/
def commitEntry (db : OverlayDB) (x : Bytes × Bytes) : OverlayDB :=
  if x.2 = [] then db.delete x.1 else db.put x.1 x.2

theorem commitEntry_eq (db : OverlayDB) (x : Bytes × Bytes) : commitEntry db x = db.put x.1 x.2 := by
  unfold commitEntry
  split_ifs with h
  · rw [h]
    rfl
  · rfl

def ST_STORAGE : UInt8 := 0x05

/-- Every write is to contract storage. -/
def MemDB.Storage (m : MemDB) : Prop := ∀ x ∈ m.entries, x.1.head? = some ST_STORAGE

theorem MemDB.Storage.empty : MemDB.Storage OrderedMap.empty := fun _ hx => absurd hx List.not_mem_nil

theorem MemDB.Storage.put {m : MemDB} (h : m.Storage) {key value}
    (hk : key.head? = some ST_STORAGE) : (m.put key value).Storage := by
  intro x hx
  rcases mem_insertEntry hx with rfl | hx
  · exact hk
  · exact h x hx

/-- The transaction cache. It writes under the storage prefix only. -/
structure CacheDB where
  memdb : MemDB
  backend : OverlayDB
  storage : memdb.Storage
  deriving DecidableEq

namespace CacheDB

def new (store : OverlayDB) : CacheDB := ⟨OrderedMap.empty, store, .empty⟩

variable (db : CacheDB)

def put (key value : Bytes) : CacheDB :=
  ⟨db.memdb.put (ST_STORAGE :: key) value, db.backend, db.storage.put rfl⟩

def delete (key : Bytes) : CacheDB :=
  ⟨db.memdb.delete (ST_STORAGE :: key), db.backend, db.storage.put rfl⟩

def get (key : Bytes) : Option Bytes :=
  match db.memdb.get (ST_STORAGE :: key) with
  | some value => nonNil value
  | none => db.backend.get (ST_STORAGE :: key)

/-- Copy the transaction's writes to the block cache. -/
def commit : OverlayDB := db.memdb.entries.foldl commitEntry db.backend

theorem with_backend_eq {db : CacheDB} {backend} (h : db.backend = backend) :
    { db with backend := backend } = db := by
  subst h
  rfl

theorem storage_commit {db : CacheDB} (h : db.backend.memdb.Storage) : db.commit.memdb.Storage := by
  have hfold : ∀ l : List (Bytes × Bytes), (∀ x ∈ l, x.1.head? = some ST_STORAGE) →
      ∀ o : OverlayDB, o.memdb.Storage → (l.foldl commitEntry o).memdb.Storage := by
    intro l
    induction l with
    | nil => exact fun _ _ ho => ho
    | cons x l ih =>
      intro hl o ho
      rw [List.foldl_cons, commitEntry_eq]
      exact ih (fun y hy => hl y (List.mem_cons_of_mem _ hy)) _
        (ho.put (hl x List.mem_cons_self))
  exact hfold _ db.storage _ h

theorem get_put (key k value : Bytes) :
    (db.put key value).get k = if k = key then nonNil value else db.get k := by
  unfold get put MemDB.put
  simp only [get_insert, List.cons.injEq, true_and]
  split_ifs <;> rfl

@[simp] theorem get_put_self {key value} (h : value ≠ []) :
    (db.put key value).get key = some value := by
  rw [get_put, if_pos rfl, nonNil_of_ne h]

@[simp] theorem get_new (store : OverlayDB) (key : Bytes) :
    (new store).get key = store.get (ST_STORAGE :: key) := rfl

theorem commit_store : db.commit.store = db.backend.store := by
  have hfold : ∀ (l : List (Bytes × Bytes)) (o : OverlayDB),
      (l.foldl commitEntry o).store = o.store := by
    intro l
    induction l with
    | nil => exact fun _ => rfl
    | cons x l ih =>
      intro o
      rw [List.foldl_cons, ih, commitEntry_eq]
      rfl
  exact hfold _ _

theorem get_commit_memdb (k : Bytes) :
    db.commit.memdb.get k = (db.memdb.get k).or (db.backend.memdb.get k) := by
  have hw (s : OverlayDB) (x : Bytes × Bytes) :
      (commitEntry s x).memdb.get k = if k = x.1 then some x.2 else s.memdb.get k := by
    rw [commitEntry_eq, OverlayDB.put, MemDB.put, get_insert]
    split_ifs <;> rfl
  refine (foldl_write commitEntry (fun s => s.memdb.get k) some k
    (fun s x hk => (hw s x).trans (if_pos hk)) (fun s x hk => (hw s x).trans (if_neg hk))
    db.memdb.sorted db.backend).trans ?_
  unfold OrderedMap.get
  cases OrderedMap.find k db.memdb.entries <;> rfl

/-- What the transaction saw is what the block cache holds after the commit. -/
theorem get_commit (key : Bytes) :
    db.commit.get (ST_STORAGE :: key) = db.get key := by
  have hw (s : OverlayDB) (x : Bytes × Bytes) : (commitEntry s x).get (ST_STORAGE :: key) =
      if ST_STORAGE :: key = x.1 then nonNil x.2 else s.get (ST_STORAGE :: key) := by
    rw [commitEntry_eq]
    exact OverlayDB.get_put s x.1 _ x.2
  refine (foldl_write commitEntry (OverlayDB.get · _) nonNil _
    (fun s x hk => (hw s x).trans (if_pos hk)) (fun s x hk => (hw s x).trans (if_neg hk))
    db.memdb.sorted db.backend).trans ?_
  unfold get OrderedMap.get
  cases OrderedMap.find (ST_STORAGE :: key) db.memdb.entries <;> rfl

end CacheDB

/-- `GenRawStorageItem`: the state version, then the value with its length. -/
def genRawStorageItem : Bytes := 0 :: Sink.writeVarBytes value

def storageItem : Reader Failure Bytes := do
  let _ ← Source.nextByte (.error ("[StorageItem], StateBase Deserialize failed, error:" ++
    "[StateBase], StateBase Deserialize failed,EOF"))
  Source.nextVarBytes (.error "[StorageItem], Value Deserialize failed, error:EOF")

def getValueFromRawStorageItem (raw : Bytes) : Result Bytes := do
  let (value, _) ← storageItem.run raw
  return value

theorem genRawStorageItem_ne_nil : genRawStorageItem value ≠ [] :=
  List.cons_ne_nil _ _

theorem getValueFromRawStorageItem_gen {value} (h : value.length < 2 ^ 64) :
    getValueFromRawStorageItem (genRawStorageItem value) = .ok value := by
  have hv := nextVarBytes_run
    (Failure.error "[StorageItem], Value Deserialize failed, error:EOF") value h []
  rw [List.append_nil] at hv
  have hrun : storageItem.run (genRawStorageItem value) = .ok (value, []) :=
    run_bind_ok.mpr ⟨_, _, nextByte_run _ _ _, hv⟩
  rw [getValueFromRawStorageItem, hrun]
  rfl

end Poly
