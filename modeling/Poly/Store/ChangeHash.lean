import Poly.Store.Layers

/-! The digest of what a block has changed: over the keys and values of the block cache, in key order
and one after the other. -/
namespace Poly.Overlaydb

open Lib List

namespace OverlayDB

/-- What `ChangeHash` feeds to the digest. -/
def feed (self : OverlayDB) : Result Bytes := do
  let entries ← self.memdb.forEach
  return entries.foldl (fun stateDiff x => stateDiff ++ x.1 ++ x.2) []

def changeHash (sha256 : Bytes → Uint256) (self : OverlayDB) : Result Uint256 := do
  let stateDiff ← self.feed
  return sha256 stateDiff

def step (self : OverlayDB) : Op → Result OverlayDB
  | .put key value => self.put key value
  | .delete key => self.delete key
  | .reset rnd => return { self with memdb := self.memdb.reset rnd }

end OverlayDB

/-- A new block cache after some operations. -/
def runOverlay (store : KVStore) (rnd : ℕ → ℕ) (ops : List Op) : Result OverlayDB :=
  ops.foldlM OverlayDB.step (.newOverlayDB store rnd)

variable (es : List (Bytes × Bytes))

/-- Keys and values one after the other. -/
def joined : Bytes := es.flatMap fun x => x.1 ++ x.2

def lengths : List (ℕ × ℕ) := es.map fun x => (x.1.length, x.2.length)

/-- One string of bytes, cut into keys and values at different places. -/
def CutDifferently (es es' : List (Bytes × Bytes)) : Prop :=
  joined es = joined es' ∧ lengths es ≠ lengths es'

instance (es es' : List (Bytes × Bytes)) : Decidable (CutDifferently es es') :=
  inferInstanceAs (Decidable (_ ∧ _))

theorem eq_of_joined_eq {es es'} (hlengths : lengths es = lengths es')
    (h : joined es = joined es') : es = es' := by
  induction es generalizing es' with
  | nil => exact (map_eq_nil_iff.mp hlengths.symm).symm
  | cons x es ih =>
    cases es' with
    | nil => cases hlengths
    | cons x' es' =>
      obtain ⟨hhead, htail⟩ := List.cons.inj hlengths
      obtain ⟨hkey, hvalue⟩ := Prod.mk.inj hhead
      rw [joined, joined, flatMap_cons, flatMap_cons, append_assoc,
        append_assoc] at h
      obtain ⟨hkeys, hrest⟩ := append_inj h hkey
      obtain ⟨hvalues, hjoined⟩ := append_inj hrest hvalue
      rw [ih htail hjoined, Prod.ext hkeys hvalues]

theorem foldl_feed (s : Bytes) :
    es.foldl (fun stateDiff x => stateDiff ++ x.1 ++ x.2) s = s ++ joined es := by
  induction es generalizing s with
  | nil => exact (append_nil s).symm
  | cons x es ih =>
    rw [foldl_cons, ih, joined, joined, flatMap_cons]
    simp only [append_assoc]

/-- The write set in key order, where an empty value is a deletion. -/
def writeSet (ops : List Op) : OrderedMap Bytes Bytes := ops.foldl Op.write OrderedMap.empty

theorem writeSet_eq_iff {ops ops'} :
    writeSet ops = writeSet ops' ↔ lastWrite ops = lastWrite ops' := by
  have hget (ops : List Op) (k : Bytes) : (writeSet ops).get k = lastWrite ops k :=
    get_foldl_write ops OrderedMap.empty k
  constructor
  · intro h
    funext k
    rw [← hget, ← hget, h]
  · intro h
    refine OrderedMap.ext_get fun k => ?_
    rw [hget, hget, h]

theorem runOverlay_eq (store : KVStore) (rnd : ℕ → ℕ) (ops : List Op) :
    ∃ db, runOverlay store rnd ops = .ok db ∧ db.memdb.Represents (writeSet ops) := by
  have hfold : ∀ (ops : List Op) (db : OverlayDB) (m : OrderedMap Bytes Bytes),
      db.memdb.Represents m → ∃ db', ops.foldlM OverlayDB.step db = .ok db' ∧
        db'.memdb.Represents (ops.foldl Op.write m) := by
    intro ops
    induction ops with
    | nil => exact fun db m h => ⟨db, rfl, h⟩
    | cons op ops ih =>
      intro db m h
      obtain ⟨memdb, hone, h₁⟩ := apply_represents h op
      obtain ⟨db₂, hrun, h₂⟩ := ih { db with memdb := memdb } _ h₁
      refine ⟨db₂, bind_ok.mpr ⟨{ db with memdb := memdb }, ?_, hrun⟩, h₂⟩
      cases op with
      | put | delete => exact bind_ok.mpr ⟨memdb, hone, rfl⟩
      | reset rnd =>
        cases hone
        rfl
  exact hfold ops _ _ (.new rnd)

theorem feed_eq {db : OverlayDB} {m} (h : db.memdb.Represents m) :
    db.feed = .ok (joined m.entries) := by
  rw [OverlayDB.feed, h.forEach, ok_bind, foldl_feed]
  rfl

/-- The fed bytes depend on the write set alone, and they determine it unless the two write sets are
one string of bytes that is cut differently. -/
theorem changeHash_commits_iff (store store' : KVStore) (rnd rnd' : ℕ → ℕ) (ops ops' : List Op) :
    ∃ db db' s s', runOverlay store rnd ops = .ok db ∧ runOverlay store' rnd' ops' = .ok db' ∧
      (db.feed = .ok s ∧ ∀ sha256, db.changeHash sha256 = .ok (sha256 s)) ∧
      (db'.feed = .ok s' ∧ ∀ sha256, db'.changeHash sha256 = .ok (sha256 s')) ∧
      (lastWrite ops = lastWrite ops' → s = s') ∧
      ((s = s' ↔ lastWrite ops = lastWrite ops') ↔
        ¬ CutDifferently (writeSet ops).entries (writeSet ops').entries) := by
  obtain ⟨db, hrun, h⟩ := runOverlay_eq store rnd ops
  obtain ⟨db', hrun', h'⟩ := runOverlay_eq store' rnd' ops'
  have hhash {db : OverlayDB} {s : Bytes} (hfeed : db.feed = .ok s) (sha256 : Bytes → Uint256) :
      db.changeHash sha256 = .ok (sha256 s) := by
    rw [OverlayDB.changeHash, hfeed]
    rfl
  have hsame : lastWrite ops = lastWrite ops' →
      joined (writeSet ops).entries = joined (writeSet ops').entries := by
    intro heq
    rw [writeSet_eq_iff.mpr heq]
  refine ⟨db, db', _, _, hrun, hrun', ⟨feed_eq h, hhash (feed_eq h)⟩,
    ⟨feed_eq h', hhash (feed_eq h')⟩, hsame, ?_⟩
  constructor
  · rintro hiff ⟨hjoined, hlengths⟩
    apply hlengths
    rw [writeSet_eq_iff.mpr (hiff.mp hjoined)]
  · intro hcut
    refine ⟨fun hjoined => writeSet_eq_iff.mp ?_, hsame⟩
    apply OrderedMap.ext
    by_contra hne
    exact hcut ⟨hjoined, fun hlengths => hne (eq_of_joined_eq hlengths hjoined)⟩

/-- `a` with the value `bc`, and `ab` with the value `c`. -/
theorem change_bytes_shared :
    (do let db ← runOverlay OrderedMap.empty (fun _ => 0) [.put [97] [98, 99]]; db.feed) =
        .ok [97, 98, 99] ∧
      (do let db ← runOverlay OrderedMap.empty (fun _ => 0) [.put [97, 98] [99]]; db.feed) =
        .ok [97, 98, 99] ∧
      lastWrite [.put [97] [98, 99]] ≠ lastWrite [.put [97, 98] [99]] := by
  refine ⟨by decide +kernel, by decide +kernel, fun h => ?_⟩
  have hkey := congrFun h [97]
  exact absurd hkey (by decide)

end Poly.Overlaydb
