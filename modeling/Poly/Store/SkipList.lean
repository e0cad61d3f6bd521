import Poly.Common.ZeroCopy
import Poly.Lib.OrderedMap
import Poly.Lib.Linked

/-! The in-memory database of the overlay: a skip list whose nodes lie in one array of integers and
whose keys and values lie in one byte buffer. -/
namespace Poly

open Lib

/-- Reading a part of a slice; out of its bounds Go panics. -/
def goSlice {α : Type} (l : List α) (i j : ℕ) : Result (List α) :=
  if i ≤ j ∧ j ≤ l.length then .ok ((l.take j).drop i) else .error (.panic "slice bounds out of range")

/-- Writing to a slice; out of its bounds Go panics. -/
def goSet {α : Type} (l : List α) (i : ℕ) (a : α) : Result (List α) :=
  if i < l.length then .ok (l.set i a) else .error (.panic "index out of range")

/-- `bytes.Compare`. -/
def compareBytes (a b : Bytes) : Ordering := if a < b then .lt else if a = b then .eq else .gt

@[simp] theorem compareBytes_eq_lt {a b} : compareBytes a b = .lt ↔ a < b := by
  unfold compareBytes
  split_ifs <;> simp_all

@[simp] theorem compareBytes_eq_eq {a b} : compareBytes a b = .eq ↔ a = b := by
  unfold compareBytes
  split_ifs with hlt heq
  · simpa using ne_of_lt hlt
  · simpa using heq
  · simpa using heq

@[simp] theorem compareBytes_eq_gt {a b} : compareBytes a b = .gt ↔ b < a := by
  unfold compareBytes
  split_ifs with hlt heq
  · simpa using hlt.le
  · simpa using heq.le
  · simpa using lt_of_le_of_ne (not_lt.mp hlt) (Ne.symm heq)

namespace Overlaydb

def tMaxHeight : ℕ := 12

/-- The fields of a node: the offset of its key and value, their lengths, its height and then its
successors, one for each level. -/
def nKey : ℕ := 1

def nVal : ℕ := 2

def nNext : ℕ := 4

/-- The node numbered 0 is the head of the list. -/
structure MemDB where
  /-- What the random source is yet to draw. -/
  rnd : ℕ → ℕ
  kvData : Bytes
  nodeData : List ℕ
  prevNode : List ℕ
  maxHeight : ℕ
  n : ℕ
  kvSize : ℤ

/-- A loop that has not ended within its steps. -/
def unfinished : Failure := .panic "loop does not end"

/-- `randHeight`, from the height `h` on, with what is left of the random source. -/
def randHeight (rnd : ℕ → ℕ) (h : ℕ) : ℕ × (ℕ → ℕ) :=
  if h < tMaxHeight then
    if rnd 0 % 4 = 0 then randHeight (fun i => rnd (i + 1)) (h + 1)
    else (h, fun i => rnd (i + 1))
  else (h, rnd)
termination_by tMaxHeight - h

namespace MemDB

def newMemDB (rnd : ℕ → ℕ) : MemDB where
  rnd := rnd
  kvData := []
  nodeData := [0, 0, 0, tMaxHeight] ++ List.replicate tMaxHeight 0
  prevNode := List.replicate tMaxHeight 0
  maxHeight := 1
  n := 0
  kvSize := 0

/-- The buffers are kept, with no length, and the random source starts anew. -/
def reset (_p : MemDB) (rnd : ℕ → ℕ) : MemDB where
  rnd := rnd
  maxHeight := 1
  n := 0
  kvSize := 0
  kvData := []
  nodeData := [0, 0, 0, tMaxHeight] ++ List.replicate tMaxHeight 0
  prevNode := List.replicate tMaxHeight 0

variable (p : MemDB)

/-- The key of a node. -/
def nodeKey (node : ℕ) : Result Bytes := do
  let o ← goIndex p.nodeData node
  let len ← goIndex p.nodeData (node + nKey)
  goSlice p.kvData o (o + len)

/-- The key and the value of a node. -/
def nodeEntry (node : ℕ) : Result (Bytes × Bytes) := do
  let n ← goIndex p.nodeData node
  let len ← goIndex p.nodeData (node + nKey)
  let m := n + len
  let key ← goSlice p.kvData n m
  let valen ← goIndex p.nodeData (node + nVal)
  let val ← goSlice p.kvData m (m + valen)
  return (key, val)

variable (key : Bytes)

/-- How the key of a node compares; the end of a level comes after every key. -/
def compareNode (next : ℕ) : Result Ordering :=
  if next ≠ 0 then do
    let k ← p.nodeKey next
    return compareBytes k key
  else return .gt

/-- `p.prevNode[h] = node`, where the search was asked to note it. -/
def notePrev (prev : Bool) (prevNode : List ℕ) (h node : ℕ) : Result (List ℕ) :=
  if prev then goSet prevNode h node else return prevNode

/-- The search for the first node with a key not below `key`. With `prev` it also notes the last
node before it on every level. -/
def findGELoop (p : MemDB) (key : Bytes) (prev : Bool) :
    ℕ → ℕ → ℕ → List ℕ → Result (ℕ × Bool × List ℕ)
  | 0, _, _, _ => .error unfinished
  | fuel + 1, node, h, prevNode => do
    let next ← goIndex p.nodeData (node + nNext + h)
    let c ← p.compareNode key next
    if c = .lt then findGELoop p key prev fuel next h prevNode
    else if prev = false ∧ c = .eq then return (next, true, prevNode)
    else
      let prevNode ← notePrev prev prevNode h node
      if h = 0 then return (next, c == .eq, prevNode)
      else findGELoop p key prev fuel node (h - 1) prevNode

def findGE (prev : Bool) : Result (ℕ × Bool × List ℕ) :=
  findGELoop p key prev p.nodeData.length 0 (p.maxHeight - 1) p.prevNode

def findLTLoop (p : MemDB) (key : Bytes) : ℕ → ℕ → ℕ → Result ℕ
  | 0, _, _ => .error unfinished
  | fuel + 1, node, h => do
    let next ← goIndex p.nodeData (node + nNext + h)
    let _ ← goIndex p.nodeData next
    let c ← p.compareNode key next
    if c ≠ .lt then
      if h = 0 then return node else findLTLoop p key fuel node (h - 1)
    else findLTLoop p key fuel next h

def findLT : Result ℕ :=
  findLTLoop p key p.nodeData.length 0 (p.maxHeight - 1)

def findLastLoop (p : MemDB) : ℕ → ℕ → ℕ → Result ℕ
  | 0, _, _ => .error unfinished
  | fuel + 1, node, h => do
    let next ← goIndex p.nodeData (node + nNext + h)
    if next = 0 then
      if h = 0 then return node else findLastLoop p fuel node (h - 1)
    else findLastLoop p fuel next h

def findLast : Result ℕ := findLastLoop p p.nodeData.length 0 (p.maxHeight - 1)

/-- The loop that links a new node in: on level `i`, `n` is the node before it. -/
def linkLoop (node : ℕ) : ℕ → List ℕ → List ℕ → Result (List ℕ)
  | _, [], nodeData => return nodeData
  | i, n :: ns, nodeData => do
    let m := n + nNext + i
    let next ← goIndex nodeData m
    let nodeData ← goSet (nodeData ++ [next]) m node
    linkLoop node (i + 1) ns nodeData

/-- The part of `Put` for a key that has a node. -/
def overwrite (node : ℕ) (key value : Bytes) : Result MemDB := do
  let p ← if value.length ≠ 0 then do
      let nodeData ← goSet p.nodeData node p.kvData.length
      pure { p with kvData := p.kvData ++ key ++ value, nodeData := nodeData }
    else pure p
  let m ← goIndex p.nodeData (node + nVal)
  let nodeData ← goSet p.nodeData (node + nVal) value.length
  return { p with nodeData := nodeData, kvSize := p.kvSize + (value.length - m) }

/-- The part of `Put` for a new key. -/
def insertNew (key value : Bytes) : Result MemDB := do
  let (h, rnd) := randHeight p.rnd 1
  let p := { p with rnd := rnd }
  let p := if h > p.maxHeight then
      { p with
        prevNode := p.prevNode.mapIdx fun i n => if p.maxHeight ≤ i ∧ i < h then 0 else n
        maxHeight := h }
    else p
  let kvOffset := p.kvData.length
  let node := p.nodeData.length
  let nodeData ← linkLoop node 0 (p.prevNode.take h)
    (p.nodeData ++ [kvOffset, key.length, value.length, h])
  return { p with
    kvData := p.kvData ++ key ++ value
    nodeData := nodeData
    kvSize := p.kvSize + (key.length + value.length)
    n := p.n + 1 }

def put (key value : Bytes) : Result MemDB := do
  let (node, exact, prevNode) ← p.findGE key true
  let p := { p with prevNode := prevNode }
  if exact then p.overwrite node key value else p.insertNew key value

def delete : Result MemDB := p.put key []

/-- The value, and whether the key is unknown. -/
def get : Result (Bytes × Bool) := do
  let (node, exact, _) ← p.findGE key false
  if exact then
    let valen ← goIndex p.nodeData (node + nVal)
    if valen ≠ 0 then
      let o ← goIndex p.nodeData node
      let len ← goIndex p.nodeData (node + nKey)
      let value ← goSlice p.kvData (o + len) (o + len + valen)
      return (value, false)
    else return ([], false)
  else return ([], true)

/-- The pairs that the loop of `ForEach` passes on, in its order. -/
def forEachLoop (p : MemDB) : ℕ → ℕ → Result (List (Bytes × Bytes))
  | 0, _ => .error unfinished
  | fuel + 1, node =>
    if node = 0 then return [] else do
      let x ← p.nodeEntry node
      let next ← goIndex p.nodeData (node + nNext)
      let xs ← forEachLoop p fuel next
      return x :: xs

def forEach : Result (List (Bytes × Bytes)) := do
  let node ← goIndex p.nodeData nNext
  forEachLoop p p.nodeData.length node

def len : ℕ := p.n

def size : ℤ := p.kvSize

end MemDB

end Overlaydb

end Poly
