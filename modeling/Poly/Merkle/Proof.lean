import Poly.Merkle.Hasher

/-! Audit paths lead to the root, and whatever is proved against a root is one of its leaves. -/
namespace Poly.Merkle

open Lib Lib.MerkleTree List

variable (sha256 : Bytes → Uint256)

def sideByte : Side → UInt8
  | .left => LEFT
  | .right => RIGHT

variable (path : List (Side × Uint256))

/-- A path as it is written after the value: each sibling follows the byte of its side. -/
def encodePath : Bytes :=
  path.flatMap fun x => sideByte x.1 :: x.2.val

@[simp] theorem encodePath_length :
    (encodePath path).length = path.length * (32 + 1) := by
  induction path with
  | nil => rfl
  | cons x path ih =>
    obtain ⟨side, v, hv⟩ := x
    rw [encodePath, flatMap_cons, length_append, ← encodePath]
    simp only [length_cons, hv]
    omega

@[simp] theorem merkleHashes_length (l : List Uint256) (d : ℕ) :
    (merkleHashes sha256 l d).length = d + 1 := by
  induction d generalizing l with
  | zero => rfl
  | succ d ih => simp [merkleHashes, ih]

theorem leafPathLoop_append {tree ext i} (hi : i < tree.length) (index : ℕ) (sink : Bytes) :
    leafPathLoop (tree ++ ext) i index sink = leafPathLoop tree i index sink := by
  induction i generalizing index sink with
  | zero => rfl
  | succ i ih =>
    simp only [leafPathLoop, goIndex, getElem?_append_left hi, ih (by omega)]

/-- One turn of the loop writes the sibling of the position, if it has one. -/
theorem leafPathLoop_step {tree l i index} (ht : tree[i + 1]? = some l) (hi : index < l.length)
    (sink : Bytes) :
    leafPathLoop tree (i + 1) index sink =
      leafPathLoop tree i (index / 2) (sink ++ encodePath (sibling l index)) := by
  rw [leafPathLoop, goIndex_ok.mpr ht, ok_bind, sibling]
  by_cases hlast : index + 1 = l.length ∧ l.length % 2 = 1
  · rw [if_pos (by omega), if_pos hlast]
    simp [encodePath]
  · rw [if_neg (by omega), if_neg hlast]
    by_cases hodd : index % 2 = 1
    · have hp : l[index - 1]? = some l[index - 1] := getElem?_eq_getElem (by omega)
      rw [if_pos (by omega), if_pos hodd, goIndex_ok.mpr hp, hp]
      simp [encodePath, sideByte]
    · have hp : l[index + 1]? = some l[index + 1] := getElem?_eq_getElem (by omega)
      rw [if_neg (by omega), if_neg hodd, goIndex_ok.mpr hp, hp]
      simp [encodePath, sideByte]

theorem leafPathLoop_eq {l d index} (hi : index < l.length) (sink : Bytes) :
    leafPathLoop (merkleHashes sha256 l d) d index sink =
      .ok (sink ++ encodePath (auditPath (hashChildren sha256) d l index)) := by
  induction d generalizing l index sink with
  | zero => simp [leafPathLoop, auditPath, encodePath]
  | succ d ih =>
    have ht : (merkleHashes sha256 l (d + 1))[d + 1]? = some l := by
      simp [merkleHashes]
    have hn : index / 2 < (nextLevel sha256 l).length := by
      rw [nextLevel, pairUp_length]
      omega
    rw [leafPathLoop_step ht hi, merkleHashes, leafPathLoop_append (by simp), ih hn, auditPath, nextLevel]
    simp [encodePath]

theorem getIndex_eq_some {leaf hashes index} (h : getIndex leaf hashes = some index) :
    hashes[index]? = some leaf := by
  obtain ⟨hlt, hp, -⟩ := findIdx?_eq_some_iff_getElem.mp h
  exact List.getElem?_eq_some_iff.mpr ⟨hlt, by simpa using hp⟩

/-- What `MerkleLeafPath` returns: the value, then the audit path of a position of its hash. -/
theorem merkleLeafPath_ok {data path hashes} (h : merkleLeafPath sha256 data hashes = .ok path) :
    hashes.length * 33 + data.length + 8 ≤ MAX_SIZE ∧
      ∃ index, hashes[index]? = some (hashLeaf sha256 data) ∧
        path = Sink.writeVarBytes data ++
          encodePath (auditPath (hashChildren sha256) (depth hashes.length) hashes index) := by
  obtain ⟨_, hsize, h⟩ := bind_ok.mp h
  obtain ⟨index, hindex, h⟩ := bind_ok.mp h
  have hleaf := getIndex_eq_some (orFail_ok.mp hindex)
  obtain ⟨hlt, -⟩ := List.getElem?_eq_some_iff.mp hleaf
  rw [leafPathLoop_eq sha256 hlt] at h
  exact ⟨not_lt.mp (failIf_ok.mp hsize), index, hleaf, (Except.ok.inj h).symm⟩

/-- A value within the size limit whose hash is a leaf has a path. -/
theorem merkleLeafPath_isOk {data hashes} (hs : hashes.length * 33 + data.length + 8 ≤ MAX_SIZE)
    (hm : hashLeaf sha256 data ∈ hashes) :
    ∃ path, merkleLeafPath sha256 data hashes = .ok path := by
  obtain ⟨index, hindex⟩ : ∃ index, getIndex (hashLeaf sha256 data) hashes = some index := by
    rw [← Option.isSome_iff_exists, getIndex, findIdx?_isSome, any_eq_true]
    exact ⟨_, hm, by simp⟩
  obtain ⟨hlt, -⟩ := List.getElem?_eq_some_iff.mp (getIndex_eq_some hindex)
  simp only [merkleLeafPath, failIf_of_not (not_lt.mpr hs), ok_bind, orFail_ok.mpr hindex]
  exact ⟨_, leafPathLoop_eq sha256 hlt _⟩

/-- One sibling as `MerkleProve` reads it; every side byte but `LEFT` stands for the right. -/
def nextSibling : Reader Failure (Side × Uint256) := do
  let f ← Source.nextByte (.error "read byte error")
  let v ← Source.nextHash (.error "read hash error")
  return (if f = LEFT then .left else .right, v)

theorem merkleProveLoop_eq (n : ℕ) (hash : Uint256) :
    merkleProveLoop sha256 n hash =
      (climb (hashChildren sha256) hash · ) <$> Reader.replicate nextSibling n := by
  induction n generalizing hash with
  | zero => simp [merkleProveLoop, Reader.replicate]
  | succ n ih =>
    simp only [merkleProveLoop, ih, Reader.replicate, nextSibling, map_eq_pure_bind, bind_assoc,
      pure_bind]
    congr 1
    funext f
    congr 1
    funext v
    by_cases hf : f = LEFT <;> simp [hf, climbStep]

theorem nextSibling_run (x : Side × Uint256) (rest : Bytes) :
    nextSibling.run ((sideByte x.1 :: x.2.val) ++ rest) = .ok (x, rest) := by
  obtain ⟨side, v⟩ := x
  refine run_bind_ok.mpr ⟨_, _, nextByte_run _ _ _, ?_⟩
  refine run_bind_ok.mpr ⟨_, _, nextFixed_run _ v rest, ?_⟩
  cases side <;> rfl

theorem replicate_nextSibling_run (rest : Bytes) :
    (Reader.replicate nextSibling path.length).run (encodePath path ++ rest) = .ok (path, rest) :=
  Reader.roundTrip_replicate (P := fun _ => True) (fun x _ rest => nextSibling_run x rest) path
    (fun _ _ => trivial) rest

/-- The value and the siblings that a path carries; what follows the last whole sibling is not
read. -/
def parsePath (path : Bytes) : Result (Bytes × List (Side × Uint256)) := do
  let (value, rest) ← (Source.nextVarBytes (.error "read bytes error")).run path
  let (siblings, _) ← (Reader.replicate nextSibling (rest.length / (32 + 1))).run rest
  return (value, siblings)

/-- A path is accepted exactly when its siblings lead from its value to the root. -/
theorem merkleProve_ok_iff {path root v} :
    merkleProve sha256 path root = .ok v ↔ ∃ siblings, parsePath path = .ok (v, siblings) ∧
      (climb (hashChildren sha256) (hashLeaf sha256 v) siblings).val = root := by
  simp only [merkleProve, parsePath, merkleProveLoop_eq, bind_ok, Prod.exists, run_map_ok]
  constructor
  · rintro ⟨value, rest, hv, hash, tail, ⟨siblings, hs, rfl⟩, _, hc, hr⟩
    obtain rfl := Except.ok.inj hr
    exact ⟨siblings, ⟨value, rest, hv, siblings, tail, hs, rfl⟩, not_not.mp (failIf_ok.mp hc)⟩
  · rintro ⟨siblings, ⟨value, rest, hv, s, tail, hs, hr⟩, hroot⟩
    obtain ⟨rfl, rfl⟩ := ok_mk_inj hr
    exact ⟨value, rest, hv, _, tail, ⟨s, hs, rfl⟩, (), failIf_ok.mpr (not_not.mpr hroot), rfl⟩

theorem parsePath_encodePath {data} (h : data.length < 2 ^ 64) (path : List (Side × Uint256)) :
    parsePath (Sink.writeVarBytes data ++ encodePath path) = .ok (data, path) := by
  have hv := nextVarBytes_run (Failure.error "read bytes error") data h (encodePath path)
  have hp := replicate_nextSibling_run path []
  rw [append_nil] at hp
  simp only [parsePath, hv, ok_bind, encodePath_length, Nat.mul_div_cancel _ (Nat.succ_pos 32), hp]
  rfl

theorem separated_messages : Separated leafMessage childrenMessage where
  leaf_inj := by
    intro a b h
    exact (List.cons.inj h).2
  node_inj := by
    intro a b c d h
    have h' := append_inj (List.cons.inj h).2 (by rw [a.2, c.2])
    exact ⟨Subtype.ext h'.1, Subtype.ext h'.2⟩
  leaf_ne_node := by
    intro v a b h
    exact absurd (List.cons.inj h).1 (by decide)

/-- The path of a value that the builder returns is accepted against the full-tree root. -/
theorem merkleProve_merkleLeafPath {data path hashes}
    (h : merkleLeafPath sha256 data hashes = .ok path) :
    ∃ root, hashFullTreeWithLeafHash sha256 hashes = .ok root ∧
      merkleProve sha256 path root.val = .ok data := by
  obtain ⟨hsize, index, hindex, rfl⟩ := merkleLeafPath_ok sha256 h
  have hmax : MAX_SIZE < 2 ^ 32 := by decide
  have hclimb := climb_auditPath (hashChildren sha256) (hashEmpty sha256)
    (Nat.le_pow_clog (b := 2) (by decide) hashes.length) hindex
  refine ⟨_, hashFullTreeWithLeafHash_eq sha256 hashes, (merkleProve_ok_iff sha256).mpr ?_⟩
  rw [Nat.mod_eq_of_lt (by omega), take_length]
  exact ⟨auditPath (hashChildren sha256) (depth hashes.length) hashes index,
    parsePath_encodePath (by omega) _, congrArg Subtype.val hclimb⟩

/-- The messages hashed while a path is checked. -/
def merkleProveMessages (path : Bytes) : List Bytes :=
  match parsePath path with
  | .ok (v, siblings) =>
    leafMessage v :: climbMessages sha256 childrenMessage (hashLeaf sha256 v) siblings
  | .error _ => []

/-- The messages hashed to compute the full-tree root over the leaf images of the values. -/
def hashFullTreeMessages (values : List Bytes) : List Bytes :=
  let counted := values.take (values.length % 2 ^ 32)
  if counted = [] then [[]]
  else treeMessages sha256 leafMessage childrenMessage (hashEmpty sha256) counted

/-- A value proved against the root of a list of values is one of them, or two of the messages
hashed for the path and for the tree collide. -/
theorem merkleProve_sound (values : List Bytes) (path v : Bytes) (root : Uint256)
    (hroot : hashFullTreeWithLeafHash sha256 (values.map (hashLeaf sha256)) = .ok root)
    (h : merkleProve sha256 path root.val = .ok v) :
    v ∈ values ∨
      Collision sha256 (merkleProveMessages sha256 path ++ hashFullTreeMessages sha256 values) := by
  obtain ⟨siblings, hpath, hclimb⟩ := (merkleProve_ok_iff sha256).mp h
  have hclimb := Subtype.ext hclimb
  rw [hashFullTreeWithLeafHash_eq, length_map, ← map_take] at hroot
  cases hroot
  simp only [merkleProveMessages, hpath, hashFullTreeMessages]
  split_ifs with hempty
  · -- no leaf is counted: the root is the hash of the empty message, which no path hashes
    obtain ⟨m, hm, hhash, hform⟩ := climb_eq_hash sha256 leafMessage childrenMessage v siblings
    rw [hempty, map_nil, root] at hclimb
    have hne : m ≠ [] := by
      rcases hform with rfl | ⟨a, b, rfl⟩
      · exact cons_ne_nil _ _
      · exact cons_ne_nil _ _
    exact .inr ⟨m, mem_append_left _ hm, [], by simp, hne, hhash.symm.trans hclimb⟩
  · rcases binding separated_messages hempty hclimb with hv | hc
    · exact .inl (mem_of_mem_take hv)
    · exact .inr hc

/-- The path of the first of two leaves. -/
def pairPath : Bytes := [1, 1, RIGHT] ++ (hashLeaf (zeroPad 32) [2]).val

def pairRoot : Uint256 :=
  hashChildren (zeroPad 32) (hashLeaf (zeroPad 32) [1]) (hashLeaf (zeroPad 32) [2])

theorem merkleProve_sound_pair :
    merkleProve (zeroPad 32) pairPath pairRoot.val = .ok [1] ∧
    (([1] : Bytes) ∈ [[1], [2]] ∨ Collision (zeroPad 32)
      (merkleProveMessages (zeroPad 32) pairPath ++
        hashFullTreeMessages (zeroPad 32) [[1], [2]])) :=
  ⟨by decide +kernel,
    merkleProve_sound (zeroPad 32) [[1], [2]] pairPath [1] pairRoot (by decide +kernel)
      (by decide +kernel)⟩

end Poly.Merkle
