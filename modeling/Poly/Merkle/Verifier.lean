import Poly.Lib.MerkleAudit
import Poly.Merkle.Proof

/-! `MerkleVerifier`: the check of an audit path at a position and of a consistency proof, and what an
accepted proof says about the leaves. -/
namespace Poly.Merkle

open Lib Lib.MerkleTree List

variable (sha256 : Bytes → Uint256)

/-- The number of siblings of a position, for the text of an error. -/
def auditPathLength (index lastNode : ℕ) : ℕ :=
  if lastNode = 0 then 0
  else (if index % 2 = 1 ∨ index < lastNode then 1 else 0) + auditPathLength (index / 2) (lastNode / 2)
termination_by lastNode

/-- The loop of `calculate_root_hash_from_audit_path`, with the path that is left. -/
def auditLoop (tooShort : Failure) (nodeIndex lastNode : ℕ) (hash : Uint256) (path : List Uint256) :
    Result Uint256 :=
  if lastNode = 0 then
    match path with
    | [] => .ok hash
    | _ :: _ => .error (.error "Proof too long")
  else
    match path with
    | [] => .error tooShort
    | p :: rest =>
      if nodeIndex % 2 = 1 then
        auditLoop tooShort (nodeIndex / 2) (lastNode / 2) (hashChildren sha256 p hash) rest
      else if nodeIndex < lastNode then
        auditLoop tooShort (nodeIndex / 2) (lastNode / 2) (hashChildren sha256 hash p) rest
      else
        auditLoop tooShort (nodeIndex / 2) (lastNode / 2) hash (p :: rest)
termination_by lastNode

def calculateRootHashFromAuditPath (leafHash : Uint256) (nodeIndex : UInt32)
    (auditPath : List Uint256) (treeSize : UInt32) : Result Uint256 :=
  let lastNode := treeSize - 1
  let expected := auditPathLength nodeIndex.toNat lastNode.toNat
  auditLoop sha256 (.error s!"Proof too short. expected {expected}, got {auditPath.length}")
    nodeIndex.toNat lastNode.toNat leafHash auditPath

def verifyLeafHashInclusion (leafHash : Uint256) (leafIndex : UInt32) (proof : List Uint256)
    (rootHash : Uint256) (treeSize : UInt32) : Result Unit := do
  failIf (treeSize ≤ leafIndex)
    (.error "Wrong params: the tree size is smaller than the leaf index")
  let calculated ← calculateRootHashFromAuditPath sha256 leafHash leafIndex proof treeSize
  failIf (calculated ≠ rootHash) (.error ("Constructed root hash differs from provided root hash. " ++
    s!"Constructed: {toHex calculated.val}, Expected: {toHex rootHash.val}"))

/-- The first loop of `VerifyConsistency`: a right child is in both trees. -/
def sharedLevels (node lastNode : ℕ) : ℕ × ℕ :=
  if node % 2 = 1 then sharedLevels (node / 2) (lastNode / 2) else (node, lastNode)
termination_by node

/-- The running values of `VerifyConsistency`. -/
structure Climb where
  oldHash : Uint256
  newHash : Uint256
  lastNode : ℕ
  proof : List Uint256

/-- The second loop: the path of both trees. -/
def oldLoop (node : ℕ) (c : Climb) : Result Climb :=
  if node = 0 then .ok c
  else if node % 2 = 1 then
    match c.proof with
    | [] => .error (.error "Wrong proof length")
    | next :: proof => oldLoop (node / 2)
        ⟨hashChildren sha256 next c.oldHash, hashChildren sha256 next c.newHash, c.lastNode / 2, proof⟩
  else if node < c.lastNode then
    match c.proof with
    | [] => .error (.error "Wrong proof length")
    | next :: proof => oldLoop (node / 2)
        ⟨c.oldHash, hashChildren sha256 c.newHash next, c.lastNode / 2, proof⟩
  else oldLoop (node / 2) { c with lastNode := c.lastNode / 2 }
termination_by node

/-- The third loop: the path of the newer tree alone. -/
def newLoop (lastNode : ℕ) (newHash : Uint256) (proof : List Uint256) :
    Result (Uint256 × List Uint256) :=
  if lastNode = 0 then .ok (newHash, proof)
  else
    match proof with
    | [] => .error (.error "Wrong proof length")
    | next :: proof => newLoop (lastNode / 2) (hashChildren sha256 newHash next) proof
termination_by lastNode

/-- The two hashes that the climb starts with: a balanced old tree needs no hash from the proof. -/
def startClimb (node lastNode : ℕ) (oldRoot : Uint256) : List Uint256 → Result Climb
  | [] => .error (.error "Wrong proof length")
  | p :: proof => .ok (if node ≠ 0 then ⟨p, p, lastNode, proof⟩
      else ⟨oldRoot, oldRoot, lastNode, p :: proof⟩)

/-- `VerifyConsistency` after its early returns. -/
def climbConsistency (node lastNode : ℕ) (oldRoot newRoot : Uint256) (proof : List Uint256) :
    Result Unit := do
  let (node, lastNode) := sharedLevels node lastNode
  let c ← startClimb node lastNode oldRoot proof
  let c ← oldLoop sha256 node c
  let (newHash, proof) ← newLoop sha256 c.lastNode c.newHash c.proof
  failIf (newHash ≠ newRoot) (.error ("Bad Merkle proof: second root hash does not match. \n\t\t\t" ++
    s!"Expected hash:{toHex newRoot.val}, computed hash: {toHex newHash.val}"))
  failIf (c.oldHash ≠ oldRoot) (.error ("Inconsistency: first root hash does not match.\"\n\t\t\t\"" ++
    s!"Expected hash: {toHex oldRoot.val}, computed hash:{toHex c.oldHash.val}"))
  failIf (proof ≠ []) (.error "Proof too long")

def verifyConsistency (oldTreeSize newTreeSize : UInt32) (oldRoot newRoot : Uint256)
    (proof : List Uint256) : Result Unit :=
  if oldTreeSize > newTreeSize then
    .error (.error s!"Older tree has bigger size {oldTreeSize} vs {newTreeSize}")
  else if oldRoot = newRoot then .ok ()
  else if oldTreeSize = 0 then .ok ()
  else climbConsistency sha256 (oldTreeSize - 1).toNat (newTreeSize - 1).toNat oldRoot newRoot proof

section Inclusion

/-- The messages that the check of an audit path hashes. -/
def auditMessages (nodeIndex lastNode : ℕ) (hash : Uint256) (path : List Uint256) : List Bytes :=
  if lastNode = 0 then []
  else
    match path with
    | [] => []
    | p :: rest =>
      if nodeIndex % 2 = 1 then
        childrenMessage p hash ::
          auditMessages (nodeIndex / 2) (lastNode / 2) (hashChildren sha256 p hash) rest
      else if nodeIndex < lastNode then
        childrenMessage hash p ::
          auditMessages (nodeIndex / 2) (lastNode / 2) (hashChildren sha256 hash p) rest
      else
        auditMessages (nodeIndex / 2) (lastNode / 2) hash (p :: rest)
termination_by lastNode

/-- The messages hashed for the inner nodes of the tree over a list of leaf hashes. -/
def innerMessages (leaves : List Uint256) : List Bytes := nodeMessages sha256 childrenMessage leaves

variable {sha256} {l : List Uint256} {i last : ℕ} {hash : Uint256}

theorem childrenMessage_injective : NodeInjective childrenMessage := by
  intro a b c d h
  exact separated_messages.node_inj h

theorem innerMessages_pairUp (l : List Uint256) :
    innerMessages sha256 (pairUp (hashChildren sha256) l) ⊆ innerMessages sha256 l :=
  nodeMessages_pairUp_subset l

/-- A digest that is the parent of `a` and `b` on the next level is that of the two digests there, or
the parents collide. -/
theorem parent_eq_or_collision {a b c d} (hi : i % 2 = 0) (hc : l[i]? = some c)
    (hd : l[i + 1]? = some d)
    (h : (pairUp (hashChildren sha256) l)[i / 2]? = some (hashChildren sha256 a b)) :
    a = c ∧ b = d ∨ Collision sha256 (childrenMessage a b :: innerMessages sha256 l) := by
  have hparent := getElem?_pairUp_even (hashChildren sha256) hi hc hd
  have heq : nodeHash sha256 childrenMessage a b = nodeHash sha256 childrenMessage c d :=
    Option.some.inj (h.symm.trans hparent)
  rcases children_eq_or_collision childrenMessage_injective heq with hsame | hcol
  · exact .inl hsame
  · right
    have hlen := (List.getElem?_eq_some_iff.mp hd).1
    have hmem := pairMessages_subset (H := sha256) l (by omega)
      (mem_pairMessages childrenMessage hi hc hd)
    refine hcol.mono ?_
    intro m hm
    rcases mem_cons.mp hm with rfl | hm
    · exact mem_cons_self
    · rw [mem_singleton.mp hm]
      exact mem_cons_of_mem _ hmem

theorem collision_up {ms ns} (hs : ms ⊆ ns)
    (h : Collision sha256 (ms ++ innerMessages sha256 (pairUp (hashChildren sha256) l))) :
    Collision sha256 (ns ++ innerMessages sha256 l) := by
  refine h.mono (append_subset.mpr ⟨?_, ?_⟩)
  · exact fun m hm => mem_append_left _ (hs hm)
  · exact fun m hm => mem_append_right _ (innerMessages_pairUp l hm)

theorem collision_here {m ns} (hm : m ∈ ns) (h : Collision sha256 (m :: innerMessages sha256 l)) :
    Collision sha256 (ns ++ innerMessages sha256 l) := by
  refine h.mono (cons_subset.mpr ⟨?_, ?_⟩)
  · exact mem_append_left _ hm
  · exact subset_append_right _ _

theorem below_even {b ns} (heven : i % 2 = 0) (hi : i + 1 < l.length)
    (hm : childrenMessage hash b ∈ ns)
    (h : (pairUp (hashChildren sha256) l)[i / 2]? = some (hashChildren sha256 hash b)) :
    l[i]? = some hash ∨ Collision sha256 (ns ++ innerMessages sha256 l) := by
  have hc := getElem?_eq_getElem (Nat.lt_of_succ_lt hi)
  rcases parent_eq_or_collision heven hc (getElem?_eq_getElem hi) h with ⟨rfl, -⟩ | hcol
  · exact .inl hc
  · exact .inr (collision_here hm hcol)

theorem below_odd {a ns} (hodd : i % 2 = 1) (hi : i < l.length) (hm : childrenMessage a hash ∈ ns)
    (h : (pairUp (hashChildren sha256) l)[i / 2]? = some (hashChildren sha256 a hash)) :
    l[i - 1]? = some a ∧ l[i]? = some hash ∨ Collision sha256 (ns ++ innerMessages sha256 l) := by
  obtain ⟨j, rfl⟩ : ∃ j, i = j + 1 := ⟨i - 1, by omega⟩
  have hc := getElem?_eq_getElem (Nat.lt_of_succ_lt hi)
  have hd := getElem?_eq_getElem hi
  rw [show (j + 1) / 2 = j / 2 by omega] at h
  rcases parent_eq_or_collision (by omega) hc hd h with ⟨rfl, rfl⟩ | hcol
  · exact .inl ⟨hc, hd⟩
  · exact .inr (collision_here hm hcol)

/-- The walk is followed level by level: at its end the digest is the root, and each level tells the
position of the digest on the level below. -/
theorem auditLoop_sound {tooShort path} (hlen : l.length = last + 1) (hi : i ≤ last)
    (h : auditLoop sha256 tooShort i last hash path =
      .ok (root (hashChildren sha256) (hashEmpty sha256) l)) :
    l[i]? = some hash ∨
      Collision sha256 (auditMessages sha256 i last hash path ++ innerMessages sha256 l) := by
  induction last using Nat.strong_induction_on generalizing l i hash path with
  | _ last ih =>
    rw [auditLoop.eq_def] at h
    rw [auditMessages.eq_def]
    by_cases hlast : last = 0
    · subst hlast
      obtain ⟨a, rfl⟩ := length_eq_one_iff.mp hlen
      obtain rfl : i = 0 := by omega
      cases path with
      | nil =>
        rw [root] at h
        rw [Except.ok.inj h]
        exact .inl rfl
      | cons p rest => cases h
    · rw [if_neg hlast] at h ⊢
      have hup : (pairUp (hashChildren sha256) l).length = last / 2 + 1 := by
        rw [pairUp_length]
        omega
      have hi' : i / 2 ≤ last / 2 := by omega
      -- the root is that of the level above, so that the induction hypothesis applies there
      rw [← root_pairUp] at h
      cases path with
      | nil => cases h
      | cons p rest =>
        dsimp only at h ⊢
        by_cases hodd : i % 2 = 1
        · rw [if_pos hodd] at h ⊢
          rcases ih (last / 2) (by omega) hup hi' h with hpos | hcol
          · exact (below_odd hodd (by omega) mem_cons_self hpos).imp_left And.right
          · exact .inr (collision_up (subset_cons_self _ _) hcol)
        · rw [if_neg hodd] at h ⊢
          by_cases hlt : i < last
          · rw [if_pos hlt] at h ⊢
            rcases ih (last / 2) (by omega) hup hi' h with hpos | hcol
            · exact below_even (by omega) (by omega) mem_cons_self hpos
            · exact .inr (collision_up (subset_cons_self _ _) hcol)
          · -- the last digest of an odd level is carried over
            rw [if_neg hlt] at h ⊢
            rcases ih (last / 2) (by omega) hup hi' h with hpos | hcol
            · rw [getElem?_pairUp_last _ (by omega) (by omega)] at hpos
              exact .inl hpos
            · exact .inr (collision_up (List.Subset.refl _) hcol)

theorem toNat_sub_one {n : UInt32} (h : 0 < n.toNat) : (n - 1).toNat = n.toNat - 1 := by
  rw [UInt32.toNat_sub_of_le]
  · rfl
  · exact UInt32.le_iff_toNat_le.mpr h

variable (sha256) in
theorem hashFullTree_root {leaves} {n : UInt32} (hlen : leaves.length = n.toNat) :
    hashFullTreeWithLeafHash sha256 leaves =
      .ok (root (hashChildren sha256) (hashEmpty sha256) leaves) := by
  have hlt := n.toNat_lt
  rw [hashFullTreeWithLeafHash_eq, hlen, Nat.mod_eq_of_lt hlt, ← hlen, take_length]

/-- An accepted leaf hash is the one at the given position, or two inner nodes collide. -/
theorem verifyLeafHashInclusion_sound (leaves : List Uint256) {m n : UInt32}
    (hlen : leaves.length = n.toNat) {rootHash : Uint256}
    (hroot : hashFullTreeWithLeafHash sha256 leaves = .ok rootHash) (hash : Uint256)
    (proof : List Uint256)
    (h : verifyLeafHashInclusion sha256 hash m proof rootHash n = .ok ()) :
    leaves[m.toNat]? = some hash ∨
      Collision sha256 (auditMessages sha256 m.toNat (n.toNat - 1) hash proof ++
        innerMessages sha256 leaves) := by
  obtain ⟨_, hsize, h⟩ := bind_ok.mp h
  obtain ⟨calculated, hwalk, h⟩ := bind_ok.mp h
  obtain rfl : calculated = rootHash := not_not.mp (failIf_ok.mp h)
  have hlt : m.toNat < n.toNat := by
    have hle := failIf_ok.mp hsize
    rw [UInt32.le_iff_toNat_le] at hle
    omega
  rw [hashFullTree_root sha256 hlen] at hroot
  cases hroot
  dsimp only [calculateRootHashFromAuditPath] at hwalk
  rw [toNat_sub_one (by omega)] at hwalk
  exact auditLoop_sound (by omega) (by omega) hwalk

theorem verifyLeafHashInclusion_sound_pair :
    verifyLeafHashInclusion (zeroPad 32) (hashLeaf (zeroPad 32) [1]) 0 [hashLeaf (zeroPad 32) [2]]
        pairRoot 2 = .ok () ∧
      ([hashLeaf (zeroPad 32) [1], hashLeaf (zeroPad 32) [2]][(0 : UInt32).toNat]? =
          some (hashLeaf (zeroPad 32) [1]) ∨
        Collision (zeroPad 32) (auditMessages (zeroPad 32) 0 1 (hashLeaf (zeroPad 32) [1])
          [hashLeaf (zeroPad 32) [2]] ++
            innerMessages (zeroPad 32) [hashLeaf (zeroPad 32) [1], hashLeaf (zeroPad 32) [2]])) := by
  have haccepted : verifyLeafHashInclusion (zeroPad 32) (hashLeaf (zeroPad 32) [1]) 0
      [hashLeaf (zeroPad 32) [2]] pairRoot 2 = .ok () := by decide +kernel
  have hroot : hashFullTreeWithLeafHash (zeroPad 32)
      [hashLeaf (zeroPad 32) [1], hashLeaf (zeroPad 32) [2]] = .ok pairRoot := by decide +kernel
  exact ⟨haccepted, verifyLeafHashInclusion_sound _ rfl hroot _ _ haccepted⟩

end Inclusion

/-- The messages hashed for the newer tree in the second loop of `VerifyConsistency`. -/
def oldMessages (node : ℕ) (c : Climb) : List Bytes :=
  if node = 0 then []
  else if node % 2 = 1 then
    match c.proof with
    | [] => []
    | next :: proof => childrenMessage next c.newHash :: oldMessages (node / 2)
        ⟨hashChildren sha256 next c.oldHash, hashChildren sha256 next c.newHash, c.lastNode / 2, proof⟩
  else if node < c.lastNode then
    match c.proof with
    | [] => []
    | next :: proof => childrenMessage c.newHash next :: oldMessages (node / 2)
        ⟨c.oldHash, hashChildren sha256 c.newHash next, c.lastNode / 2, proof⟩
  else oldMessages (node / 2) { c with lastNode := c.lastNode / 2 }
termination_by node

def newMessages (lastNode : ℕ) (newHash : Uint256) (proof : List Uint256) : List Bytes :=
  if lastNode = 0 then []
  else
    match proof with
    | [] => []
    | next :: proof => childrenMessage newHash next ::
        newMessages (lastNode / 2) (hashChildren sha256 newHash next) proof
termination_by lastNode

variable {sha256} {l : List Uint256} {node last : ℕ}

theorem newLoop_sound {newHash proof rest} (hlen : l.length = last + 1)
    (h : newLoop sha256 last newHash proof =
      .ok (root (hashChildren sha256) (hashEmpty sha256) l, rest)) :
    l[0]? = some newHash ∨
      Collision sha256 (newMessages sha256 last newHash proof ++ innerMessages sha256 l) := by
  induction last using Nat.strong_induction_on generalizing l newHash proof with
  | _ last ih =>
    rw [newLoop.eq_def] at h
    rw [newMessages.eq_def]
    by_cases hlast : last = 0
    · subst hlast
      obtain ⟨a, rfl⟩ := length_eq_one_iff.mp hlen
      rw [root] at h
      cases h
      exact .inl rfl
    · rw [if_neg hlast] at h ⊢
      cases proof with
      | nil => cases h
      | cons next proof =>
        dsimp only at h ⊢
        have hup : (pairUp (hashChildren sha256) l).length = last / 2 + 1 := by
          rw [pairUp_length]
          omega
        rw [← root_pairUp] at h
        rcases ih (last / 2) (by omega) hup h with hpos | hcol
        · exact below_even rfl (by omega) mem_cons_self hpos
        · exact .inr (collision_up (subset_cons_self _ _) hcol)

/-- The second loop: the newer hash is at the position of the node, and the older one takes its place
in the tree that ends there. -/
theorem oldLoop_sound {c c' rest} (hlen : l.length = c.lastNode + 1) (hnode : node ≤ c.lastNode)
    (hold : oldLoop sha256 node c = .ok c')
    (hnew : newLoop sha256 c'.lastNode c'.newHash c'.proof =
      .ok (root (hashChildren sha256) (hashEmpty sha256) l, rest)) :
    l[node]? = some c.newHash ∧
        c'.oldHash = root (hashChildren sha256) (hashEmpty sha256) (l.take node ++ [c.oldHash]) ∨
      Collision sha256 ((oldMessages sha256 node c ++
        newMessages sha256 c'.lastNode c'.newHash c'.proof) ++ innerMessages sha256 l) := by
  induction node using Nat.strong_induction_on generalizing l c with
  | _ node ih =>
    rw [oldLoop.eq_def] at hold
    rw [oldMessages.eq_def]
    by_cases hzero : node = 0
    · subst hzero
      cases hold
      rcases newLoop_sound hlen hnew with hpos | hcol
      · refine .inl ⟨hpos, ?_⟩
        rw [take_zero, nil_append, root]
      · exact .inr hcol
    · rw [if_neg hzero] at hold ⊢
      have hup : (pairUp (hashChildren sha256) l).length = c.lastNode / 2 + 1 := by
        rw [pairUp_length]
        omega
      rw [← root_pairUp] at hnew
      by_cases hodd : node % 2 = 1
      · rw [if_pos hodd] at hold ⊢
        cases hproof : c.proof with
        | nil =>
          rw [hproof] at hold
          cases hold
        | cons next proof =>
          rw [hproof] at hold
          rcases ih (node / 2) (by omega) hup (Nat.div_le_div_right hnode) hold hnew with
            ⟨hpos, hroot⟩ | hcol
          · refine (below_odd hodd (by omega) mem_cons_self hpos).imp_left ?_
            rintro ⟨ha, hb⟩
            refine ⟨hb, ?_⟩
            rw [hroot, ← root_pairUp _ _ (l.take node ++ _), pairUp_take_concat_odd _ hodd ha]
          · exact .inr (collision_up (subset_cons_self _ _) hcol)
      · rw [if_neg hodd] at hold ⊢
        have hside : ∀ x, root (hashChildren sha256) (hashEmpty sha256)
            ((pairUp (hashChildren sha256) l).take (node / 2) ++ [x]) =
              root (hashChildren sha256) (hashEmpty sha256) (l.take node ++ [x]) := by
          intro x
          rw [← root_pairUp _ _ (l.take node ++ _), pairUp_take_concat_even _ (by omega) (by omega)]
        by_cases hlt : node < c.lastNode
        · rw [if_pos hlt] at hold ⊢
          cases hproof : c.proof with
          | nil =>
            rw [hproof] at hold
            cases hold
          | cons next proof =>
            rw [hproof] at hold
            rcases ih (node / 2) (by omega) hup (Nat.div_le_div_right hnode) hold hnew with
              ⟨hpos, hroot⟩ | hcol
            · refine (below_even (by omega) (by omega) mem_cons_self hpos).imp_left ?_
              exact fun ha => ⟨ha, hroot.trans (hside _)⟩
            · exact .inr (collision_up (subset_cons_self _ _) hcol)
        · rw [if_neg hlt] at hold ⊢
          rcases ih (node / 2) (by omega) hup (Nat.div_le_div_right hnode) hold hnew with
            ⟨hpos, hroot⟩ | hcol
          · rw [getElem?_pairUp_last _ (by omega) (by omega)] at hpos
            exact .inl ⟨hpos, hroot.trans (hside _)⟩
          · exact .inr (collision_up (List.Subset.refl _) hcol)

variable (sha256) in
/-- The levels that both trees share are left out: the roots are those of a higher level, where the
older tree still is a part of the newer one. -/
theorem sharedLevels_roots (hlen : l.length = last + 1) (hnode : node ≤ last) :
    ∃ l' : List Uint256, l'.length = (sharedLevels node last).2 + 1 ∧
      (sharedLevels node last).1 ≤ (sharedLevels node last).2 ∧
      root (hashChildren sha256) (hashEmpty sha256) l' =
        root (hashChildren sha256) (hashEmpty sha256) l ∧
      root (hashChildren sha256) (hashEmpty sha256) (l'.take ((sharedLevels node last).1 + 1)) =
        root (hashChildren sha256) (hashEmpty sha256) (l.take (node + 1)) ∧
      innerMessages sha256 l' ⊆ innerMessages sha256 l := by
  induction node using Nat.strong_induction_on generalizing l last with
  | _ node ih =>
    rw [sharedLevels]
    split_ifs with hodd
    · have hup : (pairUp (hashChildren sha256) l).length = last / 2 + 1 := by
        rw [pairUp_length]
        omega
      obtain ⟨l', hlen', hle, hroot, htake, hmessages⟩ :=
        ih (node / 2) (by omega) hup (Nat.div_le_div_right hnode)
      refine ⟨l', hlen', hle, ?_, ?_, ?_⟩
      · rw [hroot, root_pairUp]
      · rw [htake, ← root_pairUp _ _ (l.take (node + 1)), pairUp_take _ (by omega) (by omega),
          show (node + 1) / 2 = node / 2 + 1 by omega]
      · exact List.Subset.trans hmessages (innerMessages_pairUp l)
    · exact ⟨l, hlen, hnode, rfl, rfl, List.Subset.refl _⟩

variable (sha256) in
/-- The messages that `VerifyConsistency` hashes for the newer tree. -/
def consistencyMessages (node lastNode : ℕ) (oldRoot : Uint256) (proof : List Uint256) : List Bytes :=
  match startClimb (sharedLevels node lastNode).1 (sharedLevels node lastNode).2 oldRoot proof with
  | .error _ => []
  | .ok c => oldMessages sha256 (sharedLevels node lastNode).1 c ++
      match oldLoop sha256 (sharedLevels node lastNode).1 c with
      | .error _ => []
      | .ok c' => newMessages sha256 c'.lastNode c'.newHash c'.proof

theorem startClimb_ok {oldRoot proof c} (h : startClimb node last oldRoot proof = .ok c) :
    c.lastNode = last ∧ c.oldHash = c.newHash ∧ (node = 0 → c.oldHash = oldRoot) := by
  cases proof with
  | nil => cases h
  | cons p proof =>
    cases h
    by_cases hnode : node = 0
    · rw [if_neg (not_not.mpr hnode)]
      exact ⟨rfl, rfl, fun _ => rfl⟩
    · rw [if_pos hnode]
      exact ⟨rfl, rfl, fun h => absurd h hnode⟩

/-- Behind the early returns an accepted old root is that of the first leaves. -/
theorem climbConsistency_sound {oldRoot proof} (hlen : l.length = last + 1) (hnode : node ≤ last)
    (h : climbConsistency sha256 node last oldRoot
      (root (hashChildren sha256) (hashEmpty sha256) l) proof = .ok ()) :
    oldRoot = root (hashChildren sha256) (hashEmpty sha256) (l.take (node + 1)) ∨
      Collision sha256 (consistencyMessages sha256 node last oldRoot proof ++
        innerMessages sha256 l) := by
  obtain ⟨l', hlen', hle, hroot, htake, hmessages⟩ := sharedLevels_roots sha256 hlen hnode
  unfold climbConsistency at h
  unfold consistencyMessages
  dsimp only at h
  obtain ⟨c, hstart, h⟩ := bind_ok.mp h
  obtain ⟨c', hold, h⟩ := bind_ok.mp h
  obtain ⟨⟨newHash, rest⟩, hnew, h⟩ := bind_ok.mp h
  obtain ⟨_, hsame, h⟩ := bind_ok.mp h
  obtain ⟨_, hprefix, -⟩ := bind_ok.mp h
  obtain ⟨hlast, hequal, -⟩ := startClimb_ok hstart
  have hnewRoot := not_not.mp (failIf_ok.mp hsame)
  have holdRoot := not_not.mp (failIf_ok.mp hprefix)
  rw [hstart]
  dsimp only
  rw [hold]
  dsimp only at hnewRoot
  rw [hnewRoot, ← hroot] at hnew
  rw [← hlast] at hlen' hle
  rcases oldLoop_sound hlen' hle hold hnew with ⟨hpos, hfold⟩ | hcol
  · left
    have hprefix' : l'.take ((sharedLevels node last).1 + 1) =
        l'.take (sharedLevels node last).1 ++ [c.oldHash] := by
      rw [take_add_one, hpos, hequal]
      rfl
    rw [← holdRoot, hfold, ← hprefix', htake]
  · right
    refine hcol.mono (append_subset.mpr ⟨subset_append_left _ _, ?_⟩)
    exact List.Subset.trans hmessages (subset_append_right _ _)

/-- The claimed old root is accepted only as the root of the first leaves exactly if it is not the new
root, or the new root is that of the first leaves as well; else every proof is accepted for it. -/
theorem verifyConsistency_sound_iff (leaves : List Uint256) {m n : UInt32} (hm : 1 ≤ m)
    (hmn : m ≤ n) (hlen : leaves.length = n.toNat) {newRoot prefixRoot : Uint256}
    (hnew : hashFullTreeWithLeafHash sha256 leaves = .ok newRoot)
    (hold : hashFullTreeWithLeafHash sha256 (leaves.take m.toNat) = .ok prefixRoot)
    (oldRoot : Uint256) (proof : List Uint256) :
    (verifyConsistency sha256 m n oldRoot newRoot proof = .ok () →
      oldRoot = prefixRoot ∨
        Collision sha256 (consistencyMessages sha256 (m.toNat - 1) (n.toNat - 1) oldRoot proof ++
          innerMessages sha256 leaves)) ↔
    (oldRoot ≠ newRoot ∨ prefixRoot = newRoot ∨
      Collision sha256 (consistencyMessages sha256 (m.toNat - 1) (n.toNat - 1) oldRoot proof ++
        innerMessages sha256 leaves)) := by
  have hm' : 1 ≤ m.toNat := UInt32.le_iff_toNat_le.mp hm
  have hmn' : m.toNat ≤ n.toNat := UInt32.le_iff_toNat_le.mp hmn
  have hpos : m ≠ 0 := by
    rintro rfl
    exact absurd hm' (by decide)
  have htake : (leaves.take m.toNat).length = m.toNat := length_take_of_le (by omega)
  have hsmall : ¬ m > n := not_lt.mpr hmn
  rw [hashFullTree_root sha256 hlen] at hnew
  rw [hashFullTree_root sha256 htake] at hold
  cases hnew
  cases hold
  unfold verifyConsistency
  rw [if_neg hsmall]
  by_cases hsame : oldRoot = root (hashChildren sha256) (hashEmpty sha256) leaves
  · rw [if_pos hsame]
    constructor
    · intro h
      rcases h rfl with heq | hcol
      · exact .inr (.inl (heq.symm.trans hsame))
      · exact .inr (.inr hcol)
    · rintro (hne | heq | hcol) -
      · exact absurd hsame hne
      · exact .inl (hsame.trans heq.symm)
      · exact .inr hcol
  · rw [if_neg hsame, if_neg hpos, toNat_sub_one hm', toNat_sub_one (by omega)]
    constructor
    · exact fun _ => .inl hsame
    · intro _ h
      have hsound := climbConsistency_sound (l := leaves) (by omega) (by omega) h
      rwa [show m.toNat - 1 + 1 = m.toNat by omega] at hsound

/-- The root of two leaves passes as the root of the first one. -/
theorem verifyConsistency_same_root :
    verifyConsistency (zeroPad 32) 1 2 pairRoot pairRoot [] = .ok () ∧
      hashFullTreeWithLeafHash (zeroPad 32)
        [hashLeaf (zeroPad 32) [1], hashLeaf (zeroPad 32) [2]] = .ok pairRoot ∧
      hashFullTreeWithLeafHash (zeroPad 32) [hashLeaf (zeroPad 32) [1]] ≠ .ok pairRoot ∧
      ¬ Collision (zeroPad 32) (consistencyMessages (zeroPad 32) 0 1 pairRoot [] ++
        innerMessages (zeroPad 32) [hashLeaf (zeroPad 32) [1], hashLeaf (zeroPad 32) [2]]) := by
  refine ⟨by decide +kernel, by decide +kernel, by decide +kernel, by decide +kernel⟩

theorem verifyConsistency_sound_iff_pair :
    verifyConsistency (zeroPad 32) 1 2 (hashLeaf (zeroPad 32) [1]) pairRoot
        [hashLeaf (zeroPad 32) [2]] = .ok () ∧
      (verifyConsistency (zeroPad 32) 1 2 (hashLeaf (zeroPad 32) [1]) pairRoot
          [hashLeaf (zeroPad 32) [2]] = .ok () →
        hashLeaf (zeroPad 32) [1] = hashLeaf (zeroPad 32) [1] ∨
          Collision (zeroPad 32) (consistencyMessages (zeroPad 32) 0 1 (hashLeaf (zeroPad 32) [1])
            [hashLeaf (zeroPad 32) [2]] ++
              innerMessages (zeroPad 32)
                [hashLeaf (zeroPad 32) [1], hashLeaf (zeroPad 32) [2]])) := by
  refine ⟨by decide +kernel, ?_⟩
  have hnew : hashFullTreeWithLeafHash (zeroPad 32)
      [hashLeaf (zeroPad 32) [1], hashLeaf (zeroPad 32) [2]] = .ok pairRoot := by decide +kernel
  have hold : hashFullTreeWithLeafHash (zeroPad 32)
      ([hashLeaf (zeroPad 32) [1], hashLeaf (zeroPad 32) [2]].take (1 : UInt32).toNat) =
        .ok (hashLeaf (zeroPad 32) [1]) := by decide +kernel
  have hne : hashLeaf (zeroPad 32) [1] ≠ pairRoot := by decide +kernel
  exact (verifyConsistency_sound_iff (n := 2) _ (by decide) (by decide) rfl hnew hold _ _).mpr (.inl hne)

end Poly.Merkle
