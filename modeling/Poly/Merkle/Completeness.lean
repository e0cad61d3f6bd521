import Poly.Merkle.History

/-! The proofs that a tree with a hash store gives out are accepted: audit paths of all leaves and
consistency proofs between all sizes that the positions of the store can count. -/
namespace Poly.Merkle

open Lib Lib.MerkleTree List

variable {sha256 : Bytes → Uint256}

section Verifier

variable {l : List Uint256} {i last d : ℕ} {hash : Uint256}

variable (sha256) in
/-- One level of a path: where its sibling stands, and what is left of it. -/
theorem auditPath_step (hlen : l.length = last + 1) (hi : l[i]? = some hash) :
    (i % 2 = 1 ∧ ∃ a, l[i - 1]? = some a ∧ auditPath (hashChildren sha256) (d + 1) l i =
        (.left, a) :: auditPath (hashChildren sha256) d (pairUp (hashChildren sha256) l) (i / 2) ∧
      (pairUp (hashChildren sha256) l)[i / 2]? = some (hashChildren sha256 a hash)) ∨
    (i % 2 = 0 ∧ i < last ∧ ∃ b, auditPath (hashChildren sha256) (d + 1) l i =
        (.right, b) :: auditPath (hashChildren sha256) d (pairUp (hashChildren sha256) l) (i / 2) ∧
      (pairUp (hashChildren sha256) l)[i / 2]? = some (hashChildren sha256 hash b)) ∨
    (i % 2 = 0 ∧ i = last ∧ auditPath (hashChildren sha256) (d + 1) l i =
        auditPath (hashChildren sha256) d (pairUp (hashChildren sha256) l) (i / 2) ∧
      (pairUp (hashChildren sha256) l)[i / 2]? = some hash) := by
  have hlt := (List.getElem?_eq_some_iff.mp hi).1
  have hup := pairUp_sibling (hashChildren sha256) hi
  rw [auditPath]
  by_cases hodd : i % 2 = 1
  · have ha := getElem?_eq_getElem (l := l) (i := i - 1) (by omega)
    rw [sibling_odd hodd ha] at hup ⊢
    exact .inl ⟨hodd, _, ha, rfl, hup⟩
  · by_cases hlast : i = last
    · rw [sibling_last (by omega) (by omega)] at hup ⊢
      exact .inr (.inr ⟨by omega, hlast, rfl, hup⟩)
    · have hb := getElem?_eq_getElem (l := l) (i := i + 1) (by omega)
      rw [sibling_even (by omega) hb] at hup ⊢
      exact .inr (.inl ⟨by omega, by omega, _, rfl, hup⟩)

variable (sha256) in
theorem pairUp_last (hlen : l.length = last + 1) (hd : l.length ≤ 2 ^ (d + 1)) :
    (pairUp (hashChildren sha256) l).length = last / 2 + 1 ∧
      (pairUp (hashChildren sha256) l).length ≤ 2 ^ d := by
  rw [pairUp_length]
  omega

theorem auditLoop_complete (tooShort : Failure) (hlen : l.length = last + 1) (hd : l.length ≤ 2 ^ d)
    (hi : l[i]? = some hash) :
    auditLoop sha256 tooShort i last hash
      ((auditPath (hashChildren sha256) d l i).map Prod.snd) =
        .ok (root (hashChildren sha256) (hashEmpty sha256) l) := by
  induction last using Nat.strong_induction_on generalizing l i hash d with
  | _ last ih =>
    by_cases hlast : last = 0
    · subst hlast
      obtain ⟨a, rfl⟩ := length_eq_one_iff.mp hlen
      obtain ⟨hlt, rfl⟩ := List.getElem?_eq_some_iff.mp hi
      obtain rfl : i = 0 := Nat.lt_one_iff.mp hlt
      rw [auditLoop.eq_def, auditPath_singleton, root]
      rfl
    · obtain ⟨d, rfl⟩ := Nat.exists_eq_succ_of_ne_zero (n := d) (by rintro rfl; omega)
      obtain ⟨hup, hd'⟩ := pairUp_last sha256 hlen hd
      have hne := auditPath_ne_nil (hashChildren sha256) (i := i) hd (by omega)
        (List.getElem?_eq_some_iff.mp hi).1
      have hhalf : last / 2 < last := by omega
      rw [← root_pairUp, auditLoop.eq_def, if_neg hlast]
      rcases auditPath_step sha256 (d := d) hlen hi with
        ⟨hodd, a, -, hpath, hnext⟩ | ⟨heven, hlt, b, hpath, hnext⟩ | ⟨heven, heq, hpath, hnext⟩
      · rw [hpath, map_cons]
        dsimp only
        rw [if_pos hodd]
        exact ih _ hhalf hup hd' hnext
      · rw [hpath, map_cons]
        dsimp only
        rw [if_neg (by omega), if_pos hlt]
        exact ih _ hhalf hup hd' hnext
      · -- without a sibling here there still is one further up
        rw [hpath] at hne ⊢
        have hrest := ih _ hhalf hup hd' hnext
        obtain ⟨x, path, hcons⟩ := exists_cons_of_ne_nil hne
        rw [hcons, map_cons] at hrest ⊢
        dsimp only
        rw [if_neg (by omega), if_neg (by omega)]
        exact hrest

/-- The audit path of a position is accepted for the root of its tree and for no other. -/
theorem verifyLeafHashInclusion_complete {m n rootHash} (hlen : l.length = n.toNat)
    (hm : l[m.toNat]? = some hash) :
    verifyLeafHashInclusion sha256 hash m
        ((auditPath (hashChildren sha256) 32 l m.toNat).map Prod.snd) rootHash n = .ok () ↔
      root (hashChildren sha256) (hashEmpty sha256) l = rootHash := by
  have hlt := (List.getElem?_eq_some_iff.mp hm).1
  have hnlt := n.toNat_lt
  have hmn : ¬ n ≤ m := by
    rw [UInt32.le_iff_toNat_le]
    omega
  have hcalculated : calculateRootHashFromAuditPath sha256 hash m
      ((auditPath (hashChildren sha256) 32 l m.toNat).map Prod.snd) n =
        .ok (root (hashChildren sha256) (hashEmpty sha256) l) := by
    dsimp only [calculateRootHashFromAuditPath]
    rw [toNat_sub_one (by omega)]
    exact auditLoop_complete _ (by omega) (by omega) hm
  rw [verifyLeafHashInclusion, failIf_of_not hmn, ok_bind, hcalculated, ok_bind, failIf_ok, not_not]

/-- The third loop of the consistency check follows the path of the first position. -/
theorem newLoop_complete (hlen : l.length = last + 1) (hd : l.length ≤ 2 ^ d)
    (hfirst : l[0]? = some hash) :
    newLoop sha256 last hash ((auditPath (hashChildren sha256) d l 0).map Prod.snd) =
      .ok (root (hashChildren sha256) (hashEmpty sha256) l, []) := by
  induction last using Nat.strong_induction_on generalizing l hash d with
  | _ last ih =>
    by_cases hlast : last = 0
    · subst hlast
      obtain ⟨a, rfl⟩ := length_eq_one_iff.mp hlen
      obtain rfl : a = hash := Option.some.inj hfirst
      rw [newLoop.eq_def, auditPath_singleton, root]
      rfl
    · obtain ⟨d, rfl⟩ := Nat.exists_eq_succ_of_ne_zero (n := d) (by rintro rfl; omega)
      obtain ⟨hup, hd'⟩ := pairUp_last sha256 hlen hd
      rw [← root_pairUp, newLoop.eq_def, if_neg hlast]
      rcases auditPath_step sha256 (d := d) hlen hfirst with
        ⟨hodd, -⟩ | ⟨-, -, b, hpath, hnext⟩ | ⟨-, heq, -⟩
      · omega
      · rw [hpath]
        exact ih (last / 2) (by omega) hup hd' hnext
      · omega

/-- The second loop: both hashes climb along the path of the node, the older one only where the older
tree has a sibling. -/
theorem oldLoop_complete {node : ℕ} (oldHash : Uint256) (hlen : l.length = last + 1)
    (hd : l.length ≤ 2 ^ d) (hnode : l[node]? = some hash) : ∃ c',
    oldLoop sha256 node ⟨oldHash, hash, last,
      (auditPath (hashChildren sha256) d l node).map Prod.snd⟩ = .ok c' ∧
    c'.oldHash = root (hashChildren sha256) (hashEmpty sha256) (l.take node ++ [oldHash]) ∧
    newLoop sha256 c'.lastNode c'.newHash c'.proof =
      .ok (root (hashChildren sha256) (hashEmpty sha256) l, []) := by
  induction node using Nat.strong_induction_on generalizing l last hash d oldHash with
  | _ node ih =>
    rw [oldLoop.eq_def]
    by_cases hzero : node = 0
    · subst hzero
      refine ⟨_, if_pos rfl, ?_, newLoop_complete hlen hd hnode⟩
      rw [take_zero, nil_append, root]
    · have hlt := (List.getElem?_eq_some_iff.mp hnode).1
      obtain ⟨d, rfl⟩ := Nat.exists_eq_succ_of_ne_zero (n := d) (by rintro rfl; omega)
      obtain ⟨hup, hd'⟩ := pairUp_last sha256 hlen hd
      have hhalf : node / 2 < node := by omega
      rw [if_neg hzero, ← root_pairUp _ _ l, ← root_pairUp _ _ (l.take node ++ _)]
      rcases auditPath_step sha256 (d := d) hlen hnode with
        ⟨hodd, a, ha, hpath, hnext⟩ | ⟨heven, hlast, b, hpath, hnext⟩ | ⟨heven, heq, hpath, hnext⟩
      · rw [if_pos hodd, hpath, pairUp_take_concat_odd _ hodd ha]
        exact ih _ hhalf _ hup hd' hnext
      · rw [if_neg (by omega), if_pos hlast, hpath,
          pairUp_take_concat_even _ heven (by omega)]
        exact ih _ hhalf _ hup hd' hnext
      · rw [if_neg (by omega), if_neg (by simp only; omega), hpath,
          pairUp_take_concat_even _ heven (by omega)]
        exact ih _ hhalf _ hup hd' hnext

/-- The hashes of a consistency proof between the first `i + 1` leaves and all of them, the first of
them left out where the older tree is balanced. -/
def consistencyHashes (sha256 : Bytes → Uint256) (d : ℕ) (l : List Uint256) (i : ℕ) : List Uint256 :=
  let p := sharedPath (hashChildren sha256) d l i
  (if sharedNode i = 0 then [] else p.1.toList) ++ p.2.map Prod.snd

variable (sha256) in
/-- The first loop climbs to the digest where the path of a consistency proof starts. -/
theorem sharedLevels_complete (hlen : l.length = last + 1) (hd : l.length ≤ 2 ^ d) (hi : i < last) :
    ∃ l' d', l'.length = (sharedLevels i last).2 + 1 ∧ l'.length ≤ 2 ^ d' ∧
      (sharedLevels i last).1 = sharedNode i ∧ (sharedLevels i last).1 < (sharedLevels i last).2 ∧
      sharedPath (hashChildren sha256) d l i = (l'[sharedNode i]?,
        auditPath (hashChildren sha256) d' l' (sharedNode i)) ∧
      root (hashChildren sha256) (hashEmpty sha256) l' =
        root (hashChildren sha256) (hashEmpty sha256) l ∧
      root (hashChildren sha256) (hashEmpty sha256) (l'.take (sharedNode i + 1)) =
        root (hashChildren sha256) (hashEmpty sha256) (l.take (i + 1)) := by
  induction d generalizing l last i with
  | zero => omega
  | succ d ih =>
    rw [sharedLevels, sharedNode, sharedPath]
    by_cases hodd : i % 2 = 1
    · obtain ⟨hup, hd'⟩ := pairUp_last sha256 hlen hd
      obtain ⟨l', d', hlen', hle', hnode, hlt, hpath, hroot, htake⟩ := ih hup hd' (i := i / 2) (by omega)
      rw [if_pos hodd, if_pos hodd, if_pos hodd]
      refine ⟨l', d', hlen', hle', hnode, hlt, hpath, ?_, ?_⟩
      · rw [hroot, root_pairUp]
      · rw [htake, ← root_pairUp _ _ (l.take (i + 1)), pairUp_take _ (by omega) (by omega),
          show (i + 1) / 2 = i / 2 + 1 by omega]
    · rw [if_neg hodd, if_neg hodd, if_neg hodd]
      exact ⟨l, d + 1, hlen, hd, rfl, hi, rfl, rfl, rfl⟩

variable (sha256) in
/-- The consistency proof of a tree is accepted for its root and for no other. -/
theorem climbConsistency_complete (newRoot : Uint256) (hlen : l.length = last + 1)
    (hd : l.length ≤ 2 ^ d) (hi : i < last) :
    climbConsistency sha256 i last
        (root (hashChildren sha256) (hashEmpty sha256) (l.take (i + 1))) newRoot
        (consistencyHashes sha256 d l i) = .ok () ↔
      root (hashChildren sha256) (hashEmpty sha256) l = newRoot := by
  obtain ⟨l', d', hlen', hd', hnode, hlt, hpath, hroot, htake⟩ :=
    sharedLevels_complete sha256 hlen hd hi
  obtain ⟨x, hx⟩ : ∃ x, l'[sharedNode i]? = some x :=
    ⟨_, getElem?_eq_getElem (by omega)⟩
  have hsucc : l'.take (sharedNode i + 1) = l'.take (sharedNode i) ++ [x] := by
    rw [take_add_one, hx]
    rfl
  -- both hashes start with the digest over the last leaves of the older tree
  have hstart : startClimb (sharedNode i) (sharedLevels i last).2
      (root (hashChildren sha256) (hashEmpty sha256) (l.take (i + 1)))
      (consistencyHashes sha256 d l i) = .ok ⟨x, x, (sharedLevels i last).2,
        (auditPath (hashChildren sha256) d' l' (sharedNode i)).map Prod.snd⟩ := by
    rw [consistencyHashes, hpath, hx]
    by_cases hzero : sharedNode i = 0
    · have hbalanced :
          root (hashChildren sha256) (hashEmpty sha256) (l.take (i + 1)) = x := by
        rw [← htake, hsucc, hzero, take_zero, nil_append, root]
      obtain ⟨y, path, hcons⟩ := exists_cons_of_ne_nil
        (auditPath_ne_nil (hashChildren sha256) (i := sharedNode i) hd' (by omega) (by omega))
      rw [if_pos hzero, hcons, nil_append, map_cons, startClimb, if_neg (by omega), hbalanced]
    · dsimp only
      rw [if_neg hzero, Option.toList_some, singleton_append, startClimb, if_pos hzero]
  obtain ⟨c', hold, holdHash, hnew⟩ := oldLoop_complete x hlen' hd' hx
  rw [← hsucc, htake] at holdHash
  rw [hroot] at hnew
  rw [climbConsistency]
  dsimp only
  rw [hnode, hstart, ok_bind, hold, ok_bind, hnew, ok_bind]
  rw [failIf_of_not (not_not.mpr holdHash), failIf_of_not (not_not.mpr rfl)]
  constructor
  · intro h
    obtain ⟨_, hsame, -⟩ := bind_ok.mp h
    exact not_not.mp (failIf_ok.mp hsame)
  · intro h
    rw [failIf_of_not (not_not.mpr h)]
    rfl

end Verifier

section Generators

variable {S l : List Uint256} {store : HashStore} {off n d : ℕ}

theorem hashAt_left (hfront : store.Front S) (hS : S.length ≤ 2 ^ 32) (hl : 2 ≤ l.length)
    (hseg : Segment (hashChildren sha256) (hashEmpty sha256) S off l) :
    hashAt (some store) (UInt32.ofNat (off + (2 * splitWidth l.length - 1)) - 1) =
      .ok (root (hashChildren sha256) (hashEmpty sha256)
        (l.take (splitWidth l.length))) := by
  have hpos := splitWidth_pos l.length
  have hget := Segment.root (k := Nat.log 2 (l.length - 1)) (hseg.split hl).1
    (split_lengths hl).1
  rw [← splitWidth] at hget
  have hindex : UInt32.ofNat (off + (2 * splitWidth l.length - 1)) - 1 =
      UInt32.ofNat (off + (2 * splitWidth l.length - 1) - 1) := by
    rw [UInt32.ofNat_sub (by omega)]
    rfl
  rw [hindex]
  exact hashAt_front hfront (by have := (List.getElem?_eq_some_iff.mp hget).1; omega) hget

theorem rootk2n_right (hfront : store.Front S) (hS : S.length ≤ 2 ^ 32) (hl : 2 ≤ l.length)
    (hn : l.length < 2 ^ 32) (hseg : Segment (hashChildren sha256) (hashEmpty sha256) S off l) :
    rootk2n sha256 (some store) (UInt32.ofNat off) (splitWidth l.length) l.length =
      .ok (root (hashChildren sha256) (hashEmpty sha256)
        (l.drop (splitWidth l.length))) := by
  have hlt := splitWidth_lt hl
  have hlen := (split_lengths hl).2
  have hne : l.drop (splitWidth l.length) ≠ [] := by
    rw [← length_pos_iff]
    omega
  have hroot := segmentRoot_eq sha256 hfront hS hne (hseg.split hl).2
  rw [hlen] at hroot
  rw [rootk2n_eq_segmentRoot sha256 _ (splitWidth_pos _) (by omega), hroot]

/-- A sibling as the path builders collect it. -/
def pathEntry (x : Side × Uint256) : UInt8 × Uint256 := (sideByte x.1, x.2)

/-- The loop of the path builders collects the audit path from its end. -/
theorem inclusionLoop_eq (hfront : store.Front S) (hS : S.length ≤ 2 ^ 32) {m : ℕ}
    (hm : m < l.length) (hn : l.length < 2 ^ 32) (hd : l.length ≤ 2 ^ d)
    (hseg : Segment (hashChildren sha256) (hashEmpty sha256) S off l)
    (hashes : List (UInt8 × Uint256)) :
    StoredTree.inclusionLoop sha256 (some store) m l.length (UInt32.ofNat off) hashes =
      .ok (hashes ++ ((auditPath (hashChildren sha256) d l m).map pathEntry).reverse) := by
  induction hlen : l.length using Nat.strong_induction_on generalizing l m off hashes with
  | _ n ih =>
    subst hlen
    rw [StoredTree.inclusionLoop]
    by_cases hone : l.length ≤ 1
    · obtain ⟨a, rfl⟩ := length_eq_one_iff.mp (show l.length = 1 by omega)
      obtain rfl : m = 0 := Nat.lt_one_iff.mp hm
      rw [dif_pos hone, auditPath_singleton, map_nil, reverse_nil, append_nil]
    · have hl : 2 ≤ l.length := by omega
      have hpos := splitWidth_pos l.length
      have hlt := splitWidth_lt hl
      obtain ⟨hleft, hright⟩ := hseg.split hl
      obtain ⟨htake, hdrop⟩ := split_lengths hl
      rw [dif_neg hone, leftWidth_eq hl, auditPath_split _ (hashEmpty sha256) hd hl hm]
      dsimp only
      by_cases hside : m < splitWidth l.length
      · have hm' : m < (l.take (splitWidth l.length)).length := by omega
        have hrest := fun hashes => ih _ hlt hm' (by omega) (by omega) hleft hashes htake
        rw [if_pos hside, if_pos hside, rootk2n_right hfront hS hl hn hseg, ok_bind, hrest,
          map_append, reverse_append, append_assoc]
        rfl
      · have hm' : m - splitWidth l.length < (l.drop (splitWidth l.length)).length := by omega
        have hrest := fun hashes => ih _ (by omega) hm' (by omega) (by omega) hright hashes hdrop
        rw [if_neg hside, if_neg hside, root02k_offset hpos, hashAt_left hfront hS hl hseg, ok_bind,
          hrest, map_append, reverse_append, append_assoc]
        rfl

/-- The loop of `subproof` ends at a full subtree that both trees share. -/
theorem subproofLoop_eq (hfront : store.Front S) (hS : S.length ≤ 2 ^ 32) {m : ℕ} (hm : 1 ≤ m)
    (hmn : m < l.length ∨ ∃ j ≤ d, m = 2 ^ j ∧ l.length = 2 ^ j) (hn : l.length < 2 ^ 32)
    (hd : l.length ≤ 2 ^ d) (hseg : Segment (hashChildren sha256) (hashEmpty sha256) S off l)
    (b : Bool) (hashes : List Uint256) : ∃ l' off' j,
    StoredTree.subproofLoop sha256 (some store) m l.length (UInt32.ofNat off) b hashes =
      .ok (2 ^ j, UInt32.ofNat off', b && decide (sharedNode (m - 1) = 0),
        hashes ++ ((sharedPath (hashChildren sha256) d l (m - 1)).2.map Prod.snd).reverse) ∧
    (sharedPath (hashChildren sha256) d l (m - 1)).1 =
      some (root (hashChildren sha256) (hashEmpty sha256) l') ∧
    l'.length = 2 ^ j ∧ Segment (hashChildren sha256) (hashEmpty sha256) S off' l' := by
  induction hlen : l.length using Nat.strong_induction_on generalizing l m off b hashes with
  | _ n ih =>
    subst hlen
    rw [StoredTree.subproofLoop]
    by_cases hlt : m < l.length
    · have hl : 2 ≤ l.length := by omega
      have hpos := splitWidth_pos l.length
      have hk := splitWidth_lt hl
      have hle := le_two_mul_splitWidth hl
      obtain ⟨hleft, hright⟩ := hseg.split hl
      obtain ⟨htake, hdrop⟩ := split_lengths hl
      rw [dif_pos hlt, StoredTree.subproofWidth_eq hl,
        sharedPath_split _ (hashEmpty sha256) hd (by omega)]
      dsimp only
      by_cases hside : m ≤ splitWidth l.length
      · have hshared : m < (l.take (splitWidth l.length)).length ∨
            ∃ j ≤ d, m = 2 ^ j ∧ (l.take (splitWidth l.length)).length = 2 ^ j := by
          by_cases heq : m = splitWidth l.length
          · refine .inr ⟨Nat.log 2 (l.length - 1), ?_, heq, htake⟩
            exact (Nat.pow_le_pow_iff_right (a := 2) (by decide)).mp
              (by rw [← splitWidth]; omega)
          · exact .inl (by omega)
        obtain ⟨l', off', j, hloop, hfst, hlen', hseg'⟩ := ih _ hk hm hshared (by omega) (by omega)
          hleft b (hashes ++ [root (hashChildren sha256) (hashEmpty sha256)
            (l.drop (splitWidth l.length))]) htake
        rw [dif_pos hside, if_pos (by omega), rootk2n_right hfront hS hl hn hseg, ok_bind, hloop]
        refine ⟨l', off', j, ?_, hfst, hlen', hseg'⟩
        rw [map_append, reverse_append, append_assoc]
        rfl
      · have hm' : 1 ≤ m - splitWidth l.length := by omega
        obtain ⟨l', off', j, hloop, hfst, hlen', hseg'⟩ := ih _ (by omega) hm'
          (.inl (by omega)) (by omega) (by omega) hright false
          (hashes ++ [root (hashChildren sha256) (hashEmpty sha256)
            (l.take (splitWidth l.length))]) hdrop
        -- a size between two powers of two is none
        have hnode : sharedNode (m - 1) ≠ 0 := by
          intro hzero
          obtain ⟨j, hj⟩ := sharedNode_eq_zero hzero
          have hlow : 2 ^ Nat.log 2 (l.length - 1) < 2 ^ j := by
            rw [← splitWidth]
            omega
          have hhigh : 2 ^ j < 2 ^ (Nat.log 2 (l.length - 1) + 1) := by
            rw [pow_succ, ← splitWidth]
            omega
          have h₁ := (Nat.pow_lt_pow_iff_right (a := 2) (by decide)).mp hlow
          have h₂ := (Nat.pow_lt_pow_iff_right (a := 2) (by decide)).mp hhigh
          omega
        rw [show m - splitWidth l.length - 1 = m - 1 - splitWidth l.length by omega] at hloop hfst
        rw [dif_neg hside, if_neg (by omega), root02k_offset hpos,
          hashAt_left hfront hS hl hseg, ok_bind, hloop]
        refine ⟨l', off', j, ?_, hfst, hlen', hseg'⟩
        rw [map_append, reverse_append, append_assoc, decide_eq_false hnode,
          Bool.false_and, Bool.and_false]
        rfl
    · obtain ⟨j, hj, rfl, hpow⟩ := hmn.resolve_left hlt
      rw [dif_neg hlt, sharedPath_pow _ (hashEmpty sha256) hj hpow, sharedNode_pow, hpow]
      refine ⟨l, off, j, ?_, rfl, hpow, hseg⟩
      rw [decide_eq_true rfl, Bool.and_true, map_nil, reverse_nil, append_nil]

end Generators

section Inclusion

variable {leaves : List Bytes} {t : StoredTree} {m n : UInt32}

/-- The path builders give the audit path in the tree over the first leaves. -/
theorem Kept.inclusionPath (h : Kept sha256 leaves t) (hmn : m < n) (hn : n ≤ t.tree.treeSize)
    (hrange : n.toNat ≤ 2 ^ 31 + 1) :
    t.inclusionPath sha256 m n = .ok ((auditPath (hashChildren sha256) 32
      ((leaves.take n.toNat).map (hashLeaf sha256)) m.toNat).map pathEntry) := by
  obtain ⟨store, hstore, hfront⟩ := h.front n
  have hlen := length_leafHashes sha256 (h.le_length hn)
  have hlt := UInt32.lt_iff_toNat_lt.mp hmn
  have hloop := inclusionLoop_eq (d := 32) hfront (h.storedHashes_length_le hn hrange) (m := m.toNat)
    (by omega) (by omega) (by omega)
    (segment_storedHashes sha256 _) []
  rw [hlen] at hloop
  rw [StoredTree.inclusionPath, failIf_of_not (not_le.mpr hmn), failIf_of_not (not_lt.mpr hn),
    failIf_of_not (by rw [hstore]; exact Option.some_ne_none _), hstore]
  simp only [ok_bind]
  refine bind_ok.mpr ⟨_, hloop, ?_⟩
  rw [nil_append, reverse_reverse]
  rfl

theorem flatMap_pathEntry (path : List (Side × Uint256)) :
    (path.map pathEntry).flatMap (fun x => x.1 :: x.2.val) = encodePath path := by
  rw [flatMap_map]
  rfl

end Inclusion

section Consistency

variable {leaves : List Bytes} {t : StoredTree} {m n : UInt32}

theorem getSubTreePos_pow {j : ℕ} (hj : j < 32) :
    getSubTreePos (UInt32.ofNat (2 ^ j)) = [UInt32.ofNat (2 * 2 ^ j - 1)] := by
  have hlt : 2 ^ j < 2 ^ 32 := Nat.pow_lt_pow_right (by decide) hj
  rw [getSubTreePos_eq, UInt32.toNat_ofNat', Nat.mod_eq_of_lt hlt,
    subtreeSizes_split le_rfl (Nat.pow_lt_pow_succ (by decide)), Nat.sub_self, subtreeSizes_zero,
    runningSums, Nat.zero_add]
  rfl

theorem subproof_eq {S store l} (hfront : store.Front S) (hS : S.length ≤ 2 ^ 32) (hm : 1 ≤ m.toNat)
    (hmn : m.toNat < l.length) (hlen : l.length = n.toNat)
    (hseg : Segment (hashChildren sha256) (hashEmpty sha256) S 0 l) :
    StoredTree.subproof sha256 (some store) m n true =
      .ok (consistencyHashes sha256 32 l (m.toNat - 1)) := by
  have hnlt := n.toNat_lt
  obtain ⟨l', off', j, hloop, hfst, hlen', hseg'⟩ :=
    subproofLoop_eq (d := 32) hfront hS hm (.inl hmn) (by omega) (by omega) hseg true []
  rw [hlen, nil_append, Bool.true_and] at hloop
  refine bind_ok.mpr ⟨_, hloop, ?_⟩
  rw [consistencyHashes]
  by_cases hzero : sharedNode (m.toNat - 1) = 0
  · dsimp only
    rw [decide_eq_true hzero, if_pos rfl, if_pos hzero, reverse_reverse]
    rfl
  · have hget := hseg'.root hlen'
    have hindex := (List.getElem?_eq_some_iff.mp hget).1
    have hj : j < 32 := by
      by_contra hbad
      have : 2 ^ 32 ≤ 2 ^ j := Nat.pow_le_pow_right (by decide) (by omega)
      omega
    have hread : hashAt (some store) (UInt32.ofNat (2 * 2 ^ j - 1) + UInt32.ofNat off' - 1) =
        .ok (root (hashChildren sha256) (hashEmpty sha256) l') := by
      have hpos := Nat.two_pow_pos j
      have hsum : UInt32.ofNat (2 * 2 ^ j - 1) + UInt32.ofNat off' - 1 =
          UInt32.ofNat (off' + (2 * 2 ^ j - 1) - 1) := by
        rw [UInt32.ofNat_sub (by omega : 1 ≤ off' + (2 * 2 ^ j - 1)), UInt32.ofNat_add, UInt32.add_comm]
        rfl
      rw [hsum]
      exact hashAt_front hfront (by omega) hget
    dsimp only
    rw [decide_eq_false hzero, if_neg Bool.false_ne_true, if_neg hzero, getSubTreePos_pow hj, hfst]
    dsimp only
    rw [hread, ok_bind, reverse_append, reverse_reverse]
    rfl

theorem consistencyProof_eq {store} (hstore : t.hashStore = some store) (hmn : m ≤ n)
    (hn : n ≤ t.tree.treeSize) :
    t.consistencyProof sha256 m n = StoredTree.subproof sha256 (some store) m n true := by
  rw [StoredTree.consistencyProof, hstore, if_neg]
  rintro (hgt | hgt | hnone)
  · exact absurd hgt (not_lt.mpr hmn)
  · exact absurd hgt (not_lt.mpr hn)
  · cases hnone

theorem Kept.consistencyProof (h : Kept sha256 leaves t) (hm : 1 ≤ m) (hmn : m < n)
    (hn : n ≤ t.tree.treeSize) (hrange : n.toNat ≤ 2 ^ 31 + 1) :
    t.consistencyProof sha256 m n = .ok (consistencyHashes sha256 32
      ((leaves.take n.toNat).map (hashLeaf sha256)) (m.toNat - 1)) := by
  obtain ⟨store, hstore, hfront⟩ := h.front n
  have hlen := length_leafHashes sha256 (h.le_length hn)
  have hlt := UInt32.lt_iff_toNat_lt.mp hmn
  rw [consistencyProof_eq hstore hmn.le hn]
  exact subproof_eq hfront (h.storedHashes_length_le hn hrange) (UInt32.le_iff_toNat_le.mp hm) (by omega) hlen (segment_storedHashes sha256 _)

/-- The verifier on a consistency proof between two sizes of a tree. -/
theorem verifyConsistency_complete {l oldRoot newRoot} (hm : 1 ≤ m) (hmn : m < n)
    (hlen : l.length = n.toNat) (hne : oldRoot ≠ newRoot)
    (hold : oldRoot = root (hashChildren sha256) (hashEmpty sha256) (l.take m.toNat)) :
    verifyConsistency sha256 m n oldRoot newRoot (consistencyHashes sha256 32 l (m.toNat - 1)) =
        .ok () ↔ root (hashChildren sha256) (hashEmpty sha256) l = newRoot := by
  have hpos : 1 ≤ m.toNat := UInt32.le_iff_toNat_le.mp hm
  have hlt := UInt32.lt_iff_toNat_lt.mp hmn
  have hnlt := n.toNat_lt
  have hzero : m ≠ 0 := by
    rintro rfl
    exact absurd hpos (by decide)
  have hcheck := climbConsistency_complete sha256 newRoot (l := l) (i := m.toNat - 1) (d := 32)
    (show l.length = n.toNat - 1 + 1 by omega) (by omega) (by omega)
  rw [Nat.sub_add_cancel hpos, ← hold] at hcheck
  rw [verifyConsistency, if_neg (lt_asymm hmn), if_neg hne, if_neg hzero, toNat_sub_one (by omega),
    toNat_sub_one (by omega), hcheck]

/-- Up to `2 ^ 31 + 1` leaves, and between equal sizes, consistency proofs are accepted. -/
theorem consistency_complete (h : Built sha256 leaves t) (hm : 1 ≤ m) (hmn : m ≤ n)
    (hn : n ≤ t.tree.treeSize) (hrange : m = n ∨ n.toNat ≤ 2 ^ 31 + 1) :
    ∃ proof oldRoot newRoot, t.consistencyProof sha256 m n = .ok proof ∧
      fullRoot sha256 (leaves.take m.toNat) = .ok oldRoot ∧
      fullRoot sha256 (leaves.take n.toNat) = .ok newRoot ∧
      verifyConsistency sha256 m n oldRoot newRoot proof = .ok () := by
  have hkept := h.kept
  have hold := fullRoot_take sha256 (hkept.le_length (hmn.trans hn))
  have hnew := fullRoot_take sha256 (hkept.le_length hn)
  by_cases heq : m = n
  · subst heq
    obtain ⟨store, hstore, -⟩ := hkept.front m
    have hproof : t.consistencyProof sha256 m m = .ok [] := by
      rw [consistencyProof_eq hstore le_rfl hn, StoredTree.subproof, StoredTree.subproofLoop,
        dif_neg (lt_irrefl _)]
      rfl
    refine ⟨_, _, _, hproof, hold, hnew, ?_⟩
    rw [verifyConsistency, if_neg (lt_irrefl m), if_pos rfl]
  · have hlt : m < n := lt_of_le_of_ne hmn heq
    have hlen := length_leafHashes sha256 (hkept.le_length hn)
    have hproof := hkept.consistencyProof hm hlt hn (hrange.resolve_left heq)
    refine ⟨_, _, _, hproof, hold, hnew, ?_⟩
    have hle : m.toNat ≤ n.toNat := UInt32.le_iff_toNat_le.mp hmn
    by_cases hne : root (hashChildren sha256) (hashEmpty sha256)
        ((leaves.take m.toNat).map (hashLeaf sha256)) =
      root (hashChildren sha256) (hashEmpty sha256)
        ((leaves.take n.toNat).map (hashLeaf sha256))
    · rw [verifyConsistency, if_neg (not_lt.mpr hmn), if_pos hne]
    · refine (verifyConsistency_complete hm hlt hlen hne ?_).mpr rfl
      rw [← map_take, take_take, min_eq_left hle]

theorem consistency_complete_pair : ∃ t, Built (zeroPad 32) [[1], [2]] t ∧
    ∃ proof oldRoot newRoot, t.consistencyProof (zeroPad 32) 1 2 = .ok proof ∧
      fullRoot (zeroPad 32) [[1]] = .ok oldRoot ∧ fullRoot (zeroPad 32) [[1], [2]] = .ok newRoot ∧
      verifyConsistency (zeroPad 32) 1 2 oldRoot newRoot proof = .ok () := by
  obtain ⟨t, hbuilt⟩ := exists_built (zeroPad 32) [[1], [2]]
  have hsize : (2 : UInt32) ≤ t.tree.treeSize := by
    rw [hbuilt.kept.treeSize]
    decide
  exact ⟨t, hbuilt, consistency_complete hbuilt (by decide) (by decide) hsize (.inr (by decide))⟩

end Consistency

/-- The leaf hashes of `hugeLeaves` with the last one replaced by another first one. -/
def wrongHashes : List Uint256 := List.replicate (2 ^ 31 + 2) (hashLeaf tailHash [1])

theorem wrongHashes_length : wrongHashes.length = 2 ^ 31 + 2 := length_replicate

theorem wrongHashes_width : splitWidth wrongHashes.length = 2 ^ 31 := by
  rw [wrongHashes_length]
  exact splitWidth_eq (by omega) (by omega)

theorem root_wrongHashes :
    root (hashChildren tailHash) (hashEmpty tailHash) wrongHashes =
      hashLeaf tailHash [1] := by
  rw [wrongHashes, replicate_succ']
  exact root_tailHash _ _ _

theorem root_wrongHashes_right :
    root (hashChildren tailHash) (hashEmpty tailHash) (wrongHashes.drop (2 ^ 31)) =
      hashLeaf tailHash [1] := by
  rw [wrongHashes, drop_replicate, Nat.add_sub_cancel_left, replicate_succ']
  exact root_tailHash _ _ _

theorem hugeLeaves_left :
    (hugeLeaves.take (2 ^ 31)).map (hashLeaf tailHash) = wrongHashes.take (2 ^ 31) := by
  have hle : 2 ^ 31 ≤ (List.replicate (2 ^ 31 + 1) ([1] : Bytes)).length := by
    rw [length_replicate]
    omega
  rw [hugeLeaves, take_append_of_le_length hle, wrongHashes, take_replicate,
    take_replicate, map_replicate, min_eq_left (by omega), min_eq_left (by omega)]

variable {store : HashStore}

section

variable (hfront : store.Front (storedHashes tailHash hugeLeaves))
include hfront

theorem rootk2n_hugeLeaves :
    rootk2n tailHash (some store) (UInt32.ofNat 0) (2 ^ 31) (2 ^ 31 + 2) =
      .ok (hashLeaf tailHash [1]) := by
  have hlen := hugeLeaves_length
  have hsecond := hashAt_second (i := 0) hfront (by omega) (by omega)
  rw [pow_one, pow_zero, hugeLeaves_second, valuesRoot_singleton] at hsecond
  have hsizes : subtreeSizes 2 = [2 * 2 - 1] := by
    have hrest : 2 - 2 ^ 1 = 0 := rfl
    rw [subtreeSizes_split (n := 2) (k := 1) (by decide) (by decide), hrest, subtreeSizes_zero]
    rfl
  rw [rootk2n_eq_segmentRoot tailHash _ (by omega) (by omega), Nat.add_sub_cancel_left, Nat.zero_add,
    segmentRoot, hsizes, runningSums, mapM_cons, hsecond]
  rfl

/-- Below the topmost sibling everything is read from where it is stored. -/
theorem front_left :
    store.Front (storedHashes tailHash (hugeLeaves.take (2 ^ 31))) ∧
      (storedHashes tailHash (hugeLeaves.take (2 ^ 31))).length ≤ 2 ^ 32 ∧
      Segment (hashChildren tailHash) (hashEmpty tailHash)
        (storedHashes tailHash (hugeLeaves.take (2 ^ 31))) 0 (wrongHashes.take (2 ^ 31)) := by
  have hlen := hugeLeaves_length
  refine ⟨hfront.mono (storedHashes_take _ _ _), ?_, ?_⟩
  · rw [storedHashes_length, length_take_of_le (by omega)]
    exact storedNum_le_range (by omega)
  · rw [← hugeLeaves_left]
    exact segment_storedHashes _ _

end

theorem wrongHashes_left_length : (wrongHashes.take (2 ^ 31)).length = 2 ^ 31 := by
  rw [length_take_of_le (by rw [wrongHashes_length]; omega)]

theorem leftWidth_hugeLeaves : splitWidth (2 ^ 31 + 2) = 2 ^ 31 :=
  splitWidth_eq (by omega) (by omega)

theorem inclusionPath_hugeLeaves {t} (h : Built tailHash hugeLeaves t) :
    t.inclusionPath tailHash 0 2147483650 =
      .ok ((auditPath (hashChildren tailHash) 32 wrongHashes 0).map pathEntry) := by
  obtain ⟨store, hstore, hfront⟩ := h.kept.front 2147483650
  rw [hugeLeaves_take] at hfront
  obtain ⟨hleft, hS, hseg⟩ := front_left hfront
  have hlen := wrongHashes_left_length
  have hwrong := wrongHashes_length
  have hloop := inclusionLoop_eq (d := 32) (m := 0) hleft hS (by omega) (by omega) (by omega) hseg
    [(RIGHT, hashLeaf tailHash [1])]
  rw [hlen] at hloop
  have hsplit := auditPath_split (hashChildren tailHash) (hashEmpty tailHash) (l := wrongHashes)
    (d := 32) (i := 0) (by omega) (by omega) (by omega)
  rw [wrongHashes_width, if_pos (by omega), root_wrongHashes_right] at hsplit
  have hsteps : StoredTree.inclusionLoop tailHash (some store) 0 (2 ^ 31 + 2) (UInt32.ofNat 0) [] =
      .ok ((auditPath (hashChildren tailHash) 32 wrongHashes 0).map pathEntry).reverse := by
    rw [StoredTree.inclusionLoop, dif_neg (by omega), leftWidth_eq (by omega), leftWidth_hugeLeaves]
    rw [if_pos (by omega), rootk2n_hugeLeaves hfront, ok_bind, nil_append, hloop,
      hsplit, map_append, reverse_append]
    rfl
  rw [StoredTree.inclusionPath, failIf_of_not (by decide),
    failIf_of_not (not_lt.mpr (hugeLeaves_size h)),
    failIf_of_not (by rw [hstore]; exact Option.some_ne_none _), hstore]
  simp only [ok_bind]
  refine bind_ok.mpr ⟨_, hsteps, ?_⟩
  rw [reverse_reverse]
  rfl

theorem consistencyProof_hugeLeaves {t} (h : Built tailHash hugeLeaves t) :
    t.consistencyProof tailHash 1 2147483650 =
      .ok (consistencyHashes tailHash 32 wrongHashes ((1 : UInt32).toNat - 1)) := by
  obtain ⟨store, hstore, hfront⟩ := h.kept.front 2147483650
  rw [hugeLeaves_take] at hfront
  obtain ⟨hleft, hS, hseg⟩ := front_left hfront
  have hlen := wrongHashes_left_length
  have hwrong := wrongHashes_length
  have hsplit := sharedPath_split (hashChildren tailHash) (hashEmpty tailHash) (l := wrongHashes)
    (d := 32) (i := 0) (by omega) (by omega)
  rw [wrongHashes_width, if_pos (by omega), root_wrongHashes_right] at hsplit
  obtain ⟨l', off', j, hloop, -, -, -⟩ := subproofLoop_eq (d := 32) (m := 1) hleft hS le_rfl
    (.inl (by omega)) (by omega) (by omega) hseg true [hashLeaf tailHash [1]]
  have hnode : sharedNode 0 = 0 := sharedNode_pow 0
  rw [hlen, Nat.sub_self] at hloop
  have hsteps : StoredTree.subproofLoop tailHash (some store) 1 (2 ^ 31 + 2) (UInt32.ofNat 0) true [] =
      .ok (2 ^ j, UInt32.ofNat off', true,
        (consistencyHashes tailHash 32 wrongHashes 0).reverse) := by
    rw [StoredTree.subproofLoop, dif_pos (by omega), StoredTree.subproofWidth_eq (by omega),
      leftWidth_hugeLeaves]
    rw [dif_pos (by omega), rootk2n_hugeLeaves hfront, ok_bind, nil_append, hloop,
      consistencyHashes, hnode, if_pos rfl, hsplit, nil_append, map_append,
      reverse_append]
    rfl
  rw [consistencyProof_eq hstore (by decide) (hugeLeaves_size h)]
  refine bind_ok.mpr ⟨_, hsteps, ?_⟩
  dsimp only
  rw [if_pos rfl, reverse_reverse]
  rfl

/-- With `2 ^ 31 + 2` leaves the verifier rejects the consistency proof for the first leaf. -/
theorem consistencyProof_rejected : ∃ t proof oldRoot newRoot, Built tailHash hugeLeaves t ∧
    (2147483650 : UInt32) ≤ t.tree.treeSize ∧
    t.consistencyProof tailHash 1 2147483650 = .ok proof ∧
    fullRoot tailHash (hugeLeaves.take (1 : UInt32).toNat) = .ok oldRoot ∧
    fullRoot tailHash (hugeLeaves.take (2147483650 : UInt32).toNat) = .ok newRoot ∧
    verifyConsistency tailHash 1 2147483650 oldRoot newRoot proof ≠ .ok () := by
  obtain ⟨t, hbuilt⟩ := exists_built tailHash hugeLeaves
  have hfirst : hugeLeaves.take (1 : UInt32).toNat = [[1]] := by
    rw [hugeLeaves, replicate_succ]
    rfl
  have hold : root (hashChildren tailHash) (hashEmpty tailHash)
      (wrongHashes.take (1 : UInt32).toNat) = hashLeaf tailHash [1] := by
    rw [wrongHashes, replicate_succ]
    exact root_tailHash [] _ _
  refine ⟨t, _, hashLeaf tailHash [1], hashLeaf tailHash [2], hbuilt, hugeLeaves_size hbuilt,
    consistencyProof_hugeLeaves hbuilt, ?_, ?_, ?_⟩
  · rw [hfirst, fullRoot_eq tailHash (by decide)]
    exact congrArg _ (root_tailHash [] _ _)
  · rw [hugeLeaves_take, fullRoot_hugeLeaves]
  · intro haccepted
    have hroot := (verifyConsistency_complete (n := 2147483650) (m := 1) (by decide) (by decide)
      wrongHashes_length hashLeaf_tailHash_ne hold.symm).mp haccepted
    exact hashLeaf_tailHash_ne (root_wrongHashes.symm.trans hroot)

end Poly.Merkle
