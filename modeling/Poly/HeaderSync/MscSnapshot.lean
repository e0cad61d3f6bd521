import Poly.HeaderSync.Msc

/-! The signers of a clique branch: what the list of a checkpoint and the votes after it come to, and
that the walk along the stored pointers finds just these. -/
namespace Poly.HeaderSync.Msc

open Lib Native List

section Ancestors

variable (L : MscLib) (epoch : UInt64)

/-- A header with a vote. -/
def Voting (header : EthHeader) : Prop := header.coinbase ≠ Address.empty

instance : DecidablePred Voting :=
  fun header => inferInstanceAs (Decidable (header.coinbase ≠ Address.empty))

/-- The last checkpoint among headers, the latest of which comes first. -/
def nearestCheckpoint (headers : List EthHeader) : Option EthHeader :=
  headers.find? fun header => Checkpoint epoch header

/-- The vote headers after the last checkpoint, the latest first. -/
def votesSince (headers : List EthHeader) : List EthHeader :=
  (headers.takeWhile fun header => ¬ Checkpoint epoch header).filter fun header => Voting header

/-- The signers after headers: those of the last checkpoint, with the votes since then applied, the
oldest first. -/
def signersAfter (headers : List EthHeader) : Result Snapshot := do
  let checkpoint ← orFail (nearestCheckpoint epoch headers) (.error "no checkpoint")
  let signers ← checkpointSigners checkpoint
  (votesSince epoch headers).reverse.foldlM
    (fun snap header => Prod.fst <$> snap.applyHeader L header) (newSnapshot signers)

/-- The headers that the last height of a signer is first looked for in. -/
def anchors (headers : List EthHeader) : List EthHeader :=
  (nearestCheckpoint epoch headers).toList ++ votesSince epoch headers

variable {epoch}

variable (rest : List EthHeader)

/-- Headers that are neither checkpoints nor votes change nothing. -/
theorem nearestCheckpoint_plain {plain} (h : ∀ x ∈ plain, ¬ Checkpoint epoch x ∧ ¬ Voting x) :
    nearestCheckpoint epoch (plain ++ rest) = nearestCheckpoint epoch rest := by
  have hnone : plain.find? (Checkpoint epoch) = none := by
    rw [find?_eq_none]
    intro x hx
    simpa using (h x hx).1
  rw [nearestCheckpoint, find?_append, hnone]
  rfl

theorem votesSince_plain {plain} (h : ∀ x ∈ plain, ¬ Checkpoint epoch x ∧ ¬ Voting x) :
    votesSince epoch (plain ++ rest) = votesSince epoch rest := by
  have htake : (plain ++ rest).takeWhile (fun header => ¬ Checkpoint epoch header) =
      plain ++ rest.takeWhile fun header => ¬ Checkpoint epoch header := by
    apply takeWhile_append_of_pos
    intro x hx
    simpa using (h x hx).1
  have hnil : plain.filter Voting = [] := by
    rw [filter_eq_nil_iff]
    intro x hx
    simpa using (h x hx).2
  rw [votesSince, htake, filter_append, hnil]
  rfl

theorem votesSince_cons {header} (h : ¬ Checkpoint epoch header) :
    votesSince epoch (header :: rest) =
      if Voting header then header :: votesSince epoch rest else votesSince epoch rest := by
  rw [votesSince, takeWhile_cons_of_pos (by simpa using h), filter_cons]
  simp only [decide_eq_true_eq]
  rfl

end Ancestors

section Branches

theorem toNat_eq_succ {a b : UInt64} (hb : b ≠ 0) (h : a = b - 1) : b.toNat = a.toNat + 1 := by
  have hone : (1 : UInt64) ≤ b := by
    exact Nat.one_le_iff_ne_zero.mpr fun h0 => hb (UInt64.toNat_inj.mp h0)
  rw [h, UInt64.toNat_sub_of_le _ _ hone]
  exact (Nat.sub_add_cancel (UInt64.le_iff_toNat_le.mp hone)).symm

variable (L : MscLib) (epoch : UInt64)

/-- What the record of a header says about its parent. -/
structure Linked (parent child : HeaderWithDifficultySum) : Prop where
  number_eq : child.header.number64.toNat = parent.header.number64.toNat + 1
  last_eq : child.lastVoteParentOrEpoch =
    if Checkpoint epoch child.header then none
    else if Checkpoint epoch parent.header ∨ Voting parent.header then some (L.hash parent.header)
    else parent.lastVoteParentOrEpoch

/-- A record with the headers before it, the latest first, down to the first record. -/
inductive Branch (find : Uint256 → Option HeaderWithDifficultySum)
    (root : HeaderWithDifficultySum) : HeaderWithDifficultySum → List EthHeader → Prop
  | root : find (L.hash root.header) = some root → Branch find root root []
  | child {parent child : HeaderWithDifficultySum} {before : List EthHeader} :
    find (L.hash child.header) = some child → child.header.parentHash = L.hash parent.header →
    Linked L epoch parent child → Branch find root parent before →
    Branch find root child (parent.header :: before)

/-- The first record is that of a checkpoint. -/
structure Rooted (root : HeaderWithDifficultySum) : Prop where
  checkpoint : Checkpoint epoch root.header
  last_eq : root.lastVoteParentOrEpoch = none

variable {L epoch} {find : Uint256 → Option HeaderWithDifficultySum}
  {root r : HeaderWithDifficultySum} {before : List EthHeader}

theorem Branch.found (h : Branch L epoch find root r before) :
    find (L.hash r.header) = some r := by
  cases h with
  | root hfind => exact hfind
  | child hfind _ _ _ => exact hfind

theorem Branch.mono {find' : Uint256 → Option HeaderWithDifficultySum}
    (hfind : ∀ hash x, find hash = some x → find' hash = some x)
    (h : Branch L epoch find root r before) : Branch L epoch find' root r before := by
  induction h with
  | root hroot => exact .root (hfind _ _ hroot)
  | child hself hparent hlinked _ ih => exact .child (hfind _ _ hself) hparent hlinked ih

theorem Branch.number_eq (h : Branch L epoch find root r before) :
    r.header.number64.toNat = root.header.number64.toNat + before.length := by
  induction h with
  | root => rfl
  | child _ _ hlinked _ ih =>
    have := hlinked.number_eq
    rw [length_cons]
    omega

theorem Branch.length_lt (h : Branch L epoch find root r before) : before.length < 2 ^ 64 := by
  have hnumber := h.number_eq
  have hlt := r.header.number64.toNat_lt
  omega

theorem Branch.last_eq_none (hroot : Rooted epoch root) (h : Branch L epoch find root r before)
    (hr : Checkpoint epoch r.header) : r.lastVoteParentOrEpoch = none := by
  cases h with
  | root => exact hroot.last_eq
  | child _ _ hlinked _ => rw [hlinked.last_eq, if_pos hr]

/-- The headers at the end of a branch are not far below it, and above the first header. -/
theorem Branch.mem_take (h : Branch L epoch find root r before) {n a}
    (ha : a ∈ (r.header :: before).take n) :
    a.number64.toNat ≤ r.header.number64.toNat ∧ r.header.number64.toNat < a.number64.toNat + n ∧
      (a = root.header ∨ root.header.number64.toNat < a.number64.toNat) := by
  induction h generalizing n with
  | root =>
    cases n with
    | zero => exact absurd ha not_mem_nil
    | succ n =>
      rw [take_succ_cons, take_nil, mem_singleton] at ha
      subst ha
      exact ⟨le_refl _, by omega, Or.inl rfl⟩
  | @child parent child before _ _ hlinked hbranch ih =>
    cases n with
    | zero => exact absurd ha not_mem_nil
    | succ n =>
      have hnumber := hlinked.number_eq
      have hroot := hbranch.number_eq
      rcases mem_cons.mp ha with rfl | ha
      · exact ⟨le_refl _, by omega, Or.inr (by omega)⟩
      · obtain ⟨hle, hlt, hor⟩ := ih ha
        exact ⟨by omega, by omega, hor⟩

/-- The pointer of a record that is no checkpoint leads over plain headers to the next checkpoint or
vote header. -/
theorem Branch.anchor (hroot : Rooted epoch root) (h : Branch L epoch find root r before)
    (hr : ¬ Checkpoint epoch r.header) :
    ∃ plain a rest, before = plain ++ a.header :: rest ∧
      (∀ x ∈ plain, ¬ Checkpoint epoch x ∧ ¬ Voting x) ∧
      r.lastVoteParentOrEpoch = some (L.hash a.header) ∧ Branch L epoch find root a rest := by
  induction h with
  | root => exact absurd hroot.checkpoint hr
  | @child parent child before _ _ hlinked hbranch ih =>
    have hlast := hlinked.last_eq
    split_ifs at hlast with hp
    · exact ⟨[], parent, before, rfl, nofun, hlast, hbranch⟩
    · obtain ⟨hck, hvote⟩ := not_or.mp hp
      obtain ⟨plain, a, rest, rfl, hplain, hpointer, ha⟩ := ih hck
      refine ⟨parent.header :: plain, a, rest, rfl, ?_, hlast.trans hpointer, ha⟩
      exact forall_mem_cons.mpr ⟨⟨hck, hvote⟩, hplain⟩

end Branches

section Walk

variable {L : MscLib} {epoch chainID : UInt64} {s t : NativeService}
  {root r : HeaderWithDifficultySum} {before : List EthHeader}

/-- The walk along the pointers finds the last checkpoint and the votes since then. The induction is
on the length of the branch: a pointer may pass over many headers. -/
theorem collect_run (hroot : Rooted epoch root) (n : ℕ) :
    ∀ {r : HeaderWithDifficultySum} {before : List EthHeader},
    Branch L epoch ((records L).stored chainID s.cacheDB) root r before → before.length < n →
    ∃ checkpoint, nearestCheckpoint epoch (r.header :: before) = some checkpoint ∧
      (collect L chainID n (L.hash r.header)).run s =
        .ok ((checkpoint, votesSince epoch (r.header :: before)), s) := by
  induction n with
  | zero => exact fun _ hn => absurd hn (Nat.not_lt_zero _)
  | succ n ih =>
    intro r before h hn
    have hget : (wrapM "msc Handler snapshot getHeader error: "
        ((records L).getHeader chainID (L.hash r.header))).run s = .ok (r, s) :=
      run_wrapM_ok.mpr (Records.getHeader_ok.mpr ⟨h.found, rfl⟩)
    by_cases hr : Checkpoint epoch r.header
    · refine ⟨r.header, find?_cons_of_pos (by simpa using hr), ?_⟩
      rw [collect, run_bind_of_ok hget, h.last_eq_none hroot hr, votesSince,
        takeWhile_cons_of_neg (by simpa using hr)]
      rfl
    · obtain ⟨plain, a, rest, rfl, hplain, hpointer, ha⟩ := h.anchor hroot hr
      have hrest : rest.length < n := by
        rw [length_append, length_cons] at hn
        omega
      obtain ⟨checkpoint, hck, hrun⟩ := ih ha hrest
      refine ⟨checkpoint, ?_, ?_⟩
      · rw [nearestCheckpoint, find?_cons_of_neg (by simpa using hr)]
        exact (nearestCheckpoint_plain _ hplain).trans hck
      · rw [collect, run_bind_of_ok hget, hpointer, votesSince_cons _ hr, votesSince_plain _ hplain]
        exact run_bind_of_ok hrun

instance {P : NativeService → NativeService → Prop} [IsPreorder NativeService P]
    {targetSigner : Address} {genesisNumber : UInt64} {n : ℕ} {number : UInt64} {hash : Uint256} :
    Within P (searchRecent L chainID targetSigner genesisNumber n number hash) := by
  induction n generalizing number hash with
  | zero => exact .pure _
  | succ n ih => exact .bind

theorem searchRecent_succ {targetSigner genesisNumber number seen n}
    (hfound : (records L).stored chainID s.cacheDB (L.hash r.header) = some r)
    (hs : (searchRecent L chainID targetSigner genesisNumber (n + 1) number
      (L.hash r.header)).run s = .ok (seen, t)) :
    number = r.header.number64 ∧ (ecrecover L r.header = .ok targetSigner ∧ seen = number ∨
      ecrecover L r.header ≠ .ok targetSigner ∧ (number - 1 < genesisNumber ∨
        (searchRecent L chainID targetSigner genesisNumber n (number - 1)
          r.header.parentHash).run s = .ok (seen, t))) := by
  rw [searchRecent, run_bind_of_ok
    (run_wrapM_ok.mpr (Records.getHeader_ok.mpr ⟨hfound, rfl⟩))] at hs
  obtain ⟨_, s₁, hcheck, hs⟩ := run_bind_ok.mp hs
  obtain ⟨hne, rfl⟩ := run_failIf_ok.mp hcheck
  obtain ⟨signer, s₁, hlift, hs⟩ := run_bind_ok.mp hs
  obtain ⟨hsigner, rfl⟩ := run_lift_ok.mp (run_wrapM_ok.mp hlift)
  have hnumber := not_not.mp hne
  refine ⟨hnumber, ?_⟩
  by_cases htarget : targetSigner = signer
  · rw [if_pos htarget] at hs
    cases hs
    exact Or.inl ⟨htarget ▸ hsigner, hnumber.symm⟩
  · rw [if_neg htarget] at hs
    refine Or.inr ⟨?_, ?_⟩
    · rw [hsigner]
      intro he
      exact htarget (Except.ok.inj he).symm
    · by_cases hlow : number - 1 < genesisNumber
      · exact Or.inl hlow
      · rw [if_neg hlow] at hs
        exact Or.inr hs

/-- The search finds a header of the branch that the target signed, or passes over all that it is
to look at. -/
theorem searchRecent_ok {targetSigner seen}
    (h : Branch L epoch ((records L).stored chainID s.cacheDB) root r before) {n number}
    (hs : (searchRecent L chainID targetSigner root.header.number64 n number
      (L.hash r.header)).run s = .ok (seen, t)) :
    (∀ a ∈ (r.header :: before).take n, ecrecover L a ≠ .ok targetSigner) ∨
      ∃ a ∈ (r.header :: before).take n, ecrecover L a = .ok targetSigner ∧ seen = a.number64 := by
  induction h generalizing n number with
  | root hself =>
    cases n with
    | zero => exact Or.inl nofun
    | succ n =>
      obtain ⟨rfl, ⟨hsigner, rfl⟩ | ⟨hsigner, -⟩⟩ := searchRecent_succ hself hs
      · exact Or.inr ⟨_, mem_cons_self, hsigner, rfl⟩
      · refine Or.inl fun a ha => ?_
        rw [take_succ_cons, take_nil, mem_singleton] at ha
        exact ha ▸ hsigner
  | @child parent child before hself hparent hlinked hbranch ih =>
    cases n with
    | zero => exact Or.inl nofun
    | succ n =>
      have hbelow : child.header.number64 - 1 = parent.header.number64 := by
        have hnumber := hlinked.number_eq
        have hzero : child.header.number64 ≠ 0 := by
          intro h0
          rw [h0] at hnumber
          exact Nat.succ_ne_zero _ hnumber.symm
        have hsucc := toNat_eq_succ hzero rfl
        exact UInt64.toNat_inj.mp (by omega)
      obtain ⟨rfl, ⟨hsigner, rfl⟩ | ⟨hsigner, hlow | hs⟩⟩ :=
        searchRecent_succ hself hs
      · exact Or.inr ⟨_, mem_cons_self, hsigner, rfl⟩
      · -- the parent is on the branch, so it is not below the first header
        have hnumber := hbranch.number_eq
        rw [hbelow, UInt64.lt_iff_toNat_lt] at hlow
        omega
      · rw [hparent] at hs
        rcases ih hs with hnone | ⟨a, ha, hfound⟩
        · exact Or.inl (forall_mem_cons.mpr ⟨hsigner, hnone⟩)
        · exact Or.inr ⟨a, mem_cons_of_mem _ ha, hfound⟩

end Walk

variable {L : MscLib}

/-- The snapshot does not depend on the target, and the last height stays where the target signed
none of the headers. -/
theorem apply_ok {targetSigner} {headers : List EthHeader} {snap : Snapshot} {snap' seen seen'}
    (h : Snapshot.apply L targetSigner headers (snap, seen) = .ok (snap', seen')) :
    headers.foldlM (fun snap header => Prod.fst <$> snap.applyHeader L header) snap = .ok snap' ∧
      ((∀ a ∈ headers, ecrecover L a ≠ .ok targetSigner) → seen' = seen) := by
  induction headers generalizing snap seen with
  | nil =>
    cases h
    exact ⟨rfl, fun _ => rfl⟩
  | cons header headers ih =>
    obtain ⟨acc, hstep, h⟩ := bind_ok.mp h
    obtain ⟨⟨snap₁, signer⟩, happly, hstep⟩ := bind_ok.mp hstep
    cases hstep
    obtain ⟨hfold, hseen⟩ := ih h
    constructor
    · have hfst : Prod.fst <$> snap.applyHeader L header = .ok snap₁ := by
        rw [happly]
        rfl
      rw [foldlM_cons, hfst]
      exact hfold
    · intro hnone
      obtain ⟨hheader, hrest⟩ := forall_mem_cons.mp hnone
      rw [hseen hrest, if_neg]
      rintro rfl
      obtain ⟨signer, hsigner, happly⟩ := bind_ok.mp happly
      obtain ⟨_, -, happly⟩ := bind_ok.mp happly
      obtain ⟨authorize, -, happly⟩ := bind_ok.mp happly
      cases happly
      exact hheader (wrapError_ok.mp hsigner)

variable {epoch : UInt64} {ctx : Context} {s t : NativeService}
  {root r : HeaderWithDifficultySum} {before : List EthHeader}

/-- The snapshot after a record is that of its branch, and the recent headers are searched for a
target that signed neither the checkpoint nor a vote header. -/
theorem snapshot_ok (hroot : Rooted epoch root)
    (h : Branch L epoch ((records L).stored ctx.chainID s.cacheDB) root r before)
    (hgenesis : (getGenesis L ctx.chainID).run s = .ok (some root.header, s))
    {number seen targetSigner snap}
    (hs : (snapshot L ctx number (L.hash r.header) targetSigner).run s = .ok ((snap, seen), t)) :
    s = t ∧ signersAfter L epoch (r.header :: before) = .ok snap ∧
      ((∀ a ∈ anchors epoch (r.header :: before), ecrecover L a ≠ .ok targetSigner) →
        (searchRecent L ctx.chainID targetSigner root.header.number64 (snap.signers.size / 2) number
          (L.hash r.header)).run s = .ok (seen, s)) := by
  have hlt : before.length < walkSteps := h.length_lt.trans (by norm_num [walkSteps])
  obtain ⟨checkpoint, hck, hcollect⟩ := collect_run hroot walkSteps h hlt
  rw [snapshot, run_bind_of_ok (run_wrapM_ok.mpr hgenesis)] at hs
  obtain ⟨genesis, s₁, hfound, hs⟩ := run_bind_ok.mp hs
  obtain ⟨hsome, rfl⟩ := run_orFail_ok.mp hfound
  cases hsome
  obtain ⟨_, s₁, hlow, hs⟩ := run_bind_ok.mp hs
  obtain ⟨-, rfl⟩ := run_failIf_ok.mp hlow
  rw [run_bind_of_ok hcollect] at hs
  simp only [run_bind_ok, run_lift_ok, run_wrapM_ok, and_assoc, exists_and_left,
    exists_eq_left'] at hs
  obtain ⟨signers, hsigners, signer, hsigner, ⟨snap', seen'⟩, happly, hs⟩ := hs
  obtain ⟨hfold, hseen⟩ := apply_ok happly
  have hafter : signersAfter L epoch (r.header :: before) = .ok snap' := by
    rw [signersAfter, hck]
    exact bind_ok.mpr ⟨checkpoint, rfl, bind_ok.mpr ⟨signers, hsigners, hfold⟩⟩
  simp only at hs
  split_ifs at hs with hpos
  · obtain ⟨heq, rfl⟩ := run_pure_ok.mp hs
    cases heq
    refine ⟨rfl, hafter, fun hnone => ?_⟩
    -- a height found before the search is that of an anchor
    have hck' : ecrecover L checkpoint ≠ .ok targetSigner :=
      hnone _ (mem_append_left _ (by rw [hck]; exact mem_singleton_self _))
    rw [hseen fun a ha => hnone a (mem_append_right _ (mem_reverse.mp ha)), if_neg] at hpos
    · exact absurd hpos (by decide)
    · rintro rfl
      exact hck' hsigner
  · obtain ⟨found, s₁, hsearch, hs⟩ := run_bind_ok.mp hs
    obtain ⟨heq, rfl⟩ := run_pure_ok.mp hs
    cases heq
    obtain rfl : s = s₁ := Within.of_run hsearch
    exact ⟨rfl, hafter, fun _ => hsearch⟩

theorem inturn_isSigner {snap : Snapshot} {number signer offset}
    (h : snap.inturn number signer = .ok (true, offset)) : snap.isSigner signer = true := by
  obtain ⟨_, hne, h⟩ := bind_ok.mp h
  obtain ⟨hturn, rfl⟩ := ok_mk_inj h
  have hlen : 0 < snap.signers.keys.length := length_pos_of_ne_nil (failIf_ok.mp hne)
  have hlt : snap.signers.keys.findIdx (· = signer) < snap.signers.keys.length := by
    rw [← of_decide_eq_true hturn]
    exact Nat.mod_lt _ hlen
  obtain ⟨k, hk, hsigner⟩ := findIdx_lt_length.mp hlt
  cases of_decide_eq_true hsigner
  obtain ⟨v, hv⟩ := OrderedMap.mem_keys.mp hk
  rw [Snapshot.isSigner, hv]
  rfl

variable (L epoch) in
/-- What the checks of a header's seal leave of it: the signers after the headers before it; the
header's signer is one of them if the header is in turn, and has signed none of the last headers if
it has signed none of those that are looked at first. -/
structure Admitted (root header : EthHeader) (before : List EthHeader) (signer : Address)
    (snap : Snapshot) : Prop where
  signer_eq : ecrecover L header = .ok signer
  signers_eq : signersAfter L epoch before = .ok snap
  isSigner : header.difficulty = diffInTurn → snap.isSigner signer = true
  not_recent : (∀ a ∈ root :: anchors epoch before, ecrecover L a ≠ .ok signer) →
    header.number64.toNat + snap.signers.size / 2 < 2 ^ 64 →
    ∀ a ∈ before.take (snap.signers.size / 2), ecrecover L a ≠ .ok signer

/-- A height found among the last headers of the branch is too recent. -/
theorem recent_refused {header : EthHeader} {a n}
    (h : Branch L epoch ((records L).stored ctx.chainID s.cacheDB) root r before)
    (hnumber : header.number64.toNat = r.header.number64.toNat + 1)
    (hfits : header.number64.toNat + n < 2 ^ 64) (ha : a ∈ (r.header :: before).take n)
    (hroot : a ≠ root.header) :
    a.number64 > 0 ∧ header.number64 < a.number64 + (UInt64.ofNat n + 1) := by
  obtain ⟨hle, hlt, rfl | habove⟩ := h.mem_take ha
  · exact absurd rfl hroot
  · have hn : (UInt64.ofNat n + 1).toNat = n + 1 := by
      rw [UInt64.toNat_add, UInt64.toNat_ofNat_of_lt' (by change n < 2 ^ 64; omega)]
      exact Nat.mod_eq_of_lt (by change n + 1 < 2 ^ 64; omega)
    rw [gt_iff_lt, UInt64.lt_iff_toNat_lt, UInt64.lt_iff_toNat_lt, UInt64.toNat_add]
    exact ⟨by change 0 < a.number64.toNat; omega, by omega⟩

theorem verifySeal_ok (hroot : Rooted epoch root)
    (h : Branch L epoch ((records L).stored ctx.chainID s.cacheDB) root r before)
    (hgenesis : (getGenesis L ctx.chainID).run s = .ok (some root.header, s)) {header : EthHeader}
    {u} (hparent : header.parentHash = L.hash r.header)
    (hnumber : r.header.number64 = header.number64 - 1)
    (hs : (verifySeal L ctx header).run s = .ok (u, t)) :
    s = t ∧ header.number64.toNat = r.header.number64.toNat + 1 ∧
      ∃ signer snap, Admitted L epoch root.header header (r.header :: before) signer snap := by
  simp only [verifySeal, run_bind_ok, run_failIf_ok, run_lift_ok, run_wrapM_ok, and_assoc,
    exists_and_left, exists_eq_left', exists_const] at hs
  obtain ⟨hzero, signer, hsigner, ⟨snap, seen⟩, s₁, hsnap, _, -, -, hrecent, ⟨inturn, offset⟩,
    hinturn, hdifficulty, rfl⟩ := hs
  rw [hparent] at hsnap
  obtain ⟨rfl, hafter, hsearch⟩ := snapshot_ok hroot h hgenesis hsnap
  have hsucc := toNat_eq_succ hzero hnumber
  refine ⟨rfl, hsucc, signer, snap, hsigner, hafter, ?_, ?_⟩
  · intro htwo
    cases inturn with
    | true => exact inturn_isSigner hinturn
    | false => exact absurd (htwo.symm.trans (not_not.mp hdifficulty)) (show ¬ 2 = 1 by decide)
  · intro hunseen hfits a ha hsigned
    obtain ⟨hunroot, hunseen⟩ := forall_mem_cons.mp hunseen
    rcases searchRecent_ok h (hsearch hunseen) with hnone | ⟨b, hb, hfound, rfl⟩
    · exact hnone a ha hsigned
    · have hne : b ≠ root.header := by
        rintro rfl
        exact hunroot hfound
      exact hrecent (recent_refused h hsucc hfits hb hne)

end Poly.HeaderSync.Msc
