import Poly.HeaderSync.Cosmos
import Poly.HeaderSync.VotingPower

/-! The voting power behind an accepted header of a Cosmos chain. -/
namespace Poly.HeaderSync

open Lib Native List

section Distinct

variable {K : Type}

theorem processChange_prevAddr {acc acc'} {v : Validator K} (h : processChange acc v = .ok acc') :
    v.address ≠ acc.prevAddr ∧ acc'.prevAddr = v.address := by
  obtain ⟨_, hne, h⟩ := bind_ok.mp h
  obtain ⟨_, -, h⟩ := bind_ok.mp h
  obtain ⟨_, -, h⟩ := bind_ok.mp h
  refine ⟨failIf_ok.mp hne, ?_⟩
  split at h
  · cases h
    rfl
  · cases h
    rfl

theorem processChanges_nodup {l : List (Validator K)} {acc acc'}
    (hsorted : l.Pairwise fun a b => a.address ≤ b.address)
    (hprev : ∀ v ∈ l, acc.prevAddr ≤ v.address) (h : l.foldlM processChange acc = .ok acc') :
    (l.map Validator.address).Nodup ∧ acc.prevAddr ∉ l.map Validator.address := by
  induction l generalizing acc with
  | nil => exact ⟨nodup_nil, not_mem_nil⟩
  | cons v l ih =>
    obtain ⟨hv, hsorted⟩ := pairwise_cons.mp hsorted
    obtain ⟨acc₁, hstep, hrest⟩ := bind_ok.mp h
    obtain ⟨hne, hprev₁⟩ := processChange_prevAddr hstep
    obtain ⟨hnodup, hnot⟩ := ih hsorted (fun w hw => hprev₁ ▸ hv w hw) hrest
    rw [hprev₁] at hnot
    refine ⟨nodup_cons.mpr ⟨hnot, hnodup⟩, ?_⟩
    intro hmem
    rcases mem_cons.mp hmem with heq | hmem
    · exact hne heq.symm
    · obtain ⟨w, hw, heq⟩ := mem_map.mp hmem
      have hle : v.address ≤ acc.prevAddr := heq ▸ hv w hw
      exact hne (le_antisymm hle (hprev v mem_cons_self))

theorem newValidatorSet_nodup {valz} {vals : List (Validator K)}
    (h : newValidatorSet valz = .ok vals) : (vals.map Validator.address).Nodup := by
  obtain ⟨copies, acc, -, rfl, hacc, -⟩ := newValidatorSet_sorted h
  refine (processChanges_nodup (pairwise_insertionSort _ copies) ?_ hacc).1
  intro v _
  exact not_lt.mp (not_lt_nil v.address)

end Distinct

namespace Cosmos

open Heimdall (CosmosEpochSwitchInfo)

variable {L : CosmosLib}

/-- The validators in the order in which the signatures of the commit are. -/
def ordered (myHeader : CosmosHeader L.PubKey) (valset : List (Validator L.PubKey)) :
    List (Validator L.PubKey) :=
  if myHeader.header.versionBlock < 11 then valset else myHeader.valsets.filterMap id

/-- The validator at the index has signed the commit, under the chain id of the header. -/
def Signed (myHeader : CosmosHeader L.PubKey) (commit : Commit) (vals : List (Validator L.PubKey))
    (i : ℕ) : Prop :=
  ∃ cs val bytes, commit.signatures[i]? = some cs ∧ cs.blockIDFlag = BlockIDFlagCommit ∧
    vals[i]? = some val ∧ voteSignBytes L myHeader.header commit i = .ok bytes ∧
    L.verifyBytes val.pubKey bytes cs.signature = true

/-- Of the set with the stored hash, different validators with more than two thirds of the voting
power have signed a commit for the header. -/
def Backed (myHeader : CosmosHeader L.PubKey) (info : CosmosEpochSwitchInfo) : Prop :=
  ∃ valset commit, newValidatorSet myHeader.valsets = .ok valset ∧ myHeader.commit = some commit ∧
    (hashCosmosValSet L valset myHeader.header.versionBlock = .ok info.nextValidatorsHash ∨
      L.setHash valset = info.nextValidatorsHash) ∧
    commit.blockID.hash = hashCosmosHeader L myHeader.header ∧
    (ordered myHeader valset).Perm valset ∧ (valset.map Validator.address).Nodup ∧
    TwoThirds (ordered myHeader valset) (Signed myHeader commit (ordered myHeader valset))

variable {myHeader : CosmosHeader L.PubKey} {info : CosmosEpochSwitchInfo} {commit : Commit}
  {valset : List (Validator L.PubKey)}

theorem ordered_perm (h : newValidatorSet myHeader.valsets = .ok valset) :
    (ordered myHeader valset).Perm valset := by
  unfold ordered
  split
  · exact List.Perm.refl _
  · have hperm := ((newValidatorSet_ok h).1.filterMap id).symm
    simpa using hperm

theorem getValByIndex_ok {idx val} (hset : newValidatorSet myHeader.valsets = .ok valset)
    (h : getValByIndex myHeader.valsets myHeader.header.versionBlock idx = .ok val) :
    (ordered myHeader valset)[idx]? = some val := by
  unfold getValByIndex at h
  unfold ordered
  split at h
  next hold =>
    obtain ⟨valset', hset', h⟩ := bind_ok.mp h
    cases ok_unique hset hset'
    rw [if_pos hold]
    exact orFail_ok.mp h
  next hnew =>
    obtain ⟨found, hfound, h⟩ := bind_ok.mp h
    cases orFail_ok.mp h
    obtain ⟨copies, hcopies, -⟩ := bind_ok.mp hset
    have hmap := mapM_orFail_ok hcopies
    have hidx := goIndex_ok.mp hfound
    rw [if_neg hnew]
    rw [hmap] at hidx ⊢
    simpa using hidx

/-- A signature for the block of a commit that is not for nil has the flag for it. -/
theorem blockID_ok {cs : CommitSig} (hzero : commit.blockID.isZero ≠ true)
    (h : cs.blockID commit.blockID = .ok commit.blockID) : cs.blockIDFlag = BlockIDFlagCommit := by
  unfold CommitSig.blockID at h
  have hempty : ∀ id : BlockID, Except.ok emptyBlockID = (Except.ok id : Result BlockID) →
      id.isZero = true := by
    rintro id heq
    cases heq
    rfl
  split at h
  · exact absurd (hempty _ h) hzero
  · split at h
    · assumption
    · split at h
      · exact absurd (hempty _ h) hzero
      · cases h

theorem tallySignature_ok {cs : CommitSig} {k : ℕ} {acc acc' : Int64}
    (hset : newValidatorSet myHeader.valsets = .ok valset)
    (hzero : commit.blockID.isZero ≠ true) (hcs : commit.signatures[k]? = some cs)
    (h : tallySignature myHeader commit acc (cs, k) = .ok acc') :
    (¬ Signed myHeader commit (ordered myHeader valset) k ∧ acc' = acc) ∨
      (Signed myHeader commit (ordered myHeader valset) k ∧
        ∃ val, (ordered myHeader valset)[k]? = some val ∧ acc' = acc + val.votingPower) := by
  -- without the flag for the block nothing at the position is signed
  have hflag : cs.blockIDFlag ≠ BlockIDFlagCommit →
      ¬ Signed myHeader commit (ordered myHeader valset) k := by
    rintro hne ⟨cs', val, bytes, hcs', hcommit, -⟩
    cases hcs.symm.trans hcs'
    exact hne hcommit
  simp only [tallySignature] at h
  split at h
  next habsent =>
    refine Or.inl ⟨hflag ?_, (Except.ok.inj h).symm⟩
    have habsent : cs.blockIDFlag = BlockIDFlagAbsent := of_decide_eq_true habsent
    rw [habsent]
    decide
  · obtain ⟨val, hval, h⟩ := bind_ok.mp h
    obtain ⟨bytes, hbytes, h⟩ := bind_ok.mp h
    obtain ⟨_, hsig, h⟩ := bind_ok.mp h
    obtain ⟨blockID, hblock, h⟩ := bind_ok.mp h
    split at h
    next heq =>
      subst heq
      have hval := getValByIndex_ok hset hval
      have hsig := Bool.eq_true_of_not_eq_false (failIf_ok.mp hsig)
      have hcommit := blockID_ok hzero hblock
      exact Or.inr ⟨⟨cs, val, bytes, hcs, hcommit, hval, hbytes, hsig⟩, val, hval,
        (Except.ok.inj h).symm⟩
    next hne =>
      refine Or.inl ⟨hflag ?_, (Except.ok.inj h).symm⟩
      intro hcommit
      apply hne
      have hown : cs.blockID commit.blockID = .ok commit.blockID := by
        rw [CommitSig.blockID, hcommit]
        rfl
      exact ok_unique hown hblock

/-- Two thirds of the stored set are behind every accepted header. -/
theorem verifyCosmosHeader_backed (h : verifyCosmosHeader myHeader info = .ok ()) :
    Backed myHeader info := by
  simp only [verifyCosmosHeader, bind_ok] at h
  obtain ⟨valset, hset, valSetHash, hhash, _, hnext, _, -, commit, hcommit, _, -, _, hblock, _,
    hbasic, _, hlen, tallied, htally, total, htotal, h⟩ := h
  have hzero : commit.blockID.isZero ≠ true := by
    obtain ⟨_, -, hbasic⟩ := bind_ok.mp (wrapError_ok.mp hbasic)
    obtain ⟨_, -, hbasic⟩ := bind_ok.mp hbasic
    obtain ⟨_, hzero, -⟩ := bind_ok.mp hbasic
    exact failIf_ok.mp hzero
  have hperm := ordered_perm hset
  have hall : ∀ v ∈ valset, Allowed v := (newValidatorSet_ok hset).2
  obtain ⟨hsum, hmax⟩ := totalVotingPower_ok hall htotal
  have hallOrdered : ∀ v ∈ ordered myHeader valset, Allowed v :=
    fun v hv => hall v (hperm.mem_iff.mp hv)
  have hpower : powerSum (ordered myHeader valset) = powerSum valset := by
    unfold powerSum
    exact (hperm.map _).sum_eq
  have hcounted : tallied.toInt = countedPower (ordered myHeader valset)
      (Signed myHeader commit (ordered myHeader valset)) (ordered myHeader valset).length := by
    refine tally_counted hallOrdered (by omega) ?_ (fun k x acc acc' hx hstep => ?_) htally
    · rw [length_zipIdx, hperm.length_eq, not_not.mp (failIf_ok.mp hlen)]
    · obtain ⟨cs, hcs, rfl⟩ : ∃ cs, commit.signatures[k]? = some cs ∧ (cs, k) = x := by
        simpa [getElem?_zipIdx] using hx
      exact tallySignature_ok hset hzero hcs hstep
  have hpos := powerSum_nonneg hall
  have hthirds := twoThirds_lt (by omega) (by omega) (failIf_ok.mp h)
  refine ⟨valset, commit, hset, orFail_ok.mp hcommit, ?_, not_not.mp (failIf_ok.mp hblock),
    hperm, newValidatorSet_nodup hset, ?_⟩
  · rcases not_and_or.mp (failIf_ok.mp hnext) with hnew | hold
    · left
      rw [hhash, not_not.mp hnew]
    · right
      exact (not_not.mp hold).symm
  · rw [hsum, hcounted] at hthirds
    rw [TwoThirds, hpower]
    exact hthirds

end Cosmos

end Poly.HeaderSync
