import Poly.HeaderSync.VotingPower

/-! The voting power behind an accepted Heimdall header. -/
namespace Poly.HeaderSync

open Lib Native

namespace Heimdall

variable {L : HeimdallLib}

section Evidence

variable (vals : List (Validator L.PubKey)) (commit : Commit) (chainID hash : Bytes)

/-- Some precommit names the index, and the vote at the index is for the block. -/
def Named (i : ℕ) : Prop :=
  (∃ cs, some cs ∈ commit.precommits ∧ cs.validatorIndex.toInt = i) ∧
    ∃ slot, commit.precommits[i]? = some (some slot) ∧ slot.blockID.hash = hash

/-- The commit has a signature, under the index of the validator, of a precommit for the block. -/
def Shown (i : ℕ) : Prop :=
  ∃ cs, some cs ∈ commit.precommits ∧ cs.validatorIndex.toInt = i ∧
    ∃ val vote bytes, vals[i]? = some val ∧ commit.getVote i = .ok (some vote) ∧
      vote.type = PrecommitType ∧ vote.blockID.hash = hash ∧
      vote.signBytes L chainID = .ok bytes ∧ L.verifyBytes val.pubKey bytes cs.signature = true

/-- There is a signature of the validator at all of some precommit for the block. -/
def HasSigned (i : ℕ) : Prop :=
  ∃ val vote bytes sig, vals[i]? = some val ∧ vote.type = PrecommitType ∧
    vote.blockID.hash = hash ∧ vote.chainID = chainID ∧ L.marshalVote vote = .ok bytes ∧
    L.verifyBytes val.pubKey bytes sig = true

variable {vals commit chainID hash}

theorem getVote_ok {i vote} (h : commit.getVote i = .ok vote) :
    ∃ slot, commit.precommits[i]? = some slot ∧
      vote = slot.map fun cs => ⟨PrecommitType, commit.height, commit.round, cs.blockID,
        cs.timestamp, cs.validatorAddress, Int64.ofNat i, cs.signature, cs.sideTxResults⟩ := by
  obtain ⟨slot, hslot, h⟩ := bind_ok.mp h
  refine ⟨slot, orFail_ok.mp hslot, ?_⟩
  cases slot with
  | none | some => exact (Except.ok.inj h).symm

/-- What the loop establishes of a precommit. -/
structure Checked (vals : List (Validator L.PubKey)) (commit : Commit) (chainID : Bytes)
    (cs : CommitSig) (val : Validator L.PubKey) (i : ℕ) : Prop where
  index_eq : cs.validatorIndex.toInt = i
  val_eq : vals[i]? = some val
  signed : ∃ bytes, commit.voteSignBytes L chainID i = .ok bytes ∧
    L.verifyBytes val.pubKey bytes cs.signature = true

theorem tallyPrecommit_ok {tallied tallied' cs}
    (h : tallyPrecommit vals commit chainID tallied (some cs) = .ok tallied') :
    ∃ val i, Checked vals commit chainID cs val i ∧
      tallied' = if commit.blockID = cs.blockID then tallied + val.votingPower else tallied := by
  obtain ⟨val, hval, h⟩ := bind_ok.mp h
  obtain ⟨_, -, h⟩ := bind_ok.mp h
  obtain ⟨bytes, hbytes, h⟩ := bind_ok.mp h
  obtain ⟨_, hsig, h⟩ := bind_ok.mp h
  have hidx := orFail_ok.mp hval
  unfold getByIndex at hidx
  split at hidx
  · cases hidx
  next hneg =>
    have hneg := Int64.lt_iff_toInt_lt.not.mp hneg
    rw [Int64.toInt_zero] at hneg
    refine ⟨val, _, ⟨(Int.toNat_of_nonneg (by omega)).symm, hidx, bytes, hbytes, ?_⟩, ?_⟩
    · exact Bool.eq_true_of_not_eq_false (failIf_ok.mp hsig)
    · split at h
      · rename_i heq
        rw [if_pos heq]
        exact (Except.ok.inj h).symm
      · rename_i hne
        rw [if_neg hne]
        exact (Except.ok.inj h).symm

theorem tally_checked {l : List (Option CommitSig)} {tallied tallied' : Int64}
    (h : l.foldlM (tallyPrecommit vals commit chainID) tallied = .ok tallied') :
    ∀ cs, some cs ∈ l → ∃ val i, Checked vals commit chainID cs val i := by
  induction l generalizing tallied with
  | nil => exact nofun
  | cons x l ih =>
    intro cs hcs
    obtain ⟨tallied₁, hstep, hrest⟩ := bind_ok.mp h
    rcases List.mem_cons.mp hcs with rfl | hcs
    · obtain ⟨val, i, hchecked, -⟩ := tallyPrecommit_ok hstep
      exact ⟨val, i, hchecked⟩
    · exact ih hrest cs hcs

theorem shown_iff_named (hash : Bytes)
    (hchecked : ∀ cs, some cs ∈ commit.precommits → ∃ val i, Checked vals commit chainID cs val i)
    (i : ℕ) : Shown vals commit chainID hash i ↔ Named commit hash i := by
  constructor
  · rintro ⟨cs, hcs, hidx, val, vote, bytes, -, hvote, -, hhash, -, -⟩
    obtain ⟨slot, hslot, heq⟩ := getVote_ok hvote
    obtain ⟨slot', rfl, hv⟩ := Option.map_eq_some_iff.mp heq.symm
    refine ⟨⟨cs, hcs, hidx⟩, slot', hslot, ?_⟩
    rw [← hhash, ← hv]
  · rintro ⟨⟨cs, hcs, hidx⟩, slot, hslot, hhash⟩
    obtain ⟨val, j, hc⟩ := hchecked cs hcs
    obtain rfl : j = i := by
      have := hc.index_eq
      omega
    obtain ⟨bytes, hbytes, hsig⟩ := hc.signed
    obtain ⟨found, hfound, hsign⟩ := bind_ok.mp hbytes
    obtain ⟨vote, hvote, hsign⟩ := bind_ok.mp hsign
    cases orFail_ok.mp hvote
    obtain ⟨slot', hslot', heq⟩ := getVote_ok hfound
    cases hslot.symm.trans hslot'
    cases heq
    exact ⟨cs, hcs, hidx, val, _, bytes, hc.val_eq, hfound, rfl, by rw [← hhash], hsign, hsig⟩

end Evidence

section Aligned

variable {vals : List (Validator L.PubKey)} {commit : Commit} {chainID hash : Bytes}

/-- Each precommit stands at the index that it names, as in the commit of an honest node. -/
def Aligned (commit : Commit) : Prop :=
  ∀ (i : ℕ) (cs : CommitSig), commit.precommits[i]? = some (some cs) → cs.validatorIndex.toInt = i

/-- The precommit at the index is for the block of the commit. -/
def Counted (commit : Commit) (i : ℕ) : Prop :=
  ∃ cs, commit.precommits[i]? = some (some cs) ∧ commit.blockID = cs.blockID

theorem tally_aligned (hall : ∀ v ∈ vals, Allowed v)
    (hmax : powerSum vals ≤ MaxTotalVotingPower.toInt) (haligned : Aligned commit)
    (hlen : vals.length = commit.precommits.length) {tallied : Int64}
    (h : commit.precommits.foldlM (tallyPrecommit vals commit chainID) 0 = .ok tallied) :
    tallied.toInt = countedPower vals (Counted commit) vals.length := by
  refine tally_counted hall hmax hlen (fun k x acc acc' hx hstep => ?_) h
  cases x with
  | none =>
    cases hstep
    left
    refine ⟨?_, rfl⟩
    rintro ⟨cs, hcs, -⟩
    rw [hx] at hcs
    cases hcs
  | some cs =>
    obtain ⟨val, i, hchecked, rfl⟩ := tallyPrecommit_ok hstep
    obtain rfl : i = k := by
      have h₁ := hchecked.index_eq
      have h₂ := haligned k cs hx
      omega
    split_ifs with heq
    · exact Or.inr ⟨⟨cs, hx, heq⟩, val, hchecked.val_eq, rfl⟩
    · left
      refine ⟨?_, rfl⟩
      rintro ⟨cs', hcs', heq'⟩
      cases hx.symm.trans hcs'
      exact heq heq'

end Aligned

section Acceptance

variable {header : CosmosHeader L.PubKey} {info : CosmosEpochSwitchInfo}
  {vals : List (Validator L.PubKey)} {commit : Commit}

/-- What `verifyCosmosHeader` checks before it counts. -/
structure Accepted (header : CosmosHeader L.PubKey) (info : CosmosEpochSwitchInfo)
    (vals : List (Validator L.PubKey)) (commit : Commit) : Prop where
  set_eq : newValidatorSet header.valsets = .ok vals
  commit_eq : header.commit = some commit
  next_eq : validatorsHash L vals = info.nextValidatorsHash
  hash_eq : commit.blockID.hash = header.header.hash L
  length_eq : vals.length = commit.precommits.length
  checked : ∀ cs, some cs ∈ commit.precommits →
    ∃ val i, Checked vals commit info.chainID cs val i

theorem verifyCosmosHeader_ok (h : verifyCosmosHeader header info = .ok ()) :
    ∃ vals commit tallied total, Accepted header info vals commit ∧
      commit.precommits.foldlM (tallyPrecommit vals commit info.chainID) 0 = .ok tallied ∧
      totalVotingPower vals = .ok total ∧ ¬ tallied ≤ total * 2 / 3 := by
  simp only [verifyCosmosHeader, bind_ok] at h
  obtain ⟨vals, hset, _, hnext, _, -, commit, hcommit, _, -, _, hhash, _, -, _, hlen, tallied,
    htally, total, htotal, h⟩ := h
  refine ⟨vals, commit, tallied, total, ?_, htally, htotal, failIf_ok.mp h⟩
  exact ⟨hset, orFail_ok.mp hcommit, (not_not.mp (failIf_ok.mp hnext)).symm,
    not_not.mp (failIf_ok.mp hhash), not_not.mp (failIf_ok.mp hlen), tally_checked htally⟩

/-- The validators of the submitted set, which is the stored one by its hash, that are shown to have
signed a precommit for the header under the stored chain id have more than two thirds. -/
def Backed (header : CosmosHeader L.PubKey) (info : CosmosEpochSwitchInfo) : Prop :=
  ∃ vals commit, newValidatorSet header.valsets = .ok vals ∧ header.commit = some commit ∧
    validatorsHash L vals = info.nextValidatorsHash ∧
    TwoThirds vals (Shown vals commit info.chainID (header.header.hash L))

/-- The different validators that the precommits name, with a vote for the header at their index,
have more than two thirds. -/
def Covered (header : CosmosHeader L.PubKey) : Prop :=
  ∃ vals commit, newValidatorSet header.valsets = .ok vals ∧ header.commit = some commit ∧
    TwoThirds vals (Named commit (header.header.hash L))

/-- What is behind an accepted header. -/
structure Quorum (header : CosmosHeader L.PubKey) (info : CosmosEpochSwitchInfo) : Prop where
  backed_iff : Backed header info ↔ Covered header
  backed_of_aligned : (∀ commit, header.commit = some commit → Aligned commit) →
    Backed header info
  signed_of_backed : Backed header info →
    ∃ vals, newValidatorSet header.valsets = .ok vals ∧
      TwoThirds vals (HasSigned vals info.chainID (header.header.hash L))
  set_unique : ∀ vals vals', newValidatorSet header.valsets = .ok vals →
    validatorsHash L vals' = info.nextValidatorsHash →
    (vals'.map fun v => (v.pubKey, v.votingPower)) = vals.map fun v => (v.pubKey, v.votingPower)

section

variable (h : Accepted header info vals commit)
include h

theorem Accepted.twoThirds_iff :
    TwoThirds vals (Shown vals commit info.chainID (header.header.hash L)) ↔
      TwoThirds vals (Named commit (header.header.hash L)) := by
  have hall := (newValidatorSet_ok h.set_eq).2
  have hiff := shown_iff_named (header.header.hash L) h.checked
  exact ⟨fun hs => hs.mono hall fun i _ => (hiff i).mp, fun hn => hn.mono hall fun i _ => (hiff i).mpr⟩

theorem Accepted.backed_iff :
    Backed header info ↔ Covered header := by
  constructor
  · rintro ⟨vals', commit', hset, hcommit, -, htwo⟩
    cases ok_unique h.set_eq hset
    cases h.commit_eq.symm.trans hcommit
    exact ⟨vals, commit, hset, hcommit, h.twoThirds_iff.mp htwo⟩
  · rintro ⟨vals', commit', hset, hcommit, htwo⟩
    cases ok_unique h.set_eq hset
    cases h.commit_eq.symm.trans hcommit
    exact ⟨vals, commit, hset, hcommit, h.next_eq, h.twoThirds_iff.mpr htwo⟩

end

theorem verifyCosmosHeader_quorum (h : verifyCosmosHeader header info = .ok ()) :
    Quorum header info := by
  obtain ⟨vals, commit, tallied, total, ha, htally, htotal, hlt⟩ := verifyCosmosHeader_ok h
  have hall := (newValidatorSet_ok ha.set_eq).2
  refine ⟨ha.backed_iff, fun haligned => ha.backed_iff.mpr ?_, ?_, ?_⟩
  · obtain ⟨hsum, hmax⟩ := totalVotingPower_ok hall htotal
    have hcounted := tally_aligned hall hmax (haligned commit ha.commit_eq) ha.length_eq htally
    have htwo : TwoThirds vals (Counted commit) := by
      have hpos := powerSum_nonneg hall
      have hthirds := twoThirds_lt (by omega) (by omega) hlt
      rw [hsum, hcounted] at hthirds
      exact hthirds
    refine ⟨vals, commit, ha.set_eq, ha.commit_eq, htwo.mono hall fun i _ hi => ?_⟩
    obtain ⟨cs, hcs, hblock⟩ := hi
    exact ⟨⟨cs, List.mem_of_getElem? hcs, haligned commit ha.commit_eq i cs hcs⟩, cs, hcs,
      hblock ▸ ha.hash_eq⟩
  · rintro ⟨vals', commit', hset, -, -, htwo⟩
    refine ⟨vals', hset, htwo.mono (newValidatorSet_ok hset).2 fun i _ hs => ?_⟩
    obtain ⟨cs, -, -, val, vote, bytes, hval, -, htype, hhash, hbytes, hsig⟩ := hs
    exact ⟨val, _, bytes, cs.signature, hval, htype, hhash, rfl, orPanic_ok.mp hbytes, hsig⟩
  · intro vals₁ vals₂ hset hhash
    cases ok_unique ha.set_eq hset
    rw [← ha.next_eq, validatorsHash_eq, validatorsHash_eq] at hhash
    exact L.setRoot_inj hhash

end Acceptance

variable {s t : NativeService}

/-- The record after a header with other validators. -/
def CosmosEpochSwitchInfo.switched (info : CosmosEpochSwitchInfo) (h : CosmosHeader L.PubKey) :
    CosmosEpochSwitchInfo :=
  { info with
    nextValidatorsHash := h.header.nextValidatorsHash
    height := h.header.height
    blockHash := h.header.hash L }

/-- Switches one after the other, each with the relation of its header to the record before. -/
def Switches (R : CosmosHeader L.PubKey → CosmosEpochSwitchInfo → Prop) :
    CosmosEpochSwitchInfo → List (CosmosHeader L.PubKey) → CosmosEpochSwitchInfo → Prop
  | info, [], info' => info = info'
  | info, h :: hs, info' =>
    R h info ∧ info.height < h.header.height ∧ Switches R (info.switched h) hs info'

theorem Switches.mono {R R' : CosmosHeader L.PubKey → CosmosEpochSwitchInfo → Prop}
    (hR : ∀ h info, R h info → R' h info) {info info' hs} (h : Switches R info hs info') :
    Switches R' info hs info' := by
  induction hs generalizing info with
  | nil => exact h
  | cons x hs ih => exact ⟨hR x info h.1, h.2.1, ih h.2.2⟩

/-- A header is passed over or verified against the record before it. -/
theorem syncHeader_ok {acc acc' v} (h : syncHeader L acc v = .ok acc') :
    acc' = acc ∨ ∃ header : CosmosHeader L.PubKey, verifyCosmosHeader header acc.1 = .ok () ∧
      acc.1.height < header.header.height ∧ acc' = (acc.1.switched header, acc.2 + 1) := by
  obtain ⟨header, -, h⟩ := bind_ok.mp h
  split at h
  · exact .inl (Except.ok.inj h).symm
  · split at h
    · exact .inl (Except.ok.inj h).symm
    next hlt =>
      obtain ⟨_, hv, h⟩ := bind_ok.mp h
      refine .inr ⟨header, wrapError_ok.mp hv, ?_, (Except.ok.inj h).symm⟩
      rw [Int64.lt_iff_toInt_lt]
      have hle := Int64.le_iff_toInt_le.not.mp hlt
      omega

theorem syncHeaders_ok {l : List Bytes} {acc acc'} (h : l.foldlM (syncHeader L) acc = .ok acc') :
    ∃ hs : List (CosmosHeader L.PubKey), acc'.2 = acc.2 + hs.length ∧
      Switches (fun h info => verifyCosmosHeader h info = .ok ()) acc.1 hs acc'.1 := by
  induction l generalizing acc with
  | nil =>
    cases h
    exact ⟨[], rfl, rfl⟩
  | cons v l ih =>
    obtain ⟨acc₁, hstep, hrest⟩ := bind_ok.mp h
    obtain ⟨hs, hcount, hswitches⟩ := ih hrest
    rcases syncHeader_ok hstep with rfl | ⟨header, hv, hlt, rfl⟩
    · exact ⟨hs, hcount, hswitches⟩
    · refine ⟨header :: hs, ?_, hv, hlt, hswitches⟩
      rw [List.length_cons]
      omega

theorem getEpochSwitchInfo_unchanged {chainId info}
    (h : (getEpochSwitchInfo chainId).run s = .ok (info, t)) : s = t :=
  (Within.bind (x := getCache _)).of_run h

theorem putEpochSwitchInfo_ok {enableEventLog chainId info}
    (h : (putEpochSwitchInfo enableEventLog chainId info).run s = .ok ((), t)) :
    t.cacheDB.get (syncKey EPOCH_SWITCH chainId) = some (genRawStorageItem info.serialization) := by
  obtain ⟨_, s₁, hput, h⟩ := run_bind_ok.mp h
  cases hput
  have hkeep : t.cacheDB = s.cacheDB.put (syncKey EPOCH_SWITCH chainId)
      (genRawStorageItem info.serialization) := by
    cases enableEventLog with
    | true | false =>
      cases h
      rfl
  rw [hkeep, CacheDB.get_put_self _ (genRawStorageItem_ne_nil _)]

theorem syncBlockHeader_ok {enableEventLog : Bool}
    (h : (syncBlockHeader L enableEventLog).run s = .ok ((), t)) :
    ∃ params info hs info', decode SyncBlockHeaderParam.deserialization s.input = .ok params ∧
      (getEpochSwitchInfo params.chainID).run s = .ok (info, s) ∧ hs ≠ [] ∧
      Switches (L := L) (fun h info => verifyCosmosHeader h info = .ok ()) info hs info' ∧
      t.cacheDB.get (syncKey EPOCH_SWITCH params.chainID) =
        some (genRawStorageItem info'.serialization) := by
  simp only [Heimdall.syncBlockHeader, run_bind_ok, run_getInput_ok, run_failIf_ok, run_lift_ok,
    run_wrapM_ok, and_assoc, exists_and_left, exists_eq_left', exists_const] at h
  obtain ⟨params, hparams, info, s₃, hinfo, ⟨info', cnt⟩, hfold, hpos, h⟩ := h
  cases getEpochSwitchInfo_unchanged hinfo
  obtain ⟨hs, hcount, hswitches⟩ := syncHeaders_ok hfold
  refine ⟨params, info, hs, info', hparams, hinfo, ?_, hswitches,
    putEpochSwitchInfo_ok h⟩
  rintro rfl
  exact hpos hcount

theorem verifySpan_ok {chainId proof span}
    (h : (verifySpan L chainId proof).run s = .ok (span, t)) :
    ∃ info, (getEpochSwitchInfo chainId).run s = .ok (info, s) ∧
      verifyCosmosHeader proof.header info = .ok () := by
  obtain ⟨info, s₁, hinfo, h⟩ := run_bind_ok.mp h
  cases getEpochSwitchInfo_unchanged (run_wrapM_ok.mp hinfo)
  obtain ⟨_, s₂, hv, -⟩ := run_bind_ok.mp h
  exact ⟨info, run_wrapM_ok.mp hinfo, (run_lift_ok.mp (run_wrapM_ok.mp hv)).1⟩

/-- Every accepted header, every switch of the validator set by `SyncBlockHeader` and every accepted
span has a quorum of signatures exactly if the different validators named by the precommits have
one. -/
theorem heimdall_quorum_iff (enableEventLog : Bool) :
    (∀ (header : CosmosHeader L.PubKey) (info : CosmosEpochSwitchInfo),
      verifyCosmosHeader header info = .ok () → Quorum header info) ∧
    (∀ s t, (syncBlockHeader L enableEventLog).run s = .ok ((), t) →
      ∃ params info hs info', decode SyncBlockHeaderParam.deserialization s.input = .ok params ∧
        (getEpochSwitchInfo params.chainID).run s = .ok (info, s) ∧ hs ≠ [] ∧
        Switches (L := L) Quorum info hs info' ∧
        t.cacheDB.get (syncKey EPOCH_SWITCH params.chainID) =
          some (genRawStorageItem info'.serialization)) ∧
    ∀ s t chainId (proof : CosmosProof L.PubKey) span,
      (verifySpan L chainId proof).run s = .ok (span, t) →
      ∃ info, (getEpochSwitchInfo chainId).run s = .ok (info, s) ∧ Quorum proof.header info := by
  refine ⟨fun header info h => verifyCosmosHeader_quorum h, fun s t h => ?_,
    fun s t chainId proof span h => ?_⟩
  · obtain ⟨params, info, hs, info', hparams, hinfo, hne, hswitches, hstored⟩ :=
      syncBlockHeader_ok h
    exact ⟨params, info, hs, info', hparams, hinfo, hne,
      hswitches.mono fun _ _ => verifyCosmosHeader_quorum, hstored⟩
  · obtain ⟨info, hinfo, hv⟩ := verifySpan_ok h
    exact ⟨info, hinfo, verifyCosmosHeader_quorum hv⟩

/-- The members of a set one after the other. -/
def flatMembers : List (UInt8 × Int64) → Bytes
  | [] => []
  | x :: l => x.1 :: (leBytes 8 x.2.toUInt64.toNat ++ flatMembers l)

theorem flatMembers_injective : Function.Injective flatMembers := by
  intro l l' h
  induction l generalizing l' with
  | nil =>
    cases l' with
    | nil => rfl
    | cons x l' => cases h
  | cons x l ih =>
    cases l' with
    | nil => cases h
    | cons y l' =>
      obtain ⟨hkey, hrest⟩ := List.cons.inj h
      obtain ⟨hpower, hrest⟩ := List.append_inj hrest (by rw [leBytes_length, leBytes_length])
      have heq := UInt64.toNat_inj.mp (leBytes_inj (UInt64.toNat_lt _) (UInt64.toNat_lt _) hpower)
      have hint : x.2 = y.2 := by simpa using congrArg UInt64.toInt64 heq
      rw [ih hrest, Prod.ext hkey hint]

/-- A library in which the key 0 signs everything and no other key signs anything. -/
def openHeimdall : HeimdallLib where
  PubKey := UInt8
  verifyBytes key _ _ := key = 0
  setRoot := flatMembers
  setRoot_nil := rfl
  setRoot_inj := flatMembers_injective
  headerRoot _ := Uint256.empty
  marshalVote _ := .ok []
  unmarshalHeader _ := .error (.error "not used")
  verifyValue _ _ _ _ := .ok ()
  HeimdallSpan := Unit
  Span := Unit
  unmarshalSpan _ := .ok ()
  spanFromHeimdall _ := .ok ()

theorem openHeimdall_verifyBytes {key : UInt8} {msg sig : Bytes}
    (h : openHeimdall.verifyBytes key msg sig = true) : key = 0 :=
  of_decide_eq_true h

instance : DecidableEq openHeimdall.PubKey := inferInstanceAs (DecidableEq UInt8)

/-- Three validators of equal power. -/
def sampleVals : List (Validator openHeimdall.PubKey) :=
  [⟨[1], (0 : UInt8), 1⟩, ⟨[2], (1 : UInt8), 1⟩, ⟨[3], (2 : UInt8), 1⟩]

def sampleBlockID : BlockID := ⟨Uint256.empty.val, ⟨1, []⟩⟩

/-- A precommit for the block that names the first validator. -/
def samplePrecommit : CommitSig := ⟨PrecommitType, 5, 0, sampleBlockID, 0, [1], 0, [7], []⟩

/-- The record of the switch to the three validators. -/
def sampleInfo : CosmosEpochSwitchInfo := ⟨4, [], validatorsHash openHeimdall sampleVals, [9]⟩

/-- A header whose commit has the precommit of the first validator three times. -/
def sampleRepeated : CosmosHeader openHeimdall.PubKey :=
  ⟨⟨[9], 5, validatorsHash openHeimdall sampleVals, [], [], []⟩,
    some ⟨sampleBlockID, List.replicate 3 (some samplePrecommit)⟩, sampleVals.map some⟩

/-- One validator of three is enough: it is counted three times. -/
theorem quorum_of_one :
    verifyCosmosHeader sampleRepeated sampleInfo = .ok () ∧ ¬ Backed sampleRepeated sampleInfo ∧
      ∀ vals, newValidatorSet sampleRepeated.valsets = .ok vals →
        ¬ TwoThirds vals (HasSigned vals sampleInfo.chainID (sampleRepeated.header.hash openHeimdall)) := by
  have hv : verifyCosmosHeader sampleRepeated sampleInfo = .ok () := by decide +kernel
  have hset : newValidatorSet sampleRepeated.valsets = .ok sampleVals := by decide +kernel
  have hfew : ¬ TwoThirds sampleVals
      (HasSigned sampleVals sampleInfo.chainID (sampleRepeated.header.hash openHeimdall)) := by
    intro htwo
    -- only the first key verifies a signature
    have hfirst : TwoThirds sampleVals (· = 0) := by
      refine htwo.mono (newValidatorSet_ok hset).2 fun i hi hs => ?_
      obtain ⟨val, vote, bytes, sig, hval, -, -, -, -, hsig⟩ := hs
      match i, hval with
      | 0, _ => rfl
      | 1, hval =>
        cases hval
        exact absurd (openHeimdall_verifyBytes hsig) (by decide : (1 : UInt8) ≠ 0)
      | 2, hval =>
        cases hval
        exact absurd (openHeimdall_verifyBytes hsig) (by decide : (2 : UInt8) ≠ 0)
    have hpower : powerSum sampleVals = 3 ∧ powerAt sampleVals 0 = 1 := by decide +kernel
    rw [TwoThirds, Finset.sum_filter, hpower.1, show sampleVals.length = 2 + 1 from rfl,
      Finset.sum_range_succ'] at hfirst
    simp [hpower.2] at hfirst
  refine ⟨hv, fun hb => ?_, fun vals hvals => ?_⟩
  · obtain ⟨vals, hvals, htwo⟩ := (verifyCosmosHeader_quorum hv).signed_of_backed hb
    cases ok_unique hset hvals
    exact hfew htwo
  · cases ok_unique hset hvals
    exact hfew

theorem heimdall_quorum_iff_repeated :
    verifyCosmosHeader sampleRepeated sampleInfo = .ok () ∧ Quorum sampleRepeated sampleInfo := by
  have hv : verifyCosmosHeader sampleRepeated sampleInfo = .ok () := by decide +kernel
  exact ⟨hv, (heimdall_quorum_iff false).1 sampleRepeated sampleInfo hv⟩

end Heimdall

end Poly.HeaderSync
