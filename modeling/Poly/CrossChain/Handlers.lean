import Poly.CrossChain.Common

/-! The handlers of the source chains: the vote handler, and the handlers that verify a proof and
guard with the record of done transfers. -/
namespace Poly.CrossChain

open Lib Native Source Sink Governance

variable (C : Crypto)

/-- What a handler returns: the outgoing transfer, or nothing yet. -/
abbrev Proposal := NativeM (Option MakeTxParam)

structure VoteInfo where
  status : Bool
  voteInfo : OrderedMap Bytes Bool
  deriving DecidableEq

/-- The voters in descending order of their base58 text. -/
def VoteInfo.serialization (v : VoteInfo) : Bytes :=
  writeBool v.status ++ writeUint64 (UInt64.ofNat v.voteInfo.size) ++
    v.voteInfo.entries.reverse.flatMap fun x => writeVarBytes x.1 ++ writeBool x.2

def VoteInfo.deserialization : Reader Failure VoteInfo := do
  let status ← nextBool (.error "VoteInfo deserialize status length error")
  let n ← nextUint64 (.error "VoteInfo deserialize VoteInfo length error")
  let items ← Reader.replicate (do
    let k ← nextVarBytes (.error "VoteInfo deserialize key error")
    let v ← nextBool (.error "VoteInfo deserialize value error")
    return (k, v)) n.toNat
  return ⟨status, items.foldl (fun m x => m.insert x.1 x.2) OrderedMap.empty⟩

def getVoteInfo (id : Bytes) : NativeM VoteInfo := do
  match ← getCache (chainKey [VOTE_INFO, id]) with
  | none => return ⟨false, OrderedMap.empty⟩
  | some voteInfoStore =>
    let voteInfoBytes ← wrapM "getVoteInfo, deserialize from raw storage item err:"
      (lift (getValueFromRawStorageItem voteInfoStore))
    wrapM "getVoteInfo, deserialize VoteInfo err:"
      (lift (decode VoteInfo.deserialization voteInfoBytes))

def putVoteInfo (id : Bytes) (voteInfo : VoteInfo) : NativeM Unit :=
  putItem (chainKey [VOTE_INFO, id]) voteInfo.serialization

/-- The search for the signer among the consensus peers; it stops at the first match. -/
def isConsensusPeer (address : Address) : List (Bytes × PeerPoolItem) → Result Bool
  | [] => .ok false
  | (key, v) :: rest =>
    if v.status = ConsensusStatus then do
      let k ← wrapError "CheckVotes, hex.DecodeString public key error: " (hexDecode key)
      let publicKey ← wrapError "CheckVotes, keypair.DeserializePublicKey error: "
        (C.keys.deserializePublicKey k)
      if addressFromPubKey C.keys C.sha256 C.ripemd160 publicKey = address then return true
      else isConsensusPeer address rest
    else isConsensusPeer address rest

/-- Count a vote; true when it is the one that reaches two thirds of the consensus peers. -/
def countVote (id : Bytes) (address : Address) (voteInfo : VoteInfo)
    (keys : List C.keys.PublicKey) : NativeM Bool := do
  let addresses := keys.map (addressFromPubKey C.keys C.sha256 C.ripemd160)
  let voted := (addresses.filter fun a => (voteInfo.voteInfo.get (C.toBase58 a)).isSome).length
  let sum := addresses.length
  let flag := sum ≠ 0 ∧ (voteInfo.voteInfo.get (C.toBase58 address)).isNone
  let counted := if flag then
    { voteInfo with voteInfo := voteInfo.voteInfo.insert (C.toBase58 address) true } else voteInfo
  let num := if flag then voted + 1 else voted
  (if flag then putVoteInfo id counted else pure ())
  if num ≥ (2 * sum + 2) / 3 then
    putVoteInfo id { counted with status := true }
    return true
  else
    return false

def checkVotes (id : Bytes) (address : Address) : NativeM Bool := do
  let voteInfo ← wrapM "CheckVotes, getVoteInfo error: " (getVoteInfo id)
  if voteInfo.status then
    return false
  else
    let view ← wrapM "CheckVotes, GetView error: " getView
    let peerPoolMap ← wrapM "CheckVotes, GetPeerPoolMap error: " (getPeerPoolMap view)
    let consensus ← lift (isConsensusPeer C address peerPoolMap.entries)
    failIf (consensus = false) (.error "CheckVotes, signer is not consensus peer")
    let keys ← lift (consensusKeys C "CheckVotes" peerPoolMap)
    countVote C id address voteInfo keys

def NETWORK_ID_MAIN_NET : UInt32 := 1

def NETWORK_ID_TEST_NET : UInt32 := 2

/-- On the test network the vote handler records done transfers only from this height on. -/
def VOTE_GUARD_HEIGHT : UInt32 := 19954185

variable (networkId : UInt32)

/-- The guard of the vote handler. -/
def voteGuard (crossChainID : Bytes) (chainID : UInt64) : NativeM Unit := do
  let s ← get
  if networkId ≠ NETWORK_ID_TEST_NET ∨ s.height ≥ VOTE_GUARD_HEIGHT then
    wrapM "vote MakeDepositProposal, check done transaction error:"
      (checkDoneTx crossChainID chainID)
    putDoneTx crossChainID chainID
  else
    return ()

/-- `VoteHandler.MakeDepositProposal`. Chain, height and data identify what is voted on. -/
def voteProposal : Proposal := do
  let params ← wrapM "vote MakeDepositProposal, contract params deserialize error: "
    (lift (decode EntranceParam.deserialization (← getInput)))
  let address ← wrapM "vote MakeDepositProposal, common.AddressParseFromBytes error: "
    (lift (addressParseFromBytes params.relayerAddress))
  wrapM "vote MakeDepositProposal, checkWitness error: " (validateOwner address)
  let unique : EntranceParam := ⟨params.sourceChainID, params.height, [], [], params.extra, []⟩
  let ok ← wrapM "vote MakeDepositProposal, CheckVotes error: "
    (checkVotes C (C.sha256 unique.serialization).val address)
  if ok then
    let txParam ← wrapM "vote MakeDepositProposal, deserialize MakeTxParam error:"
      (lift (decode MakeTxParam.deserialization params.extra))
    voteGuard networkId txParam.crossChainID params.sourceChainID
    return some txParam
  else
    return none

/-- A handler that verifies a transfer in its own way, passes it through `CheckDoneTx` and
`PutDoneTx`, and may then complete it. Apart from the record it writes side keys only. -/
structure GuardedHandler where
  paramsError : String
  doneError : String
  verify : EntranceParam → NativeM (Option MakeTxParam)
  complete : EntranceParam → MakeTxParam → NativeM MakeTxParam
  frame_verify : ∀ params, Within (OnlyWrites SideKey) (verify params)
  frame_complete : ∀ params value, Within (OnlyWrites SideKey) (complete params value)
  crossChainID_complete : ∀ params value s value' t,
    (complete params value).run s = .ok (value', t) → value'.crossChainID = value.crossChainID

theorem frame_complete_pure (_ : EntranceParam) (value : MakeTxParam) :
    Within (OnlyWrites SideKey) (pure value : NativeM MakeTxParam) :=
  inferInstance

theorem crossChainID_complete_pure (_ : EntranceParam) (value : MakeTxParam) (s : NativeService)
    (value' : MakeTxParam) (t : NativeService)
    (h : (pure value : NativeM MakeTxParam).run s = .ok (value', t)) :
    value'.crossChainID = value.crossChainID := by
  obtain ⟨rfl, -⟩ := run_pure_ok.mp h
  rfl

/-- `MakeDepositProposal` of such a handler. -/
def GuardedHandler.proposal (h : GuardedHandler) : Proposal := do
  let params ← wrapM h.paramsError (lift (decode EntranceParam.deserialization (← getInput)))
  match ← h.verify params with
  | none => return none
  | some value =>
    wrapM h.doneError (checkDoneTx value.crossChainID params.sourceChainID)
    putDoneTx value.crossChainID params.sourceChainID
    let txParam ← h.complete params value
    return some txParam

theorem GuardedHandler.proposed (h : GuardedHandler) {s t p params}
    (hparams : decode EntranceParam.deserialization s.input = .ok params)
    (hr : h.proposal.run s = .ok (p, t)) : Proposed params.sourceChainID p s t := by
  obtain ⟨input, s₀, hi, hr⟩ := run_bind_ok.mp hr
  obtain ⟨rfl, rfl⟩ := run_getInput_ok.mp hi
  obtain ⟨params', s₀, hd, hr⟩ := run_bind_ok.mp hr
  obtain ⟨hdec, rfl⟩ := run_lift_ok.mp (run_wrapM_ok.mp hd)
  cases ok_unique hparams hdec
  obtain ⟨value, s₁, hv, hr⟩ := run_bind_ok.mp hr
  have hbefore := (h.frame_verify _).of_run hv
  cases value with
  | none =>
    cases hr
    exact .none hbefore
  | some value =>
    obtain ⟨_, s₂, hcheck, hr⟩ := run_bind_ok.mp hr
    obtain ⟨_, s₃, hput, hr⟩ := run_bind_ok.mp hr
    obtain ⟨q, s₄, hc, hr⟩ := run_bind_ok.mp hr
    cases hr
    have hid := h.crossChainID_complete _ _ _ _ _ hc
    rw [← hid] at hcheck hput
    exact .guarded hbefore (run_wrapM_ok.mp hcheck) hput ((h.frame_complete _ _).of_run hc)

theorem GuardedHandler.frame_proposal (h : GuardedHandler) :
    Within (OnlyWrites RecordKey) h.proposal := by
  have hverify := fun params => frame_record (h.frame_verify params)
  have hcomplete := fun params value => frame_record (h.frame_complete params value)
  refine @Within.bind _ _ _ _ _ _ _ _ _ fun _ => @Within.bind _ _ _ _ _ _ _ _ _ fun params =>
    @Within.bind _ _ _ _ _ _ _ _ _ fun found => ?_
  cases found <;> infer_instance

set_option synthInstance.maxSize 100000

instance (id : Bytes) : Owned SideKey (chainKey [VOTE_INFO, id]) := ⟨.name (by decide) _⟩

section Voted

variable {P : Bytes → Prop} {id : Bytes} [Owned P (chainKey [VOTE_INFO, id])]

instance (voteInfo : VoteInfo) : Within (OnlyWrites P) (putVoteInfo id voteInfo) :=
  inferInstanceAs (Within _ (putItem _ _))

instance (address : Address) (voteInfo : VoteInfo) (keys : List C.keys.PublicKey) :
    Within (OnlyWrites P) (countVote C id address voteInfo keys) := .bind

instance : Within (OnlyWrites P) (getVoteInfo id) := .bind_option

instance frame_checkVotes (address : Address) : Within (OnlyWrites P) (checkVotes C id address) :=
  .bind

end Voted

instance (crossChainID : Bytes) (chainID : UInt64) :
    Within (OnlyWrites RecordKey) (voteGuard networkId crossChainID chainID) := .bind

/-- Outside the exempt heights of the test network the vote handler guards as well. -/
theorem voteProposal_proposed {networkId s t p params}
    (hparams : decode EntranceParam.deserialization s.input = .ok params)
    (hnet : networkId ≠ NETWORK_ID_TEST_NET ∨ s.height ≥ VOTE_GUARD_HEIGHT)
    (hr : (voteProposal C networkId).run s = .ok (p, t)) : Proposed params.sourceChainID p s t := by
  simp only [voteProposal, run_bind_ok, run_getInput_ok, run_lift_ok, run_wrapM_ok, and_assoc,
    exists_and_left, exists_eq_left'] at hr
  obtain ⟨params', hdec, address, -, _, s₁, ho, ok, s₂, hv, hr⟩ := hr
  cases ok_unique hparams hdec
  have hbefore : OnlyWrites SideKey s s₂ := .trans (Within.of_run ho) (Within.of_run hv)
  cases ok with
  | false =>
    cases hr
    exact .none hbefore
  | true =>
    obtain ⟨q, s₃, hq, hr⟩ := run_bind_ok.mp hr
    obtain ⟨-, rfl⟩ := run_lift_ok.mp (run_wrapM_ok.mp hq)
    obtain ⟨_, s₄, hg, hr⟩ := run_bind_ok.mp hr
    cases hr
    obtain ⟨u, s₅, hs, hg⟩ := run_bind_ok.mp hg
    cases hs
    rw [hbefore.height_eq.symm] at hnet
    rw [if_pos hnet] at hg
    obtain ⟨_, s₆, hcheck, hput⟩ := run_bind_ok.mp hg
    exact .guarded hbefore (run_wrapM_ok.mp hcheck) hput (refl_of (OnlyWrites SideKey) _)

theorem frame_voteProposal :
    Within (OnlyWrites RecordKey) (voteProposal C networkId) := by
  have hvotes := fun id address => frame_record (@frame_checkVotes C _ id _ address)
  dsimp only [voteProposal]
  infer_instance

end Poly.CrossChain
