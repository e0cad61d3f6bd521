import Poly.CrossChain.Handlers
import Poly.HeaderSync.CosmosQuorum

/-! Deposits from Cosmos chains: a header with its commit, and a Merkle proof under its application
hash. -/
namespace Poly.CrossChain.Cosmos

open Lib Native HeaderSync HeaderSync.Cosmos
open HeaderSync.Heimdall (CosmosEpochSwitchInfo CosmosProofValue getEpochSwitchInfo
  putEpochSwitchInfo)

/-- The amino decoding of proofs and the proof runtime. -/
structure ProofLib where
  Proof : Type
  unmarshalProofValue : Bytes → Result CosmosProofValue
  unmarshalProof : Bytes → Result Proof
  verifyValue : Proof → Bytes → Bytes → Bytes → Result Unit
  verifyAbsence : Proof → Bytes → Bytes → Result Unit

section Handler

variable (L : CosmosLib) (P : ProofLib) (enableEventLog : Bool)

variable (chainID : UInt64)

variable (info : CosmosEpochSwitchInfo)

variable (header : HeaderSync.Cosmos.Header)

/-- A header with a new validator set becomes the stored one. -/
def switchEpoch :
    NativeM Unit := do
  if header.validatorsHash ≠ header.nextValidatorsHash ∧ header.height > info.height then
    putEpochSwitchInfo enableEventLog chainID ⟨header.height, hashCosmosHeader L header,
      header.nextValidatorsHash, header.chainID⟩

variable (params : EntranceParam)

/-- The part of `MakeDepositProposal` about the header, which is returned. -/
def verifyDepositHeader : NativeM HeaderSync.Cosmos.Header := do
  let info ← wrapM "Cosmos MakeDepositProposal, failed to get epoch switching height: "
    (getEpochSwitchInfo params.sourceChainID)
  let height := Int64.ofNat params.height.toNat
  failIf (info.height > height) (.error (s!"Cosmos MakeDepositProposal, the height {params.height} " ++
    s!"of header is lower than epoch switching height {info.height}"))
  failIf (params.headerOrCrossChainMsg.length = 0)
    (.error "you must commit the header used to verify transaction's proof and get none")
  let myHeader ← wrapM "Cosmos MakeDepositProposal, unmarshal cosmos header failed: "
    (lift (L.unmarshalHeader params.headerOrCrossChainMsg))
  failIf (myHeader.header.height ≠ height) (.error (s!"Cosmos MakeDepositProposal, height of your " ++
    s!"header is {myHeader.header.height} not equal to {params.height} in parameter"))
  wrapM "Cosmos MakeDepositProposal, failed to verify cosmos header: "
    (lift (verifyCosmosHeader myHeader info))
  switchEpoch L enableEventLog params.sourceChainID info myHeader.header
  return myHeader.header

/-- The part about the proof. Without a key path the value itself is taken for the key of a proof
that it is absent. -/
def verifyDepositValue (appHash : Bytes) : Result MakeTxParam := do
  let proofValue ← wrapError "Cosmos MakeDepositProposal, unmarshal proof value err: "
    (P.unmarshalProofValue params.extra)
  let proof ← wrapError "Cosmos MakeDepositProposal, unmarshal proof err: "
    (P.unmarshalProof params.proof)
  wrapError "Cosmos MakeDepositProposal, proof error: "
    (if proofValue.kp.length ≠ 0 then P.verifyValue proof appHash proofValue.kp proofValue.value
      else P.verifyAbsence proof appHash proofValue.value)
  wrapError "Cosmos MakeDepositProposal, deserialize merkleValue error:"
    (decode MakeTxParam.deserialization proofValue.value)

def verifyDeposit : NativeM (Option MakeTxParam) := do
  let header ← verifyDepositHeader L enableEventLog params
  let txParam ← lift (verifyDepositValue P params header.appHash)
  return some txParam

instance :
    Within (OnlyWrites SideKey) (switchEpoch L enableEventLog chainID info header) := by
  have : Owned SideKey (syncKey EPOCH_SWITCH chainID) := ⟨.contract (by decide) _⟩
  unfold switchEpoch putEpochSwitchInfo Heimdall.notifyEpochSwitchInfo
  infer_instance

instance {R : NativeService → NativeService → Prop} [IsPreorder NativeService R] : Within R (getEpochSwitchInfo chainID) := .bind

set_option synthInstance.maxSize 100000 in
instance :
    Within (OnlyWrites SideKey) (verifyDepositHeader L enableEventLog params) := by
  dsimp only [verifyDepositHeader]
  infer_instance

instance frame_verifyDeposit :
    Within (OnlyWrites SideKey) (verifyDeposit L P enableEventLog params) := .bind

/-- The handler verifies in its own way and is guarded as all of them. -/
def cosmosHandler : GuardedHandler where
  paramsError := "Cosmos MakeDepositProposal, contract params deserialize error: "
  doneError := "Cosmos MakeDepositProposal, check done transaction error:"
  verify := verifyDeposit L P enableEventLog
  complete _ value := pure value
  frame_verify := frame_verifyDeposit L P enableEventLog
  frame_complete := frame_complete_pure
  crossChainID_complete := crossChainID_complete_pure

def makeDepositProposal : Proposal := (cosmosHandler L P enableEventLog).proposal

end Handler

section Proven

variable (L : CosmosLib) (P : ProofLib) (log : Bool)

/-- What a call brings, and the record it is checked against. -/
structure Deposit (Proof : Type) where
  params : EntranceParam
  info : CosmosEpochSwitchInfo
  header : CosmosHeader L.PubKey
  value : CosmosProofValue
  proof : Proof

structure Deposit.ReadFrom {L : CosmosLib} (d : Deposit L P.Proof) (s : NativeService) : Prop where
  params_eq : decode EntranceParam.deserialization s.input = .ok d.params
  info_eq : (getEpochSwitchInfo d.params.sourceChainID).run s = .ok (d.info, s)
  header_eq : L.unmarshalHeader d.params.headerOrCrossChainMsg = .ok d.header
  value_eq : P.unmarshalProofValue d.params.extra = .ok d.value
  proof_eq : P.unmarshalProof d.params.proof = .ok d.proof

/-- The transfer is a value under some key path of the header, which is of the registered chain and
signed by two thirds of the stored validators. -/
structure Proven {L : CosmosLib} (d : Deposit L P.Proof) (p : MakeTxParam) : Prop where
  value : ∃ v kp, decode MakeTxParam.deserialization v = .ok p ∧
    P.verifyValue d.proof d.header.header.appHash kp v = .ok ()
  chain : d.header.header.chainID = d.info.chainID
  backed : Backed d.header d.info

/-- The libraries with another predicate for values that exist. -/
abbrev ProofLib.withVerifyValue (verifyValue : P.Proof → Bytes → Bytes → Bytes → Result Unit) :
    ProofLib :=
  { P with verifyValue := verifyValue }

variable {L P log} {s t : NativeService} {p : MakeTxParam}

/-- The runtime is asked after the header is verified and before the transfer is recorded. -/
theorem makeDepositProposal_ok_iff :
    (makeDepositProposal L P log).run s = .ok (some p, t) ↔
      ∃ params header u, decode EntranceParam.deserialization s.input = .ok params ∧
        (verifyDepositHeader L log params).run s = .ok (header, u) ∧
        verifyDepositValue P params header.appHash = .ok p ∧
        (do wrapM (cosmosHandler L P log).doneError (checkDoneTx p.crossChainID params.sourceChainID)
            putDoneTx p.crossChainID params.sourceChainID : NativeM Unit).run u = .ok ((), t) := by
  constructor
  · intro h
    obtain ⟨input, _, hi, h⟩ := run_bind_ok.mp h
    obtain ⟨rfl, rfl⟩ := run_getInput_ok.mp hi
    obtain ⟨params, _, hd, h⟩ := run_bind_ok.mp h
    obtain ⟨hparams, rfl⟩ := run_lift_ok.mp (run_wrapM_ok.mp hd)
    obtain ⟨found, v, hverify, h⟩ := run_bind_ok.mp h
    obtain ⟨header, u, hheader, hverify⟩ := run_bind_ok.mp hverify
    obtain ⟨q, _, hlift, hverify⟩ := run_bind_ok.mp hverify
    obtain ⟨hvalue, rfl⟩ := run_lift_ok.mp hlift
    obtain ⟨rfl, rfl⟩ := run_pure_ok.mp hverify
    obtain ⟨_, w, hcheck, h⟩ := run_bind_ok.mp h
    obtain ⟨_, x, hput, h⟩ := run_bind_ok.mp h
    obtain ⟨q', _, hq, h⟩ := run_bind_ok.mp h
    cases hq
    obtain ⟨heq, rfl⟩ := run_pure_ok.mp h
    cases heq
    exact ⟨params, header, u, hparams, hheader, hvalue, run_bind_ok.mpr ⟨(), w, hcheck, hput⟩⟩
  · rintro ⟨params, header, u, hparams, hheader, hvalue, hrecord⟩
    obtain ⟨_, w, hcheck, hput⟩ := run_bind_ok.mp hrecord
    refine run_bind_ok.mpr ⟨s.input, s, rfl, ?_⟩
    refine run_bind_ok.mpr ⟨params, s, run_wrapM_ok.mpr (run_lift_ok.mpr ⟨hparams, rfl⟩), ?_⟩
    have hverify : (verifyDeposit L P log params).run s = .ok (some p, u) :=
      run_bind_ok.mpr ⟨header, u, hheader,
        run_bind_ok.mpr ⟨p, u, run_lift_ok.mpr ⟨hvalue, rfl⟩, rfl⟩⟩
    exact run_bind_ok.mpr ⟨some p, u, hverify, run_bind_ok.mpr ⟨(), w, hcheck,
      run_bind_ok.mpr ⟨(), t, hput, rfl⟩⟩⟩

/-- An accepted header is the submitted one, verified against the stored record. -/
theorem verifyDepositHeader_ok {params header}
    (h : (verifyDepositHeader L log params).run s = .ok (header, t)) :
    ∃ info myHeader, (getEpochSwitchInfo params.sourceChainID).run s = .ok (info, s) ∧
      L.unmarshalHeader params.headerOrCrossChainMsg = .ok myHeader ∧ myHeader.header = header ∧
      verifyCosmosHeader myHeader info = .ok () := by
  simp only [verifyDepositHeader, run_bind_ok, run_failIf_ok, run_lift_ok, run_wrapM_ok,
    run_pure_ok, and_assoc, exists_and_left, exists_eq_left', exists_const] at h
  obtain ⟨info, s₁, hinfo, -, -, myHeader, hunmarshal, -, _, hverified, _, u, -, rfl, -⟩ := h
  obtain rfl : s = s₁ := Within.of_run hinfo
  exact ⟨info, myHeader, hinfo, hunmarshal, rfl, hverified⟩

theorem verifyDepositValue_ok_iff {params appHash} :
    verifyDepositValue P params appHash = .ok p ↔
      ∃ value proof, P.unmarshalProofValue params.extra = .ok value ∧
        P.unmarshalProof params.proof = .ok proof ∧
        (if value.kp.length ≠ 0 then P.verifyValue proof appHash value.kp value.value
          else P.verifyAbsence proof appHash value.value) = .ok () ∧
        decode MakeTxParam.deserialization value.value = .ok p := by
  simp only [verifyDepositValue, bind_ok, wrapError_ok]
  constructor
  · rintro ⟨value, hvalue, proof, hproof, _, hcheck, hdecode⟩
    exact ⟨value, proof, hvalue, hproof, hcheck, hdecode⟩
  · rintro ⟨value, proof, hvalue, hproof, hcheck, hdecode⟩
    exact ⟨value, hvalue, proof, hproof, (), hcheck, hdecode⟩

theorem accepted_deposit (h : (makeDepositProposal L P log).run s = .ok (some p, t)) :
    ∃ d : Deposit L P.Proof, d.ReadFrom P s ∧ Backed d.header d.info ∧
      (d.value.kp ≠ [] → P.verifyValue d.proof d.header.header.appHash d.value.kp d.value.value =
        .ok ()) ∧ decode MakeTxParam.deserialization d.value.value = .ok p := by
  obtain ⟨params, header, u, hparams, hheader, hvalue, -⟩ := makeDepositProposal_ok_iff.mp h
  obtain ⟨info, myHeader, hinfo, hunmarshal, rfl, hverified⟩ := verifyDepositHeader_ok hheader
  obtain ⟨value, proof, hpv, hproof, hcheck, hdecode⟩ := verifyDepositValue_ok_iff.mp hvalue
  refine ⟨⟨params, info, myHeader, value, proof⟩, ⟨hparams, hinfo, hunmarshal, hpv, hproof⟩,
    verifyCosmosHeader_backed hverified, fun hkp => ?_, hdecode⟩
  rw [if_pos (by simpa using hkp)] at hcheck
  exact hcheck

theorem Deposit.ReadFrom.unique {d d' : Deposit L P.Proof} (h : d.ReadFrom P s)
    (h' : d'.ReadFrom P s) : d = d' := by
  obtain ⟨params, info, header, value, proof⟩ := d
  obtain ⟨params', info', header', value', proof'⟩ := d'
  obtain rfl : params = params' := ok_unique h.params_eq h'.params_eq
  obtain rfl : info = info' :=
    (Prod.mk.inj (ok_unique h.info_eq h'.info_eq)).1
  obtain rfl : header = header' := ok_unique h.header_eq h'.header_eq
  obtain rfl : value = value' := ok_unique h.value_eq h'.value_eq
  obtain rfl : proof = proof' := ok_unique h.proof_eq h'.proof_eq
  rfl

/-- Without a key path the predicate for values that exist is not asked. -/
theorem makeDepositProposal_of_absence {d : Deposit L P.Proof} (hd : d.ReadFrom P s)
    (hkp : d.value.kp = []) (h : (makeDepositProposal L P log).run s = .ok (some p, t))
    (verifyValue : P.Proof → Bytes → Bytes → Bytes → Result Unit) :
    (makeDepositProposal L (P.withVerifyValue verifyValue) log).run s = .ok (some p, t) := by
  obtain ⟨params, header, u, hparams, hheader, hvalue, hrecord⟩ := makeDepositProposal_ok_iff.mp h
  refine makeDepositProposal_ok_iff.mpr ⟨params, header, u, hparams, hheader, ?_, hrecord⟩
  obtain ⟨value, proof, hpv, hproof, hcheck, hdecode⟩ := verifyDepositValue_ok_iff.mp hvalue
  obtain rfl : params = d.params := ok_unique hparams hd.params_eq
  obtain rfl : value = d.value := ok_unique hpv hd.value_eq
  have hno : ¬ d.value.kp.length ≠ 0 := by simp [hkp]
  rw [if_neg hno] at hcheck
  refine verifyDepositValue_ok_iff.mpr ⟨d.value, proof, hpv, hproof, ?_, hdecode⟩
  rw [if_neg hno]
  exact hcheck

end Proven

/-- Three validators of equal power, whose keys are their only signatures. -/
def sampleVals : List (Validator UInt8) := [⟨[1], 0, 1⟩, ⟨[2], 1, 1⟩, ⟨[3], 2, 1⟩]

/-- The signature of a validator. -/
def sampleSig (key : UInt8) : HeaderSync.Cosmos.CommitSig :=
  ⟨BlockIDFlagCommit, List.replicate 20 0, 0, [key]⟩

/-- A header of height 5, signed by all validators, of the chain that it is read from. -/
def sampleHeader (chainID : Bytes) : CosmosHeader UInt8 :=
  ⟨⟨10, chainID, 5, [3], [3], [], []⟩, some ⟨5, 0, ⟨[8], ⟨1, []⟩⟩, [0, 1, 2].map sampleSig⟩,
    sampleVals.map some⟩

def sampleCosmos : CosmosLib where
  PubKey := UInt8
  verifyBytes key _ sig := sig == [key]
  setHash vals := [UInt8.ofNat vals.length]
  setHash34 _ := .ok []
  headerHash _ := [8]
  headerHash34 _ := [8]
  voteSignBytes _ chainID _ := .ok chainID
  voteSignBytes34 _ chainID _ := .ok chainID
  unmarshalHeader raw := .ok (sampleHeader raw)

/-- The proof of a value is the key path before the value, and the empty proof shows that a key is
absent. The first byte of a value says whether there is a key path. -/
def sampleProofs : ProofLib where
  Proof := Bytes
  unmarshalProofValue raw := .ok (if raw.head? = some 0 then ⟨[], raw.drop 1⟩ else ⟨[7], raw.drop 1⟩)
  unmarshalProof := .ok
  verifyValue proof _ kp value :=
    if kp ≠ [] ∧ proof = kp ++ value then .ok () else .error (.error "no value")
  verifyAbsence proof _ _ := if proof = [] then .ok () else .error (.error "not absent")

def sampleParam : MakeTxParam := ⟨[1], [2], [3], 4, [5], [6], [7]⟩

/-- A call for the chain 5 of this ledger, of which the chain [9] is registered. -/
def sampleCall (path : UInt8) (proof chainID : Bytes) : NativeService :=
  { sampleService (EntranceParam.serialization
      ⟨5, 5, proof, [], path :: sampleParam.serialization, chainID⟩) 1 with
    cacheDB := (sampleService [] 1).cacheDB.put (syncKey EPOCH_SWITCH 5)
      (genRawStorageItem (CosmosEpochSwitchInfo.serialization ⟨4, [], [3], [9]⟩)) }

theorem read_sampleCall {path proof chainID} {d : Deposit sampleCosmos sampleProofs.Proof}
    (hparams : decode EntranceParam.deserialization (sampleCall path proof chainID).input =
      .ok ⟨5, 5, proof, [], path :: sampleParam.serialization, chainID⟩)
    (hinfo : (getEpochSwitchInfo 5).run (sampleCall path proof chainID) =
      .ok (⟨4, [], [3], [9]⟩, sampleCall path proof chainID))
    (hd : d.ReadFrom sampleProofs (sampleCall path proof chainID)) :
    d.proof = proof ∧ d.header = sampleHeader chainID ∧ d.info.chainID = [9] ∧
      d.value.kp = if path = 0 then [] else [7] := by
  obtain ⟨params, info, header, value, pf⟩ := d
  cases ok_unique hparams hd.params_eq
  cases (Prod.mk.inj (ok_unique hinfo hd.info_eq)).1
  have hheader : sampleHeader chainID = header := Except.ok.inj hd.header_eq
  have hproof : proof = pf := Except.ok.inj hd.proof_eq
  have hvalue : (if (path :: sampleParam.serialization).head? = some 0
      then (⟨[], sampleParam.serialization⟩ : CosmosProofValue)
      else ⟨[7], sampleParam.serialization⟩) = value := Except.ok.inj hd.value_eq
  refine ⟨hproof.symm, hheader.symm, rfl, ?_⟩
  rw [← hvalue]
  simp only [List.head?_cons, Option.some.injEq]
  split <;> rfl

end Poly.CrossChain.Cosmos
