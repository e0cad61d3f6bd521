import Poly.Governance.Params
import Poly.Ledger.Clock
import Poly.Native.Crashes

/-! Deposits from the chains with an Ethereum virtual machine: the proof of a transfer is verified
against the canonical header at the height that the relayer names. -/
namespace Poly.CrossChain.Evm

open Lib Native Source HeaderSync

structure StorageProof where
  key : String
  proof : List String

structure Proof where
  (address balance codeHash nonce storageHash : String)
  accountProof : List String
  storageProofs : List StorageProof

/-- The libraries for JSON, hexadecimal numbers, hashes, tries and RLP, which return or report an
error. -/
structure EvmLib where
  unmarshalProof : Bytes → Except String Proof
  hex2Bytes : String → Bytes
  hexToHash : String → Uint256
  hexNumber : String → Option ℤ
  keccak256 : Bytes → Bytes
  stateRoot : EthHeader → Uint256
  /-- The value at a key of the trie with a root, if there is one, by the nodes of a proof. -/
  verifyProof : Uint256 → Bytes → List Bytes → Except String (Option Bytes)
  /-- The RLP of an account: its nonce, balance, storage hash and code hash. -/
  encodeAccount : ℤ → ℤ → Uint256 → Uint256 → Except String Bytes
  decodeBytes : Bytes → Except String Bytes

/-- The packages with this handler. -/
inductive Handler where
  | bsc
  | heco
  | hsc
  | msc
  | bor

def Handler.name : Handler → String
  | .heco => "heco"
  | .hsc => "hsc"
  | .msc => "msc"
  | _ => "eth"

def Handler.verifier : Handler → String
  | .heco => "verifyFromHecoTx"
  | .hsc => "verifyFromHscTx"
  | _ => "verifyFromTx"

def replace0x (s : String) : String :=
  match s.toLower.splitOn "0x" with
  | [] => ""
  | before :: after => before ++ "0x".intercalate after

def returned {α : Type} : Except String α → Result α
  | .ok a => .ok a
  | .error msg => .error (.error msg)

variable (L : EvmLib)

/-- The bytes of the nodes of a proof. -/
def nodes (proof : List String) : List Bytes := proof.map fun p => L.hex2Bytes (replace0x p)

def verifyMerkleProof (proof : Proof) (blockData : EthHeader) (contractAddr : Bytes) :
    Result (Option Bytes) := do
  let addr := L.hex2Bytes (replace0x proof.address)
  failIf (addr ≠ contractAddr) (.error ("verifyMerkleProof, contract address is error, " ++
    s!"proof address: {proof.address}, side chain address: " ++ toHex contractAddr))
  let acctVal ← wrapError "verifyMerkleProof, verify account proof error:" (returned
    (L.verifyProof (L.stateRoot blockData) (L.keccak256 addr) (nodes L proof.accountProof)))
  let nounce ← orFail (L.hexNumber (replace0x proof.nonce))
    (.error ("verifyMerkleProof, invalid format of nounce:" ++ proof.nonce))
  let balance ← orFail (L.hexNumber (replace0x proof.balance))
    (.error ("verifyMerkleProof, invalid format of balance:" ++ proof.balance))
  let storageHash := L.hexToHash (replace0x proof.storageHash)
  let acctrlp ← returned (L.encodeAccount nounce balance storageHash
    (L.hexToHash (replace0x proof.codeHash)))
  failIf (acctrlp ≠ acctVal.getD []) (.error ("verifyMerkleProof, verify account proof failed, " ++
    s!"wanted:{printBytes acctrlp}, get:{printBytes (acctVal.getD [])}"))
  match proof.storageProofs with
  | [sp] => wrapError "verifyMerkleProof, verify storage proof error:" (returned (L.verifyProof
      storageHash (L.keccak256 (L.hexToHash (replace0x sp.key)).val) (nodes L sp.proof)))
  | _ => throw (.error "verifyMerkleProof, invalid storage proof format")

def checkProofResult (result value : Bytes) : Bool :=
  match L.decodeBytes result with
  | .error _ => false
  | .ok tempBytes =>
    List.replicate (32 - tempBytes.length) 0 ++ tempBytes == L.keccak256 value

variable (h : Handler) {V : Type} (R : Records V)

abbrev nilPointer : Failure := .panic "invalid memory address or nil pointer dereference"

/-- `verifyFromTx`. A chain that is not registered and a header that is not stored are nil. -/
def verifyFromTx (params : EntranceParam) (sideChain : Option SideChain) : NativeM MakeTxParam := do
  let cheight ← R.getCanonicalHeight params.sourceChainID
  let cheight32 := cheight.toUInt32
  let unconfirmed : Failure := .error (h.verifier ++ ", transaction is not confirmed, " ++
    s!"current height: {cheight}, input height: {params.height}")
  failIf (cheight32 < params.height) unconfirmed
  let sideChain ← orFail sideChain nilPointer
  failIf (cheight32 - params.height < (sideChain.blocksToWait - 1).toUInt32) unconfirmed
  let headerWithSum ← wrapM (h.verifier ++ s!", GetCanonicalHeader height:{params.height}, error:")
    (R.getCanonicalHeader params.sourceChainID params.height.toUInt64)
  let proof ← wrapM (h.verifier ++ ", unmarshal proof error:")
    (lift (returned (L.unmarshalProof params.proof)))
  failIf (proof.storageProofs.length ≠ 1) (.error (h.verifier ++ ", incorrect proof format"))
  let headerWithSum ← orFail headerWithSum nilPointer
  let proofResult ← wrapM (h.verifier ++ ", verifyMerkleProof error:")
    (lift (verifyMerkleProof L proof (R.header headerWithSum) sideChain.ccmcAddress))
  let proofResult ← orFail proofResult (.error (h.verifier ++ ", verifyMerkleProof failed"))
  failIf (checkProofResult L proofResult params.extra = false) (.error (h.verifier ++
    ", verify proof value hash failed, proof result:" ++ toHex proofResult ++ ", extra:" ++
    toHex params.extra))
  wrapM (h.verifier ++ ", deserialize merkleValue error:")
    (lift (decode MakeTxParam.deserialization params.extra))

def makeDepositProposal : NativeM MakeTxParam := do
  let params ← wrapM (h.name ++ " MakeDepositProposal, contract params deserialize error: ")
    (lift (decode EntranceParam.deserialization (← getInput)))
  let sideChain ← wrapM (h.name ++ " MakeDepositProposal, side_chain_manager.GetSideChain error: ")
    (getSideChain params.sourceChainID)
  let value ← wrapM (h.name ++ " MakeDepositProposal, verifyFromEthTx error: ")
    (verifyFromTx L h R params sideChain)
  wrapM (h.name ++ " MakeDepositProposal, check done transaction error:")
    (checkDoneTx value.crossChainID params.sourceChainID)
  putDoneTx value.crossChainID params.sourceChainID
  return value

section Crashes

/-- The chain is not registered; or no canonical header is stored at the height, though it is deep
enough below the head and the proof can be read. -/
def Exposed (params : EntranceParam) (sideChain : Option SideChain) (s : NativeService) : Prop :=
  ∃ cheight, (R.getCanonicalHeight params.sourceChainID).run s = .ok (cheight, s) ∧
    params.height ≤ cheight.toUInt32 ∧ ∀ c, sideChain = some c →
      (c.blocksToWait - 1).toUInt32 ≤ cheight.toUInt32 - params.height ∧
      (R.getCanonicalHeader params.sourceChainID params.height.toUInt64).run s = .ok (none, s) ∧
      ∃ proof, L.unmarshalProof params.proof = .ok proof ∧ proof.storageProofs.length = 1

/-- The input is a deposit that a node cannot take. -/
def Fatal (s : NativeService) : Prop :=
  ∃ params, decode EntranceParam.deserialization s.input = .ok params ∧
    ∃ sideChain, (getSideChain params.sourceChainID).run s = .ok (sideChain, s) ∧
      Exposed L R params sideChain s

@[simp] theorem not_crashed_returned {α : Type} (r : Except String α) : ¬ Crashed (returned r) := by
  cases r
  · exact not_crashed_error _
  · exact not_crashed_ok _

theorem returned_ok {α : Type} {r : Except String α} {a : α} :
    returned r = .ok a ↔ r = .ok a := by
  cases r <;> simp [returned]

theorem not_crashed_verifyMerkleProof (proof : Proof) (blockData : EthHeader)
    (contractAddr : Bytes) : ¬ Crashed (verifyMerkleProof L proof blockData contractAddr) := by
  dsimp only [verifyMerkleProof]
  split
  · simp
  · simp [throw, throwThe, MonadExceptOf.throw]

instance : PanicFree EntranceParam.deserialization := .bind

instance : PanicFree MakeTxParam.deserialization := .bind

instance : PanicFree SideChain.deserialization := .bind

theorem not_crashed_getSideChain {chainID s} : ¬ Crashed ((getSideChain chainID).run s) := by
  rw [getSideChain, crashed_read_bind not_crashed_getCache]
  rintro ⟨found, -, hcrash⟩
  cases found <;> simp at hcrash

variable {R} (hR : ∀ raw, ¬ Crashed (R.unmarshal raw))
include hR

theorem not_crashed_getCanonicalHeader {chainID height s} :
    ¬ Crashed ((R.getCanonicalHeader chainID height).run s) := by
  have hhash : ¬ Crashed ((R.getCanonicalHash chainID height).run s) := by
    rw [Records.getCanonicalHash, crashed_read_bind not_crashed_getCache]
    rintro ⟨found, -, hcrash⟩
    cases found <;> simp at hcrash
  rw [Records.getCanonicalHeader, crashed_read_bind hhash]
  rintro ⟨hash, -, hcrash⟩
  split at hcrash <;> simp [Records.getHeader, hR] at hcrash

theorem crashed_verifyFromTx {params sideChain s} :
    Crashed ((verifyFromTx L h R params sideChain).run s) ↔ Exposed L R params sideChain s := by
  rw [verifyFromTx, crashed_read_bind (by simp [Records.getCanonicalHeight])]
  refine exists_congr fun cheight => and_congr_right fun _ => ?_
  rw [crashed_failIf_bind, UInt32.not_lt, crashed_deref_bind]
  refine and_congr_right fun _ => forall_congr' fun c => imp_congr_right fun _ => ?_
  rw [crashed_failIf_bind, UInt32.not_lt,
    crashed_read_bind (by simpa using not_crashed_getCanonicalHeader hR)]
  refine and_congr_right fun _ => ?_
  constructor
  · rintro ⟨headerWithSum, hfound, hcrash⟩
    rw [crashed_read_bind (by simp)] at hcrash
    obtain ⟨proof, hproof, hcrash⟩ := hcrash
    rw [crashed_failIf_bind, crashed_deref_bind] at hcrash
    cases headerWithSum with
    | none =>
      have hproof := returned_ok.mp (run_lift_ok.mp (run_wrapM_ok.mp hproof)).1
      exact ⟨run_wrapM_ok.mp hfound, proof, hproof, not_not.mp hcrash.1⟩
    | some w => simp [not_crashed_verifyMerkleProof] at hcrash
  · rintro ⟨hnone, proof, hproof, hone⟩
    refine ⟨none, run_wrapM_ok.mpr hnone, ?_⟩
    rw [crashed_read_bind (by simp)]
    refine ⟨proof, run_wrapM_ok.mpr (run_lift_ok.mpr ⟨returned_ok.mpr hproof, rfl⟩), ?_⟩
    rw [crashed_failIf_bind, crashed_deref_bind]
    exact ⟨not_not.mpr hone, nofun⟩

end Crashes

/-- `MakeDepositProposal` returns on all other inputs. -/
theorem makeDepositProposal_crashed_iff (L : EvmLib) (h : Handler) {V : Type} (R : Records V)
    (hR : ∀ raw, ¬ Crashed (R.unmarshal raw)) (s : NativeService) :
    Crashed ((makeDepositProposal L h R).run s) ↔ Fatal L R s := by
  have hinput : ¬ Crashed (getInput.run s) := not_crashed_ok _
  rw [makeDepositProposal, crashed_read_bind hinput]
  simp only [run_getInput_ok, and_true, exists_eq_left']
  rw [crashed_read_bind (by simp)]
  simp only [run_wrapM_ok, run_lift_ok, and_true]
  refine exists_congr fun params => and_congr_right fun _ => ?_
  rw [crashed_read_bind (by simpa using not_crashed_getSideChain)]
  simp only [run_wrapM_ok]
  refine exists_congr fun sideChain => and_congr_right fun _ => ?_
  rw [StateT.run_bind, crashed_bind, crashed_wrapM, crashed_verifyFromTx L h hR]
  simp [checkDoneTx, putDoneTx]

/-- Libraries that read every proof as one with a single storage proof. -/
def sampleEvm : EvmLib where
  unmarshalProof _ := .ok ⟨"", "", "", "", "", [], [⟨"", []⟩]⟩
  hex2Bytes _ := []
  hexToHash _ := Uint256.empty
  hexNumber _ := none
  keccak256 := id
  stateRoot _ := Uint256.empty
  verifyProof _ _ _ := .ok none
  encodeAccount _ _ _ _ := .ok []
  decodeBytes := .ok

/-- A deposit from the height 5 of a BSC chain with the genesis height 10. -/
abbrev sampleDeposit : NativeService :=
  { sampleService (EntranceParam.serialization ⟨7, 5, [], [], [], []⟩) 2 with
    cacheDB := CacheDB.new Ledger.sampleBscSynced.2 }

theorem makeDepositProposal_below_genesis : Ledger.sampleBscSynced.1 = .ok BYTE_TRUE ∧
    Prod.fst <$> (makeDepositProposal sampleEvm .bsc (Bsc.records Ledger.sampleBsc)).run
      sampleDeposit = .error nilPointer :=
  ⟨by decide +kernel, by decide +kernel⟩

theorem makeDepositProposal_crashed_iff_sample :
    Fatal sampleEvm (Bsc.records Ledger.sampleBsc) sampleDeposit := by
  have hR (raw : Bytes) : ¬ Crashed ((Bsc.records Ledger.sampleBsc).unmarshal raw) := by
    change ¬ Crashed (Ledger.sampleBscHeader raw.tail >>= _)
    unfold Ledger.sampleBscHeader
    split <;> simp
  have hcrash : Prod.fst <$> (makeDepositProposal sampleEvm .bsc
      (Bsc.records Ledger.sampleBsc)).run sampleDeposit = .error nilPointer := by
    decide +kernel
  exact (makeDepositProposal_crashed_iff _ .bsc _ hR _).mp (crashed_map.mp ⟨_, hcrash⟩)

end Poly.CrossChain.Evm
