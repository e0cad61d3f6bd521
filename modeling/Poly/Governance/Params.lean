import Poly.Core.Totality
import Poly.Lib.OrderedMap

/-! Contract parameters with a container sized by a number of the input, and which inputs their
decoders survive. -/
namespace Poly.Governance

open Lib Source Metered

structure BtcTxParamDetial where
  pVersion : UInt64
  feeRate : UInt64
  minChange : UInt64
  deriving DecidableEq

structure BtcTxParam where
  redeem : Bytes
  redeemChainId : UInt64
  sigs : List Bytes
  detial : BtcTxParamDetial
  deriving DecidableEq

structure RegisterAssetParam where
  operatorAddress : Address
  chainId : UInt64
  assetMap : OrderedMap ℕ Bytes
  lockProxyMap : OrderedMap ℕ Bytes

structure StateValidatorListParam where
  stateValidators : List Bytes
  address : Address

structure RippleExtraInfo where
  operator : Address
  sequence : UInt64
  quorum : UInt64
  signerNum : UInt64
  pks : List Bytes
  reserveAmount : ℕ

/-- The most elements of a size that the runtime puts in one slice. -/
def maxSlice (size : ℕ) : Option ℕ := some (2 ^ 48 / size)

/-- The size of a slice header and of a string header. -/
def SLICE_SIZE : ℕ := 24

def STRING_SIZE : ℕ := 16

def BtcTxParamDetial.deserialization : Reader Failure BtcTxParamDetial := do
  let pVersion ← nextVarUint (.error "BtcTxParamDetial deserialize version error")
  let feeRate ← nextVarUint (.error "BtcTxParamDetial deserialize fee rate error")
  let minChange ← nextVarUint (.error "BtcTxParamDetial deserialize min-change error")
  return ⟨pVersion, feeRate, minChange⟩

def BtcTxParam.metered : Metered Failure BtcTxParam := do
  let redeem ← lift (nextVarBytes (.error "BtcFeeRateParam deserialize redeem error"))
  let redeemChainId ← lift
    (nextVarUint (.error "BtcFeeRateParam deserialize redeem chain-id error"))
  let l ← lift
    (nextVarUint (.error "BtcFeeRateParam deserialize length of signature array error"))
  request l.toNat (maxSlice SLICE_SIZE) (.panic "makeslice: len out of range")
  let sigs ← lift (Reader.numbered (fun i =>
    nextVarBytes (.error s!"BtcFeeRateParam deserialize no.{i} signature error")) 1 l.toNat)
  let detial ← lift (fun bs =>
    wrapError "BtcFeeRateParam deserialize detail error: "
      (BtcTxParamDetial.deserialization.run bs))
  return ⟨redeem, redeemChainId, sigs, detial⟩

/-- One entry of a map from chain id to address. -/
def nextBinding (what : String) (i : ℕ) : Reader Failure (ℕ × Bytes) := do
  let k ← nextVarUint (.error s!"RegisterAssetParam deserialize no.{i} chainId error")
  let v ← nextVarBytes (.error
    s!"RegisterAssetParam deserialize no.{i} {what} address error")
  return (k.toNat, v)

def bindings (entries : List (ℕ × Bytes)) : OrderedMap ℕ Bytes :=
  entries.foldl (fun m x => m.insert x.1 x.2) OrderedMap.empty

/-- Both maps are made with the size of the first, and a map of any size can be asked for. -/
def RegisterAssetParam.metered : Metered Failure RegisterAssetParam := do
  let operatorAddress ← lift
    (nextAddress (.error "RegisterAssetParam deserialize operatorAddress error"))
  let chainId ← lift (nextVarUint (.error "RegisterAssetParam deserialize chainId error"))
  let l ← lift
    (nextVarUint (.error "RegisterAssetParam deserialize length of asset map array error"))
  request l.toNat none (.panic "")
  let assets ← lift (Reader.numbered (nextBinding "asset") 1 l.toNat)
  let m ← lift
    (nextVarUint (.error "RegisterAssetParam deserialize length of lock proxy map array error"))
  request l.toNat none (.panic "")
  let lockProxies ← lift (Reader.numbered (nextBinding "lock proxy") 1 m.toNat)
  return ⟨operatorAddress, chainId, bindings assets, bindings lockProxies⟩

def StateValidatorListParam.metered : Metered Failure StateValidatorListParam := do
  let n ← lift
    (nextVarUint (.error "source.NextVarUint, deserialize StateValidators length error"))
  request n.toNat (maxSlice STRING_SIZE) (.panic "makeslice: cap out of range")
  let stateValidators ← lift (Reader.replicate
    (nextVarBytes (.error "source.NextString, deserialize stateValidator error")) n.toNat)
  let address ← lift (nextVarBytes (.error "source.NextVarBytes, deserialize address error"))
  let addr ← lift (StateT.lift (wrapError
    "common.AddressParseFromBytes, deserialize address error: " (addressParseFromBytes address)))
  return ⟨stateValidators, addr⟩

def RippleExtraInfo.metered : Metered Failure RippleExtraInfo := do
  let operator ← lift
    (nextAddress (.error "RippleExtraInfoParam deserialize operator error"))
  let sequence ← lift
    (nextUint64 (.error "RippleExtraInfoParam deserialize sequence error"))
  let quorum ← lift (nextUint64 (.error "RippleExtraInfoParam deserialize quorum error"))
  let signerNum ← lift
    (nextUint64 (.error "RippleExtraInfoParam deserialize signerNum error"))
  let l ← lift
    (nextVarUint (.error "RippleExtraInfoParam deserialize length of pk array error"))
  request l.toNat (maxSlice SLICE_SIZE) (.panic "makeslice: len out of range")
  let pks ← lift (Reader.numbered (fun i =>
    nextVarBytes (.error s!"RippleExtraInfoParam deserialize no.{i} pk error")) 1 l.toNat)
  let reserveAmount ← lift
    (nextVarBytes (.error "RippleExtraInfoParam deserialize reserveAmount error"))
  return ⟨operator, sequence, quorum, signerNum, pks, leNat reserveAmount.reverse⟩

def BtcTxParam.deserialization : Reader Failure BtcTxParam := BtcTxParam.metered.reader

def RegisterAssetParam.deserialization : Reader Failure RegisterAssetParam :=
  RegisterAssetParam.metered.reader

def StateValidatorListParam.deserialization : Reader Failure StateValidatorListParam :=
  StateValidatorListParam.metered.reader

def RippleExtraInfo.deserialization : Reader Failure RippleExtraInfo :=
  RippleExtraInfo.metered.reader

section Accounted

open Reader

instance {α : Type} {r : Reader Failure α} [h : PanicFree r] (context : String) :
    PanicFree (fun bs => wrapError context (r.run bs) : Reader Failure α) := by
  constructor
  intro bs e hrun
  change wrapError context (r.run bs) = .error e at hrun
  cases hr : r.run bs with
  | ok p =>
    rw [hr] at hrun
    cases hrun
  | error f =>
    rw [hr] at hrun
    cases f with
    | error msg =>
      cases hrun
      exact not_isPanic_error _
    | panic msg => exact absurd (isPanic_panic msg) (h.not_crash bs _ hr)

instance (context : String) (f : Bytes) :
    PanicFree (StateT.lift (wrapError context (addressParseFromBytes f))) := by
  apply CrashFree.lift
  intro e h
  unfold addressParseFromBytes at h
  split at h
  · cases h
  · cases h
    exact not_isPanic_error _

instance : PanicFree BtcTxParamDetial.deserialization := .bind

instance (what : String) (i : ℕ) : PanicFree (nextBinding what i) := .bind

instance : Accounted Failure.IsPanic BtcTxParam.metered := .bind

set_option synthInstance.maxSize 1000 in
instance : Accounted Failure.IsPanic RegisterAssetParam.metered := .bind

instance : Accounted Failure.IsPanic StateValidatorListParam.metered := .bind

set_option synthInstance.maxSize 1000 in
instance : Accounted Failure.IsPanic RippleExtraInfo.metered := .bind

end Accounted

/-- The number of signatures that the input announces, and so on for the other containers. -/
def BtcTxParam.sigCount : Reader Failure UInt64 := do
  let _ ← nextVarBytes (.error "BtcFeeRateParam deserialize redeem error")
  let _ ← nextVarUint (.error "BtcFeeRateParam deserialize redeem chain-id error")
  nextVarUint (.error "BtcFeeRateParam deserialize length of signature array error")

def RegisterAssetParam.assetCount : Reader Failure UInt64 := do
  let _ ← nextAddress (.error "RegisterAssetParam deserialize operatorAddress error")
  let _ ← nextVarUint (.error "RegisterAssetParam deserialize chainId error")
  nextVarUint (.error "RegisterAssetParam deserialize length of asset map array error")

def StateValidatorListParam.validatorCount : Reader Failure UInt64 :=
  nextVarUint (.error "source.NextVarUint, deserialize StateValidators length error")

def RippleExtraInfo.pkCount : Reader Failure UInt64 := do
  let _ ← nextAddress (.error "RippleExtraInfoParam deserialize operator error")
  let _ ← nextUint64 (.error "RippleExtraInfoParam deserialize sequence error")
  let _ ← nextUint64 (.error "RippleExtraInfoParam deserialize quorum error")
  let _ ← nextUint64 (.error "RippleExtraInfoParam deserialize signerNum error")
  nextVarUint (.error "RippleExtraInfoParam deserialize length of pk array error")

theorem BtcTxParam.sizedBy :
    SizedBy BtcTxParam.metered BtcTxParam.sigCount (maxSlice SLICE_SIZE) := by
  refine sizedBy_bind fun redeem => sizedBy_bind fun redeemChainId => sizedBy_request ?_
  intro l bs q hq
  simp [mem_requests_bind] at hq

theorem RegisterAssetParam.sizedBy :
    SizedBy RegisterAssetParam.metered RegisterAssetParam.assetCount none := by
  refine sizedBy_bind fun operatorAddress => sizedBy_bind fun chainId => sizedBy_request ?_
  intro l bs q hq
  -- the second map is sized with the number of the first
  simp only [mem_requests_bind, requests_lift, requests_request, requests_pure, reader_lift,
    List.not_mem_nil, List.mem_singleton, and_false, exists_false, false_or, or_false] at hq
  obtain ⟨assets, bs₁, -, m, rest, -, rfl⟩ := hq
  exact ⟨rfl, rfl⟩

theorem StateValidatorListParam.sizedBy : SizedBy StateValidatorListParam.metered
    StateValidatorListParam.validatorCount (maxSlice STRING_SIZE) := by
  refine sizedBy_request ?_
  intro n bs q hq
  simp [mem_requests_bind] at hq

theorem RippleExtraInfo.sizedBy :
    SizedBy RippleExtraInfo.metered RippleExtraInfo.pkCount (maxSlice SLICE_SIZE) := by
  refine sizedBy_bind fun operator => sizedBy_bind fun sequence => sizedBy_bind fun quorum =>
    sizedBy_bind fun signerNum => sizedBy_request ?_
  intro l bs q hq
  simp [mem_requests_bind] at hq

/-- The decoder returns a value or an error, and none of its containers is made with more than
`perByte` slots for each byte of the input. -/
def Survives {α : Type} (m : Metered Failure α) (perByte : ℕ) (bs : Bytes) : Prop :=
  (∀ msg, m.reader.run bs ≠ .error (.panic msg)) ∧
    ∀ q ∈ m.requests bs, q.slots ≤ perByte * bs.length

theorem survives_iff {α : Type} {m : Metered Failure α} {count : Reader Failure UInt64}
    {limit : Option ℕ} (hs : SizedBy m count limit) [h : Accounted Failure.IsPanic m]
    (perByte : ℕ) (bs : Bytes) :
    Survives m perByte bs ↔ CountFits count limit (perByte * bs.length) bs := by
  rw [← hs.survives_iff h]
  apply and_congr_left'
  constructor
  · rintro hne e he ⟨msg, rfl⟩
    exact hne msg he
  · intro hne msg he
    exact hne _ he (isPanic_panic msg)

/-- The four decoders survive an input exactly when the numbers that it announces are at most
`perByte` for each of its bytes, and those that size a slice are within the runtime's bound. -/
theorem params_survive_iff (perByte : ℕ) (bs : Bytes) :
    (Survives BtcTxParam.metered perByte bs ∧ Survives RegisterAssetParam.metered perByte bs ∧
      Survives StateValidatorListParam.metered perByte bs ∧
      Survives RippleExtraInfo.metered perByte bs) ↔
    (CountFits BtcTxParam.sigCount (maxSlice SLICE_SIZE) (perByte * bs.length) bs ∧
      CountFits RegisterAssetParam.assetCount none (perByte * bs.length) bs ∧
      CountFits StateValidatorListParam.validatorCount (maxSlice STRING_SIZE)
        (perByte * bs.length) bs ∧
      CountFits RippleExtraInfo.pkCount (maxSlice SLICE_SIZE) (perByte * bs.length) bs) := by
  rw [survives_iff BtcTxParam.sizedBy, survives_iff RegisterAssetParam.sizedBy,
    survives_iff StateValidatorListParam.sizedBy, survives_iff RippleExtraInfo.sizedBy]

/-- Eleven, nine and fifty-three bytes make three of the decoders panic; thirty bytes make the
fourth ask for a map of 2^64 - 1 entries. -/
theorem params_crash :
    BtcTxParam.deserialization.run ([0, 0] ++ List.replicate 9 0xFF) =
        .error (.panic "makeslice: len out of range") ∧
      StateValidatorListParam.deserialization.run (List.replicate 9 0xFF) =
        .error (.panic "makeslice: cap out of range") ∧
      RippleExtraInfo.deserialization.run (List.replicate 44 0 ++ List.replicate 9 0xFF) =
        .error (.panic "makeslice: len out of range") ∧
      ⟨2 ^ 64 - 1, none, 0⟩ ∈
        RegisterAssetParam.metered.requests (List.replicate 21 0 ++ List.replicate 9 0xFF) := by
  refine ⟨rfl, rfl, rfl, ?_⟩
  have hcount : RegisterAssetParam.assetCount.run
      (List.replicate 21 0 ++ List.replicate 9 0xFF) = .ok (0xFFFFFFFFFFFFFFFF, []) := by
    decide +kernel
  obtain ⟨address, bs₁, haddress, hcount⟩ := run_bind_ok.mp hcount
  obtain ⟨chain, bs₂, hchain, hl⟩ := run_bind_ok.mp hcount
  refine mem_requests_bind.mpr (Or.inr ⟨address, bs₁, haddress, ?_⟩)
  refine mem_requests_bind.mpr (Or.inr ⟨chain, bs₂, hchain, ?_⟩)
  refine mem_requests_bind.mpr (Or.inr ⟨_, [], hl, ?_⟩)
  exact mem_requests_bind.mpr (Or.inl (List.mem_singleton_self _))

end Poly.Governance
