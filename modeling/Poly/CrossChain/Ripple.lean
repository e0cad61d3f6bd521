import Poly.Governance.Operator
import Poly.Governance.Params
import Poly.Governance.Records
import Poly.HeaderSync.Canonical

/-! Payments to Ripple, built from transfers of other chains. -/
namespace Poly.CrossChain

open Lib Native Source Sink Governance HeaderSync

structure AssetBind where
  assetMap : OrderedMap ℕ Bytes
  lockProxyMap : OrderedMap ℕ Bytes

structure Fee where
  view : UInt64
  fee : ℕ

/-- A payment that `GeneratePayment` makes; amounts are numbers of drops. -/
structure Payment where
  account : Address
  destination : Address
  amount : ℤ
  fee : ℤ
  sequence : UInt32
  deriving DecidableEq

/-- What is used of the Ripple library; values and amounts are numbers of drops. -/
structure RippleLib where
  newAmount : ℕ → Result ℤ
  newAmount_eq : ∀ {n a}, newAmount n = .ok a → a = n
  /-- `NewValue` of a text with a point. -/
  newValue : List Char → Result ℤ
  /-- `NewValue` of a whole number. -/
  newReserve : ℕ → Result ℤ
  newReserve_eq : ∀ {n a}, newReserve n = .ok a → a = n
  subtract : ℤ → ℤ → Result ℤ
  subtract_eq : ∀ {a b c}, subtract a b = .ok c → c = a - b
  raw : Payment → Result Bytes

def removeZeroAtTail (str : List Char) : List Char :=
  let str := (str.reverse.dropWhile (· = '0')).reverse
  if str.getLast? = some '.' then str.dropLast else str

def toStringByPrecise (bigNum precise : ℕ) : List Char :=
  let destStr := Nat.toDigits 10 bigNum
  let pointIndex := destStr.length - precise
  removeZeroAtTail (if precise ≥ destStr.length then
      ['0', '.'] ++ List.replicate (precise - destStr.length) '0' ++ destStr
    else destStr.take pointIndex ++ '.' :: destStr.drop pointIndex)

section Decimals

open List

/-- The exported function, for numbers of either sign. -/
def ToStringByPrecise (bigNum : ℤ) (precise : ℕ) : List Char :=
  if bigNum.sign ≠ -1 then toStringByPrecise bigNum.natAbs precise
  else '-' :: toStringByPrecise bigNum.natAbs precise

/-- A nonempty text of decimal digits. -/
def setNat (digits : List Char) : Option ℕ :=
  if digits ≠ [] ∧ digits.all Char.isDigit then some (Nat.ofDigitChars 10 digits 0) else none

/-- `SetString` of a big integer in base 10. -/
def setString : List Char → Option ℤ
  | '-' :: digits => (setNat digits).map fun n => -(n : ℤ)
  | '+' :: digits => (setNat digits).map (↑)
  | digits => (setNat digits).map (↑)

/-- A text that does not parse counts as 0. -/
def toIntByPrecise (str : List Char) (precise : ℕ) : ℤ :=
  match str.splitOn '.' with
  | [_] => (setString (str ++ replicate precise '0')).getD 0
  | [whole, fraction] =>
    (setString (if fraction.length ≤ precise then
        str.erase '.' ++ replicate (precise - fraction.length) '0'
      else whole ++ fraction.take precise)).getD 0
  | _ => 0

/-- What is left of the digits behind the point: where there are none, the point goes too. -/
def pointed (digits : List Char) : List Char := if digits = [] then [] else '.' :: digits

theorem exists_zeros (str : List Char) : ∃ (front : List Char) (k : ℕ),
    str = front ++ replicate k '0' ∧ front.getLast? ≠ some '0' := by
  induction str using reverseRecOn with
  | nil => exact ⟨[], 0, rfl, nofun⟩
  | append_singleton str c ih =>
    by_cases hc : c = '0'
    · obtain ⟨front, k, rfl, hlast⟩ := ih
      exact ⟨front, k + 1, by rw [hc, replicate_succ', append_assoc], hlast⟩
    · exact ⟨str ++ [c], 0, by simp, by simpa using hc⟩

theorem removeZeroAtTail_append {front : List Char} (str : List Char) (k : ℕ) (hdot : '.' ∉ front)
    (hlast : front.getLast? ≠ some '0') :
    removeZeroAtTail (str ++ '.' :: (front ++ replicate k '0')) = str ++ pointed front := by
  have hzeros : ∀ c ∈ replicate k '0', decide (c = '0') = true := by simp
  unfold removeZeroAtTail pointed
  rcases eq_nil_or_concat' front with rfl | ⟨front, c, rfl⟩
  · simp [dropWhile_append_of_pos hzeros]
  · have hc : c ≠ '0' ∧ c ≠ '.' := by
      constructor <;> rintro rfl <;> simp at hlast hdot
    simp [dropWhile_append_of_pos hzeros, hc, getLast?_cons]

/-- The zeros that were cut off are put back. -/
theorem toIntByPrecise_append {text front : List Char} (k : ℕ) (htext : '.' ∉ text)
    (hdot : '.' ∉ front) :
    toIntByPrecise (text ++ pointed front) (front.length + k) =
      (setString (text ++ (front ++ replicate k '0'))).getD 0 := by
  have hbefore : ∀ c ∈ text, (c == '.') = false := by grind
  have hafter : ∀ c ∈ front, (c == '.') = false := by grind
  unfold toIntByPrecise splitOn pointed
  split_ifs with hnil
  · rw [append_nil, splitOnP_eq_singleton hbefore]
    simp [hnil]
  · rw [splitOnP_append_cons_of_forall_mem hbefore _ rfl, splitOnP_eq_singleton hafter,
      erase_append_right _ htext]
    simp

/-- Before its last zeros are cut off, the text has the digits of the number around the point. -/
theorem toStringByPrecise_eq (bigNum precise : ℕ) : ∃ whole fraction : List Char,
    toStringByPrecise bigNum precise = removeZeroAtTail (whole ++ '.' :: fraction) ∧
    fraction.length = precise ∧ whole ++ fraction ≠ [] ∧
    (∀ c ∈ whole ++ fraction, c.isDigit) ∧
    Nat.ofDigitChars 10 (whole ++ fraction) 0 = bigNum := by
  have hdigits : ∀ c ∈ Nat.toDigits 10 bigNum, c.isDigit := fun _ =>
    Nat.isDigit_of_mem_toDigits (by decide) le_rfl
  unfold toStringByPrecise
  simp only
  split_ifs with hle
  · refine ⟨['0'], replicate (precise - (Nat.toDigits 10 bigNum).length) '0' ++
      Nat.toDigits 10 bigNum, by simp, by simpa using Nat.sub_add_cancel hle, nofun, ?_, ?_⟩
    · intro c hc
      simp only [mem_append, mem_singleton, mem_replicate] at hc
      obtain rfl | ⟨-, rfl⟩ | hc := hc
      · rfl
      · rfl
      · exact hdigits c hc
    · simp [Nat.ofDigitChars_cons, Nat.ofDigitChars_append, Nat.ofDigitChars_replicate_zero]
  · refine ⟨_, _, rfl, by simp; omega, ?_⟩
    rw [take_append_drop]
    exact ⟨Nat.toDigits_ne_nil, hdigits, Nat.ofDigitChars_ten_toDigits⟩

theorem setNat_eq {digits : List Char} (hne : digits ≠ []) (h : ∀ c ∈ digits, c.isDigit) :
    setNat digits = some (Nat.ofDigitChars 10 digits 0) :=
  if_pos ⟨hne, all_eq_true.mpr h⟩

theorem setString_eq {digits : List Char} (hne : digits ≠ []) (h : ∀ c ∈ digits, c.isDigit) :
    setString digits = some (Nat.ofDigitChars 10 digits 0 : ℤ) := by
  unfold setString
  split
  · exact absurd (h _ mem_cons_self) (by decide)
  · exact absurd (h _ mem_cons_self) (by decide)
  · rw [setNat_eq hne h]
    rfl

/-- Scaling a number to a text and back gives the number, so that two numbers have two texts. -/
theorem toIntByPrecise_toStringByPrecise (precise : ℕ) :
    (∀ n, toIntByPrecise (ToStringByPrecise n precise) precise = n) ∧
      Function.Injective fun n => ToStringByPrecise n precise := by
  have hleft : ∀ n, toIntByPrecise (ToStringByPrecise n precise) precise = n := by
    intro n
    obtain ⟨whole, fraction, heq, rfl, hne, hall, hval⟩ := toStringByPrecise_eq n.natAbs precise
    have hdot : '.' ∉ whole ++ fraction := fun h => absurd (hall _ h) (by decide)
    obtain ⟨front, k, rfl, hlast⟩ := exists_zeros fraction
    obtain ⟨hwhole, hfront⟩ : '.' ∉ whole ∧ '.' ∉ front := by simp_all
    unfold ToStringByPrecise
    rw [heq, removeZeroAtTail_append whole k hfront hlast, length_append,
      length_replicate]
    split_ifs with hsign
    · rw [toIntByPrecise_append k hwhole hfront, setString_eq hne hall, hval]
      exact Int.natAbs_of_nonneg (not_lt.mp (mt Int.sign_eq_neg_one_of_neg hsign))
    · rw [← cons_append, toIntByPrecise_append k (by simpa using hwhole) hfront,
        cons_append, setString, setNat_eq hne hall, hval]
      have hneg := Int.sign_eq_neg_one_iff_neg.mp (not_not.mp hsign)
      exact (Int.eq_neg_natAbs_of_nonpos hneg.le).symm
  exact ⟨hleft, Function.LeftInverse.injective (g := fun s => toIntByPrecise s precise) hleft⟩

end Decimals

def AssetBind.deserialization : Reader Failure AssetBind := do
  let l ← nextVarUint (.error "RegisterAssetParam deserialize length of asset map array error")
  let assets ← Reader.numbered (nextBinding "asset") 1 l.toNat
  let m ← nextVarUint
    (.error "RegisterAssetParam deserialize length of lock proxy map array error")
  let lockProxies ← Reader.numbered (nextBinding "lock proxy") 1 m.toNat
  return ⟨bindings assets, bindings lockProxies⟩

def Fee.deserialization : Reader Failure Fee := do
  let view ← nextUint64 (.error "Fee deserialize view error")
  let fee ← nextVarBytes (.error "Fee deserialize fee error")
  return ⟨view, setBytes fee⟩

/-- A record; `absent` is what is read where none is stored. -/
def getRecord {α : Type} (key : Bytes) (absent : α) (method what : String)
    (reader : Reader Failure α) : NativeM α := do
  match ← getCache key with
  | none => return absent
  | some store =>
    let bytes ← wrapM (method ++ ", deserialize from raw storage item err:")
      (lift (getValueFromRawStorageItem store))
    wrapM (method ++ ", deserialize " ++ what) (lift (decode reader bytes))

/-- A record of the side chain manager for a chain. -/
abbrev getSideRecord {α : Type} (name : Bytes) (chainID : UInt64) :
    α → String → String → Reader Failure α → NativeM α :=
  getRecord (concatKey SideChainManagerContractAddress [name, getUint64Bytes chainID])

abbrev getAssetBind (chainID : UInt64) : NativeM AssetBind :=
  getSideRecord (ascii "assetBind") chainID ⟨.empty, .empty⟩ "GetAssetMap" "asset map err:"
    AssetBind.deserialization

abbrev getFee (chainID : UInt64) : NativeM Fee :=
  getSideRecord (ascii "fee") chainID ⟨0, 0⟩ "GetFee" "fee info err:" Fee.deserialization

/-- `GetSideChain` with the extra info. -/
abbrev getSideChainInfo (chainID : UInt64) : NativeM (Option (SideChain × Bytes)) :=
  getSideRecord SIDE_CHAIN chainID none "getSideChain" "sideChain error: " do
    let sideChain ← SideChain.deserialization
    let extraInfo ← nextVarBytesOrRest
    return some (sideChain, extraInfo)

/-- An error with a text of its own. -/
def withoutCause {α : Type} (msg : String) (x : NativeM α) : NativeM α := fun s =>
  match x.run s with
  | .error (.error _) => .error (.error msg)
  | r => r

theorem run_withoutCause_ok {α : Type} {msg} {x : NativeM α} {s r} :
    (withoutCause msg x).run s = .ok r ↔ x.run s = .ok r := by
  change (match x.run s with | .error (.error _) => _ | r => r) = _ ↔ _
  split <;> simp_all

def getRippleExtraInfo (chainID : UInt64) : NativeM RippleExtraInfo := do
  let found ← wrapM "GetRippleExtraInfo, GetSideChain error: " (getSideChainInfo chainID)
  let info ← orFail found (.error "GetRippleExtraInfo, side chain info is nil")
  wrapM "GetRippleExtraInfo, rippleExtraInfo.Deserialization error: "
    (lift (decode RippleExtraInfo.deserialization info.2))

def RippleExtraInfo.serialization (info : RippleExtraInfo) : Bytes :=
  info.operator.val ++ writeUint64 info.sequence ++ writeUint64 info.quorum ++
    writeUint64 info.signerNum ++ writeVarUint (UInt64.ofNat info.pks.length) ++
    info.pks.flatMap writeVarBytes ++ writeVarBytes (bigBytes info.reserveAmount)

/-- Whether the extra info is written is a matter of the network and the height of the ledger. -/
def SideChain.serialization (sideChain : SideChain) (extraInfo : Option Bytes) : Bytes :=
  writeVarBytes sideChain.address.val ++ writeVarUint sideChain.chainId ++
    writeVarUint sideChain.router ++ writeVarBytes sideChain.name ++
    writeVarUint sideChain.blocksToWait ++ writeVarBytes sideChain.ccmcAddress ++
    (extraInfo.map writeVarBytes).getD []

variable (writesExtraInfo : Bool)

def putRippleExtraInfo (chainID : UInt64) (info : RippleExtraInfo) : NativeM Unit := do
  let found ← wrapM "PutRippleExtraInfo, GetSideChain error: " (getSideChainInfo chainID)
  let sideChain ← orFail found (.panic "nil pointer dereference")
  putItem (sideChainKey sideChain.1.chainId) (sideChain.1.serialization
    (if writesExtraInfo then some (RippleExtraInfo.serialization info) else none))

def txJsonKey (fromChainID : UInt64) (txHash : Bytes) : Bytes :=
  chainKey [ascii "rippleTxInfo", getUint64Bytes fromChainID, txHash]

structure RippleArgs where
  assetHash : Bytes
  toAddrBytes : Bytes
  amount : UInt64

def nextRippleArgs : Reader Failure RippleArgs := do
  let assetHash ← nextVarBytes (.error "ripple MakeTransaction, deserialize asset hash error")
  let toAddrBytes ← nextVarBytes (.error "ripple MakeTransaction, deserialize toAddr error")
  let amount ← nextUint64 (.error "ripple MakeTransaction, deserialize amount error")
  return ⟨assetHash, toAddrBytes, amount⟩

variable (L : RippleLib)

/-- The asset that a transfer to the chain names, which stands for the proxies too. -/
def checkAsset (param : MakeTxParam) (assetHash : Bytes) : NativeM Bytes := do
  let chainID := param.toChainID
  let assetBind ← wrapM "ripple MakeTransaction, get asset map error: " (getAssetBind chainID)
  let lockProxyAddress ← orFail (assetBind.lockProxyMap.get chainID.toNat)
    (.error s!"ripple MakeTransaction, lock proxy map of chain {chainID} is not registered")
  let assetAddress ← orFail (assetBind.assetMap.get chainID.toNat)
    (.error s!"ripple MakeTransaction, asset map of chain {chainID} is not registered")
  failIf (assetAddress ≠ assetHash ∨ assetAddress ≠ param.toContractAddress ∨
      assetAddress ≠ lockProxyAddress)
    (.error ("ripple MakeTransaction, asset address is not match, toAssetHash " ++ toHex assetHash ++
      ", assetAddress " ++ toHex assetAddress ++ ", toContractAddress: " ++
      toHex param.toContractAddress ++ ", lockProxyAddress: " ++ toHex lockProxyAddress))
  return assetAddress

/-- The fee for all signers. -/
def feeTemp (baseFee : Fee) (info : RippleExtraInfo) : ℕ := baseFee.fee * info.signerNum.toNat

/-- The payment of an amount less the fee for all signers, on the sequence number of the account. -/
def makePayment (chainID : UInt64) (info : RippleExtraInfo) (amount : ℤ)
    (assetAddress toAddrBytes : Bytes) : NativeM Payment := do
  let baseFee ← wrapM "ripple MakeTransaction, side_chain_manager.GetFee error: " (getFee chainID)
  failIf (baseFee.view = 0) (.error "ripple MakeTransaction, base fee is not initialized")
  let fee ← wrapM "ripple MakeTransaction, data.NewValue fee error: "
    (lift (L.newValue (toStringByPrecise (feeTemp baseFee info) 6)))
  let feeAmount ← wrapM "ripple MakeTransaction, data.NewAmount fee error: "
    (lift (L.newAmount (feeTemp baseFee info)))
  let amountD ← wrapM "ripple MakeTransaction, amount.Subtract fee error: "
    (lift (L.subtract amount feeAmount))
  -- the text names the fee here too
  let reserveAmount ← wrapM "ripple MakeTransaction, side_chain_manager.GetFee error: "
    (lift (L.newReserve info.reserveAmount))
  failIf (amountD < reserveAmount)
    (.error "ripple MakeTransaction, amount is less than reserveAmount")
  return ⟨zeroPad 20 assetAddress, zeroPad 20 toAddrBytes, amountD, fee,
    UInt32.ofNat info.sequence.toNat⟩

def rippleTxJson (param : MakeTxParam) (fromChainID : UInt64) (raw : Bytes) (sequence : UInt32) :
    NotifyEventInfo :=
  ⟨CrossChainManagerContractAddress, [.str (ascii "rippleTxJson"), .num fromChainID.toNat,
    .num param.toChainID.toNat, .str (hexEncode param.txHash), .str (hexEncode raw),
    .num sequence.toNat]⟩

def rippleMakeTransaction (param : MakeTxParam) (fromChainID : UInt64) : NativeM Unit := do
  let args ← lift (decode nextRippleArgs param.args)
  let amount ← wrapM "ripple MakeTransaction, data.NewAmount error: "
    (lift (L.newAmount args.amount.toNat))
  let assetAddress ← checkAsset param args.assetHash
  let info ← withoutCause "ripple MakeTransaction, side_chain_manager.GetRippleExtraInfo error"
    (getRippleExtraInfo param.toChainID)
  let payment ← makePayment L param.toChainID info amount assetAddress args.toAddrBytes
  let raw ← wrapM "ripple MakeTransaction, data.Raw error: " (lift (L.raw payment))
  addNotify (rippleTxJson param fromChainID raw payment.sequence)
  wrapM "ripple MakeTransaction, side_chain_manager.PutRippleExtraInfo error: "
    (putRippleExtraInfo writesExtraInfo param.toChainID
      { info with sequence := info.sequence + 1 })
  putItem (txJsonKey fromChainID param.txHash) (hexEncode raw)

section Frames

variable {R : NativeService → NativeService → Prop} [IsPreorder NativeService R]

instance {α : Type} (msg : String) (x : NativeM α) [h : Within R x] :
    Within R (withoutCause msg x) :=
  ⟨fun _ _ _ hr => h.of_run (run_withoutCause_ok.mp hr)⟩

instance {α : Type} (key : Bytes) (absent : α) (method what : String) (reader : Reader Failure α) :
    Within R (getRecord key absent method what reader) := .bind_option

variable (chainID : UInt64)

instance : Within R (getRippleExtraInfo chainID) := .bind

instance (param : MakeTxParam) (assetHash : Bytes) : Within R (checkAsset param assetHash) := .bind

instance (info : RippleExtraInfo) (amount : ℤ) (assetAddress toAddrBytes : Bytes) :
    Within R (makePayment L chainID info amount assetAddress toAddrBytes) :=
  @Within.bind _ _ _ _ _ _ _ _ _ fun _ => .bind

end Frames

instance (chainID : UInt64) : Owned SideKey (sideChainKey chainID) := ⟨.contract (by decide) _⟩

instance (chainID : UInt64) (txHash : Bytes) : Owned SideKey (txJsonKey chainID txHash) :=
  ⟨.name (by decide) _⟩

section Writes

variable {P : Bytes → Prop} [∀ chainID, Owned P (sideChainKey chainID)]

instance (chainID : UInt64) (info : RippleExtraInfo) :
    Within (OnlyWrites P) (putRippleExtraInfo writesExtraInfo chainID info) := .bind

instance [∀ chainID txHash, Owned P (txJsonKey chainID txHash)] (param : MakeTxParam)
    (fromChainID : UInt64) :
    Within (OnlyWrites P) (rippleMakeTransaction writesExtraInfo L param fromChainID) := .bind

end Writes

theorem leNat_append (bs cs : Bytes) : leNat (bs ++ cs) = leNat bs + 256 ^ bs.length * leNat cs := by
  induction bs with
  | nil => simp [leNat]
  | cons b bs ih =>
    rw [List.cons_append, leNat, leNat, ih, List.length_cons]
    ring

/-- Of a wide amount the lowest eight bytes are read. -/
theorem decode_nextRippleArgs {assetHash toAddr} (hasset : assetHash.length < 2 ^ 64)
    (haddr : toAddr.length < 2 ^ 64) {a} (ha : a < 256 ^ 32) :
    decode nextRippleArgs (writeVarBytes assetHash ++ (writeVarBytes toAddr ++ leBytes 32 a)) =
      .ok ⟨assetHash, toAddr, UInt64.ofNat a⟩ := by
  obtain ⟨low, high, hlow, hsplit⟩ : ∃ low high : Bytes, low.length = 8 ∧ leBytes 32 a = low ++ high :=
    ⟨(leBytes 32 a).take 8, (leBytes 32 a).drop 8, by simp, (List.take_append_drop _ _).symm⟩
  have hword : UInt64.ofNat (leNat low) = UInt64.ofNat a := by
    have hnat := congrArg leNat hsplit
    rw [leNat_leBytes 32 a ha, leNat_append, hlow] at hnat
    rw [hnat, UInt64.ofNat_add]
    simp
  have hamount (eof : Failure) : (nextUint64 eof).run (low ++ high) = .ok (UInt64.ofNat a, high) :=
    run_bind_ok.mpr ⟨low, high, Reader.take_run_ok.mpr ⟨hlow, rfl⟩, hword ▸ rfl⟩
  simp (disch := assumption) [decode, nextRippleArgs, hsplit, hamount]

variable {L} {s t : NativeService}

theorem makePayment_ok {chainID info amount assetAddress toAddrBytes payment}
    (h : (makePayment L chainID info amount assetAddress toAddrBytes).run s = .ok (payment, t)) :
    s = t ∧ ∃ baseFee, (getFee chainID).run s = .ok (baseFee, s) ∧
      payment.amount = amount - feeTemp baseFee info ∧
      (info.reserveAmount : ℤ) ≤ payment.amount := by
  cases Within.of_run (R := Eq) h
  simp only [makePayment, run_bind_ok, run_wrapM_ok, run_failIf_ok, run_lift_ok, run_pure_ok,
    and_assoc, exists_and_left, exists_eq_left', exists_const] at h
  obtain ⟨baseFee, u, hfee, -, fee, -, feeAmount, hfeeAmount, amountD, hsub, reserve, hreserve, hle, rfl, rfl⟩ := h
  cases L.newAmount_eq hfeeAmount
  cases L.newReserve_eq hreserve
  exact ⟨rfl, baseFee, hfee, L.subtract_eq hsub, not_lt.mp hle⟩

/-- Of an amount of 256 bits what is above the lowest 64 is lost. -/
theorem rippleMakeTransaction_exact {param : MakeTxParam} {fromChainID : UInt64}
    {assetHash toAddr : Bytes} {a : ℕ} (hasset : assetHash.length < 2 ^ 64)
    (haddr : toAddr.length < 2 ^ 64) (ha : a < 256 ^ 32)
    (hargs : param.args = writeVarBytes assetHash ++ (writeVarBytes toAddr ++ leBytes 32 a))
    (h : (rippleMakeTransaction writesExtraInfo L param fromChainID).run s = .ok ((), t)) :
    ∃ payment raw baseFee info, L.raw payment = .ok raw ∧
      t.cacheDB.get (txJsonKey fromChainID param.txHash) =
        some (genRawStorageItem (hexEncode raw)) ∧
      (getFee param.toChainID).run s = .ok (baseFee, s) ∧
      (getRippleExtraInfo param.toChainID).run s = .ok (info, s) ∧ 0 ≤ payment.amount ∧
      (payment.amount + feeTemp baseFee info = a ↔ a < 2 ^ 64) := by
  simp only [rippleMakeTransaction, run_bind_ok, run_wrapM_ok, run_withoutCause_ok, run_lift_ok,
    and_assoc, exists_and_left, exists_eq_left', hargs, decode_nextRippleArgs hasset haddr ha,
    Except.ok.injEq] at h
  obtain ⟨amount, hamount, assetAddress, u, hcheck, info, v, hinfo, payment, w, hpay, raw, hraw,
    _, x, -, _, y, -, hput⟩ := h
  cases Within.of_run (R := Eq) hcheck
  cases Within.of_run (R := Eq) hinfo
  obtain ⟨rfl, baseFee, hfee, hpaid, hreserve⟩ := makePayment_ok hpay
  cases L.newAmount_eq hamount
  have hmod : (UInt64.ofNat a).toNat = a % 2 ^ 64 := UInt64.toNat_ofNat'
  refine ⟨payment, raw, baseFee, info, hraw, (get_putItem hput _).trans (if_pos rfl), hfee, hinfo, by omega, ?_⟩
  rw [hpaid]
  omega

/-- A library without limits, whose raw payment is the amount. -/
def openRipple : RippleLib where
  newAmount n := .ok n
  newAmount_eq h := (Except.ok.inj h).symm
  newValue _ := .ok 0
  newReserve n := .ok n
  newReserve_eq h := (Except.ok.inj h).symm
  subtract a b := .ok (a - b)
  subtract_eq h := (Except.ok.inj h).symm
  raw payment := .ok (leBytes 8 payment.amount.toNat)

def sideKey (name : Bytes) : Bytes :=
  concatKey SideChainManagerContractAddress [name, getUint64Bytes 7]

/-- A Ripple chain with one signer and a fee of ten, whose account has the address of no bytes. -/
def rippleState : NativeService :=
  let binding := writeVarUint 1 ++ writeVarUint 7 ++ writeVarBytes []
  { sampleService [] 1 with
    cacheDB := (((sampleService [] 1).cacheDB.put (sideKey (ascii "assetBind"))
      (genRawStorageItem (binding ++ binding))).put (sideKey (ascii "fee"))
        (genRawStorageItem (writeUint64 1 ++ writeVarBytes [10]))).put (sideChainKey 7)
          (genRawStorageItem (SideChain.serialization ⟨Address.empty, 7, RIPPLE_ROUTER, [], 0, []⟩
            (some (RippleExtraInfo.serialization ⟨Address.empty, 1, 1, 1, [], 0⟩)))) }

def rippleParam (a : ℕ) : MakeTxParam :=
  ⟨[], [], [], 7, [], [], writeVarBytes [] ++ (writeVarBytes [] ++ leBytes 32 a)⟩

theorem rippleMakeTransaction_truncated :
    ((rippleMakeTransaction true openRipple (rippleParam (2 ^ 64 + 1000)) 2).run rippleState).map
        (fun r => r.2.cacheDB.get (txJsonKey 2 [])) =
      .ok (some (genRawStorageItem (hexEncode (leBytes 8 990)))) ∧
    ((getFee 7).run rippleState).map (fun r => r.1.fee) = .ok 10 ∧
    ((getRippleExtraInfo 7).run rippleState).map (fun r => r.1.signerNum) = .ok 1 := by
  decide +kernel

theorem rippleMakeTransaction_exact_thousand : ∃ (payment : Payment) (baseFee : Fee)
    (info : RippleExtraInfo), 0 ≤ payment.amount ∧
      (payment.amount + feeTemp baseFee info = (1000 : ℕ) ↔ 1000 < 2 ^ 64) := by
  have hrun : ((rippleMakeTransaction true openRipple (rippleParam 1000) 2).run rippleState).map
      Prod.fst = .ok () := by decide +kernel
  obtain ⟨t, ht⟩ := exists_of_map_fst hrun
  obtain ⟨payment, -, baseFee, info, -, -, -, -, hpos, hiff⟩ :=
    rippleMakeTransaction_exact true (by decide) (by decide) (by decide) rfl ht
  exact ⟨payment, baseFee, info, hpos, hiff⟩

end Poly.CrossChain
