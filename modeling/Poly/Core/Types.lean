import Poly.Common.ZeroCopy

/-! Headers, transactions and blocks, with the encodings that their hashes are taken of. -/
namespace Poly

open Lib Source Sink

/-- The key and signature library. -/
structure Keys where
  PublicKey : Type
  Signature : Type
  serializePublicKey : PublicKey → Bytes
  deserializePublicKey : Bytes → Result PublicKey
  sortPublicKeys : List PublicKey → List PublicKey
  deserializeSignature : Bytes → Result Signature
  verify : PublicKey → Bytes → Signature → Bool

/-- Keys that are their own encoding and accept every signature. -/
def openKeys : Keys where
  PublicKey := Bytes
  Signature := Bytes
  serializePublicKey := id
  deserializePublicKey := .ok
  sortPublicKeys := id
  deserializeSignature := .ok
  verify _ _ _ := true

/-- Keys whose only signature of the data is the key followed by the data. -/
def echoKeys : Keys where
  PublicKey := Bytes
  Signature := Bytes
  serializePublicKey := id
  deserializePublicKey := .ok
  sortPublicKeys := id
  deserializeSignature := .ok
  verify key data sig := sig == key ++ data

def CURR_HEADER_VERSION : UInt32 := 0

def CURR_TX_VERSION : UInt8 := 0

def MAX_ATTRIBUTES_LEN : ℕ := 0

def MAX_TX_SIZE : ℕ := 1024 * 1024

def MULTI_SIG_MAX_PUBKEY_SIZE : ℕ := 16

/-- The bound of a loop over `i < int(n)`: a count with the sign bit set is negative. -/
def loopCount (n : UInt64) : ℕ := if n.toNat < 2 ^ 63 then n.toNat else 0

/-- The part of a header that its hash covers. -/
structure UnsignedHeader where
  version : UInt32
  chainID : UInt64
  prevBlockHash : Uint256
  transactionsRoot : Uint256
  crossStateRoot : Uint256
  blockRoot : Uint256
  timestamp : UInt32
  height : UInt32
  consensusData : UInt64
  consensusPayload : Bytes
  nextBookkeeper : Address
  deriving DecidableEq

structure Header (K : Keys) extends UnsignedHeader where
  bookkeepers : List K.PublicKey
  sigData : List Bytes

structure Sig (K : Keys) where
  sigData : List Bytes
  pubKeys : List K.PublicKey
  m : UInt16

/-- The part of a transaction that its hash covers. Attributes are always empty, the coin type is
always `ONG` and the type is always `Invoke`, so the decoder keeps none of them. -/
structure UnsignedTx where
  version : UInt8
  nonce : UInt32
  chainID : UInt64
  gasLimit : UInt64
  gasPrice : UInt64
  code : Bytes
  payer : Address
  deriving DecidableEq

structure Transaction (K : Keys) extends UnsignedTx where
  sigs : List (Sig K)
  raw : Bytes
  hash : Uint256
  /-- Assigned by signature verification, or by the first look-up of the signing addresses. -/
  signedAddr : List Address

structure Block (K : Keys) where
  header : Header K
  transactions : List (Transaction K)

section Header

/-- `serializationUnsigned`, for a header of the current version. -/
def UnsignedHeader.bytes (bd : UnsignedHeader) : Bytes :=
  writeUint32 bd.version ++ writeUint64 bd.chainID ++ bd.prevBlockHash.val ++
    bd.transactionsRoot.val ++ bd.crossStateRoot.val ++ bd.blockRoot.val ++
    writeUint32 bd.timestamp ++ writeUint32 bd.height ++ writeUint64 bd.consensusData ++
    writeVarBytes bd.consensusPayload ++ bd.nextBookkeeper.val

def UnsignedHeader.serializationUnsigned (bd : UnsignedHeader) : Result Bytes := do
  failIf (bd.version > CURR_HEADER_VERSION) (.panic
    s!"invalid header {bd.version} over max version:{CURR_HEADER_VERSION}")
  return bd.bytes

/-- `Header.Hash`. -/
def UnsignedHeader.hash (sha256 : Bytes → Uint256) (bd : UnsignedHeader) : Result Uint256 := do
  let data ← bd.serializationUnsigned
  return sha256 (sha256 data).val

def UnsignedHeader.deserializationUnsigned : Reader Failure UnsignedHeader := do
  let version ← nextUint32 (.error "[Header] read version error")
  failIf (version > CURR_HEADER_VERSION) (.error
    s!"[Header] header version {version} over max version {CURR_HEADER_VERSION}")
  let chainID ← nextUint64 (.error "[Header] read chainID error")
  let prevBlockHash ← nextHash (.error "[Header] read prevBlockHash error")
  let transactionsRoot ← nextHash (.error "[Header] read transactionsRoot error")
  let crossStateRoot ← nextHash (.error "[Header] read crossStatesRoot error")
  let blockRoot ← nextHash (.error "[Header] read blockRoot error")
  let timestamp ← nextUint32 (.error "[Header] read timestamp error")
  let height ← nextUint32 (.error "[Header] read height error")
  let consensusData ← nextUint64 (.error "[Header] read consensusData error")
  let consensusPayload ← nextVarBytes (.error "[Header] read consensusPayload error")
  let nextBookkeeper ← nextAddress (.error "[Header] read nextBookkeeper error")
  return ⟨version, chainID, prevBlockHash, transactionsRoot, crossStateRoot, blockRoot, timestamp,
    height, consensusData, consensusPayload, nextBookkeeper⟩

variable (K : Keys)

/-- A public key as a byte string with its length. -/
def nextPublicKey (eof : Failure) : Reader Failure K.PublicKey := do
  let buf ← nextVarBytes eof
  StateT.lift (K.deserializePublicKey buf)

def Header.deserialization : Reader Failure (Header K) := do
  let unsigned ← UnsignedHeader.deserializationUnsigned
  let n ← nextVarUint (.error "[Header] deserialize bookkeepers length error")
  let bookkeepers ← Reader.replicate
    (nextPublicKey K (.error "[Header] deserialize bookkeepers public key error")) (loopCount n)
  let m ← nextVarUint (.error "[Header] deserialize sigData length error")
  let sigData ← Reader.replicate
    (nextVarBytes (.error "[Header] deserialize sigData error")) (loopCount m)
  return ⟨unsigned, bookkeepers, sigData⟩

end Header

section Transaction

def UnsignedTx.deserializationUnsigned : Reader Failure UnsignedTx := do
  let version ← nextByte (.error "[deserializationUnsigned] read version error")
  failIf (version > CURR_TX_VERSION) (.error
    s!"[deserializationUnsigned] tx version {version} over max version {CURR_TX_VERSION}")
  let txType ← nextByte (.error "[deserializationUnsigned] read txType error")
  let nonce ← nextUint32 (.error "[deserializationUnsigned] read nonce error")
  let chainID ← nextUint64 (.error "[deserializationUnsigned] read chainid error")
  let gasLimit ← nextUint64 (.error "[deserializationUnsigned] read gaslimit error")
  let gasPrice ← nextUint64 (.error "[deserializationUnsigned] read gasprice error")
  -- the error prints the inventory type of every transaction
  failIf (txType ≠ 0xd1) (.error "unsupported tx type 1")
  let code ← nextVarBytes (.error "[InvokeCode] deserialize code error")
  let attributes ← nextVarBytes (.error "[deserializationUnsigned] read attributes error")
  failIf (attributes.length > MAX_ATTRIBUTES_LEN) (.error
    ("[deserializationUnsigned] attributes length " ++ printBytes attributes ++
      s!" over max limit {MAX_ATTRIBUTES_LEN}"))
  let payer ← nextAddress (.error "[deserializationUnsigned] read payer error")
  let coinType ← nextByte (.error "[deserializationUnsigned] read coinType error")
  failIf (coinType ≠ 0) (.error "[deserializationUnsigned] unsupported coinType")
  return ⟨version, nonce, chainID, gasLimit, gasPrice, code, payer⟩

variable (K : Keys) (sha256 : Bytes → Uint256)

def Sig.deserialize : Reader Failure (Sig K) := do
  let l ← nextUint16 (.error "[Sig] deserialize read sigData length error")
  let sigData ← Reader.replicate
    (nextVarBytes (.error "[Sig] deserialize read sigData error")) l.toNat
  let l ← nextUint16 (.error "[Sig] deserialize read publicKey length error")
  let pubKeys ← Reader.replicate
    (nextPublicKey K (.error "[Sig] deserialize read sigData error")) l.toNat
  let m ← nextUint16 (.error "[Sig] deserialize read M error")
  return ⟨sigData, pubKeys, m⟩

/-- The largest slice of signature entries that the runtime allocates. -/
def MAX_SIGS : ℕ := 2 ^ 48 / 56

/-- The bytes that a reader has consumed when it leaves `rest`. -/
def consumed (bs rest : Bytes) : Bytes := bs.take (bs.length - rest.length)

def Transaction.deserialization : Reader Failure (Transaction K) := do
  let start ← get
  let unsigned ← UnsignedTx.deserializationUnsigned
  let rawUnsigned := consumed start (← get)
  let l ← nextVarUint (.error "[Deserialization] read sigs length error")
  failIf (l.toNat > MAX_SIGS) (.panic "makeslice: len out of range")
  let sigs ← Reader.replicate (Sig.deserialize K) l.toNat
  let raw := consumed start (← get)
  failIf (raw.length > MAX_TX_SIZE) (.error s!"execced max transaction size:{raw.length}")
  return ⟨unsigned, sigs, raw, sha256 (sha256 rawUnsigned).val, []⟩

def transactionFromRawBytes (raw : Bytes) : Result (Transaction K) := do
  failIf (raw.length > MAX_TX_SIZE) (.error "execced max transaction size")
  let (tx, _) ← (Transaction.deserialization K sha256).run raw
  return tx

/-- `EncodeMultiPubKeyProgramInto`. -/
def encodeMultiPubKeyProgram (pubkeys : List K.PublicKey) (m : UInt16) : Result Bytes := do
  let n := pubkeys.length
  failIf (¬ (1 ≤ m.toNat ∧ m.toNat ≤ n ∧ n > 1 ∧ n ≤ MULTI_SIG_MAX_PUBKEY_SIZE))
    (.error "wrong multi-sig param")
  let pubkeys := K.sortPublicKeys pubkeys
  return writeUint16 (UInt16.ofNat pubkeys.length) ++
    pubkeys.flatMap (fun key => writeVarBytes (K.serializePublicKey key)) ++ writeUint16 m

variable (ripemd160 : Bytes → Address)

def addressFromVmCode (code : Bytes) : Address := ripemd160 (sha256 code).val

def addressFromPubKey (key : K.PublicKey) : Address :=
  addressFromVmCode sha256 ripemd160 (K.serializePublicKey key)

/-- `AddressFromBookkeepers`; a wrong number of keys gives the empty address and no error. -/
def addressFromBookkeepers (bookkeepers : List K.PublicKey) : Address :=
  match bookkeepers with
  | [key] => addressFromPubKey K sha256 ripemd160 key
  | keys =>
    let n : ℤ := keys.length
    match encodeMultiPubKeyProgram K keys (UInt16.ofInt (n - (n - 1).tdiv 3)) with
    | .ok program => addressFromVmCode sha256 ripemd160 program
    | .error _ => Address.empty

/-- The address that one signature entry speaks for. -/
def Sig.address (prog : Sig K) : Result Address :=
  match prog.pubKeys with
  | [] => .error (.error "[GetSignatureAddresses] no public key")
  | [key] => .ok (addressFromPubKey K sha256 ripemd160 key)
  | keys => do
    let program ← encodeMultiPubKeyProgram K keys prog.m
    return addressFromVmCode sha256 ripemd160 program

/-- `GetSignatureAddresses`: addresses set earlier are returned as they are. -/
def Transaction.getSignatureAddresses (tx : Transaction K) : Result (List Address) :=
  if tx.signedAddr = [] then tx.sigs.mapM (Sig.address K sha256 ripemd160) else .ok tx.signedAddr

end Transaction

variable (K : Keys) (sha256 : Bytes → Uint256)

/-- One round of `ComputeMerkleRoot`: an odd last hash is paired with itself. -/
def merkleRound : List Uint256 → List Uint256
  | [] => []
  | [a] => [sha256 (sha256 (a.val ++ a.val)).val]
  | a :: b :: l => sha256 (sha256 (a.val ++ b.val)).val :: merkleRound l

theorem merkleRound_length (l : List Uint256) :
    (merkleRound sha256 l).length = (l.length + 1) / 2 := by
  fun_induction merkleRound sha256 l with
  | case1 => simp
  | case2 => simp
  | case3 a b l ih =>
    simp only [List.length_cons, ih]
    omega

def computeMerkleRoot : List Uint256 → Uint256
  | [] => Uint256.empty
  | [a] => a
  | a :: b :: l => computeMerkleRoot (merkleRound sha256 (a :: b :: l))
termination_by l => l.length
decreasing_by
  rw [merkleRound_length]
  simp only [List.length_cons]
  omega

/-- The loop of `Block.Deserialization` with the hashes read so far. -/
def nextTransactions : ℕ → List Uint256 → Reader Failure (List (Transaction K))
  | 0, _ => pure []
  | n + 1, mask => do
    let transaction ← Transaction.deserialization K sha256
    failIf (transaction.hash ∈ mask) (.error "duplicated transaction in block")
    let txs ← nextTransactions n (transaction.hash :: mask)
    return transaction :: txs

def Block.deserialization : Reader Failure (Block K) := do
  let header ← Header.deserialization K
  let length ← nextUint32 (.error "unexpected EOF")
  let transactions ← nextTransactions K sha256 length.toNat []
  let root := computeMerkleRoot sha256 (transactions.map Transaction.hash)
  failIf (header.transactionsRoot ≠ root) (.error
    s!"mismatched transaction root {toHex header.transactionsRoot.val} and {toHex root.val}")
  return ⟨header, transactions⟩

def blockFromRawBytes (raw : Bytes) : Result (Block K) := do
  let (block, _) ← (Block.deserialization K sha256).run raw
  return block

end Poly
