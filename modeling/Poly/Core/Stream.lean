import Poly.Core.Encoding

/-! The codec of headers over `io.Writer` and `io.Reader`, beside the zero-copy one. -/
namespace Poly

open Lib

namespace Serialization

section Write

def writeUint32 (val : UInt32) : Bytes := leBytes 4 val.toNat

def writeUint64 (val : UInt64) : Bytes := leBytes 8 val.toNat

def writeVarUint (value : UInt64) : Bytes :=
  if value < 0xFD then [value.toUInt8]
  else if value ≤ 0xFFFF then 0xFD :: leBytes 2 value.toNat
  else if value ≤ 0xFFFFFFFF then 0xFE :: leBytes 4 value.toNat
  else 0xFF :: leBytes 8 value.toNat

def writeVarBytes (value : Bytes) : Bytes := writeVarUint (UInt64.ofNat value.length) ++ value

end Write

def ErrRange : Failure := .error "value out of range"

def ErrEof : Failure := .error "got EOF, can not get the next byte"

section Read

variable {α β : Type}

/-- `io.ReadFull`. -/
def readFull (n : ℕ) : Reader Failure Bytes := fun bs =>
  if n ≤ bs.length then .ok (bs.take n, bs.drop n)
  else .error (.error (if bs = [] then "EOF" else "unexpected EOF"))

/-- A step whose errors are all reported as one. -/
def failWith (e : Failure) (r : Reader Failure α) : Reader Failure α := fun bs =>
  match r.run bs with
  | .error (.error _) => .error e
  | x => x

/-- A full read of a little-endian word. -/
def readWord (ofNat : ℕ → α) (n : ℕ) : Reader Failure α := do
  let p ← readFull n
  return ofNat (leNat p)

def readUint32 : Reader Failure UInt32 := failWith ErrEof (readWord UInt32.ofNat 4)

def readUint64 : Reader Failure UInt64 := failWith ErrEof (readWord UInt64.ofNat 8)

def readVarUint (maxint : UInt64) : Reader Failure UInt64 := do
  let fb ← readWord UInt8.ofNat 1
  let res ←
    if fb = 0xfd then do return (← readWord UInt16.ofNat 2).toUInt64
    else if fb = 0xfe then do return (← readWord UInt32.ofNat 4).toUInt64
    else if fb = 0xff then readWord UInt64.ofNat 8
    else return fb.toUInt64
  failIf (res > if maxint = 0 then 0xffffffffffffffff else maxint) ErrRange
  return res

/-- A long string is read through a limited reader, of which the limit is signed. -/
def byteXReader (x : UInt64) : Reader Failure Bytes :=
  if x = 0 then return []
  else if x < 2 * 1024 * 1024 then readFull x.toNat
  else fun bs =>
    let buf := bs.take x.toInt64.toInt.toNat
    if (buf.length : ℤ) = x.toInt64.toInt then .ok (buf, bs.drop buf.length) else .error ErrEof

def readVarBytes : Reader Failure Bytes := do
  let val ← readVarUint 0
  byteXReader val

def readFixed (n : ℕ) (name : String) : Reader Failure (FixedBytes n) := do
  let val ← byteXReader (UInt64.ofNat n)
  if h : val.length = n then return ⟨val, h⟩
  else throw (.error s!"[Common]: {name}ParseFromBytes err, len != {n}")

def readHash : Reader Failure Uint256 := readFixed 32 "Uint256"

def readAddress : Reader Failure Address := readFixed 20 "Address"

end Read

end Serialization

section Header

open Serialization

def UnsignedHeader.serializeUnsigned (bd : UnsignedHeader) : Result Bytes := do
  failIf (bd.version > CURR_HEADER_VERSION) (.panic
    s!"invalid header {bd.version} over max version:{CURR_HEADER_VERSION}")
  return writeUint32 bd.version ++ writeUint64 bd.chainID ++ bd.prevBlockHash.val ++
    bd.transactionsRoot.val ++ bd.crossStateRoot.val ++ bd.blockRoot.val ++
    writeUint32 bd.timestamp ++ writeUint32 bd.height ++ writeUint64 bd.consensusData ++
    writeVarBytes bd.consensusPayload ++ bd.nextBookkeeper.val

def Header.serialize {K : Keys} (bd : Header K) : Result Bytes := do
  let unsigned ← bd.serializeUnsigned
  return unsigned ++ writeVarUint (UInt64.ofNat bd.bookkeepers.length) ++
    bd.bookkeepers.flatMap (fun key => writeVarBytes (K.serializePublicKey key)) ++
    writeVarUint (UInt64.ofNat bd.sigData.length) ++ bd.sigData.flatMap writeVarBytes

def UnsignedHeader.deserializeUnsigned : Reader Failure UnsignedHeader := do
  let version ← failWith (.error "[Header] read version error") readUint32
  failIf (version > CURR_HEADER_VERSION) (.error
    s!"[Header] header version {version} over max version {CURR_HEADER_VERSION}")
  let chainID ← failWith (.error "[Header] read chainID error") readUint64
  let prevBlockHash ← failWith (.error "[Header] read prevBlockHash error") readHash
  let transactionsRoot ← failWith (.error "[Header] read transactionsRoot error") readHash
  let crossStateRoot ← failWith (.error "[Header] read crossStatesRoot error") readHash
  let blockRoot ← failWith (.error "[Header] read blockRoot error") readHash
  let timestamp ← failWith (.error "[Header] read timestamp error") readUint32
  let height ← failWith (.error "[Header] read height error") readUint32
  let consensusData ← failWith (.error "[Header] read consensusData error") readUint64
  let consensusPayload ← failWith (.error "[Header] read consensusPayload error") readVarBytes
  let nextBookkeeper ← failWith (.error "[Header] read nextBookkeeper error") readAddress
  return ⟨version, chainID, prevBlockHash, transactionsRoot, crossStateRoot, blockRoot, timestamp,
    height, consensusData, consensusPayload, nextBookkeeper⟩

variable (K : Keys)

def readPublicKey : Reader Failure K.PublicKey := do
  let buf ← failWith (.error "[Header] deserialize bookkeepers public key error") readVarBytes
  StateT.lift (K.deserializePublicKey buf)

def Header.deserialize : Reader Failure (Header K) := do
  let unsigned ← UnsignedHeader.deserializeUnsigned
  let n ← failWith (.error "[Header] deserialize bookkeepers length error") (readVarUint 0)
  let bookkeepers ← Reader.replicate (readPublicKey K) (loopCount n)
  let m ← failWith (.error "[Header] deserialize sigData length error") (readVarUint 0)
  let sigData ← Reader.replicate
    (failWith (.error "[Header] deserialize sigData error") readVarBytes) (loopCount m)
  return ⟨unsigned, bookkeepers, sigData⟩

end Header

namespace Serialization

open Source Reader

variable {α β : Type} (e : Failure)

theorem failWith_bind (r : Reader Failure α) (f : α → Reader Failure β) :
    failWith e (r >>= f) = failWith e r >>= fun a => failWith e (f a) := by
  funext bs
  change (match (r >>= f).run bs with | .error (.error _) => .error e | x => x) =
    (match r.run bs with | .error (.error _) => .error e | x => x) >>= fun p =>
      (failWith e (f p.1)).run p.2
  rw [StateT.run_bind]
  cases r.run bs with
  | ok p => rfl
  | error e' => cases e' <;> rfl

theorem failWith_failWith (msg : String) (r : Reader Failure α) :
    failWith e (failWith (.error msg) r) = failWith e r := by
  funext bs
  simp only [failWith, StateT.run]
  cases r bs with
  | ok p => rfl
  | error e' => cases e' <;> rfl

theorem failWith_readFull (n : ℕ) : failWith e (readFull n) = take e n := by
  funext bs
  simp only [failWith, readFull, take, StateT.run]
  split_ifs <;> rfl

theorem failWith_readWord (f : ℕ → α) (n : ℕ) : failWith e (readWord f n) = nextWord f n e := by
  rw [readWord, failWith_bind, failWith_readFull]
  rfl

theorem failWith_readUint32 : failWith e readUint32 = nextUint32 e :=
  (failWith_failWith e _ _).trans (failWith_readWord e _ _)

theorem failWith_readUint64 : failWith e readUint64 = nextUint64 e :=
  (failWith_failWith e _ _).trans (failWith_readWord e _ _)

theorem failWith_readVarUint : failWith e (readVarUint 0) = nextVarUint e := by
  have hmax (res : UInt64) : ¬ res > 0xffffffffffffffff :=
    UInt64.not_lt.mpr (UInt64.le_iff_toNat_le.mpr (Nat.le_of_lt_succ res.toNat_lt))
  have hpure {γ : Type} (a : γ) : failWith e (pure a) = pure a := rfl
  simp only [readVarUint, failWith_bind, failWith_readWord, apply_ite (failWith e), hpure, if_true,
    failIf, if_neg (hmax _), pure_bind, bind_pure]
  rfl

/-- A string as long as a Go slice can be is read by both. -/
theorem failWith_byteXReader (x : UInt64) {bs} (hbs : bs.length < 2 ^ 63) :
    (failWith e (byteXReader x)).run bs = (nextBytes x.toNat e).run bs := by
  unfold byteXReader
  split_ifs with hzero hshort
  · subst hzero
    simp [nextBytes, take, failWith, StateT.run, pure, StateT.pure, Except.pure]
  · rw [failWith_readFull]
    rfl
  · have hx : x.toInt64.toInt = (x.toNat : ℤ) ∨ x.toInt64.toInt < 0 ∧ 2 ^ 63 ≤ x.toNat := by
      have hlt := x.toNat_lt
      rw [show x.toInt64.toInt = x.toBitVec.toInt from rfl, BitVec.toInt_eq_toNat_cond,
        UInt64.toNat_toBitVec]
      split <;> omega
    simp only [failWith, nextBytes, take, StateT.run, List.length_take]
    rcases hx with hx | ⟨hneg, hlong⟩
    · rw [hx, Int.toNat_natCast]
      by_cases hle : x.toNat ≤ bs.length
      · rw [if_pos hle, Nat.min_eq_left hle, if_pos rfl]
      · rw [if_neg hle, if_neg (by omega)]
        rfl
    · rw [if_neg (by omega), if_neg (by omega)]
      rfl

theorem failWith_readFixed {n : ℕ} (hpos : 0 < n) (hn : n < 2 * 1024 * 1024) (name : String) :
    failWith e (readFixed n name) = nextFixed n e := by
  funext bs
  have hx : (UInt64.ofNat n).toNat = n := UInt64.toNat_ofNat_of_lt' (hn.trans (by decide))
  have hzero : UInt64.ofNat n ≠ 0 := fun h => by simp [h] at hx; omega
  have hshort : UInt64.ofNat n < 2 * 1024 * 1024 := UInt64.lt_iff_toNat_lt.mpr (by rw [hx]; exact hn)
  rw [readFixed, failWith_bind, byteXReader, if_neg hzero, if_pos hshort, failWith_readFull, hx]
  change (take e n bs >>= fun p => failWith e (if h : p.1.length = n then pure ⟨p.1, h⟩
    else throw _) p.2) = nextFixed n e bs
  by_cases h : n ≤ bs.length
  · have hlen : (bs.take n).length = n := List.length_take_of_le h
    rw [take, if_pos h, ok_bind, dif_pos hlen, nextFixed, dif_pos h]
    rfl
  · rw [take, if_neg h, error_bind, nextFixed, dif_neg h]

/-- The readers do the same on strings as long as a Go slice can be. Instances follow the program
text. -/
class Same (r r' : Reader Failure α) : Prop where
  eq : ∀ ⦃bs⦄, bs.length < 2 ^ 63 → r.run bs = r'.run bs

namespace Same

instance (priority := low) (r : Reader Failure α) : Same r r := ⟨fun _ _ => rfl⟩

instance bind {r r' : Reader Failure α} {f f' : α → Reader Failure β} [h : Same r r'] [Local r']
    [hf : ∀ a, Same (f a) (f' a)] : Same (r >>= f) (r' >>= f') := by
  constructor
  intro bs hbs
  rw [StateT.run_bind, StateT.run_bind, h.eq hbs]
  cases hr : r'.run bs with
  | error e => rfl
  | ok p =>
    obtain ⟨used, rfl, -⟩ := Local.of_run hr
    rw [List.length_append] at hbs
    exact (hf p.1).eq (Nat.lt_of_le_of_lt (Nat.le_add_left _ _) hbs)

instance {r r' : Reader Failure α} [Same r r'] [Local r'] (n : ℕ) :
    Same (replicate r n) (replicate r' n) := by
  induction n with
  | zero => exact inferInstanceAs (Same (pure []) (pure []))
  | succ n ih => exact bind

instance : Same (failWith e readVarBytes) (nextVarBytes e) := by
  rw [readVarBytes, failWith_bind, failWith_readVarUint]
  have hbytes (x : UInt64) : Same (failWith e (byteXReader x)) (nextBytes x.toNat e) :=
    ⟨fun _ hbs => failWith_byteXReader e x hbs⟩
  exact bind

set_option synthInstance.maxSize 100000 in
instance : Local UnsignedHeader.deserializationUnsigned := .bind

set_option synthInstance.maxSize 100000 in
instance : Same UnsignedHeader.deserializeUnsigned UnsignedHeader.deserializationUnsigned := by
  have hhash (e : Failure) : failWith e readHash = nextHash e :=
    failWith_readFixed e (by decide) (by decide) _
  have haddress (e : Failure) : failWith e readAddress = nextAddress e :=
    failWith_readFixed e (by decide) (by decide) _
  simp only [UnsignedHeader.deserializeUnsigned, failWith_readUint32, failWith_readUint64, hhash,
    haddress]
  exact bind

instance (K : Keys) : Same (readPublicKey K)
    (nextPublicKey K (.error "[Header] deserialize bookkeepers public key error")) := bind

set_option synthInstance.maxSize 100000 in
instance (K : Keys) : Same (Header.deserialize K) (Header.deserialization K) := by
  simp only [Header.deserialize, failWith_readVarUint]
  exact bind

end Same

end Serialization

/-- A header has one wire format: both encoders write the same bytes, and both decoders give the
same result on every byte string and leave the same rest. -/
theorem header_one_format (K : Keys) : (∀ bd : Header K, bd.serialize = bd.serialization) ∧
    ∀ bs : Bytes, bs.length < 2 ^ 63 →
      (Header.deserialize K).run bs = (Header.deserialization K).run bs :=
  ⟨fun _ => rfl, fun _ hbs => Serialization.Same.eq hbs⟩

/-- Five bytes are too few for both. -/
theorem header_one_format_short :
    (Header.deserialize openKeys).run [0, 0, 0, 0, 1] =
      (Header.deserialization openKeys).run [0, 0, 0, 0, 1] :=
  (header_one_format openKeys).2 _ (by decide)

end Poly
