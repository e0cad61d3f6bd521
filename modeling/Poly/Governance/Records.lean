import Poly.CrossChain.Handlers
import Poly.Lib.MapCodec

/-! The stored records with a map inside, and that each of them has one encoding. -/
namespace Poly.Governance

open Lib Source Sink Reader CrossChain List

/-- Signatures by the address text of the signer. -/
abbrev BindSignInfo := OrderedMap Bytes Bytes

/-- The fees that the consensus peers have proposed. -/
structure FeeInfo where
  startTime : UInt32
  feeInfo : OrderedMap Address ℕ

structure SigInfo where
  status : Bool
  sigInfo : OrderedMap Bytes Bytes

/-! `Serialization` ranges over the Go map in some order, which the second argument names. -/

def PeerPoolMap.serializationIn (m : PeerPoolMap) (order : List (Bytes × PeerPoolItem)) : Bytes :=
  writeVarUint (UInt64.ofNat m.size) ++
    (descending PeerPoolItem.peerPubkey (order.map Prod.snd)).flatMap PeerPoolItem.serialization

/-- The text `ToHexString` prints the last byte first, so texts compare as reversed bytes. -/
def hexRank {ν : Type} (x : Address × ν) : Bytes := x.1.val.reverse

def writeSign (x : Address × Bool) : Bytes := writeVarBytes x.1.val ++ writeBool x.2

def ConsensusSigns.serializationIn (m : ConsensusSigns) (order : List (Address × Bool)) : Bytes :=
  writeVarUint (UInt64.ofNat m.size) ++ (descending hexRank order).flatMap writeSign

def writeSigned (x : Bytes × Bytes) : Bytes := writeVarBytes x.1 ++ writeVarBytes x.2

def nextSigned (key value : Failure) : Reader Failure (Bytes × Bytes) := do
  let k ← nextVarBytes key
  let v ← nextVarBytes value
  return (k, v)

def BindSignInfo.serializationIn (m : BindSignInfo) (order : List (Bytes × Bytes)) : Bytes :=
  writeVarUint (UInt64.ofNat m.size) ++ (descending Prod.fst order).flatMap writeSigned

def BindSignInfo.deserialization : Reader Failure BindSignInfo := do
  let n ← nextVarUint (.error "BindSignInfo deserialize MultiSignInfo length error")
  let items ← Reader.replicate (nextSigned (.error "BindSignInfo deserialize public key error")
    (.error "BindSignInfo deserialize byte error")) n.toNat
  return items.foldl (fun m x => m.insert x.1 x.2) OrderedMap.empty

/-- `big.Int.Bytes`: the digits of a number, most significant first. -/
def bigBytes (n : ℕ) : Bytes := ((Nat.digits 256 n).map UInt8.ofNat).reverse

/-- `big.Int.SetBytes`. -/
def setBytes (bs : Bytes) : ℕ := leNat bs.reverse

def writeFee (x : Address × ℕ) : Bytes := x.1.val ++ writeVarBytes (bigBytes x.2)

def FeeInfo.serializationIn (f : FeeInfo) (order : List (Address × ℕ)) : Bytes :=
  writeUint32 f.startTime ++ (writeVarUint (UInt64.ofNat f.feeInfo.size) ++
    (descending hexRank order).flatMap writeFee)

def FeeInfo.deserialization : Reader Failure FeeInfo := do
  let startTime ← nextUint32 (.error "FeeInfo deserialize start time error")
  let n ← nextVarUint (.error "FeeInfo deserialize FeeInfo length error")
  let items ← Reader.replicate (do
    let k ← nextAddress (.error "FeeInfo deserialize address error")
    let v ← nextVarBytes (.error "BindSignInfo deserialize fee error")
    return (k, setBytes v)) n.toNat
  return ⟨startTime, items.foldl (fun m x => m.insert x.1 x.2) OrderedMap.empty⟩

def writeVote (x : Bytes × Bool) : Bytes := writeVarBytes x.1 ++ writeBool x.2

variable (v : VoteInfo)

def VoteInfo.serializationIn (order : List (Bytes × Bool)) : Bytes :=
  writeBool v.status ++ (writeUint64 (UInt64.ofNat v.voteInfo.size) ++
    (descending Prod.fst order).flatMap writeVote)

def SigInfo.serializationIn (s : SigInfo) (order : List (Bytes × Bytes)) : Bytes :=
  writeBool s.status ++ (writeUint64 (UInt64.ofNat s.sigInfo.size) ++
    (descending Prod.fst order).flatMap writeSigned)

def SigInfo.deserialization : Reader Failure SigInfo := do
  let status ← nextBool (.error "SigInfo deserialize status length error")
  let n ← nextUint64 (.error "SigInfo deserialize SigInfo length error")
  let items ← Reader.replicate (nextSigned (.error "SigInfo deserialize key error")
    (.error "SigInfo deserialize value error")) n.toNat
  return ⟨status, items.foldl (fun m x => m.insert x.1 x.2) OrderedMap.empty⟩

theorem leNat_map_ofNat {l} (h : ∀ d ∈ l, d < 256) :
    leNat (l.map UInt8.ofNat) = Nat.ofDigits 256 l := by
  induction l with
  | nil => rfl
  | cons d l ih =>
    obtain ⟨hd, hl⟩ := forall_mem_cons.mp h
    rw [map_cons, leNat, ih hl, Nat.ofDigits_cons, UInt8.toNat_ofNat_of_lt' hd]

theorem setBytes_bigBytes (n : ℕ) : setBytes (bigBytes n) = n := by
  rw [setBytes, bigBytes, reverse_reverse,
    leNat_map_ofNat fun d hd => Nat.digits_lt_base (by norm_num) hd, Nat.ofDigits_digits]

@[simp] theorem addressParseFromBytes_val (a : Address) : addressParseFromBytes a.val = .ok a := by
  obtain ⟨bs, h⟩ := a
  exact dif_pos h

theorem address_length_lt (a : Address) : a.val.length < 2 ^ 64 := by
  rw [a.2]
  decide

theorem roundTrip_signed (key value : Failure) : RoundTrip (nextSigned key value) writeSigned
    fun x => x.1.length < 2 ^ 64 ∧ x.2.length < 2 ^ 64 := by
  rintro ⟨k, v⟩ ⟨hk, hv⟩ rest
  simp (disch := assumption) [nextSigned, writeSigned]

theorem roundTrip_item : RoundTrip
    (fun bs => wrapError "deserialize peerPool error: " (PeerPoolItem.deserialization.run bs))
    PeerPoolItem.serialization fun item => item.peerPubkey.length < 2 ^ 64 := by
  intro item h rest
  have haddress := address_length_lt item.address
  have hrun : PeerPoolItem.deserialization.run (item.serialization ++ rest) = .ok (item, rest) := by
    simp (disch := assumption) [PeerPoolItem.deserialization, PeerPoolItem.serialization, wrapError]
  change wrapError _ (PeerPoolItem.deserialization.run _) = _
  rw [hrun]
  rfl

/-- Every entry of a pool stands under the key text of its item. -/
def PeerPoolMap.Fits : PeerPoolMap → Prop :=
  FitsBy fun x => x.1 = x.2.peerPubkey ∧ x.1.length < 2 ^ 64

def SignedFits : OrderedMap Bytes Bytes → Prop :=
  FitsBy fun x => x.1.length < 2 ^ 64 ∧ x.2.length < 2 ^ 64

def FeeInfo.Fits (f : FeeInfo) : Prop := FitsBy (fun x => (bigBytes x.2).length < 2 ^ 64) f.feeInfo

def VoteInfo.Fits : Prop := FitsBy (fun x => x.1.length < 2 ^ 64) v.voteInfo

theorem hexRank_inj {ν : Type} (x y : Address × ν) (h : hexRank x = hexRank y) : x.1 = y.1 :=
  Subtype.ext (reverse_injective h)

theorem peerPoolMap_entries {m : PeerPoolMap} (hm : m.Fits) {order : List (Bytes × PeerPoolItem)}
    (h : order.Perm m.entries) :
    ((order.map Prod.snd).map fun item => (item.peerPubkey, item)).Perm m.entries := by
  rw [map_map]
  refine List.Perm.trans (List.Perm.of_eq ?_) h
  refine (map_congr_left fun x hx => ?_).trans (map_id _)
  exact Prod.ext (hm.2 x (h.mem_iff.mp hx)).1.symm rfl

theorem peerPoolMap_oneEncoding : OneEncoding PeerPoolMap.Fits OrderedMap.entries
    PeerPoolMap.serializationIn PeerPoolMap.deserialization := by
  refine .of_back (fun m hm order h => ?_) fun m hm => ?_
  · rw [PeerPoolMap.serializationIn, PeerPoolMap.serializationIn, descending_eq_of_perm (h.map _)
      (nodup_rank (fun _ _ => id) (peerPoolMap_entries hm (List.Perm.refl _)))]
  · refine run_bind_ok.mpr ⟨_, _, nextVarUint_run _ _ _, ?_⟩
    refine readItems_run roundTrip_item id (peerPoolMap_entries hm (List.Perm.refl _)) hm.1 ?_
    rintro item hitem
    obtain ⟨x, hx, rfl⟩ := mem_map.mp hitem
    obtain ⟨hkey, hlength⟩ := hm.2 x hx
    exact hkey ▸ hlength

theorem consensusSigns_oneEncoding : OneEncoding (FitsBy fun _ => True) OrderedMap.entries
    ConsensusSigns.serializationIn ConsensusSigns.deserialization := by
  refine .of_back (fun m _ order h => ?_) fun m hm => ?_
  · rw [ConsensusSigns.serializationIn, ConsensusSigns.serializationIn, descending_walk hexRank_inj h]
  · refine run_bind_ok.mpr ⟨_, _, nextVarUint_run _ _ _, ?_⟩
    refine readEntries_run ?_ id hm
    rintro ⟨a, b⟩ - rest
    have haddress := address_length_lt a
    simp (disch := assumption) [writeSign]

theorem bindSignInfo_oneEncoding : OneEncoding SignedFits OrderedMap.entries
    BindSignInfo.serializationIn BindSignInfo.deserialization := by
  refine .of_back (fun m _ order h => ?_) fun m hm => ?_
  · rw [BindSignInfo.serializationIn, BindSignInfo.serializationIn,
      descending_walk (fun _ _ => id) h]
  · refine run_bind_ok.mpr ⟨_, _, nextVarUint_run _ _ _, ?_⟩
    exact readEntries_run (roundTrip_signed _ _) id hm

theorem feeInfo_oneEncoding : OneEncoding FeeInfo.Fits (fun f => f.feeInfo.entries)
    FeeInfo.serializationIn FeeInfo.deserialization := by
  refine .of_back (fun f _ order h => ?_) fun f hf => ?_
  · rw [FeeInfo.serializationIn, FeeInfo.serializationIn, descending_walk hexRank_inj h]
  · refine run_bind_ok.mpr ⟨_, _, nextUint32_run _ _ _, ?_⟩
    refine run_bind_ok.mpr ⟨_, _, nextVarUint_run _ _ _, ?_⟩
    refine readEntries_run ?_ (FeeInfo.mk f.startTime) hf
    rintro ⟨a, n⟩ h rest
    simp (disch := assumption) [writeFee, setBytes_bigBytes]

theorem voteInfo_oneEncoding : OneEncoding VoteInfo.Fits (fun v => v.voteInfo.entries)
    VoteInfo.serializationIn VoteInfo.deserialization := by
  refine .of_back (fun v _ order h => ?_) fun v hv => ?_
  · rw [VoteInfo.serializationIn, VoteInfo.serializationIn, descending_walk (fun _ _ => id) h]
  · refine run_bind_ok.mpr ⟨_, _, nextBool_run _ _ _, ?_⟩
    refine run_bind_ok.mpr ⟨_, _, nextUint64_run _ _ _, ?_⟩
    refine readEntries_run ?_ (VoteInfo.mk v.status) hv
    rintro ⟨k, v⟩ h rest
    simp (disch := assumption) [writeVote]

theorem sigInfo_oneEncoding : OneEncoding (fun s => SignedFits s.sigInfo)
    (fun s => s.sigInfo.entries) SigInfo.serializationIn SigInfo.deserialization := by
  refine .of_back (fun s _ order h => ?_) fun s hs => ?_
  · rw [SigInfo.serializationIn, SigInfo.serializationIn, descending_walk (fun _ _ => id) h]
  · refine run_bind_ok.mpr ⟨_, _, nextBool_run _ _ _, ?_⟩
    refine run_bind_ok.mpr ⟨_, _, nextUint64_run _ _ _, ?_⟩
    exact readEntries_run (roundTrip_signed _ _) (SigInfo.mk s.status) hs

/-- The bytes of each record are a function of its value alone, and determine it. -/
theorem records_have_one_encoding :
    OneEncoding PeerPoolMap.Fits OrderedMap.entries PeerPoolMap.serializationIn
        PeerPoolMap.deserialization ∧
      OneEncoding (FitsBy fun _ => True) OrderedMap.entries ConsensusSigns.serializationIn
        ConsensusSigns.deserialization ∧
      OneEncoding SignedFits OrderedMap.entries BindSignInfo.serializationIn
        BindSignInfo.deserialization ∧
      OneEncoding FeeInfo.Fits (fun f => f.feeInfo.entries) FeeInfo.serializationIn
        FeeInfo.deserialization ∧
      OneEncoding VoteInfo.Fits (fun v => v.voteInfo.entries) VoteInfo.serializationIn
        VoteInfo.deserialization ∧
      OneEncoding (fun s => SignedFits s.sigInfo) (fun s => s.sigInfo.entries)
        SigInfo.serializationIn SigInfo.deserialization :=
  ⟨peerPoolMap_oneEncoding, consensusSigns_oneEncoding, bindSignInfo_oneEncoding,
    feeInfo_oneEncoding, voteInfo_oneEncoding, sigInfo_oneEncoding⟩

/-! What the contracts store is what the walk in the order of the map gives. -/

theorem VoteInfo.serialization_eq :
    VoteInfo.serialization v = VoteInfo.serializationIn v v.voteInfo.entries := by
  have hsorted : v.voteInfo.entries.reverse.Pairwise fun a b => b.1 ≤ a.1 :=
    pairwise_reverse.mpr (v.voteInfo.sorted.imp le_of_lt)
  rw [VoteInfo.serialization, VoteInfo.serializationIn, append_assoc,
    eq_descending (reverse_perm _) hsorted v.voteInfo.keys_nodup]
  rfl

end Poly.Governance
