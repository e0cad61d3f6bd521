import Poly.Core.Types
import Poly.Lib.OrderedMap

/-! The messages of the consensus and what a node checks of them on arrival. -/
namespace Poly.Vbft

open Lib

def maxUint32 : UInt32 := 0xffffffff

/-- A proposed block; the proposer is the one that its consensus payload names. -/
structure VbftBlock (K : Keys) where
  block : Block K
  emptyBlock : Option (Block K)
  proposer : UInt32

structure BlockProposalMsg (K : Keys) where
  block : VbftBlock K

structure BlockEndorseMsg where
  endorser : UInt32
  endorsedProposer : UInt32
  blockNum : UInt32
  endorsedBlockHash : Uint256
  endorseForEmpty : Bool
  endorserSig : Bytes

structure BlockCommitMsg where
  committer : UInt32
  blockProposer : UInt32
  blockNum : UInt32
  commitBlockHash : Uint256
  commitForEmpty : Bool
  endorsersSig : OrderedMap UInt32 Bytes
  committerSig : Bytes

def BlockProposalMsg.getBlockNum {K : Keys} (msg : BlockProposalMsg K) : UInt32 :=
  msg.block.block.header.height

variable (K : Keys) (sha256 : Bytes → Uint256)

/-- A signature of a block hash; `what` names the block in the error. -/
def verifyBlockSig (what : String) (pub : K.PublicKey) (hash : Uint256) (sigdata : Bytes) :
    Result Unit :=
  match K.deserializeSignature sigdata with
  | .error _ => .error (.error s!"deserialize {what} sig: ")
  | .ok sig => failIf (K.verify pub hash.val sig = false) (.error s!"failed to verify {what} sig")

/-- The first signature of a header is one of its hash. -/
def verifyHeaderSig (what : String) (pub : K.PublicKey) (header : Header K) : Result Unit := do
  let sigdata ← orFail header.sigData.head? (.error s!"no sigdata in {what}")
  let hash ← header.hash sha256
  verifyBlockSig K what pub hash sigdata

def BlockProposalMsg.verify (msg : BlockProposalMsg K) (pub : K.PublicKey) : Result Unit := do
  verifyHeaderSig K sha256 "block" pub msg.block.block.header
  match msg.block.emptyBlock with
  | none => return ()
  | some emptyBlock => verifyHeaderSig K sha256 "empty block" pub emptyBlock.header

def BlockEndorseMsg.verify (msg : BlockEndorseMsg) (pub : K.PublicKey) : Result Unit :=
  verifyBlockSig K "block" pub msg.endorsedBlockHash msg.endorserSig

def BlockCommitMsg.verify (msg : BlockCommitMsg) (pub : K.PublicKey) : Result Unit :=
  verifyBlockSig K "block" pub msg.commitBlockHash msg.committerSig

end Poly.Vbft
