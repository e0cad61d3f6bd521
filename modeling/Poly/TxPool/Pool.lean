import Poly.TxPool.Validation

/-! The pool of verified transactions. -/
namespace Poly.TxPool

open Lib

inductive VerifyType where
  | stateless
  | stateful
  deriving DecidableEq, Repr

structure TXAttr where
  height : UInt32
  type : VerifyType
  errCode : ErrCode
  deriving DecidableEq

structure TXEntry (K : Keys) where
  tx : Transaction K
  attrs : List TXAttr

/-- The verified transactions by their hash. -/
abbrev TXPool (K : Keys) := OrderedMap Uint256 (TXEntry K)

structure VerifyTxResult (K : Keys) where
  height : UInt32
  tx : Transaction K
  errCode : ErrCode

structure CheckBlkResult (K : Keys) where
  verifiedTxs : List (VerifyTxResult K)
  unverifiedTxs : List (Transaction K)
  oldTxs : List (Transaction K)

namespace TXPool

variable {K : Keys}

variable (tp : TXPool K)

/-- A transaction that is already there stays as it is. -/
def addTxList (txEntry : TXEntry K) : TXPool K :=
  match tp.get txEntry.tx.hash with
  | some _ => tp
  | none => tp.insert txEntry.tx.hash txEntry

def delTxList (tx : Transaction K) : TXPool K := tp.erase tx.hash

def cleanTransactionList (txs : List (Transaction K)) : TXPool K :=
  txs.foldl delTxList tp

/-- Whether the entry was verified at the height or later. -/
def compareTxHeight (txEntry : TXEntry K) (height : UInt32) : Bool :=
  txEntry.attrs.all fun v => !(v.type = .stateful && v.height < height)

/-- The loop of `getTxPool` over the entries: the fresh ones up to `count`, and the old
transactions met before. -/
def pickTxs (height : UInt32) (count : ℕ) :
    List (TXEntry K) → ℕ → List (TXEntry K) × List (Transaction K)
  | [], _ => ([], [])
  | txEntry :: entries, num =>
    if compareTxHeight txEntry height = false then
      let (txList, oldTxList) := pickTxs height count entries num
      (txList, txEntry.tx :: oldTxList)
    else if num + 1 ≥ count then
      ([txEntry], [])
    else
      let (txList, oldTxList) := pickTxs height count entries (num + 1)
      (txEntry :: txList, oldTxList)

def getTxPool (maxTxInBlock : ℕ) (byCount : Bool) (height : UInt32) :
    List (TXEntry K) × List (Transaction K) :=
  let byCount := byCount && maxTxInBlock > 0
  let count := if tp.size < maxTxInBlock || !byCount then tp.size else maxTxInBlock
  pickTxs height count (tp.entries.map Prod.snd) 0

/-- One transaction of a block in `getUnverifiedTxs`. -/
def checkBlkTx (height : UInt32) (acc : CheckBlkResult K × TXPool K) (tx : Transaction K) :
    CheckBlkResult K × TXPool K :=
  let (res, tp) := acc
  match tp.get tx.hash with
  | none => ({ res with unverifiedTxs := res.unverifiedTxs ++ [tx] }, tp)
  | some txEntry =>
    if compareTxHeight txEntry height = false then
      ({ res with oldTxs := res.oldTxs ++ [txEntry.tx] }, tp.erase tx.hash)
    else
      match txEntry.attrs.find? fun v => v.type = .stateful with
      | some v => ({ res with verifiedTxs := res.verifiedTxs ++ [⟨v.height, tx, v.errCode⟩] }, tp)
      | none => (res, tp)

def getUnverifiedTxs (txs : List (Transaction K)) (height : UInt32) :
    CheckBlkResult K × TXPool K :=
  txs.foldl (checkBlkTx height) (⟨[], [], []⟩, tp)

/-- `Remain`: all transactions, leaving an empty pool. -/
def remain : List (Transaction K) := tp.entries.map fun x => x.2.tx

end TXPool

end Poly.TxPool
