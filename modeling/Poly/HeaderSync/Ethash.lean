import Poly.Core.Types

/-! The proof of work of Ethereum: a cache for each epoch, and the mix that is drawn from it. -/
namespace Poly.HeaderSync.Eth

open Lib

def epochLength : UInt64 := 30000

def mixBytes : UInt64 := 128

def hashBytes : UInt64 := 64

def hashWords : ℕ := 16

def loopAccesses : ℕ := 64

def datasetParents : ℕ := 256

def cacheRounds : ℕ := 3

/-- The hash functions of the proof of work. -/
structure Keccak where
  keccak256 : Bytes → Uint256
  keccak512 : Bytes → FixedBytes 64

/-- Go down from a size in steps of two units until the number of units is prime. -/
def primeSize (unit : UInt64) : ℕ → UInt64 → UInt64
  | 0, size => size
  | n + 1, size => if (size / unit).toNat.Prime then size else primeSize unit n (size - 2 * unit)

/-- There are fewer sizes than the steps given. The table of the first epochs holds what is computed
here. -/
def datasetSize (value : UInt64) : UInt64 :=
  primeSize mixBytes (2 ^ 64) (2 ^ 30 + 2 ^ 23 * (value / epochLength) - mixBytes)

def cacheSize (block : UInt64) : UInt64 :=
  primeSize hashBytes (2 ^ 64) (2 ^ 24 + 2 ^ 17 * (block / epochLength) - hashBytes)

def serialize (values : List UInt32) : Bytes := values.flatMap fun value => leBytes 4 value.toNat

def deserialize (buf : Bytes) : List UInt32 :=
  (List.range (buf.length / 4)).map fun i => UInt32.ofNat (leNat ((buf.drop (4 * i)).take 4))

def fnv (a b : UInt32) : UInt32 := a * 0x01000193 ^^^ b

/-- The data are at least as long as the mix wherever this is used. -/
def fnvHash (mix data : List UInt32) : List UInt32 := List.zipWith fnv mix data

section Cache

variable (K : Keccak)

def seedHash (block : UInt64) : Bytes :=
  (fun seed => (K.keccak256 seed).val)^[(block / epochLength).toNat] (List.replicate 32 0)

/-- The first rows of a cache, each the hash of the one before. -/
def initialRows : ℕ → Bytes → List Bytes
  | 0, _ => []
  | n + 1, seed =>
    let row := (K.keccak512 seed).val
    row :: initialRows n row

/-- One row of a round: the row before it and a row that it names itself. -/
def mixRow (rows : List Bytes) (j : ℕ) : List Bytes :=
  let src := rows.getD ((j + rows.length - 1) % rows.length) []
  let xorOff := UInt32.ofNat (leNat ((rows.getD j []).take 4)) % UInt32.ofNat rows.length * 64
  let xor := rows.getD (xorOff.toNat / 64) []
  rows.set j (K.keccak512 (List.zipWith (· ^^^ ·) src xor)).val

def generateCache (size : UInt64) (seed : Bytes) : List UInt32 :=
  let rows := initialRows K (size / hashBytes).toNat seed
  let round (rows : List Bytes) : List Bytes := (List.range rows.length).foldl (mixRow K) rows
  deserialize (round^[cacheRounds] rows).flatten

variable (cache : List UInt32)

/-- One of the parents of a dataset item. -/
def mixParent (rows index : UInt32) (intMix : List UInt32) (i : ℕ) :
    List UInt32 :=
  let parent := fnv (index ^^^ UInt32.ofNat i) (intMix.getD (i % hashWords) 0) % rows
  fnvHash intMix (cache.drop (parent * 16).toNat)

def generateDatasetItem (index : UInt32) : Result Bytes := do
  let rows := UInt32.ofNat (cache.length / hashWords)
  failIf (rows = 0) (.panic "integer divide by zero")
  let row := (cache.drop (index % rows * 16).toNat).take hashWords
  let mix := K.keccak512 (serialize (row.modifyHead (· ^^^ index)))
  let intMix := (List.range datasetParents).foldl (mixParent cache rows index) (deserialize mix.val)
  return (K.keccak512 (serialize intMix)).val

def lookup (index : UInt32) : Result (List UInt32) := do
  return deserialize (← generateDatasetItem K cache index)

end Cache

variable (K : Keccak)

/-- One access to the dataset. -/
def mixAccess (cache : List UInt32) (rows seedHead : UInt32) (mix : List UInt32) (i : ℕ) :
    Result (List UInt32) := do
  let parent := fnv (UInt32.ofNat i ^^^ seedHead) (mix.getD (i % mix.length) 0) % rows
  let low ← lookup K cache (2 * parent)
  let high ← lookup K cache (2 * parent + 1)
  return fnvHash mix (low ++ high)

def compress : List UInt32 → List UInt32
  | a :: b :: c :: d :: rest => fnv (fnv (fnv a b) c) d :: compress rest
  | _ => []

/-- The digest of the mix and the hash to be compared with the target. -/
def hashimoto (size : UInt64) (cache : List UInt32) (headerHash nonce : Bytes) :
    Result (Bytes × Uint256) := do
  let seed := (K.keccak512 (headerHash ++ nonce.reverse)).val
  let words := deserialize seed
  let rows := (size / mixBytes).toUInt32
  failIf (rows = 0) (.panic "integer divide by zero")
  let mix ← (List.range loopAccesses).foldlM (mixAccess K cache rows (words.headD 0))
    (words ++ words)
  let digest := serialize (compress mix)
  return (digest, K.keccak256 (seed ++ digest))

end Poly.HeaderSync.Eth
