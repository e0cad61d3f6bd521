import Poly.Core.MerkleRoot
import Poly.Core.Reencoding
import Poly.Core.Stream
import Poly.CrossChain.Provable
import Poly.CrossChain.Replay
import Poly.CrossChain.MultiSign
import Poly.Governance.Params
import Poly.Governance.Records
import Poly.Ledger.Clock
import Poly.Ledger.Concurrent
import Poly.Ledger.Determinism
import Poly.Ledger.Sequential
import Poly.Merkle.Completeness
import Poly.Store.ChangeHash
import Poly.TxPool.Slots
import Poly.Validator.Increment
import Poly.Vbft.ChainStore
import Poly.Vbft.FaultBound
import Poly.Vbft.Sealing
import Poly.Vbft.Syncer
import Poly.Governance.Operator
import Poly.CrossChain.Votes
import Poly.CrossChain.Evm
import Poly.CrossChain.Starcoin
import Poly.Native.Crashes
import Poly.Vbft.Rounds
import Poly.Vbft.Tallies
