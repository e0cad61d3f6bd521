import Poly.Governance.Peers
import Poly.Ledger.VerifyHeader
import Poly.Vbft.Messages

/-! The chain configuration made from the peers of the governance contract, and the participants
of a round chosen from it. -/
namespace Poly.Vbft

open Lib Native Governance List
open Ledger (PeerConfig)

section Genesis

def SCALE : ℕ := 15

def DEFAULT_POS : ℕ := 100000

structure VBFTPeerInfo where
  index : UInt32
  peerPubkey : Bytes
  deriving DecidableEq

/-- The delays are in milliseconds and seconds. -/
structure VBFTConfig where
  blockMsgDelay : UInt32
  hashMsgDelay : UInt32
  peerHandshakeTimeout : UInt32
  maxBlockChangeView : UInt32
  deriving DecidableEq

/-- The delays are in nanoseconds. -/
structure ChainConfig where
  version : UInt32
  view : UInt32
  n : ℕ
  c : ℕ
  blockMsgDelay : ℕ
  hashMsgDelay : ℕ
  peerHandshakeTimeout : ℕ
  peers : List PeerConfig
  posTable : List UInt32
  maxBlockChangeView : UInt32

/-- The FNV-1a hash of 64 bits. -/
def fnv64a (data : Bytes) : UInt64 :=
  data.foldl (fun h b => (h ^^^ UInt64.ofNat b.toNat) * 1099511628211) 14695981039346656037

/-- The JSON text of a height, a node id and an index. -/
abbrev ShuffleText := UInt32 → Bytes → ℕ → Bytes

variable (marshal : ShuffleText)

def shuffleHash (height : UInt32) (id : Bytes) (idx : ℕ) : UInt64 := fnv64a (marshal height id idx)

/-- The share of a peer in the table: its quotient of floats is exact. -/
def peerRank (k : ℕ) : ℕ :=
  let sum := k * DEFAULT_POS
  (DEFAULT_POS * SCALE * k + (sum - 1)) / sum

def chainPeers (peers : List VBFTPeerInfo) : OrderedMap UInt32 PeerConfig :=
  peers.foldl (fun m p => m.insert p.index ⟨p.index, p.peerPubkey⟩) OrderedMap.empty

/-- The table before it is shuffled. -/
def initPosTable (peers : List VBFTPeerInfo) : List UInt32 :=
  peers.flatMap fun p => List.replicate (peerRank peers.length) p.index

/-- Every entry of the table is an index of the map. -/
def nodeId (peers : OrderedMap UInt32 PeerConfig) (index : UInt32) : Bytes :=
  ((peers.get index).map PeerConfig.id).getD []

def shuffleStep (height : UInt32) (peers : OrderedMap UInt32 PeerConfig) (posTable : Array UInt32)
    (i : ℕ) : Array UInt32 :=
  let h := shuffleHash marshal height (nodeId peers (posTable.getD i 0)) i
  posTable.swapIfInBounds i (h.toNat % i)

/-- From the last position down to the second. -/
def shuffle (height : UInt32) (peers : OrderedMap UInt32 PeerConfig) (posTable : List UInt32) :
    List UInt32 :=
  (((List.range posTable.length).drop 1).reverse.foldl (shuffleStep marshal height peers)
    posTable.toArray).toList

def genesisChainConfig (conf : VBFTConfig) (peers : List VBFTPeerInfo) (height : UInt32) :
    ChainConfig :=
  let byIndex := chainPeers peers
  { version := 1
    view := 1
    n := peers.length
    c := peers.length / 3
    blockMsgDelay := conf.blockMsgDelay.toNat * 1000000
    hashMsgDelay := conf.hashMsgDelay.toNat * 1000000
    peerHandshakeTimeout := conf.peerHandshakeTimeout.toNat * 1000000000
    peers := peers.map fun p => (byIndex.get p.index).getD ⟨p.index, []⟩
    posTable := shuffle marshal height byIndex (initPosTable peers)
    maxBlockChangeView := conf.maxBlockChangeView }

end Genesis

section Governance

/-- A value of the contract, in the write set of a block or else in the store. -/
def getStorageValue (db : OverlayDB) (key : Bytes) : Result Bytes := do
  let raw ← orFail (db.get (ST_STORAGE :: key)) (.error "not found")
  getValueFromRawStorageItem raw

def getVbftConfigInfo (db : OverlayDB) : Result VBFTConfig := do
  let data ← getStorageValue db (nodeKey [VBFT_CONFIG])
  let cfg ← decode Configuration.deserialization data
  return ⟨cfg.blockMsgDelay, cfg.hashMsgDelay, cfg.peerHandshakeTimeout, cfg.maxBlockChangeView⟩

def getGovernanceView (db : OverlayDB) : Result GovernanceView := do
  let value ← getStorageValue db (nodeKey [GOVERNANCE_VIEW])
  decode GovernanceView.deserialization value

def getPeerPool (db : OverlayDB) : Result PeerPoolMap := do
  let goveranceview ← getGovernanceView db
  let data ← getStorageValue db (nodeKey [PEER_POOL, getUint32Bytes goveranceview.view])
  decode PeerPoolMap.deserialization data

/-- The items of a map in the order that one iteration takes; any permutation is possible. -/
abbrev Iteration := List (Bytes × PeerPoolItem) → List (Bytes × PeerPoolItem)

/-- The candidates and the consensus nodes. -/
def peerStakes (items : List (Bytes × PeerPoolItem)) : List VBFTPeerInfo :=
  (items.filter fun x => x.2.status = CandidateStatus ∨ x.2.status = ConsensusStatus).map fun x =>
    ⟨x.2.index, x.2.peerPubkey⟩

variable (order : Iteration) (marshal : ShuffleText)

def getPeersConfig (db : OverlayDB) : Result (List VBFTPeerInfo) := do
  let peerMap ← getPeerPool db
  return peerStakes (order peerMap.entries)

def getChainConfig (db : OverlayDB) (blkNum : UInt32) : Result ChainConfig := do
  let config ← wrapError "failed to get chainconfig from leveldb: " (getVbftConfigInfo db)
  let peersinfo ← wrapError "failed to get peersinfo from leveldb: " (getPeersConfig order db)
  let goverview ← wrapError "failed to get governanceview failed:" (getGovernanceView db)
  return { genesisChainConfig marshal config peersinfo blkNum with view := goverview.view }

end Governance

variable {marshal : ShuffleText} {conf : VBFTConfig} {peers : List VBFTPeerInfo} {height : UInt32}

/-- The parts of a configuration that the peers of a round are chosen by. -/
structure SameConfig (a b : ChainConfig) : Prop where
  n_eq : a.n = b.n
  c_eq : a.c = b.c
  posTable_eq : a.posTable = b.posTable
  peers_eq : a.peers = b.peers

/-- The last peer of the list is the last one of the configuration, whatever its index. -/
theorem genesisChainConfig_peers_concat (marshal : ShuffleText) (conf : VBFTConfig)
    (init : List VBFTPeerInfo) (z : VBFTPeerInfo) (height : UInt32) :
    (genesisChainConfig marshal conf (init ++ [z]) height).peers.getLast? =
      some ⟨z.index, z.peerPubkey⟩ := by
  have hlast : (chainPeers (init ++ [z])).get z.index = some ⟨z.index, z.peerPubkey⟩ := by
    rw [chainPeers, foldl_append]
    exact (OrderedMap.get_insert ..).trans (if_pos rfl)
  simp [genesisChainConfig, hlast]

/-- With two peers or more, turning the list round changes the configuration. -/
theorem length_le_one_of_reverse (hkeys : (peers.map VBFTPeerInfo.peerPubkey).Nodup)
    (h : SameConfig (genesisChainConfig marshal conf peers height)
      (genesisChainConfig marshal conf peers.reverse height)) : peers.length ≤ 1 := by
  cases peers with
  | nil => exact Nat.zero_le _
  | cons a rest =>
    cases rest using List.reverseRecOn with
    | nil => exact Nat.le_refl _
    | append_singleton mid z =>
      have hrev : (a :: (mid ++ [z])).reverse = z :: mid.reverse ++ [a] := by simp
      rw [hrev, show a :: (mid ++ [z]) = a :: mid ++ [z] from rfl] at h
      have hlast := congrArg List.getLast? h.peers_eq
      rw [genesisChainConfig_peers_concat, genesisChainConfig_peers_concat] at hlast
      have heq := (PeerConfig.mk.inj (Option.some.inj hlast)).2
      have hnot := (nodup_cons.mp hkeys).1
      exact absurd (mem_map.mpr ⟨z, by simp, heq⟩) hnot

theorem genesisChainConfig_perm_iff (hkeys : (peers.map VBFTPeerInfo.peerPubkey).Nodup) :
    (∀ peers', peers'.Perm peers → SameConfig (genesisChainConfig marshal conf peers height)
      (genesisChainConfig marshal conf peers' height)) ↔ peers.length ≤ 1 := by
  constructor
  · intro h
    exact length_le_one_of_reverse hkeys (h _ (reverse_perm peers))
  · intro hlen peers' hperm
    have heq : peers' = peers := by
      cases peers with
      | nil => exact hperm.eq_nil
      | cons a rest =>
        obtain rfl : rest = [] := eq_nil_of_length_eq_zero (by simpa using hlen)
        exact perm_singleton.mp hperm
    subst heq
    exact ⟨rfl, rfl, rfl, rfl⟩

variable {pool : PeerPoolMap}

theorem getPeerPool_keyed {db} (h : getPeerPool db = .ok pool) :
    ∀ x ∈ pool.entries, x.1 = x.2.peerPubkey := by
  obtain ⟨view, -, h⟩ := bind_ok.mp h
  obtain ⟨data, -, h⟩ := bind_ok.mp h
  obtain ⟨⟨pool', rest⟩, hread, h⟩ := bind_ok.mp h
  cases h
  obtain ⟨n, bs, -, hread⟩ := run_bind_ok.mp hread
  obtain ⟨items, bs', -, hread⟩ := run_bind_ok.mp hread
  cases hread
  have hfold : ∀ (l : List PeerPoolItem) (m : PeerPoolMap),
      (∀ x ∈ m.entries, x.1 = x.2.peerPubkey) →
      ∀ x ∈ (l.foldl (fun m item => m.insert item.peerPubkey item) m).entries,
        x.1 = x.2.peerPubkey := by
    intro l
    induction l with
    | nil => exact fun m hm => hm
    | cons item l ih =>
      intro m hm
      refine ih _ fun x hx => ?_
      rcases OrderedMap.mem_insertEntry hx with rfl | hx
      · rfl
      · exact hm x hx
  exact hfold items _ nofun

theorem peerStakes_keys_nodup {db} (h : getPeerPool db = .ok pool) :
    ((peerStakes pool.entries).map VBFTPeerInfo.peerPubkey).Nodup := by
  have hkeyed := getPeerPool_keyed h
  have heq : (peerStakes pool.entries).map VBFTPeerInfo.peerPubkey =
      (pool.entries.filter fun x =>
        x.2.status = CandidateStatus ∨ x.2.status = ConsensusStatus).map Prod.fst := by
    rw [peerStakes, map_map]
    apply map_congr_left
    intro x hx
    exact (hkeyed x (mem_of_mem_filter hx)).symm
  rw [heq]
  exact (OrderedMap.keys_nodup pool).sublist (filter_sublist.map Prod.fst)

theorem getChainConfig_run {db} (hconf : getVbftConfigInfo db = .ok conf)
    (hpool : getPeerPool db = .ok pool) (marshal : ShuffleText) (height : UInt32) :
    ∃ view, ∀ order, getChainConfig order marshal db height =
      .ok { genesisChainConfig marshal conf (peerStakes (order pool.entries)) height with
        view := view } := by
  obtain ⟨goverview, hview, -⟩ := bind_ok.mp hpool
  refine ⟨goverview.view, fun order => ?_⟩
  simp only [getChainConfig, getPeersConfig, hconf, hpool, hview]
  rfl

/-- The configuration that a node derives from the governance state is the same for all orders of
iteration over the pool exactly if one peer at most is a candidate or a consensus node; and so it
is with the permutations of a list of peers. -/
theorem chainConfig_order_iff {db : OverlayDB} {pool : PeerPoolMap}
    (hconf : getVbftConfigInfo db = .ok conf) (hpool : getPeerPool db = .ok pool)
    (marshal : ShuffleText) (height : UInt32) :
    ((∀ (order order' : Iteration) cfg cfg', (order pool.entries).Perm pool.entries →
      (order' pool.entries).Perm pool.entries → getChainConfig order marshal db height = .ok cfg →
      getChainConfig order' marshal db height = .ok cfg' → SameConfig cfg cfg') ↔
        (peerStakes pool.entries).length ≤ 1) ∧
    ∀ peers : List VBFTPeerInfo, (peers.map VBFTPeerInfo.peerPubkey).Nodup →
      ((∀ peers', peers'.Perm peers → SameConfig (genesisChainConfig marshal conf peers height)
        (genesisChainConfig marshal conf peers' height)) ↔ peers.length ≤ 1) := by
  obtain ⟨view, hrun⟩ := getChainConfig_run hconf hpool marshal height
  refine ⟨⟨fun h => ?_, fun hlen order order' cfg cfg' ho ho' hc hc' => ?_⟩,
    fun peers hkeys => genesisChainConfig_perm_iff hkeys⟩
  · have hsame := h id List.reverse _ _ (List.Perm.refl _) (reverse_perm _) (hrun id)
      (hrun List.reverse)
    have hrev : peerStakes pool.entries.reverse = (peerStakes pool.entries).reverse := by
      rw [peerStakes, peerStakes, filter_reverse, map_reverse]
    have hturned : SameConfig (genesisChainConfig marshal conf (peerStakes pool.entries) height)
        (genesisChainConfig marshal conf (peerStakes pool.entries).reverse height) := by
      rw [← hrev]
      exact ⟨hsame.n_eq, hsame.c_eq, hsame.posTable_eq, hsame.peers_eq⟩
    exact length_le_one_of_reverse (peerStakes_keys_nodup hpool) hturned
  · cases ok_unique (hrun order) hc
    cases ok_unique (hrun order') hc'
    have hinv : ∀ peers', peers'.Perm (peerStakes pool.entries) →
        SameConfig (genesisChainConfig marshal conf (peerStakes pool.entries) height)
          (genesisChainConfig marshal conf peers' height) :=
      (genesisChainConfig_perm_iff (peerStakes_keys_nodup hpool)).mpr hlen
    have hperm : ∀ {l}, l.Perm pool.entries → (peerStakes l).Perm (peerStakes pool.entries) :=
      fun hl => (hl.filter _).map _
    have h₁ := hinv _ (hperm ho)
    have h₂ := hinv _ (hperm ho')
    exact ⟨h₁.n_eq.symm.trans h₂.n_eq, h₁.c_eq.symm.trans h₂.c_eq,
      h₁.posTable_eq.symm.trans h₂.posTable_eq, h₁.peers_eq.symm.trans h₂.peers_eq⟩

def sampleMarshal : ShuffleText := fun height id idx =>
  UInt8.ofNat height.toNat :: UInt8.ofNat idx :: id

def samplePeer (id : UInt8) : PeerPoolItem :=
  ⟨UInt32.ofNat id.toNat, [id], Address.empty, ConsensusStatus⟩

def samplePool : PeerPoolMap :=
  (OrderedMap.empty.insert [1] (samplePeer 1)).insert [2] (samplePeer 2)

/-- The governance contract in its first view, with two consensus nodes. -/
def sampleGovernance : OverlayDB :=
  OverlayDB.new (((OrderedMap.empty.insert (ST_STORAGE :: nodeKey [VBFT_CONFIG])
    (genRawStorageItem (Configuration.serialization ⟨5000, 5000, 10, 10000⟩))).insert
    (ST_STORAGE :: nodeKey [GOVERNANCE_VIEW])
    (genRawStorageItem (GovernanceView.serialization ⟨1, 0, Uint256.empty⟩))).insert
    (ST_STORAGE :: nodeKey [PEER_POOL, getUint32Bytes 1])
    (genRawStorageItem (Sink.writeVarUint 2 ++ (samplePeer 2).serialization ++
      (samplePeer 1).serialization)))

theorem sampleGovernance_conf :
    getVbftConfigInfo sampleGovernance = .ok ⟨5000, 5000, 10, 10000⟩ := by
  decide +kernel

theorem sampleGovernance_pool : getPeerPool sampleGovernance = .ok samplePool := by
  decide +kernel

/-- Two nodes that iterate over the pool in different orders obtain different tables and peers. -/
theorem chainConfig_orders_differ :
    ∃ cfg cfg', getChainConfig id sampleMarshal sampleGovernance 1 = .ok cfg ∧
      getChainConfig List.reverse sampleMarshal sampleGovernance 1 = .ok cfg' ∧
      cfg.n = cfg'.n ∧ cfg.c = cfg'.c ∧ cfg.posTable ≠ cfg'.posTable ∧ cfg.peers ≠ cfg'.peers := by
  obtain ⟨view, hrun⟩ :=
    getChainConfig_run sampleGovernance_conf sampleGovernance_pool sampleMarshal 1
  refine ⟨_, _, hrun id, hrun List.reverse, ?_⟩
  dsimp only [id]
  have htable : (genesisChainConfig sampleMarshal ⟨5000, 5000, 10, 10000⟩
      (peerStakes samplePool.entries) 1).posTable ≠ (genesisChainConfig sampleMarshal
        ⟨5000, 5000, 10, 10000⟩ (peerStakes samplePool.entries.reverse) 1).posTable := by
    decide +kernel
  have hids : (genesisChainConfig sampleMarshal ⟨5000, 5000, 10, 10000⟩
      (peerStakes samplePool.entries) 1).peers.map PeerConfig.id ≠ (genesisChainConfig
        sampleMarshal ⟨5000, 5000, 10, 10000⟩
          (peerStakes samplePool.entries.reverse) 1).peers.map PeerConfig.id := by
    decide +kernel
  exact ⟨rfl, rfl, htable, fun hpeers => hids (congrArg (List.map PeerConfig.id) hpeers)⟩

theorem chainConfig_order_iff_two :
    ¬ ∀ (order order' : Iteration) cfg cfg', (order samplePool.entries).Perm samplePool.entries →
      (order' samplePool.entries).Perm samplePool.entries →
      getChainConfig order sampleMarshal sampleGovernance 1 = .ok cfg →
      getChainConfig order' sampleMarshal sampleGovernance 1 = .ok cfg' → SameConfig cfg cfg' := by
  rw [(chainConfig_order_iff sampleGovernance_conf sampleGovernance_pool sampleMarshal 1).1]
  decide

end Poly.Vbft
