import Poly.Core.Signature
import Poly.Lib.OrderedMap

/-! Header verification: the quorum of bookkeepers behind every header the ledger accepts. -/
namespace Poly.Ledger

open Lib List

/-- Peers by the hex text of their public key, with their index. -/
abbrev PeerInfo := OrderedMap Bytes UInt32

structure PeerConfig where
  index : UInt32
  id : Bytes

/-- The part of the consensus payload that header verification reads. -/
structure VbftBlockInfo where
  newChainConfig : Option (List PeerConfig)

/-- What verification reads of the node: its configuration, its stores and the JSON decoder. -/
structure HeaderEnv (K : Keys) where
  sha256 : Bytes → Uint256
  ripemd160 : Bytes → Address
  consensusType : String
  networkId : UInt32
  currentHeaderHeight : UInt32
  getHeaderByHash : Uint256 → Result (Option (Header K))
  vbftBlock : Header K → Result VbftBlockInfo

def NETWORK_ID_MAIN_NET : UInt32 := 1

variable {K : Keys}

def pubkeyID (K : Keys) (pub : K.PublicKey) : Bytes := hexEncode (K.serializePublicKey pub)

/-- The rule with the fix for small and old networks off. -/
def strictRule (env : HeaderEnv K) : Prop :=
  ¬ (NETWORK_ID_MAIN_NET ≠ env.networkId ∨ env.currentHeaderHeight ≤ 20000000)

instance (env : HeaderEnv K) : Decidable (strictRule env) := inferInstanceAs (Decidable (¬ _))

/-- The number of signatures asked for; Go's division rounds towards zero. -/
def quorum (strict : Bool) (n : ℤ) : ℤ :=
  if strict then n - (n - 1).tdiv 3 else n - (n * 6).tdiv 7

/-- The loop over the bookkeepers, with the keys used so far. -/
def checkBookkeepers (peers : PeerInfo) : List K.PublicKey → List Bytes → Result Unit
  | [], _ => .ok ()
  | bookkeeper :: rest, used => do
    let pubkey := pubkeyID K bookkeeper
    failIf (peers.get pubkey = none ∨ pubkey ∈ used) (.error ("invalid pubkey :" ++ text pubkey))
    checkBookkeepers peers rest (pubkey :: used)

def peerInfoOf (peers : List PeerConfig) : PeerInfo :=
  peers.foldl (fun info p => info.insert p.id p.index) OrderedMap.empty

def verifyHeader (env : HeaderEnv K) (header : Header K) (peers : PeerInfo) : Result PeerInfo :=
  if header.height = 0 then .ok peers
  else do
    let found ← wrapError "get prev header error " (env.getHeaderByHash header.prevBlockHash)
    let prevHeader ← orFail found (.error
      ("cannot find pre header by blockHash " ++ toHex header.prevBlockHash.val.reverse))
    failIf (prevHeader.height + 1 ≠ header.height) (.error "block height is incorrect")
    failIf (prevHeader.timestamp ≥ header.timestamp) (.error "block timestamp is incorrect")
    if env.consensusType.toLower = "vbft" then
      let m := quorum (decide (strictRule env)) peers.size
      failIf (header.bookkeepers.length < m) (.error
        s!"header Bookkeepers {header.bookkeepers.length} more than 2/3 len vbftPeerInfo{peers.size}")
      checkBookkeepers peers header.bookkeepers []
      let hash ← header.hash env.sha256
      verifyMultiSignature K hash.val header.bookkeepers m.toNat header.sigData
      let blkInfo ← env.vbftBlock header
      match blkInfo.newChainConfig with
      | some config => return peerInfoOf config
      | none => return peers
    else
      failIf (prevHeader.nextBookkeeper ≠
          addressFromBookkeepers K env.sha256 env.ripemd160 header.bookkeepers)
        (.error "bookkeeper address error")
      let n : ℤ := header.bookkeepers.length
      let hash ← header.hash env.sha256
      verifyMultiSignature K hash.val header.bookkeepers (n - (n - 1).tdiv 3).toNat header.sigData
      return peers

/-- A key of the header that signed its hash. -/
def SignedHeader (env : HeaderEnv K) (header : Header K) (key : K.PublicKey) : Prop :=
  key ∈ header.bookkeepers ∧
    ∃ hash, header.hash env.sha256 = .ok hash ∧ Signed K hash.val header.sigData key

open Classical in
/-- The members of the peer map whose key signed the header. -/
noncomputable def signers (env : HeaderEnv K) (header : Header K) (peers : PeerInfo) :
    Finset Bytes :=
  {id ∈ peers.keys.toFinset | ∃ key, pubkeyID K key = id ∧ SignedHeader env header key}

variable {env : HeaderEnv K} {peers : PeerInfo}

theorem mem_signers {header id} :
    id ∈ signers env header peers ↔
      id ∈ peers.keys ∧ ∃ key, pubkeyID K key = id ∧ SignedHeader env header key := by
  simp [signers]

theorem signers_subset (env : HeaderEnv K) (header : Header K) (peers : PeerInfo) :
    signers env header peers ⊆ peers.keys.toFinset := by
  intro id hid
  exact mem_toFinset.mpr (mem_signers.mp hid).1

theorem card_keys (peers : PeerInfo) : peers.keys.toFinset.card = peers.size := by
  rw [toFinset_card_of_nodup peers.keys_nodup, OrderedMap.keys, length_map]
  rfl

/-- Every bookkeeper that passes the loop is a peer and stands in the list once. -/
theorem checkBookkeepers_ok {keys used} (h : checkBookkeepers peers keys used = .ok ()) :
    (keys.map (pubkeyID K)).Nodup ∧
      ∀ key ∈ keys, pubkeyID K key ∈ peers.keys ∧ pubkeyID K key ∉ used := by
  induction keys generalizing used with
  | nil => simp
  | cons key keys ih =>
    obtain ⟨_, hc, h⟩ := bind_ok.mp h
    obtain ⟨hnd, hkeys⟩ := ih h
    have hc := not_or.mp (failIf_ok.mp hc)
    constructor
    · rw [map_cons, nodup_cons]
      refine ⟨?_, hnd⟩
      intro hm
      obtain ⟨k, hk, he⟩ := mem_map.mp hm
      exact (hkeys k hk).2 (by rw [he]; exact mem_cons_self)
    · intro k hk
      rcases mem_cons.mp hk with rfl | hk
      · exact ⟨OrderedMap.mem_keys.mpr (Option.ne_none_iff_exists'.mp hc.1), hc.2⟩
      · exact ⟨(hkeys k hk).1, fun hu => (hkeys k hk).2 (mem_cons_of_mem _ hu)⟩

/-- Header verification in VBFT mode under the strict rule. -/
def StrictVbft (env : HeaderEnv K) : Prop :=
  env.consensusType.toLower = "vbft" ∧ strictRule env

/-- What acceptance in VBFT mode checked of a header above the genesis block. -/
theorem verifyHeader_ok {header peers'} (hv : StrictVbft env) (hh : header.height ≠ 0)
    (h : verifyHeader env header peers = .ok peers') :
    checkBookkeepers peers header.bookkeepers [] = .ok () ∧
      ∃ hash, header.hash env.sha256 = .ok hash ∧
        verifyMultiSignature K hash.val header.bookkeepers (quorum true peers.size).toNat
          header.sigData = .ok () := by
  rw [verifyHeader, if_neg hh] at h
  obtain ⟨found, -, h⟩ := bind_ok.mp h
  obtain ⟨prevHeader, -, h⟩ := bind_ok.mp h
  obtain ⟨_, -, h⟩ := bind_ok.mp h
  obtain ⟨_, -, h⟩ := bind_ok.mp h
  rw [if_pos hv.1, decide_eq_true hv.2] at h
  obtain ⟨_, -, h⟩ := bind_ok.mp h
  obtain ⟨⟨⟩, hb, h⟩ := bind_ok.mp h
  obtain ⟨hash, hhash, h⟩ := bind_ok.mp h
  obtain ⟨⟨⟩, hsig, -⟩ := bind_ok.mp h
  exact ⟨hb, hash, hhash, hsig⟩

theorem quorum_le_card_signers {header peers'} (hv : StrictVbft env) (hh : header.height ≠ 0)
    (h : verifyHeader env header peers = .ok peers') :
    quorum true peers.size ≤ (signers env header peers).card := by
  obtain ⟨hb, hash, hhash, hsig⟩ := verifyHeader_ok hv hh h
  obtain ⟨hnd, hpeers⟩ := checkBookkeepers_ok hb
  obtain ⟨js, hlen, hjs, hkeys⟩ := verifyMultiSignature_ok hsig
  -- different positions of the bookkeeper list are different members of the peer map
  let ids := header.bookkeepers.map (pubkeyID K)
  have hsub : (js.map fun j => ids.getD j []).toFinset ⊆ signers env header peers := by
    intro id hid
    obtain ⟨j, hj, rfl⟩ := mem_map.mp (mem_toFinset.mp hid)
    obtain ⟨key, hkey, hs⟩ := hkeys j hj
    have hm : key ∈ header.bookkeepers := mem_of_getElem? hkey
    have hid : ids.getD j [] = pubkeyID K key := by simp [ids, List.getD, hkey]
    rw [hid]
    exact mem_signers.mpr ⟨(hpeers key hm).1, key, rfl, hm, hash, hhash, hs⟩
  have hinj : (js.map fun j => ids.getD j []).Nodup := by
    refine hjs.map_on fun i hi j hj he => ?_
    obtain ⟨ki, hki, -⟩ := hkeys i hi
    obtain ⟨kj, hkj, -⟩ := hkeys j hj
    have hi' : i < ids.length := by simpa [ids] using (List.getElem?_eq_some_iff.mp hki).1
    have hj' : j < ids.length := by simpa [ids] using (List.getElem?_eq_some_iff.mp hkj).1
    simp only [List.getD, getElem?_eq_getElem hi', getElem?_eq_getElem hj',
      Option.getD_some] at he
    exact (hnd.getElem_inj_iff).mp he
  have hcard := Finset.card_le_card hsub
  rw [toFinset_card_of_nodup hinj, length_map] at hcard
  omega

/-- Two sets of at least the strict quorum out of one peer map overlap in more than a third. -/
theorem quorum_overlap {A B} (hA : A ⊆ peers.keys.toFinset) (hB : B ⊆ peers.keys.toFinset)
    (ha : quorum true peers.size ≤ A.card) (hb : quorum true peers.size ≤ B.card) :
    (peers.size : ℤ) - 1 < 3 * (A ∩ B).card := by
  have hunion := Finset.card_le_card (Finset.union_subset hA hB)
  have hsum := Finset.card_union_add_card_inter A B
  rw [card_keys] at hunion
  simp only [quorum, if_true] at ha hb
  rcases Nat.eq_zero_or_pos peers.size with hz | hpos
  · omega
  · have hdiv : ((peers.size : ℤ) - 1).tdiv 3 = ((peers.size : ℤ) - 1) / 3 :=
      Int.tdiv_eq_ediv_of_nonneg (by omega)
    omega

/-- Above the genesis block, every header accepted under the strict rule is signed by a quorum of
the peer map, and any two headers accepted for one peer map have more than a third of it in
common. -/
theorem verifyHeader_strict_quorum {env : HeaderEnv K} {header : Header K}
    {peers peers' : PeerInfo} (hv : StrictVbft env) (hh : header.height ≠ 0)
    (h : verifyHeader env header peers = .ok peers') :
    quorum true peers.size ≤ (signers env header peers).card ∧
      ∀ (env₂ : HeaderEnv K) (header₂ : Header K) (peers₂ : PeerInfo), StrictVbft env₂ →
        header₂.height ≠ 0 → verifyHeader env₂ header₂ peers = .ok peers₂ →
        (peers.size : ℤ) - 1 <
          3 * (signers env header peers ∩ signers env₂ header₂ peers).card := by
  have hq := quorum_le_card_signers hv hh h
  refine ⟨hq, fun env₂ header₂ peers₂ hv₂ hh₂ h₂ => ?_⟩
  exact quorum_overlap (signers_subset _ _ _) (signers_subset _ _ _) hq
    (quorum_le_card_signers hv₂ hh₂ h₂)

def sampleHeader (height timestamp : UInt32) (bookkeepers sigData : List Bytes) :
    Header openKeys :=
  ⟨⟨0, 0, Uint256.empty, Uint256.empty, Uint256.empty, Uint256.empty, timestamp, height, 0, [],
    Address.empty⟩, bookkeepers, sigData⟩

def sampleEnv : HeaderEnv openKeys where
  sha256 := zeroPad 32
  ripemd160 := zeroPad 20
  consensusType := "vbft"
  networkId := 1
  currentHeaderHeight := 20000001
  getHeaderByHash _ := .ok (some (sampleHeader 0 0 [] []))
  vbftBlock _ := .ok ⟨none⟩

def samplePeers : PeerInfo := OrderedMap.empty.insert (hexEncode [1]) 1

theorem sampleEnv_strict : StrictVbft sampleEnv := ⟨by decide +kernel, by decide⟩

/-- A header of height zero is accepted without any signature. -/
theorem verifyHeader_height_zero_unsigned :
    ¬ ∀ (env : HeaderEnv openKeys) (header : Header openKeys) (peers peers' : PeerInfo),
      StrictVbft env → verifyHeader env header peers = .ok peers' →
        quorum true peers.size ≤ (signers env header peers).card := by
  intro hall
  have h := hall sampleEnv (sampleHeader 0 0 [] []) samplePeers samplePeers sampleEnv_strict rfl
  have hempty : signers sampleEnv (sampleHeader 0 0 [] []) samplePeers = ∅ := by
    refine Finset.eq_empty_of_forall_notMem fun id hid => ?_
    obtain ⟨-, key, -, hm, -⟩ := mem_signers.mp hid
    exact not_mem_nil hm
  rw [hempty] at h
  exact absurd h (by decide)

theorem verifyHeader_strict_quorum_single :
    verifyHeader sampleEnv (sampleHeader 1 1 [[1]] [[7]]) samplePeers = .ok samplePeers ∧
      quorum true samplePeers.size ≤
        (signers sampleEnv (sampleHeader 1 1 [[1]] [[7]]) samplePeers).card := by
  have h : verifyHeader sampleEnv (sampleHeader 1 1 [[1]] [[7]]) samplePeers = .ok samplePeers := by
    decide +kernel
  exact ⟨h, (verifyHeader_strict_quorum sampleEnv_strict (by decide) h).1⟩

end Poly.Ledger
