import Poly.HeaderSync.Ont

/-! How many consensus peers stand behind an accepted message or header of Ontology: as many as the
bookkeepers that it lists, which need not be two thirds of the peers. -/
namespace Poly.HeaderSync.Ont

open Lib Native Source Sink List
open Ledger (pubkeyID)

section Quorum

/-- The consensus peers that a message or header of a height is checked with. -/
def PeersAt (s : NativeService) (chainID : UInt64) (height : UInt32) (peers : ConsensusPeers) :
    Prop :=
  ∃ keyHeight, (findKeyHeight height chainID).run s = .ok (keyHeight, s) ∧
    (getConsensusPeersByHeight chainID keyHeight).run s = .ok (peers, s)

/-- The keys of a library with another predicate for signatures. -/
abbrev withVerify (K : Keys) (verify : K.PublicKey → Bytes → K.Signature → Bool) : Keys :=
  { K with verify := verify }

variable (K : Keys)

/-- Two thirds of the peers, each counted once, have a signature of the data. -/
def TwoThirds (peers : ConsensusPeers) (data : Bytes) (sigData : List Bytes) : Prop :=
  ∃ ids : Finset Bytes, 2 * peers.peerMap.size ≤ 3 * ids.card ∧ ∀ id ∈ ids,
    peers.peerMap.get id ≠ none ∧ ∃ key, pubkeyID K key = id ∧ Signed K data sigData key

/-- The different peers in a list of bookkeepers. -/
def listed (bookkeepers : List K.PublicKey) : Finset Bytes :=
  (bookkeepers.map (pubkeyID K)).toFinset

variable {K} {L : OntLib K.PublicKey} {s : NativeService} {chainID : UInt64}
  {peers : ConsensusPeers} {bookkeepers : List K.PublicKey}

theorem checkPresent_ok_iff {peerMap} :
    checkPresent K peerMap bookkeepers = .ok () ↔
      ∀ b ∈ bookkeepers, peerMap.get (pubkeyID K b) ≠ none := by
  induction bookkeepers with
  | nil => simp [checkPresent]
  | cons b rest ih =>
    simp [checkPresent, bind_ok, failIf_ok, ih, exists_const, ne_eq]

theorem checkUnused_ok_iff {peerMap used} :
    checkUnused K peerMap bookkeepers used = .ok () ↔
      (∀ b ∈ bookkeepers, peerMap.get (pubkeyID K b) ≠ none ∧ pubkeyID K b ∉ used) ∧
        (bookkeepers.map (pubkeyID K)).Nodup := by
  induction bookkeepers generalizing used with
  | nil => simp [checkUnused]
  | cons b rest ih =>
    simp only [checkUnused, bind_ok, failIf_ok, ih, exists_const, not_or,
      forall_mem_cons, map_cons, nodup_cons]
    constructor
    · rintro ⟨hb, hrest, hnodup⟩
      refine ⟨⟨hb, fun b' hb' => ⟨(hrest b' hb').1, ?_⟩⟩, ?_, hnodup⟩
      · intro hused
        exact (hrest b' hb').2 (mem_cons_of_mem _ hused)
      · intro hmem
        obtain ⟨b', hb', heq⟩ := mem_map.mp hmem
        exact (hrest b' hb').2 (heq ▸ mem_cons_self)
    · rintro ⟨⟨hb, hrest⟩, hnot, hnodup⟩
      refine ⟨hb, fun b' hb' => ⟨(hrest b' hb').1, fun hused => ?_⟩, hnodup⟩
      rcases mem_cons.mp hused with heq | hused
      · exact hnot (mem_map.mpr ⟨b', hb', heq⟩)
      · exact (hrest b' hb').2 hused

/-- The checks that both functions make once they have the peers. -/
theorem run_checks_ok {c : Prop} [Decidable c] {e context check sigs} :
    (∃ t, (do failIf c e; lift check; wrapM context (lift sigs) : NativeM Unit).run s =
      .ok ((), t)) ↔ ¬ c ∧ check = .ok () ∧ sigs = .ok () := by
  simp only [run_bind_ok, run_failIf_ok, run_wrapM_ok, run_lift_ok]
  constructor
  · rintro ⟨t, _, _, ⟨hc, rfl⟩, _, _, ⟨hcheck, rfl⟩, hsigs, -⟩
    exact ⟨hc, hcheck, hsigs⟩
  · rintro ⟨hc, hcheck, hsigs⟩
    exact ⟨s, (), s, ⟨hc, rfl⟩, (), s, ⟨hcheck, rfl⟩, hsigs, rfl⟩

/-- A message is accepted exactly if its bookkeepers are a third of the peers at least, are peers
and have all signed. -/
theorem verifyCrossChainMsg_ok_iff (msg : CrossChainMsg L.UnsignedMsg)
    (hpeers : PeersAt s chainID (L.msgHeight msg.unsigned) peers) :
    (∃ t, (verifyCrossChainMsg K L chainID msg bookkeepers).run s = .ok ((), t)) ↔
      ¬ bookkeepers.length * 3 < peers.peerMap.size ∧
        (∀ b ∈ bookkeepers, peers.peerMap.get (pubkeyID K b) ≠ none) ∧
        verifyMultiSignature K (L.msgHash msg.unsigned).val bookkeepers bookkeepers.length
          msg.sigData = .ok () := by
  obtain ⟨keyHeight, hheight, hread⟩ := hpeers
  rw [verifyCrossChainMsg, run_bind_of_ok (run_wrapM_ok.mpr hheight),
    run_bind_of_ok (run_wrapM_ok.mpr hread), run_checks_ok, checkPresent_ok_iff]

/-- A header is accepted exactly if, besides, no bookkeeper stands in the list twice. -/
theorem verifyHeader_ok_iff (header : OntHeader L.UnsignedHeader K.PublicKey)
    (hpeers : PeersAt s chainID (L.height header.unsigned) peers) :
    (∃ t, (verifyHeader K L chainID header).run s = .ok ((), t)) ↔
      ¬ header.bookkeepers.length * 3 < peers.peerMap.size ∧
        ((∀ b ∈ header.bookkeepers, peers.peerMap.get (pubkeyID K b) ≠ none) ∧
          (header.bookkeepers.map (pubkeyID K)).Nodup) ∧
        verifyMultiSignature K (L.hash header.unsigned).val header.bookkeepers
          header.bookkeepers.length header.sigData = .ok () := by
  obtain ⟨keyHeight, hheight, hread⟩ := hpeers
  rw [verifyHeader, run_bind_of_ok (run_wrapM_ok.mpr hheight),
    run_bind_of_ok (run_wrapM_ok.mpr hread), run_checks_ok, checkUnused_ok_iff]
  simp

theorem twoThirds_of_listed {data sigData}
    (henough : 2 * peers.peerMap.size ≤ 3 * (listed K bookkeepers).card)
    (hmem : ∀ b ∈ bookkeepers, peers.peerMap.get (pubkeyID K b) ≠ none)
    (hsig : verifyMultiSignature K data bookkeepers bookkeepers.length sigData = .ok ()) :
    TwoThirds K peers data sigData := by
  refine ⟨listed K bookkeepers, henough, fun id hid => ?_⟩
  obtain ⟨b, hb, rfl⟩ := mem_map.mp (mem_toFinset.mp hid)
  exact ⟨hmem b hb, b, rfl, signed_of_verifyMultiSignature hsig b hb⟩

/-- Signatures that nobody else can make. -/
def verifyListed (K : Keys) (bookkeepers : List K.PublicKey) :
    K.PublicKey → Bytes → K.Signature → Bool :=
  fun key _ _ => decide (pubkeyID K key ∈ listed K bookkeepers)

/-- With such signatures nobody but those who are listed stands behind the data. -/
theorem listed_of_twoThirds {data sigData}
    (h : TwoThirds (withVerify K (verifyListed K bookkeepers)) peers data sigData) :
    2 * peers.peerMap.size ≤ 3 * (listed K bookkeepers).card := by
  obtain ⟨ids, hcard, hids⟩ := h
  have hsub : ids ⊆ listed K bookkeepers := by
    intro id hid
    obtain ⟨-, key, rfl, raw, -, sig, -, hverify⟩ := hids id hid
    exact of_decide_eq_true hverify
  have hle := Finset.card_le_card hsub
  omega

theorem verifyListed_accepts {data raw sig} (hraw : K.deserializeSignature raw = .ok sig) :
    verifyMultiSignature (withVerify K (verifyListed K bookkeepers)) data bookkeepers
      bookkeepers.length (List.replicate bookkeepers.length raw) = .ok () := by
  apply verifyMultiSignature_of_all (K := withVerify K (verifyListed K bookkeepers)) _ hraw
  intro key hkey _
  exact decide_eq_true (mem_toFinset.mpr (mem_map.mpr ⟨key, hkey, rfl⟩))

/-- Whatever signatures are valid, two thirds of the peers stand behind what is accepted with a
list of bookkeepers exactly if the list holds two thirds of them, each counted once, or is refused:
for being shorter than a third, for a bookkeeper that is no peer, and, in a header, for one that
stands in it twice. Some bytes are taken to be the encoding of a signature. -/
theorem ontQuorum_iff (K : Keys) (hraw : ∃ raw sig, K.deserializeSignature raw = .ok sig)
    (L : OntLib K.PublicKey) (s : NativeService) (chainID : UInt64) (peers : ConsensusPeers)
    (bookkeepers : List K.PublicKey) :
    (∀ u, PeersAt s chainID (L.msgHeight u) peers →
      ((∀ verify sigData, (∃ t, (verifyCrossChainMsg (withVerify K verify) L chainID ⟨u, sigData⟩
          bookkeepers).run s = .ok ((), t)) →
        TwoThirds (withVerify K verify) peers (L.msgHash u).val sigData) ↔
      2 * peers.peerMap.size ≤ 3 * (listed K bookkeepers).card ∨
        bookkeepers.length * 3 < peers.peerMap.size ∨
        ∃ b ∈ bookkeepers, peers.peerMap.get (pubkeyID K b) = none)) ∧
    ∀ u, PeersAt s chainID (L.height u) peers →
      ((∀ verify sigData, (∃ t, (verifyHeader (withVerify K verify) L chainID
          ⟨u, bookkeepers, sigData⟩).run s = .ok ((), t)) →
        TwoThirds (withVerify K verify) peers (L.hash u).val sigData) ↔
      2 * peers.peerMap.size ≤ 3 * bookkeepers.length ∨
        bookkeepers.length * 3 < peers.peerMap.size ∨
        (∃ b ∈ bookkeepers, peers.peerMap.get (pubkeyID K b) = none) ∨
        ¬ (bookkeepers.map (pubkeyID K)).Nodup) := by
  obtain ⟨raw, sig, hraw⟩ := hraw
  constructor
  · intro u hpeers
    constructor
    · intro h
      by_contra hcond
      simp only [not_or, not_exists, not_and] at hcond
      obtain ⟨hfew, hthird, hmem⟩ := hcond
      have haccept := (verifyCrossChainMsg_ok_iff
        (K := withVerify K (verifyListed K bookkeepers)) (L := L)
        ⟨u, List.replicate bookkeepers.length raw⟩ hpeers).mpr
        ⟨hthird, hmem, verifyListed_accepts hraw⟩
      exact hfew (listed_of_twoThirds (h _ _ haccept))
    · intro hcond verify sigData haccept
      obtain ⟨hthird, hmem, hsig⟩ := (verifyCrossChainMsg_ok_iff (K := withVerify K verify) (L := L)
        ⟨u, sigData⟩ hpeers).mp haccept
      rcases hcond with henough | hshort | ⟨b, hb, hnone⟩
      · exact twoThirds_of_listed henough hmem hsig
      · exact absurd hshort hthird
      · exact absurd hnone (hmem b hb)
  · intro u hpeers
    constructor
    · intro h
      by_contra hcond
      simp only [not_or, not_exists, not_and, not_not] at hcond
      obtain ⟨hfew, hthird, hmem, hnodup⟩ := hcond
      have haccept := (verifyHeader_ok_iff
        (K := withVerify K (verifyListed K bookkeepers)) (L := L)
        ⟨u, bookkeepers, List.replicate bookkeepers.length raw⟩ hpeers).mpr
        ⟨hthird, ⟨hmem, hnodup⟩, verifyListed_accepts hraw⟩
      have hcard := listed_of_twoThirds (h _ _ haccept)
      rw [listed, toFinset_card_of_nodup hnodup, length_map] at hcard
      exact hfew hcard
    · intro hcond verify sigData haccept
      obtain ⟨hthird, ⟨hmem, hnodup⟩, hsig⟩ := (verifyHeader_ok_iff (K := withVerify K verify)
        (L := L) ⟨u, bookkeepers, sigData⟩ hpeers).mp haccept
      rcases hcond with henough | hshort | ⟨b, hb, hnone⟩ | hrep
      · refine twoThirds_of_listed ?_ hmem hsig
        rw [listed, toFinset_card_of_nodup hnodup, length_map]
        exact henough
      · exact absurd hshort hthird
      · exact absurd hnone (hmem b hb)
      · exact absurd hnodup hrep

end Quorum

/-- Messages and headers that are nothing but their height. -/
def sampleOnt : OntLib Bytes where
  UnsignedMsg := UInt32
  msgHeight := id
  msgHash _ := Uint256.empty
  nextMsg := do return ⟨← nextUint32 (.error "height"), []⟩
  msgBytes msg := writeUint32 msg.unsigned
  UnsignedHeader := UInt32
  height := id
  hash _ := Uint256.empty
  headerFromRawBytes raw := do return ⟨← decode (nextUint32 (.error "height")) raw, [], []⟩
  headerBytes header := writeUint32 header.unsigned
  unmarshalBlockInfo _ := .error (.error "no block info")

/-- Six peers, with the keys from 1 to 6. -/
def samplePeers : ConsensusPeers :=
  ⟨3, 0, ([1, 2, 3, 4, 5, 6] : List UInt8).foldl
    (fun m i => m.insert (pubkeyID echoKeys [i]) ⟨i.toUInt32, pubkeyID echoKeys [i]⟩)
    OrderedMap.empty⟩

/-- They are the peers of chain 3 from height 0 on. -/
def sampleStored : NativeService :=
  let heights := (sampleService [] 9).cacheDB.put (syncKey KEY_HEIGHTS 3)
    (genRawStorageItem (writeVarUint 1 ++ writeUint32 0))
  { sampleService [] 9 with
    cacheDB := heights.put (syncKeyAt CONSENSUS_PEER 3 (getUint32Bytes 0))
      (genRawStorageItem samplePeers.serialization) }

def sampleSignature (key : Bytes) : Bytes := key ++ Uint256.empty.val

theorem peersAt_sampleStored : PeersAt sampleStored 3 5 samplePeers :=
  ⟨0, by decide +kernel, by decide +kernel⟩

theorem listed_of_twoThirds_sample {peers keys}
    (h : TwoThirds echoKeys peers Uint256.empty.val (keys.map sampleSignature)) :
    2 * peers.peerMap.size ≤ 3 * (listed echoKeys keys).card := by
  obtain ⟨ids, hcard, hids⟩ := h
  have hsub : ids ⊆ listed echoKeys keys := by
    intro id hid
    obtain ⟨-, key, rfl, raw, hraw, sig, hsig, hverify⟩ := hids id hid
    obtain ⟨key', hkey', rfl⟩ := mem_map.mp hraw
    obtain rfl : sampleSignature key' = sig := Except.ok.inj hsig
    obtain rfl : key' = key := append_cancel_right (beq_iff_eq.mp hverify)
    exact mem_toFinset.mpr (mem_map.mpr ⟨key', hkey', rfl⟩)
  have hle := Finset.card_le_card hsub
  omega

/-- One of six peers, listed twice, is enough for a message, and two of them for a header. -/
theorem ontQuorum_few :
    PeersAt sampleStored 3 5 samplePeers ∧ samplePeers.peerMap.size = 6 ∧
    (∃ t, (verifyCrossChainMsg echoKeys sampleOnt 3
      ⟨(5 : UInt32), [[1], [1]].map sampleSignature⟩ [[1], [1]]).run sampleStored = .ok ((), t)) ∧
    ¬ TwoThirds echoKeys samplePeers Uint256.empty.val ([[1], [1]].map sampleSignature) ∧
    (∃ t, (verifyHeader echoKeys sampleOnt 3
      ⟨(5 : UInt32), [[1], [2]], [[1], [2]].map sampleSignature⟩).run sampleStored = .ok ((), t)) ∧
    ¬ TwoThirds echoKeys samplePeers Uint256.empty.val ([[1], [2]].map sampleSignature) := by
  refine ⟨peersAt_sampleStored, by decide +kernel, ⟨sampleStored, by decide +kernel⟩, ?_,
    ⟨sampleStored, by decide +kernel⟩, ?_⟩
  · intro h
    exact absurd (listed_of_twoThirds_sample h) (by decide +kernel)
  · intro h
    exact absurd (listed_of_twoThirds_sample h) (by decide +kernel)

theorem ontQuorum_iff_four : PeersAt sampleStored 3 5 samplePeers ∧
    ∀ verify sigData, (∃ t, (verifyHeader (withVerify echoKeys verify) sampleOnt 3
      ⟨(5 : UInt32), [[1], [2], [3], [4]], sigData⟩).run sampleStored = .ok ((), t)) →
      TwoThirds (withVerify echoKeys verify) samplePeers Uint256.empty.val sigData :=
  ⟨peersAt_sampleStored, ((ontQuorum_iff echoKeys ⟨[], [], rfl⟩ sampleOnt sampleStored 3 samplePeers
    [[1], [2], [3], [4]]).2 (5 : UInt32) peersAt_sampleStored).mpr (Or.inl (by decide +kernel))⟩

end Poly.HeaderSync.Ont
