import Poly.Governance.NodeManager

/-! Runs of the node manager contract, and what a second initial configuration meets. -/
namespace Poly.Governance

open Lib Native

variable (C : Crypto)

section Frames

set_option synthInstance.maxSize 100000

instance (acc : UInt32 × PeerPoolMap) (peer : VBFTPeerInfo) :
    NodeManagerFrame (initPeer C acc peer) := .bind

instance (configuration : VBFTConfig) : NodeManagerFrame (installConfig C configuration) := .bind

instance : NodeManagerFrame (initConfig C) := .bind

instance (raw : Bytes) : NodeManagerFrame (approvedIndex raw) := .bind_option

instance (params peer : PeerParam) : NodeManagerFrame (enterPool params peer) := .bind

instance : NodeManagerFrame executeCommitDpos := .bind

instance (acc : Bool × PeerPoolMap) (peerPubkey : Bytes) :
    NodeManagerFrame (blackPeer acc peerPubkey) := .bind

instance (params : PeerListParam) (peerPoolMap : PeerPoolMap) (view : UInt32) :
    NodeManagerFrame (blackPeers params peerPoolMap view) := .bind

theorem frame_nodeManagerContract :
    ∀ m ∈ nodeManagerContract C, NodeManagerFrame m.2 := by
  intro m hm
  simp only [nodeManagerContract, List.mem_cons, List.not_mem_nil, or_false] at hm
  rcases hm with rfl | rfl | rfl | rfl | rfl | rfl | rfl | rfl | rfl
  all_goals exact .bind

end Frames

/-- The key that the guard of `InitConfig` reads is none of the keys the contract writes. -/
theorem not_nodeManagerKey_guard : ¬ NodeManagerKey (nodeKey [PEER_POOL]) := by
  intro h
  generalize hk : nodeKey [PEER_POOL] = key at h
  cases h with
  | governanceView | vbftConfig | candidateIndex | peerApply | peerIndex | blackList
  | consensusSigns => exact concatKey_ne (by decide) (by decide) _ _ hk
  | peerPool view =>
    -- the pools carry four more bytes, those of a view number
    have hl := congrArg List.length (concatKey_inj.mp hk).2
    have hview : (getUint32Bytes view).length = 4 := leBytes_length 4 _
    simp [hview] at hl

/-- The configurations that `InitConfig` accepts. -/
def ValidConfig (input : Bytes) : Prop :=
  ∃ configuration, decode (VBFTConfig.deserialization C) input = .ok configuration ∧
    checkVBFTConfig C configuration = .ok ()

theorem checkPeer_ok {seen seen' peer} (h : checkPeer C seen peer = .ok seen') :
    (∃ a, C.addressFromBase58 peer.address = .ok a) ∧ ∃ raw, hexDecode peer.peerPubkey = .ok raw := by
  obtain ⟨_, -, h⟩ := bind_ok.mp h
  obtain ⟨_, -, h⟩ := bind_ok.mp h
  obtain ⟨_, -, h⟩ := bind_ok.mp h
  cases hv : validatePeerPubKeyFormat C peer.peerPubkey with
  | error e =>
    rw [hv] at h
    cases e <;> cases h
  | ok u =>
    rw [hv] at h
    obtain ⟨a, ha, -⟩ := bind_ok.mp h
    exact ⟨⟨a, wrapError_ok.mp ha⟩, hexDecode_of_validatePeerPubKeyFormat C hv⟩

theorem checkPeers_ok {peers seen seen' : List VBFTPeerInfo}
    (h : peers.foldlM (checkPeer C) seen = .ok seen') :
    ∀ peer ∈ peers, (∃ a, C.addressFromBase58 peer.address = .ok a) ∧
      ∃ raw, hexDecode peer.peerPubkey = .ok raw := by
  induction peers generalizing seen with
  | nil =>
    intro peer hp
    cases hp
  | cons p peers ih =>
    intro peer hp
    obtain ⟨next, hc, hrest⟩ := bind_ok.mp h
    rcases List.mem_cons.mp hp with rfl | hp
    · exact checkPeer_ok C hc
    · exact ih hrest peer hp

theorem succeeds_installConfig {configuration} (h : checkVBFTConfig C configuration = .ok ()) :
    Succeeds (installConfig C configuration) := by
  refine .bind (.foldlM (fun acc peer hp => ?_) _) fun _ => ?_
  · obtain ⟨_, -, h⟩ := bind_ok.mp h
    obtain ⟨_, -, h⟩ := bind_ok.mp h
    obtain ⟨_, -, h⟩ := bind_ok.mp h
    obtain ⟨_, -, h⟩ := bind_ok.mp h
    obtain ⟨_, -, h⟩ := bind_ok.mp h
    obtain ⟨seen, hpeers, -⟩ := bind_ok.mp h
    obtain ⟨⟨a, ha⟩, raw, hraw⟩ := checkPeers_ok C hpeers peer hp
    refine .bind (succeeds_wrapM (.lift ha)) fun _ => ?_
    refine .bind (succeeds_wrapM (.lift hraw)) fun _ => ?_
    exact .bind (.modify _) fun _ => .pure _
  · exact .bind (.modify _) fun _ => .bind (.modify _) fun _ => .bind (.modify _) fun _ =>
      .bind .get fun _ => .bind (.modify _) fun _ => .bind (.modify _) fun _ => .pure _

/-- With the guard's key absent, the input alone decides whether `InitConfig` succeeds. -/
theorem initConfig_ok_iff {s} (hguard : s.cacheDB.get (nodeKey [PEER_POOL]) = none) :
    (∃ r t, (initConfig C).run s = .ok (r, t)) ↔ ValidConfig C s.input := by
  constructor
  · rintro ⟨r, t, h⟩
    obtain ⟨input, s₁, hi, h⟩ := run_bind_ok.mp h
    obtain ⟨configuration, s₂, hd, h⟩ := run_bind_ok.mp h
    obtain ⟨_, s₃, -, h⟩ := run_bind_ok.mp h
    obtain ⟨_, s₄, -, h⟩ := run_bind_ok.mp h
    obtain ⟨_, s₅, hc, -⟩ := run_bind_ok.mp h
    cases hi
    exact ⟨configuration, (run_lift_ok.mp (wrapError_ok.mp hd)).1,
      (run_lift_ok.mp (wrapError_ok.mp hc)).1⟩
  · rintro ⟨configuration, hd, hc⟩
    obtain ⟨r, t, ht⟩ := succeeds_installConfig C hc s
    refine ⟨r, t, run_bind_ok.mpr ⟨s.input, s, rfl, ?_⟩⟩
    refine run_bind_ok.mpr ⟨configuration, s, wrapError_ok.mpr (run_lift_ok.mpr ⟨hd, rfl⟩), ?_⟩
    refine run_bind_ok.mpr ⟨none, s, ?_, ?_⟩
    · exact congrArg (fun o => Except.ok (o, s)) hguard
    refine run_bind_ok.mpr ⟨(), s, rfl, ?_⟩
    exact run_bind_ok.mpr ⟨(), s, wrapError_ok.mpr (run_lift_ok.mpr ⟨hc, rfl⟩), ht⟩

/-- One event in the life of the contract's storage: a call of a registered method in any
transaction and block, or the end of a block. -/
inductive Step : OverlayDB → OverlayDB → Prop where
  | call (db : OverlayDB) {m : Bytes × Handler} (hm : m ∈ nodeManagerContract C)
      (env : NativeService) : Step db (callContract m.2 env db).2
  | endBlock (db : OverlayDB) : Step db (OverlayDB.new (applyWriteSet db.store db.memdb))

theorem step_guard {db db'} (h : Step C db db') :
    db'.get (ST_STORAGE :: nodeKey [PEER_POOL]) =
      db.get (ST_STORAGE :: nodeKey [PEER_POOL]) := by
  cases h with
  | call hm env =>
    exact get_callContract (frame_nodeManagerContract C _ hm) env db not_nodeManagerKey_guard
  | endBlock => exact get_applyWriteSet db.store db.memdb _

theorem run_guard {db db'} (h : Relation.ReflTransGen (Step C) db db') :
    db'.get (ST_STORAGE :: nodeKey [PEER_POOL]) =
      db.get (ST_STORAGE :: nodeKey [PEER_POOL]) := by
  induction h with
  | refl => rfl
  | tail _ hs ih => exact (step_guard C hs).trans ih

/-- A first `InitConfig` succeeds only where the guard's key is absent. -/
theorem guard_of_initConfig {s t r} (h : (initConfig C).run s = .ok (r, t)) :
    s.cacheDB.get (nodeKey [PEER_POOL]) = none := by
  simp only [initConfig, run_bind_ok] at h
  obtain ⟨input, s₁, hi, configuration, s₂, hd, found, s₃, hg, _, s₄, hf, -⟩ := h
  cases hi
  obtain ⟨-, rfl⟩ := run_lift_ok.mp (wrapError_ok.mp hd)
  cases hg
  exact Option.not_isSome_iff_eq_none.mp (run_failIf_ok.mp hf).1

/-- After a successful `InitConfig` and any calls of the contract, a further `InitConfig` is
refused, with nothing changed, exactly when its own input is refused: the guard never fires. -/
theorem initConfig_again {env₀ : NativeService} {db₀ : OverlayDB} {r : Bytes}
    (hinit : (callContract (initConfig C) env₀ db₀).1 = .ok r) {db : OverlayDB}
    (hrun : Relation.ReflTransGen (Step C) (callContract (initConfig C) env₀ db₀).2 db)
    (env : NativeService) :
    ((∃ e, (callContract (initConfig C) env db).1 = .error e) ∧
      ∀ key, (callContract (initConfig C) env db).2.get key = db.get key) ↔
      ¬ ValidConfig C env.input := by
  have hguard : db.get (ST_STORAGE :: nodeKey [PEER_POOL]) = none := by
    have hkeep := get_callContract (inferInstance : NodeManagerFrame (initConfig C)) env₀ db₀ not_nodeManagerKey_guard
    refine (run_guard C hrun).trans (hkeep.trans ?_)
    unfold callContract at hinit
    cases hr : (initConfig C).run { env₀ with cacheDB := CacheDB.new db₀ } with
    | error e =>
      rw [hr] at hinit
      cases hinit
    | ok x => exact guard_of_initConfig C hr
  have hiff := initConfig_ok_iff C (s := { env with cacheDB := CacheDB.new db }) hguard
  unfold callContract
  cases hr : (initConfig C).run { env with cacheDB := CacheDB.new db } with
  | error e =>
    refine iff_of_true ⟨⟨e, rfl⟩, fun _ => rfl⟩ fun hv => ?_
    obtain ⟨r, t, ht⟩ := hiff.mpr hv
    rw [hr] at ht
    cases ht
  | ok x =>
    refine iff_of_false ?_ (not_not_intro (hiff.mp ⟨x.1, x.2, hr⟩))
    rintro ⟨⟨e, he⟩, -⟩
    cases he

def sampleConfig (peers : List PeerParam) : Bytes :=
  Sink.writeUint32 5000 ++ Sink.writeUint32 5000 ++ Sink.writeUint32 10 ++ Sink.writeUint32 10000 ++
    Sink.writeVarBytes (List.replicate 128 0) ++ Sink.writeVarBytes (List.replicate 128 0) ++
    Sink.writeVarUint (UInt64.ofNat peers.length) ++
    (peers.zipIdx 1).flatMap fun x =>
      Sink.writeUint32 (UInt32.ofNat x.2) ++ Sink.writeVarBytes x.1.peerPubkey ++ x.1.address.val

/-- The storage after a first configuration with one consensus peer. -/
abbrev sampleInit : Result Bytes × OverlayDB :=
  callContract (initConfig openCrypto)
    (sampleService (sampleConfig [⟨ascii "01", NodeManagerContractAddress⟩]) 0)
    (OverlayDB.new OrderedMap.empty)

/-- The multi-signature address of the consensus peers. -/
def sampleOperator : Address :=
  match (getCurConOperator openCrypto).run
    { sampleService [] 1 with cacheDB := CacheDB.new sampleInit.2 } with
  | .ok (op, _) => op
  | .error _ => Address.empty

/-- The pool of the current view is replaced by an empty one. -/
theorem initConfig_twice :
    sampleInit.1 = .ok BYTE_TRUE ∧
      (callContract (initConfig openCrypto) (sampleService (sampleConfig []) 1) sampleInit.2).1 =
        .ok BYTE_TRUE ∧
      (callContract (initConfig openCrypto) (sampleService (sampleConfig []) 1) sampleInit.2).2.get
          (ST_STORAGE :: nodeKey [PEER_POOL, getUint32Bytes 1]) ≠
        sampleInit.2.get (ST_STORAGE :: nodeKey [PEER_POOL, getUint32Bytes 1]) := by
  decide +kernel

/-- The same storage in the next block. -/
def sampleNext : OverlayDB := OverlayDB.new (applyWriteSet sampleInit.2.store sampleInit.2.memdb)

theorem initConfig_again_next_block :
    sampleInit.1 = .ok BYTE_TRUE ∧
      (((∃ e, (callContract (initConfig openCrypto) (sampleService [] 1) sampleNext).1 = .error e) ∧
        ∀ key, (callContract (initConfig openCrypto) (sampleService [] 1) sampleNext).2.get key =
          sampleNext.get key) ↔ ¬ ValidConfig openCrypto (sampleService [] 1).input) := by
  have hinit : sampleInit.1 = .ok BYTE_TRUE := by decide +kernel
  have hrun : Relation.ReflTransGen (Step openCrypto) sampleInit.2 sampleNext :=
    .single (.endBlock sampleInit.2)
  exact ⟨hinit, initConfig_again openCrypto hinit hrun (sampleService [] 1)⟩

end Poly.Governance
