import Poly.CrossChain.Ripple

/-! The signatures that finish a payment to Ripple. -/
namespace Poly.CrossChain

open Lib Native Source Sink Governance HeaderSync List

structure MultiSignParam where
  toChainId : UInt64
  assetAddress : Bytes
  fromChainId : UInt64
  txHash : Bytes
  txJson : Bytes

structure Signer where
  account : Bytes
  txnSignature : Bytes
  signingPubKey : Bytes

structure MultisignInfo where
  status : Bool
  sigMap : OrderedMap Bytes Bool

/-- A signer in the arrays of the library. -/
structure PaymentSigner where
  account : Address
  txnSignature : Bytes
  signingPubKey : FixedBytes 33

/-- What is used of the library to finish a payment. -/
structure MultiSignLib where
  /-- The signers of a signed payment in json, with their texts. -/
  unmarshal : Bytes → Result (List Signer)
  newAccountFromAddress : Bytes → Result Address
  checkMultiSign : Bytes → Address → Bytes → Bytes → Result Unit
  /-- A payment without its signers. -/
  Tx : Type
  sequence : Tx → UInt32
  deserializeRawMultiSignTx : Bytes → Result (Tx × List PaymentSigner)
  marshal : Tx → List PaymentSigner → Bytes
  marshal_inj : ∀ {tx l l'}, marshal tx l = marshal tx l' → l = l'

def MultiSignParam.deserialization : Reader Failure MultiSignParam := do
  let toChainId ← nextVarUint (.error "MultiSignParam deserialize toChainId error")
  let assetAddress ← nextVarBytes (.error "MultiSignParam deserialize assetAddress error")
  let fromChainId ← nextVarUint (.error "MultiSignParam deserialize fromChainId error")
  let txHash ← nextVarBytes (.error "MultiSignParam deserialize tx hash error")
  let txJson ← nextVarBytes (.error "MultiSignParam deserialize txJson error")
  return ⟨toChainId, assetAddress, fromChainId, txHash, txJson⟩

def Signer.serialization (signer : Signer) : Bytes :=
  writeVarBytes signer.account ++ (writeVarBytes signer.txnSignature ++
    writeVarBytes signer.signingPubKey)

def Signer.deserialization : Reader Failure Signer := do
  let account ← nextVarBytes (.error "Signer deserialize account error")
  let txnSignature ← nextVarBytes (.error "Signer deserialize txnSignature error")
  let signingPubKey ← nextVarBytes (.error "Signer deserialize signingPubKey error")
  return ⟨account, txnSignature, signingPubKey⟩

def MultisignInfo.serialization (m : MultisignInfo) : Bytes :=
  writeBool m.status ++ (writeVarUint (UInt64.ofNat m.sigMap.size) ++
    m.sigMap.entries.reverse.flatMap writeVote)

def nextSig (i : ℕ) : Reader Failure (Bytes × Bool) := do
  let sig ← nextVarBytes (.error s!"MultisignInfo deserialize no.{i} sig error")
  let v ← nextBool (.error s!"MultisignInfo deserialize no.{i} bool value error")
  return (sig, v)

def MultisignInfo.deserialization : Reader Failure MultisignInfo := do
  let status ← nextBool (.error "MultisignInfo deserialize status error")
  let l ← nextVarUint (.error "MultisignInfo deserialize length of sig map error")
  let sigs ← Reader.numbered nextSig 1 l.toNat
  return ⟨status, sigs.foldl (fun m x => m.insert x.1 x.2) OrderedMap.empty⟩

def multisignKey (id : Bytes) : Bytes := chainKey [ascii "multisignInfo", id]

def putMultisignInfo (id : Bytes) (m : MultisignInfo) : NativeM Unit :=
  putItem (multisignKey id) m.serialization

abbrev getMultisignInfo (id : Bytes) : NativeM MultisignInfo :=
  getRecord (multisignKey id) ⟨false, .empty⟩ "GetMultisignInfo" "multisign info err:"
    MultisignInfo.deserialization

abbrev getTxJsonInfo (fromChainID : UInt64) (txHash : Bytes) : NativeM Bytes :=
  getItem (txJsonKey fromChainID txHash) (.error "GetTxJsonInfo, can not find any record")
    "GetTxJsonInfo, deserialize from raw storage item err:"

/-- The text that `%X` prints. -/
def upperHex (bs : Bytes) : Bytes := (hexEncode bs).map fun b => if 97 ≤ b then b - 32 else b

variable (L : MultiSignLib)

/-- A signature that is submitted, as a key of the map. -/
def checkSigner (pks : List Bytes) (raw : Bytes) (s : Signer) : Result Bytes := do
  let signerAccount ← wrapError "MultiSign, data.NewAccountFromAddress error: "
    (L.newAccountFromAddress s.account)
  let signerPk ← wrapError "MultiSign, hex.DecodeString signer pk error: " (hexDecode s.signingPubKey)
  let signature ← wrapError "MultiSign, hex.DecodeString signature error: " (hexDecode s.txnSignature)
  failIf (s.signingPubKey ∉ pks.map upperHex)
    (.error "MultiSign, signer is not multisign account")
  wrapError "MultiSign, types.CheckMultiSign error: "
    (L.checkMultiSign raw signerAccount signerPk signature)
  return hexEncode (Signer.serialization ⟨signerAccount.val, signature, signerPk⟩)

/-- A key of the map as a signer of the payment. -/
def readSigner (key : Bytes) : Result PaymentSigner := do
  let signerBytes ← (hexDecode key).mapError fun _ =>
    .error "MultiSign, hex.DecodeString signer bytes error"
  let signer ← (decode Signer.deserialization signerBytes).mapError fun _ =>
    .error "MultiSign, deserialization signer bytes error"
  return ⟨zeroPad 20 signer.account, signer.txnSignature, zeroPad 33 signer.signingPubKey⟩

/-- What a call has collected for a payment. -/
structure Collected where
  params : MultiSignParam
  info : RippleExtraInfo
  raw : Bytes
  sigMap : OrderedMap Bytes Bool

/-- `MultiSign` up to the count of the signatures; nothing is left to do for a finished payment. -/
def collect : NativeM (Option Collected) := do
  let params ← wrapM "MultiSign, contract params deserialize error: "
    (lift (decode MultiSignParam.deserialization (← getInput)))
  let info ← wrapM "MultiSign, side_chain_manager.GetRippleExtraInfo error: "
    (getRippleExtraInfo params.toChainId)
  let raw ← wrapM "MultiSign, get txJsonInfo error: "
    (getTxJsonInfo params.fromChainId params.txHash)
  let multisignInfo ← wrapM "MultiSign, GetMultisignInfo error: " (getMultisignInfo raw)
  if multisignInfo.status then
    return none
  else
    let signers ← wrapM "MultiSign, unmarshal signed txjson error: " (lift (L.unmarshal params.txJson))
    let sigs ← lift (signers.mapM (checkSigner L info.pks raw))
    return some ⟨params, info, raw, sigs.foldl (fun m sig => m.insert sig true) multisignInfo.sigMap⟩

def multisignedTxJson (params : MultiSignParam) (finalPayment : Bytes) (sequence : UInt32) :
    NotifyEventInfo :=
  ⟨CrossChainManagerContractAddress, [.str (ascii "multisignedTxJson"), .num params.fromChainId.toNat,
    .num params.toChainId.toNat, .str (hexEncode params.txHash), .str finalPayment,
    .num sequence.toNat]⟩

variable (order : List Bytes)

/-- The rest of `MultiSign`, which ranges over the map of signatures in some order. -/
def finishIn (c : Collected) : NativeM Unit :=
  if c.info.quorum ≤ UInt64.ofNat c.sigMap.size then do
    let payment ← withoutCause "MultiSign, types.DeserializeRawMultiSignTx error"
      (lift (L.deserializeRawMultiSignTx c.raw))
    let signers ← lift (order.mapM readSigner)
    addNotify (multisignedTxJson c.params (L.marshal payment.1 (payment.2 ++ signers))
      (L.sequence payment.1))
    putMultisignInfo c.raw ⟨true, c.sigMap⟩
  else putMultisignInfo c.raw ⟨false, c.sigMap⟩

def multiSignIn : NativeM Unit := do
  match ← collect L with
  | none => return ()
  | some c => finishIn L order c

/-- The signatures of the map. -/
def Collected.sigs (c : Collected) : List Bytes := c.sigMap.entries.map Prod.fst

variable {L order} {s t : NativeService} {c : Collected}

/-- The signer that a key of the map gives. -/
def signerOf (key : Bytes) : PaymentSigner :=
  (readSigner key).toOption.getD ⟨Address.empty, [], zeroPad 33 []⟩

theorem readSigner_eq {key} (h : ∃ signer, readSigner key = .ok signer) :
    readSigner key = .ok (signerOf key) := by
  obtain ⟨signer, h⟩ := h
  rw [signerOf, h]
  rfl

theorem mapM_readSigner (h : ∀ key ∈ order, ∃ signer, readSigner key = .ok signer) :
    order.mapM readSigner = .ok (order.map signerOf) := by
  apply mapM_ok.mpr
  rw [forall₂_map_right_iff, forall₂_same]
  exact fun key hkey => readSigner_eq (h key hkey)

section Order

variable (hc : (collect L).run s = .ok (some c, s))
  (hquorum : c.info.quorum ≤ UInt64.ofNat c.sigMap.size)
include hc hquorum

/-- A call that finishes a payment announces it with the signers in the order of the walk. -/
theorem multiSignIn_ok : (multiSignIn L order).run s = .ok ((), t) ↔
    ∃ payment signers, L.deserializeRawMultiSignTx c.raw = .ok payment ∧
      order.mapM readSigner = .ok signers ∧
      (putMultisignInfo c.raw ⟨true, c.sigMap⟩).run { s with
        notifications := s.notifications ++ [multisignedTxJson c.params
          (L.marshal payment.1 (payment.2 ++ signers)) (L.sequence payment.1)] } = .ok ((), t) := by
  have hfinish : (multiSignIn L order).run s = (finishIn L order c).run s := by
    rw [multiSignIn, StateT.run_bind, hc]
    rfl
  rw [hfinish, finishIn, if_pos hquorum]
  simp only [run_bind_ok, run_withoutCause_ok, run_lift_ok, and_assoc, exists_and_left,
    exists_eq_left']
  refine exists_congr fun payment => and_congr_right fun _ => exists_congr fun signers =>
    and_congr_right fun _ => ?_
  constructor
  · rintro ⟨_, u, hnotify, hput⟩
    cases hnotify
    exact hput
  · exact fun hput => ⟨(), _, rfl, hput⟩

/-- The payment that is announced is the same for every order of the map exactly if the map gives one
signer only. -/
theorem multiSignIn_same_iff (horder : order.Perm c.sigs)
    (h : (multiSignIn L order).run s = .ok ((), t)) :
    (∀ order', order'.Perm c.sigs → ∃ t', (multiSignIn L order').run s = .ok ((), t') ∧
        t'.notifications = t.notifications) ↔
      ∀ x ∈ c.sigs, ∀ y ∈ c.sigs, readSigner x = readSigner y := by
  obtain ⟨payment, signers, hpay, hsigners, hput⟩ := (multiSignIn_ok hc hquorum).mp h
  cases hput
  have hread : ∀ x ∈ c.sigs, ∃ signer, readSigner x = .ok signer := fun x hx =>
    exists_of_mapM_ok hsigners x (horder.mem_iff.mpr hx)
  have hsame {order' : List Bytes} (h' : order'.Perm c.sigs) :
      (∃ t', (multiSignIn L order').run s = .ok ((), t') ∧ t'.notifications = s.notifications ++
        [multisignedTxJson c.params (L.marshal payment.1 (payment.2 ++ signers))
          (L.sequence payment.1)]) ↔ order'.map signerOf = signers := by
    have hrun := mapM_readSigner fun x hx => hread x (h'.mem_iff.mp hx)
    constructor
    · rintro ⟨t', hr, hnotified⟩
      obtain ⟨payment', signers', hpay', hsigners', hput'⟩ := (multiSignIn_ok hc hquorum).mp hr
      cases hput'
      cases ok_unique hpay hpay'
      cases ok_unique hrun hsigners'
      simp only [multisignedTxJson, append_cancel_left_eq, List.cons.injEq, and_true,
        NotifyEventInfo.mk.injEq, true_and, NotifyValue.str.injEq] at hnotified
      exact append_cancel_left (L.marshal_inj hnotified)
    · rintro rfl
      exact ⟨_, (multiSignIn_ok hc hquorum).mpr ⟨payment, _, hpay, hrun, rfl⟩, rfl⟩
  have hhere : order.map signerOf = signers :=
    ok_unique (mapM_readSigner fun x hx => hread x (horder.mem_iff.mp hx)) hsigners
  constructor
  · -- the walks that begin with `x` and with `y` end in the same list
    intro hall x hx y hy
    have hfirst {z : Bytes} (hz : z ∈ c.sigs) : signers.head? = some (signerOf z) := by
      have hperm := (perm_cons_erase hz).symm
      rw [← (hsame hperm).mp (hall _ hperm)]
      rfl
    rw [readSigner_eq (hread x hx), readSigner_eq (hread y hy),
      Option.some.inj ((hfirst hx).symm.trans (hfirst hy))]
  · intro hone order' h'
    refine (hsame h').mpr (hhere ▸ ?_)
    have hperm : (order'.map signerOf).Perm (order.map signerOf) := (h'.trans horder.symm).map _
    have hany (l : List PaymentSigner) : l.Pairwise fun _ _ => True :=
      pairwise_of_forall fun _ _ => trivial
    refine hperm.eq_of_pairwise ?_ (hany _) (hany _)
    intro a b ha hb _ _
    obtain ⟨x, hx, rfl⟩ := mem_map.mp ha
    obtain ⟨y, hy, rfl⟩ := mem_map.mp hb
    rw [signerOf, signerOf, hone x (h'.mem_iff.mp hx) y (horder.mem_iff.mp hy)]

end Order

theorem marked_inj {a b c d : Bytes}
    (h : a.flatMap (fun x => [1, x]) ++ 0 :: c = b.flatMap (fun x => [1, x]) ++ 0 :: d) :
    a = b ∧ c = d := by
  induction a generalizing b with
  | nil => cases b <;> simp_all
  | cons x a ih =>
    cases b with
    | nil => simp at h
    | cons y b =>
      simp only [flatMap_cons, cons_append, nil_append, List.cons.injEq, true_and] at h
      obtain ⟨rfl, h⟩ := h
      exact (ih h).imp_left (congrArg _)

/-- One signer after the other, each byte of a signature with a mark before it. -/
def plainSigners (l : List PaymentSigner) : Bytes :=
  l.flatMap fun x => x.account.val ++ (x.signingPubKey.val ++
    (x.txnSignature.flatMap (fun b => [1, b]) ++ [0]))

theorem plainSigners_inj {l l' : List PaymentSigner} (h : plainSigners l = plainSigners l') :
    l = l' := by
  induction l generalizing l' with
  | nil => cases l' <;> simp_all [plainSigners]
  | cons x l ih =>
    cases l' with
    | nil => simp [plainSigners] at h
    | cons y l' =>
      simp only [plainSigners, flatMap_cons, append_assoc, singleton_append] at h
      obtain ⟨haccount, h⟩ := append_inj h (x.account.2.trans y.account.2.symm)
      obtain ⟨hkey, h⟩ := append_inj h (x.signingPubKey.2.trans y.signingPubKey.2.symm)
      obtain ⟨hsig, hrest⟩ := marked_inj h
      obtain ⟨⟨a', ha'⟩, sig', ⟨k', hk'⟩⟩ := y
      cases haccount
      cases hkey
      cases hsig
      rw [ih hrest]

/-- A library in which the registered key of no bytes signs with every byte, and the json is the
list of the signatures. -/
def openMultiSign : MultiSignLib where
  unmarshal json := .ok (json.map fun b => ⟨[], hexEncode [b], []⟩)
  newAccountFromAddress _ := .ok Address.empty
  checkMultiSign _ _ _ _ := .ok ()
  Tx := Unit
  sequence _ := 0
  deserializeRawMultiSignTx _ := .ok ((), [])
  marshal _ := plainSigners
  marshal_inj := plainSigners_inj

/-- The Ripple chain with a key and a payment, and a call with these signatures. -/
def signState (quorum : UInt64) (sigs : Bytes) : NativeService :=
  { rippleState with
    cacheDB := (rippleState.cacheDB.put (sideChainKey 7)
      (genRawStorageItem (SideChain.serialization ⟨Address.empty, 7, RIPPLE_ROUTER, [], 0, []⟩
        (some (RippleExtraInfo.serialization ⟨Address.empty, 1, quorum, 1, [[]], 0⟩))))).put
      (txJsonKey 2 []) (genRawStorageItem [])
    input := writeVarUint 7 ++ (writeVarBytes [] ++ (writeVarUint 2 ++ (writeVarBytes [] ++
      writeVarBytes sigs))) }

def sigOf (b : UInt8) : Bytes := hexEncode (Signer.serialization ⟨Address.empty.val, [b], []⟩)

/-- Two walks over the two signatures of a payment announce different payments. -/
theorem multiSignIn_order_matters :
    ((collect openMultiSign).run (signState 2 [1, 2])).map (fun r => r.1.map fun c => (c.sigs,
      decide (c.info.quorum ≤ UInt64.ofNat c.sigMap.size))) = .ok (some ([sigOf 1, sigOf 2], true)) ∧
    ((multiSignIn openMultiSign [sigOf 1, sigOf 2]).run (signState 2 [1, 2])).map
      (fun r => r.2.notifications.length) = .ok 1 ∧
    ((multiSignIn openMultiSign [sigOf 1, sigOf 2]).run (signState 2 [1, 2])).map
        (fun r => r.2.notifications) ≠
      ((multiSignIn openMultiSign [sigOf 2, sigOf 1]).run (signState 2 [1, 2])).map
        fun r => r.2.notifications := by
  decide +kernel

instance {R : NativeService → NativeService → Prop} [IsPreorder NativeService R] :
    Within R (collect L) :=
  @Within.bind _ _ _ _ _ _ _ _ _ fun _ => .bind

theorem multiSignIn_same_iff_one : ∃ (c : Collected) (t : NativeService),
    (∀ order', order'.Perm c.sigs → ∃ t', (multiSignIn openMultiSign order').run (signState 1 [1]) =
        .ok ((), t') ∧ t'.notifications = t.notifications) ↔
      ∀ x ∈ c.sigs, ∀ y ∈ c.sigs, readSigner x = readSigner y := by
  have hcollect : ((collect openMultiSign).run (signState 1 [1])).map (fun r => r.1.map fun c =>
      (c.sigs, decide (c.info.quorum ≤ UInt64.ofNat c.sigMap.size))) =
        .ok (some ([sigOf 1], true)) := by decide +kernel
  have hrun : ((multiSignIn openMultiSign [sigOf 1]).run (signState 1 [1])).map Prod.fst =
      .ok () := by decide +kernel
  obtain ⟨t, ht⟩ := exists_of_map_fst hrun
  cases hc : (collect openMultiSign).run (signState 1 [1]) with
  | error e => rw [hc] at hcollect; cases hcollect
  | ok r =>
    obtain ⟨found, u⟩ := r
    cases Within.of_run (R := Eq) hc
    rw [hc] at hcollect
    obtain ⟨c, rfl, hpair⟩ := Option.map_eq_some_iff.mp (Except.ok.inj hcollect)
    obtain ⟨hsigs, hquorum⟩ := Prod.mk.inj hpair
    exact ⟨c, t, multiSignIn_same_iff hc (of_decide_eq_true hquorum) (.of_eq hsigs.symm) ht⟩

end Poly.CrossChain
