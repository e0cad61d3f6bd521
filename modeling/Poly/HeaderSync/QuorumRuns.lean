import Poly.Governance.Runs
import Poly.HeaderSync.Quorum

/-! Validator set changes of a Quorum chain: what the headers accepted over a run have to show. -/
namespace Poly.HeaderSync.Quorum

open Lib Native List

variable (C : Crypto) (L : QuorumLib)

/-- One accepted header: the records before it and the validators it brings. -/
structure Change where
  height : UInt64
  before : QuorumValSet
  header : L.Header
  after : QuorumValSet

/-- The changes of one call, header by header. -/
def changes : SyncState L → List (Bytes × ℕ) → List (Change L)
  | _, [] => []
  | st, x :: headers =>
    match syncHeader st x with
    | .error _ => []
    | .ok st' => ⟨st.currh, st.vs, st'.header, st'.vs⟩ :: changes st' headers

variable (c : UInt64)

/-- The changes that a call makes to the records of chain `c`. -/
def callChanges (s : NativeService) : Result (List (Change L)) := do
  let params ← decode SyncBlockHeaderParam.deserialization s.input
  if params.chainID = c then
    let (currh, _) ← (getCurrentValHeight c).run s
    let (vs, _) ← (getValSet c).run s
    return changes L ⟨L.newHeader, currh, vs⟩ params.headers.zipIdx
  else
    return []

/-- A call of `SyncBlockHeader` in any transaction and block, or the end of a block. -/
inductive Event where
  | syncBlockHeader (env : NativeService)
  | endBlock

variable {L} in
/-- The storage after an event and the changes of chain `c` so far. -/
def step (acc : OverlayDB × List (Change L)) : Event → OverlayDB × List (Change L)
  | .syncBlockHeader env =>
    let out := callContract (answered (syncBlockHeader L)) env acc.1
    match out.1, callChanges L c { env with cacheDB := CacheDB.new acc.1 } with
    | .ok _, .ok made => (out.2, acc.2 ++ made)
    | _, _ => (out.2, acc.2)
  | .endBlock => (OverlayDB.new (applyWriteSet acc.1.store acc.1.memdb), acc.2)

def run (db : OverlayDB) (events : List Event) : OverlayDB × List (Change L) :=
  events.foldl (step c) (db, [])

section Endorsement

variable {L}

/-- The header has a proposer seal or a committed seal of the address. -/
def Sealed (header : L.Header) (a : Address) : Prop :=
  ∃ extra ∈ (extractIstanbulExtra L header).toOption,
    L.getSignatureAddress (sigHash L header).val extra.proposerSeal = .ok a ∨
      ∃ sig ∈ extra.committedSeal, L.getSignatureAddress
        (prepareCommittedSeal (getQuorumHeaderHash L header)) sig = .ok a

instance (header : L.Header) (a : Address) : Decidable (Sealed header a) :=
  inferInstanceAs (Decidable (∃ extra ∈ (extractIstanbulExtra L header).toOption, _))

/-- The members of a list that sealed the header. -/
def sealers (header : L.Header) (vs : QuorumValSet) : Finset Address :=
  vs.toFinset.filter (Sealed header)

/-- One element was inserted or deleted, by a later header that more than a third of the new
members sealed. -/
structure Endorsed (x : Change L) : Prop where
  one_changed : OneInserted x.before x.after ∨ OneInserted x.after x.before
  number_lt : x.height < L.number x.header
  seals : x.after.faults < (sealers x.header x.after).card

/-- All addresses recovered from the seals, in order and with repetitions. -/
def recovered (header : L.Header) : Result (List Address) := do
  let extra ← extractIstanbulExtra L header
  let addr ← L.getSignatureAddress (sigHash L header).val extra.proposerSeal
  let addrs ← getSigners L (getQuorumHeaderHash L header) extra.committedSeal
  return addr :: addrs

/-- What the checks leave open: the lists go on alike after their first difference, and the seals
are of enough different addresses. -/
structure Sound (x : Change L) : Prop where
  resumes : ResumesNext x.before x.after
  resumes' : ResumesNext x.after x.before
  distinct : ∃ addrs, recovered x.header = .ok addrs ∧ x.after.faults < addrs.toFinset.card

/-- What the checks establish. -/
structure Accepted (x : Change L) : Prop where
  number_lt : x.height < L.number x.header
  verified : ∃ extra, verifyQuorumHeader L x.before x.header true = .ok extra ∧
    x.after = extra.validators

theorem sealers_eq {header extra vs addr addrs} (hextra : extractIstanbulExtra L header = .ok extra)
    (h : SealedBy header extra vs addr addrs) : sealers header vs = (addr :: addrs).toFinset := by
  ext a
  have hsealed : Sealed header a ↔ a ∈ addr :: addrs := by
    unfold Sealed
    rw [hextra, mem_cons, mem_mapM_ok h.signers_eq, eq_comm]
    simp [Except.toOption, h.signer_eq]
  rw [sealers, Finset.mem_filter, mem_toFinset, mem_toFinset, hsealed]
  exact and_iff_right_of_imp (h.mem a)

/-- An accepted change is endorsed exactly if what the checks leave open holds as well. -/
theorem Accepted.endorsed_iff {x : Change L} (h : Accepted x) : Endorsed x ↔ Sound x := by
  obtain ⟨extra, hv, hafter⟩ := h.verified
  obtain ⟨hextra, hone, addr, addrs, hseals⟩ := verifyQuorumHeader_ok hv
  rw [← hafter] at hone hseals
  have hsealers := sealers_eq hextra hseals
  have hrecovered : recovered x.header = .ok (addr :: addrs) := by
    unfold recovered
    rw [hextra, ok_bind, hseals.signer_eq, hseals.signers_eq]
    rfl
  constructor
  · intro he
    obtain ⟨hr, hr'⟩ := (QuorumValSet.justOneChanged_iff hone).mp he.one_changed
    exact ⟨hr, hr', addr :: addrs, hrecovered, hsealers ▸ he.seals⟩
  · intro hs
    obtain ⟨addrs', heq, hcard⟩ := hs.distinct
    cases ok_unique hrecovered heq
    exact ⟨(QuorumValSet.justOneChanged_iff hone).mpr ⟨hs.resumes, hs.resumes'⟩, h.number_lt,
      hsealers ▸ hcard⟩

/-- With four members or more an endorsed change has the seal of an old member: two members
sealed it, and only one of them can be new. -/
theorem Endorsed.old_member_sealed {x : Change L} (h : Endorsed x) (hlen : 4 ≤ x.after.length) :
    ∃ a ∈ x.before, Sealed x.header a := by
  have htwo : 1 < (sealers x.header x.after).card := by
    have hseals := h.seals
    unfold QuorumValSet.faults at hseals
    omega
  obtain ⟨a, ha, b, hb, hab⟩ := Finset.one_lt_card.mp htwo
  rw [sealers, Finset.mem_filter, mem_toFinset] at ha hb
  rcases h.one_changed with hin | hin
  · obtain ⟨y, hy⟩ := hin.mem_or_eq
    rcases hy a ha.1 with rfl | ha'
    · rcases hy b hb.1 with rfl | hb'
      · exact absurd rfl hab
      · exact ⟨b, hb', hb.2⟩
    · exact ⟨a, ha', ha.2⟩
  · exact ⟨a, hin.subset ha.1, ha.2⟩

end Endorsement

variable {C L}

/-- Changes one after the other, from one height and list to another. -/
def Linked : UInt64 → QuorumValSet → List (Change L) → UInt64 → QuorumValSet → Prop
  | h, vs, [], h', vs' => h = h' ∧ vs = vs'
  | h, vs, x :: xs, h', vs' =>
    x.height = h ∧ x.before = vs ∧ Linked (L.number x.header) x.after xs h' vs'

theorem Linked.append {h h' h'' : UInt64} {vs vs' vs'' : QuorumValSet} {xs ys : List (Change L)}
    (hx : Linked h vs xs h' vs') (hy : Linked h' vs' ys h'' vs'') :
    Linked h vs (xs ++ ys) h'' vs'' := by
  induction xs generalizing h vs with
  | nil =>
    obtain ⟨rfl, rfl⟩ := hx
    exact hy
  | cons x xs ih => exact ⟨hx.1, hx.2.1, ih hx.2.2⟩

/-- The list fits in a storage item. -/
def Fits (vs : QuorumValSet) : Prop := 20 * vs.length < 2 ^ 63

theorem fits_of_extract {header extra} (h : extractIstanbulExtra L header = .ok extra) :
    Fits extra.validators := by
  obtain ⟨_, -, h⟩ := bind_ok.mp h
  exact L.validators_size _ extra h

theorem changes_ok {st st' headers} (h : headers.foldlM syncHeader st = .ok st')
    (hfits : Fits st.vs) :
    Linked st.currh st.vs (changes L st headers) st'.currh st'.vs ∧ Fits st'.vs ∧
      ∀ x ∈ changes L st headers, Accepted x := by
  induction headers generalizing st with
  | nil =>
    cases h
    exact ⟨⟨rfl, rfl⟩, hfits, nofun⟩
  | cons x headers ih =>
    obtain ⟨st₁, hstep, hrest⟩ := bind_ok.mp h
    obtain ⟨hlt, hnumber, extra, hv, hvs⟩ := syncHeader_ok hstep
    have hfits₁ : Fits st₁.vs := hvs ▸ fits_of_extract (verifyQuorumHeader_ok hv).1
    obtain ⟨hlinked, hfits', haccepted⟩ := ih hrest hfits₁
    simp only [changes, hstep]
    refine ⟨⟨rfl, rfl, hnumber ▸ hlinked⟩, hfits', forall_mem_cons.mpr ⟨?_, haccepted⟩⟩
    exact ⟨hnumber ▸ hlt, extra, hv, hvs⟩

/-- The records of chain `c` are at the end of the changes so far, all of them accepted. -/
structure RunInv (c h₀ : UInt64) (vs₀ : QuorumValSet) (acc : OverlayDB × List (Change L)) :
    Prop where
  linked : ∃ h vs, Linked h₀ vs₀ acc.2 h vs ∧ Stored c (CacheDB.new acc.1) h vs ∧ Fits vs
  accepted : ∀ x ∈ acc.2, Accepted x

instance (key : Bytes) : Owned (fun _ => True) key := ⟨trivial⟩

instance (c height : UInt64) (vals : QuorumValSet) :
    Within (OnlyWrites fun _ => True) (putValSet c height vals) := .bind

instance {R : NativeService → NativeService → Prop} [IsPreorder NativeService R] :
    Within R (getCurrentValHeight c) := .bind

instance {R : NativeService → NativeService → Prop} [IsPreorder NativeService R] :
    Within R (getValSet c) := .bind

theorem within_syncBlockHeader :
    Within (OnlyWrites fun _ => True) (answered (syncBlockHeader L)) := by
  have : Within (OnlyWrites fun _ => True) (syncBlockHeader L) := .bind
  exact .bind

theorem within_syncGenesisHeader :
    Within (OnlyWrites fun _ => True) (answered (syncGenesisHeader C L)) := by
  have : Within (OnlyWrites fun _ => True) (syncGenesisHeader C L) := .bind
  exact .bind

theorem syncBlockHeader_changes {c h vs s t} (hs : Stored c s.cacheDB h vs) (hfits : Fits vs)
    (hr : (syncBlockHeader L).run s = .ok ((), t)) :
    ∃ made h' vs', callChanges L c s = .ok made ∧ Linked h vs made h' vs' ∧
      Stored c t.cacheDB h' vs' ∧ Fits vs' ∧ ∀ x ∈ made, Accepted x := by
  obtain ⟨params, currh, vals, st, hparams, hh, hv, hloop, hput⟩ := syncBlockHeader_ok hr
  unfold callChanges
  rw [hparams, ok_bind]
  by_cases hc : params.chainID = c
  · subst hc
    cases ok_unique hs.getCurrentValHeight_run hh
    cases ok_unique (hs.getValSet_run hfits) hv
    obtain ⟨hlinked, hfits', haccepted⟩ := changes_ok hloop hfits
    rw [if_pos rfl, hh, hv]
    exact ⟨_, _, _, rfl, hlinked, putValSet_stored hput, hfits', haccepted⟩
  · rw [if_neg hc]
    exact ⟨[], h, vs, rfl, ⟨rfl, rfl⟩, putValSet_keeps (Ne.symm hc) hput hs, hfits,
      nofun⟩

theorem step_inv {c h₀ : UInt64} {vs₀ : QuorumValSet} {acc : OverlayDB × List (Change L)}
    {e : Event} (hi : RunInv c h₀ vs₀ acc) : RunInv c h₀ vs₀ (step c acc e) := by
  obtain ⟨db, made₀⟩ := acc
  obtain ⟨h, vs, hlinked, hstored, hfits⟩ := hi.linked
  cases e with
  | endBlock =>
    have hget (k : Bytes) : (CacheDB.new (OverlayDB.new (applyWriteSet db.store db.memdb))).get k =
        (CacheDB.new db).get k := get_applyWriteSet db.store db.memdb _
    exact ⟨⟨h, vs, hlinked, hstored.of_get hget, hfits⟩, hi.accepted⟩
  | syncBlockHeader env =>
    cases hr : (answered (syncBlockHeader L)).run { env with cacheDB := CacheDB.new db } with
    | error e =>
      have hcall : callContract (answered (syncBlockHeader L)) env db = (.error e, db) := by
        rw [callContract, hr]
      simp only [step, hcall]
      exact hi
    | ok out =>
      obtain ⟨r, t⟩ := out
      obtain ⟨made, h', vs', hmade, hlinked', hstored', hfits', haccepted⟩ :=
        syncBlockHeader_changes hstored hfits (answered_ok hr)
      have hget := get_callContract_ok within_syncBlockHeader hr
      have hcall : (callContract (answered (syncBlockHeader L)) env db).1 = .ok r := by
        rw [callContract, hr]
      simp only [step, hcall, hmade]
      refine ⟨⟨h', vs', hlinked.append hlinked', hstored'.of_get hget, hfits'⟩, fun x hx => ?_⟩
      rcases mem_append.mp hx with hx | hx
      · exact hi.accepted x hx
      · exact haccepted x hx

theorem run_inv {c h₀ : UInt64} {vs₀ : QuorumValSet} {db : OverlayDB}
    (hs : Stored c (CacheDB.new db) h₀ vs₀) (hfits : Fits vs₀) (events : List Event) :
    RunInv c h₀ vs₀ (run L c db events) := by
  have hfold : ∀ (events : List Event) (acc : OverlayDB × List (Change L)), RunInv c h₀ vs₀ acc →
      RunInv c h₀ vs₀ (events.foldl (step c) acc) := by
    intro events
    induction events with
    | nil => exact fun _ h => h
    | cons e events ih => exact fun acc h => ih _ (step_inv h)
  apply hfold
  exact ⟨⟨h₀, vs₀, ⟨rfl, rfl⟩, hs, hfits⟩, nofun⟩

/-- After a genesis header, over any calls: the records of its chain go through the accepted
changes, and each is endorsed exactly if the lists go on alike after their first difference and the
seals are of enough different addresses. With four members an endorsed change has the seal of an
old member. -/
theorem change_endorsed_iff {env : NativeService} {db : OverlayDB} {r : Bytes}
    {params : SyncGenesisHeaderParam}
    (hparams : decode SyncGenesisHeaderParam.deserialization env.input = .ok params)
    (hgenesis : (callContract (answered (syncGenesisHeader C L)) env db).1 = .ok r)
    (events : List Event) :
    let db₀ := (callContract (answered (syncGenesisHeader C L)) env db).2
    let out := run L params.chainID db₀ events
    (∃ h₀ vs₀ h vs, Stored params.chainID (CacheDB.new db₀) h₀ vs₀ ∧ Linked h₀ vs₀ out.2 h vs ∧
        Stored params.chainID (CacheDB.new out.1) h vs) ∧
      ∀ x ∈ out.2, (Endorsed x ↔ Sound x) ∧
        (Endorsed x → 4 ≤ x.after.length → ∃ a ∈ x.before, Sealed x.header a) := by
  intro db₀ out
  cases hr : (answered (syncGenesisHeader C L)).run { env with cacheDB := CacheDB.new db } with
  | error e =>
    rw [callContract, hr] at hgenesis
    cases hgenesis
  | ok x =>
    obtain ⟨params', header, extra, hparams', hextra, hstored⟩ :=
      syncGenesisHeader_ok (answered_ok hr)
    cases ok_unique hparams hparams'
    have hstored₀ : Stored params.chainID (CacheDB.new db₀) (L.number header) extra.validators :=
      hstored.of_get (get_callContract_ok within_syncGenesisHeader hr)
    have hinv := run_inv (L := L) hstored₀ (fits_of_extract hextra) events
    obtain ⟨h, vs, hlinked, hlast, -⟩ := hinv.linked
    refine ⟨⟨_, _, h, vs, hstored₀, hlinked, hlast⟩, fun x hx => ?_⟩
    exact ⟨(hinv.accepted x hx).endorsed_iff, Endorsed.old_member_sealed⟩

/-- A library in which an address is one byte, written in the seal itself. -/
def openQuorum : QuorumLib where
  Header := UInt64 × Bytes
  newHeader := (0, [])
  unmarshal raw _ :=
    match raw with
    | [] => .error (.error "unexpected end of JSON input")
    | n :: extra => .ok (n.toUInt64, extra)
  number := Prod.fst
  mixDigest _ := Uint256.empty
  extra := Prod.snd
  withExtra h extra := (h.1, extra)
  hash h := zeroPad 32 h.2
  rlpHash _ := Uint256.empty
  decodeExtra
    | n :: sig :: rest => .ok ⟨(rest.take n.toNat).map fun b => zeroPad 20 [b], [sig],
        (rest.drop n.toNat).map fun b => [b]⟩
    | _ => .error (.error "rlp: input too short")
  encodeExtra _ := .ok []
  getSignatureAddress _ sig := .ok (zeroPad 20 sig)
  addressHex a := toHex a.val
  validators_size bs e h := by
    match bs, h with
    | n :: sig :: rest, h =>
      obtain rfl := Except.ok.inj h
      have hn := n.toNat_lt
      simp only [List.length_map, List.length_take]
      omega

/-- A header with its number, its validators, the proposer's seal and the committed seals. -/
def sampleHeader (number : UInt8) (vals : Bytes) (sig : UInt8) (committed : Bytes) : Bytes :=
  number :: List.replicate 32 0 ++ UInt8.ofNat vals.length :: sig :: vals ++ committed

/-- The operator's call with three validators. -/
def sampleGenesis : NativeService :=
  { sampleService (SyncGenesisHeaderParam.serialization ⟨5, sampleHeader 1 [1, 2, 3] 1 []⟩) 1 with
    tx := ⟨Uint256.empty, some [Governance.sampleOperator]⟩ }

/-- The storage after the genesis header. -/
abbrev sampleSynced : Result Bytes × OverlayDB :=
  callContract (answered (syncGenesisHeader openCrypto openQuorum)) sampleGenesis
    Governance.sampleInit.2

/-- The new member 9 seals twice; then 7 and 8 come in the place of 9. -/
def sampleSync : NativeService :=
  sampleService (SyncBlockHeaderParam.serialization ⟨5, Address.empty,
    [sampleHeader 2 [1, 2, 3, 9] 9 [9], sampleHeader 3 [1, 2, 3, 7, 8] 7 [8]]⟩) 2

abbrev sampleChanges : List (Change openQuorum) :=
  (run openQuorum 5 sampleSynced.2 [.endBlock, .syncBlockHeader sampleSync]).2

/-- Both changes are accepted, the first without any old member and the second with more than one
element changed. -/
theorem change_unendorsed :
    sampleSynced.1 = .ok BYTE_TRUE ∧
      (∃ x ∈ sampleChanges, ¬ Endorsed x ∧ 4 ≤ x.after.length ∧
        ∀ a ∈ x.before, ¬ Sealed x.header a) ∧
      ∃ x ∈ sampleChanges, ¬ Endorsed x ∧ x.after.faults < (sealers x.header x.after).card ∧
        ¬ OneInserted x.before x.after ∧ ¬ OneInserted x.after x.before := by
  have hfirst : ∃ x ∈ sampleChanges, 4 ≤ x.after.length ∧
      ∀ a ∈ x.before, ¬ Sealed x.header a := by decide +kernel
  have hsecond : ∃ x ∈ sampleChanges, x.after.faults < (sealers x.header x.after).card ∧
      (∃ a ∈ x.before, a ∉ x.after) ∧ ∃ a ∈ x.after, a ∉ x.before := by decide +kernel
  obtain ⟨x, hx, hlen, hsealed⟩ := hfirst
  obtain ⟨y, hy, hseals, ⟨a, ha, ha'⟩, b, hb, hb'⟩ := hsecond
  have hin : ¬ OneInserted y.before y.after := fun hin => ha' (hin.subset ha)
  have hdel : ¬ OneInserted y.after y.before := fun hin => hb' (hin.subset hb)
  refine ⟨by decide +kernel, ⟨x, hx, fun he => ?_, hlen, hsealed⟩, y, hy, fun he => ?_, hseals, hin,
    hdel⟩
  · obtain ⟨a, ha, hs⟩ := he.old_member_sealed hlen
    exact hsealed a ha hs
  · exact he.one_changed.elim hin hdel

theorem change_endorsed_iff_again :
    sampleSynced.1 = .ok BYTE_TRUE ∧ sampleChanges.length = 2 ∧
      ∀ x ∈ sampleChanges, Endorsed x ↔ Sound x := by
  have hparams : decode SyncGenesisHeaderParam.deserialization sampleGenesis.input =
      .ok ⟨5, Quorum.sampleHeader 1 [1, 2, 3] 1 []⟩ := by decide +kernel
  have hgenesis : sampleSynced.1 = .ok BYTE_TRUE := by decide +kernel
  refine ⟨hgenesis, by decide +kernel, fun x hx => ?_⟩
  exact ((change_endorsed_iff hparams hgenesis [.endBlock, .syncBlockHeader sampleSync]).2 x hx).1

end Poly.HeaderSync.Quorum
