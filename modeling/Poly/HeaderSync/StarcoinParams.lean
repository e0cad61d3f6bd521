import Poly.Governance.Runs
import Poly.HeaderSync.Starcoin

/-! The time target and the difficulty window of a submission decide whether its header is stored,
for every new header that passes the other checks. -/
namespace Poly.HeaderSync.Starcoin

open Lib Native

section Reads

variable (L : StcLib) {R : NativeService → NativeService → Prop} [IsPreorder NativeService R]

set_option synthInstance.maxSize 100000

instance (hash : Bytes) (chainID : UInt64) : Within R (getHeaderByHash L hash chainID) := .bind

variable (chainID : UInt64)

instance : Within R (getCurrentHeaderHeight chainID) := .bind

instance (height chainID : UInt64) : Within R (getHeaderByHeight L height chainID) := .bind

instance : Within R (getCurrentHeader L chainID) := .bind

instance (new : L.Block) : Within R (parentOnBranch L chainID new) := by
  refine ⟨fun s a t hr => ?_⟩
  simp only [StateT.run, parentOnBranch] at hr
  split at hr
  · cases hr
  · exact Within.of_run hr

instance (n : ℕ) (new : L.Block) : Within R (climb L chainID n new) := by
  induction n generalizing new with
  | zero => exact .pure _
  | succ n ih => exact .bind

instance (n : ℕ) (current new : L.Block) (height : UInt64) :
    Within R (meet L chainID n current new height) := by
  induction n generalizing current new height with
  | zero => exact inferInstanceAs (Within _ (throw _))
  | succ n ih =>
    unfold meet
    infer_instance

instance (current new : L.Block) :
    Within R (alignCurrent L chainID current new) := by
  unfold alignCurrent
  infer_instance

instance (n : ℕ) (height : UInt64) (hash : Bytes) :
    Within R (lastDifficulties L chainID n height hash) := by
  induction n generalizing height hash with
  | zero => exact .pure _
  | succ n ih => exact .bind

instance (hdr : BlockHeader L.Rest) (chainID timeTarget window : UInt64) :
    Within R (difficultyCalculator L hdr chainID timeTarget window) := by
  refine @Within.bind _ _ _ _ _ _ _ _ _ fun blocks => @Within.bind _ _ _ _ _ _ _ _ _ fun _ => ?_
  split <;> infer_instance

instance (networkId : UInt32) (expected : U256) (hdr : BlockHeader L.Rest) :
    Within R (verifyHeaderDifficulty L networkId expected hdr) := .bind

instance (hash : Bytes) (chainID : UInt64) : Within R (isHeaderExist hash chainID) := .bind

instance (now : ℤ) (chainID : UInt64) (header : L.Block) (raw : Bytes) :
    Within R (checkParent L now chainID header raw) := by
  dsimp only [checkParent]
  infer_instance

instance (networkId : UInt32) (chainID : UInt64) (g : L.Block) (sub : Submission L) (raw : Bytes) :
    Within R (checkDifficulty L networkId chainID g sub raw) := by
  dsimp only [checkDifficulty]
  infer_instance

end Reads

section Stored

/-- There is something under the hash of a header. -/
def HeaderStored (chainID : UInt64) (hash : Bytes) (s : NativeService) : Prop :=
  s.cacheDB.get (syncKeyAt HEADER_INDEX chainID hash) ≠ none

instance (chainID : UInt64) (hash : Bytes) (s : NativeService) :
    Decidable (HeaderStored chainID hash s) :=
  inferInstanceAs (Decidable (_ ≠ none))

variable (L : StcLib) (log : Bool) (chainID : UInt64) (key : Bytes)

instance (height : UInt64) (hash : Bytes) :
    Within (Keeps key) (appendHeader2Main L log height hash chainID) := .bind

instance (hashes : List Bytes) (height : UInt64) :
    Within (Keeps key) (appendBranch L log chainID hashes height) := by
  induction hashes generalizing height with
  | nil => exact .pure _
  | cons hash rest ih => exact .bind

instance (current new : L.Block) : Within (Keeps key) (reStructChain L log chainID current new) :=
  .bind

instance (header : L.Block) : Within (Keeps key) (putBlockHeader L log header chainID) := .bind

instance {header parent : L.Block} {hash : Bytes} :
    Within (Keeps key) (storeHeader L log chainID header parent hash) := .bind

theorem storeHeader_stored {header parent hash s t}
    (hhash : L.getHash header.blockHeader = .ok hash)
    (h : (storeHeader L log chainID header parent hash).run s = .ok ((), t)) :
    HeaderStored chainID hash t := by
  obtain ⟨_, u, hput, hrest⟩ := run_bind_ok.mp h
  refine (Within.bind (R := Keeps _) (x := wrapM _ _)).of_run hrest ?_
  obtain ⟨bytes, _, hb, hput⟩ := run_bind_ok.mp hput
  obtain ⟨hash', _, hget, hput⟩ := run_bind_ok.mp hput
  obtain ⟨hhash', rfl⟩ := run_lift_ok.mp hget
  obtain rfl : hash = hash' := ok_unique hhash hhash'
  obtain ⟨_, v, hitem, hnotify⟩ := run_bind_ok.mp hput
  refine Within.of_run (R := Keeps _) hnotify ?_
  rw [get_putItem hitem]
  simp

end Stored

section Accepted

variable (L : StcLib)

/-- The checks that a header passes whatever comes with it. -/
structure Passes (now : ℤ) (chainID : UInt64) (header parent : L.Block) (s : NativeService) :
    Prop where
  found : (getHeaderByHash L header.blockHeader.parentHash chainID).run s = .ok (parent, s)
  number : header.blockHeader.number = parent.blockHeader.number + 1
  total : header.blockInfo.totalDifficulty =
    parent.blockInfo.totalDifficulty + header.blockHeader.difficulty
  hash : L.getHash parent.blockHeader = .ok header.blockHeader.parentHash
  extra : header.blockHeader.extra.length ≤ MaximumExtraDataSize
  ahead : header.blockHeader.timestamp ≤ latestTimestamp now
  later : parent.blockHeader.timestamp < header.blockHeader.timestamp
  gas : header.blockHeader.gasUsed ≤ 0x7fffffffffffffff

variable {L} {networkId : UInt32} {log : Bool} {clock : ℕ → ℤ} {now : ℤ} {chainID : UInt64}
  {g header parent : L.Block} {sub : Submission L} {raw hash : Bytes} {s t : NativeService}

theorem checkParent_ok_iff :
    (checkParent L now chainID header raw).run s = .ok (parent, t) ↔
      Passes L now chainID header parent s ∧ s = t := by
  simp only [checkParent, run_bind_ok, run_wrapBetween_ok, run_failIf_ok, run_lift_ok,
    run_pure_ok, verifyTotalDifficulty, failIf_ok, not_not, gt_iff_lt, not_lt, UInt64.not_lt,
    UInt64.not_le, ne_eq]
  constructor
  · rintro ⟨p, s₁, hfound, _, _, ⟨hnumber, rfl⟩, _, _, ⟨htotal, rfl⟩, _, _, ⟨hhash, rfl⟩,
      _, _, ⟨rfl, rfl⟩, _, _, ⟨hextra, rfl⟩, _, _, ⟨hahead, rfl⟩, _, _, ⟨hlater, rfl⟩,
      _, _, ⟨hgas, rfl⟩, rfl, rfl⟩
    obtain rfl : s = s₁ := Within.of_run hfound
    exact ⟨⟨hfound, hnumber, htotal, hhash, hextra, hahead, hlater, hgas⟩, rfl⟩
  · rintro ⟨h, rfl⟩
    exact ⟨parent, s, h.found, (), s, ⟨h.number, rfl⟩, (), s, ⟨h.total, rfl⟩, _, s,
      ⟨h.hash, rfl⟩, (), s, ⟨rfl, rfl⟩, (), s, ⟨h.extra, rfl⟩, (), s, ⟨h.ahead, rfl⟩, (), s,
      ⟨h.later, rfl⟩, (), s, ⟨h.gas, rfl⟩, rfl, rfl⟩

theorem checkDifficulty_zero (h : sub.difficultyWindow = 0) :
    ¬ (checkDifficulty L networkId chainID g sub raw).run s = .ok ((), t) := by
  intro hrun
  rw [checkDifficulty, if_pos (by rw [h]; exact UInt64.zero_le)] at hrun
  obtain ⟨expected, u, hcalc, -⟩ := run_bind_ok.mp hrun
  have hcalc := run_wrapBetween_ok.mp hcalc
  rw [difficultyCalculator, h, UInt64.sub_zero, Nat.sub_self] at hcalc
  obtain ⟨blocks, v, hblocks, hcalc⟩ := run_bind_ok.mp hcalc
  cases hblocks
  obtain ⟨e, w, htarget, -⟩ := run_bind_ok.mp hcalc
  cases (run_lift_ok.mp htarget).1

/-- A submitted header passes the loop if it is there already, or passes the checks and can be
stored. -/
theorem syncHeader_ok_iff (hsub : parseHeader L raw = .ok sub)
    (hhash : L.getHash sub.header.blockHeader = .ok hash) :
    (syncHeader L networkId log now chainID g raw).run s = .ok ((), t) ↔
      (HeaderStored chainID hash s ∧ s = t) ∨
      (¬ HeaderStored chainID hash s ∧ ∃ parent, Passes L now chainID sub.header parent s ∧
        (checkDifficulty L networkId chainID g sub raw).run s = .ok ((), s) ∧
        (storeHeader L log chainID sub.header parent hash).run s = .ok ((), t)) := by
  have hparse : (lift (parseHeader L raw)).run s = .ok (sub, s) := run_lift_ok.mpr ⟨hsub, rfl⟩
  have hget : (wrapM "SyncBlockHeader, get header hash err: "
      (lift (L.getHash sub.header.blockHeader))).run s = .ok (hash, s) :=
    run_wrapM_ok.mpr (run_lift_ok.mpr ⟨hhash, rfl⟩)
  have hexist : (isHeaderExist hash chainID).run s =
      .ok ((s.cacheDB.get (syncKeyAt HEADER_INDEX chainID hash)).isSome, s) := rfl
  rw [syncHeader, run_bind_of_ok hparse, run_bind_of_ok hget, run_bind_of_ok hexist]
  by_cases hstored : HeaderStored chainID hash s
  · rw [if_pos (Option.isSome_iff_ne_none.mpr hstored), run_pure_ok]
    simp [hstored]
  · rw [if_neg (fun h => hstored (Option.isSome_iff_ne_none.mp h))]
    simp only [hstored, false_and, false_or, not_false_eq_true, true_and]
    constructor
    · intro hrun
      obtain ⟨parent, u, hcheck, hrun⟩ := run_bind_ok.mp hrun
      obtain ⟨hpasses, rfl⟩ := checkParent_ok_iff.mp hcheck
      obtain ⟨_, u, hdiff, hstore⟩ := run_bind_ok.mp hrun
      obtain rfl : s = u := Within.of_run hdiff
      exact ⟨parent, hpasses, hdiff, hstore⟩
    · rintro ⟨parent, hpasses, hdiff, hstore⟩
      exact run_bind_ok.mpr ⟨parent, s, checkParent_ok_iff.mpr ⟨hpasses, rfl⟩,
        run_bind_ok.mpr ⟨(), s, hdiff, hstore⟩⟩

instance (key : Bytes) : Within (Keeps key) (syncHeader L networkId log now chainID g raw) := .bind

instance (key : Bytes) (raws : List Bytes) (i : ℕ) :
    Within (Keeps key) (syncHeaders L networkId log clock chainID g raws i) := by
  induction raws generalizing i with
  | nil => exact .pure _
  | cons raw rest ih => exact .bind

theorem syncHeaders_append (before after : List Bytes) (i : ℕ) :
    syncHeaders L networkId log clock chainID g (before ++ after) i =
      syncHeaders L networkId log clock chainID g before i >>= fun _ =>
        syncHeaders L networkId log clock chainID g after (i + before.length) := by
  induction before generalizing i with
  | nil => simp [syncHeaders]
  | cons raw rest ih =>
    simp only [List.cons_append, syncHeaders, ih, bind_assoc, List.length_cons]
    rw [Nat.add_assoc, Nat.add_comm 1]

end Accepted

section Params

variable (L : StcLib) (networkId : UInt32) (log : Bool) (clock : ℕ → ℤ)

/-- A call of `SyncBlockHeader` returns, with the header in the store. -/
def Stores (s : NativeService) (params : SyncBlockHeaderParam) (hash : Bytes) : Prop :=
  ∃ t, (syncParams L networkId log clock params).run s = .ok ((), t) ∧
    HeaderStored params.chainID hash t

instance (s : NativeService) (params : SyncBlockHeaderParam) (hash : Bytes) :
    Decidable (Stores L networkId log clock s params hash) :=
  match h : (syncParams L networkId log clock params).run s with
  | .ok ((), t) => decidable_of_iff (HeaderStored params.chainID hash t)
      ⟨fun ht => ⟨t, h, ht⟩, fun ⟨_, h', ht⟩ => (Prod.mk.inj (ok_unique h h')).2 ▸ ht⟩
  | .error _ => .isFalse fun ⟨_, h', _⟩ => nomatch h.symm.trans h'

/-- Two calls that differ in what comes with one header store it both or neither. -/
def SameFate (s : NativeService) (chainID : UInt64) (before after : List Bytes)
    (header : L.Block) : Prop :=
  ∀ address raw raw' sub sub' hash, parseHeader L raw = .ok sub → parseHeader L raw' = .ok sub' →
    sub.header = header → sub'.header = header → L.getHash header.blockHeader = .ok hash →
    (Stores L networkId log clock s ⟨chainID, address, before ++ raw :: after⟩ hash ↔
      Stores L networkId log clock s ⟨chainID, address, before ++ raw' :: after⟩ hash)

/-- The state in which a call comes to the header after `before`. -/
def Reached (s : NativeService) (chainID : UInt64) (before : List Bytes) (g : L.Block)
    (u : NativeService) : Prop :=
  (getGenesisBlockHeader L chainID).run s = .ok (g, s) ∧
    (syncHeaders L networkId log clock chainID g before 0).run s = .ok ((), u)

/-- A header that is there already, or fails one of the checks that read nothing but it. -/
def Settled (now : ℤ) (chainID : UInt64) (header : L.Block) (u : NativeService) : Prop :=
  (∀ hash, L.getHash header.blockHeader = .ok hash → HeaderStored chainID hash u) ∨
    ∀ parent, ¬ Passes L now chainID header parent u

variable {L networkId log clock} {s : NativeService} {chainID : UInt64} {before after : List Bytes}
  {header : L.Block}

theorem stores_iff {address raw hash sub} (hsub : parseHeader L raw = .ok sub)
    (hhash : L.getHash sub.header.blockHeader = .ok hash) :
    Stores L networkId log clock s ⟨chainID, address, before ++ raw :: after⟩ hash ↔
      ∃ g u v t, Reached L networkId log clock s chainID before g u ∧
        (syncHeader L networkId log (clock before.length) chainID g raw).run u = .ok ((), v) ∧
        (syncHeaders L networkId log clock chainID g after (before.length + 1)).run v =
          .ok ((), t) := by
  have hgenesis : Within Eq (getGenesisBlockHeader L chainID) := .bind
  constructor
  · rintro ⟨t, hrun, -⟩
    obtain ⟨g, s', hg, hrun⟩ := run_bind_ok.mp hrun
    obtain rfl : s = s' := hgenesis.of_run (run_wrapM_ok.mp hg)
    simp only [syncHeaders_append, Nat.zero_add] at hrun
    obtain ⟨_, u, hbefore, hrun⟩ := run_bind_ok.mp hrun
    obtain ⟨_, v, hheader, hafter⟩ := run_bind_ok.mp hrun
    exact ⟨g, u, v, t, ⟨run_wrapM_ok.mp hg, hbefore⟩, hheader, hafter⟩
  · rintro ⟨g, u, v, t, ⟨hg, hbefore⟩, hheader, hafter⟩
    refine ⟨t, ?_, Within.of_run (R := Keeps _) hafter ?_⟩
    · refine run_bind_ok.mpr ⟨g, s, run_wrapM_ok.mpr hg, ?_⟩
      simp only [syncHeaders_append, Nat.zero_add]
      exact run_bind_ok.mpr ⟨(), u, hbefore, run_bind_ok.mpr ⟨(), v, hheader, hafter⟩⟩
    · rcases (syncHeader_ok_iff hsub hhash).mp hheader with ⟨hstored, rfl⟩ | ⟨-, parent, -, -, hstore⟩
      · exact hstored
      · exact storeHeader_stored L log chainID hhash hstore

/-- What comes with a settled header does not matter for what becomes of it. -/
theorem syncHeader_of_settled {now g raw raw' sub sub' u v}
    (hset : Settled L now chainID sub.header u) (hsub : parseHeader L raw = .ok sub)
    (hsub' : parseHeader L raw' = .ok sub') (heq : sub'.header = sub.header) {hash}
    (hhash : L.getHash sub.header.blockHeader = .ok hash)
    (h : (syncHeader L networkId log now chainID g raw).run u = .ok ((), v)) :
    (syncHeader L networkId log now chainID g raw').run u = .ok ((), v) := by
  have hhash' : L.getHash sub'.header.blockHeader = .ok hash := by rw [heq, hhash]
  rcases (syncHeader_ok_iff hsub hhash).mp h with hstored | ⟨hnew, parent, hpasses, -, -⟩
  · exact (syncHeader_ok_iff hsub' hhash').mpr (Or.inl hstored)
  · rcases hset with hstored | hfails
    · exact absurd (hstored hash hhash) hnew
    · exact absurd hpasses (hfails parent)

/-- Two submissions of a header have the same fate if the header is settled when the call comes to
it, and only then: a new header that passes the other checks, and that the store can take, is stored
with a window longer than its distance from the genesis header and is not stored with an empty
one. -/
theorem sameFate_settled (L : StcLib) (networkId : UInt32) (log : Bool) (clock : ℕ → ℤ)
    (s : NativeService) (chainID : UInt64) (before : List Bytes) (header : L.Block) :
    ((∀ g u, Reached L networkId log clock s chainID before g u →
        Settled L (clock before.length) chainID header u) →
      ∀ after, SameFate L networkId log clock s chainID before after header) ∧
    ∀ g u parent hash t, Reached L networkId log clock s chainID before g u →
      L.getHash header.blockHeader = .ok hash →
      (storeHeader L log chainID header parent hash).run u = .ok ((), t) →
      (∃ raw sub, parseHeader L raw = .ok sub ∧ sub.header = header ∧ sub.difficultyWindow = 0) →
      (∃ raw sub, parseHeader L raw = .ok sub ∧ sub.header = header ∧
        header.blockHeader.number - g.blockHeader.number < sub.difficultyWindow) →
      SameFate L networkId log clock s chainID before [] header →
      HeaderStored chainID hash u ∨ ¬ Passes L (clock before.length) chainID header parent u := by
  constructor
  · intro hset after address raw raw' sub sub' hash hsub hsub' hheader hheader' hhash
    subst hheader
    have hhash' : L.getHash sub'.header.blockHeader = .ok hash := by rw [hheader', hhash]
    rw [stores_iff hsub hhash, stores_iff hsub' hhash']
    constructor
    · rintro ⟨g, u, v, t, hreach, hrun, hafter⟩
      exact ⟨g, u, v, t, hreach,
        syncHeader_of_settled (hset g u hreach) hsub hsub' hheader' hhash hrun, hafter⟩
    · rintro ⟨g, u, v, t, hreach, hrun, hafter⟩
      have hset' : Settled L (clock before.length) chainID sub'.header u := by
        rw [hheader']
        exact hset g u hreach
      exact ⟨g, u, v, t, hreach,
        syncHeader_of_settled hset' hsub' hsub hheader'.symm hhash' hrun, hafter⟩
  · rintro g u parent hash t hreach hhash hstore ⟨raw, sub, hsub, hheader, hzero⟩
      ⟨raw', sub', hsub', rfl, hlong⟩ hsame
    by_contra hcond
    obtain ⟨hnew, hpasses⟩ := not_or.mp hcond
    have hhash₀ : L.getHash sub.header.blockHeader = .ok hash := by rw [hheader, hhash]
    have hpasses := not_not.mp hpasses
    -- the long window lets the header through
    have hunchecked : (checkDifficulty L networkId chainID g sub' raw').run u = .ok ((), u) := by
      rw [checkDifficulty, if_neg (UInt64.not_le.mpr hlong)]
      rfl
    have hlongRun : (syncHeader L networkId log (clock before.length) chainID g raw').run u =
        .ok ((), t) :=
      (syncHeader_ok_iff hsub' hhash).mpr
        (Or.inr ⟨hnew, parent, hpasses, hunchecked, hstore⟩)
    have hstored : Stores L networkId log clock s ⟨chainID, Address.empty, before ++ [raw']⟩ hash :=
      (stores_iff hsub' hhash).mpr ⟨g, u, t, t, hreach, hlongRun, rfl⟩
    -- so the empty window has to let it through as well
    obtain ⟨g', u', v, -, hreach', hrun, -⟩ := (stores_iff hsub hhash₀).mp
      ((hsame _ _ _ _ _ _ hsub hsub' hheader rfl hhash).mpr hstored)
    obtain rfl : g = g' := (Prod.mk.inj (ok_unique hreach.1 hreach'.1)).1
    obtain rfl : u = u' := (Prod.mk.inj (ok_unique hreach.2 hreach'.2)).2
    rcases (syncHeader_ok_iff hsub hhash₀).mp hrun with ⟨hold, -⟩ | ⟨-, -, -, hdiff, -⟩
    · exact hnew hold
    · exact checkDifficulty_zero hzero hdiff

end Params

/-- A block with a number, the hash of its parent, a difficulty and a total difficulty. -/
def sampleBlock : Bytes → Result (BlockHeaderAndBlockInfo Unit Unit)
  | [number, above, parentDifficulty, difficulty, total] =>
    .ok ⟨⟨[above, parentDifficulty], number.toUInt64, number.toUInt64, 0,
      BitVec.ofNat 256 difficulty.toNat, 0, [], ()⟩, ⟨BitVec.ofNat 256 total.toNat, ()⟩⟩
  | _ => .error (.error "no block")

/-- A block is hashed to its number and difficulty; a proof of work is right if it has the expected
difficulty. -/
def sampleStc : StcLib where
  Rest := Unit
  InfoRest := Unit
  JsonHeader := BlockHeader Unit
  JsonInfo := BlockInfo Unit
  unmarshalHeaderAndInfo raw := do
    let block ← sampleBlock raw
    return (block.blockHeader, block.blockInfo)
  unmarshalWithDifficulty raw := do
    let block ← sampleBlock (raw.take 5)
    return (block.blockHeader, block.blockInfo, (raw.getD 5 0).toUInt64, (raw.getD 6 0).toUInt64)
  toTypesHeader := .ok
  toTypesBlockInfo := .ok
  getHash h := .ok [h.number.toUInt8, UInt8.ofNat h.difficulty.toNat]
  toHeaderBlob _ := .ok []
  bcsSerialize block := .ok ([block.blockHeader.number.toUInt8] ++ block.blockHeader.parentHash ++
    [UInt8.ofNat block.blockHeader.difficulty.toNat, UInt8.ofNat block.blockInfo.totalDifficulty.toNat])
  bcsDeserialize := sampleBlock
  bytesToHexString := id
  cryptonight expected difficulty _ _ _ := .ok (expected == difficulty)
  argon _ _ _ _ _ := .ok true
  argon2Hash := .ok

/-- The storage after the operator's genesis header, of difficulty 16. -/
abbrev sampleSynced : Result Bytes × OverlayDB :=
  callContract (answered (syncGenesisHeader openCrypto sampleStc true))
    { sampleService (SyncGenesisHeaderParam.serialization ⟨5, [0, 0, 0, 16, 16]⟩) 1 with
      tx := ⟨Uint256.empty, some [Governance.sampleOperator]⟩ } Governance.sampleInit.2

/-- The next call. -/
abbrev sampleNext : NativeService :=
  { sampleService [] 2 with cacheDB := CacheDB.new sampleSynced.2 }

/-- A child of the genesis header of difficulty 1. -/
def sampleChild : Bytes := [1, 0, 16, 1, 17]

/-- It is stored with a window of two headers, and is not with a window of one. -/
theorem sameFate_window :
    sampleSynced.1 = .ok BYTE_TRUE ∧
    (parseHeader sampleStc (sampleChild ++ [10, 2])).map Submission.header =
      (parseHeader sampleStc (sampleChild ++ [10, 1])).map Submission.header ∧
    Stores sampleStc 1 true (fun _ => 0) sampleNext ⟨5, Address.empty, [sampleChild ++ [10, 2]]⟩
      [1, 1] ∧
    ¬ Stores sampleStc 1 true (fun _ => 0) sampleNext ⟨5, Address.empty, [sampleChild ++ [10, 1]]⟩
      [1, 1] := by
  refine ⟨by decide +kernel, rfl, by decide +kernel, by decide +kernel⟩

instance : DecidableEq sampleStc.Block :=
  inferInstanceAs (DecidableEq (BlockHeaderAndBlockInfo Unit Unit))

/-- The genesis header of the sample. -/
def sampleRoot : sampleStc.Block := ⟨⟨[0, 0], 0, 0, 0, 16, 0, [], ()⟩, ⟨16, ()⟩⟩

def sampleHeader : sampleStc.Block := ⟨⟨[0, 16], 1, 1, 0, 1, 0, [], ()⟩, ⟨17, ()⟩⟩

/-- The genesis header comes to the same whatever comes with it, and its child does not. -/
theorem sameFate_settled_root :
    (∀ after, SameFate sampleStc 1 true (fun _ => 0) sampleNext 5 [] after sampleRoot) ∧
      ¬ SameFate sampleStc 1 true (fun _ => 0) sampleNext 5 [] [] sampleHeader := by
  constructor
  · apply (sameFate_settled sampleStc 1 true (fun _ => 0) sampleNext 5 [] sampleRoot).1
    rintro g u ⟨-, hu⟩
    cases hu
    left
    intro hash hhash
    cases hhash
    decide +kernel
  · intro hsame
    have hstore : ∃ t, (storeHeader sampleStc true 5 sampleHeader sampleRoot [1, 1]).run sampleNext =
        .ok ((), t) :=
      exists_ok_of_map_fst (by decide +kernel)
    obtain ⟨t, ht⟩ := hstore
    rcases (sameFate_settled sampleStc 1 true (fun _ => 0) sampleNext 5 [] sampleHeader).2 sampleRoot
        sampleNext sampleRoot [1, 1] t ⟨by decide +kernel, rfl⟩ rfl ht
        ⟨sampleChild ++ [10, 0], ⟨sampleHeader, 10, 0⟩, rfl, rfl, rfl⟩
        ⟨sampleChild ++ [10, 2], ⟨sampleHeader, 10, 2⟩, rfl, rfl, by decide⟩ hsame
      with hstored | hfails
    · exact absurd hstored (by decide +kernel)
    · refine hfails ⟨?_, rfl, rfl, ?_, ?_, ?_, ?_, ?_⟩ <;> decide +kernel

end Poly.HeaderSync.Starcoin
