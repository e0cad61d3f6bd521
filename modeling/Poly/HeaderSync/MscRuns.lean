import Poly.HeaderSync.MscSnapshot

/-! Signers of the MSC headers that are stored over a run. -/
namespace Poly.HeaderSync.Msc

open Lib Native CrossChain List

variable (C : Crypto) (L : MscLib) (enableEventLog : Bool)

/-- A call of `SyncBlockHeader` in any transaction and block, with the times at which its headers
are looked at, or the end of a block. -/
inductive Event where
  | syncBlockHeader (env : NativeService) (clock : ℕ → ℤ)
  | endBlock

def step (db : OverlayDB) : Event → OverlayDB
  | .syncBlockHeader env clock =>
    (callContract (answered (syncBlockHeader L enableEventLog clock)) env db).2
  | .endBlock => OverlayDB.new (applyWriteSet db.store db.memdb)

def run (db : OverlayDB) (events : List Event) : OverlayDB := events.foldl (step L enableEventLog) db

/-- JSON texts of headers that were read from JSON, and of their records, are read back as they
were written. -/
structure Lossless : Prop where
  header : ∀ {raw header bytes}, L.unmarshalHeader raw = .ok header →
    L.marshalHeader header = .ok bytes →
    bytes.length < 2 ^ 64 ∧ L.unmarshalHeader bytes = .ok header
  record : ∀ {raw header sum last bytes}, L.unmarshalHeader raw = .ok header →
    L.marshalRecord ⟨header, sum, last⟩ = .ok bytes →
    bytes.length < 2 ^ 64 ∧ L.unmarshalRecord bytes = .ok ⟨header, sum, last⟩

/-- The extra info of a registered chain. -/
def Registered (chainID : UInt64) (info : ExtraInfo) (db : CacheDB) : Prop :=
  ∃ raw bytes side, db.get (sideChainKey chainID) = some raw ∧
    getValueFromRawStorageItem raw = .ok bytes ∧ decode readExtraInfo bytes = .ok side ∧
    L.unmarshalExtraInfo side = .ok info

/-- The records of a chain: its first header, and every stored header with its branch and with what
its seal was checked for. -/
structure Synced (chainID : UInt64) (info : ExtraInfo) (root : HeaderWithDifficultySum)
    (db : CacheDB) : Prop where
  registered : Registered L chainID info db
  genesis : ∃ bytes, db.get (syncKey GENESIS_HEADER chainID) = some (genRawStorageItem bytes) ∧
    bytes.length < 2 ^ 64 ∧ L.unmarshalHeader bytes = .ok root.header
  root_stored : (records L).stored chainID db (L.hash root.header) = some root
  branches : ∀ {hash raw}, db.get (headerKey chainID hash) = some raw →
    ∃ r before, (records L).stored chainID db hash = some r ∧ L.hash r.header = hash ∧
      Branch L info.epoch ((records L).stored chainID db) root r before ∧
      (r = root ∨ ∃ signer snap, Admitted L info.epoch root.header r.header before signer snap)

section Frames

set_option synthInstance.maxSize 100000

section Reads

variable {L} {P : NativeService → NativeService → Prop} [IsPreorder NativeService P]

variable (chainID : UInt64)

instance : Within P (getGenesis L chainID) := .bind_option

instance (n : ℕ) (hash : Uint256) : Within P (collect L chainID n hash) := by
  induction n generalizing hash with
  | zero => exact inferInstanceAs (Within _ (throw _))
  | succ n ih =>
    refine @Within.bind _ _ _ _ _ _ _ _ _ fun headerWS => ?_
    cases headerWS.lastVoteParentOrEpoch <;> infer_instance

variable (ctx : Context)

instance (number : UInt64) (hash : Uint256) (signer : Address) :
    Within P (snapshot L ctx number hash signer) := by
  dsimp only [snapshot]
  infer_instance

instance (header : EthHeader) : Within P (verifySeal L ctx header) := .bind

instance (header : EthHeader) : Within P (verifyCascadingFields L ctx header) :=
  .bind

instance (now : ℤ) (ctx : Context) (header : EthHeader) :
    Within P (verifyHeader L now ctx header) := .bind

instance : Within P (getExtraInfo chainID) := .bind_option

instance (hash : Uint256) : Within P (isHeaderExist chainID hash) := .bind

end Reads

variable {L enableEventLog}

instance (now : ℤ) (ctx : Context) (header : EthHeader) :
    Within (OnlyWrites (Records.ChainKey ctx.chainID))
      (acceptHeader L enableEventLog now ctx header) := .bind

instance (now : ℤ) (ctx : Context) (raw : Bytes) :
    Within (OnlyWrites (Records.ChainKey ctx.chainID)) (syncHeader L enableEventLog now ctx raw) :=
  .bind

instance within_syncHeaders (clock : ℕ → ℤ) (ctx : Context) (headers : List Bytes) (i : ℕ) :
    Within (OnlyWrites (Records.ChainKey ctx.chainID))
      (syncHeaders L enableEventLog clock ctx headers i) := by
  induction headers generalizing i with
  | nil => exact .pure _
  | cons raw rest ih => exact .bind

theorem within_true {α : Type} {Q : Bytes → Prop} {x : NativeM α} (h : Within (OnlyWrites Q) x) :
    Within (OnlyWrites fun _ => True) x :=
  h.mono fun _ _ hw => hw.mono fun _ _ => trivial

theorem within_syncBlockHeader (clock : ℕ → ℤ) :
    Within (OnlyWrites fun _ => True) (answered (syncBlockHeader L enableEventLog clock)) := by
  have (ctx : Context) (headers : List Bytes) (i : ℕ) : Within (OnlyWrites fun _ => True)
      (syncHeaders L enableEventLog clock ctx headers i) :=
    within_true (within_syncHeaders clock ctx headers i)
  have : Within (OnlyWrites fun _ => True) (syncBlockHeader L enableEventLog clock) := .bind
  exact .bind

theorem within_syncGenesisHeader :
    Within (OnlyWrites fun _ => True) (answered (syncGenesisHeader C L enableEventLog)) := by
  have (key : Bytes) : Owned (fun _ => True) key := ⟨trivial⟩
  have hgenesis (chainID : UInt64) (header : HeaderWithDifficultySum) :=
    within_true (Q := Records.ChainKey chainID)
      (x := (Msc.records L).putGenesis chainID enableEventLog header) inferInstance
  have (chainID : UInt64) (header : EthHeader) : Within (OnlyWrites fun _ => True)
      (storeGenesis L enableEventLog chainID header) := .bind
  have : Within (OnlyWrites fun _ => True) (syncGenesisHeader C L enableEventLog) := .bind
  exact .bind

end Frames

section Invariant

variable {C L enableEventLog} {chainID : UInt64} {info : ExtraInfo} {root : HeaderWithDifficultySum}
  {s t : NativeService} {u : Unit}

theorem registered_of_getExtraInfo {side} (h : (getExtraInfo chainID).run s = .ok (side, t))
    (hinfo : L.unmarshalExtraInfo side = .ok info) :
    s = t ∧ Registered L chainID info s.cacheDB := by
  obtain ⟨found, s₁, hget, h⟩ := run_bind_ok.mp h
  cases hget
  cases hraw : s.cacheDB.get (sideChainKey chainID) with
  | none =>
    rw [hraw] at h
    cases h
  | some raw =>
    rw [hraw] at h
    obtain ⟨bytes, s₁, hitem, h⟩ := run_bind_ok.mp h
    obtain ⟨hbytes, rfl⟩ := run_lift_ok.mp (run_wrapM_ok.mp hitem)
    obtain ⟨hside, rfl⟩ := run_lift_ok.mp (run_wrapM_ok.mp h)
    exact ⟨rfl, raw, bytes, side, hraw, hbytes, hside, hinfo⟩

theorem Registered.unique {info' db} (h : Registered L chainID info db)
    (h' : Registered L chainID info' db) : info = info' := by
  obtain ⟨raw, bytes, side, hraw, hbytes, hside, hinfo⟩ := h
  obtain ⟨raw', bytes', side', hraw', hbytes', hside', hinfo'⟩ := h'
  cases hraw.symm.trans hraw'
  cases ok_unique hbytes hbytes'
  cases ok_unique hside hside'
  exact ok_unique hinfo hinfo'

/-- The keys that the records of a chain stand under. -/
inductive RecordKey (chainID : UInt64) : Bytes → Prop
  | header (hash : Uint256) : RecordKey chainID (headerKey chainID hash)
  | genesis : RecordKey chainID (syncKey GENESIS_HEADER chainID)
  | sideChain : RecordKey chainID (sideChainKey chainID)

theorem Synced.of_get {db db'} (h : Synced L chainID info root db)
    (hget : ∀ key, RecordKey chainID key → db'.get key = db.get key) :
    Synced L chainID info root db' := by
  have hstored : (records L).stored chainID db' = (records L).stored chainID db :=
    funext fun hash => Records.stored_congr (hget _ (.header hash))
  obtain ⟨raw, bytes, side, hraw, hrest⟩ := h.registered
  obtain ⟨genesisBytes, hgenesis, hparsed⟩ := h.genesis
  refine ⟨⟨raw, bytes, side, (hget _ .sideChain).trans hraw, hrest⟩,
    ⟨genesisBytes, (hget _ .genesis).trans hgenesis, hparsed⟩, ?_, fun {hash raw} hhash => ?_⟩
  · rw [hstored]
    exact h.root_stored
  · rw [hget _ (.header hash)] at hhash
    rw [hstored]
    exact h.branches hhash

/-- The keys of one chain are none that another chain's headers are written to. -/
theorem RecordKey.not_chainKey {key d} (hkey : RecordKey chainID key) (hne : chainID ≠ d) :
    ¬ Records.ChainKey d key := by
  rintro (hcanonical | ⟨hash', hk⟩)
  · cases hkey with
    | header hash => exact Records.not_canonicalKey_headerKey _ _ hcanonical
    | genesis => exact Records.not_canonicalKey_genesis _ hcanonical
    | sideChain => exact Records.not_canonicalKey_sideChain _ hcanonical
  · cases hkey with
    | header hash => exact hne (headerKey_inj.mp hk).1
    | genesis => exact headerKey_ne_genesis _ _ _ hk.symm
    | sideChain => exact sideChainKey_ne _ _ hk

theorem Synced.getGenesis_run (h : Synced L chainID info root s.cacheDB) :
    (getGenesis L chainID).run s = .ok (some root.header, s) := by
  obtain ⟨bytes, hget, hlen, hparsed⟩ := h.genesis
  have hcache : (getCache (syncKey GENESIS_HEADER chainID)).run s =
      .ok (some (genRawStorageItem bytes), s) := by
    rw [← hget]
    rfl
  rw [getGenesis, run_bind_of_ok hcache]
  refine run_bind_ok.mpr ⟨bytes, s, ?_, run_bind_ok.mpr ⟨root.header, s, ?_, rfl⟩⟩
  · exact run_wrapM_ok.mpr (run_lift_ok.mpr ⟨getValueFromRawStorageItem_gen hlen, rfl⟩)
  · exact run_wrapM_ok.mpr (run_lift_ok.mpr ⟨hparsed, rfl⟩)

variable {record : HeaderWithDifficultySum}

theorem newRecord_ok {ctx header parent sum} (h : newRecord L ctx header parent sum = .ok record) :
    record.header = header ∧ record.difficultySum = sum ∧ record.lastVoteParentOrEpoch =
      if Checkpoint ctx.extraInfo.epoch header then none
      else if Checkpoint ctx.extraInfo.epoch parent.header ∨ Voting parent.header then
        some (L.hash parent.header)
      else parent.lastVoteParentOrEpoch := by
  obtain ⟨checkpoint, hck, h⟩ := bind_ok.mp h
  obtain ⟨_, -, hck⟩ := bind_ok.mp hck
  cases hck
  obtain ⟨parentCheckpoint, hpck, h⟩ := bind_ok.mp h
  obtain ⟨_, -, hpck⟩ := bind_ok.mp hpck
  cases hpck
  cases h
  refine ⟨rfl, rfl, ?_⟩
  simp only [decide_eq_true_eq]
  by_cases hc : Checkpoint ctx.extraInfo.epoch header
  · rw [if_pos hc, if_pos hc]
  · by_cases hp : Checkpoint ctx.extraInfo.epoch parent.header
    · rw [if_neg hc, if_neg hc, if_pos hp, if_pos (Or.inl hp)]
    · by_cases hv : Voting parent.header
      · rw [if_neg hc, if_neg hc, if_neg hp, if_pos (Or.inr hv)]
        exact if_pos hv
      · rw [if_neg hc, if_neg hc, if_neg hp, if_neg (not_or.mpr ⟨hp, hv⟩)]
        exact if_neg hv

theorem verifyHeader_ok (hroot : Rooted info.epoch root) (h : Synced L chainID info root s.cacheDB)
    {now header} (hr : (verifyHeader L now ⟨info, chainID⟩ header).run s = .ok (u, t)) :
    s = t ∧ ∃ parent before, (records L).stored chainID s.cacheDB header.parentHash = some parent ∧
      header.parentHash = L.hash parent.header ∧
      header.number64.toNat = parent.header.number64.toNat + 1 ∧
      Branch L info.epoch ((records L).stored chainID s.cacheDB) root parent before ∧
      ∃ signer snap,
        Admitted L info.epoch root.header header (parent.header :: before) signer snap := by
  obtain ⟨_, s₁, hfields, hr⟩ := run_bind_ok.mp hr
  obtain ⟨-, rfl⟩ := run_lift_ok.mp hfields
  obtain ⟨parent, s₁, hget, hr⟩ := run_bind_ok.mp hr
  obtain ⟨hparent, rfl⟩ := Records.getHeader_ok.mp hget
  simp only [run_bind_ok, run_failIf_ok, and_assoc, exists_and_left, exists_eq_left',
    exists_const] at hr
  obtain ⟨hbelow, -, hr⟩ := hr
  obtain ⟨raw, hraw, -⟩ := Option.bind_eq_some_iff.mp hparent
  obtain ⟨r, before, hstored, hhash, hbranch, -⟩ := h.branches hraw
  cases hparent.symm.trans hstored
  obtain ⟨rfl, hnumber, hadmitted⟩ := @verifySeal_ok L info.epoch ⟨info, chainID⟩ s t root parent
    before hroot hbranch h.getGenesis_run header u hhash.symm (not_not.mp hbelow) hr
  exact ⟨rfl, parent, before, hparent, hhash.symm, hnumber, hbranch, hadmitted⟩

variable {raw : Bytes}

variable (hL : Lossless L)
include hL

/-- A record is read back under its hash once it is put, and the others stay. -/
theorem stored_of_put (hraw : L.unmarshalHeader raw = .ok record.header)
    (h : Records.Put (records L) chainID record s t) (hash : Uint256) :
    (records L).stored chainID t.cacheDB hash =
      if hash = L.hash record.header then some record
      else (records L).stored chainID s.cacheDB hash := by
  obtain ⟨bytes, hbytes, hget⟩ := h
  obtain ⟨hlen, hread⟩ := hL.record hraw hbytes
  have hkey : t.cacheDB.get (headerKey chainID hash) =
      if headerKey chainID hash = headerKey chainID (L.hash record.header) then
        some (genRawStorageItem bytes)
      else s.cacheDB.get (headerKey chainID hash) :=
    hget _ (Records.not_canonicalKey_headerKey chainID hash)
  by_cases heq : hash = L.hash record.header
  · rw [if_pos (congrArg (headerKey chainID) heq)] at hkey
    rw [if_pos heq, Records.stored, hkey, Option.bind_some, getValueFromRawStorageItem_gen hlen]
    exact congrArg Except.toOption hread
  · rw [if_neg fun hk => heq (headerKey_inj.mp hk).2] at hkey
    rw [if_neg heq, Records.stored_congr hkey]

theorem Synced.put (h : Synced L chainID info root s.cacheDB) {parent before}
    (hraw : L.unmarshalHeader raw = .ok record.header)
    (hnew : s.cacheDB.get (headerKey chainID (L.hash record.header)) = none)
    (hput : Records.Put (records L) chainID record s t)
    (hhash : record.header.parentHash = L.hash parent.header)
    (hlinked : Linked L info.epoch parent record)
    (hbranch : Branch L info.epoch ((records L).stored chainID s.cacheDB) root parent before)
    (hadmitted : ∃ signer snap,
      Admitted L info.epoch root.header record.header (parent.header :: before) signer snap) :
    Synced L chainID info root t.cacheDB := by
  have hstored := stored_of_put hL hraw hput
  -- nothing was stored under the hash, so what was stored is still there
  have hmono : ∀ hash x, (records L).stored chainID s.cacheDB hash = some x →
      (records L).stored chainID t.cacheDB hash = some x := by
    intro hash x hx
    rw [hstored hash, if_neg, hx]
    rintro rfl
    rw [Records.stored, hnew] at hx
    cases hx
  obtain ⟨bytes, -, hget⟩ := hput
  have hother (key : Bytes) (hkey : ¬ Records.CanonicalKey key)
      (hne : key ≠ headerKey chainID (L.hash record.header)) :
      t.cacheDB.get key = s.cacheDB.get key := (hget key hkey).trans (if_neg hne)
  have hgenesis := hother _ (Records.not_canonicalKey_genesis chainID)
    (headerKey_ne_genesis _ _ _).symm
  have hside := hother _ (Records.not_canonicalKey_sideChain chainID) (sideChainKey_ne _ _)
  obtain ⟨sideRaw, sideBytes, side, hsideRaw, hrest⟩ := h.registered
  obtain ⟨genesisBytes, hgenesisRaw, hparsed⟩ := h.genesis
  refine ⟨⟨sideRaw, sideBytes, side, hside.trans hsideRaw, hrest⟩,
    ⟨genesisBytes, hgenesis.trans hgenesisRaw, hparsed⟩, hmono _ _ h.root_stored,
    fun {hash raw'} hraw' => ?_⟩
  by_cases heq : hash = L.hash record.header
  · subst heq
    have hself := (hstored (L.hash record.header)).trans (if_pos rfl)
    exact ⟨record, parent.header :: before, hself, rfl,
      .child hself hhash hlinked (hbranch.mono hmono), Or.inr hadmitted⟩
  · rw [hother _ (Records.not_canonicalKey_headerKey chainID hash) fun hk =>
      heq (headerKey_inj.mp hk).2] at hraw'
    obtain ⟨r, before', hr, hhash', hbranch', hadmitted'⟩ := h.branches hraw'
    exact ⟨r, before', hmono _ _ hr, hhash', hbranch'.mono hmono, hadmitted'⟩

section

variable (hroot : Rooted info.epoch root)
include hroot

section

variable (h : Synced L chainID info root s.cacheDB)
include h

theorem Synced.acceptHeader {now header} (hraw : L.unmarshalHeader raw = .ok header)
    (hnew : s.cacheDB.get (headerKey chainID (L.hash header)) = none)
    (hr : (acceptHeader L enableEventLog now ⟨info, chainID⟩ header).run s = .ok (u, t)) :
    Synced L chainID info root t.cacheDB := by
  obtain ⟨_, s₁, hverify, hr⟩ := run_bind_ok.mp hr
  obtain ⟨rfl, parent, before, hparent, hhash, hnumber, hbranch, hadmitted⟩ :=
    verifyHeader_ok hroot h (run_wrapM_ok.mp hverify)
  obtain ⟨_, s₁, hadd, hr⟩ := run_bind_ok.mp hr
  obtain ⟨parent', record, hparent', hrecord, hput⟩ := Records.addHeader_ok (run_wrapM_ok.mp hadd)
  cases hparent.symm.trans hparent'
  obtain ⟨rfl, -, hlast⟩ := newRecord_ok hrecord
  have hsynced := h.put hL hraw hnew hput hhash ⟨hnumber, hlast⟩ hbranch hadmitted
  have hnotify : OnlyWrites (fun _ => False) s₁ t := Within.of_run hr
  exact hsynced.of_get fun key _ => hnotify.get_eq key not_false

theorem Synced.syncHeader {now : ℤ}
    (hr : (syncHeader L enableEventLog now ⟨info, chainID⟩ raw).run s = .ok (u, t)) :
    Synced L chainID info root t.cacheDB := by
  obtain ⟨header, s₁, hlift, hr⟩ := run_bind_ok.mp hr
  obtain ⟨hraw, rfl⟩ := run_lift_ok.mp (run_wrapM_ok.mp hlift)
  obtain ⟨exist, s₁, hexist, hr⟩ := run_bind_ok.mp hr
  cases hexist
  split at hr
  · cases hr
    exact h
  next hnone =>
    obtain ⟨parentExist, s₁, hparent, hr⟩ := run_bind_ok.mp hr
    cases hparent
    split at hr
    · exact h.acceptHeader hL hroot hraw (by simpa using hnone) hr
    · cases hr
      exact h

theorem Synced.syncHeaders {clock : ℕ → ℤ} {headers i}
    (hr : (syncHeaders L enableEventLog clock ⟨info, chainID⟩ headers i).run s = .ok (u, t)) :
    Synced L chainID info root t.cacheDB := by
  induction headers generalizing s i with
  | nil =>
    cases hr
    exact h
  | cons raw rest ih =>
    obtain ⟨_, s₁, hhead, hr⟩ := run_bind_ok.mp hr
    exact ih (h.syncHeader hL hroot hhead) hr

/-- A call for the chain goes on with its records; one for another chain does not touch them. -/
theorem Synced.syncBlockHeader {clock : ℕ → ℤ}
    (hr : (syncBlockHeader L enableEventLog clock).run s = .ok (u, t)) :
    Synced L chainID info root t.cacheDB := by
  simp only [Msc.syncBlockHeader, run_bind_ok, run_getInput_ok, run_lift_ok, run_wrapM_ok,
    and_assoc, exists_and_left, exists_eq_left'] at hr
  obtain ⟨params, -, side, s₁, hside, info', hinfo', hr⟩ := hr
  obtain ⟨rfl, hregistered⟩ := registered_of_getExtraInfo hside hinfo'
  by_cases hc : chainID = params.chainID
  · subst hc
    cases h.registered.unique hregistered
    exact h.syncHeaders hL hroot hr
  · have hw := (within_syncHeaders (L := L) _ _ _ _).of_run hr
    exact h.of_get fun key hkey => hw.get_eq key (hkey.not_chainKey hc)

end

theorem step_synced {db} (h : Synced L chainID info root (CacheDB.new db)) (e : Event) :
    Synced L chainID info root (CacheDB.new (step L enableEventLog db e)) := by
  cases e with
  | endBlock => exact h.of_get fun key _ => get_applyWriteSet db.store db.memdb _
  | syncBlockHeader env clock =>
    cases hr : (answered (Msc.syncBlockHeader L enableEventLog clock)).run
        { env with cacheDB := CacheDB.new db } with
    | error e =>
      have hcall : step L enableEventLog db (.syncBlockHeader env clock) = db := by
        rw [step, callContract, hr]
      rw [hcall]
      exact h
    | ok out =>
      obtain ⟨r, t⟩ := out
      have hsynced : Synced L chainID info root t.cacheDB :=
        Synced.syncBlockHeader hL hroot (s := { env with cacheDB := CacheDB.new db }) h
          (answered_ok hr)
      exact hsynced.of_get fun key _ => get_callContract_ok (within_syncBlockHeader clock) hr key

theorem run_synced {db} (h : Synced L chainID info root (CacheDB.new db)) (events : List Event) :
    Synced L chainID info root (CacheDB.new (run L enableEventLog db events)) := by
  induction events generalizing db with
  | nil => exact h
  | cons e events ih => exact ih (step_synced hL hroot h e)

end

theorem storeGenesis_synced {genesis} (hraw : L.unmarshalHeader raw = .ok genesis)
    (hregistered : Registered L chainID info s.cacheDB)
    (hfresh : ∀ hash, s.cacheDB.get (headerKey chainID hash) = none)
    (hr : (storeGenesis L enableEventLog chainID genesis).run s = .ok (u, t)) :
    Synced L chainID info ⟨genesis, genesis.difficulty, none⟩ t.cacheDB := by
  obtain ⟨genesisBytes, s₁, hlift, hr⟩ := run_bind_ok.mp hr
  obtain ⟨hmarshal, rfl⟩ := run_lift_ok.mp hlift
  obtain ⟨hlen, hread⟩ := hL.header hraw hmarshal
  obtain ⟨_, s₁, hitem, hr⟩ := run_bind_ok.mp hr
  have hget := get_putItem hitem
  obtain ⟨_, s₂, hrecord, hr⟩ := run_bind_ok.mp hr
  have hput := (Records.putHeaderWithSum_ok hrecord).then (Within.of_run hr)
  have hstored := stored_of_put hL hraw hput
  obtain ⟨bytes, -, hafter⟩ := hput
  have hother (key : Bytes) (hkey : ¬ Records.CanonicalKey key)
      (hne : key ≠ headerKey chainID (L.hash genesis)) :
      t.cacheDB.get key = s₁.cacheDB.get key := (hafter key hkey).trans (if_neg hne)
  have hself := (hstored (L.hash genesis)).trans (if_pos rfl)
  obtain ⟨sideRaw, sideBytes, side, hsideRaw, hrest⟩ := hregistered
  refine ⟨⟨sideRaw, sideBytes, side, ?_, hrest⟩, ⟨genesisBytes, ?_, hlen, hread⟩, hself,
    fun {hash raw'} hraw' => ?_⟩
  · rw [hother _ (Records.not_canonicalKey_sideChain chainID) (sideChainKey_ne _ _), hget]
    exact hsideRaw
  · rw [hother _ (Records.not_canonicalKey_genesis chainID) (headerKey_ne_genesis _ _ _).symm, hget,
      if_pos rfl]
  · by_cases heq : hash = L.hash genesis
    · subst heq
      exact ⟨_, [], hself, rfl, .root hself, Or.inl rfl⟩
    · rw [hother _ (Records.not_canonicalKey_headerKey chainID hash)
        fun hk => heq (headerKey_inj.mp hk).2, hget, hfresh]
        at hraw'
      cases hraw'

theorem syncGenesisHeader_synced {params}
    (hparams : decode SyncGenesisHeaderParam.deserialization s.input = .ok params)
    (hfresh : ∀ hash, s.cacheDB.get (headerKey params.chainID hash) = none)
    (hr : (syncGenesisHeader C L enableEventLog).run s = .ok (u, t)) :
    ∃ info root, Registered L params.chainID info s.cacheDB ∧
      L.unmarshalHeader params.genesisHeader = .ok root.header ∧ Rooted info.epoch root ∧
      Synced L params.chainID info root t.cacheDB := by
  simp only [Msc.syncGenesisHeader, run_bind_ok, run_getInput_ok, run_failIf_ok, run_lift_ok,
    run_wrapM_ok, and_assoc, exists_and_left, exists_eq_left', exists_const] at hr
  obtain ⟨params', hparams', side, s₁, hside, info, hinfo', -, -, operator, s₂, hoperator, _, s₃,
    howner, stored, s₄, hstored, -, genesis, hgenesis, hcheckpoint, -, hr⟩ := hr
  cases ok_unique hparams hparams'
  obtain ⟨rfl, hregistered⟩ := registered_of_getExtraInfo hside hinfo'
  obtain rfl : s = s₂ := Within.of_run hoperator
  obtain rfl : s = s₃ := Within.of_run howner
  obtain rfl : s = s₄ := Within.of_run hstored
  refine ⟨info, ⟨genesis, genesis.difficulty, none⟩, hregistered, hgenesis,
    ⟨not_not.mp hcheckpoint, rfl⟩, ?_⟩
  exact storeGenesis_synced hL hgenesis hregistered hfresh hr

end Invariant

variable {C L enableEventLog}

variable (L) in
/-- The header was signed by one of the signers after the headers before it, who signed none of the
last headers, half as many as there are signers. -/
def Authorised (epoch : UInt64) (header : EthHeader) (before : List EthHeader) : Prop :=
  ∃ signer snap, ecrecover L header = .ok signer ∧ signersAfter L epoch before = .ok snap ∧
    snap.isSigner signer = true ∧
    ∀ a ∈ before.take (snap.signers.size / 2), ecrecover L a ≠ .ok signer

/-- After a first header of a chain, over any calls: every other header that is stored stands on its
branch, with a signer set after it. A signer in turn is in the set; a signer of none of the headers
that are looked at first has signed none of the recent ones; with both the header is authorised. -/
theorem stored_admitted (hL : Lossless L) {env : NativeService} {db : OverlayDB} {answer : Bytes}
    {params : SyncGenesisHeaderParam}
    (hparams : decode SyncGenesisHeaderParam.deserialization env.input = .ok params)
    (hfresh : ∀ hash, (CacheDB.new db).get (headerKey params.chainID hash) = none)
    (hgenesis : (callContract (answered (syncGenesisHeader C L enableEventLog)) env db).1 =
      .ok answer) (events : List Event) :
    let db₀ := (callContract (answered (syncGenesisHeader C L enableEventLog)) env db).2
    let find := (records L).stored params.chainID (CacheDB.new (run L enableEventLog db₀ events))
    ∃ info root, Registered L params.chainID info (CacheDB.new db) ∧
      L.unmarshalHeader params.genesisHeader = .ok root.header ∧
      ∀ hash r, find hash = some r → r = root ∨ ∃ before signer snap,
        Branch L info.epoch find root r before ∧
        Admitted L info.epoch root.header r.header before signer snap ∧
        (r.header.difficulty = diffInTurn →
          (∀ a ∈ root.header :: anchors info.epoch before, ecrecover L a ≠ .ok signer) →
          r.header.number64.toNat + snap.signers.size / 2 < 2 ^ 64 →
          Authorised L info.epoch r.header before) := by
  intro db₀ find
  cases hr : (answered (syncGenesisHeader C L enableEventLog)).run
      { env with cacheDB := CacheDB.new db } with
  | error e =>
    rw [callContract, hr] at hgenesis
    cases hgenesis
  | ok out =>
    obtain ⟨info, root, hregistered, hheader, hroot, hsynced⟩ :=
      syncGenesisHeader_synced (s := { env with cacheDB := CacheDB.new db }) hL hparams hfresh
        (answered_ok hr)
    have hsynced₀ : Synced L params.chainID info root (CacheDB.new db₀) :=
      hsynced.of_get fun key _ => get_callContract_ok (within_syncGenesisHeader C) hr key
    have hend : Synced L params.chainID info root
        (CacheDB.new (run L enableEventLog db₀ events)) := run_synced hL hroot hsynced₀ events
    refine ⟨info, root, hregistered, hheader, fun hash r hfind => ?_⟩
    obtain ⟨raw, hraw, -⟩ := Option.bind_eq_some_iff.mp hfind
    obtain ⟨r', before, hstored, -, hbranch, hadmitted⟩ := hend.branches hraw
    cases hfind.symm.trans hstored
    rcases hadmitted with rfl | ⟨signer, snap, hadmitted⟩
    · exact Or.inl rfl
    · refine Or.inr ⟨before, signer, snap, hbranch, hadmitted, fun hturn hunseen hfits => ?_⟩
      exact ⟨signer, snap, hadmitted.signer_eq, hadmitted.signers_eq, hadmitted.isSigner hturn,
        hadmitted.not_recent hunseen hfits⟩

/-- A header by its number, coinbase, difficulty, nonce and signer, its parent's number and signer,
and a list of signers. -/
def sampleFields (number coinbase difficulty nonce signer parentNumber parentSigner : UInt8)
    (signers : Bytes) : EthHeader where
  parentHash := zeroPad 32 [1, parentNumber, parentSigner]
  uncleHash := Uint256.empty
  coinbase := zeroPad 20 [coinbase]
  difficulty := difficulty.toNat
  number := number.toNat
  gasLimit := 0
  gasUsed := 0
  time := number.toUInt64
  extra := List.replicate 32 0 ++ signers.flatMap (fun b => (zeroPad 20 [b]).val) ++
    List.replicate 65 0
  mixDigest := Uint256.empty
  nonce := if nonce = 0 then nonceDropVote else nonceAuthVote
  rest := number :: coinbase :: difficulty :: nonce :: signer :: parentNumber :: parentSigner ::
    signers

def sampleHeader : Bytes → Result EthHeader
  | number :: coinbase :: difficulty :: nonce :: signer :: parentNumber :: parentSigner :: signers =>
    .ok (sampleFields number coinbase difficulty nonce signer parentNumber parentSigner signers)
  | _ => .error (.error "unexpected end of JSON input")

/-- A library in which a header is hashed to its number and its signer. -/
def sampleMsc : MscLib where
  hash header := zeroPad 32 [1, UInt8.ofNat header.number, header.rest.getD 4 0]
  uncleHash := Uint256.empty
  recover header := .ok (zeroPad 20 [header.rest.getD 4 0])
  unmarshalHeader := sampleHeader
  marshalHeader header :=
    if header.rest.length < 2 ^ 32 then .ok header.rest else .error (.error "too long")
  unmarshalRecord bytes := do
    let header ← sampleHeader (bytes.drop 37)
    return ⟨header, leNat (bytes.take 4),
      if bytes.getD 4 0 = 0 then none else some (zeroPad 32 ((bytes.drop 5).take 32))⟩
  marshalRecord r :=
    if r.header.rest.length < 2 ^ 32 ∧ r.difficultySum < 2 ^ 32 then
      .ok (leBytes 4 r.difficultySum ++ (if r.lastVoteParentOrEpoch.isSome then 1 else 0) ::
        (r.lastVoteParentOrEpoch.getD Uint256.empty).val ++ r.header.rest)
    else .error (.error "too long")
  unmarshalExtraInfo
    | [period, epoch] => .ok ⟨period.toUInt64, epoch.toUInt64⟩
    | _ => .error (.error "unexpected end of JSON input")

theorem sampleHeader_rest {raw header} (h : sampleHeader raw = .ok header) : header.rest = raw := by
  match raw, h with
  | _ :: _ :: _ :: _ :: _ :: _ :: _ :: _, h =>
    cases h
    rfl

theorem lossless_sampleMsc : Lossless sampleMsc where
  header {raw header bytes} hraw hbytes := by
    have hrest := sampleHeader_rest hraw
    obtain ⟨hlen, rfl⟩ : header.rest.length < 2 ^ 32 ∧ header.rest = bytes := by
      simp only [sampleMsc] at hbytes
      split at hbytes
      · exact ⟨‹_›, Except.ok.inj hbytes⟩
      · cases hbytes
    exact ⟨hlen.trans (by norm_num), hrest ▸ hraw⟩
  record {raw header sum last bytes} hraw hbytes := by
    have hrest := sampleHeader_rest hraw
    obtain ⟨⟨hlen, hsum⟩, rfl⟩ : (header.rest.length < 2 ^ 32 ∧ sum < 2 ^ 32) ∧
        leBytes 4 sum ++ (if last.isSome then 1 else 0) ::
          ((last.getD Uint256.empty).val ++ header.rest) = bytes := by
      simp only [sampleMsc] at hbytes
      split at hbytes
      · exact ⟨‹_›, Except.ok.inj hbytes⟩
      · cases hbytes
    have h4 : (leBytes 4 sum).length = 4 := leBytes_length 4 sum
    have h32 := (last.getD Uint256.empty).2
    have hdrop : (leBytes 4 sum ++ (if last.isSome then 1 else 0) ::
        ((last.getD Uint256.empty).val ++ header.rest)).drop 5 =
        (last.getD Uint256.empty).val ++ header.rest := by
      rw [drop_append]
      rfl
    have hlast : zeroPad 32 (last.getD Uint256.empty).val = last.getD Uint256.empty := by
      apply Subtype.ext
      have hval := leBytes_leNat (last.getD Uint256.empty).val
      rwa [h32] at hval
    refine ⟨by simp only [length_append, length_cons, h4, h32]; omega, ?_⟩
    refine bind_ok.mpr ⟨header, ?_, ?_⟩
    · rw [show 37 = 5 + 32 from rfl, ← drop_drop, hdrop, drop_left' h32, hrest]
      exact hraw
    · rw [take_left' h4, leNat_leBytes 4 sum hsum, hdrop, take_left' h32, hlast,
        getD_append_right _ _ _ _ h4.le]
      cases last with
      | none => rfl
      | some hash => rfl

/-- A side chain with period 1 and epoch 10. -/
def sampleSide : Bytes :=
  Sink.writeVarBytes Address.empty.val ++ Sink.writeVarUint 5 ++ Sink.writeVarUint 16 ++
    Sink.writeVarBytes [] ++ Sink.writeVarUint 1 ++ Sink.writeVarBytes [] ++
    Sink.writeVarBytes [1, 10]

def sampleDB : OverlayDB :=
  Governance.sampleInit.2.put (ST_STORAGE :: sideChainKey 5) (genRawStorageItem sampleSide)

/-- The operator's call with a checkpoint that 1 signed and that lists 1 and 2. -/
def sampleGenesis : NativeService :=
  { sampleService (SyncGenesisHeaderParam.serialization ⟨5, [10, 0, 1, 0, 1, 0, 0, 1, 2]⟩) 1 with
    tx := ⟨Uint256.empty, some [Governance.sampleOperator]⟩ }

abbrev sampleSynced : Result Bytes × OverlayDB :=
  callContract (answered (syncGenesisHeader openCrypto sampleMsc true)) sampleGenesis sampleDB

/-- A header of 7 and two headers of 1. -/
def sampleSync : NativeService :=
  sampleService (SyncBlockHeaderParam.serialization ⟨5, Address.empty,
    [[11, 0, 1, 0, 7, 10, 1], [12, 0, 2, 0, 1, 11, 7], [13, 0, 1, 0, 1, 12, 1]]⟩) 2

abbrev sampleEvents : List Event := [.endBlock, .syncBlockHeader sampleSync fun _ => 100]

abbrev sampleFind : Uint256 → Option HeaderWithDifficultySum :=
  (records sampleMsc).stored 5 (CacheDB.new (run sampleMsc true sampleSynced.2 sampleEvents))

def sampleRoot : HeaderWithDifficultySum := ⟨sampleFields 10 0 1 0 1 0 0 [1, 2], 1, none⟩

/-- The records after the checkpoint, which all point to it. -/
def sampleRecord (number difficulty signer parentSigner : UInt8) (difficultySum : ℕ) :
    HeaderWithDifficultySum :=
  ⟨sampleFields number 0 difficulty 0 signer (number - 1) parentSigner [], difficultySum,
    some (zeroPad 32 [1, 10, 1])⟩

theorem sampleDB_fresh (hash : Uint256) : (CacheDB.new sampleDB).get (headerKey 5 hash) = none := by
  have hne : ST_STORAGE :: headerKey 5 hash ≠ ST_STORAGE :: sideChainKey 5 := by
    intro h
    exact sideChainKey_ne _ _ (List.cons.inj h).2.symm
  have hkey : ¬ Governance.NodeManagerKey (headerKey 5 hash) := by
    have hcontract : HeaderSyncContractAddress ≠ NodeManagerContractAddress := by decide
    intro h
    generalize hk : headerKey 5 hash = key at h
    cases h <;> exact hcontract (concatKey_inj.mp hk).1
  have hinit := get_callContract (inferInstance : Governance.NodeManagerFrame (Governance.initConfig openCrypto))
    (sampleService (Governance.sampleConfig [⟨ascii "01", NodeManagerContractAddress⟩]) 0)
    (OverlayDB.new OrderedMap.empty) hkey
  rw [CacheDB.get_new, sampleDB, OverlayDB.get_put, if_neg hne]
  exact hinit

def sampleFirst : HeaderWithDifficultySum := sampleRecord 11 1 7 1 2

def sampleSecond : HeaderWithDifficultySum := sampleRecord 12 2 1 7 4

def sampleThird : HeaderWithDifficultySum := sampleRecord 13 1 1 1 5

abbrev sampleRecords : List HeaderWithDifficultySum :=
  [sampleRoot, sampleFirst, sampleSecond, sampleThird]

theorem sampleFind_eq : ∀ r ∈ sampleRecords, sampleFind (sampleMsc.hash r.header) = some r := by
  decide +kernel

theorem branch_sampleFirst :
    Branch sampleMsc 10 sampleFind sampleRoot sampleFirst [sampleRoot.header] :=
  .child (sampleFind_eq _ (by simp)) (by decide +kernel) ⟨by decide +kernel, by decide +kernel⟩
    (.root (sampleFind_eq _ (by simp)))

theorem branch_sampleThird : Branch sampleMsc 10 sampleFind sampleRoot sampleThird
    [sampleSecond.header, sampleFirst.header, sampleRoot.header] :=
  .child (sampleFind_eq _ (by simp)) (by decide +kernel) ⟨by decide +kernel, by decide +kernel⟩
    (.child (sampleFind_eq _ (by simp)) (by decide +kernel) ⟨by decide +kernel, by decide +kernel⟩
      branch_sampleFirst)

theorem signers_sample (before : List EthHeader) (signer : Address) (member : Bool)
    (h : (signersAfter sampleMsc 10 before).map (fun snap =>
      (snap.isSigner signer, snap.signers.size)) = .ok (member, 2)) :
    ∃ snap, signersAfter sampleMsc 10 before = .ok snap ∧ snap.isSigner signer = member ∧
      snap.signers.size = 2 := by
  cases hsnap : signersAfter sampleMsc 10 before with
  | error e =>
    rw [hsnap] at h
    cases h
  | ok snap =>
    rw [hsnap] at h
    obtain ⟨hmember, hsize⟩ := ok_mk_inj h
    exact ⟨snap, rfl, hmember, hsize⟩

/-- The header of 7, which is no signer, is stored, and so is the second header of 1 in a row; no two
of the headers have one hash. -/
theorem stored_unauthorised :
    sampleSynced.1 = .ok BYTE_TRUE ∧
      (sampleRecords.map fun r => sampleMsc.hash r.header).Nodup ∧
      (∃ r before signer snap, Branch sampleMsc 10 sampleFind sampleRoot r before ∧
        ecrecover sampleMsc r.header = .ok signer ∧
        signersAfter sampleMsc 10 before = .ok snap ∧ snap.isSigner signer = false ∧
        ¬ Authorised sampleMsc 10 r.header before) ∧
      ∃ r before signer snap, Branch sampleMsc 10 sampleFind sampleRoot r before ∧
        ecrecover sampleMsc r.header = .ok signer ∧
        signersAfter sampleMsc 10 before = .ok snap ∧ snap.isSigner signer = true ∧
        (∃ a ∈ before.take (snap.signers.size / 2), ecrecover sampleMsc a = .ok signer) ∧
        ¬ Authorised sampleMsc 10 r.header before := by
  refine ⟨by decide +kernel, by decide +kernel, ?_, ?_⟩
  · have hsigner : ecrecover sampleMsc sampleFirst.header = .ok (zeroPad 20 [7]) := by
      decide +kernel
    obtain ⟨snap, hsnap, hmember, -⟩ :=
      signers_sample [sampleRoot.header] (zeroPad 20 [7]) false (by decide +kernel)
    refine ⟨_, _, zeroPad 20 [7], snap, branch_sampleFirst, hsigner, hsnap, hmember, ?_⟩
    rintro ⟨signer', snap', hsigner', hsnap', hmember', -⟩
    cases ok_unique hsigner hsigner'
    cases ok_unique hsnap hsnap'
    exact Bool.false_ne_true (hmember.symm.trans hmember')
  · have hsigner : ecrecover sampleMsc sampleThird.header = .ok (zeroPad 20 [1]) := by
      decide +kernel
    have hsecond : ecrecover sampleMsc sampleSecond.header = .ok (zeroPad 20 [1]) := by
      decide +kernel
    obtain ⟨snap, hsnap, hmember, hsize⟩ := signers_sample
      [sampleSecond.header, sampleFirst.header, sampleRoot.header] (zeroPad 20 [1]) true
      (by decide +kernel)
    have hmem : sampleSecond.header ∈ [sampleSecond.header, sampleFirst.header,
        sampleRoot.header].take (snap.signers.size / 2) := by
      rw [hsize]
      exact List.mem_cons_self
    refine ⟨_, _, zeroPad 20 [1], snap, branch_sampleThird, hsigner, hsnap, hmember,
      ⟨_, hmem, hsecond⟩, ?_⟩
    rintro ⟨signer', snap', hsigner', hsnap', -, hnone⟩
    cases ok_unique hsigner hsigner'
    cases ok_unique hsnap hsnap'
    exact hnone _ hmem hsecond

/-- The result at the run of the sample, which stores three headers after the first. -/
theorem stored_admitted_sample :
    sampleSynced.1 = .ok BYTE_TRUE ∧
      (∀ r ∈ sampleRecords, sampleFind (sampleMsc.hash r.header) = some r) ∧
      ∃ info root, Registered sampleMsc 5 info (CacheDB.new sampleDB) ∧
        sampleHeader [10, 0, 1, 0, 1, 0, 0, 1, 2] = .ok root.header ∧
        ∀ hash r, sampleFind hash = some r → r = root ∨ ∃ before signer snap,
          Branch sampleMsc info.epoch sampleFind root r before ∧
          Admitted sampleMsc info.epoch root.header r.header before signer snap := by
  have hparams : decode SyncGenesisHeaderParam.deserialization sampleGenesis.input =
      .ok ⟨5, [10, 0, 1, 0, 1, 0, 0, 1, 2]⟩ := by decide +kernel
  have hgenesis : sampleSynced.1 = .ok BYTE_TRUE := by decide +kernel
  obtain ⟨info, root, hregistered, hheader, hall⟩ :=
    stored_admitted lossless_sampleMsc hparams sampleDB_fresh hgenesis sampleEvents
  refine ⟨hgenesis, sampleFind_eq, info, root, hregistered, hheader, fun hash r hfind => ?_⟩
  rcases hall hash r hfind with hroot | ⟨before, signer, snap, hbranch, hadmitted, -⟩
  · exact Or.inl hroot
  · exact Or.inr ⟨before, signer, snap, hbranch, hadmitted⟩

end Poly.HeaderSync.Msc
