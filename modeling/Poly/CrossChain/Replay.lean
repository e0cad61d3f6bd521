import Poly.CrossChain.Transfers

/-! No transfer is imported twice: over any run of transactions and blocks, for a source chain and a
cross chain id at most one import succeeds. -/
namespace Poly.CrossChain

open Lib Native Governance Ledger List

variable (C : Crypto) (D : Deployment)

/-- A transaction of a block with this header, or the end of a block. -/
inductive Event where
  | transaction (header : Header C.keys) (tx : Transaction C.keys)
  | endBlock

/-- What a successful transaction leaves: the transfer that it imported, if any, with its source
chain, and the leaf hashes of the requests that it created. -/
structure Imported where
  transfer : Option (UInt64 × MakeTxParam)
  requests : List Uint256
  deriving DecidableEq

/-- The source chain and the cross chain id. -/
def Imported.id (x : Imported) : Option (UInt64 × Bytes) :=
  x.transfer.map fun y => (y.1, y.2.crossChainID)

variable {C} in
/-- The storage after an event and the successful transactions so far. -/
def step (acc : OverlayDB × List Imported) : Event C → OverlayDB × List Imported
  | .transaction header tx =>
    match handleInvokeTransaction C (D.contracts C) header acc.1 tx with
    | .ok (overlay, _, hashes) => (overlay, acc.2 ++ [⟨transferOf C D header acc.1 tx, hashes⟩])
    | .error _ => acc
  | .endBlock => (OverlayDB.new (applyWriteSet acc.1.store acc.1.memdb), acc.2)

variable (db : OverlayDB)

def run (events : List (Event C)) : OverlayDB × List Imported :=
  events.foldl (step D) (db, [])

variable {C D}

/-- The record of a done transfer is in the storage. -/
def Done (x : UInt64 × Bytes) : Prop :=
  (db.get (ST_STORAGE :: doneKey x.1 x.2)).isSome

section Step

variable {s t : NativeService}

theorem Proposed.keeps_done {c p} (h : Proposed c p s t) {x : UInt64 × Bytes}
    (hx : (s.cacheDB.get (doneKey x.1 x.2)).isSome) : (t.cacheDB.get (doneKey x.1 x.2)).isSome := by
  by_cases hq : ∃ q ∈ p, doneKey x.1 x.2 = doneKey c q.crossChainID
  · obtain ⟨q, hp, hkey⟩ := hq
    rw [hkey]
    exact h.done q hp
  · rw [h.writes.get_eq _ fun hk => hk.elim (not_sideKey_doneKey _ _) hq]
    exact hx

/-- A delivery does not touch the record, and creates at most one request. -/
theorem Delivered.done_eq {c q} (h : Delivered C c q s t) (x : UInt64 × Bytes) :
    t.cacheDB.get (doneKey x.1 x.2) = s.cacheDB.get (doneKey x.1 x.2) := by
  cases h with
  | side h => exact h.get_eq _ (not_sideKey_doneKey _ _)
  | request h =>
    rw [h.cacheDB_eq, CacheDB.get_put, if_neg (doneKey_ne_requestKey _ _ _ _)]

theorem Delivered.crossHashes_length {c q} (h : Delivered C c q s t) :
    t.crossHashes.length ≤ s.crossHashes.length + 1 := by
  cases h with
  | side h =>
    rw [h.crossHashes_eq]
    exact Nat.le_succ _
  | request h => rw [h.crossHashes_eq, length_append, length_singleton]

/-- What a successful transaction did to the record of done transfers. -/
structure Accounted (db db' : OverlayDB) (x : Imported) : Prop where
  kept : ∀ y, Done db y → Done db' y
  fresh : ∀ y ∈ x.id, ¬ Done db y
  done : ∀ y ∈ x.id, Done db' y
  requests_le : x.requests.length ≤ 1
  requests_nil : x.id = none → x.requests = []

theorem Accounted.of_none {db db' x} (hid : x.id = none) (hkept : ∀ y, Done db y → Done db' y)
    (hnil : x.requests = []) : Accounted db db' x where
  kept := hkept
  fresh y hy := by
    rw [hid] at hy
    cases hy
  done y hy := by
    rw [hid] at hy
    cases hy
  requests_le := by
    rw [hnil]
    exact Nat.zero_le 1
  requests_nil _ := hnil

theorem transferOf_of_proposal {header overlay tx c router p}
    (hcall : importCall C header overlay tx = some s)
    (hp : (importProposal C D).run s = .ok ((c, router, p), t)) :
    transferOf C D header overlay tx = p.map fun q => (c, q) := by
  unfold transferOf
  rw [hcall]
  show ((importProposal C D).run s).toOption.bind _ = _
  rw [hp]
  cases p <;> rfl

theorem handleInvokeTransaction_accounted {header : Header C.keys}
    {overlay overlay' tx notify hashes} (hg : Guards D header.height)
    (h : handleInvokeTransaction C (D.contracts C) header overlay tx =
      .ok (overlay', notify, hashes)) :
    Accounted overlay overlay' ⟨transferOf C D header overlay tx, hashes⟩ := by
  obtain ⟨s, u, hdb, -, hheight, hempty, rfl, hget, -, hcases⟩ := handleInvokeTransaction_cases h
  have hbefore (y : UInt64 × Bytes) :
      Done overlay y ↔ (s.cacheDB.get (doneKey y.1 y.2)).isSome := by
    rw [hdb]
    rfl
  have hafter (y : UInt64 × Bytes) :
      Done overlay' y ↔ (u.cacheDB.get (doneKey y.1 y.2)).isSome := by
    rw [Done, hget]
  rcases hcases with ⟨hcall, r, hi⟩ | ⟨hcall, hw⟩
  · obtain ⟨c, router, p, s₁, hp, hd⟩ := importExTransfer_ok hi
    have hprop := importProposal_proposed (hheight ▸ hg) hp
    have htransfer := transferOf_of_proposal hcall hp
    rcases hd with ⟨rfl, rfl⟩ | ⟨q, rfl, hd⟩
    · -- a vote that does not decide yet
      have hid : (Imported.mk (transferOf C D header overlay tx) s₁.crossHashes).id = none := by
        rw [htransfer]
        rfl
      exact .of_none hid (fun y hy => (hafter y).mpr (hprop.keeps_done ((hbefore y).mp hy)))
        (hprop.writes.crossHashes_eq.trans hempty)
    · have hdel := deliver_ok hd
      have hid : (Imported.mk (transferOf C D header overlay tx) u.crossHashes).id =
          some (c, q.crossChainID) := by
        rw [htransfer]
        rfl
      refine ⟨fun y hy => ?_, ?_, ?_, ?_, ?_⟩
      · rw [hafter, hdel.done_eq]
        exact hprop.keeps_done ((hbefore y).mp hy)
      · intro y hy hdone
        rw [hid] at hy
        cases hy
        have hnone := (hbefore _).mp hdone
        rw [hprop.fresh q rfl] at hnone
        cases hnone
      · intro y hy
        rw [hid] at hy
        cases hy
        rw [hafter, hdel.done_eq]
        exact hprop.done q rfl
      · have hle := hdel.crossHashes_length
        rwa [hprop.writes.crossHashes_eq, hempty] at hle
      · intro hnone
        rw [hid] at hnone
        cases hnone
  · have hid : (Imported.mk (transferOf C D header overlay tx) u.crossHashes).id = none := by
      unfold transferOf
      rw [hcall]
      rfl
    refine .of_none hid (fun y hy => ?_) (hw.crossHashes_eq.trans hempty)
    rw [hafter, hw.get_eq _ (not_sideKey_doneKey _ _)]
    exact (hbefore y).mp hy

end Step

/-- The state of a run: everything imported so far is recorded, and nothing twice. -/
structure RunInv (acc : OverlayDB × List Imported) : Prop where
  done : ∀ x ∈ acc.2, ∀ y ∈ x.id, Done acc.1 y
  nodup : (acc.2.filterMap Imported.id).Nodup
  requests_le : ∀ x ∈ acc.2, x.requests.length ≤ 1
  requests_nil : ∀ x ∈ acc.2, x.id = none → x.requests = []

theorem RunInv.snoc {db db' trace x} (h : RunInv (db, trace)) (hx : Accounted db db' x) :
    RunInv (db', trace ++ [x]) where
  done z hz y hy := by
    rcases mem_append.mp hz with hz | hz
    · exact hx.kept y (h.done z hz y hy)
    · cases mem_singleton.mp hz
      exact hx.done y hy
  nodup := by
    rw [filterMap_append, nodup_append']
    refine ⟨h.nodup, ?_, ?_⟩
    · cases hid : x.id <;> simp [hid]
    · intro y hy hy'
      obtain ⟨z, hz, hzy⟩ := mem_filterMap.mp hy
      obtain ⟨x', hx', hxy⟩ := mem_filterMap.mp hy'
      cases mem_singleton.mp hx'
      exact hx.fresh y hxy (h.done z hz y hzy)
  requests_le z hz := by
    rcases mem_append.mp hz with hz | hz
    · exact h.requests_le z hz
    · cases mem_singleton.mp hz
      exact hx.requests_le
  requests_nil z hz := by
    rcases mem_append.mp hz with hz | hz
    · exact h.requests_nil z hz
    · cases mem_singleton.mp hz
      exact hx.requests_nil

theorem step_inv {acc : OverlayDB × List Imported} {e : Event C} (h : RunInv acc)
    (hg : ∀ header tx, e = .transaction header tx → Guards D header.height) :
    RunInv (step D acc e) := by
  obtain ⟨db, trace⟩ := acc
  cases e with
  | transaction header tx =>
    cases hr : handleInvokeTransaction C (D.contracts C) header db tx with
    | error e =>
      simp only [step, hr]
      exact h
    | ok r =>
      simp only [step, hr]
      exact h.snoc (handleInvokeTransaction_accounted (hg header tx rfl) hr)
  | endBlock =>
    have hget (k : Bytes) : (OverlayDB.new (applyWriteSet db.store db.memdb)).get k = db.get k :=
      get_applyWriteSet db.store db.memdb k
    refine { h with done := fun x hx y hy => ?_ }
    exact (congrArg Option.isSome (hget _)).trans (h.done x hx y hy)

theorem run_inv {events}
    (hg : ∀ header tx, Event.transaction header tx ∈ events → Guards D header.height) :
    RunInv (run C D db events) := by
  have hfold : ∀ (events : List (Event C)) (acc : OverlayDB × List Imported), RunInv acc →
      (∀ header tx, Event.transaction header tx ∈ events → Guards D header.height) →
      RunInv (events.foldl (step D) acc) := by
    intro events
    induction events with
    | nil => exact fun _ h _ => h
    | cons e events ih =>
      intro acc h hg
      refine ih _ (step_inv h fun header tx he => hg header tx ?_)
        fun header tx he => hg header tx (mem_cons_of_mem _ he)
      exact he ▸ mem_cons_self
  refine hfold events (db, []) ⟨?_, nodup_nil, ?_, ?_⟩ hg <;> exact nofun

/-- At most one of a list of imports has a given id when no id repeats. -/
theorem length_filter_id_le {trace : List Imported} (h : (trace.filterMap Imported.id).Nodup)
    (y : UInt64 × Bytes) : (trace.filter fun x => x.id = some y).length ≤ 1 := by
  have hcount := nodup_iff_count_le_one.mp h y
  rw [List.count, countP_filterMap] at hcount
  rw [← countP_eq_length_filter]
  refine (countP_congr fun x _ => ?_).trans_le hcount
  cases x.id <;> simp

/-- Over any run, for each source chain and cross chain id at most one import succeeds, at most one
request is created by the imports of it, and no other transaction creates a request. -/
theorem import_at_most_once {events : List (Event C)}
    (hg : ∀ header tx, Event.transaction header tx ∈ events → Guards D header.height)
    (y : UInt64 × Bytes) :
    (((run C D db events).2.filter fun x => x.id = some y).length ≤ 1) ∧
      (((run C D db events).2.filter fun x => x.id = some y).flatMap Imported.requests).length ≤ 1 ∧
      ∀ x ∈ (run C D db events).2, x.id = none → x.requests = [] := by
  have hinv := run_inv db hg
  have hone := length_filter_id_le hinv.nodup y
  refine ⟨hone, ?_, hinv.requests_nil⟩
  generalize hl : (run C D db events).2.filter (fun x => x.id = some y) = l at hone
  match l, hone with
  | [], _ => exact Nat.zero_le 1
  | [x], _ =>
    have hx : x ∈ (run C D db events).2.filter fun x => x.id = some y := hl ▸ mem_cons_self
    rw [flatMap_cons, flatMap_nil, append_nil]
    exact hinv.requests_le x (mem_of_mem_filter hx)

/-- The same transfer in two blocks and another one in between. -/
def sampleEvents : List (Event openCrypto) :=
  [.transaction (sampleHeader 1) (sampleImport 1 [7]), .endBlock,
    .transaction (sampleHeader 2) (sampleImport 2 [8]),
    .transaction (sampleHeader 2) (sampleImport 3 [7])]

theorem import_at_most_once_again :
    ((run openCrypto openDeployment (OverlayDB.new sampleStore) sampleEvents).2.map Imported.id =
        [some (2, [7]), some (2, [8])]) ∧
      (((run openCrypto openDeployment (OverlayDB.new sampleStore) sampleEvents).2.filter
        fun x => x.id = some (2, [7])).length ≤ 1) := by
  refine ⟨by decide +kernel, (import_at_most_once (OverlayDB.new sampleStore) ?_ (2, [7])).1⟩
  intro header tx _
  exact .inl (by decide)

section Requests

variable (c : UInt64) (hash : Uint256)

/-- What is stored as the request that the transaction with this hash makes to chain `c`. -/
def requestAt (db : OverlayDB) : Option Bytes := db.get (ST_STORAGE :: requestKey c hash.val)

variable (C) in
/-- The stored request hands on the imported transfer, and its leaf is one of the block's tree. -/
def HandsOn (x : Imported) (request : Option Bytes) : Prop :=
  ∃ src q, x.transfer = some (src, q) ∧ q.toChainID = c ∧
    x.requests = [Merkle.hashLeaf C.sha256 (merkleValue hash q src)] ∧
    request = some (genRawStorageItem (merkleValue hash q src))

theorem handleInvokeTransaction_requestAt {header : Header C.keys}
    {overlay overlay' tx notify hashes}
    (h : handleInvokeTransaction C (D.contracts C) header overlay tx =
      .ok (overlay', notify, hashes)) :
    requestAt c hash overlay' = requestAt c hash overlay ∨
      HandsOn C c hash ⟨transferOf C D header overlay tx, hashes⟩ (requestAt c hash overlay') := by
  obtain ⟨s, u, hdb, hhash, -, hempty, rfl, hget, -, hcases⟩ := handleInvokeTransaction_cases h
  have hkept {t : NativeService} (hw : OnlyWrites RecordKey s t) :
      t.cacheDB.get (requestKey c hash.val) = requestAt c hash overlay := by
    refine (hw.get_eq _ fun hk => ?_).trans (by rw [hdb]; rfl)
    generalize he : requestKey c hash.val = key at hk
    cases hk with
    | side h => exact not_sideKey (by decide) _ (he ▸ h)
    | done d i => exact doneKey_ne_requestKey d c i _ he.symm
  have hside {t : NativeService} (hw : OnlyWrites SideKey t u) : OnlyWrites RecordKey t u :=
    hw.mono fun _ => .side
  rw [requestAt, hget]
  rcases hcases with ⟨hcall, r, hi⟩ | ⟨-, hw⟩
  · obtain ⟨src, router, p, s₁, hp, hd⟩ := importExTransfer_ok hi
    have hfirst := frame_importProposal hp
    rcases hd with ⟨-, rfl⟩ | ⟨q, rfl, hd⟩
    · exact .inl (hkept hfirst)
    · cases deliver_ok hd with
      | side hw => exact .inl (hkept (hfirst.trans (hside hw)))
      | request hr =>
        have htx : s₁.tx.hash = tx.hash := hfirst.tx_eq ▸ hhash
        rw [hr.cacheDB_eq, CacheDB.get_put, hr.crossHashes_eq, htx, hfirst.crossHashes_eq, hempty]
        split_ifs with hk
        · obtain ⟨rfl, hval⟩ := requestKey_inj hk
          obtain rfl : hash = tx.hash := Subtype.ext hval
          exact .inr ⟨src, q, transferOf_of_proposal hcall hp, rfl, rfl, rfl⟩
        · exact .inl (hkept hfirst)
  · exact .inl (hkept (hside hw))

/-- What a run leaves as a request was there before, or it hands on a transfer that a transaction of
the run imported. -/
theorem request_authentic (events : List (Event C)) :
    requestAt c hash (run C D db events).1 = requestAt c hash db ∨
      ∃ x ∈ (run C D db events).2, HandsOn C c hash x (requestAt c hash (run C D db events).1) := by
  induction events using List.reverseRecOn with
  | nil => exact .inl rfl
  | append_singleton events e ih =>
    rw [run, foldl_concat, ← run]
    cases e with
    | transaction header tx =>
      cases hr : handleInvokeTransaction C (D.contracts C) header (run C D db events).1 tx with
      | ok r =>
        simp only [step, hr]
        rcases handleInvokeTransaction_requestAt c hash hr with hsame | hnew
        · rw [hsame]
          exact ih.imp_right fun ⟨x, hx, h⟩ => ⟨x, mem_append_left _ hx, h⟩
        · exact .inr ⟨_, mem_append_right _ mem_cons_self, hnew⟩
      | error =>
        simpa only [step, hr] using ih
    | endBlock =>
      have hget : requestAt c hash (step D (run C D db events) (.endBlock : Event C)).1 = _ :=
        get_applyWriteSet ..
      rw [hget]
      exact ih

end Requests

end Poly.CrossChain
