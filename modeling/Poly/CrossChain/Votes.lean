import Poly.Governance.Operator
import Poly.Governance.Records

/-! The votes on transfers from other chains, over the runs of `CheckVotes`. -/
namespace Poly.CrossChain

open Lib Native Source Sink Governance List

variable (C : Crypto)

/-- A stored value is a Go slice. -/
def Storable (s : NativeService) : Prop :=
  ∀ key raw, s.cacheDB.get key = some raw → raw.length < 2 ^ 63

/-- One call of `CheckVotes` with what it returned. -/
abbrev VoteCall := Bytes × Address × Bool

/-- The runs from a state without votes; between the calls anything but the votes may change. -/
inductive VoteRun : List VoteCall → NativeService → Prop
  | start {s : NativeService} (h : ∀ id, s.cacheDB.get (chainKey [VOTE_INFO, id]) = none) :
      VoteRun [] s
  | call {calls : List VoteCall} {s t : NativeService} {id : Bytes} {address : Address} {b : Bool}
      (h : VoteRun calls s) (hs : Storable s)
      (hr : (checkVotes C id address).run s = .ok (b, t)) : VoteRun ((id, address, b) :: calls) t
  | change {calls : List VoteCall} {s t : NativeService} (h : VoteRun calls s)
      (hsame : ∀ id, t.cacheDB.get (chainKey [VOTE_INFO, id]) =
        s.cacheDB.get (chainKey [VOTE_INFO, id])) : VoteRun calls t

/-- The addresses that have voted. -/
def voters (id : Bytes) (calls : List VoteCall) : List Address :=
  (calls.filter fun c => c.1 = id).map fun c => c.2.1

variable (keys : List C.keys.PublicKey)

/-- The addresses of the peers with the keys. -/
def peerAddresses : List Address :=
  keys.map (addressFromPubKey C.keys C.sha256 C.ripemd160)

/-- Two thirds of the peers have voted. -/
def Quorum (voters : List Address) : Prop :=
  2 * keys.length ≤ 3 * ((peerAddresses C keys).filter (· ∈ voters)).length

/-- What a record may say after the calls. -/
structure Sound (calls : List VoteCall) (id : Bytes) (v : VoteInfo) : Prop where
  done : ∀ a, (id, a, true) ∈ calls → v.status = true
  voted : ∀ a, (v.voteInfo.get (C.toBase58 a)).isSome → a ∈ voters id calls

/-- The record under the id. -/
def Recorded (calls : List VoteCall) (s : NativeService) (id : Bytes) : Prop :=
  (s.cacheDB.get (chainKey [VOTE_INFO, id]) = none ∧ ∀ a, (id, a, true) ∉ calls) ∨
    ∃ v, s.cacheDB.get (chainKey [VOTE_INFO, id]) = some (genRawStorageItem v.serialization) ∧
      Sound C calls id v

variable {C} {calls : List VoteCall} {s t : NativeService} {id : Bytes} {address : Address}

theorem mem_voters {a} : a ∈ voters id calls ↔ ∃ b, (id, a, b) ∈ calls := by
  simp [voters]

theorem fits_of_writeVote {m} (h : (m.entries.reverse.flatMap writeVote).length < 2 ^ 64) :
    FitsBy (fun x => x.1.length < 2 ^ 64) m := by
  have hwrite : ∀ x : Bytes × Bool, x.1.length + 1 ≤ (writeVote x).length := by
    intro x
    have hbool : (writeBool x.2).length = 1 := by cases x.2 <;> rfl
    simp only [writeVote, writeVarBytes, length_append]
    omega
  constructor
  · have hsize := length_le_flatMap_of_pos (fun x => (Nat.le_add_left 1 _).trans (hwrite x))
      m.entries.reverse
    rw [length_reverse] at hsize
    exact lt_of_le_of_lt hsize h
  · intro x hx
    have hle := length_le_flatMap (w := writeVote) (mem_reverse.mpr hx)
    have hkey := hwrite x
    omega

theorem fits_of_length {v} (h : v.serialization.length < 2 ^ 64) : Governance.VoteInfo.Fits v := by
  refine fits_of_writeVote (lt_of_le_of_lt ?_ h)
  simp only [VoteInfo.serialization, length_append]
  exact Nat.le_add_left _ _

theorem getVoteInfo_run {v} (hs : Storable s)
    (h : s.cacheDB.get (chainKey [VOTE_INFO, id]) = some (genRawStorageItem v.serialization)) :
    (getVoteInfo id).run s = .ok (v, s) := by
  have hlen : v.serialization.length < 2 ^ 64 := by
    have hraw := hs _ _ h
    simp only [genRawStorageItem, writeVarBytes, length_cons, length_append] at hraw
    omega
  refine run_bind_ok.mpr ⟨_, s, congrArg (fun x => Except.ok (x, s)) h, ?_⟩
  refine run_bind_ok.mpr ⟨_, s, run_wrapM_ok.mpr (run_lift_ok.mpr
    ⟨getValueFromRawStorageItem_gen hlen, rfl⟩), run_wrapM_ok.mpr (run_lift_ok.mpr ⟨?_, rfl⟩)⟩
  rw [Governance.VoteInfo.serialization_eq, decode,
    voteInfo_oneEncoding.back v (fits_of_length hlen) _ (List.Perm.refl _)]
  rfl

theorem Recorded.read (h : Recorded C calls s id) (hs : Storable s) {v}
    (hr : (getVoteInfo id).run s = .ok (v, t)) : s = t ∧ Sound C calls id v := by
  rcases h with ⟨hnone, hfalse⟩ | ⟨v', hsome, hsound⟩
  · have hrun : (getVoteInfo id).run s = .ok (⟨false, OrderedMap.empty⟩, s) :=
      run_bind_ok.mpr ⟨_, s, congrArg (fun x => Except.ok (x, s)) hnone, rfl⟩
    cases ok_unique hrun hr
    exact ⟨rfl, fun a ha => absurd ha (hfalse a), nofun⟩
  · cases ok_unique (getVoteInfo_run hs hsome) hr
    exact ⟨rfl, hsound⟩

/-- The signer that the search finds is one of the peers that are counted. -/
theorem mem_of_isConsensusPeer {pool keys} (h : isConsensusPeer C address pool.entries = .ok true)
    (hkeys : consensusKeys C "CheckVotes" pool = .ok keys) : address ∈ peerAddresses C keys := by
  have hfound : ∀ {entries}, isConsensusPeer C address entries = .ok true →
      ∃ x ∈ entries.filter fun x => x.2.status = ConsensusStatus, ∃ k key,
        hexDecode x.1 = .ok k ∧ C.keys.deserializePublicKey k = .ok key ∧
          addressFromPubKey C.keys C.sha256 C.ripemd160 key = address := by
    intro entries h
    induction entries with
    | nil => cases h
    | cons x rest ih =>
      unfold isConsensusPeer at h
      split at h
      next hstatus =>
        rw [filter_cons_of_pos (by simpa using hstatus)]
        obtain ⟨k, hk, h⟩ := bind_ok.mp h
        obtain ⟨key, hkey, h⟩ := bind_ok.mp h
        split at h
        · exact ⟨x, mem_cons_self, k, key, wrapError_ok.mp hk, wrapError_ok.mp hkey, ‹_›⟩
        · obtain ⟨y, hy, hfound⟩ := ih h
          exact ⟨y, mem_cons_of_mem x hy, hfound⟩
      next hstatus =>
        rw [filter_cons_of_neg (by simpa using hstatus)]
        exact ih h
  obtain ⟨x, hx, k, key, hk, hkey, rfl⟩ := hfound h
  refine mem_map_of_mem ((mem_mapM_ok hkeys).mpr ⟨x, hx, ?_⟩)
  exact bind_ok.mpr ⟨k, wrapError_ok.mpr hk, wrapError_ok.mpr hkey⟩

theorem Sound.counted (hC : Function.Injective C.toBase58) {v} (h : Sound C calls id v)
    (hopen : v.status = false) {b votes}
    (hvotes : votes = v.voteInfo ∨ votes = v.voteInfo.insert (C.toBase58 address) true) :
    Sound C ((id, address, b) :: calls) id ⟨b, votes⟩ where
  done a ha := by
    rcases mem_cons.mp ha with heq | hold
    · cases heq
      rfl
    · rw [h.done a hold] at hopen
      cases hopen
  voted a ha := by
    refine mem_voters.mpr ?_
    have hold (hget : (v.voteInfo.get (C.toBase58 a)).isSome) :
        ∃ b', (id, a, b') ∈ (id, address, b) :: calls := by
      obtain ⟨b', hb'⟩ := mem_voters.mp (h.voted a hget)
      exact ⟨b', mem_cons_of_mem _ hb'⟩
    rcases hvotes with rfl | rfl
    · exact hold ha
    · by_cases heq : a = address
      · exact ⟨b, heq ▸ mem_cons_self⟩
      · rw [OrderedMap.get_insert_of_ne _ _ (hC.ne heq)] at ha
        exact hold ha

/-- The vote of a peer that has not voted before raises the count by one at least. -/
theorem count_le {addresses : List Address} {p q : Address → Bool}
    (hpq : ∀ a, p a = true → q a = true) {a} (ha : a ∈ addresses) (hq : q a = true) :
    (addresses.filter p).length + (if p a = false then 1 else 0) ≤ (addresses.filter q).length := by
  have hsub : (addresses.filter q).filter p = addresses.filter p := by
    rw [filter_filter]
    exact filter_congr fun x _ => by cases hx : p x <;> simp [hx, hpq x]
  rw [← hsub]
  split
  next hp =>
    exact length_filter_lt_length_iff_exists.mpr
      ⟨a, mem_filter.mpr ⟨ha, hq⟩, by rw [hp]; exact Bool.false_ne_true⟩
  · exact length_filter_le _ _

theorem Recorded.cons (h : Recorded C calls s id) {call} (hcall : ∀ a, (id, a, true) ≠ call)
    (hsame : t.cacheDB.get (chainKey [VOTE_INFO, id]) = s.cacheDB.get (chainKey [VOTE_INFO, id])) :
    Recorded C (call :: calls) t id := by
  unfold Recorded
  rw [hsame]
  rcases h with ⟨hnone, hfalse⟩ | ⟨v, hsome, hsound⟩
  · exact .inl ⟨hnone, fun a ha => (mem_cons.mp ha).elim (hcall a) (hfalse a)⟩
  · refine .inr ⟨v, hsome, fun a ha => ?_, fun a ha => ?_⟩
    · exact hsound.done a ((mem_cons.mp ha).resolve_left (hcall a))
    · obtain ⟨b, hb⟩ := mem_voters.mp (hsound.voted a ha)
      exact mem_voters.mpr ⟨b, mem_cons_of_mem call hb⟩

theorem recorded_put {v u} (h : (putVoteInfo id v).run s = .ok (u, t)) (hv : Sound C calls id v) :
    Recorded C calls t id :=
  .inr ⟨v, (get_putItem h _).trans (if_pos rfl), hv⟩

theorem quorum_of_le {keys voted num} (hnum : num ≥ (2 * (peerAddresses C keys).length + 2) / 3)
    (hcount : num ≤ ((peerAddresses C keys).filter (· ∈ voted)).length) : Quorum C keys voted := by
  have hlength : (peerAddresses C keys).length = keys.length := length_map _
  unfold Quorum
  omega

section

variable (hC : Function.Injective C.toBase58)
include hC

theorem countVote_ok {v : VoteInfo} (h : Sound C calls id v) (hrec : Recorded C calls s id)
    (hopen : v.status = false) {keys} (hmem : address ∈ peerAddresses C keys) {b}
    (hr : (countVote C id address v keys).run s = .ok (b, t)) :
    Recorded C ((id, address, b) :: calls) t id ∧
      (b = true → Quorum C keys (voters id ((id, address, b) :: calls))) := by
  unfold peerAddresses at hmem
  have hne := (length_pos_of_mem hmem).ne'
  have hcount := count_le (p := fun a => (v.voteInfo.get (C.toBase58 a)).isSome)
    (q := (· ∈ voters id ((id, address, b) :: calls)))
    (fun a ha => decide_eq_true (by
      obtain ⟨b', hb'⟩ := mem_voters.mp (h.voted a ha)
      exact mem_voters.mpr ⟨b', mem_cons_of_mem _ hb'⟩)) hmem
    (decide_eq_true (mem_voters.mpr ⟨b, mem_cons_self⟩))
  obtain ⟨_, s₁, hput, hr⟩ := run_bind_ok.mp hr
  cases hget : v.voteInfo.get (C.toBase58 address) with
  | none =>
    simp only [hget, hne, Option.isNone_none, Option.isSome_none, ne_eq, not_false_eq_true, and_self,
      if_true] at hput hr hcount
    split at hr
    next hnum =>
      obtain ⟨_, s₂, hput', hr⟩ := run_bind_ok.mp hr
      cases hr
      exact ⟨recorded_put hput' (h.counted hC hopen (.inr rfl)), fun _ => quorum_of_le hnum hcount⟩
    · cases hr
      rw [hopen] at hput
      exact ⟨recorded_put hput (h.counted hC hopen (.inr rfl)), nofun⟩
  | some w =>
    simp only [hget, Option.isNone_some, Option.isSome_some, Bool.false_eq_true, and_false,
      if_false, Bool.true_eq_false] at hput hr hcount
    cases hput
    split at hr
    next hnum =>
      obtain ⟨_, s₂, hput', hr⟩ := run_bind_ok.mp hr
      cases hr
      exact ⟨recorded_put hput' (h.counted hC hopen (.inl rfl)), fun _ => quorum_of_le hnum hcount⟩
    · cases hr
      exact ⟨hrec.cons nofun rfl, nofun⟩

/-- One call: what it leaves under its id, and what a vote that goes through takes. -/
theorem checkVotes_ok (h : Recorded C calls s id)
    (hs : Storable s) {b : Bool} (hr : (checkVotes C id address).run s = .ok (b, t)) :
    Recorded C ((id, address, b) :: calls) t id ∧ (b = true → (∀ a, (id, a, true) ∉ calls) ∧
      ∃ view pool keys, getView.run s = .ok (view, s) ∧ (getPeerPoolMap view).run s = .ok (pool, s) ∧
        consensusKeys C "CheckVotes" pool = .ok keys ∧
        Quorum C keys (voters id ((id, address, b) :: calls))) := by
  obtain ⟨v, s₁, hv, hr⟩ := run_bind_ok.mp hr
  obtain ⟨rfl, hsound⟩ := h.read hs (run_wrapM_ok.mp hv)
  cases hopen : v.status with
  | true =>
    rw [hopen] at hr
    cases hr
    exact ⟨h.cons nofun rfl, nofun⟩
  | false =>
    simp only [hopen, Bool.false_eq_true, if_false, run_bind_ok, run_wrapM_ok, run_lift_ok,
      run_failIf_ok, and_assoc, exists_and_left, exists_eq_left', exists_const] at hr
    obtain ⟨view, s₁, hview, pool, s₂, hpool, consensus, hpeer, htrue, keys, hkeys, hr⟩ := hr
    obtain rfl : s = s₁ := Within.of_run hview
    obtain rfl : s = s₂ := Within.of_run hpool
    cases Bool.eq_true_of_not_eq_false htrue
    obtain ⟨hrec, hquorum⟩ := countVote_ok hC hsound h hopen (mem_of_isConsensusPeer hpeer hkeys) hr
    refine ⟨hrec, fun hb => ⟨fun a ha => ?_, view, pool, keys, hview, hpool, hkeys, hquorum hb⟩⟩
    rw [hsound.done a ha] at hopen
    cases hopen

theorem VoteRun.recorded (h : VoteRun C calls s) (id : Bytes) :
    Recorded C calls s id := by
  induction h with
  | start h => exact .inl ⟨h id, nofun⟩
  | @call calls s t id' address b _ hs hr ih =>
    by_cases heq : id = id'
    · subst heq
      exact (checkVotes_ok hC ih hs hr).1
    · have : Owned (· = chainKey [VOTE_INFO, id']) (chainKey [VOTE_INFO, id']) := ⟨rfl⟩
      have hw : OnlyWrites (· = chainKey [VOTE_INFO, id']) s t := Within.of_run hr
      refine ih.cons (fun a ha => heq (congrArg Prod.fst ha)) (hw.get_eq _ fun hkey => heq ?_)
      simpa using (concatKey_inj.mp hkey).2
  | change _ hsame ih =>
    unfold Recorded
    rw [hsame]
    exact ih

end

/-- A vote goes through at most once, and only when two thirds of the peers have voted. -/
theorem votes_counted (hC : Function.Injective C.toBase58) (h : VoteRun C calls s)
    (hs : Storable s) (hr : (checkVotes C id address).run s = .ok (true, t)) :
    (∀ a, (id, a, true) ∉ calls) ∧
      ∃ view pool keys, getView.run s = .ok (view, s) ∧ (getPeerPoolMap view).run s = .ok (pool, s) ∧
        consensusKeys C "CheckVotes" pool = .ok keys ∧
        Quorum C keys (address :: voters id calls) := by
  obtain ⟨hfirst, view, pool, keys, hview, hpool, hkeys, hquorum⟩ :=
    (checkVotes_ok hC (h.recorded hC id) hs hr).2 rfl
  refine ⟨hfirst, view, pool, keys, hview, hpool, hkeys, ?_⟩
  simpa [voters] using hquorum

/-- The only peer votes. -/
theorem votes_counted_single :
    ((checkVotes byteCrypto [7] (zeroPad 20 [1])).run (operatorState [1])).map Prod.fst = .ok true ∧
      ∃ keys, Quorum byteCrypto keys [zeroPad 20 [1]] := by
  have hrun : ((checkVotes byteCrypto [7] (zeroPad 20 [1])).run (operatorState [1])).map Prod.fst =
      .ok true := by decide +kernel
  obtain ⟨t, ht⟩ := exists_of_map_fst hrun
  have hstart : VoteRun byteCrypto [] (operatorState [1]) := by
    refine .start fun id => Option.eq_none_iff_forall_ne_some.mpr fun raw h => ?_
    obtain ⟨⟨args, hkey⟩, -⟩ := operatorState_get h
    exact absurd (concatKey_inj.mp hkey).1 (by decide)
  have hstorable : Storable (operatorState [1]) := by
    intro key raw h
    obtain ⟨-, rfl | rfl⟩ := operatorState_get h <;> decide +kernel
  obtain ⟨-, -, -, keys, -, -, -, hquorum⟩ :=
    votes_counted (C := byteCrypto) Subtype.val_injective hstart hstorable ht
  exact ⟨hrun, keys, hquorum⟩

end Poly.CrossChain
