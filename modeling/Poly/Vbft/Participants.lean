import Poly.Vbft.Config

/-! The participants of a round: how they are drawn, and for which configurations enough of them
are found. -/
namespace Poly.Vbft

open Lib List Nat

def VRF_SIZE : ℕ := 64

def MAX_PROPOSER_COUNT : ℕ := 32

def MAX_ENDORSER_COUNT : ℕ := 240

def MAX_COMMITTER_COUNT : ℕ := 240

abbrev VRFValue := {v : Bytes // v.length = VRF_SIZE}

def VRFValue.isNil (v : VRFValue) : Bool := v.val = List.replicate VRF_SIZE 0

structure BlockParticipantConfig where
  blockNum : UInt32
  vrf : VRFValue
  chainConfig : ChainConfig
  proposers : List UInt32
  endorsers : List UInt32
  committers : List UInt32

/-- Sixteen bits of the value select an entry of the table. -/
def calcParticipant (vrf : VRFValue) (dposTable : List UInt32) (k : ℕ) : Result UInt32 := do
  let bIdx := k / 8
  let bits1 := k % 8
  let bits2 := 8 + bits1
  if k ≥ 512 then return maxUint32
  else
    let v1 := (vrf.val.getD bIdx 0).toNat >>> bits1
    let v2 :=
      if bIdx + 1 < vrf.val.length then (vrf.val.getD (bIdx + 1) 0).toNat
      else (vrf.val.getD 0 0).toNat
    let v := ((v2 &&& (1 <<< bits2) - 1) <<< (8 - bits1)) + v1
    failIf (dposTable = []) (.panic "runtime error: integer divide by zero")
    goIndex dposTable (v % dposTable.length)

def checkCalcEndorserOrCommitter (last : ℕ) : Bool :=
  last = MAX_ENDORSER_COUNT + MAX_PROPOSER_COUNT ∨
    last = MAX_PROPOSER_COUNT + MAX_ENDORSER_COUNT + MAX_COMMITTER_COUNT

/-- A peer is listed once. -/
def addPeer (peers : List UInt32) (peerId : UInt32) : List UInt32 :=
  if peerId ∈ peers then peers else peers ++ [peerId]

/-- The proposers that may not endorse or commit, until there are `c` different ones. -/
def excludeLoop (c : ℕ) : List UInt32 → List UInt32 → List UInt32
  | proposerMap, [] => proposerMap
  | proposerMap, p :: rest =>
    let proposerMap := addPeer proposerMap p
    if proposerMap.length ≥ c then proposerMap else excludeLoop c proposerMap rest

/-- The loop from probe `i` on with the peers found so far; it ends by itself at probe 512. -/
def participantLoop (vrf : VRFValue) (chain : ChainConfig) (excluded : List UInt32) (last : ℕ) :
    ℕ → ℕ → List UInt32 → Result (List UInt32)
  | 0, _, _ => return []
  | fuel + 1, i, peers => do
    let peerId ← calcParticipant vrf chain.posTable i
    if peerId = maxUint32 then return []
    else if checkCalcEndorserOrCommitter last ∧ peerId ∈ excluded then
      participantLoop vrf chain excluded last fuel (i + 1) peers
    else
      let found := addPeer peers peerId
      if peerId ∉ peers ∧ found.length ≥ chain.n then return found
      else if last = MAX_PROPOSER_COUNT ∧ i ≥ last ∧ found.length > chain.c then return found
      else if checkCalcEndorserOrCommitter last ∧ found.length > chain.c * 2 then return found
      else participantLoop vrf chain excluded last fuel (i + 1) found

def calcParticipantPeers (vrf : VRFValue) (chain : ChainConfig) (proposers : List UInt32)
    (start last : ℕ) : Result (List UInt32) :=
  participantLoop vrf chain (excludeLoop chain.c [] proposers) last 513 start []

/-- The seed is that of the block before. -/
def buildParticipantConfig (blkNum : UInt32) (vrfValue : VRFValue) (chainCfg : ChainConfig) :
    Result BlockParticipantConfig := do
  failIf (blkNum = 0) (.error "not participant config for genesis block")
  failIf (vrfValue.isNil = true) (.error "failed to calculate participant SelectionSeed")
  let s₁ := MAX_PROPOSER_COUNT
  let s₂ := s₁ + MAX_ENDORSER_COUNT
  let all ← calcParticipantPeers vrfValue chainCfg [] 0 s₁
  -- the message prints the field that is set only afterwards
  failIf (all.length < chainCfg.c + 1)
    (.error s!"cfg Proposers length less than chainCfg.C:0,{chainCfg.c}")
  let proposers := all.take (chainCfg.c + 1)
  let endorsers ← calcParticipantPeers vrfValue chainCfg proposers s₁ s₂
  failIf (endorsers.length < 2 * chainCfg.c) (.error
    s!"cfg.Endorsers length less than double chainCfg.C:{endorsers.length},{chainCfg.c}")
  let committers ← calcParticipantPeers vrfValue chainCfg proposers s₂ (s₂ + MAX_COMMITTER_COUNT)
  failIf (committers.length < 2 * chainCfg.c) (.error
    s!"cfg.Committers length less than double chainCfg.C:{committers.length},{chainCfg.c}")
  return ⟨blkNum, vrfValue, chainCfg, proposers, endorsers, committers⟩

section Probes

variable {vrf : VRFValue} {chain : ChainConfig} {table excluded peers : List UInt32}
  {last fuel i k : ℕ} {x : UInt32}

/-- The probes of a range hit every peer of the table. -/
def Hits (vrf : VRFValue) (table : List UInt32) (start last : ℕ) : Prop :=
  ∀ x ∈ table, ∃ k ∈ List.range' start (last - start), calcParticipant vrf table k = .ok x

/-- The probes of each of the three ranges do. -/
structure Probing (vrf : VRFValue) (table : List UInt32) : Prop where
  proposers : Hits vrf table 0 MAX_PROPOSER_COUNT
  endorsers : Hits vrf table MAX_PROPOSER_COUNT (MAX_PROPOSER_COUNT + MAX_ENDORSER_COUNT)
  committers : Hits vrf table (MAX_PROPOSER_COUNT + MAX_ENDORSER_COUNT)
    (MAX_PROPOSER_COUNT + MAX_ENDORSER_COUNT + MAX_COMMITTER_COUNT)

instance (vrf : VRFValue) (table : List UInt32) (start last : ℕ) :
    Decidable (Hits vrf table start last) :=
  List.decidableBAll (fun x => ∃ k ∈ List.range' start (last - start), _ = Except.ok x) table

theorem calcParticipant_end (hk : 512 ≤ k) : calcParticipant vrf table k = .ok maxUint32 := by
  simp only [calcParticipant, ge_iff_le, hk, if_true]
  rfl

theorem calcParticipant_mem (vrf : VRFValue) (ht : table ≠ []) (hk : k < 512) :
    ∃ x ∈ table, calcParticipant vrf table k = .ok x := by
  have hlen : 0 < table.length := length_pos_iff.mpr ht
  simp only [calcParticipant, ge_iff_le, not_le.mpr hk, if_false, failIf, ht]
  have hlt := mod_lt ((((if k / 8 + 1 < vrf.val.length then (vrf.val.getD (k / 8 + 1) 0).toNat
    else (vrf.val.getD 0 0).toNat) &&& (1 <<< (8 + k % 8)) - 1) <<< (8 - k % 8)) +
    (vrf.val.getD (k / 8) 0).toNat >>> (k % 8)) hlen
  exact ⟨table.get ⟨_, hlt⟩, get_mem table _, goIndex_ok.mpr (getElem?_eq_getElem hlt)⟩

theorem participantLoop_succ (h : calcParticipant vrf chain.posTable i = .ok x) :
    participantLoop vrf chain excluded last (fuel + 1) i peers =
      if x = maxUint32 then .ok []
      else if checkCalcEndorserOrCommitter last ∧ x ∈ excluded then
        participantLoop vrf chain excluded last fuel (i + 1) peers
      else
        let found := addPeer peers x
        if x ∉ peers ∧ found.length ≥ chain.n then .ok found
        else if last = MAX_PROPOSER_COUNT ∧ i ≥ last ∧ found.length > chain.c then .ok found
        else if checkCalcEndorserOrCommitter last ∧ found.length > chain.c * 2 then .ok found
        else participantLoop vrf chain excluded last fuel (i + 1) found := by
  rw [participantLoop, h]
  rfl

/-- The peers that a range may still give. -/
def Allowed (chain : ChainConfig) (excluded : List UInt32) (last : ℕ) (x : UInt32) : Prop :=
  x ∈ chain.posTable ∧ x ≠ maxUint32 ∧ (checkCalcEndorserOrCommitter last = true → x ∉ excluded)

/-- Why the loop stopped with some peers found. -/
def Stopped (vrf : VRFValue) (chain : ChainConfig) (last i : ℕ) (found : List UInt32) : Prop :=
  chain.n ≤ found.length ∨
    (last = MAX_PROPOSER_COUNT ∧ chain.c < found.length ∧
      ∀ k, i ≤ k → k < last → calcParticipant vrf chain.posTable k ≠ .ok maxUint32) ∨
    (checkCalcEndorserOrCommitter last = true ∧ chain.c * 2 < found.length)

theorem Stopped.of_succ {found} (h : Stopped vrf chain last (i + 1) found)
    (hx : calcParticipant vrf chain.posTable i = .ok x) (hne : x ≠ maxUint32) :
    Stopped vrf chain last i found := by
  rcases h with h | ⟨hlast, hlen, hmax⟩ | h
  · exact .inl h
  · refine .inr (.inl ⟨hlast, hlen, fun k hik hk hcalc => ?_⟩)
    rcases eq_or_lt_of_le hik with rfl | hlt
    · exact hne (ok_unique hx hcalc)
    · exact hmax k hlt hk hcalc
  · exact .inr (.inr h)

theorem mem_addPeer {y : UInt32} : y ∈ addPeer peers x ↔ y ∈ peers ∨ y = x := by
  unfold addPeer
  split
  next hx => exact ⟨.inl, fun h => h.elim id fun he => he ▸ hx⟩
  · simp

/-- What the loop finds is allowed, without repetition and enough to stop. -/
theorem participantLoop_ok {r} (ht : chain.posTable ≠ [])
    (h : participantLoop vrf chain excluded last fuel i peers = .ok r) (hnodup : peers.Nodup)
    (hpeers : ∀ x ∈ peers, Allowed chain excluded last x) :
    r = [] ∨ r.Nodup ∧ (∀ x ∈ r, Allowed chain excluded last x) ∧ Stopped vrf chain last i r := by
  induction fuel generalizing i peers with
  | zero => exact .inl (Except.ok.inj h).symm
  | succ fuel ih =>
    by_cases hi : 512 ≤ i
    · rw [participantLoop_succ (calcParticipant_end hi)] at h
      exact .inl (Except.ok.inj h).symm
    obtain ⟨x, hx, hcalc⟩ := calcParticipant_mem vrf ht (not_le.mp hi)
    have hback : ∀ {r}, (r = [] ∨ r.Nodup ∧ (∀ x ∈ r, Allowed chain excluded last x) ∧
        Stopped vrf chain last (i + 1) r) → x ≠ maxUint32 →
        r = [] ∨ r.Nodup ∧ (∀ x ∈ r, Allowed chain excluded last x) ∧ Stopped vrf chain last i r :=
      fun hr hne => hr.imp_right fun hr => ⟨hr.1, hr.2.1, hr.2.2.of_succ hcalc hne⟩
    rw [participantLoop_succ hcalc] at h
    split at h
    · exact .inl (Except.ok.inj h).symm
    rename_i hmax
    split at h
    · exact hback (ih h hnodup hpeers) hmax
    rename_i hexcl
    have hallowed : Allowed chain excluded last x :=
      ⟨hx, hmax, fun hlast hmem => hexcl ⟨hlast, hmem⟩⟩
    have hnodup' : (addPeer peers x).Nodup := by
      unfold addPeer
      split_ifs with hx
      · exact hnodup
      · exact concat_eq_append ▸ hnodup.concat hx
    have hpeers' : ∀ y ∈ addPeer peers x, Allowed chain excluded last y := fun y hy =>
      (mem_addPeer.mp hy).elim (hpeers y) fun he => he ▸ hallowed
    dsimp only at h
    split at h
    next hstop =>
      cases h
      exact .inr ⟨hnodup', hpeers', .inl hstop.2⟩
    split at h
    next hstop =>
      cases h
      refine .inr ⟨hnodup', hpeers', .inr (.inl ⟨hstop.1, hstop.2.2, fun k hik hk => ?_⟩)⟩
      omega
    split at h
    next hstop =>
      cases h
      exact .inr ⟨hnodup', hpeers', .inr (.inr hstop)⟩
    · exact hback (ih h hnodup' hpeers') hmax

theorem addPeer_ne_nil : addPeer peers x ≠ [] := by
  intro h
  have hx : x ∈ addPeer peers x := mem_addPeer.mpr (.inr rfl)
  rw [h] at hx
  cases hx

theorem addPeer_length (hx : x ∉ peers) : (addPeer peers x).length = peers.length + 1 := by
  simp [addPeer, hx]

/-- Before all of a set have been found, some of the probes that hit them are to come. -/
theorem probes_left {s : Finset UInt32} {stop : ℕ} (hlen : peers.length < s.card)
    (hhit : ∀ x ∈ s, x ∈ peers ∨
      ∃ k, i ≤ k ∧ k < stop ∧ calcParticipant vrf table k = .ok x) : i < stop := by
  by_contra hend
  have hsub : s ⊆ peers.toFinset := by
    intro x hx
    rcases hhit x hx with hmem | ⟨k, hik, hk, -⟩
    · exact mem_toFinset.mpr hmem
    · omega
  have hcard := (Finset.card_le_card hsub).trans (toFinset_card_le peers)
  omega

/-- The loop stops with some peers found once the probes have hit `m` of the allowed ones, where
`m` is a number of peers that it stops at. -/
theorem participantLoop_found {m stop : ℕ} (hstop : stop ≤ 512) (ht : chain.posTable ≠ [])
    (hmax : maxUint32 ∉ chain.posTable)
    (hm : m = chain.n ∨ (checkCalcEndorserOrCommitter last = true ∧ m = chain.c * 2 + 1))
    {s : Finset UInt32} (hs : m ≤ s.card) (hallowed : ∀ x ∈ s, Allowed chain excluded last x)
    (hfuel : stop ≤ fuel + i) (hpeers : peers.length < m)
    (hhit : ∀ x ∈ s, x ∈ peers ∨
      ∃ k, i ≤ k ∧ k < stop ∧ calcParticipant vrf chain.posTable k = .ok x) :
    ∃ r, participantLoop vrf chain excluded last fuel i peers = .ok r ∧ r ≠ [] := by
  induction fuel generalizing i peers with
  | zero =>
    have hrange := probes_left (lt_of_lt_of_le hpeers hs) hhit
    omega
  | succ fuel ih =>
    have hrange := probes_left (lt_of_lt_of_le hpeers hs) hhit
    obtain ⟨x, hx, hcalc⟩ := calcParticipant_mem vrf ht (lt_of_lt_of_le hrange hstop)
    have hne : x ≠ maxUint32 := fun he => hmax (he ▸ hx)
    rw [participantLoop_succ hcalc, if_neg hne]
    have hnext : ∀ peers', peers'.length < m → (∀ y ∈ s, y ∈ peers ∨ y = x → y ∈ peers') →
        ∃ r, participantLoop vrf chain excluded last fuel (i + 1) peers' = .ok r ∧ r ≠ [] := by
      intro peers' hlen hkeep
      refine ih (by omega) hlen fun y hy => ?_
      rcases hhit y hy with hmem | ⟨k, hik, hk, hck⟩
      · exact .inl (hkeep y hy (.inl hmem))
      · rcases eq_or_lt_of_le hik with rfl | hlt
        · exact .inl (hkeep y hy (.inr (ok_unique hck hcalc)))
        · exact .inr ⟨k, hlt, hk, hck⟩
    split
    next hexcl =>
      refine hnext peers hpeers fun y hy hor => hor.elim id fun he => ?_
      exact absurd hexcl.2 (he ▸ (hallowed y hy).2.2 hexcl.1)
    dsimp only
    split
    · exact ⟨_, rfl, addPeer_ne_nil⟩
    rename_i hfull
    split
    · exact ⟨_, rfl, addPeer_ne_nil⟩
    split
    · exact ⟨_, rfl, addPeer_ne_nil⟩
    rename_i henough
    refine hnext _ ?_ fun y _ hor => mem_addPeer.mpr hor
    by_cases hmem : x ∈ peers
    · rwa [addPeer, if_pos hmem]
    · rcases hm with rfl | ⟨hlast, rfl⟩
      · have : ¬ (addPeer peers x).length ≥ chain.n := fun hge => hfull ⟨hmem, hge⟩
        omega
      · have : ¬ (addPeer peers x).length > chain.c * 2 := fun hgt => henough ⟨hlast, hgt⟩
        omega

end Probes

variable {vrf : VRFValue} {chain : ChainConfig} {proposers r : List UInt32} {start last : ℕ}

/-- A table with an entry for each of the `n` peers. -/
structure FullTable (chain : ChainConfig) : Prop where
  card_eq : chain.posTable.toFinset.card = chain.n
  pos : 0 < chain.n

theorem FullTable.ne_nil (h : FullTable chain) : chain.posTable ≠ [] := by
  intro hnil
  have hcard := h.card_eq
  have hpos := h.pos
  rw [hnil, toFinset_nil, Finset.card_empty] at hcard
  omega

theorem excludeLoop_eq {c acc} (hnodup : (acc ++ proposers).Nodup) (hc : acc.length < c) :
    excludeLoop c acc proposers = acc ++ proposers.take (c - acc.length) := by
  induction proposers generalizing acc with
  | nil => simp [excludeLoop]
  | cons p rest ih =>
    have hp : p ∉ acc := fun hmem =>
      (nodup_append.mp hnodup).2.2 p hmem p mem_cons_self rfl
    have hadd : addPeer acc p = acc ++ [p] := if_neg hp
    have hlen : (acc ++ [p]).length = acc.length + 1 := by simp
    rw [excludeLoop]
    simp only [hadd, hlen, ge_iff_le]
    split
    · have hone : c - acc.length = 1 := by omega
      rw [hone, take_succ_cons, take_zero]
    · have hmore : c - acc.length = (c - (acc ++ [p]).length) + 1 := by omega
      rw [ih (by simpa using hnodup) (by omega), hmore]
      simp

theorem excludeLoop_nil (hnodup : proposers.Nodup) (hc : 0 < chain.c) :
    excludeLoop chain.c [] proposers = proposers.take chain.c := by
  have hnil : ([] ++ proposers).Nodup := by simpa using hnodup
  simpa using excludeLoop_eq hnil (lt_of_le_of_lt (le_of_eq length_nil) hc)

/-- The entries of the table that are left without the first proposers. -/
def remaining (chain : ChainConfig) (proposers : List UInt32) : Finset UInt32 :=
  chain.posTable.toFinset \ (proposers.take chain.c).toFinset

theorem card_remaining (htable : FullTable chain) (hnodup : proposers.Nodup)
    (hsub : ∀ x ∈ proposers, x ∈ chain.posTable) (hlen : chain.c ≤ proposers.length) :
    (remaining chain proposers).card = chain.n - chain.c := by
  have hinside : (proposers.take chain.c).toFinset ⊆ chain.posTable.toFinset := by
    intro x hx
    rw [mem_toFinset] at hx ⊢
    exact hsub x (mem_of_mem_take hx)
  have hcard : (proposers.take chain.c).toFinset.card = chain.c := by
    rw [toFinset_card_of_nodup (hnodup.sublist (take_sublist _ _)), length_take]
    omega
  rw [remaining, Finset.card_sdiff_of_subset hinside, htable.card_eq, hcard]

theorem length_le_of_allowed {s : Finset UInt32} (hnodup : r.Nodup) (hr : ∀ x ∈ r, x ∈ s) :
    r.length ≤ s.card := by
  rw [← toFinset_card_of_nodup hnodup]
  exact Finset.card_le_card fun x hx => hr x (mem_toFinset.mp hx)

/-- Endorsers or committers that were found are different, more than twice `c`, and none of them
is among the first `c` proposers. -/
theorem calcParticipantPeers_ok (htable : FullTable chain) (hc : 0 < chain.c)
    (hnodup : proposers.Nodup) (hlast : checkCalcEndorserOrCommitter last = true)
    (h : calcParticipantPeers vrf chain proposers start last = .ok r) (hr : r ≠ []) :
    r.Nodup ∧ (∀ x ∈ r, x ∈ remaining chain proposers) ∧
      (chain.n ≤ r.length ∨ chain.c * 2 < r.length) := by
  rw [calcParticipantPeers, excludeLoop_nil hnodup hc] at h
  have hfound := (participantLoop_ok htable.ne_nil h nodup_nil
    nofun).resolve_left hr
  obtain ⟨hnodup', hallowed, hstop⟩ := hfound
  refine ⟨hnodup', fun x hx => ?_, ?_⟩
  · obtain ⟨hmem, -, hout⟩ := hallowed x hx
    simp only [remaining, Finset.mem_sdiff, mem_toFinset]
    exact ⟨hmem, hout hlast⟩
  · rcases hstop with hn | ⟨rfl, -, -⟩ | ⟨-, hmore⟩
    · exact .inl hn
    · exact absurd hlast (by decide)
    · exact .inr hmore

/-- They are found where enough peers remain and the probes of the range hit every peer. -/
theorem calcParticipantPeers_found (htable : FullTable chain) (hc : 0 < chain.c)
    (hmax : maxUint32 ∉ chain.posTable) (hnodup : proposers.Nodup)
    (hsub : ∀ x ∈ proposers, x ∈ chain.posTable) (hlen : chain.c ≤ proposers.length)
    (hsound : 3 * chain.c + 1 ≤ chain.n) (hlast : checkCalcEndorserOrCommitter last = true)
    (hrange : start ≤ last) (hend : last ≤ 512) (hhits : Hits vrf chain.posTable start last) :
    ∃ r, calcParticipantPeers vrf chain proposers start last = .ok r ∧ r ≠ [] := by
  rw [calcParticipantPeers, excludeLoop_nil hnodup hc]
  have hcard := card_remaining htable hnodup hsub hlen
  refine participantLoop_found (m := chain.c * 2 + 1) (s := remaining chain proposers) hend
    htable.ne_nil hmax (.inr ⟨hlast, rfl⟩) (by omega) ?_ (by omega)
    (zero_lt_succ _) fun x hx => .inr ?_
  · intro x hx
    simp only [remaining, Finset.mem_sdiff, mem_toFinset] at hx
    exact ⟨hx.1, fun he => hmax (he ▸ hx.1), fun _ => hx.2⟩
  · obtain ⟨k, hk, hcalc⟩ := hhits x (mem_toFinset.mp (Finset.mem_sdiff.mp hx).1)
    rw [mem_range'_1] at hk
    exact ⟨k, by omega, by omega, hcalc⟩

end Poly.Vbft
