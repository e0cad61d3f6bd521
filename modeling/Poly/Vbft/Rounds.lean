import Poly.Vbft.FaultBound

/-! Rounds: the participants that are drawn for a block, and those a node holds the round with. -/
namespace Poly.Vbft

open Lib List

section Selection

variable {vrf : VRFValue} {chain : ChainConfig} {excluded peers proposers r : List UInt32}
  {start last fuel i : ℕ}

theorem participantLoop_end (hi : 512 ≤ i) :
    participantLoop vrf chain excluded last fuel i peers = .ok [] := by
  cases fuel with
  | zero => rfl
  | succ fuel => rw [participantLoop_succ (calcParticipant_end hi), if_pos rfl]

/-- The loop stops by itself at probe 512 at the latest. -/
theorem participantLoop_fuel {fuel'} (h : 512 ≤ i + fuel) (h' : 512 ≤ i + fuel') :
    participantLoop vrf chain excluded last fuel i peers =
      participantLoop vrf chain excluded last fuel' i peers := by
  induction fuel generalizing i peers fuel' with
  | zero => exact (participantLoop_end h).trans (participantLoop_end h).symm
  | succ fuel ih =>
    by_cases hi : 512 ≤ i
    · rw [participantLoop_end hi, participantLoop_end hi]
    · cases fuel' with
      | zero => exact absurd h' hi
      | succ fuel' =>
        have hnext : ∀ peers, participantLoop vrf chain excluded last fuel (i + 1) peers =
            participantLoop vrf chain excluded last fuel' (i + 1) peers :=
          fun peers => ih (by omega) (by omega)
        simp only [participantLoop, hnext]

/-- The loop for endorsers or committers stops with the first peer beyond twice `c`. -/
theorem participantLoop_length (hlast : checkCalcEndorserOrCommitter last = true)
    (hlen : peers.length ≤ chain.c * 2)
    (h : participantLoop vrf chain excluded last fuel i peers = .ok r) :
    r.length ≤ chain.c * 2 + 1 := by
  induction fuel generalizing i peers with
  | zero =>
    cases h
    exact Nat.zero_le _
  | succ fuel ih =>
    obtain ⟨x, -, h⟩ := bind_ok.mp h
    have hadd : (addPeer peers x).length ≤ chain.c * 2 + 1 := by
      by_cases hx : x ∈ peers
      · rw [addPeer, if_pos hx]
        omega
      · rw [addPeer_length hx]
        omega
    dsimp only at h
    split at h
    · cases h
      exact Nat.zero_le _
    split at h
    · exact ih hlen h
    split at h
    · cases h
      exact hadd
    split at h
    · cases h
      exact hadd
    split at h
    · cases h
      exact hadd
    next hmore => exact ih (not_lt.mp fun hlt => hmore ⟨hlast, hlt⟩) h

/-- Endorsers or committers as they are meant to be. -/
structure Selected (chain : ChainConfig) (proposers r : List UInt32) : Prop where
  nodup : r.Nodup
  length_eq : r.length = 2 * chain.c + 1
  mem : ∀ x ∈ r, x ∈ chain.posTable ∧ x ∉ proposers.take chain.c

structure WellFormed (chain : ChainConfig) (cfg : BlockParticipantConfig) : Prop where
  nodup : cfg.proposers.Nodup
  length_eq : cfg.proposers.length = chain.c + 1
  mem : ∀ x ∈ cfg.proposers, x ∈ chain.posTable
  endorsers : Selected chain cfg.proposers cfg.endorsers
  committers : Selected chain cfg.proposers cfg.committers

variable (htable : FullTable chain) (hc : 3 * chain.c + 1 ≤ chain.n)
include htable hc

theorem selected_of_found (hp : proposers.Nodup) (hlast : checkCalcEndorserOrCommitter last = true)
    (h : calcParticipantPeers vrf chain proposers start last = .ok r) (hr : r ≠ []) :
    Selected chain proposers r := by
  obtain ⟨hnodup, hallowed, hstop⟩ := (participantLoop_ok htable.ne_nil h nodup_nil
    nofun).resolve_left hr
  have hle := participantLoop_length hlast (Nat.zero_le _) h
  refine ⟨hnodup, ?_, fun x hx => ⟨(hallowed x hx).1, fun hmem => ?_⟩⟩
  · rcases hstop with hn | ⟨rfl, -, -⟩ | ⟨-, hmore⟩
    · omega
    · exact absurd hlast (by decide)
    · omega
  · rcases Nat.eq_zero_or_pos chain.c with hzero | hpos
    · rw [hzero] at hmem
      cases hmem
    · rw [← excludeLoop_nil hp hpos] at hmem
      exact (hallowed x hx).2.2 hlast hmem

end Selection

section Update

/-- What the next round is built from: the new configuration of a sealed block, if it has one, and
the seed that is computed from it. -/
structure SealedBlock where
  newChainConfig : Option ChainConfig
  participantSelectionSeed : VRFValue

/-- What the update of the participants reads and writes; `getSealedBlock` is that of the pool. -/
structure RoundServer where
  currentBlockNum : UInt32
  config : ChainConfig
  getSealedBlock : UInt32 → Option SealedBlock
  currentParticipantConfig : Option BlockParticipantConfig

variable (s : RoundServer)

def RoundServer.build (block : SealedBlock) : Result BlockParticipantConfig :=
  buildParticipantConfig s.currentBlockNum block.participantSelectionSeed
    (block.newChainConfig.getD s.config)

def RoundServer.updateParticipantConfig : Result Unit × RoundServer :=
  match s.getSealedBlock (s.currentBlockNum - 1) with
  | none => (.error (.error s!"failed to get sealed block ({s.currentBlockNum - 1})"), s)
  | some block =>
    match s.build block with
    | .ok cfg => (.ok (), { s with currentParticipantConfig := some cfg })
    | .error (.panic msg) => (.error (.panic msg), s)
    -- the error belongs to an inner scope; the one that is looked at afterwards is still nil
    | .error (.error _) => (.ok (), s)

/-- The participants are those for the block that the node is at, built from the block before. -/
def RoundServer.UpToDate (cfg : BlockParticipantConfig) : Prop :=
  cfg.blockNum = s.currentBlockNum ∧
    ∃ block, s.getSealedBlock (s.currentBlockNum - 1) = some block ∧ s.build block = .ok cfg

end Update

end Poly.Vbft
