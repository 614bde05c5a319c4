/-
# How far a hybrid clock runs ahead

A clock rejects a timestamp whose physical part is too far beyond the wall clock. When the logical
part of what is accepted, or of the clock, is at its end, its successor carries into the physical
part.
-/

import Chirps.Gossip.Hlc
import Chirps.Library.Trace

namespace Chirps.Gossip

open Chirps.Library
open Chirps.Tso (HybridTimestamp saturatingAddU64 checkedAddU64)

inductive HlcCall
  | tick
  | receive (remote : HybridTimestamp)

namespace LocalHlc

variable (hlc : LocalHlc)

def call : HlcCall → LocalHlc
  | .tick => hlc.tick.2
  | .receive remote => (hlc.receive remote).2

def largestWall : ℕ := (Finset.range hlc.reads).sup fun n => (hlc.clock n).toNat

def bound : ℕ := hlc.largestWall + hlc.maxClockSkew

def nextBound : ℕ := max hlc.largestWall hlc.wall.toNat + hlc.maxClockSkew

def WithinSkew : Prop := hlc.current.physical.toNat ≤ hlc.bound

def Carries (t : HybridTimestamp) : Prop :=
  t.physical.toNat = hlc.nextBound ∧ t.logical.toNat = 2 ^ 32 - 1 ∧ hlc.nextBound < 2 ^ 64 - 1

/-- The call does not go on from a timestamp whose successor is beyond the bound. -/
def CarriesNone : HlcCall → Prop
  | .tick => ¬ hlc.Carries hlc.current
  | .receive remote => hlc.Accepts remote → ¬ hlc.Carries hlc.current ∧ ¬ hlc.Carries remote

theorem bound_advance (t : HybridTimestamp) : (hlc.advance t).bound = hlc.nextBound := by
  simp only [bound, nextBound, largestWall, advance, Finset.range_add_one, Finset.sup_insert, wall]
  rw [Nat.max_comm]

theorem bound_le_nextBound : hlc.bound ≤ hlc.nextBound :=
  Nat.add_le_add_right (le_max_left _ _) _

theorem wall_le_nextBound : hlc.wall.toNat + hlc.maxClockSkew ≤ hlc.nextBound :=
  Nat.add_le_add_right (le_max_right _ _) _

theorem toNat_saturatingAddU64 (a b : UInt64) :
    (saturatingAddU64 a b).toNat = min (a.toNat + b.toNat) (2 ^ 64 - 1) := by
  rw [saturatingAddU64, checkedAddU64]
  split
  · rename_i hfits
    rw [Option.getD_some, UInt64.toNat_add, Nat.mod_eq_of_lt hfits]
    omega
  · rename_i hover
    have hmax : (18446744073709551615 : UInt64).toNat = 2 ^ 64 - 1 := rfl
    rw [Option.getD_none, hmax]
    omega

theorem toNat_maxSkewMillis : hlc.maxSkewMillis.toNat = min hlc.maxClockSkew (2 ^ 64 - 1) := by
  rw [maxSkewMillis, UInt64.toNat_ofNat']
  omega

variable {hlc : LocalHlc}

theorem physical_le_nextBound {remote : HybridTimestamp} (h : hlc.Accepts remote) :
    remote.physical.toNat ≤ hlc.nextBound := by
  have hle := UInt64.le_iff_toNat_le.mp h
  rw [toNat_saturatingAddU64, toNat_maxSkewMillis] at hle
  have := hlc.wall_le_nextBound
  omega

variable {t : HybridTimestamp}

theorem physical_next_le_iff (h : t.physical.toNat ≤ hlc.nextBound) :
    t.next.physical.toNat ≤ hlc.nextBound ↔ ¬ hlc.Carries t := by
  have hlogical := t.logical.toNat_lt
  rw [HybridTimestamp.next, Carries]
  split
  · rename_i hfits
    exact ⟨fun _ hcarries => by omega, fun _ => h⟩
  · rename_i hover
    have hone : (1 : UInt64).toNat = 1 := rfl
    have hsum :
        (saturatingAddU64 t.physical 1).toNat = min (t.physical.toNat + 1) (2 ^ 64 - 1) := by
      rw [toNat_saturatingAddU64, hone]
    change (saturatingAddU64 t.physical 1).toNat ≤ _ ↔ _
    rw [hsum]
    have hphysical := t.physical.toNat_lt
    omega

theorem toNat_larger (a b : UInt64) : (larger a b).toNat = max a.toNat b.toNat := by
  rw [larger]
  split
  · rename_i h
    exact (max_eq_right (UInt64.le_iff_toNat_le.mp h)).symm
  · rename_i h
    exact (max_eq_left (UInt64.le_iff_toNat_le.mp (Std.le_of_not_ge h))).symm

theorem withinSkew_tick_iff (h : hlc.WithinSkew) :
    (hlc.call .tick).WithinSkew ↔ hlc.CarriesNone .tick := by
  have hcurrent := Nat.le_trans h hlc.bound_le_nextBound
  have hwall := hlc.wall_le_nextBound
  change hlc.ticked.physical.toNat ≤ (hlc.advance hlc.ticked).bound ↔ _
  rw [bound_advance, ticked, CarriesNone]
  split
  · rename_i hahead
    -- a clock behind the wall clock is not at the bound
    have hlt := UInt64.lt_iff_toNat_lt.mp hahead
    refine ⟨fun _ hcarries => ?_, fun _ => ?_⟩
    · have := hcarries.1
      omega
    · change hlc.wall.toNat ≤ _
      omega
  · exact physical_next_le_iff hcurrent

theorem not_carries_of_lt {physical : UInt64} (hle : t.physical.toNat ≤ physical.toNat)
    (hne : physical ≠ t.physical) (hbound : physical.toNat ≤ hlc.nextBound) : ¬ hlc.Carries t := by
  intro hcarries
  have hnat : physical.toNat ≠ t.physical.toNat := fun h => hne (UInt64.toNat_inj.mp h)
  have := hcarries.1
  omega

theorem carries_larger_iff {u : HybridTimestamp} (h : t.physical = u.physical) :
    hlc.Carries ⟨t.physical, larger t.logical u.logical⟩ ↔ hlc.Carries t ∨ hlc.Carries u := by
  obtain ⟨hleft, hright⟩ := le_larger t.logical u.logical
  have hleft := UInt32.le_iff_toNat_le.mp hleft
  have hright := UInt32.le_iff_toNat_le.mp hright
  have ht := t.logical.toNat_lt
  have hu := u.logical.toNat_lt
  simp only [Carries, ← h]
  rcases larger_eq_or t.logical u.logical with hmax | hmax
  · rw [hmax] at hright ⊢
    omega
  · rw [hmax] at hleft ⊢
    omega

theorem physical_merged_le_iff {remote : HybridTimestamp} (h : hlc.WithinSkew)
    (haccepts : hlc.Accepts remote) :
    (hlc.merged remote).physical.toNat ≤ hlc.nextBound ↔
      ¬ hlc.Carries hlc.current ∧ ¬ hlc.Carries remote := by
  have hcurrent := Nat.le_trans h hlc.bound_le_nextBound
  have hremote := physical_le_nextBound haccepts
  have hwall := hlc.wall_le_nextBound
  have hphysical : (larger (larger hlc.current.physical hlc.wall) remote.physical).toNat =
      max (max hlc.current.physical.toNat hlc.wall.toNat) remote.physical.toNat := by
    rw [toNat_larger, toNat_larger]
  rw [merged]
  generalize larger (larger hlc.current.physical hlc.wall) remote.physical = physical at hphysical
  have hbound : physical.toNat ≤ hlc.nextBound := by omega
  have hown : hlc.current.physical.toNat ≤ physical.toNat := by omega
  have htheirs : remote.physical.toNat ≤ physical.toNat := by omega
  split_ifs with hboth hfirst hsecond
  · obtain ⟨rfl, hsame⟩ := hboth
    refine Iff.trans (physical_next_le_iff hbound) ?_
    rw [carries_larger_iff hsame, not_or]
  · have hnot : ¬ hlc.Carries remote :=
      not_carries_of_lt htheirs (fun heq => hboth ⟨hfirst, heq⟩) hbound
    rw [physical_next_le_iff hcurrent]
    exact (and_iff_left hnot).symm
  · rw [physical_next_le_iff hremote]
    exact (and_iff_right (not_carries_of_lt hown hfirst hbound)).symm
  · exact iff_of_true hbound
      ⟨not_carries_of_lt hown hfirst hbound, not_carries_of_lt htheirs hsecond hbound⟩

theorem withinSkew_receive_iff (remote : HybridTimestamp) (h : hlc.WithinSkew) :
    (hlc.call (.receive remote)).WithinSkew ↔ hlc.CarriesNone (.receive remote) := by
  by_cases haccepts : hlc.Accepts remote
  · have hcall : hlc.call (.receive remote) = hlc.advance (hlc.merged remote) := by
      rw [call, receive, if_pos haccepts]
    rw [hcall, WithinSkew, bound_advance, CarriesNone, advance_current,
      physical_merged_le_iff h haccepts]
    exact ⟨fun hnone _ => hnone, fun hnone => hnone haccepts⟩
  · have hcall : hlc.call (.receive remote) = hlc.advance hlc.current := by
      rw [call, receive, if_neg haccepts]
    rw [hcall, WithinSkew, bound_advance]
    exact iff_of_true (Nat.le_trans h hlc.bound_le_nextBound) fun haccepted =>
      absurd haccepted haccepts

end LocalHlc

open LocalHlc in
/-- A clock is never beyond the largest reading by more than the bound, exactly if no call goes on
from a timestamp at the bound whose logical part is at its end. -/
theorem hlc_within_skew_iff (maxClockSkew : ℕ) (clock : ℕ → UInt64) (calls : List HlcCall) :
    (∀ before, before <+: calls → (before.foldl call (withClock maxClockSkew clock)).WithinSkew) ↔
      Throughout call CarriesNone (withClock maxClockSkew clock) calls := by
  refine always_iff_throughout (fun hlc c h => ?_) ?_
  · cases c with
    | tick => exact withinSkew_tick_iff h
    | receive remote => exact withinSkew_receive_iff remote h
  · change (clock 0).toNat ≤ (Finset.range 1).sup (fun n => (clock n).toNat) + maxClockSkew
    rw [Finset.range_one, Finset.sup_singleton]
    exact Nat.le_add_right _ _

/-- A clock accepts a timestamp at the skew bound whose logical part is at its end. -/
theorem received_logical_carries_beyond_skew :
    let hlc := (LocalHlc.withClock 10 fun _ => 5).call (.receive ⟨15, 4294967295⟩)
    hlc.current = ⟨16, 0⟩ ∧ hlc.bound = 15 := by
  decide +kernel

end Chirps.Gossip
