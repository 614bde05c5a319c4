/-
# Hybrid logical clocks

A clock follows the wall clock when that is ahead and counts on its own when it is not; a received
timestamp too far ahead of the wall clock is rejected. Wall-clock readings may jump and run
backwards.
-/

import Chirps.Library.Run
import Chirps.Library.Causality
import Chirps.Tso.Timestamp

/-! ## Successors -/

namespace Chirps.Tso

def saturatingAddU64 (a b : UInt64) : UInt64 := (checkedAddU64 a b).getD 18446744073709551615

namespace HybridTimestamp

def next (t : HybridTimestamp) : HybridTimestamp :=
  if t.logical.toNat + 1 < 2 ^ 32 then ⟨t.physical, t.logical + 1⟩
  else ⟨saturatingAddU64 t.physical 1, 0⟩

/-- The last timestamp, at which `next` goes back. -/
def last : HybridTimestamp := ⟨18446744073709551615, 4294967295⟩

variable {t : HybridTimestamp}

theorem eq_last_iff : t = last ↔ t.rank = 2 ^ 96 - 1 :=
  rank_inj.symm

theorem rank_next (h : t ≠ last) : t.next.rank = t.rank + 1 := by
  have hlogical := t.logical.toNat_lt
  have hphysical := t.physical.toNat_lt
  rw [next]
  split
  · rename_i hfits
    simp only [rank]
    rw [UInt32.toNat_add, UInt32.toNat_one, Nat.mod_eq_of_lt hfits]
    omega
  · rename_i hover
    have hrank : t.rank ≠ 2 ^ 96 - 1 := fun hrank => h (eq_last_iff.mpr hrank)
    rw [rank] at hrank
    have hcarry : t.physical.toNat + (1 : UInt64).toNat < 2 ^ 64 := by
      rw [UInt64.toNat_one]
      omega
    have hsum : (t.physical + 1).toNat = t.physical.toNat + 1 := by
      rw [UInt64.toNat_add, Nat.mod_eq_of_lt hcarry, UInt64.toNat_one]
    rw [saturatingAddU64, checkedAddU64, if_pos hcarry, Option.getD_some, rank, rank, hsum,
      UInt32.toNat_zero]
    omega

theorem lt_next (h : t ≠ last) : t < t.next := by
  rw [← rank_lt_rank, rank_next h]
  exact Nat.lt_succ_self _

theorem lt_of_physical_lt {u : HybridTimestamp} (h : t.physical < u.physical) : t < u := .inl h

end HybridTimestamp

end Chirps.Tso

namespace Chirps.Gossip

open Chirps.Library
open Chirps.Tso (HybridTimestamp saturatingAddU64)

def larger {α : Type*} [LE α] [DecidableLE α] (a b : α) : α := if a ≤ b then b else a

theorem larger_eq_or {α : Type*} [LE α] [DecidableLE α] (a b : α) :
    larger a b = a ∨ larger a b = b := by
  rw [larger]
  split
  · exact .inr rfl
  · exact .inl rfl

theorem le_larger {α : Type*} [LE α] [DecidableLE α] [Std.IsLinearPreorder α] (a b : α) :
    a ≤ larger a b ∧ b ≤ larger a b := by
  rw [larger]
  split
  · rename_i h
    exact ⟨h, Std.le_refl b⟩
  · rename_i h
    exact ⟨Std.le_refl a, Std.le_of_not_ge h⟩

/-! ## One clock -/

inductive HlcError
  | clockSkewTooLarge (remotePhysical wallPhysical maxSkewMillis : UInt64)

/-- The `n`-th reading of the wall clock is `clock n`; `reads` were taken. -/
structure LocalHlc where
  current : HybridTimestamp
  /-- In milliseconds. -/
  maxClockSkew : ℕ
  clock : ℕ → UInt64
  reads : ℕ

namespace LocalHlc

variable (hlc : LocalHlc)

def withClock (maxClockSkew : ℕ) (clock : ℕ → UInt64) : LocalHlc :=
  ⟨⟨clock 0, 0⟩, maxClockSkew, clock, 1⟩

def wall : UInt64 := hlc.clock hlc.reads

def advance (current : HybridTimestamp) : LocalHlc :=
  { hlc with current := current, reads := hlc.reads + 1 }

/-- The timestamp that `tick` sets and returns. -/
def ticked : HybridTimestamp :=
  if hlc.current.physical < hlc.wall then ⟨hlc.wall, 0⟩ else hlc.current.next

def tick : HybridTimestamp × LocalHlc := (hlc.ticked, hlc.advance hlc.ticked)

def maxSkewMillis : UInt64 :=
  UInt64.ofNat (min hlc.maxClockSkew (2 ^ 64 - 1))

def Accepts (remote : HybridTimestamp) : Prop :=
  remote.physical ≤ saturatingAddU64 hlc.wall hlc.maxSkewMillis

instance (hlc : LocalHlc) (remote : HybridTimestamp) : Decidable (hlc.Accepts remote) :=
  inferInstanceAs (Decidable (_ ≤ _))

def merged (remote : HybridTimestamp) : HybridTimestamp :=
  let physical := larger (larger hlc.current.physical hlc.wall) remote.physical
  if physical = hlc.current.physical ∧ physical = remote.physical then
    HybridTimestamp.next ⟨physical, larger hlc.current.logical remote.logical⟩
  else if physical = hlc.current.physical then hlc.current.next
  else if physical = remote.physical then remote.next
  else ⟨physical, 0⟩

def receive (remote : HybridTimestamp) : Except HlcError HybridTimestamp × LocalHlc :=
  if hlc.Accepts remote then (.ok (hlc.merged remote), hlc.advance (hlc.merged remote))
  else (.error (.clockSkewTooLarge remote.physical hlc.wall hlc.maxSkewMillis),
    hlc.advance hlc.current)

@[simp] theorem advance_current (t : HybridTimestamp) : (hlc.advance t).current = t := rfl

theorem lt_ticked {hlc : LocalHlc} (h : hlc.current ≠ .last) : hlc.current < hlc.ticked := by
  rw [ticked]
  split
  · rename_i hwall
    exact HybridTimestamp.lt_of_physical_lt hwall
  · exact HybridTimestamp.lt_next h

theorem lt_merged {hlc : LocalHlc} {remote : HybridTimestamp} (hlocal : hlc.current ≠ .last)
    (hremote : remote ≠ .last) : hlc.current < hlc.merged remote ∧ remote < hlc.merged remote := by
  have hwall := le_larger hlc.current.physical hlc.wall
  have hmerged := le_larger (larger hlc.current.physical hlc.wall) remote.physical
  have hcurrent := UInt64.le_trans hwall.1 hmerged.1
  have hphysical := hmerged.2
  rw [merged]
  generalize larger (larger hlc.current.physical hlc.wall) remote.physical = physical
    at hcurrent hphysical
  split
  · rename_i hboth
    obtain ⟨rfl, hsame⟩ := hboth
    -- the larger logical part is that of one of the two, which has a successor
    have htop : (⟨hlc.current.physical, larger hlc.current.logical remote.logical⟩ :
        HybridTimestamp) ≠ .last := by
      rcases larger_eq_or hlc.current.logical remote.logical with hmax | hmax
      · rw [hmax]
        exact hlocal
      · rw [hmax, hsame]
        exact hremote
    have hnext := HybridTimestamp.lt_next htop
    have hlogical := le_larger hlc.current.logical remote.logical
    constructor
    · refine lt_of_le_of_lt ?_ hnext
      exact .inr ⟨rfl, hlogical.1⟩
    · refine lt_of_le_of_lt ?_ hnext
      exact .inr ⟨hsame.symm, hlogical.2⟩
  · rename_i hboth
    split
    · rename_i hown
      have hlt : remote.physical < hlc.current.physical :=
        UInt64.lt_of_le_of_ne (hown ▸ hphysical) fun heq => hboth ⟨hown, hown.trans heq.symm⟩
      have hnext := HybridTimestamp.lt_next hlocal
      exact ⟨hnext, (HybridTimestamp.lt_of_physical_lt hlt).trans hnext⟩
    · rename_i hown
      have hlt : hlc.current.physical < physical := UInt64.lt_of_le_of_ne hcurrent (Ne.symm hown)
      split
      · rename_i htheirs
        have hnext := HybridTimestamp.lt_next hremote
        exact ⟨(HybridTimestamp.lt_of_physical_lt (htheirs ▸ hlt)).trans hnext, hnext⟩
      · rename_i htheirs
        exact ⟨HybridTimestamp.lt_of_physical_lt hlt,
          HybridTimestamp.lt_of_physical_lt (UInt64.lt_of_le_of_ne hphysical (Ne.symm htheirs))⟩

theorem receive_cases (remote : HybridTimestamp) :
    hlc.receive remote = (.ok (hlc.merged remote), hlc.advance (hlc.merged remote)) ∨
      ∃ error, hlc.receive remote = (.error error, hlc.advance hlc.current) := by
  rw [receive]
  split
  · exact .inl rfl
  · exact .inr ⟨_, rfl⟩

end LocalHlc

/-! ## Clocks that exchange timestamps -/

/-- The timestamp of every event may arrive at any time, any number of times, or never. -/
inductive HlcEvent (ι : Type*)
  | create (a : ι) (maxClockSkew : ℕ) (clock : ℕ → UInt64)
  | tick (a : ι)
  /-- The timestamp of the event at place `i` arrives. -/
  | receive (a : ι) (i : ℕ)

structure Clocks (ι : Type*) where
  clocks : ι → Option LocalHlc
  log : List (Stamped ι HybridTimestamp)

namespace Clocks

variable {ι : Type*}

def initial : Clocks ι := ⟨fun _ => none, []⟩

def BelowLast (x : Clocks ι) : Prop := ∀ a, ∀ hlc ∈ x.clocks a, hlc.current ≠ .last

instance [Fintype ι] (x : Clocks ι) : Decidable x.BelowLast :=
  have (a : ι) : Decidable (∀ hlc ∈ x.clocks a, hlc.current ≠ .last) := Option.decidableForallMem _
  Fintype.decidableForallFintype

/-- A `tick` or an accepted `receive` returns more than the clock had, and received; a rejected one
leaves it. -/
def Advances (x : Clocks ι) : HlcEvent ι → Prop
  | .create _ _ _ => True
  | .tick a => ∀ hlc ∈ x.clocks a, hlc.current < hlc.tick.1 ∧ hlc.tick.2.current = hlc.tick.1
  | .receive a i => ∀ hlc ∈ x.clocks a, ∀ sent ∈ x.log[i]?,
    match hlc.receive sent.stamp with
    | (.ok t, next) => hlc.current < t ∧ sent.stamp < t ∧ next.current = t
    | (.error _, next) => next.current = hlc.current

variable [DecidableEq ι]

def setClock (x : Clocks ι) (a : ι) (hlc : LocalHlc) : Clocks ι :=
  { x with clocks := Function.update x.clocks a (some hlc) }

def record (x : Clocks ι) (a : ι) (source : Option ℕ) (hlc : LocalHlc) : Clocks ι :=
  { x.setClock a hlc with log := x.log ++ [⟨a, source, hlc.current⟩] }

def step (x : Clocks ι) : HlcEvent ι → Option (Clocks ι)
  | .create a maxClockSkew clock =>
    if (x.clocks a).isNone then some (x.record a none (.withClock maxClockSkew clock)) else none
  | .tick a => (x.clocks a).map fun hlc => x.record a none hlc.tick.2
  | .receive a i =>
    match x.clocks a, x.log[i]? with
    | some hlc, some sent =>
      match hlc.receive sent.stamp with
      | (.ok _, hlc) => some (x.record a (some i) hlc)
      | (.error _, hlc) => some (x.setClock a hlc)
    | _, _ => none

structure Inv (x : Clocks ι) : Prop where
  le_current : ∀ e ∈ x.log, ∃ hlc, x.clocks e.process = some hlc ∧ e.stamp ≤ hlc.current
  causal : Causal x.log

omit [DecidableEq ι] in
theorem inv_initial : (initial : Clocks ι).Inv where
  le_current _ h := by cases h
  causal := causal_nil

variable {x : Clocks ι}

omit [DecidableEq ι] in
theorem Inv.ne_last (inv : x.Inv) (below : x.BelowLast) {e : Stamped ι HybridTimestamp}
    (he : e ∈ x.log) : e.stamp ≠ .last := by
  obtain ⟨hlc, hclock, hle⟩ := inv.le_current e he
  have hcurrent := below e.process hlc hclock
  rintro hlast
  rw [hlast] at hle
  refine hcurrent (le_antisymm ?_ hle)
  have hlogical := hlc.current.logical.toNat_lt
  have hphysical := hlc.current.physical.toNat_lt
  rw [← HybridTimestamp.rank_le_rank, HybridTimestamp.eq_last_iff.mp rfl, HybridTimestamp.rank]
  omega

theorem Inv.le_current_setClock (inv : x.Inv) {a : ι} {hlc : LocalHlc}
    (hle : ∀ old ∈ x.clocks a, old.current ≤ hlc.current) {e : Stamped ι HybridTimestamp}
    (he : e ∈ x.log) :
    ∃ now, (x.setClock a hlc).clocks e.process = some now ∧ e.stamp ≤ now.current := by
  obtain ⟨old, hclock, hstamp⟩ := inv.le_current e he
  by_cases ha : e.process = a
  · rw [ha] at hclock ⊢
    exact ⟨hlc, Function.update_self .., hstamp.trans (hle old hclock)⟩
  · exact ⟨old, (Function.update_of_ne ha ..).trans hclock, hstamp⟩

theorem Inv.record (inv : x.Inv) {a : ι} {source : Option ℕ} {hlc : LocalHlc}
    (local_lt : ∀ old ∈ x.clocks a, old.current < hlc.current)
    (source_lt : ∀ i ∈ source, ∀ sent ∈ x.log[i]?, sent.stamp < hlc.current) :
    (x.record a source hlc).Inv where
  le_current e he := by
    rcases List.mem_append.mp he with hold | hnew
    · exact inv.le_current_setClock (fun old hclock => (local_lt old hclock).le) hold
    · obtain rfl := List.mem_singleton.mp hnew
      exact ⟨hlc, Function.update_self .., le_rfl⟩
  causal := by
    refine inv.causal.append (fun e he hprocess => ?_) source_lt
    obtain ⟨old, hclock, hle⟩ := inv.le_current e he
    rw [hprocess] at hclock
    exact hle.trans_lt (local_lt old hclock)

theorem Inv.step {next : Clocks ι} {event : HlcEvent ι} (inv : x.Inv) (below : x.BelowLast)
    (h : x.step event = some next) : next.Inv := by
  cases event with
  | create a maxClockSkew clock =>
    obtain ⟨hnone, ⟨⟩⟩ := Option.ite_none_right_eq_some.mp h
    rw [Option.isNone_iff_eq_none] at hnone
    refine inv.record (fun old hold => ?_) nofun
    cases hnone.symm.trans hold
  | tick a =>
    obtain ⟨hlc, hclock, rfl⟩ := Option.map_eq_some_iff.mp h
    refine inv.record (fun old hold => ?_) nofun
    cases hclock.symm.trans hold
    exact LocalHlc.lt_ticked (below a hlc hclock)
  | receive a i =>
    rw [Clocks.step] at h
    split at h
    · rename_i hlc sent hclock hsent
      have hlt := LocalHlc.lt_merged (below a hlc hclock)
        (inv.ne_last below (List.mem_of_getElem? hsent))
      rcases hlc.receive_cases sent.stamp with haccepted | ⟨error, hrejected⟩
      · rw [haccepted] at h
        cases h
        refine inv.record (fun old hold => ?_) fun j hj e he => ?_
        · cases hclock.symm.trans hold
          exact hlt.1
        · cases hj
          cases hsent.symm.trans he
          exact hlt.2
      · rw [hrejected] at h
        cases h
        refine ⟨fun e he => inv.le_current_setClock (fun old hold => ?_) he, inv.causal⟩
        cases hclock.symm.trans hold
        exact le_rfl
    · cases h

omit [DecidableEq ι] in
theorem Inv.advances (inv : x.Inv) (below : x.BelowLast) (event : HlcEvent ι) :
    x.Advances event := by
  cases event with
  | create a maxClockSkew clock => trivial
  | tick a => exact fun hlc hclock => ⟨LocalHlc.lt_ticked (below a hlc hclock), rfl⟩
  | receive a i =>
    intro hlc hclock sent hsent
    have hlt := LocalHlc.lt_merged (below a hlc hclock)
      (inv.ne_last below (List.mem_of_getElem? hsent))
    rcases hlc.receive_cases sent.stamp with haccepted | ⟨error, hrejected⟩
    · rw [haccepted]
      exact ⟨hlt.1, hlt.2, rfl⟩
    · rw [hrejected]
      rfl

end Clocks

open Clocks in
/-- Before the last timestamp clocks go up with each `tick` and each accepted `receive`, and what
happens before has the smaller timestamp. -/
theorem hlc_respects_causality {ι : Type*} [DecidableEq ι] (events : List (HlcEvent ι))
    (below : Along step (fun x _ => x.BelowLast) initial events) :
    Along step Advances (initial : Clocks ι) events ∧
      ∀ x, run step initial events = some x → ∀ i j, HappensBefore x.log i j →
        ∀ a ∈ x.log[i]?, ∀ b ∈ x.log[j]?, a.stamp < b.stamp := by
  constructor
  · exact Along.of_invariant (I := Inv) (fun _ _ _ inv below h => inv.step below h)
      (fun _ event _ inv below _ => inv.advances below event) inv_initial below
  · intro x reach i j hbefore
    have inv : x.Inv :=
      run_invariant_of_along (fun _ _ _ inv below h => inv.step below h) inv_initial below reach
    exact inv.causal.lt_of_happensBefore hbefore

/-- A slow clock receives from a fast one, and ticks although its wall clock goes back. -/
theorem hlc_respects_causality_backwards :
    ∃ x : Clocks Bool, run Clocks.step Clocks.initial
        [.create false 10 (fun _ => 5), .create true 10 (fun n => if n = 0 then 2 else 1),
          .tick false, .receive true 2, .tick true] = some x ∧
      x.log.map Stamped.stamp = [⟨5, 0⟩, ⟨2, 0⟩, ⟨5, 1⟩, ⟨5, 2⟩, ⟨5, 3⟩] ∧
      HappensBefore x.log 2 4 ∧ ∀ a ∈ x.log[2]?, ∀ b ∈ x.log[4]?, a.stamp < b.stamp := by
  have hbelow : Along Clocks.step (fun x _ => x.BelowLast) (Clocks.initial : Clocks Bool)
      [.create false 10 (fun _ => 5), .create true 10 (fun n => if n = 0 then 2 else 1),
        .tick false, .receive true 2, .tick true] := by
    decide +kernel
  refine ⟨_, rfl, by decide, ?_⟩
  have hbefore := (hlc_respects_causality _ hbelow).2 _ rfl 2 4
  refine (fun hreceived => ⟨hreceived, hbefore hreceived⟩) (Relation.TransGen.tail (b := 3) ?_ ?_)
  · exact .single ⟨by decide, _, _, rfl, rfl, .inr rfl⟩
  · exact ⟨by decide, _, _, rfl, rfl, .inl rfl⟩

end Chirps.Gossip
