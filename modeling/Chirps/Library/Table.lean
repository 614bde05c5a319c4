/-
# Tables

A partial function from keys to entries, of which one place is changed. What is in the table
afterwards is the new entry, or one that was there under another key. A finite map is such a
function by its `lookup`.
-/

import Mathlib

namespace Chirps.Library

open Function (update)

variable {α β : Type*} [DecidableEq α] {table : α → Option β} {key place : α} {entry : β}
  {new : Option β}

theorem update_eq_some_iff :
    update table place new key = some entry ↔
      key = place ∧ new = some entry ∨ key ≠ place ∧ table key = some entry := by
  by_cases hkey : key = place
  · subst hkey
    simp
  · simp [hkey]

theorem update_none_eq_some_iff :
    update table place none key = some entry ↔ key ≠ place ∧ table key = some entry := by
  rw [update_eq_some_iff]
  simp

theorem forall_of_update {P : α → β → Prop} (self : ∀ entry, new = some entry → P place entry)
    (others : ∀ key entry, key ≠ place → table key = some entry → P key entry) :
    ∀ key entry, update table place new key = some entry → P key entry := by
  intro key entry hentry
  rcases update_eq_some_iff.mp hentry with ⟨rfl, hnew⟩ | ⟨hkey, hold⟩
  · exact self entry hnew
  · exact others key entry hkey hold

theorem forall_update_some {P : α → β → Prop}
    (all : ∀ key entry, table key = some entry → P key entry)
    (self : ∀ entry, new = some entry → P place entry) :
    ∀ key entry, update table place new key = some entry → P key entry :=
  forall_of_update self fun key entry _ => all key entry

def put (map : AList fun _ : α => β) (place : α) (new : Option β) : AList fun _ : α => β :=
  new.elim (map.erase place) fun entry => map.insert place entry

@[simp] theorem put_none (map : AList fun _ : α => β) : put map place none = map.erase place := rfl

@[simp] theorem put_some (map : AList fun _ : α => β) :
    put map place (some entry) = map.insert place entry := rfl

theorem lookup_put (map : AList fun _ : α => β) :
    (put map place new).lookup key = update (fun key => map.lookup key) place new key := by
  by_cases hkey : key = place
  · subst hkey
    cases new <;> simp
  · cases new with
    | none => simp [AList.lookup_erase_ne hkey, hkey]
    | some entry => simp [AList.lookup_insert_ne hkey, hkey]

variable {map : AList fun _ : α => β}

theorem lookup_put_eq_some_iff :
    (put map place new).lookup key = some entry ↔
      key = place ∧ new = some entry ∨ key ≠ place ∧ map.lookup key = some entry := by
  rw [lookup_put, update_eq_some_iff]

theorem lookup_insert_eq_some_iff {value : β} :
    (map.insert place value).lookup key = some entry ↔
      key = place ∧ value = entry ∨ key ≠ place ∧ map.lookup key = some entry := by
  rw [← put_some, lookup_put_eq_some_iff, Option.some_inj]

theorem lookup_erase_eq_some_iff :
    (map.erase place).lookup key = some entry ↔ key ≠ place ∧ map.lookup key = some entry := by
  rw [← put_none, lookup_put, update_none_eq_some_iff]

end Chirps.Library
