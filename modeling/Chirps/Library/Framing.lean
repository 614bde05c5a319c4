/-
# Strings of frames

A frame is a body behind a header of fixed width that gives its length. A string of frames that
starts another one is made of the first of its frames, so one that is cut off is one again only if
the cut is between two frames.
-/

import Mathlib

namespace Chirps.Library

/-- How bodies are put into frames. The header announces the length of a body that
fits. -/
structure Framing (β : Type*) where
  width : ℕ
  header : List β → List β
  announced : List β → ℕ
  Fits : List β → Prop
  width_pos : 0 < width
  length_header : ∀ body, (header body).length = width
  announced_header : ∀ body, Fits body → announced (header body) = body.length

namespace Framing

variable {β : Type*} (f : Framing β)

def frame (body : List β) : List β := f.header body ++ body

def frames (bodies : List (List β)) : List β := bodies.flatMap f.frame

variable {f} {body : List β} {bodies others : List (List β)}

theorem length_frame (body : List β) : (f.frame body).length = f.width + body.length := by
  rw [frame, List.length_append, f.length_header]

theorem frame_ne_nil (body : List β) : f.frame body ≠ [] := by
  have hwidth := f.width_pos
  apply List.ne_nil_of_length_pos
  rw [length_frame]
  omega

@[simp] theorem frames_nil : f.frames [] = [] := rfl

@[simp] theorem frames_cons (body : List β) (bodies : List (List β)) :
    f.frames (body :: bodies) = f.frame body ++ f.frames bodies := rfl

theorem frames_eq_nil_iff : f.frames bodies = [] ↔ bodies = [] := by
  cases bodies with
  | nil => simp
  | cons body bodies => simp [frame_ne_nil]

theorem frames_append (bodies others : List (List β)) :
    f.frames (bodies ++ others) = f.frames bodies ++ f.frames others :=
  List.flatMap_append

/-! ## Prefixes -/

theorem eq_of_append_eq_append {other rest rest' : List β} (hbody : f.Fits body)
    (hother : f.Fits other) (h : f.frame body ++ rest = f.frame other ++ rest') :
    body = other ∧ rest = rest' := by
  rw [frame, frame, List.append_assoc, List.append_assoc] at h
  have hwidth : (f.header body).length = (f.header other).length := by
    rw [f.length_header, f.length_header]
  obtain ⟨hheader, htail⟩ := List.append_inj h hwidth
  have hlength : body.length = other.length := by
    rw [← f.announced_header body hbody, hheader, f.announced_header other hother]
  exact List.append_inj htail hlength

theorem prefix_of_frames (hbodies : ∀ body ∈ bodies, f.Fits body)
    (hothers : ∀ body ∈ others, f.Fits body) (h : f.frames bodies <+: f.frames others) :
    bodies <+: others := by
  induction bodies generalizing others with
  | nil => exact List.nil_prefix
  | cons body bodies ih =>
    obtain ⟨rest, hrest⟩ := h
    cases others with
    | nil =>
      rw [frames_nil, frames_cons, List.append_assoc] at hrest
      exact absurd (List.append_eq_nil_iff.mp hrest).1 (frame_ne_nil body)
    | cons other others =>
      rw [frames_cons, frames_cons, List.append_assoc] at hrest
      obtain ⟨rfl, htail⟩ := eq_of_append_eq_append (hbodies body List.mem_cons_self)
        (hothers other List.mem_cons_self) hrest
      refine List.cons_prefix_cons.mpr ⟨rfl, ih ?_ ?_ ⟨rest, htail⟩⟩
      · exact fun x hx => hbodies x (List.mem_cons_of_mem body hx)
      · exact fun x hx => hothers x (List.mem_cons_of_mem body hx)

theorem prefix_of_frames_append {last tail : List β}
    (hbodies : ∀ body ∈ bodies, f.Fits body) (hothers : ∀ body ∈ others, f.Fits body)
    (hlast : f.Fits last) (htail : tail <+: f.frame last) (hshort : tail ≠ f.frame last)
    (h : f.frames bodies <+: f.frames others ++ tail) : bodies <+: others := by
  have hall : f.frames bodies <+: f.frames (others ++ [last]) := by
    rw [frames_append, frames_cons, frames_nil, List.append_nil]
    exact h.trans (List.prefix_append_right_inj _ |>.mpr htail)
  have hfits : ∀ body ∈ others ++ [last], f.Fits body := by
    intro body hbody
    rcases List.mem_append.mp hbody with hmem | hmem
    · exact hothers body hmem
    · obtain rfl := List.mem_singleton.mp hmem
      exact hlast
  rcases List.prefix_concat_iff.mp (prefix_of_frames hbodies hfits hall) with rfl | hfirst
  · -- all frames would be finished
    rw [frames_append, frames_cons, frames_nil, List.append_nil,
      List.prefix_append_right_inj] at h
    exact absurd (htail.eq_of_length (Nat.le_antisymm htail.length_le h.length_le)) hshort
  · exact hfirst

/-! ## Cuts -/

theorem take_frames_eq_iff (hbodies : ∀ body ∈ bodies, f.Fits body)
    (hothers : ∀ body ∈ others, f.Fits body) {cut : ℕ} (hcut : cut ≤ (f.frames bodies).length) :
    (f.frames bodies).take cut = f.frames others ↔
      ∃ k ≤ bodies.length, cut = (f.frames (bodies.take k)).length ∧ others = bodies.take k := by
  constructor
  · intro h
    have hfirst : others <+: bodies := by
      refine prefix_of_frames hothers hbodies ?_
      rw [← h]
      exact List.take_prefix _ _
    obtain hothers := List.prefix_iff_eq_take.mp hfirst
    refine ⟨others.length, hfirst.length_le, ?_, hothers⟩
    rw [← hothers, ← h, List.length_take, Nat.min_eq_left hcut]
  · rintro ⟨k, -, rfl, rfl⟩
    have hsplit : f.frames bodies = f.frames (bodies.take k) ++ f.frames (bodies.drop k) := by
      rw [← frames_append, List.take_append_drop]
    rw [hsplit]
    exact List.take_left

end Framing

end Chirps.Library
