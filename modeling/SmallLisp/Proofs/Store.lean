import Mathlib.Data.List.Find
import Mathlib.Data.List.Induction
import Mathlib.Tactic.Common
import SmallLisp.Store

/-!
# Frames of a store

What the changes of a store do to each frame, and what a store has to keep for a frame to be seen
as before.

A name has its new value wherever the frame in which it is bound is now the innermost one with it
(`Store.lookup?_set_of_lt`).  If it was bound there already, it is found where it was found before
(`Store.find?_set`, `Store.lookup?_set`).

`Store.Grows` is the change that evaluation makes when it binds nothing: all frames that were there
are as they were, and what is seen from them is the same (`Store.Grows.lookup?_eq`).
-/

namespace SmallLisp

namespace Bindings

theorem isSome_get?_put {x name : String} {v : Value} {b : Bindings} :
    ((b.put name v).get? x).isSome ↔ x = name ∨ (b.get? x).isSome := by
  by_cases hx : x = name
  · rw [hx, get?_put_self]
    simp
  · rw [get?_put_of_ne hx]
    simp [hx]

theorem mem_of_get? {x : String} {v : Value} {b : Bindings} (h : b.get? x = some v) :
    (x, v) ∈ b := by
  induction b with
  | nil => cases h
  | cons p b ih =>
    obtain ⟨y, w⟩ := p
    unfold get? at h
    split_ifs at h with hy
    · rw [hy, Option.some.inj h]
      exact List.mem_cons_self ..
    · exact List.mem_cons_of_mem _ (ih h)

theorem ofPairs_concat (pairs : List (String × Value)) (p : String × Value) :
    ofPairs (pairs ++ [p]) = (ofPairs pairs).put p.1 p.2 :=
  List.foldl_append ..

/-- Bindings from pairs bind the first components. -/
theorem isSome_get?_ofPairs {pairs : List (String × Value)} {x : String} :
    ((ofPairs pairs).get? x).isSome ↔ x ∈ pairs.map Prod.fst := by
  -- A later pair overrides an earlier one, so the last pair is the one to look at first.
  induction pairs using List.reverseRecOn with
  | nil => simp [ofPairs, get?]
  | append_singleton pairs p ih =>
    rw [ofPairs_concat, isSome_get?_put, ih, List.map_append, List.mem_append, List.map_singleton,
      List.mem_singleton]
    exact or_comm

/-- Bindings from pairs bind nothing but second components. -/
theorem mem_of_get?_ofPairs {pairs : List (String × Value)} {x : String} {v : Value}
    (h : (ofPairs pairs).get? x = some v) : (x, v) ∈ pairs := by
  induction pairs using List.reverseRecOn with
  | nil => cases h
  | append_singleton pairs p ih =>
    rw [ofPairs_concat] at h
    rw [List.mem_append, List.mem_singleton]
    by_cases hx : x = p.1
    · rw [hx, get?_put_self] at h
      right
      rw [hx, ← Option.some.inj h]
    · rw [get?_put_of_ne hx] at h
      exact Or.inl (ih h)

end Bindings

namespace Store

variable {s s' s'' : Store} {f g h : FrameId} {x y name : String} {v w : Value}

/-! ### Changes of frames -/

theorem frames_set : (s.set f name v).frames[g]? = if f = g
    then s.frames[g]?.map fun frame => { frame with bindings := frame.bindings.put name v }
    else s.frames[g]? :=
  Array.getElem?_modify

@[simp]
theorem size_set : (s.set f name v).frames.size = s.frames.size :=
  Array.size_modify

theorem frames_push {bindings : Bindings} {outer : Option FrameId} :
    (s.push bindings outer).2.frames[g]?
      = if g = s.frames.size then some ⟨bindings, outer⟩ else s.frames[g]? :=
  Array.getElem?_push

theorem frames_nested {params : List String} {args : List Value} {scope : FrameId} :
    (s.nested params args scope).2.frames[g]? = if g = s.frames.size
      then some ⟨.ofPairs (params.zip args), some scope⟩ else s.frames[g]? :=
  frames_push

@[simp]
theorem size_nested {params : List String} {args : List Value} {scope : FrameId} :
    (s.nested params args scope).2.frames.size = s.frames.size + 1 :=
  Array.size_push _

theorem lt_size_of_frames_eq_some {frame : Frame} (h : s.frames[g]? = some frame) :
    g < s.frames.size := by
  by_contra hg
  rw [Array.getElem?_eq_none (Nat.le_of_not_lt hg)] at h
  cases h

theorem get?_congr (h : s'.frames[g]? = s.frames[g]?) : s'.get? g x = s.get? g x := by
  unfold get?
  rw [h]

theorem outer?_congr (h : s'.frames[g]? = s.frames[g]?) : s'.outer? g = s.outer? g := by
  unfold outer?
  rw [h]

theorem outer?_of_frames_eq_some {frame : Frame} (h : s.frames[g]? = some frame) :
    s.outer? g = frame.outer := by
  unfold outer?
  rw [h]
  rfl

theorem lt_size_of_get? (h : s.get? g x = some v) : g < s.frames.size := by
  obtain ⟨frame, hframe, -⟩ := Option.bind_eq_some_iff.1 h
  exact lt_size_of_frames_eq_some hframe

theorem lt_size_of_outer? (h : s.outer? f = some g) : f < s.frames.size := by
  obtain ⟨frame, hframe, -⟩ := Option.bind_eq_some_iff.1 h
  exact lt_size_of_frames_eq_some hframe

/-- Binding a name moves no frame. -/
@[simp]
theorem outer?_set : (s.set f name v).outer? g = s.outer? g := by
  unfold outer?
  rw [frames_set]
  split_ifs
  · rw [Option.bind_map]
    rfl
  · rfl

theorem get?_set_self (hf : f < s.frames.size) : (s.set f name v).get? f name = some v := by
  unfold get?
  rw [frames_set, if_pos rfl, Array.getElem?_eq_getElem hf]
  exact Bindings.get?_put_self ..

theorem get?_set_of_ne (h : f ≠ g ∨ x ≠ name) : (s.set f name v).get? g x = s.get? g x := by
  unfold get?
  rw [frames_set]
  split_ifs with hfg
  · rw [Option.bind_map]
    congr 1
    funext frame
    exact Bindings.get?_put_of_ne (h.resolve_left (not_not.2 hfg)) ..
  · rfl

section
variable {bindings : Bindings} {outer : Option FrameId}

theorem outer?_push : (s.push bindings outer).2.outer? g
    = if g = s.frames.size then outer else s.outer? g := by
  unfold outer?
  rw [frames_push]
  split_ifs <;> rfl

theorem get?_push : (s.push bindings outer).2.get? g x
    = if g = s.frames.size then bindings.get? x else s.get? g x := by
  unfold get?
  rw [frames_push]
  split_ifs <;> rfl

end

section
variable {params : List String} {args : List Value} {scope : FrameId}

theorem outer?_nested_self :
    (s.nested params args scope).2.outer? s.frames.size = some scope :=
  outer?_push.trans (if_pos rfl)

theorem get?_nested_self : (s.nested params args scope).2.get? s.frames.size x
    = (Bindings.ofPairs (params.zip args)).get? x :=
  get?_push.trans (if_pos rfl)

end

/-! ### Chains -/

theorem chain_of_outer?_some (h : s.outer? f = some g) (hlt : g < f) :
    s.chain f = f :: s.chain g := by
  rw [chain, h]
  simp [hlt]

theorem chain_of_outer?_none (h : s.outer? f = none) : s.chain f = [f] := by
  rw [chain, h]

/-- From a frame that lies in no other, a name has the value that it has there. -/
theorem lookup?_of_outer?_none (h : s.outer? f = none) : s.lookup? f x = s.get? f x := by
  unfold lookup? find?
  rw [chain_of_outer?_none h]
  cases hx : s.get? f x with
  | none => simp [hx]
  | some v => simp [hx]

theorem mem_chain_of_find? (h : s.find? f name = some g) : g ∈ s.chain f :=
  List.mem_of_find?_eq_some h

theorem isSome_get?_of_find? (h : s.find? f name = some g) : (s.get? g name).isSome = true := by
  have hsome := List.find?_some h
  exact hsome

/-- A chain is told by where frames lie, from the first one outwards. -/
theorem chain_congr (h : ∀ g ≤ f, s'.outer? g = s.outer? g) : s'.chain f = s.chain f := by
  induction f using Nat.strongRecOn with
  | ind f ih =>
    rw [chain, chain, h f (Nat.le_refl f)]
    cases s.outer? f with
    | none => rfl
    | some g =>
      by_cases hlt : g < f
      · have hchain : s'.chain g = s.chain g :=
          ih g hlt fun k hk => h k (Nat.le_trans hk (Nat.le_of_lt hlt))
        simp only [dif_pos hlt, hchain]
      · simp only [dif_neg hlt]

/-- A new frame starts a chain that goes on where its outer frame was already, and leaves the other
chains as they were. -/
theorem chain_push {bindings : Bindings} {outer : Option FrameId}
    (houter : ∀ k ∈ outer, k < s.frames.size) (hg : g ≤ s.frames.size) :
    (s.push bindings outer).2.chain g
      = if g = s.frames.size then g :: outer.elim [] s.chain else s.chain g := by
  have hold {k : FrameId} (hk : k < s.frames.size) :
      (s.push bindings outer).2.chain k = s.chain k :=
    chain_congr fun i hi => by rw [outer?_push, if_neg (Nat.ne_of_lt (Nat.lt_of_le_of_lt hi hk))]
  split_ifs with hnew
  · have hself : (s.push bindings outer).2.outer? g = outer := by rw [outer?_push, if_pos hnew]
    cases outer with
    | none => exact chain_of_outer?_none hself
    | some k =>
      have hk : k < s.frames.size := houter k rfl
      rw [chain_of_outer?_some hself (hnew ▸ hk), hold hk]
      rfl
  · exact hold (Nat.lt_of_le_of_ne hg hnew)

/-- No frame of a chain is younger than the first one. -/
theorem le_of_mem_chain (hg : g ∈ s.chain f) : g ≤ f := by
  induction f using Nat.strongRecOn with
  | ind f ih =>
    rw [chain] at hg
    rcases List.mem_cons.1 hg with rfl | hg
    · exact Nat.le_refl g
    · split at hg
      · split_ifs at hg with hlt
        · exact Nat.le_trans (ih _ hlt hg) (Nat.le_of_lt hlt)
        · cases hg
      · cases hg

theorem le_of_find? (h : s.find? f x = some g) : g ≤ f :=
  le_of_mem_chain (mem_chain_of_find? h)

/-- From a frame that is not there nothing is found. -/
theorem lt_size_of_find? (h : s.find? f x = some g) : f < s.frames.size := by
  by_contra hf
  have hnone : s.frames[f]? = none := Array.getElem?_eq_none (Nat.le_of_not_lt hf)
  have houter : s.outer? f = none := by rw [outer?, hnone]; rfl
  have hmem := mem_chain_of_find? h
  rw [chain_of_outer?_none houter, List.mem_singleton] at hmem
  obtain ⟨v, hv⟩ := Option.isSome_iff_exists.1 (isSome_get?_of_find? h)
  exact hf (hmem ▸ lt_size_of_get? hv)

theorem find?_eq_none_iff : s.find? f x = none ↔ ∀ g ∈ s.chain f, s.get? g x = none := by
  unfold find?
  rw [List.find?_eq_none]
  simp only [Bool.not_eq_true, Option.isSome_eq_false_iff, Option.isNone_iff_eq_none]

theorem lookup?_eq_none_iff : s.lookup? f x = none ↔ ∀ g ∈ s.chain f, s.get? g x = none := by
  rw [← find?_eq_none_iff]
  unfold lookup?
  cases hfind : s.find? f x with
  | none => simp
  | some g =>
    obtain ⟨v, hv⟩ := Option.isSome_iff_exists.1 (isSome_get?_of_find? hfind)
    simp [hv]

/-! ### Binding a name -/

/-- A name that is bound in a frame has its new value wherever this is now the innermost frame with
the name, and everything else is seen as before. -/
theorem lookup?_set_of_lt (hf : f < s.frames.size) : (s.set f x v).lookup? g y
    = if y = x ∧ (s.set f x v).find? g x = some f then some v else s.lookup? g y := by
  unfold lookup? find?
  rw [chain_congr fun _ _ => outer?_set]
  by_cases hy : y = x
  · subst hy
    -- The frame of the binding is met on the way, or an older binding is, or neither.
    induction s.chain g with
    | nil => simp
    | cons k rest ih =>
      by_cases hk : k = f
      · simp [hk, get?_set_self hf]
      · have hget : (s.set f y v).get? k y = s.get? k y := get?_set_of_ne (Or.inl (Ne.symm hk))
        cases hold : s.get? k y with
        | some w => simp [hget, hold, hk]
        | none => simpa [hget, hold] using ih
  · simp only [get?_set_of_ne (Or.inr hy), hy, false_and, if_false]

/-! ### Binding a name again -/

theorem get?_set (hx : (s.get? f x).isSome = true) :
    (s.set f x v).get? g y = if g = f ∧ y = x then some v else s.get? g y := by
  split_ifs with hsame
  · obtain ⟨rfl, rfl⟩ := hsame
    obtain ⟨w, hw⟩ := Option.isSome_iff_exists.1 hx
    exact get?_set_self (lt_size_of_get? hw)
  · exact get?_set_of_ne ((not_and_or.1 hsame).imp_left Ne.symm)

/-- A name that is bound again is found where it was found before, and so is any other. -/
theorem find?_set (hx : (s.get? f x).isSome = true) : (s.set f x v).find? g y = s.find? g y := by
  unfold find?
  rw [chain_congr fun _ _ => outer?_set]
  refine List.find?_congr fun k _ => ?_
  rw [get?_set hx]
  split_ifs with hsame
  · rw [hsame.1, hsame.2, hx]
    rfl
  · rfl

/-- A name that is bound again has its new value as seen from the frames whose innermost frame with
that name is the one where it is bound. -/
theorem lookup?_set (hx : (s.get? f x).isSome = true) : (s.set f x v).lookup? g y
    = if y = x ∧ s.find? g x = some f then some v else s.lookup? g y := by
  obtain ⟨w, hw⟩ := Option.isSome_iff_exists.1 hx
  rw [lookup?_set_of_lt (lt_size_of_get? hw), find?_set hx]

/-! ### Growth -/

/-- Whether a store has all frames of another as they are there, and has taken its stamps. -/
structure Grows (s s' : Store) : Prop where
  frames : ∀ g < s.frames.size, s'.frames[g]? = s.frames[g]?
  stamps : s.stamps ≤ s'.stamps

namespace Grows

theorem refl (s : Store) : Grows s s := ⟨fun _ _ => rfl, Nat.le_refl _⟩

theorem size_le (h : Grows s s') : s.frames.size ≤ s'.frames.size := by
  by_contra hlt
  -- The last of the old frames would be missing.
  have hframe := h.frames s'.frames.size (Nat.lt_of_not_le hlt)
  rw [Array.getElem?_eq_none (Nat.le_refl _)] at hframe
  exact hlt (Array.getElem?_eq_none_iff.1 hframe.symm)

theorem trans (h : Grows s s') (h' : Grows s' s'') : Grows s s'' := by
  refine ⟨fun g hg => ?_, Nat.le_trans h.stamps h'.stamps⟩
  rw [h'.frames g (Nat.lt_of_lt_of_le hg h.size_le), h.frames g hg]

theorem nested (s : Store) (params : List String) (args : List Value) (scope : FrameId) :
    Grows s (s.nested params args scope).2 := by
  refine ⟨fun g hg => ?_, Nat.le_refl _⟩
  rw [frames_nested, if_neg (Nat.ne_of_lt hg)]

theorem stamp (s : Store) : Grows s s.stamp.2 := ⟨fun _ _ => rfl, Nat.le_succ _⟩

theorem chain_eq (h : Grows s s') (hf : f < s.frames.size) : s'.chain f = s.chain f :=
  chain_congr fun g hg => outer?_congr (h.frames g (Nat.lt_of_le_of_lt hg hf))

/-- What is found from a frame that is there stays where it is. -/
theorem find?_eq (h : Grows s s') (hf : f < s.frames.size) : s'.find? f x = s.find? f x := by
  unfold find?
  rw [h.chain_eq hf]
  refine List.find?_congr fun g hg => ?_
  rw [get?_congr (h.frames g (Nat.lt_of_le_of_lt (le_of_mem_chain hg) hf))]

theorem lookup?_eq (h : Grows s s') (hf : f < s.frames.size) : s'.lookup? f x = s.lookup? f x := by
  unfold lookup?
  rw [h.find?_eq hf]
  cases hfind : s.find? f x with
  | none => rfl
  | some g => exact get?_congr (h.frames g (Nat.lt_of_le_of_lt (le_of_find? hfind) hf))

end Grows

end Store

end SmallLisp
