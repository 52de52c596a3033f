import SmallLisp.Value.Basic

/-!
# Frames and the store

A frame binds names to values and may lie inside an outer frame.  All frames live in one store and
are known by number, in the order of their making, so an outer frame has a smaller number than the
frames inside it.  A name is looked up along the chain of frames from the inside out.

The store also counts the closures made so far; the count is the stamp of the next one.
-/

namespace SmallLisp

/-- Names with their values.  No name stands twice in what `put` builds. -/
abbrev Bindings := List (String × Value)

namespace Bindings

/-- Binds a name, in the place of its old binding if it has one. -/
def put (name : String) (v : Value) : Bindings → Bindings
  | [] => [(name, v)]
  | (x, w) :: rest => if x = name then (name, v) :: rest else (x, w) :: put name v rest

/-- The value of a name. -/
def get? (name : String) : Bindings → Option Value
  | [] => none
  | (x, w) :: rest => if x = name then some w else get? name rest

/-- Bindings from pairs, of which a later one overrides an earlier one of the same name. -/
def ofPairs (pairs : List (String × Value)) : Bindings :=
  pairs.foldl (fun b (name, v) => put name v b) []

theorem get?_put_self (name : String) (v : Value) (b : Bindings) :
    (b.put name v).get? name = some v := by
  induction b with
  | nil => simp [put, get?]
  | cons p rest ih =>
    obtain ⟨x, w⟩ := p
    by_cases h : x = name <;> simp [put, get?, h, ih]

theorem get?_put_of_ne {x name : String} (h : x ≠ name) (v : Value) (b : Bindings) :
    (b.put name v).get? x = b.get? x := by
  induction b with
  | nil => simp [put, get?, h.symm]
  | cons p rest ih =>
    obtain ⟨y, w⟩ := p
    by_cases hy : y = name
    · subst hy
      simp [put, get?, h.symm]
    · simp [put, get?, hy, ih]

end Bindings

/-- One frame. -/
structure Frame where
  bindings : Bindings
  outer : Option FrameId

/-- All frames, and the number of closures made so far. -/
structure Store where
  frames : Array Frame
  stamps : Nat

namespace Store

/-- The store with no frame. -/
def empty : Store := ⟨#[], 0⟩

/-- The value of a name in a frame itself. -/
def get? (s : Store) (f : FrameId) (name : String) : Option Value :=
  s.frames[f]?.bind fun frame => frame.bindings.get? name

/-- The frame that a frame lies in. -/
def outer? (s : Store) (f : FrameId) : Option FrameId :=
  s.frames[f]?.bind Frame.outer

/-- A frame and those that it lies in, from the inside out.  An outer frame is older, so the
numbers fall. -/
def chain (s : Store) (f : FrameId) : List FrameId :=
  f :: match s.outer? f with
    | some g => if _h : g < f then s.chain g else []
    | none => []
termination_by f

/-- The innermost frame of the chain that binds a name. -/
def find? (s : Store) (f : FrameId) (name : String) : Option FrameId :=
  (s.chain f).find? fun g => (s.get? g name).isSome

/-- The value of a name as seen from a frame. -/
def lookup? (s : Store) (f : FrameId) (name : String) : Option Value :=
  (s.find? f name).bind fun g => s.get? g name

/-- Binds a name in a frame itself. -/
def set (s : Store) (f : FrameId) (name : String) (v : Value) : Store :=
  { s with frames := s.frames.modify f fun frame =>
      { frame with bindings := frame.bindings.put name v } }

/-- Makes a new frame. -/
def push (s : Store) (bindings : Bindings) (outer : Option FrameId) : FrameId × Store :=
  (s.frames.size, { s with frames := s.frames.push ⟨bindings, outer⟩ })

/-- Makes the frame of a call: parameters with arguments, as far as both go. -/
def nested (s : Store) (params : List String) (args : List Value) (outer : FrameId) :
    FrameId × Store :=
  s.push (.ofPairs (params.zip args)) (some outer)

/-- Takes a stamp for a new closure. -/
def stamp (s : Store) : Nat × Store :=
  (s.stamps, { s with stamps := s.stamps + 1 })

end Store

end SmallLisp
