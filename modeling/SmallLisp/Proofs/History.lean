import SmallLisp.Proofs.Store

/-!
# Frames and their history

A store of frames comes about by making frames and binding names in them (`History`).  What a frame
has been given is read off the history (`History.received`), and so is the way from a frame
outwards (`History.ancestry`), without any store.  Both agree with the store that the history leads
to: chains are ancestries (`chain_store`), and a name in a frame has the value that the frame was
given last (`get?_store`).  Hence `lookup_follows_history`: looking a name up comes to the first
frame on the way that ever was given the name, and to the last value given there.

Frames keep their places, so a name that is bound late in a frame is seen from those made inside it
before, and hides what was seen further out (`Store.lookup?_set_of_lt`).
-/

namespace SmallLisp

/-! ### The last value given -/

/-- Whether the last pair with a name has some value. -/
def LastGiven (given : List (String × Value)) (x : String) (v : Value) : Prop :=
  ∃ i : ℕ, given[i]? = some (x, v) ∧ ∀ j : ℕ, i < j → ∀ w, given[j]? ≠ some (x, w)

namespace LastGiven

variable {given : List (String × Value)} {p : String × Value} {x : String} {v : Value}

theorem getElem?_concat_iff {q : String × Value} {i : ℕ} : (given ++ [p])[i]? = some q
    ↔ given[i]? = some q ∨ (i = given.length ∧ p = q) := by
  rw [List.getElem?_append, List.getElem?_singleton]
  split_ifs with hi hlen
  · simp [Nat.ne_of_lt hi]
  · have hend : i = given.length := by omega
    simp [hend]
  · have hend : i ≠ given.length := by omega
    simp [hend, List.getElem?_eq_none (Nat.le_of_not_lt hi)]

/-- A further pair is the last one with its own name, and for the other names it does not count. -/
theorem concat_iff : LastGiven (given ++ [p]) x v
    ↔ (x = p.1 ∧ p.2 = v) ∨ (x ≠ p.1 ∧ LastGiven given x v) := by
  have hlt {q : String × Value} {i : ℕ} (hi : given[i]? = some q) : i < given.length :=
    (List.getElem?_eq_some_iff.1 hi).1
  unfold LastGiven
  simp only [ne_eq, getElem?_concat_iff]
  constructor
  · rintro ⟨i, hi | ⟨rfl, rfl⟩, hlast⟩
    · have hx : x ≠ p.1 := by
        rintro rfl
        exact hlast _ (hlt hi) p.2 (Or.inr ⟨rfl, rfl⟩)
      exact Or.inr ⟨hx, i, hi, fun j hj w hw => hlast j hj w (Or.inl hw)⟩
    · exact Or.inl ⟨rfl, rfl⟩
  · rintro (⟨rfl, rfl⟩ | ⟨hx, i, hi, hlast⟩)
    · refine ⟨_, Or.inr ⟨rfl, rfl⟩, ?_⟩
      rintro j hj w (hw | ⟨rfl, -⟩)
      · exact Nat.lt_asymm hj (hlt hw)
      · exact Nat.lt_irrefl _ hj
    · refine ⟨i, Or.inl hi, ?_⟩
      rintro j hj w (hw | ⟨-, rfl⟩)
      · exact hlast j hj w hw
      · exact hx rfl

/-- Some value was given last if any was given. -/
theorem exists_iff : (∃ v, LastGiven given x v) ↔ x ∈ given.map Prod.fst := by
  induction given using List.reverseRecOn with
  | nil => simp [LastGiven]
  | append_singleton given p ih =>
    simp only [concat_iff, List.map_append, List.mem_append, ← ih, List.map_singleton,
      List.mem_singleton]
    by_cases hx : x = p.1 <;> simp [hx]

/-- Arguments are given as far as they and the parameters go. -/
theorem zip_iff {params : List String} {args : List Value} : LastGiven (params.zip args) x v
    ↔ ∃ i : ℕ, params[i]? = some x ∧ args[i]? = some v ∧
      ∀ j : ℕ, i < j → j < args.length → params[j]? ≠ some x := by
  have hgiven (j : ℕ) : (∀ w, (params.zip args)[j]? ≠ some (x, w))
      ↔ (j < args.length → params[j]? ≠ some x) := by
    have hargs : (∃ w, args[j]? = some w) ↔ j < args.length :=
      ⟨fun ⟨_, hw⟩ => (List.getElem?_eq_some_iff.1 hw).1,
        fun hj => ⟨_, List.getElem?_eq_getElem hj⟩⟩
    rw [← hargs, forall_exists_index]
    exact forall_congr' fun w => by rw [ne_eq, List.getElem?_zip_eq_some, not_and']
  unfold LastGiven
  simp only [hgiven, List.getElem?_zip_eq_some, and_assoc]

end LastGiven

namespace Bindings

variable {x : String} {v : Value}

/-- Of bindings from pairs, the last pair with a name counts. -/
theorem get?_ofPairs_iff {pairs : List (String × Value)} :
    (ofPairs pairs).get? x = some v ↔ LastGiven pairs x v := by
  induction pairs using List.reverseRecOn with
  | nil => simp [ofPairs, get?, LastGiven]
  | append_singleton pairs p ih =>
    rw [ofPairs_concat, LastGiven.concat_iff, ← ih]
    by_cases hx : x = p.1
    · rw [hx, get?_put_self]
      simp
    · rw [get?_put_of_ne hx]
      simp [hx]

theorem put_of_notMem {b : Bindings} (h : x ∉ b.map Prod.fst) : b.put x v = b ++ [(x, v)] := by
  induction b with
  | nil => rfl
  | cons p b ih =>
    rw [List.map_cons, List.mem_cons, not_or] at h
    rw [put, if_neg (Ne.symm h.1), ih h.2, List.cons_append]

/-- Pairs of different names are bindings as they are. -/
theorem ofPairs_eq_self {b : Bindings} (h : (b.map Prod.fst).Nodup) : ofPairs b = b := by
  induction b using List.reverseRecOn with
  | nil => rfl
  | append_singleton b p ih =>
    rw [List.map_append, List.nodup_append] at h
    obtain ⟨hb, -, hnew⟩ := h
    have hp : p.1 ∉ b.map Prod.fst := fun hmem => hnew _ hmem _ (List.mem_singleton_self _) rfl
    rw [ofPairs_concat, ih hb, put_of_notMem hp]

end Bindings

/-! ### Histories -/

/-- How a store of frames may come about.  Frames are numbered in the order of their making, and
each step only speaks of frames that are there.  The frame with no names that lies in no other is
`make` without bindings and without `outer`. -/
inductive History : ℕ → Type
  | start : History 0
  | make {n : ℕ} (past : History n) (bindings : Bindings)
      (nodup : (bindings.map Prod.fst).Nodup) (outer : Option (Fin n)) : History (n + 1)
  | nested {n : ℕ} (past : History n) (params : List String) (args : List Value) (outer : Fin n) :
      History (n + 1)
  | set {n : ℕ} (past : History n) (f : Fin n) (name : String) (v : Value) : History n

namespace History

variable {n : ℕ} {f g : FrameId} {x : String} {v : Value}

/-- The store that a history leads to. -/
def store {n : ℕ} : History n → Store
  | start => .empty
  | make past bindings _ outer => (past.store.push bindings (outer.map Fin.val)).2
  | nested past params args outer => (past.store.nested params args outer).2
  | set past f name v => past.store.set f name v

/-- What a frame has been given, in the order of time: the bindings or the arguments that it was
made with, and then what was bound in it. -/
def received {n : ℕ} : History n → FrameId → List (String × Value)
  | start, _ => []
  | @make n past bindings _ _, g => if g = n then bindings else past.received g
  | @nested n past params args _, g => if g = n then params.zip args else past.received g
  | set past f name v, g =>
    if g = f then past.received g ++ [(name, v)] else past.received g

/-- A frame and those that it was made to lie in, from the inside out. -/
def ancestry {n : ℕ} : History n → FrameId → List FrameId
  | start, _ => []
  | @make n past _ _ outer, g =>
    if g = n then n :: outer.elim [] (fun k => past.ancestry k) else past.ancestry g
  | @nested n past _ _ outer, g =>
    if g = n then n :: past.ancestry outer else past.ancestry g
  | set past _ _ _, g => past.ancestry g

theorem size_store (h : History n) : h.store.frames.size = n := by
  induction h with
  | start => rfl
  | make past bindings nodup outer ih => exact (Array.size_push _).trans (congrArg (· + 1) ih)
  | nested past params args outer ih => exact Store.size_nested.trans (congrArg (· + 1) ih)
  | set past f name v ih => exact Store.size_set.trans ih

/-- The chains after a new frame, which lies in one that is there. -/
theorem chain_push_store (past : History n) (bindings : Bindings) (outer : Option (Fin n))
    (hg : g < n + 1) : (past.store.push bindings (outer.map Fin.val)).2.chain g
      = if g = n then n :: outer.elim [] (fun k => past.store.chain k) else past.store.chain g := by
  have hle : g ≤ past.store.frames.size := by
    rw [size_store]
    exact Nat.le_of_lt_succ hg
  have houter : ∀ k ∈ outer.map Fin.val, k < past.store.frames.size := by
    rintro k hk
    obtain ⟨k, -, rfl⟩ := Option.map_eq_some_iff.1 hk
    rw [size_store]
    exact k.isLt
  rw [Store.chain_push houter hle, size_store]
  split_ifs with hnew
  · rw [hnew]
    cases outer <;> rfl
  · rfl

/-- Frames lie in the frames that they were made to lie in, whatever was bound since. -/
theorem chain_store (h : History n) (hg : g < n) : h.store.chain g = h.ancestry g := by
  induction h generalizing g with
  | start => cases hg
  | @make n past bindings nodup outer ih =>
    rw [store, chain_push_store past bindings outer hg, ancestry]
    split_ifs with hnew
    · cases outer with
      | none => rfl
      | some k => exact congrArg (n :: ·) (ih k.isLt)
    · exact ih (Nat.lt_of_le_of_ne (Nat.le_of_lt_succ hg) hnew)
  | @nested n past params args outer ih =>
    have hchain := chain_push_store past (.ofPairs (params.zip args)) (some outer) hg
    rw [store, Store.nested, ancestry]
    refine hchain.trans ?_
    split_ifs with hnew
    · exact congrArg (n :: ·) (ih outer.isLt)
    · exact ih (Nat.lt_of_le_of_ne (Nat.le_of_lt_succ hg) hnew)
  | set past f name v ih => exact (Store.chain_congr fun _ _ => Store.outer?_set).trans (ih hg)

/-- A name has the value that the frame was given last. -/
theorem get?_store (h : History n) (hg : g < n) :
    h.store.get? g x = some v ↔ LastGiven (h.received g) x v := by
  -- A step either makes the frame, or binds a name in it, or leaves it alone.
  induction h with
  | start => cases hg
  | @make n past bindings nodup outer ih =>
    rw [store, Store.get?_push, received, size_store]
    split_ifs with hnew
    · rw [← Bindings.get?_ofPairs_iff, Bindings.ofPairs_eq_self nodup]
    · exact ih (Nat.lt_of_le_of_ne (Nat.le_of_lt_succ hg) hnew)
  | @nested n past params args outer ih =>
    rw [store, Store.nested, Store.get?_push, received, size_store]
    split_ifs with hnew
    · exact Bindings.get?_ofPairs_iff
    · exact ih (Nat.lt_of_le_of_ne (Nat.le_of_lt_succ hg) hnew)
  | @set n past f name w ih =>
    rw [store, received]
    split_ifs with hself
    · have hf : g < past.store.frames.size := by rwa [size_store]
      rw [LastGiven.concat_iff, ← ih hg, ← hself]
      by_cases hx : x = name
      · rw [hx, Store.get?_set_self hf]
        simp
      · rw [Store.get?_set_of_ne (Or.inr hx)]
        simp [hx]
    · rw [Store.get?_set_of_ne (Or.inl (Ne.symm hself))]
      exact ih hg

/-- The names of a frame are those that it was ever given. -/
theorem isSome_get?_store (h : History n) (hg : g < n) :
    (h.store.get? g x).isSome = true ↔ x ∈ (h.received g).map Prod.fst := by
  rw [← LastGiven.exists_iff, Option.isSome_iff_exists]
  exact exists_congr fun v => get?_store h hg

theorem find?_store (h : History n) (f : Fin n) (x : String) :
    h.store.find? f x
      = (h.ancestry f).find? fun g => decide (x ∈ (h.received g).map Prod.fst) := by
  unfold Store.find?
  rw [← chain_store h f.isLt]
  refine List.find?_congr fun g hg => ?_
  have hlt : g < n := Nat.lt_of_le_of_lt (Store.le_of_mem_chain hg) f.isLt
  rw [Bool.eq_iff_iff, isSome_get?_store h hlt, decide_eq_true_iff]

theorem lookup?_store (h : History n) (f : Fin n) (x : String) (v : Value) :
    h.store.lookup? f x = some v
      ↔ ∃ g, h.store.find? f x = some g ∧ LastGiven (h.received g) x v := by
  unfold Store.lookup?
  rw [Option.bind_eq_some_iff]
  refine exists_congr fun g => and_congr_right fun hfind => ?_
  exact get?_store h (Nat.lt_of_le_of_lt (Store.le_of_find? hfind) f.isLt)

theorem lookup?_store_eq_none_iff (h : History n) (f : Fin n) (x : String) :
    h.store.lookup? f x = none ↔ ∀ g ∈ h.ancestry f, ∀ v, (x, v) ∉ h.received g := by
  rw [Store.lookup?_eq_none_iff, ← chain_store h f.isLt]
  refine forall₂_congr fun g hg => ?_
  have hlt : g < n := Nat.lt_of_le_of_lt (Store.le_of_mem_chain hg) f.isLt
  rw [← Option.not_isSome_iff_eq_none, isSome_get?_store h hlt]
  simp

end History

/-- **Looking up follows history**, whatever frames were made and whatever was bound in them.  A
name is found in the first frame on the way outwards that ever was given it, and has the value that
this frame was given last; it has none if no frame on the way ever was given it.  The parameters of
a new frame have the last arguments that belong to them, as far as both go.  Binding a name changes
what is seen of that name, from the frames from which it is found where it was bound, and nothing
else. -/
theorem lookup_follows_history (n : ℕ) (h : History n) (f : Fin n) (x : String) :
    h.store.find? f x
        = (h.ancestry f).find? (fun g => decide (x ∈ (h.received g).map Prod.fst)) ∧
      (∀ v, h.store.lookup? f x = some v
        ↔ ∃ g, h.store.find? f x = some g ∧ LastGiven (h.received g) x v) ∧
      (h.store.lookup? f x = none ↔ ∀ g ∈ h.ancestry f, ∀ v, (x, v) ∉ h.received g) ∧
      (∀ params args v, (h.nested params args f).store.get? n x = some v
        ↔ ∃ i : ℕ, params[i]? = some x ∧ args[i]? = some v ∧
          ∀ j : ℕ, i < j → j < args.length → params[j]? ≠ some x) ∧
      ∀ v (g : Fin n) y, (h.set f x v).store.lookup? g y
        = if y = x ∧ (h.set f x v).store.find? g x = some f.val then some v
          else h.store.lookup? g y := by
  refine ⟨h.find?_store f x, h.lookup?_store f x, h.lookup?_store_eq_none_iff f x,
    fun params args v => ?_, fun v g y => ?_⟩
  · rw [History.get?_store _ (Nat.lt_succ_self n), History.received, if_pos rfl]
    exact LastGiven.zip_iff
  · have hf : f.val < h.store.frames.size := by
      rw [History.size_store]
      exact f.isLt
    exact Store.lookup?_set_of_lt hf

/-- The second argument is the last one for a parameter that stands twice, there is none for the
third parameter, and a binding further out is seen though it was made later. -/
theorem lookup_follows_history_late : ∃ h : History 2,
    h = ((History.start.make [] List.nodup_nil none).nested ["a", "a", "b"] [.int 1, .int 2] 0).set
      0 "b" (.int 7) ∧
    h.store.lookup? 1 "a" = some (.int 2) ∧ h.store.lookup? 1 "b" = some (.int 7) := by
  refine ⟨_, rfl, ?_, ?_⟩
  · obtain ⟨hfind, hvalue, -⟩ := lookup_follows_history 2 _ 1 "a"
    refine (hvalue _).2 ⟨1, hfind.trans rfl, 1, rfl, fun j hj w => ?_⟩
    exact ne_of_eq_of_ne (List.getElem?_eq_none hj) (by simp)
  · obtain ⟨hfind, hvalue, -⟩ := lookup_follows_history 2 _ 1 "b"
    refine (hvalue _).2 ⟨0, hfind.trans rfl, 0, rfl, fun j hj w => ?_⟩
    exact ne_of_eq_of_ne (List.getElem?_eq_none hj) (by simp)

end SmallLisp
