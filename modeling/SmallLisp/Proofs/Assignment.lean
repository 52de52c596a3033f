import SmallLisp.Proofs.Effects
import SmallLisp.Proofs.Session

/-!
# Assignments

An assignment finds the frame that binds its name before it evaluates the expression on the right,
which may call closures that define and assign the same name.  That frame is still the right one
when the value is known: what has a value has bound nothing in the frames that were there, so from
each of them a name is found where it was found before (`Store.Grows.find?_eq`).

`assignment_binds_nearest` says what an assignment does: it refuses a name that is not bound without
looking at the expression, and otherwise it changes the one binding that is seen from where it
stands.
-/

namespace SmallLisp

/-- **An assignment binds the name where it is nearest.**  A name that is bound nowhere on the chain
is refused, whatever evaluating the expression would come to, and the store stays as it was.  If the
name is found in the frame `g` and the expression has the value `v`, then the assignment comes to
an end with nothing, the name is still found in `g` when the value is known, and of all bindings of
the frames that were there only that of the name in `g` is another one, namely `v`.  So the name
has this value as seen from the frames from which it is found in `g`, and all else is seen as
before. -/
theorem assignment_binds_nearest (s : Store) (f : FrameId) (x : String) (e : Value) :
    ((∀ g ∈ s.chain f, s.get? g x = none) →
      (∀ ev, (evalForm ev f (.assignment x e)).run.run s = some (.error (.unbound x), s)) ∧
      (∀ depth, (eval (depth + 1) f (.list (Form.assignment x e).spelling)).run.run s
        = some (.error (.unbound x), s)) ∧
      (Error.unbound x).kind = .evaluation ∧
      (Error.unbound x).wording = "unbound symbol: " ++ x) ∧
    ∀ {depth g v s₁}, s.find? f x = some g → (eval depth f e).run.run s = some (.ok (some v), s₁) →
      ∃ s', (eval (depth + 1) f (.list (Form.assignment x e).spelling)).run.run s
          = some (.ok none, s') ∧
        s₁.find? f x = some g ∧
        (∀ h < s.frames.size, ∀ y,
          s'.get? h y = if h = g ∧ y = x then some v else s.get? h y) ∧
        (∀ h < s.frames.size, ∀ y,
          s'.lookup? h y = if y = x ∧ s.find? h x = some g then some v else s.lookup? h y) ∧
        ∀ h y, s'.lookup? h y
          = if y = x ∧ s₁.find? h x = some g then some v else s₁.lookup? h y := by
  have hform : Form.ofList (Form.assignment x e).spelling = .ok (.assignment x e) := rfl
  refine ⟨fun hunbound => ?_, fun {depth g v s₁} hg hv => ?_⟩
  · have hnone := Store.find?_eq_none_iff.2 hunbound
    refine ⟨fun ev => run_assignment_of_unbound hnone, fun depth => ?_, rfl, rfl⟩
    rw [run_eval_list, hform]
    exact run_assignment_of_unbound hnone
  · obtain ⟨log, hlog⟩ := (describes_eval depth).1 hv
    have hgrows := hlog.grows
    have hfind : s₁.find? f x = some g := (hgrows.find?_eq (Store.lt_size_of_find? hg)).trans hg
    have hbound := Store.isSome_get?_of_find? hfind
    refine ⟨s₁.set g x v, ?_, hfind, fun h hh y => ?_, fun h hh y => ?_, fun h y => ?_⟩
    · rw [run_eval_list, hform]
      exact run_assignment_of_value hg hv
    · rw [Store.get?_set hbound, Store.get?_congr (hgrows.frames h hh)]
    · rw [Store.lookup?_set hbound, hgrows.find?_eq hh, hgrows.lookup?_eq hh]
    · exact Store.lookup?_set hbound

/-- In a frame inside the one that binds `a`, a value is assigned to `a` that comes from a call
whose own frame binds `a` too, and a name that is bound nowhere is refused. -/
theorem assignment_binds_nearest_call : ∃ s s', s.find? 1 "a" = some 0 ∧
    (eval 2 1 (.list [.lambda ["a"] (.int 7), .bool true])).run.run s
      = some (.ok (some (.int 7)), (s.stamp.2.nested ["a"] [.bool true] 1).2) ∧
    (eval 3 1 (.list (Form.assignment "a" (.list [.lambda ["a"] (.int 7), .bool true])).spelling)
      ).run.run s = some (.ok none, s') ∧
    s'.get? 0 "a" = some (.int 7) ∧ s'.lookup? 1 "a" = some (.int 7) ∧
    s'.lookup? 2 "a" = some (.bool true) ∧
    (eval 1 1 (.list (Form.assignment "z" (.int 7)).spelling)).run.run s
      = some (.error (.unbound "z"), s) := by
  let s : Store := ((Store.empty.push [("a", .int 1)] none).2.nested ["b"] [.int 2] 0).2
  have hchain : s.chain 1 = [1, 0] := by
    rw [Store.chain_of_outer?_some (g := 0) rfl (by decide), Store.chain_of_outer?_none rfl]
  have hfind : s.find? 1 "a" = some 0 := by
    rw [Store.find?, hchain]
    rfl
  have hvalue : (eval 2 1 (.list [.lambda ["a"] (.int 7), .bool true])).run.run s
      = some (.ok (some (.int 7)), (s.stamp.2.nested ["a"] [.bool true] 1).2) := rfl
  have hown : (s.stamp.2.nested ["a"] [.bool true] 1).2.find? 2 "a" = some 2 := by
    rw [Store.find?, Store.chain, List.find?_cons_of_pos rfl]
  have hunbound : ∀ g ∈ s.chain 1, s.get? g "z" = none := by
    rw [hchain]
    decide
  obtain ⟨s', hrun, -, hget, hlookup, hall⟩ :=
    (assignment_binds_nearest s 1 "a" (.list [.lambda ["a"] (.int 7), .bool true])).2 hfind hvalue
  obtain ⟨-, hrefused, -⟩ := (assignment_binds_nearest s 1 "z" (.int 7)).1 hunbound
  refine ⟨s, s', hfind, hvalue, hrun, hget 0 (by decide) "a", ?_, ?_, hrefused 0⟩
  · rw [hlookup 1 (by decide), if_pos ⟨rfl, hfind⟩]
  · -- The frame of the call finds its own binding.
    rw [hall 2 "a", if_neg (by simp [hown]), Store.lookup?, hown]
    rfl

end SmallLisp
