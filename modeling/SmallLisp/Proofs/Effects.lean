import SmallLisp.Proofs.Evaluates
import SmallLisp.Proofs.Store
import SmallLisp.Session

/-!
# Effects of evaluation

Definitions and assignments bind names and have no value, and everything that is evaluated on the
way to something else has to have one.  So an evaluation binds a name in a frame that is there at
most once, and nothing is done after that: what has a value has bound nothing, and what has no
value has bound one name, at the very end (`Evaluates.shape`).

`eval_at_most_one_binding` says this of every evaluation, together with what follows for the store:
an evaluation that has a value leaves alone the frames that were there, and only makes new ones
(`Store.Grows`).
-/

namespace SmallLisp

namespace Effect

/-- Whether changes bind no name in a frame that is there already. -/
def Quiet (log : List Effect) : Prop := log.countP isBinding = 0

/-- Whether changes bind one such name, and that at the end. -/
def EndsInBinding (log : List Effect) : Prop :=
  ∃ before g x v, log = before ++ [bind g x v] ∧ Quiet before

theorem Quiet.nil : Quiet [] := rfl

theorem Quiet.append {log log' : List Effect} (h : Quiet log) (h' : Quiet log') :
    Quiet (log ++ log') := by
  unfold Quiet at *
  rw [List.countP_append, h, h']

theorem EndsInBinding.append {log log' : List Effect} (h : Quiet log) (h' : EndsInBinding log') :
    EndsInBinding (log ++ log') := by
  obtain ⟨before, g, x, v, rfl, hbefore⟩ := h'
  exact ⟨log ++ before, g, x, v, (List.append_assoc ..).symm, h.append hbefore⟩

theorem EndsInBinding.countP_eq_one {log : List Effect} (h : EndsInBinding log) :
    log.countP isBinding = 1 := by
  obtain ⟨before, g, x, v, rfl, hbefore⟩ := h
  rw [List.countP_append, hbefore]
  rfl

/-- What an evaluation may have done, by what it comes to. -/
def Shape (log : List Effect) : Outcome → Prop
  | .ok (some _) => Quiet log
  | .ok none => EndsInBinding log
  | .error _ => Quiet log ∨ EndsInBinding log

theorem Quiet.frame (params : List String) (args : List Value) (scope : FrameId) :
    Quiet [frame params args scope] := rfl

theorem Shape.append {log log' : List Effect} {r : Outcome} (h : Quiet log) (h' : Shape log' r) :
    Shape (log ++ log') r := by
  rcases r with x | _ | v
  · rcases h' with h' | h'
    · exact Or.inl (h.append h')
    · exact Or.inr (h'.append h)
  · exact EndsInBinding.append h h'
  · exact Quiet.append h h'

/-- No change takes a frame away. -/
theorem size_le_replay (s : Store) (log : List Effect) :
    s.frames.size ≤ (replay s log).frames.size := by
  induction log generalizing s with
  | nil => exact Nat.le_refl _
  | cons change log ih =>
    have hchange : s.frames.size ≤ (apply s change).frames.size := by
      cases change with
      | bind g x v => exact Nat.le_of_eq Store.size_set.symm
      | frame params args scope => exact (Store.Grows.nested s params args scope).size_le
      | stamp => exact (Store.Grows.stamp s).size_le
    exact Nat.le_trans hchange (ih _)

/-- Changes that bind nothing only add to the store. -/
theorem Quiet.grows {log : List Effect} (h : Quiet log) (s : Store) : s.Grows (replay s log) := by
  induction log generalizing s with
  | nil => exact Store.Grows.refl s
  | cons change log ih =>
    have hlog : Quiet log := by
      unfold Quiet at *
      rw [List.countP_cons] at h
      omega
    cases change with
    | bind g x v =>
      unfold Quiet at h
      rw [List.countP_cons_of_pos rfl] at h
      cases h
    | frame params args scope => exact (Store.Grows.nested s params args scope).trans (ih hlog _)
    | stamp => exact (Store.Grows.stamp s).trans (ih hlog _)

end Effect

/-! ### What evaluations do -/

namespace Evaluates

open Effect

theorem shape_operands {part : Judgement} {lack : Error} {s s' : Store} {es : List Value}
    {log : List Effect} {r : Except Error (List Value)}
    (hpart : ∀ {s s' e log r}, part s e log r s' → Shape log r)
    (h : Operands part lack s es log r s') :
    match r with
      | .ok _ => Quiet log
      | .error _ => Quiet log ∨ EndsInBinding log := by
  -- An operand whose successors are evaluated has a value, so it has bound nothing.
  induction h with
  | nil => exact Quiet.nil
  | @cons _ _ _ _ _ _ _ _ r head _ ih =>
    have hhead : Quiet _ := hpart head
    cases r with
    | ok values => exact hhead.append ih
    | error x =>
      rcases ih with ih | ih
      · exact Or.inl (hhead.append ih)
      · exact Or.inr (ih.append hhead)
  | silent head => exact Or.inr (hpart head)
  | fail head =>
    have hhead := hpart head
    exact hhead

theorem shape_finishes {part : FrameId → Judgement} {f : FrameId} {before s s' : Store}
    {form : Form} {values : List Value} {log : List Effect} {r : Outcome}
    (hpart : ∀ {g s s' e log r}, part g s e log r s' → Shape log r)
    (h : Finishes part f before s form values log r s') : Shape log r := by
  cases h with
  | conditional chosen => exact hpart chosen
  | definition => exact ⟨[], _, _, _, rfl, Quiet.nil⟩
  | assignment => exact ⟨[], _, _, _, rfl, Quiet.nil⟩
  | @primitive _ _ _ p =>
    cases p.apply _ with
    | ok v => exact Quiet.nil
    | error x => exact Or.inl Quiet.nil
  | closure agree called =>
    exact (hpart called).append (Quiet.frame _ _ _)
  | noBool => exact Or.inl Quiet.nil
  | arity => exact Or.inl Quiet.nil
  | noProcedure => exact Or.inl Quiet.nil
  | quotation => exact Quiet.nil
  | plain => exact Quiet.nil
  | abstraction => exact rfl

/-- What has a value has bound nothing, what has none has bound one name at the end, and what fails
has done the one or the other. -/
theorem shape {depth : ℕ} {f : FrameId} {s s' : Store} {e : Value} {log : List Effect}
    {r : Outcome} (h : Evaluates depth f s e log r s') : Shape log r := by
  induction depth generalizing f s s' e log r with
  | zero => exact h.elim
  | succ depth ih =>
    cases h with
    | symbol name => exact Quiet.nil
    | constant constant => exact Quiet.nil
    | malformed form => exact Or.inl Quiet.nil
    | unbound form unbound => exact Or.inl Quiet.nil
    | fail form_eq ready operands => exact shape_operands ih operands
    | finish form_eq operands finishes =>
      -- The operands have values, so only the last step can bind anything.
      have hoperands : Quiet _ := shape_operands ih operands
      exact (shape_finishes ih finishes).append hoperands

/-- An evaluation that has a value leaves alone what was there. -/
theorem grows {depth : ℕ} {f : FrameId} {s s' : Store} {e v : Value} {log : List Effect}
    (h : Evaluates depth f s e log (.ok (some v)) s') : s.Grows s' := by
  have hquiet : Quiet log := h.shape
  rw [h.replay_eq]
  exact hquiet.grows s

end Evaluates

/-- **At most one binding per evaluation**: an evaluation that has an outcome has a log, and every
log of it leads to the store that it leaves.  With a value, nothing is bound in a frame that is
there, and the frames from before are as they were.  With nothing, one name is bound, as the last
thing that is done.  With an error, one name is bound at most. -/
theorem eval_at_most_one_binding {depth : ℕ} {f : FrameId} {e : Value} {s s' : Store} {r : Outcome}
    (h : (eval depth f e).run.run s = some (r, s')) :
    (∃ log, Evaluates depth f s e log r s') ∧
      ∀ log, Evaluates depth f s e log r s' →
        s' = Effect.replay s log ∧
          (∀ v, r = .ok (some v) → log.countP Effect.isBinding = 0 ∧
            ∀ g < s.frames.size, s'.frames[g]? = s.frames[g]?) ∧
          (r = .ok none → ∃ before g x v, log = before ++ [.bind g x v] ∧
            before.countP Effect.isBinding = 0) ∧
          ∀ x, r = .error x → log.countP Effect.isBinding ≤ 1 := by
  refine ⟨(describes_eval depth).1 h, fun log hlog => ⟨hlog.replay_eq, ?_, ?_, ?_⟩⟩
  · rintro v rfl
    exact ⟨hlog.shape, hlog.grows.frames⟩
  · rintro rfl
    exact hlog.shape
  · rintro x rfl
    rcases hlog.shape with hquiet | hends
    · exact Nat.le_trans (Nat.le_of_eq hquiet) (Nat.zero_le 1)
    · exact Nat.le_of_eq hends.countP_eq_one

/-- A definition whose expression calls a closure binds the name that it defines, at the end. -/
theorem eval_at_most_one_binding_define :
    ∃ s' log before g x v, (eval 3 0 (.list [.symbol "define", .symbol "a",
        .list [.list [.symbol "lambda", .list [.symbol "b"], .int 5], .bool true]])).run.run
          Store.empty.root.2 = some (.ok none, s') ∧
      s' = Effect.replay Store.empty.root.2 log ∧ log = before ++ [.bind g x v] ∧
        before.countP Effect.isBinding = 0 := by
  have hrun : (eval 3 0 (.list [.symbol "define", .symbol "a",
      .list [.list [.symbol "lambda", .list [.symbol "b"], .int 5], .bool true]])).run.run
        Store.empty.root.2 = some (.ok none,
          (Store.empty.root.2.stamp.2.nested ["b"] [.bool true] 0).2.set 0 "a" (.int 5)) := rfl
  obtain ⟨⟨log, hlog⟩, hall⟩ := eval_at_most_one_binding hrun
  obtain ⟨hreplay, -, hnone, -⟩ := hall log hlog
  obtain ⟨before, g, x, v, hbefore⟩ := hnone rfl
  exact ⟨_, log, before, g, x, v, hrun, hreplay, hbefore⟩

end SmallLisp
