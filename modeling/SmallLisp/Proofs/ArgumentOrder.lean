import Mathlib.Data.List.FinRange
import SmallLisp.Proofs.Separation

/-!
# The order of arguments

Arguments are evaluated from left to right, and each finds the frames of the calls that those before
it have made.  As long as all of them have values, none changes a frame from before, and none sees
the frames that another one has made.  So each comes to the same in any other order, up to the
numbers of new frames.

It is enough to exchange two arguments that follow each other (`Store.WellFormed.operand_swap`).
The second is evaluated first, in a store that has not grown by the first, and then the first in a
store that has grown by the second (`Store.WellFormed.operand_grown`).  What the two evaluations of
one expression pair are new frames of both, apart from the frames that were there, and so the
pairings for the two arguments fit together.

`argument_order` says it of all permutations of all arguments.
-/

namespace SmallLisp

variable {depth : ℕ} {f : FrameId} {lack : Error} {s s₁ s₂ s' a a' : Store}
  {e e₁ e₂ v v₁ v₂ : Value} {es values : List Value}

/-! ### Operands one by one -/

theorem run_operands_cons_iff {ev : FrameId → Value → Action (Option Value)} :
    (evalOperands ev f lack (e :: es)).run.run s = some (.ok (v :: values), s') ↔
      ∃ s₁, (evalOperand ev f lack e).run.run s = some (.ok v, s₁) ∧
        (evalOperands ev f lack es).run.run s₁ = some (.ok values, s') := by
  rw [evalOperands_cons, Action.run_bind_eq_some_iff]
  constructor
  · rintro (⟨v', s₁, hv, h⟩ | ⟨_, -, ⟨⟩⟩)
    rcases Action.run_bind_eq_some_iff.1 h with ⟨vs, s₂, hvs, h⟩ | ⟨_, -, ⟨⟩⟩
    cases h
    exact ⟨s₁, hv, hvs⟩
  · rintro ⟨s₁, hv, hvs⟩
    exact Or.inl ⟨v, s₁, hv, Action.run_bind_eq_some_iff.2 (Or.inl ⟨values, s', hvs, rfl⟩)⟩

theorem Evaluates.of_operand
    (h : (evalOperand (eval depth) f lack e).run.run s = some (.ok v, s')) :
    ∃ log, Evaluates depth f s e log (.ok (some v)) s' := by
  obtain ⟨log, ⟨_, ⟨⟩, hlog⟩ | ⟨⟨⟩, -⟩ | ⟨_, ⟨⟩, -⟩⟩ := (run_operand_iff (describes_eval depth)).1 h
  exact ⟨log, hlog⟩

namespace Store

/-- Whether a value refers only to frames that are there. -/
def Knows (s : Store) (v : Value) : Prop := ∀ ⦃g⦄, v.Refers g → g < s.frames.size

theorem Grows.knows (h : s.Grows s') (hv : s.Knows v) : s'.Knows v :=
  fun _ hg => Nat.lt_of_lt_of_le (hv hg) h.size_le

/-- An expression that is known is treated alike in stores whose frames up to there are paired with
themselves. -/
theorem Knows.operand_simulates {ρ : Pairing} (he : s.Knows e) (hf : f < s.frames.size)
    (hρ : ∀ g < s.frames.size, ρ g g) :
    Simulates ρ Similar (evalOperand (eval depth) f lack e) (evalOperand (eval depth) f lack e) :=
  SmallLisp.operand_simulates (eval_simulates depth) (hρ f hf) (Similar.self fun hg => hρ _ (he hg))

namespace WellFormed

/-- An operand that has a value leaves alone what was there. -/
theorem operand (hs : s.WellFormed) (hf : f < s.frames.size) (he : s.Knows e)
    (h : (evalOperand (SmallLisp.eval depth) f lack e).run.run s = some (.ok v, s')) :
    s.Grows s' ∧ s'.WellFormed ∧ s'.Knows v := by
  obtain ⟨log, hlog⟩ := Evaluates.of_operand h
  obtain ⟨hwell, hvalue⟩ := hs.eval hf (fun hg => he hg) hlog
  have hlast := hwell log.length
  rw [List.take_length, ← hlog.replay_eq] at hlast
  exact ⟨hlog.grows, hlast, fun g hg => hvalue v rfl g hg⟩

/-- In a store that has grown, the frames from before and all that are yet to come are closed. -/
theorem closed_old_or_new (hs : s.WellFormed) (ha : s.Grows a) :
    Region.Closed (fun g => g < s.frames.size ∨ a.frames.size ≤ g) a := by
  have hclosed : Region.Closed (fun g => g < s.frames.size ∨ a.frames.size ≤ g) s := by
    constructor
    · intro g k _ houter
      have hlt := hs.older houter
      exact ⟨Or.inl (Nat.lt_trans hlt (lt_size_of_outer? houter)), hlt⟩
    · intro g v _ hv k hrefers
      have hk := hs.captured hv hrefers
      exact ⟨Or.inl hk, hk⟩
  refine hclosed.congr ha.size_le fun g hg => ?_
  rcases hg with hg | hg
  · exact ha.frames g hg
  · rw [Array.getElem?_eq_none hg, Array.getElem?_eq_none (Nat.le_trans ha.size_le hg)]

/-- What an operand comes to in a store that has grown, it comes to in the store from before. -/
theorem exists_operand_of_grown (hs : s.WellFormed) (hf : f < s.frames.size) (he : s.Knows e)
    (ha : s.Grows a)
    (h : (evalOperand (SmallLisp.eval depth) f lack e).run.run a = some (.ok v, a')) :
    ∃ w s', (evalOperand (SmallLisp.eval depth) f lack e).run.run s = some (.ok w, s') := by
  obtain ⟨w, s', -, hw, -⟩ := (he.operand_simulates hf fun g hg => ⟨rfl, hg⟩).exists_ok
    (hs.corresponds_self.grows_right ha) h
  exact ⟨w, s', hw⟩

/-- An operand comes to the same in a store that has grown.  The frames from before are paired with
themselves, and apart from that frames made by one evaluation with frames made by the other. -/
theorem operand_grown (hs : s.WellFormed) (hf : f < s.frames.size) (he : s.Knows e)
    (ha : s.Grows a)
    (h : (evalOperand (SmallLisp.eval depth) f lack e).run.run s = some (.ok v, s')) :
    ∃ w a' ρ, (evalOperand (SmallLisp.eval depth) f lack e).run.run a = some (.ok w, a') ∧
      (∀ g < s.frames.size, ρ g g) ∧ Corresponds ρ s' a' ∧ Similar ρ v w ∧
      ∀ {g g'}, ρ g g' → g = g' ∧ g < s.frames.size ∨ s.frames.size ≤ g ∧ a.frames.size ≤ g' := by
  -- The frames that are there are paired with themselves.
  obtain ⟨w, a', σ, hw, hext, hstores, hsimilar⟩ :=
    (he.operand_simulates hf fun g hg => ⟨rfl, hg⟩).exists_ok
      (hs.corresponds_self.grows_right ha).symm h
  have hold : ∀ g < s.frames.size, σ g g := fun g hg => hext ⟨rfl, hg⟩
  -- In the larger store, the evaluation stays in these frames and its own.
  obtain ⟨log, hlog⟩ := Evaluates.of_operand hw
  have hhas {g : FrameId} (hg : g < s.frames.size) :
      Region.Has (fun g => g < s.frames.size ∨ a.frames.size ≤ g) a g :=
    ⟨Or.inl hg, Nat.lt_of_lt_of_le hg ha.size_le⟩
  obtain ⟨hconfines, hvalue⟩ := Evaluates.confined hlog (hs.closed_old_or_new ha)
    (fun _ => Or.inr) (hhas hf) fun g hg => hhas (he hg)
  have hclosed := hconfines.closed_of_replay hlog.replay_eq
  refine ⟨w, a', _, hw, fun g hg => ⟨hold g hg, Or.inl hg⟩, hstores.symm.restrict hclosed,
    hsimilar.symm.restrict fun hg => (hvalue w rfl hg).1, ?_⟩
  rintro g g' ⟨hpair, hg' | hg'⟩
  · have hsame : g' = g := (hstores.unique (hold g' hg') hpair).1 rfl
    exact Or.inl ⟨hsame.symm, hsame ▸ hg'⟩
  · refine Or.inr ⟨Nat.le_of_not_lt fun hg => ?_, hg'⟩
    have hsame : g = g' := (hstores.unique (hold g hg) hpair).2 rfl
    exact Nat.lt_irrefl _ (Nat.lt_of_lt_of_le (hsame ▸ hg) (Nat.le_trans ha.size_le hg'))

/-- Pairs of new frames from two pairings have no frame in common, where the frames of each pairing
come before the new ones of the other. -/
theorem eq_iff_eq_of_new {old size size' g g' k k' : ℕ}
    (hg : g' = g ∧ g' < old ∨ old ≤ g' ∧ size ≤ g) (hk : k = k' ∧ k < old ∨ old ≤ k ∧ size' ≤ k')
    (hlt : g' < size') (hlt' : k < size) : g = k ↔ g' = k' := by
  omega

/-- Two operands that follow each other may change places. -/
theorem operand_swap (hs : s.WellFormed) (hf : f < s.frames.size) (he₁ : s.Knows e₁)
    (he₂ : s.Knows e₂)
    (h₁ : (evalOperand (SmallLisp.eval depth) f lack e₁).run.run s = some (.ok v₁, s₁))
    (h₂ : (evalOperand (SmallLisp.eval depth) f lack e₂).run.run s₁ = some (.ok v₂, s₂)) :
    ∃ w₁ w₂ t₁ t₂ ρ,
      (evalOperand (SmallLisp.eval depth) f lack e₂).run.run s = some (.ok w₂, t₁) ∧
      (evalOperand (SmallLisp.eval depth) f lack e₁).run.run t₁ = some (.ok w₁, t₂) ∧
      (∀ g < s.frames.size, ρ g g) ∧ Corresponds ρ t₂ s₂ ∧ Similar ρ w₁ v₁ ∧ Similar ρ w₂ v₂ := by
  obtain ⟨hgrows₁, hs₁, -⟩ := hs.operand hf he₁ h₁
  obtain ⟨w₂, t₁, hw₂⟩ := hs.exists_operand_of_grown hf he₂ hgrows₁ h₂
  obtain ⟨hgrows, ht₁, -⟩ := hs.operand hf he₂ hw₂
  obtain ⟨w₁, t₂, σ₁, hw₁, -, hstores₁, hsimilar₁, hnew₁⟩ := hs.operand_grown hf he₁ hgrows h₁
  obtain ⟨_, _, σ₂, h₂', hold₂, hstores₂, hsimilar₂, hnew₂⟩ :=
    hs.operand_grown hf he₂ hgrows₁ hw₂
  cases h₂.symm.trans h₂'
  have hgrows₂ := (hs₁.operand (Nat.lt_of_lt_of_le hf hgrows₁.size_le) (hgrows₁.knows he₂) h₂).1
  have hgrows' := (ht₁.operand (Nat.lt_of_lt_of_le hf hgrows.size_le) (hgrows.knows he₁) hw₁).1
  -- New frames of one evaluation are new for the other, or not there yet.
  have hunique : ∀ {g g' k k'}, flip σ₁ g g' → σ₂ k k' → (g = k ↔ g' = k') := by
    intro g g' k k' hg hk
    exact eq_iff_eq_of_new (hnew₁ hg) (hnew₂ hk) (hstores₁.lt_left hg) (hstores₂.lt_left hk)
  refine ⟨w₁, w₂, t₁, t₂, _, hw₂, hw₁, fun g hg => Or.inr (hold₂ g hg),
    (hstores₁.symm.grows_right hgrows₂).union (hstores₂.grows_left hgrows') hunique,
    hsimilar₁.symm.mono fun _ _ => Or.inl, hsimilar₂.mono fun _ _ => Or.inr⟩

end WellFormed

end Store

/-! ### All operands -/

/-- Whether operands come to given values and a given store, up to the frames made on the way. -/
def ComesTo (depth : ℕ) (f : FrameId) (lack : Error) (s : Store) (es values : List Value)
    (s' : Store) : Prop :=
  ∃ values' s'' ρ, (evalOperands (eval depth) f lack es).run.run s = some (.ok values', s'') ∧
    (∀ g < s.frames.size, ρ g g) ∧ Corresponds ρ s'' s' ∧ List.Forall₂ (Similar ρ) values' values

/-- Items that go with the items of a list without repetitions are given by a function on it. -/
theorem exists_map_eq {ι α : Type} {r : α → α → Prop} {order : List ι} {value : ι → α}
    {as : List α} (hnodup : order.Nodup) (h : List.Forall₂ r as (order.map value)) :
    ∃ value' : ι → α, order.map value' = as ∧ ∀ i ∈ order, r (value' i) (value i) := by
  classical
  induction order generalizing as with
  | nil =>
    rw [List.map_nil, List.forall₂_nil_right_iff] at h
    exact ⟨value, h.symm, fun i hi => absurd hi List.not_mem_nil⟩
  | cons i order ih =>
    obtain ⟨hi, hnodup⟩ := List.nodup_cons.1 hnodup
    obtain ⟨a, as, ha, htail, rfl⟩ := List.forall₂_cons_right_iff.1 h
    obtain ⟨value', rfl, hvalue'⟩ := ih hnodup htail
    have hother : ∀ j ∈ order, Function.update value' i a j = value' j := fun j hj =>
      Function.update_of_ne (ne_of_mem_of_not_mem hj hi) ..
    refine ⟨Function.update value' i a, ?_, ?_⟩
    · rw [List.map_cons, Function.update_self, List.map_congr_left hother]
    · rw [List.forall_mem_cons, Function.update_self]
      exact ⟨ha, fun j hj => by rw [hother j hj]; exact hvalue' j hj⟩

namespace ComesTo

/-- A first operand, with others that come to given values after it. -/
theorem cons (hs : s.WellFormed) (hf : f < s.frames.size) (he : s.Knows e)
    (h : (evalOperand (eval depth) f lack e).run.run s = some (.ok v, s₁))
    (hes : ComesTo depth f lack s₁ es values s') :
    ComesTo depth f lack s (e :: es) (v :: values) s' := by
  obtain ⟨hgrows, -, hv⟩ := hs.operand hf he h
  obtain ⟨values', s'', ρ, hvalues', hold, hstores, hsimilar⟩ := hes
  refine ⟨v :: values', s'', ρ, run_operands_cons_iff.2 ⟨s₁, h, hvalues'⟩,
    fun g hg => hold g (Nat.lt_of_lt_of_le hg hgrows.size_le), hstores, .cons ?_ hsimilar⟩
  exact Similar.self fun hg => hold _ (hv hg)

/-- Two operands change places in front of others, which find stores that correspond. -/
theorem swap (hs : s.WellFormed) (hf : f < s.frames.size) (he₁ : s.Knows e₁) (he₂ : s.Knows e₂)
    (hes : ∀ e ∈ es, s.Knows e)
    (h₁ : (evalOperand (eval depth) f lack e₁).run.run s = some (.ok v₁, s₁))
    (h₂ : (evalOperand (eval depth) f lack e₂).run.run s₁ = some (.ok v₂, s₂))
    (h : (evalOperands (eval depth) f lack es).run.run s₂ = some (.ok values, s')) :
    ComesTo depth f lack s (e₂ :: e₁ :: es) (v₂ :: v₁ :: values) s' := by
  obtain ⟨w₁, w₂, t₁, t₂, ρ, hw₂, hw₁, hold, hstores, hsimilar₁, hsimilar₂⟩ :=
    hs.operand_swap hf he₁ he₂ h₁ h₂
  have hself : List.Forall₂ (Similar ρ) es es :=
    List.forall₂_same.2 fun e he => Similar.self fun hg => hold _ (hes e he hg)
  obtain ⟨values', s'', ρ', hvalues', hext, hstores', hsimilar⟩ :=
    (operands_simulates (eval_simulates depth) (hold f hf) hself).exists_ok hstores h
  refine ⟨w₂ :: w₁ :: values', s'', ρ', ?_, fun g hg => hext (hold g hg), hstores',
    .cons (hsimilar₂.mono hext) (.cons (hsimilar₁.mono hext) hsimilar)⟩
  exact run_operands_cons_iff.2 ⟨t₁, hw₂, run_operands_cons_iff.2 ⟨t₂, hw₁, hvalues'⟩⟩

/-- Operands come to the same in any order.  They are known by labels, so that each can be found
again together with its value. -/
theorem perm {ι : Type} {code value : ι → Value} {order order' : List ι}
    (hperm : order.Perm order') (hs : s.WellFormed) (hf : f < s.frames.size)
    (hnodup : order.Nodup) (hcode : ∀ i ∈ order, s.Knows (code i))
    (h : (evalOperands (eval depth) f lack (order.map code)).run.run s
      = some (.ok (order.map value), s')) :
    ComesTo depth f lack s (order'.map code) (order'.map value) s' := by
  induction hperm generalizing s s' value with
  | nil =>
    cases h
    exact ⟨[], s, _, rfl, fun g hg => ⟨rfl, hg⟩, hs.corresponds_self, .nil⟩
  | cons i _ ih =>
    obtain ⟨s₁, hhead, htail⟩ := run_operands_cons_iff.1 h
    rw [List.forall_mem_cons] at hcode
    obtain ⟨hgrows, hs₁, -⟩ := hs.operand hf hcode.1 hhead
    exact cons hs hf hcode.1 hhead (ih hs₁ (Nat.lt_of_lt_of_le hf hgrows.size_le)
      hnodup.of_cons (fun j hj => hgrows.knows (hcode.2 j hj)) htail)
  | swap i j order =>
    obtain ⟨s₁, hfirst, hrest⟩ := run_operands_cons_iff.1 h
    obtain ⟨s₂, hsecond, htail⟩ := run_operands_cons_iff.1 hrest
    rw [List.forall_mem_cons, List.forall_mem_cons] at hcode
    exact swap hs hf hcode.1 hcode.2.1 (List.forall_mem_map.2 hcode.2.2) hfirst hsecond htail
  | @trans order order' order'' hperm hperm' ih ih' =>
    have hnodup' := hperm.nodup_iff.1 hnodup
    obtain ⟨values, t, ρ, hvalues, hold, hstores, hsimilar⟩ := ih hs hf hnodup hcode h
    obtain ⟨value', rfl, hvalue'⟩ := exists_map_eq hnodup' hsimilar
    obtain ⟨values', t', ρ', hvalues', hold', hstores', hsimilar'⟩ :=
      ih' hs hf hnodup' (fun i hi => hcode i (hperm.mem_iff.2 hi)) hvalues
    have hbetween : List.Forall₂ (Similar ρ) (order''.map value') (order''.map value) := by
      rw [List.forall₂_map_left_iff, List.forall₂_map_right_iff, List.forall₂_same]
      exact fun i hi => hvalue' i (hperm'.mem_iff.2 hi)
    refine ⟨values', t', Relation.Comp ρ' ρ, hvalues', fun g hg => ⟨g, hold' g hg, hold g hg⟩,
      hstores'.comp hstores, ?_⟩
    exact (forall₂_comp hsimilar' hbetween).imp fun _ _ ⟨_, hv, hw⟩ => hv.comp hw

end ComesTo

/-- **The order of arguments does not matter for their values.**  If all arguments of an application
have values, then evaluating them in any other order from the same store gives each of them a value
as well, which is the same up to a pairing of the frames made on the way: the frames that were there
are paired with themselves, so that new ones are paired with new ones, and the stores left by both
orders correspond.  So each value has the same text.  The store may be any that sessions come to
(`Store.Develops.wellFormed`), and the arguments may hold closures over frames of it. -/
theorem argument_order {n : ℕ} {args values : Fin n → Value} (hs : s.WellFormed)
    (hf : f < s.frames.size) (hargs : ∀ i, s.Knows (args i))
    (h : (evalOperands (eval depth) f .invalidCall (List.ofFn args)).run.run s
      = some (.ok (List.ofFn values), s'))
    (order : Equiv.Perm (Fin n)) :
    ∃ values' s'' ρ,
      (evalOperands (eval depth) f .invalidCall (List.ofFn (args ∘ order))).run.run s
        = some (.ok (List.ofFn (values' ∘ order)), s'') ∧
      (∀ g < s.frames.size, ρ g g) ∧ Corresponds ρ s'' s' ∧
      ∀ i, Similar ρ (values' i) (values i) ∧ (values' i).text = (values i).text := by
  have hperm := order.map_finRange_perm.symm
  have hnodup := List.nodup_finRange n
  rw [List.ofFn_eq_map, List.ofFn_eq_map] at h
  obtain ⟨ws, s'', ρ, hws, hold, hstores, hsimilar⟩ :=
    ComesTo.perm hperm hs hf hnodup (fun i _ => hargs i) h
  obtain ⟨values', rfl, hvalues'⟩ := exists_map_eq (hperm.nodup_iff.1 hnodup) hsimilar
  rw [List.map_map, List.map_map, ← List.ofFn_eq_map, ← List.ofFn_eq_map] at hws
  refine ⟨values', s'', ρ, hws, hold, hstores, fun i => ?_⟩
  have hi := hvalues' i (hperm.mem_iff.1 (List.mem_finRange i))
  exact ⟨hi, hi.text_eq⟩

/-- Two calls, each of which comes to a closure over its own frame. -/
def capturingCalls : Fin 2 → Value
  | 0 => .list [.lambda ["x"] (.lambda ["y"] (.symbol "x")), .int 1]
  | 1 => .list [.lambda ["z"] (.lambda ["y"] (.symbol "z")), .int 2]

/-- The first closure is over the first of two new frames.  In the other order this is the second
one, and the two are paired. -/
theorem argument_order_capturingCalls :
    ∃ (values' : Fin 2 → Value) (s' s'' : Store) (ρ : Pairing),
      (evalOperands (eval 3) 0 .invalidCall (List.ofFn capturingCalls)).run.run Store.empty.root.2
        = some (.ok [.closure 1 ["y"] (.symbol "x") 1, .closure 3 ["y"] (.symbol "z") 2], s') ∧
      (evalOperands (eval 3) 0 .invalidCall
        (List.ofFn (capturingCalls ∘ Equiv.swap 0 1))).run.run Store.empty.root.2
          = some (.ok (List.ofFn (values' ∘ Equiv.swap 0 1)), s'') ∧
      ρ 0 0 ∧ Corresponds ρ s'' s' ∧ Similar ρ (values' 0) (.closure 1 ["y"] (.symbol "x") 1) ∧
      (values' 1).text = (Value.closure 3 ["y"] (.symbol "z") 2).text := by
  have htokens : tokenize "((lambda (x) (lambda (y) x)) 1)" = ["(", "(", "lambda", "(", "x", ")",
      "(", "lambda", "(", "y", ")", "x", ")", ")", "1", ")"] := by decide +kernel
  have htokens' : tokenize "((lambda (z) (lambda (y) z)) 2)" = ["(", "(", "lambda", "(", "z", ")",
      "(", "lambda", "(", "y", ")", "z", ")", ")", "2", ")"] := by decide +kernel
  have hparse : parse "((lambda (x) (lambda (y) x)) 1)" = .ok (capturingCalls 0) := by
    rw [parse_eq, htokens]
    rfl
  have hparse' : parse "((lambda (z) (lambda (y) z)) 2)" = .ok (capturingCalls 1) := by
    rw [parse_eq, htokens']
    rfl
  have hargs : ∀ i, Store.empty.root.2.Knows (capturingCalls i)
    | 0, _, hg => absurd hg (not_refers_of_readable (readable_of_parse hparse))
    | 1, _, hg => absurd hg (not_refers_of_readable (readable_of_parse hparse'))
  let closures : Fin 2 → Value
    | 0 => .closure 1 ["y"] (.symbol "x") 1
    | 1 => .closure 3 ["y"] (.symbol "z") 2
  have hrun : (evalOperands (eval 3) 0 .invalidCall (List.ofFn capturingCalls)).run.run
      Store.empty.root.2 = some (.ok (List.ofFn closures), _) := rfl
  obtain ⟨values', s'', ρ, hrun', hold, hstores, hvalues'⟩ :=
    argument_order Store.wellFormed_empty.root (by decide) hargs hrun (Equiv.swap 0 1)
  exact ⟨values', _, s'', ρ, hrun, hrun', hold 0 (by decide), hstores, (hvalues' 0).1,
    (hvalues' 1).2⟩

end SmallLisp
