import SmallLisp.Proofs.Alike
import SmallLisp.Proofs.Store
import SmallLisp.Value.Printer

/-!
# Stores that correspond

Two stores correspond along a pairing of some of their frames when paired frames bind the same names
to values of one shape, closures being matched with closures that have the same code and paired
scopes (`Corresponds`).  Frames that are not paired do not matter, nor do stamps.

What is seen from paired frames is then the same up to the pairing (`Corresponds.lookup?`), and the
changes that evaluation makes keep the correspondence, with the frame of a call paired with the
frame of the other call (`Corresponds.set`, `Corresponds.nested`).  Matching values have the same
text (`Similar.text_eq`).

Pairings can be turned round, composed, and joined if they are compatible (`Corresponds.symm`,
`Corresponds.comp`, `Corresponds.union`).
-/

namespace SmallLisp

/-- Which frame of one store goes with which frame of another. -/
abbrev Pairing := FrameId → FrameId → Prop

namespace Pairing

/-- Whether a pairing has all pairs of another. -/
def Extends (ρ ρ' : Pairing) : Prop := ∀ ⦃g g'⦄, ρ g g' → ρ' g g'

theorem Extends.refl (ρ : Pairing) : Extends ρ ρ := fun _ _ h => h

theorem Extends.trans {ρ ρ' ρ'' : Pairing} (h : Extends ρ ρ') (h' : Extends ρ' ρ'') :
    Extends ρ ρ'' :=
  fun _ _ hg => h' (h hg)

end Pairing

/-- Related options are both nothing, or something that is related. -/
theorem eq_none_or_eq_some_of_rel {α β : Type} {r : α → β → Prop} {o : Option α} {o' : Option β}
    (h : Option.Rel r o o') :
    (o = none ∧ o' = none) ∨ ∃ a b, o = some a ∧ o' = some b ∧ r a b := by
  cases h with
  | none => exact Or.inl ⟨rfl, rfl⟩
  | some hr => exact Or.inr ⟨_, _, rfl, rfl, hr⟩

/-- Lists stay related, item by item, under a weaker relation of the items that are there. -/
theorem forall₂_imp_of_mem {α β : Type} {r r' : α → β → Prop} {as : List α} {bs : List β}
    (h : List.Forall₂ r as bs) (himp : ∀ a ∈ as, ∀ b, r a b → r' a b) :
    List.Forall₂ r' as bs := by
  have hboth := (List.forall₂_and_left _ _).2 ⟨himp, h⟩
  exact hboth.imp fun _ b hab => hab.1 b hab.2

/-- Lists that are related to one list, item by item, are related through it. -/
theorem forall₂_comp {α β γ : Type} {r : α → β → Prop} {r' : β → γ → Prop} {as : List α}
    {bs : List β} {cs : List γ} (h : List.Forall₂ r as bs) (h' : List.Forall₂ r' bs cs) :
    List.Forall₂ (Relation.Comp r r') as cs := by
  induction h generalizing cs with
  | nil =>
    cases h'
    exact .nil
  | cons hab _ ih =>
    cases h' with
    | cons hbc htail => exact .cons ⟨_, hab, hbc⟩ (ih htail)

/-! ### Values -/

/-- Closures with the same code over paired frames. -/
inductive Counterpart (ρ : Pairing) : Value → Value → Prop
  | closure {stamp stamp' : ℕ} {params : List String} {body body' : Value}
      {scope scope' : FrameId} (alike : Alike (Counterpart ρ) body body')
      (paired : ρ scope scope') :
      Counterpart ρ (.closure stamp params body scope) (.closure stamp' params body' scope')

/-- Values of one shape, with counterparts for closures. -/
abbrev Similar (ρ : Pairing) : Value → Value → Prop := Alike (Counterpart ρ)

namespace Similar

variable {ρ ρ' : Pairing} {v w : Value} {xs ys : List Value}

theorem mono (hρ : ρ.Extends ρ') (h : Similar ρ v w) : Similar ρ' v w := by
  induction v using Value.induction generalizing w with
  | atom v atomic =>
    obtain rfl := h.eq_of_isAtomic atomic
    exact Alike.atom atomic
  | list items ih =>
    obtain ⟨ys, rfl, hitems⟩ := Alike.list_left_iff.1 h
    exact Alike.list (forall₂_imp_of_mem hitems fun v hv _ => ih v hv)
  | closure stamp params body scope ih =>
    cases h with
    | atom atomic => cases atomic
    | closure related =>
      cases related with
      | closure hbody hscope => exact Alike.closure (.closure (ih hbody) (hρ hscope))

theorem mono_list (hρ : ρ.Extends ρ') (h : List.Forall₂ (Similar ρ) xs ys) :
    List.Forall₂ (Similar ρ') xs ys :=
  h.imp fun _ _ hv => hv.mono hρ

theorem symm (h : Similar ρ v w) : Similar (flip ρ) w v := by
  induction v using Value.induction generalizing w with
  | atom v atomic =>
    obtain rfl := h.eq_of_isAtomic atomic
    exact Alike.atom atomic
  | list items ih =>
    obtain ⟨ys, rfl, hitems⟩ := Alike.list_left_iff.1 h
    exact Alike.list (List.Forall₂.flip (forall₂_imp_of_mem hitems fun v hv _ => ih v hv))
  | closure stamp params body scope ih =>
    cases h with
    | atom atomic => cases atomic
    | closure related =>
      cases related with
      | closure hbody hscope => exact Alike.closure (.closure (ih hbody) hscope)

/-- Values that are similar to one value are similar, along the pairs through its frames. -/
theorem comp {u : Value} (h : Similar ρ u v) (h' : Similar ρ' v w) :
    Similar (Relation.Comp ρ ρ') u w := by
  induction u using Value.induction generalizing v w with
  | atom u atomic =>
    obtain rfl := h.eq_of_isAtomic atomic
    obtain rfl := h'.eq_of_isAtomic atomic
    exact Alike.atom atomic
  | list items ih =>
    obtain ⟨ys, rfl, hitems⟩ := Alike.list_left_iff.1 h
    obtain ⟨zs, rfl, hitems'⟩ := Alike.list_left_iff.1 h'
    have hboth := forall₂_comp ((List.forall₂_and_left _ _).2 ⟨ih, hitems⟩) hitems'
    exact Alike.list (hboth.imp fun _ _ ⟨_, hv, hw⟩ => hv.1 hv.2 hw)
  | closure stamp params body scope ih =>
    cases h with
    | atom atomic => cases atomic
    | closure related =>
      cases related with
      | closure hbody hscope =>
        cases h' with
        | atom atomic => cases atomic
        | closure related' =>
          cases related' with
          | closure hbody' hscope' =>
            exact Alike.closure (.closure (ih hbody hbody') ⟨_, hscope, hscope'⟩)

/-- Similar values have the same text. -/
theorem text_eq (h : Similar ρ v w) : v.text = w.text := by
  induction v using Value.induction generalizing w with
  | atom v atomic => rw [h.eq_of_isAtomic atomic]
  | list items ih =>
    obtain ⟨ys, rfl, hitems⟩ := Alike.list_left_iff.1 h
    have htexts : items.map Value.text = ys.map Value.text := by
      rw [← List.forall₂_eq_eq_eq, List.forall₂_map_left_iff, List.forall₂_map_right_iff]
      exact forall₂_imp_of_mem hitems fun v hv _ => ih v hv
    unfold Value.text at htexts ⊢
    rw [Value.textWith, Value.textWith, Value.textsWith_eq_map, Value.textsWith_eq_map, htexts]
  | closure stamp params body scope ih =>
    cases h with
    | atom atomic => cases atomic
    | closure related =>
      cases related with
      | closure hbody hscope =>
        have htext := ih hbody
        unfold Value.text at htext ⊢
        rw [Value.textWith, Value.textWith, htext]

end Similar

/-! ### Bindings -/

/-- Bindings of the same names to similar values. -/
abbrev SimilarBindings (ρ : Pairing) : Bindings → Bindings → Prop :=
  List.Forall₂ fun p q => p.1 = q.1 ∧ Similar ρ p.2 q.2

namespace SimilarBindings

variable {ρ ρ' : Pairing} {b b' : Bindings} {v w : Value} {x : String}

theorem mono (hρ : ρ.Extends ρ') (h : SimilarBindings ρ b b') : SimilarBindings ρ' b b' :=
  h.imp fun _ _ hp => ⟨hp.1, hp.2.mono hρ⟩

theorem get? (h : SimilarBindings ρ b b') : Option.Rel (Similar ρ) (b.get? x) (b'.get? x) := by
  induction h with
  | nil => exact .none
  | @cons p q _ _ hp _ ih =>
    obtain ⟨y, v⟩ := p
    obtain ⟨z, w⟩ := q
    obtain ⟨rfl, hv⟩ := hp
    unfold Bindings.get?
    split_ifs
    · exact .some hv
    · exact ih

theorem put (h : SimilarBindings ρ b b') (hv : Similar ρ v w) :
    SimilarBindings ρ (b.put x v) (b'.put x w) := by
  induction h with
  | nil => exact .cons ⟨rfl, hv⟩ .nil
  | @cons p q _ _ hp htail ih =>
    obtain ⟨y, v'⟩ := p
    obtain ⟨z, w'⟩ := q
    obtain ⟨rfl, hv'⟩ := hp
    unfold Bindings.put
    split_ifs
    · exact .cons ⟨rfl, hv⟩ htail
    · exact .cons ⟨rfl, hv'⟩ ih

theorem ofPairs {pairs pairs' : Bindings} (h : SimilarBindings ρ pairs pairs') :
    SimilarBindings ρ (.ofPairs pairs) (.ofPairs pairs') := by
  refine List.rel_foldl ?_ .nil h
  intro b b' hb p q hp
  obtain ⟨x, v⟩ := p
  obtain ⟨y, w⟩ := q
  obtain ⟨rfl, hv⟩ := hp
  exact hb.put hv

theorem zip {args args' : List Value} (h : List.Forall₂ (Similar ρ) args args')
    (params : List String) : SimilarBindings ρ (params.zip args) (params.zip args') := by
  induction h generalizing params with
  | nil =>
    rw [List.zip_nil_right]
    exact .nil
  | cons hv _ ih =>
    cases params with
    | nil => exact .nil
    | cons x params => exact .cons ⟨rfl, hv⟩ (ih params)

end SimilarBindings

/-! ### Stores -/

/-- Frames that bind the same names to similar values and lie in paired frames. -/
structure SimilarFrames (ρ : Pairing) (g g' : FrameId) (frame frame' : Frame) : Prop where
  bindings : SimilarBindings ρ frame.bindings frame'.bindings
  outer : Option.Rel (fun h h' => ρ h h' ∧ (h < g ↔ h' < g')) frame.outer frame'.outer

theorem SimilarFrames.mono {ρ ρ' : Pairing} {g g' : FrameId} {frame frame' : Frame}
    (h : SimilarFrames ρ g g' frame frame') (hρ : ρ.Extends ρ') :
    SimilarFrames ρ' g g' frame frame' := by
  refine ⟨h.bindings.mono hρ, ?_⟩
  rcases eq_none_or_eq_some_of_rel h.outer with ⟨hs, ht⟩ | ⟨_, _, hs, ht, hpair⟩
  · rw [hs, ht]
    exact .none
  · rw [hs, ht]
    exact .some ⟨hρ hpair.1, hpair.2⟩

theorem SimilarFrames.symm {ρ : Pairing} {g g' : FrameId} {frame frame' : Frame}
    (h : SimilarFrames ρ g g' frame frame') : SimilarFrames (flip ρ) g' g frame' frame := by
  refine ⟨List.Forall₂.flip (h.bindings.imp fun _ _ hp => ⟨hp.1.symm, hp.2.symm⟩), ?_⟩
  rcases eq_none_or_eq_some_of_rel h.outer with ⟨hs, ht⟩ | ⟨_, _, hs, ht, hpair⟩
  · rw [hs, ht]
    exact .none
  · rw [hs, ht]
    exact .some ⟨hpair.1, hpair.2.symm⟩

theorem SimilarFrames.comp {ρ ρ' : Pairing} {g g' g'' : FrameId} {frame frame' frame'' : Frame}
    (h : SimilarFrames ρ g g' frame frame') (h' : SimilarFrames ρ' g' g'' frame' frame'') :
    SimilarFrames (Relation.Comp ρ ρ') g g'' frame frame'' := by
  constructor
  · have hboth := forall₂_comp h.bindings h'.bindings
    exact hboth.imp fun _ _ ⟨_, hp, hq⟩ => ⟨hp.1.trans hq.1, hp.2.comp hq.2⟩
  · rcases eq_none_or_eq_some_of_rel h.outer with ⟨hs, ht⟩ | ⟨_, k, hs, ht, hpair⟩
    · have hnone := h'.outer
      rw [ht] at hnone
      cases hu : frame''.outer with
      | none =>
        rw [hs]
        exact .none
      | some l =>
        rw [hu] at hnone
        cases hnone
    · rcases eq_none_or_eq_some_of_rel h'.outer with ⟨ht', -⟩ | ⟨k', _, ht', hu, hpair'⟩
      · rw [ht] at ht'
        cases ht'
      · obtain rfl := Option.some.inj (ht.symm.trans ht')
        rw [hs, hu]
        exact .some ⟨⟨k, hpair.1, hpair'.1⟩, hpair.2.trans hpair'.2⟩

/-- Stores whose paired frames are there and similar, with no frame in two pairs. -/
structure Corresponds (ρ : Pairing) (s t : Store) : Prop where
  unique : ∀ {g g' h h'}, ρ g g' → ρ h h' → (g = h ↔ g' = h')
  frames : ∀ {g g'}, ρ g g' → ∃ frame frame', s.frames[g]? = some frame ∧
    t.frames[g']? = some frame' ∧ SimilarFrames ρ g g' frame frame'

/-- The pairing with one more pair, of the next frames of two stores. -/
def Pairing.next (ρ : Pairing) (s t : Store) : Pairing :=
  fun g g' => ρ g g' ∨ (g = s.frames.size ∧ g' = t.frames.size)

theorem Pairing.extends_next (ρ : Pairing) (s t : Store) : ρ.Extends (ρ.next s t) :=
  fun _ _ h => Or.inl h

namespace Corresponds

variable {ρ : Pairing} {s t t' : Store} {f f' g g' : FrameId} {x : String} {v w : Value}

theorem lt_left (h : Corresponds ρ s t) (hg : ρ g g') : g < s.frames.size := by
  obtain ⟨frame, frame', hframe, -⟩ := h.frames hg
  exact Store.lt_size_of_frames_eq_some hframe

theorem lt_right (h : Corresponds ρ s t) (hg : ρ g g') : g' < t.frames.size := by
  obtain ⟨frame, frame', -, hframe', -⟩ := h.frames hg
  exact Store.lt_size_of_frames_eq_some hframe'

/-! ### Pairings -/

theorem symm (h : Corresponds ρ s t) : Corresponds (flip ρ) t s := by
  refine ⟨fun hg hk => (h.unique hg hk).symm, fun hg => ?_⟩
  obtain ⟨frame, frame', hframe, hframe', hsimilar⟩ := h.frames hg
  exact ⟨frame', frame, hframe', hframe, hsimilar.symm⟩

theorem comp {σ : Pairing} (h : Corresponds ρ s t) (h' : Corresponds σ t t') :
    Corresponds (Relation.Comp ρ σ) s t' := by
  constructor
  · rintro g g' k k' ⟨l, hgl, hlg⟩ ⟨m, hkm, hmk⟩
    exact (h.unique hgl hkm).trans (h'.unique hlg hmk)
  · rintro g g' ⟨l, hgl, hlg⟩
    obtain ⟨frame, frame', hframe, hframe', hsimilar⟩ := h.frames hgl
    obtain ⟨frame₁, frame'', hframe₁, hframe'', hsimilar'⟩ := h'.frames hlg
    obtain rfl := Option.some.inj (hframe'.symm.trans hframe₁)
    exact ⟨frame, frame'', hframe, hframe'', hsimilar.comp hsimilar'⟩

/-- Pairings may be joined if no frame comes to be in two pairs. -/
theorem union {σ : Pairing} (h : Corresponds ρ s t) (h' : Corresponds σ s t)
    (hunique : ∀ {g g' k k'}, ρ g g' → σ k k' → (g = k ↔ g' = k')) :
    Corresponds (fun g g' => ρ g g' ∨ σ g g') s t := by
  constructor
  · rintro g g' k k' (hg | hg) (hk | hk)
    · exact h.unique hg hk
    · exact hunique hg hk
    · rw [eq_comm, hunique hk hg, eq_comm]
    · exact h'.unique hg hk
  · rintro g g' (hg | hg)
    · obtain ⟨frame, frame', hframe, hframe', hsimilar⟩ := h.frames hg
      exact ⟨frame, frame', hframe, hframe', hsimilar.mono fun _ _ => Or.inl⟩
    · obtain ⟨frame, frame', hframe, hframe', hsimilar⟩ := h'.frames hg
      exact ⟨frame, frame', hframe, hframe', hsimilar.mono fun _ _ => Or.inr⟩

/-! ### What is seen from paired frames -/

theorem get? (h : Corresponds ρ s t) (hg : ρ g g') :
    Option.Rel (Similar ρ) (s.get? g x) (t.get? g' x) := by
  obtain ⟨frame, frame', hframe, hframe', hsimilar⟩ := h.frames hg
  unfold Store.get?
  rw [hframe, hframe']
  exact hsimilar.bindings.get?

theorem outer? (h : Corresponds ρ s t) (hg : ρ g g') :
    Option.Rel (fun h h' => ρ h h' ∧ (h < g ↔ h' < g')) (s.outer? g) (t.outer? g') := by
  obtain ⟨frame, frame', hframe, hframe', hsimilar⟩ := h.frames hg
  unfold Store.outer?
  rw [hframe, hframe']
  exact hsimilar.outer

theorem chain (h : Corresponds ρ s t) (hf : ρ f f') :
    List.Forall₂ ρ (s.chain f) (t.chain f') := by
  -- A chain goes on to older frames only, in both stores or in neither.
  induction f using Nat.strongRecOn generalizing f' with
  | ind f ih =>
    rw [Store.chain, Store.chain]
    refine .cons hf ?_
    rcases eq_none_or_eq_some_of_rel (h.outer? hf) with ⟨hs, ht⟩ | ⟨g, g', hs, ht, hg, hlt⟩
    · rw [hs, ht]
      exact .nil
    · rw [hs, ht]
      by_cases hgf : g < f
      · simp only [dif_pos hgf, dif_pos (hlt.1 hgf)]
        exact ih g hgf hg
      · simp only [dif_neg hgf, dif_neg (mt hlt.2 hgf)]
        exact .nil

theorem find? (h : Corresponds ρ s t) (hf : ρ f f') :
    Option.Rel ρ (s.find? f x) (t.find? f' x) := by
  have hfind : ∀ {fs fs'}, List.Forall₂ ρ fs fs' → Option.Rel ρ
      (fs.find? fun g => (s.get? g x).isSome) (fs'.find? fun g => (t.get? g x).isSome) := by
    intro fs fs' hfs
    induction hfs with
    | nil => exact .none
    | cons hg _ ih =>
      rw [List.find?_cons, List.find?_cons]
      rcases eq_none_or_eq_some_of_rel (h.get? hg (x := x)) with ⟨hs, ht⟩ | ⟨_, _, hs, ht, -⟩
      · rw [hs, ht]
        exact ih
      · rw [hs, ht]
        exact .some hg
  exact hfind (h.chain hf)

/-- A name has similar values as seen from paired frames. -/
theorem lookup? (h : Corresponds ρ s t) (hf : ρ f f') :
    Option.Rel (Similar ρ) (s.lookup? f x) (t.lookup? f' x) := by
  unfold Store.lookup?
  rcases eq_none_or_eq_some_of_rel (h.find? (x := x) hf) with ⟨hs, ht⟩ | ⟨g, g', hs, ht, hg⟩
  · rw [hs, ht]
    exact .none
  · rw [hs, ht]
    exact h.get? hg

/-! ### Changes -/

/-- Frames that are not paired may change. -/
theorem congr_right (h : Corresponds ρ s t)
    (ht : ∀ {g g'}, ρ g g' → t'.frames[g']? = t.frames[g']?) : Corresponds ρ s t' := by
  refine ⟨h.unique, fun hg => ?_⟩
  obtain ⟨frame, frame', hframe, hframe', hsimilar⟩ := h.frames hg
  exact ⟨frame, frame', hframe, (ht hg).trans hframe', hsimilar⟩

/-- A store may grow without the other. -/
theorem grows_right (h : Corresponds ρ s t) (ht : t.Grows t') : Corresponds ρ s t' :=
  h.congr_right fun hg => ht.frames _ (h.lt_right hg)

theorem grows_left (h : Corresponds ρ s t) {s' : Store} (hs : s.Grows s') : Corresponds ρ s' t :=
  (h.symm.grows_right hs).symm

theorem set (h : Corresponds ρ s t) (hf : ρ f f') (hv : Similar ρ v w) :
    Corresponds ρ (s.set f x v) (t.set f' x w) := by
  refine ⟨h.unique, fun {g g'} hg => ?_⟩
  obtain ⟨frame, frame', hframe, hframe', hsimilar⟩ := h.frames hg
  rw [Store.frames_set, Store.frames_set, hframe, hframe']
  -- No frame is in two pairs, so the frames that change are paired with each other only.
  by_cases hfg : f = g
  · rw [if_pos hfg, if_pos ((h.unique hf hg).1 hfg)]
    exact ⟨_, _, rfl, rfl, hsimilar.bindings.put hv, hsimilar.outer⟩
  · rw [if_neg hfg, if_neg (mt (h.unique hf hg).2 hfg)]
    exact ⟨_, _, rfl, rfl, hsimilar⟩

/-- The frames of calls with similar arguments to paired scopes can be paired. -/
theorem nested (h : Corresponds ρ s t) {params : List String} {args args' : List Value}
    (hargs : List.Forall₂ (Similar ρ) args args') (hf : ρ f f') :
    Corresponds (ρ.next s t) (s.nested params args f).2 (t.nested params args' f').2 := by
  have hρ := ρ.extends_next s t
  refine ⟨?_, ?_⟩
  · -- The new frames are in no other pair, since all frames of pairs are older.
    rintro g g' k k' (hg | ⟨rfl, rfl⟩) (hk | ⟨rfl, rfl⟩)
    · exact h.unique hg hk
    · exact iff_of_false (Nat.ne_of_lt (h.lt_left hg)) (Nat.ne_of_lt (h.lt_right hg))
    · exact iff_of_false (Nat.ne_of_gt (h.lt_left hk)) (Nat.ne_of_gt (h.lt_right hk))
    · exact iff_of_true rfl rfl
  · rintro g g' (hg | ⟨rfl, rfl⟩)
    · obtain ⟨frame, frame', hframe, hframe', hsimilar⟩ := h.frames hg
      refine ⟨frame, frame', ?_, ?_, hsimilar.mono hρ⟩
      · rw [(Store.Grows.nested ..).frames _ (h.lt_left hg), hframe]
      · rw [(Store.Grows.nested ..).frames _ (h.lt_right hg), hframe']
    · have hnew : SimilarFrames (ρ.next s t) s.frames.size t.frames.size
          ⟨.ofPairs (params.zip args), some f⟩ ⟨.ofPairs (params.zip args'), some f'⟩ := by
        refine ⟨(SimilarBindings.zip hargs params).ofPairs.mono hρ, .some ⟨hρ hf, ?_⟩⟩
        exact iff_of_true (h.lt_left hf) (h.lt_right hf)
      refine ⟨_, _, ?_, ?_, hnew⟩
      · rw [Store.frames_nested, if_pos rfl]
      · rw [Store.frames_nested, if_pos rfl]

end Corresponds

end SmallLisp
