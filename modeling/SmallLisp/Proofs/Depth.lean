import Mathlib.Data.Nat.Find
import Mathlib.Order.Bounds.Basic
import Mathlib.Tactic.Common
import SmallLisp.Proofs.Reader

/-!
# Reading and the depth of parentheses

What comes of reading a text can be told by counting its parentheses.  Going over the tokens, an
opening parenthesis leads one deeper and a closing one back up (`parenDepth`), and the text holds
one expression if the tokens come back to the top at their end and not before.

`parse_by_parenDepth` says which of the reader's answers a text gets.  The count is the number of
lists that the reader has open, so that a step ends the expression exactly where the count comes
to zero (`Reader.step_cases`).  The two cases of a whole run are `Reader.readTokens_of_deep`, where
the count never comes to zero, and `Reader.readTokens_of_top`, where it does.
-/

namespace SmallLisp

/-- How deep the first `k` tokens lead: opening parentheses less closing ones. -/
def parenDepth (tokens : List String) (k : ℕ) : ℤ :=
  (tokens.take k).count "(" - (tokens.take k).count ")"

/-- Whether the first `k` tokens, one at least, lead back to the top. -/
def AtTop (tokens : List String) (k : ℕ) : Prop :=
  1 ≤ k ∧ k ≤ tokens.length ∧ parenDepth tokens k = 0

instance (tokens : List String) (k : ℕ) : Decidable (AtTop tokens k) :=
  inferInstanceAs (Decidable (_ ∧ _ ∧ _))

/-- How much deeper a token leads. -/
def deepening (token : String) : ℤ :=
  if token = "(" then 1 else if token = ")" then -1 else 0

@[simp]
theorem parenDepth_zero (tokens : List String) : parenDepth tokens 0 = 0 := by
  simp [parenDepth]

theorem parenDepth_cons (token : String) (tokens : List String) (k : ℕ) :
    parenDepth (token :: tokens) (k + 1) = deepening token + parenDepth tokens k := by
  unfold parenDepth deepening
  rw [List.take_succ_cons, List.count_cons, List.count_cons]
  by_cases hopen : token = "("
  · subst hopen
    simp
    omega
  by_cases hclose : token = ")"
  · subst hclose
    simp
    omega
  · simp [hopen, hclose]

/-! ### The reader counts -/

namespace Reader

/-- A finished expression is the last one, or goes into one of the lists that are open. -/
theorem finish_cases (v : Value) (lists : Open) :
    (lists = [] ∧ finish v lists = .done v) ∨
      ∃ lists', finish v lists = .more lists' ∧ lists' ≠ [] ∧ lists'.length = lists.length := by
  rcases lists with _ | ⟨items, outer⟩
  · exact Or.inl ⟨rfl, rfl⟩
  · exact Or.inr ⟨_, rfl, List.cons_ne_nil _ _, rfl⟩

/-- A token that closes nothing but open lists ends the expression, if no list is open behind it,
or else leaves as many open as the count says. -/
theorem step_cases {lists : Open} {token : String} (h : lists ≠ [] ∨ token ≠ ")") :
    ((lists.length : ℤ) + deepening token = 0 ∧ ∃ v, step lists token = .done v) ∨
      ∃ lists', step lists token = .more lists' ∧ lists' ≠ [] ∧
        (lists'.length : ℤ) = lists.length + deepening token := by
  unfold step deepening
  split_ifs with hopen hclose
  · refine Or.inr ⟨_, rfl, List.cons_ne_nil _ _, ?_⟩
    rw [List.length_cons]
    omega
  · -- The innermost list becomes an item of the one around it, or is the expression.
    obtain ⟨items, outer, rfl⟩ := List.exists_cons_of_ne_nil (h.resolve_right (not_not.2 hclose))
    rw [List.length_cons]
    rcases finish_cases (.list items.reverse) outer with ⟨rfl, hdone⟩ | ⟨lists', hmore, hne, hlen⟩
    · exact Or.inl ⟨by simp, _, hdone⟩
    · exact Or.inr ⟨lists', hmore, hne, by omega⟩
  · rcases finish_cases (atom token) lists with ⟨rfl, hdone⟩ | ⟨lists', hmore, hne, hlen⟩
    · exact Or.inl ⟨by simp, _, hdone⟩
    · exact Or.inr ⟨lists', hmore, hne, by omega⟩

/-- A reader that is not told to close what is not open gets to the end of tokens that do not come
back to the top. -/
theorem readTokens_of_deep {lists : Open} {tokens : List String}
    (h : lists ≠ [] ∨ tokens.head? ≠ some ")")
    (hdeep : ∀ k, 1 ≤ k → k ≤ tokens.length → (lists.length : ℤ) + parenDepth tokens k ≠ 0) :
    (readTokens lists tokens).1 = .error .unexpectedEnd := by
  induction tokens generalizing lists with
  | nil => rfl
  | cons token tokens ih =>
    have htoken : lists ≠ [] ∨ token ≠ ")" := h.imp_right (by simp)
    rw [readTokens_cons]
    rcases step_cases htoken with ⟨htop, -⟩ | ⟨lists', hmore, hne, hlen⟩
    · -- The first token would come back to the top.
      have hfirst := hdeep 1 (by omega) (by simp)
      rw [parenDepth_cons, parenDepth_zero] at hfirst
      omega
    · rw [hmore, resume_more]
      refine ih (Or.inl hne) fun k hk hklen => ?_
      have hnext := hdeep (k + 1) (by omega) (by simpa using hklen)
      rw [parenDepth_cons] at hnext
      omega

/-- It stops where the tokens first come back to the top. -/
theorem readTokens_of_top {lists : Open} {tokens : List String} {k : ℕ}
    (h : lists ≠ [] ∨ tokens.head? ≠ some ")") (hk : 1 ≤ k) (hlen : k ≤ tokens.length)
    (htop : (lists.length : ℤ) + parenDepth tokens k = 0)
    (hdeep : ∀ j, 1 ≤ j → j < k → (lists.length : ℤ) + parenDepth tokens j ≠ 0) :
    ∃ v, readTokens lists tokens = (.ok v, tokens.drop k) := by
  induction tokens generalizing lists k with
  | nil =>
    rw [List.length_nil] at hlen
    omega
  | cons token tokens ih =>
    have htoken : lists ≠ [] ∨ token ≠ ")" := h.imp_right (by simp)
    obtain ⟨k, rfl⟩ : ∃ k', k = k' + 1 := ⟨k - 1, by omega⟩
    rw [parenDepth_cons] at htop
    rw [readTokens_cons, List.drop_succ_cons]
    rcases step_cases htoken with ⟨hzero, v, hdone⟩ | ⟨lists', hmore, hne, hlen'⟩
    · -- It stops at the first token, so that is where the tokens come back.
      have hk0 : k = 0 := by
        by_contra hk0
        have hfirst := hdeep 1 (by omega) (by omega)
        rw [parenDepth_cons, parenDepth_zero] at hfirst
        omega
      subst hk0
      exact ⟨v, by rw [hdone, resume_done, List.drop_zero]⟩
    · have hk0 : k ≠ 0 := by
        rintro rfl
        have hpos := List.length_pos_iff.2 hne
        rw [parenDepth_zero] at htop
        omega
      rw [hmore, resume_more]
      refine ih (Or.inl hne) (by omega) (by simpa using hlen) (by omega) fun j hj hjk => ?_
      have hnext := hdeep (j + 1) (by omega) (by omega)
      rw [parenDepth_cons] at hnext
      omega

end Reader

/-! ### Answers of the reader -/

/-- Tokens that are read to their end, or come back to the top at some first place. -/
theorem deep_or_exists_isLeast (tokens : List String) :
    (∀ k, ¬AtTop tokens k) ∨ ∃ k, IsLeast {k | AtTop tokens k} k := by
  by_cases h : ∃ k, AtTop tokens k
  · exact Or.inr ⟨Nat.find h, Nat.find_spec h, fun k hk => Nat.find_min' h hk⟩
  · exact Or.inl fun k hk => h ⟨k, hk⟩

theorem parseTokens_of_close {tokens : List String} (h : tokens.head? = some ")") :
    parseTokens tokens = .error .unexpectedClose := by
  obtain ⟨rest, rfl⟩ : ∃ rest, tokens = ")" :: rest := by
    rcases tokens with _ | ⟨token, rest⟩
    · cases h
    · exact ⟨rest, by rw [Option.some.inj h]⟩
  rfl

theorem parseTokens_of_deep {tokens : List String} (h : tokens.head? ≠ some ")")
    (hdeep : ∀ k, ¬AtTop tokens k) : parseTokens tokens = .error .unexpectedEnd := by
  have hread : (Reader.readTokens [] tokens).1 = .error .unexpectedEnd := by
    refine Reader.readTokens_of_deep (Or.inr h) fun k hk hklen htop => hdeep k ⟨hk, hklen, ?_⟩
    simpa using htop
  rw [parseTokens, show Reader.readTokens [] tokens = (.error .unexpectedEnd, _) from
    Prod.ext hread rfl]

theorem exists_parseTokens_of_isLeast {tokens : List String} {k : ℕ}
    (h : tokens.head? ≠ some ")") (hk : IsLeast {k | AtTop tokens k} k) :
    ∃ v, parseTokens tokens = if k = tokens.length then .ok v else .error .trailingTokens := by
  obtain ⟨⟨hpos, hlen, htop⟩, hmin⟩ := hk
  have hdeep : ∀ j, 1 ≤ j → j < k → (([] : Reader.Open).length : ℤ) + parenDepth tokens j ≠ 0 := by
    intro j hj hjk hzero
    have hkj : k ≤ j := hmin ⟨hj, by omega, by simpa using hzero⟩
    omega
  obtain ⟨v, hread⟩ := Reader.readTokens_of_top (Or.inr h) hpos hlen (by simpa using htop) hdeep
  have hrest : (tokens.drop k).isEmpty = true ↔ k = tokens.length := by
    rw [List.isEmpty_iff, List.drop_eq_nil_iff]
    omega
  refine ⟨v, ?_⟩
  simp only [parseTokens, hread, hrest]

/-- Whether a text is refused as malformed, in some words. -/
def Refuses (source wording : String) : Prop :=
  ∃ x, parse source = .error x ∧ x.message = "syntax error: " ++ wording

theorem refuses_iff {source wording : String} {x : Error} (h : parse source = .error x) :
    Refuses source wording ↔ x.message = "syntax error: " ++ wording := by
  constructor
  · rintro ⟨y, hy, hmessage⟩
    rwa [Except.error.inj (h.symm.trans hy)]
  · exact fun hmessage => ⟨x, h, hmessage⟩

theorem not_refuses {source wording : String} {e : Value} (h : parse source = .ok e) :
    ¬Refuses source wording := by
  rintro ⟨x, hx, -⟩
  cases h.symm.trans hx

/-- **The depth of parentheses tells the answer of the reader**: a text whose first token closes is
refused for that.  Otherwise it is refused for ending too early if its tokens do not come back to
the top, and for having tokens left if they come back before the end, and it is read if they first
come back at the end. -/
theorem parse_by_parenDepth (source : String) :
    (Refuses source "unexpected )" ↔ (tokenize source).head? = some ")") ∧
      ((tokenize source).head? ≠ some ")" →
        (Refuses source "unexpected EOF while reading" ↔ ¬∃ k, AtTop (tokenize source) k) ∧
        (Refuses source "unexpected trailing tokens" ↔
          ∃ k, IsLeast {k | AtTop (tokenize source) k} k ∧ k < (tokenize source).length) ∧
        ((∃ e, parse source = .ok e) ↔
          IsLeast {k | AtTop (tokenize source) k} (tokenize source).length)) := by
  have hparse := parse_eq source
  generalize tokenize source = tokens at hparse ⊢
  by_cases hclose : tokens.head? = some ")"
  · rw [parseTokens_of_close hclose] at hparse
    refine ⟨iff_of_true ?_ hclose, fun h => absurd hclose h⟩
    rw [refuses_iff hparse]
    decide
  rcases deep_or_exists_isLeast tokens with hdeep | ⟨k, hk⟩
  · rw [parseTokens_of_deep hclose hdeep] at hparse
    simp only [refuses_iff hparse]
    refine ⟨iff_of_false (by decide) hclose, fun _ => ⟨?_, ?_, ?_⟩⟩
    · exact iff_of_true (by decide) fun ⟨k, hk⟩ => hdeep k hk
    · exact iff_of_false (by decide) fun ⟨k, hk, _⟩ => hdeep k hk.1
    · exact iff_of_false (by simp [hparse]) fun hk => hdeep _ hk.1
  obtain ⟨v, hv⟩ := exists_parseTokens_of_isLeast hclose hk
  have hlen : k ≤ tokens.length := hk.1.2.1
  by_cases hend : k = tokens.length
  · rw [hv, if_pos hend] at hparse
    refine ⟨iff_of_false (not_refuses hparse) hclose, fun _ => ⟨?_, ?_, ?_⟩⟩
    · exact iff_of_false (not_refuses hparse) (not_not.2 ⟨k, hk.1⟩)
    · refine iff_of_false (not_refuses hparse) ?_
      rintro ⟨j, hj, hlt⟩
      have hjk := hj.unique hk
      omega
    · exact iff_of_true ⟨v, hparse⟩ (hend ▸ hk)
  · rw [hv, if_neg hend] at hparse
    simp only [refuses_iff hparse]
    refine ⟨iff_of_false (by decide) hclose, fun _ => ⟨?_, ?_, ?_⟩⟩
    · exact iff_of_false (by decide) (not_not.2 ⟨k, hk.1⟩)
    · exact iff_of_true (by decide) ⟨k, hk, by omega⟩
    · exact iff_of_false (by simp [hparse]) fun hlast => hend (hk.unique hlast)

end SmallLisp
