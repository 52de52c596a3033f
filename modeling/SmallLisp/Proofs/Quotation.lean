import SmallLisp.Proofs.Grammar
import SmallLisp.Proofs.Session
import SmallLisp.Proofs.Splitting

/-!
# Quoted texts

A text is quoted by putting it behind `(quote ` and before `)`.  Whatever the text is, it cannot get
out of the quotation: there is one exactly if the text by itself holds one expression, and then that
is its value (`interpret_quotationText`).  Texts that close the quotation and go on, or hold several
expressions or none, are refused by the reader or by the form, and in no case is a part of them
evaluated.

The tokens of the text stay together (`tokenize_quotationText`), and the grammar does the rest: what
stands between the outer parentheses are the items of one list, or the tokens derive nothing
(`derives_parentheses_iff`).
-/

namespace SmallLisp

/-- A text in a quotation. -/
def quotationText (source : String) : String := "(quote " ++ source ++ ")"

theorem tokenize_quotationText (source : String) :
    tokenize (quotationText source) = "(" :: ("quote" :: tokenize source ++ [")"]) := by
  have hchars : (quotationText source).toList
      = "(quote".toList ++ ' ' :: (source.toList ++ [')']) := by
    simp [quotationText]
  have hhead : splitTokens "(quote".toList = ["(", "quote"] := by decide +kernel
  rw [tokenize_eq, hchars, splitTokens_append_blank (by decide), hhead,
    splitTokens_append_paren (by decide), splitTokens_nil, tokenize_eq]
  rfl

/-! ### Expressions between parentheses -/

/-- Tokens between parentheses are those of the items of a list. -/
theorem derives_parentheses_iff {tokens : List String} {v : Value} :
    Derives ("(" :: (tokens ++ [")"])) v ↔ ∃ items, v = .list items ∧ DerivesAll tokens items := by
  constructor
  · intro h
    generalize htokens : "(" :: (tokens ++ [")"]) = all at h
    cases h with
    | atom noOpen =>
      simp at htokens
    | @list inner items inside =>
      have hinner : tokens = inner := by simpa using htokens
      exact ⟨items, rfl, hinner ▸ inside⟩
  · rintro ⟨items, rfl, inside⟩
    exact .list inside

/-- The first of some expressions is a token, if that is no parenthesis. -/
theorem derivesAll_cons_iff {token : String} (hopen : token ≠ "(") (hclose : token ≠ ")")
    {tokens : List String} {items : List Value} :
    DerivesAll (token :: tokens) items ↔
      ∃ rest, items = atom token :: rest ∧ DerivesAll tokens rest := by
  constructor
  · intro h
    generalize htokens : token :: tokens = all at h
    cases h with
    | nil => cases htokens
    | @cons _ _ _ rest head tail =>
      cases head with
      | atom =>
        obtain ⟨rfl, rfl⟩ := List.cons.inj htokens
        exact ⟨rest, rfl, tail⟩
      | list => exact absurd (List.cons.inj htokens).1 hopen
  · rintro ⟨rest, rfl, h⟩
    exact .cons (.atom hopen hclose) h

theorem derivesAll_singleton_iff {tokens : List String} {v : Value} :
    DerivesAll tokens [v] ↔ Derives tokens v := by
  constructor
  · intro h
    cases h with
    | cons head tail =>
      cases tail
      rwa [List.append_nil]
  · intro h
    have hcons := DerivesAll.cons h .nil
    rwa [List.append_nil] at hcons

/-- A quoted text reads as a list with `quote` before the expressions of the text. -/
theorem parse_quotationText_eq_ok_iff {source : String} {v : Value} :
    parse (quotationText source) = .ok v ↔
      ∃ items, v = .list (.symbol "quote" :: items) ∧ DerivesAll (tokenize source) items := by
  have hatom : atom "quote" = .symbol "quote" := by rfl
  rw [parse_eq, parseTokens_eq_ok_iff, tokenize_quotationText, derives_parentheses_iff]
  simp only [derivesAll_cons_iff (show "quote" ≠ "(" by decide) (show "quote" ≠ ")" by decide),
    hatom]
  constructor
  · rintro ⟨_, rfl, items, rfl, h⟩
    exact ⟨items, rfl, h⟩
  · rintro ⟨items, rfl, h⟩
    exact ⟨_, rfl, items, rfl, h⟩

/-! ### Their value -/

section
variable {depth : ℕ} {f : FrameId} {s : Store} {source : String}

theorem interpret_quotationText_of_parse {e : Value} (h : parse source = .ok e) :
    (interpret (depth + 1) f (quotationText source)).run.run s = some (.ok (some e.text), s) := by
  have hparse : parse (quotationText source) = .ok (.list [.symbol "quote", e]) := by
    rw [parse_eq, parseTokens_eq_ok_iff] at h
    exact parse_quotationText_eq_ok_iff.2 ⟨[e], rfl, derivesAll_singleton_iff.2 h⟩
  have hform : Form.ofList [.symbol "quote", e] = .ok (.quotation e) := rfl
  rw [interpret_run, evalText_run, hparse]
  simp only [run_eval_list, hform]
  rfl

/-- A quotation holds one expression. -/
theorem Form.ofList_quote_eq_error {items : List Value} (h : ∀ e, items ≠ [e]) :
    ofList (.symbol "quote" :: items) = .error .invalidQuotation := by
  rcases items with _ | ⟨e, _ | ⟨e', items⟩⟩
  · rfl
  · exact absurd rfl (h e)
  · rfl

theorem interpret_quotationText_of_not_parse (h : ¬∃ e, parse source = .ok e) :
    ∃ x, (interpret (depth + 1) f (quotationText source)).run.run s = some (.error x, s) := by
  rw [interpret_run, evalText_run]
  cases hparse : parse (quotationText source) with
  | error x => exact ⟨x, rfl⟩
  | ok v =>
    -- The text holds several expressions or none.
    obtain ⟨items, rfl, hderives⟩ := parse_quotationText_eq_ok_iff.1 hparse
    have hitems : ∀ e, items ≠ [e] := by
      rintro e rfl
      refine h ⟨e, ?_⟩
      rw [parse_eq, parseTokens_eq_ok_iff]
      exact derivesAll_singleton_iff.1 hderives
    refine ⟨.invalidQuotation, ?_⟩
    simp only [run_eval_list, Form.ofList_quote_eq_error hitems]
    rfl

end

/-- **Quotations hold**: in every frame of every store, a quoted text has a value exactly if the
text holds an expression, and fails otherwise.  The value is printed as the expression is, what is
printed can be quoted again with the same outcome, and no quotation changes the store. -/
theorem interpret_quotationText (depth : ℕ) (f : FrameId) (s : Store) (source : String) :
    ((∃ out s', (interpret (depth + 1) f (quotationText source)).run.run s = some (.ok out, s')) ↔
        ∃ e, parse source = .ok e) ∧
      (∀ e, parse source = .ok e →
        (interpret (depth + 1) f (quotationText source)).run.run s = some (.ok (some e.text), s) ∧
          (interpret (depth + 1) f (quotationText e.text)).run.run s
            = some (.ok (some e.text), s)) ∧
      ((¬∃ e, parse source = .ok e) →
        ∃ x, (interpret (depth + 1) f (quotationText source)).run.run s = some (.error x, s)) := by
  refine ⟨⟨?_, ?_⟩, fun e he => ?_, interpret_quotationText_of_not_parse⟩
  · rintro ⟨out, s', hrun⟩
    by_contra hnone
    have hfails : ∃ x, (interpret (depth + 1) f (quotationText source)).run.run s
        = some (.error x, s) := interpret_quotationText_of_not_parse hnone
    obtain ⟨x, hx⟩ := hfails
    cases hrun.symm.trans hx
  · rintro ⟨e, he⟩
    exact ⟨some e.text, s, interpret_quotationText_of_parse he⟩
  · have hagain : parse e.text = .ok e := parse_text (readable_of_parse he)
    exact ⟨interpret_quotationText_of_parse he, interpret_quotationText_of_parse hagain⟩

end SmallLisp
