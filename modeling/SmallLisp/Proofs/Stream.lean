import SmallLisp.Proofs.Depth
import SmallLisp.Proofs.Grammar
import SmallLisp.Proofs.Walk

/-!
# Reading from a stream of tokens

A cursor over tokens is read one expression at a time.  What a read comes to depends on the tokens
ahead of the cursor only, and it leaves the cursor right behind the tokens that it has used: behind
an expression if the tokens ahead start with one, behind a parenthesis that closes nothing, and else
at the end of the stream.  Nothing is dropped on the way.

The reader goes on token by token, so these are facts about runs of it: a reader that succeeds has
moved by as many tokens as it took (`Reader.moves_readFrom`), and one that fails has met the end, or
a closing parenthesis with no list open, and then at once (`Reader.readFrom_error`).
`Cursor.read_streams` puts them together with the grammar, and follows reads one after the other.
-/

namespace SmallLisp

namespace Reader

variable {lists : Open} {c : Cursor String}

/-! ### Runs of the reader -/

/-- The reader takes nothing out of the stream. -/
theorem keeps_readFrom (lists : Open) (c : Cursor String) :
    (readFrom lists c).2.items = c.items ∧
      c.buffer.toList <+: (readFrom lists c).2.buffer.toList := by
  fun_induction readFrom lists c with
  | case1 lists c c' hnext =>
    obtain rfl : c' = c.next.2 := by rw [hnext]
    exact ⟨c.items_next, c.buffer_next⟩
  | case2 lists c token c' hnext v hv =>
    obtain rfl : c' = c.next.2 := by rw [hnext]
    exact ⟨c.items_next, c.buffer_next⟩
  | case3 lists c token c' hnext e he =>
    obtain rfl : c' = c.next.2 := by rw [hnext]
    exact ⟨c.items_next, c.buffer_next⟩
  | case4 lists c token c' hnext lists' hlists ih =>
    obtain rfl : c' = c.next.2 := by rw [hnext]
    exact ⟨ih.1.trans c.items_next, c.buffer_next.trans ih.2⟩

/-- A reader that reads an expression moves by the tokens that it takes. -/
theorem moves_readFrom {c' : Cursor String} {v : Value} (h : readFrom lists c = (.ok v, c')) :
    ∃ n ≤ c.ahead.length, c.Moves n c' := by
  fun_induction readFrom lists c with
  | case1 lists c d hnext => cases h
  | case2 lists c token d hnext w hw =>
    cases h
    have hahead := Cursor.ahead_of_next_some hnext
    obtain rfl : c' = c.next.2 := by rw [hnext]
    refine ⟨1, ?_, Cursor.moves_next hahead⟩
    rw [hahead, List.length_cons]
    omega
  | case3 lists c token d hnext x hx => cases h
  | case4 lists c token d hnext lists' hlists ih =>
    obtain ⟨n, hn, hmoves⟩ := ih h
    have hahead := Cursor.ahead_of_next_some hnext
    obtain rfl : d = c.next.2 := by rw [hnext]
    refine ⟨1 + n, ?_, (Cursor.moves_next hahead).trans hmoves⟩
    rw [hahead, List.length_cons]
    omega

/-- Only a closing parenthesis with no list open is refused, and a reader that goes on has a list
open. -/
theorem step_outcomes (lists : Open) (token : String) :
    (lists = [] ∧ token = ")" ∧ step lists token = .fail .unexpectedClose) ∨
      (∃ v, step lists token = .done v) ∨
        ∃ lists', step lists token = .more lists' ∧ lists' ≠ [] := by
  by_cases hopen : lists ≠ [] ∨ token ≠ ")"
  · rcases step_cases hopen with ⟨-, hdone⟩ | ⟨lists', hmore, hne, -⟩
    · exact Or.inr (Or.inl hdone)
    · exact Or.inr (Or.inr ⟨lists', hmore, hne⟩)
  · push Not at hopen
    obtain ⟨rfl, rfl⟩ := hopen
    exact Or.inl ⟨rfl, rfl, rfl⟩

/-- A reader that fails has come to the end of the stream, or has started at a parenthesis that
closes nothing. -/
theorem readFrom_error {c' : Cursor String} {x : Error} (h : readFrom lists c = (.error x, c')) :
    (x = .unexpectedEnd ∧ c'.position = c.items.length) ∨
      (x = .unexpectedClose ∧ lists = [] ∧ c.ahead.head? = some ")") := by
  fun_induction readFrom lists c with
  | case1 lists c d hnext =>
    cases h
    have hend : ¬c.taken < c.total := by
      rw [← Cursor.isSome_next, hnext]
      simp
    have hposition : c'.position = min (c.position + 1) c.items.length := by
      rw [← c.position_next, hnext]
    refine Or.inl ⟨rfl, ?_⟩
    rw [hposition, Cursor.length_items, Cursor.position]
    omega
  | case2 lists c token d hnext v hv => cases h
  | case3 lists c token d hnext y hy =>
    cases h
    rcases step_outcomes lists token with ⟨hlists, htoken, hfail⟩ | ⟨v, hdone⟩ | ⟨lists', hmore, -⟩
    · rw [hy] at hfail
      refine Or.inr ⟨Step.fail.inj hfail, hlists, ?_⟩
      rw [Cursor.ahead_of_next_some hnext, htoken]
      rfl
    · cases hdone.symm.trans hy
    · cases hmore.symm.trans hy
  | case4 lists c token d hnext lists' hlists ih =>
    rcases ih h with ⟨rfl, hposition⟩ | ⟨-, rfl, -⟩
    · refine Or.inl ⟨rfl, ?_⟩
      rw [hposition, ← c.items_next, hnext]
    · -- With a list open, only the end of the stream is in the way.
      rcases step_outcomes lists token with ⟨-, -, hfail⟩ | ⟨v, hdone⟩ | ⟨lists', hmore, hne⟩
      · cases hfail.symm.trans hlists
      · cases hdone.symm.trans hlists
      · exact absurd (Step.more.inj (hmore.symm.trans hlists)) hne

end Reader

namespace Cursor

variable {c : Cursor String} {tokens rest : List String} {e : Value} {es : List Value}

/-! ### One read -/

/-- Tokens of an expression that lie ahead are read, and the cursor is right behind them. -/
theorem read_of_derives (hc : c.ahead = tokens ++ rest) (h : Derives tokens e) :
    c.read.1 = .ok e ∧ c.read.2.ahead = rest ∧
      c.read.2.position = c.position + tokens.length := by
  obtain ⟨c', hreads, hrest⟩ := h.exists_reads hc
  have hread : c.read = (.ok e, c') := reads_iff.1 hreads
  obtain ⟨n, hn, hmoves⟩ := Reader.moves_readFrom hread
  rw [hread]
  refine ⟨rfl, hrest, ?_⟩
  -- The tokens that are left tell how many were taken.
  have hlen := congrArg List.length hmoves.ahead_eq
  rw [hrest, hc, List.length_drop, List.length_append] at hlen
  rw [hc, List.length_append] at hn
  rw [position, position, hmoves.taken_eq]
  push_cast
  omega

theorem read_of_close (h : c.ahead.head? = some ")") :
    c.read.1 = .error .unexpectedClose ∧ c.read.2.position = c.position + 1 := by
  obtain ⟨rest, hrest⟩ := List.head?_eq_some_iff.1 h
  obtain ⟨c', hnext, -⟩ := exists_next hrest
  have hread : c.read = (.error .unexpectedClose, c') := reads_iff.1 (.closed hnext)
  have hmoves := moves_next hrest
  rw [hnext] at hmoves
  rw [hread]
  refine ⟨rfl, ?_⟩
  rw [position, position, hmoves.taken_eq]
  push_cast
  omega

/-- Where neither an expression nor a closing parenthesis comes next, the end is met. -/
theorem read_of_not_derives (hclose : c.ahead.head? ≠ some ")")
    (h : ∀ tokens e, tokens <+: c.ahead → ¬Derives tokens e) :
    c.read.1 = .error .unexpectedEnd ∧ c.read.2.position = c.items.length := by
  rcases hread : c.read with ⟨x | v, c'⟩
  · rcases Reader.readFrom_error hread with ⟨rfl, hposition⟩ | ⟨-, -, hhead⟩
    · exact ⟨rfl, hposition⟩
    · exact absurd hhead hclose
  · obtain ⟨tokens, hahead, hderives⟩ := (reads_iff.2 hread).exists_derives rfl
    exact absurd hderives (h tokens v ⟨_, hahead.symm⟩)

/-! ### Reads one after the other -/

/-- The cursor after some reads. -/
def afterReads (c : Cursor String) (k : ℕ) : Cursor String :=
  (fun d => d.read.2)^[k] c

/-- Of expressions that lie ahead, a read takes the first, and meets the end if there is none. -/
theorem read_of_derivesAll (h : DerivesAll c.ahead es) :
    c.read.1 = es.head?.elim (.error .unexpectedEnd) .ok ∧
      DerivesAll c.read.2.ahead es.tail := by
  generalize hc : c.ahead = tokens at h
  cases h with
  | nil =>
    obtain ⟨hfst, hsnd⟩ := Reader.readFrom_eq [] c
    rw [hc] at hfst hsnd
    have hend : c.read.2.ahead = [] := hsnd
    rw [hend]
    exact ⟨hfst, .nil⟩
  | cons head tail =>
    obtain ⟨hread, hrest, -⟩ := read_of_derives hc head
    rw [hrest]
    exact ⟨hread, tail⟩

/-- Expressions that lie ahead are read one by one, and then the end is met again and again. -/
theorem read_afterReads (h : DerivesAll c.ahead es) (k : ℕ) :
    (c.afterReads k).read.1 = es[k]?.elim (.error .unexpectedEnd) .ok := by
  induction k generalizing c es with
  | zero =>
    rw [← List.head?_eq_getElem?]
    exact (read_of_derivesAll h).1
  | succ k ih =>
    rw [← List.getElem?_tail]
    exact ih (read_of_derivesAll h).2

/-- **Expressions are read off a stream one by one**, from any cursor.  What a read comes to depends
on the tokens ahead only, and takes no token out of the stream.  If the tokens ahead start with an
expression, it is read, and the cursor moves by the tokens of it.  A parenthesis that closes nothing
is refused where it stands, and otherwise the read ends at the end of the stream.  So expressions
one behind the other are read in order, and all further reads meet the end. -/
theorem read_streams (c : Cursor String) :
    (∀ d : Cursor String, d.ahead = c.ahead →
      d.read.1 = c.read.1 ∧ d.read.2.ahead = c.read.2.ahead) ∧
    (c.read.2.items = c.items ∧ c.buffer.toList <+: c.read.2.buffer.toList) ∧
    (∀ tokens e, tokens <+: c.ahead → Derives tokens e →
      c.read.1 = .ok e ∧ c.read.2.position = c.position + tokens.length) ∧
    (c.ahead.head? = some ")" →
      c.read.1 = .error .unexpectedClose ∧ c.read.2.position = c.position + 1) ∧
    (c.ahead.head? ≠ some ")" → (∀ tokens e, tokens <+: c.ahead → ¬Derives tokens e) →
      c.read.1 = .error .unexpectedEnd ∧ c.read.2.position = c.items.length) ∧
    (∀ es, DerivesAll c.ahead es → ∀ k,
      (c.afterReads k).read.1 = es[k]?.elim (.error .unexpectedEnd) .ok) ∧
    Error.unexpectedClose.message = "syntax error: unexpected )" ∧
    Error.unexpectedEnd.message = "syntax error: unexpected EOF while reading" := by
  refine ⟨fun d hd => ?_, Reader.keeps_readFrom [] c, ?_, read_of_close, read_of_not_derives,
    fun es hes k => read_afterReads hes k, by decide, by decide⟩
  · obtain ⟨hfst, hsnd⟩ := Reader.readFrom_eq [] c
    obtain ⟨hfst', hsnd'⟩ := Reader.readFrom_eq [] d
    rw [hd] at hfst' hsnd'
    exact ⟨hfst'.trans hfst.symm, hsnd'.trans hsnd.symm⟩
  · rintro tokens e ⟨rest, hrest⟩ hderives
    obtain ⟨hread, -, hposition⟩ := read_of_derives hrest.symm hderives
    exact ⟨hread, hposition⟩

/-- Two expressions are read by a cursor that has come past a token before them, and then the end is
met. -/
theorem read_streams_two : ∃ c : Cursor String, c = ⟨#["x"], ["(", "a", ")", "b"], 1⟩ ∧
    c.read.1 = .ok (.list [.symbol "a"]) ∧ c.read.2.position = 3 ∧
    (c.afterReads 1).read.1 = .ok (.symbol "b") ∧
    ∀ k, (c.afterReads (k + 2)).read.1 = .error .unexpectedEnd := by
  have hlist : Derives ["(", "a", ")"] (.list [.symbol "a"]) :=
    .list (.cons (.atom (by decide) (by decide)) .nil)
  have hboth : DerivesAll ["(", "a", ")", "b"] [.list [.symbol "a"], .symbol "b"] :=
    .cons hlist (.cons (.atom (by decide) (by decide)) .nil)
  obtain ⟨-, -, hread, -, -, hreads, -⟩ := read_streams ⟨#["x"], ["(", "a", ")", "b"], 1⟩
  obtain ⟨hfirst, hposition⟩ := hread _ _ ⟨["b"], rfl⟩ hlist
  exact ⟨_, rfl, hfirst, hposition, hreads _ hboth 1, fun k => hreads _ hboth (k + 2)⟩

end Cursor

end SmallLisp
