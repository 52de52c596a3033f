import SmallLisp.Proofs.Cursor
import SmallLisp.Reader

/-!
# Reading a list of tokens

`Reader.readTokens` is the reader without a cursor: it takes the tokens from a list and returns
what is left of it.  `Reader.readFrom_eq` says that the reader of a cursor does the same with the
tokens ahead of it, so that `parse` needs no cursor either (`parse_eq`).

`Reader.resume` goes on after a step, which lets a statement about one expression be used inside a
list of them: `readTokens` of its tokens is `resume` of putting it into the open list.
-/

namespace SmallLisp

namespace Reader

/-- Reads on from a list of tokens with the given lists open. -/
def readTokens (lists : Open) : List String → Except Error Value × List String
  | [] => (.error .unexpectedEnd, [])
  | token :: tokens =>
    match step lists token with
    | .done v => (.ok v, tokens)
    | .fail e => (.error e, tokens)
    | .more lists' => readTokens lists' tokens

/-- What comes of a step, with the tokens behind it. -/
def resume (s : Step) (tokens : List String) : Except Error Value × List String :=
  match s with
  | .done v => (.ok v, tokens)
  | .fail e => (.error e, tokens)
  | .more lists => readTokens lists tokens

@[simp] theorem resume_done (v : Value) (tokens : List String) :
    resume (.done v) tokens = (.ok v, tokens) := rfl

@[simp] theorem resume_fail (e : Error) (tokens : List String) :
    resume (.fail e) tokens = (.error e, tokens) := rfl

@[simp] theorem resume_more (lists : Open) (tokens : List String) :
    resume (.more lists) tokens = readTokens lists tokens := rfl

theorem readTokens_cons (lists : Open) (token : String) (tokens : List String) :
    readTokens lists (token :: tokens) = resume (step lists token) tokens :=
  rfl

/-- The reader of a cursor reads the tokens ahead of it. -/
theorem readFrom_eq (lists : Open) (c : Cursor String) :
    (readFrom lists c).1 = (readTokens lists c.ahead).1 ∧
      (readFrom lists c).2.ahead = (readTokens lists c.ahead).2 := by
  -- The tokens run out, or a step is the last one, fails, or leaves lists open.
  fun_induction readFrom lists c with
  | case1 lists c c' hnext =>
    obtain ⟨hc, hc'⟩ := Cursor.ahead_of_next_none hnext
    rw [hc, hc']
    exact ⟨rfl, rfl⟩
  | case2 lists c token c' hnext v hv =>
    rw [Cursor.ahead_of_next_some hnext, readTokens_cons, hv]
    exact ⟨rfl, rfl⟩
  | case3 lists c token c' hnext e he =>
    rw [Cursor.ahead_of_next_some hnext, readTokens_cons, he]
    exact ⟨rfl, rfl⟩
  | case4 lists c token c' hnext lists' hlists ih =>
    rw [Cursor.ahead_of_next_some hnext, readTokens_cons, hlists]
    exact ih

end Reader

/-- The expression that some tokens make up, which is exactly one. -/
def parseTokens (tokens : List String) : Except Error Value :=
  match Reader.readTokens [] tokens with
  | (.error e, _) => .error e
  | (.ok v, rest) => if rest.isEmpty then .ok v else .error .trailingTokens

/-- Reading an expression from a text is reading it from the tokens of the text. -/
theorem parse_eq (source : String) : parse source = parseTokens (tokenize source) := by
  obtain ⟨hfst, hsnd⟩ := Reader.readFrom_eq [] (tokenCursor source)
  have hahead : (tokenCursor source).ahead = tokenize source := rfl
  rw [hahead] at hfst hsnd
  rw [parse, parseTokens, Cursor.read]
  rcases hread : Reader.readFrom [] (tokenCursor source) with ⟨x | v, c⟩
  · rw [hread] at hfst
    have htokens : Reader.readTokens [] (tokenize source) = (.error x, _) :=
      Prod.ext hfst.symm rfl
    rw [htokens]
  · rw [hread] at hfst hsnd
    have htokens : Reader.readTokens [] (tokenize source) = (.ok v, c.ahead) :=
      Prod.ext hfst.symm hsnd.symm
    rw [htokens]
    simp only [Cursor.fst_atEnd]

end SmallLisp
