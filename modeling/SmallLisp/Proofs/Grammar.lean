import SmallLisp.Proofs.Reader

/-!
# The grammar of expressions

An expression is a token that is no parenthesis, or expressions between parentheses.  `Derives` is
this grammar on lists of tokens, and `parse_eq_ok_iff_derives` says that the reader accepts exactly
what it derives.

The reader keeps a stack of open lists.  Between it and the grammar stands `Reads`, which reads by
recursive descent: after an opening parenthesis, items are read until a closing one can be accepted.
A derivation of `Reads` is a descent that comes to an end, and every cursor has one
(`exists_reads_and_readsItems`).  What it ends with is what the reader yields (`reads_iff`): with
lists open around it, the reader goes on where the descent ends (`readFrom_of_reads`).
-/

namespace SmallLisp

/-! ### The grammar -/

mutual

/-- The tokens of an expression. -/
inductive Derives : List String → Value → Prop
  | atom {token : String} (noOpen : token ≠ "(") (noClose : token ≠ ")") :
      Derives [token] (atom token)
  | list {tokens : List String} {items : List Value} (inside : DerivesAll tokens items) :
      Derives ("(" :: tokens ++ [")"]) (.list items)

/-- The tokens of expressions, one after the other. -/
inductive DerivesAll : List String → List Value → Prop
  | nil : DerivesAll [] []
  | cons {tokens tokens' : List String} {v : Value} {items : List Value}
      (head : Derives tokens v) (tail : DerivesAll tokens' items) :
      DerivesAll (tokens ++ tokens') (v :: items)

end

/-- An expression has a first token, which closes nothing. -/
theorem Derives.exists_cons {tokens : List String} {v : Value} (h : Derives tokens v) :
    ∃ token tokens', tokens = token :: tokens' ∧ token ≠ ")" := by
  cases h with
  | atom noOpen noClose => exact ⟨_, [], rfl, noClose⟩
  | list inside => exact ⟨"(", _, rfl, by decide⟩

/-! ### Recursive descent -/

mutual

/-- Reading an expression by recursive descent. -/
inductive Reads : Cursor String → Except Error Value → Cursor String → Prop
  | ended {c c' : Cursor String} (next : c.next = (none, c')) : Reads c (.error .unexpectedEnd) c'
  | closed {c c' : Cursor String} (next : c.next = (some ")", c')) :
      Reads c (.error .unexpectedClose) c'
  | atom {c c' : Cursor String} {token : String} (next : c.next = (some token, c'))
      (noOpen : token ≠ "(") (noClose : token ≠ ")") : Reads c (.ok (atom token)) c'
  | list {c c₁ c' : Cursor String} {r : Except Error (List Value)}
      (next : c.next = (some "(", c₁)) (inside : ReadsItems c₁ r c') : Reads c (r.map .list) c'

/-- Reading the items of a list up to its end, until a closing parenthesis can be accepted. -/
inductive ReadsItems : Cursor String → Except Error (List Value) → Cursor String → Prop
  | close {c c' : Cursor String} {token : String} (accept : c.accept ")" = (some token, c')) :
      ReadsItems c (.ok []) c'
  | item {c c₁ c₂ c' : Cursor String} {v : Value} {r : Except Error (List Value)}
      (accept : c.accept ")" = (none, c₁)) (head : Reads c₁ (.ok v) c₂)
      (tail : ReadsItems c₂ r c') : ReadsItems c (r.map (v :: ·)) c'
  | fail {c c₁ c' : Cursor String} {x : Error} (accept : c.accept ")" = (none, c₁))
      (head : Reads c₁ (.error x) c') : ReadsItems c (.error x) c'

end

namespace Cursor

variable {c c' : Cursor String} {item : String}

/-- An accepted item is the next one. -/
theorem next_of_accept_some {token : String} (h : c.accept item = (some token, c')) :
    c.next = (some item, c') := by
  obtain ⟨hnext, hmem⟩ := of_acceptAny_some h
  have htoken : token = item := by simpa using hmem
  rw [hnext, htoken]

/-- An item that is not accepted does not come next, and the cursor has gone back from it. -/
theorem of_accept_none (h : c.accept item = (none, c')) :
    c.ahead.head? ≠ some item ∧ c'.next = c.next := by
  obtain ⟨hnot, rfl⟩ := of_acceptAny_none h
  refine ⟨fun hhead => ?_, c.next_seek_next⟩
  have hitem := hnot item hhead
  simp at hitem

/-- Looking whether an item can be accepted leaves everything ahead. -/
theorem ahead_of_accept_none (h : c.accept item = (none, c')) : c'.ahead = c.ahead :=
  ahead_congr (of_accept_none h).2

end Cursor

/-! ### The grammar describes the descent -/

theorem exists_of_map_eq_ok {α β : Type} {r : Except Error α} {g : α → β} {b : β}
    (h : r.map g = .ok b) : ∃ a, r = .ok a ∧ g a = b := by
  cases r with
  | error x => cases h
  | ok a => exact ⟨a, rfl, Except.ok.inj h⟩

mutual

/-- What is read by descent has the tokens of an expression. -/
theorem Reads.exists_derives {c c' : Cursor String} {r : Except Error Value} (h : Reads c r c')
    {v : Value} (hr : r = .ok v) : ∃ tokens, c.ahead = tokens ++ c'.ahead ∧ Derives tokens v := by
  match h with
  | .ended next => cases hr
  | .closed next => cases hr
  | .atom next noOpen noClose =>
    obtain rfl := Except.ok.inj hr
    exact ⟨[_], Cursor.ahead_of_next_some next, .atom noOpen noClose⟩
  | .list next inside =>
    obtain ⟨items, hitems, rfl⟩ := exists_of_map_eq_ok hr
    obtain ⟨tokens, hahead, hderives⟩ := inside.exists_derivesAll hitems
    refine ⟨"(" :: tokens ++ [")"], ?_, .list hderives⟩
    rw [Cursor.ahead_of_next_some next, hahead]
    simp

/-- Items that are read by descent have the tokens of expressions before the end of their list. -/
theorem ReadsItems.exists_derivesAll {c c' : Cursor String} {r : Except Error (List Value)}
    (h : ReadsItems c r c') {items : List Value} (hr : r = .ok items) :
    ∃ tokens, c.ahead = tokens ++ ")" :: c'.ahead ∧ DerivesAll tokens items := by
  match h with
  | .close accept =>
    obtain rfl := Except.ok.inj hr
    exact ⟨[], Cursor.ahead_of_next_some (Cursor.next_of_accept_some accept), .nil⟩
  | .item accept head tail =>
    obtain ⟨rest, hrest, rfl⟩ := exists_of_map_eq_ok hr
    obtain ⟨tokens, hahead, hv⟩ := head.exists_derives rfl
    obtain ⟨tokens', hahead', hderives⟩ := tail.exists_derivesAll hrest
    refine ⟨tokens ++ tokens', ?_, .cons hv hderives⟩
    rw [← Cursor.ahead_of_accept_none accept, hahead, hahead', List.append_assoc]
  | .fail accept head => cases hr

end

/-- A step to a token that lies ahead. -/
theorem Cursor.exists_next {c : Cursor String} {token : String} {rest : List String}
    (h : c.ahead = token :: rest) : ∃ c', c.next = (some token, c') ∧ c'.ahead = rest := by
  have hfst : c.next.1 = some token := by rw [fst_next, h]; rfl
  refine ⟨c.next.2, Prod.ext hfst rfl, ?_⟩
  rw [(moves_next h).ahead_eq, h, List.drop_one, List.tail_cons]

mutual

/-- The tokens of an expression are read by descent, whatever follows. -/
theorem Derives.exists_reads {tokens : List String} {v : Value} (h : Derives tokens v)
    {c : Cursor String} {rest : List String} (hc : c.ahead = tokens ++ rest) :
    ∃ c', Reads c (.ok v) c' ∧ c'.ahead = rest := by
  cases h with
  | atom noOpen noClose =>
    obtain ⟨c', hnext, hc'⟩ := Cursor.exists_next hc
    exact ⟨c', .atom hnext noOpen noClose, hc'⟩
  | @list tokens items inside =>
    have hc' : c.ahead = "(" :: (tokens ++ ")" :: rest) := by simpa using hc
    obtain ⟨c₁, hnext, hc₁⟩ := Cursor.exists_next hc'
    obtain ⟨c', hitems, hc'⟩ := inside.exists_readsItems hc₁
    exact ⟨c', .list hnext hitems, hc'⟩

/-- The tokens of expressions before the end of a list are read by descent. -/
theorem DerivesAll.exists_readsItems {tokens : List String} {items : List Value}
    (h : DerivesAll tokens items) {c : Cursor String} {rest : List String}
    (hc : c.ahead = tokens ++ ")" :: rest) :
    ∃ c', ReadsItems c (.ok items) c' ∧ c'.ahead = rest := by
  cases h with
  | nil =>
    obtain ⟨c', hnext, hc'⟩ := Cursor.exists_next hc
    refine ⟨c', ?_, hc'⟩
    have haccept : c.accept ")" = (some ")", c.next.2) :=
      Cursor.acceptAny_of_contains hc (by simp)
    rw [hnext] at haccept
    exact .close haccept
  | cons head tail =>
    -- The first token closes nothing, so it is looked at and read again.
    obtain ⟨token, tokens', rfl, hclose⟩ := head.exists_cons
    have hhead : ∀ a ∈ c.ahead.head?, [")"].contains a = false := by
      rw [hc]
      rintro a ⟨⟩
      simpa using hclose
    have haccept : c.accept ")" = (none, (c.next.2.seek c.position).2) :=
      Cursor.acceptAny_of_not_contains hhead
    rw [← Cursor.ahead_of_accept_none haccept, List.append_assoc] at hc
    obtain ⟨c₂, hv, hc₂⟩ := head.exists_reads hc
    obtain ⟨c', hitems, hc'⟩ := tail.exists_readsItems hc₂
    exact ⟨c', .item haccept hv hitems, hc'⟩

end

/-! ### Every descent comes to an end -/

/-- What is read by descent takes a token at least. -/
theorem Reads.length_ahead_lt {c c' : Cursor String} {v : Value} (h : Reads c (.ok v) c') :
    c'.ahead.length < c.ahead.length := by
  obtain ⟨tokens, hahead, hderives⟩ := h.exists_derives rfl
  obtain ⟨token, tokens', rfl, -⟩ := hderives.exists_cons
  rw [hahead, List.length_append, List.length_cons]
  omega

/-- Every cursor is read by a descent that comes to an end, and so are the items of a list. -/
theorem exists_reads_and_readsItems (c : Cursor String) :
    (∃ r c', Reads c r c') ∧ ∃ r c', ReadsItems c r c' := by
  induction hn : c.ahead.length using Nat.strong_induction_on generalizing c with
  | _ n ih =>
  have hreads (d : Cursor String) (hd : d.ahead.length = n) : ∃ r c', Reads d r c' := by
    rcases hnext : d.next with ⟨_ | token, d'⟩
    · exact ⟨_, d', .ended hnext⟩
    by_cases hopen : token = "("
    · -- The items of the list have fewer tokens ahead.
      subst hopen
      have hlt : d'.ahead.length < n := by
        rw [← hd, Cursor.ahead_of_next_some hnext, List.length_cons]
        omega
      obtain ⟨-, r, c', hitems⟩ := ih _ hlt d' rfl
      exact ⟨_, c', .list hnext hitems⟩
    by_cases hclose : token = ")"
    · subst hclose
      exact ⟨_, d', .closed hnext⟩
    · exact ⟨_, d', .atom hnext hopen hclose⟩
  refine ⟨hreads c hn, ?_⟩
  rcases haccept : c.accept ")" with ⟨_ | token, c₁⟩
  · have hc₁ : c₁.ahead.length = n := by rw [Cursor.ahead_of_accept_none haccept, hn]
    obtain ⟨x | v, c₂, hhead⟩ := hreads c₁ hc₁
    · exact ⟨_, c₂, .fail haccept hhead⟩
    · -- The next items have fewer tokens ahead, for this one took some.
      have hlt : c₂.ahead.length < n := hc₁ ▸ hhead.length_ahead_lt
      obtain ⟨-, r, c', htail⟩ := ih _ hlt c₂ rfl
      exact ⟨_, c', .item haccept hhead htail⟩
  · exact ⟨_, c₁, .close haccept⟩

/-! ### The reader descends -/

namespace Reader

/-- What comes of a step, with the cursor behind it. -/
def goOn (s : Step) (c : Cursor String) : Except Error Value × Cursor String :=
  match s with
  | .done v => (.ok v, c)
  | .fail e => (.error e, c)
  | .more lists => readFrom lists c

/-- The step that a descent makes as a whole, with lists open around it. -/
def descend (r : Except Error Value) (lists : Open) : Step :=
  match r with
  | .ok v => finish v lists
  | .error x => .fail x

theorem readFrom_of_next_some {lists : Open} {c c' : Cursor String} {token : String}
    (h : c.next = (some token, c')) : readFrom lists c = goOn (step lists token) c' := by
  rw [readFrom]
  split
  · rename_i hnone
    cases hnone.symm.trans h
  · rename_i hsome
    obtain ⟨rfl, rfl⟩ : _ ∧ _ := by simpa using hsome.symm.trans h
    rfl

theorem readFrom_of_next_none {lists : Open} {c c' : Cursor String} (h : c.next = (none, c')) :
    readFrom lists c = (.error .unexpectedEnd, c') := by
  rw [readFrom]
  split
  · rename_i hnone
    obtain rfl : _ = c' := by simpa using hnone.symm.trans h
    rfl
  · rename_i hsome
    cases hsome.symm.trans h

/-- The reader goes by the steps of its cursor. -/
theorem readFrom_congr (lists : Open) {c c' : Cursor String} (h : c'.next = c.next) :
    readFrom lists c' = readFrom lists c := by
  rcases hnext : c.next with ⟨_ | token, d⟩
  · rw [readFrom_of_next_none hnext, readFrom_of_next_none (h.trans hnext)]
  · rw [readFrom_of_next_some hnext, readFrom_of_next_some (h.trans hnext)]

/-- Where a list does not end, the reader goes on as if nothing had been looked at. -/
theorem readFrom_of_accept_none {c c' : Cursor String} (h : c.accept ")" = (none, c'))
    (lists : Open) : c'.ahead.head? ≠ some ")" ∧ readFrom lists c = readFrom lists c' := by
  obtain ⟨hnot, hback⟩ := Cursor.of_accept_none h
  rw [← Cursor.ahead_of_accept_none h] at hnot
  exact ⟨hnot, (readFrom_congr lists hback).symm⟩

theorem step_of_atom {lists : Open} {token : String} (noOpen : token ≠ "(")
    (noClose : token ≠ ")") : step lists token = finish (atom token) lists := by
  unfold step
  rw [if_neg noOpen, if_neg noClose]

end Reader

open Reader

mutual

/-- With lists open around it, the reader does what a descent does and goes on behind it.  A
descent inside a list starts where the list does not end. -/
theorem readFrom_of_reads {c c' : Cursor String} {r : Except Error Value} (h : Reads c r c')
    (lists : Open) (hc : lists = [] ∨ c.ahead.head? ≠ some ")") :
    readFrom lists c = goOn (descend r lists) c' := by
  match h with
  | .ended next => exact readFrom_of_next_none next
  | .closed next =>
    have hhead : c.ahead.head? = some ")" := by rw [Cursor.ahead_of_next_some next]; rfl
    obtain rfl := hc.resolve_right (not_not.2 hhead)
    exact readFrom_of_next_some next
  | .atom next noOpen noClose =>
    rw [readFrom_of_next_some next, step_of_atom noOpen noClose]
    rfl
  | .list (r := r) next inside =>
    rw [readFrom_of_next_some next]
    show readFrom ([] :: lists) _ = _
    rw [readFrom_of_readsItems inside]
    cases r <;> rfl

/-- With a list open, the reader puts the items of a descent into it, closes it and goes on. -/
theorem readFrom_of_readsItems {c c' : Cursor String} {r : Except Error (List Value)}
    (h : ReadsItems c r c') (items : List Value) (lists : Open) :
    readFrom (items :: lists) c
      = goOn (descend (r.map fun rest => .list (items.reverse ++ rest)) lists) c' := by
  match h with
  | .close accept =>
    rw [readFrom_of_next_some (Cursor.next_of_accept_some accept)]
    show goOn (finish (.list items.reverse) lists) _ = _
    simp [Except.map, descend]
  | .item (v := v) (r := r) accept head tail =>
    obtain ⟨hnot, hread⟩ := readFrom_of_accept_none accept (items :: lists)
    rw [hread, readFrom_of_reads head _ (Or.inr hnot)]
    -- The descent has put its value into the open list, in front of the items before it.
    show readFrom ((v :: items) :: lists) _ = _
    rw [readFrom_of_readsItems tail]
    cases r with
    | error x => rfl
    | ok rest => simp [Except.map]
  | .fail accept head =>
    obtain ⟨hnot, hread⟩ := readFrom_of_accept_none accept (items :: lists)
    rw [hread, readFrom_of_reads head _ (Or.inr hnot)]
    rfl

end

/-- **The reader reads by recursive descent**, whatever part of the stream is buffered. -/
theorem reads_iff {c c' : Cursor String} {r : Except Error Value} :
    Reads c r c' ↔ c.read = (r, c') := by
  have hread {r : Except Error Value} {c' : Cursor String} (h : Reads c r c') :
      c.read = (r, c') := by
    rw [Cursor.read, readFrom_of_reads h [] (Or.inl rfl)]
    cases r <;> rfl
  refine ⟨hread, fun h => ?_⟩
  obtain ⟨r', c'', hreads⟩ := (exists_reads_and_readsItems c).1
  obtain ⟨rfl, rfl⟩ := Prod.mk.inj ((hread hreads).symm.trans h)
  exact hreads

/-! ### What is accepted -/

/-- A text holds an expression if that is read from its tokens and none is left. -/
theorem parse_eq_ok_iff {source : String} {e : Value} :
    parse source = .ok e ↔ ∃ c, Reads (tokenCursor source) (.ok e) c ∧ c.ahead = [] := by
  simp only [reads_iff]
  rw [parse]
  rcases (tokenCursor source).read with ⟨x | v, c⟩
  · simp
  · simp only [Cursor.fst_atEnd, List.isEmpty_iff, Prod.mk.injEq, Except.ok.injEq]
    constructor
    · intro h
      split_ifs at h with hc
      exact ⟨c, ⟨Except.ok.inj h, rfl⟩, hc⟩
    · rintro ⟨_, ⟨rfl, rfl⟩, hc⟩
      rw [if_pos hc]

/-- Tokens make up an expression if the grammar derives them for it. -/
theorem parseTokens_eq_ok_iff {tokens : List String} {e : Value} :
    parseTokens tokens = .ok e ↔ Derives tokens e := by
  obtain ⟨hfst, hsnd⟩ := Reader.readFrom_eq [] (Cursor.ofList tokens)
  have hahead : (Cursor.ofList tokens).ahead = tokens := rfl
  rw [hahead] at hfst hsnd
  unfold parseTokens
  constructor
  · intro h
    rcases hread : Reader.readTokens [] tokens with ⟨x | v, rest⟩
    · simp [hread] at h
    · simp only [hread, List.isEmpty_iff] at h hfst hsnd
      split_ifs at h with hrest
      obtain rfl := Except.ok.inj h
      have hreads := reads_iff.2 (Prod.eta (Cursor.ofList tokens).read).symm
      obtain ⟨tokens', htokens, hderives⟩ := hreads.exists_derives hfst
      have hend : (Cursor.ofList tokens).read.2.ahead = [] := hsnd.trans hrest
      rw [hahead, hend, List.append_nil] at htokens
      rwa [htokens]
  · intro hderives
    obtain ⟨c, hreads, hc⟩ := hderives.exists_reads (hahead.trans (List.append_nil _).symm)
    have hread : Reader.readFrom [] (Cursor.ofList tokens) = (.ok e, c) := reads_iff.1 hreads
    rw [hread] at hfst hsnd
    have htokens : Reader.readTokens [] tokens = (.ok e, []) :=
      Prod.ext hfst.symm (hsnd.symm.trans hc)
    rw [htokens]
    rfl

/-- **The reader accepts exactly its grammar**, and reading comes to an end from every cursor. -/
theorem parse_eq_ok_iff_derives (source : String) (e : Value) :
    (parse source = .ok e ↔ Derives (tokenize source) e) ∧
      ∀ c : Cursor String, ∃ r c', Reads c r c' ∧ c.read = (r, c') := by
  have hahead : (tokenCursor source).ahead = tokenize source := rfl
  refine ⟨?_, fun c => ⟨c.read.1, c.read.2, reads_iff.2 rfl, rfl⟩⟩
  rw [parse_eq_ok_iff]
  constructor
  · rintro ⟨c, hreads, hc⟩
    obtain ⟨tokens, htokens, hderives⟩ := hreads.exists_derives rfl
    rw [hahead, hc, List.append_nil] at htokens
    rwa [htokens]
  · intro hderives
    exact hderives.exists_reads (by rw [hahead, List.append_nil])

end SmallLisp
