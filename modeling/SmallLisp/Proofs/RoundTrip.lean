import SmallLisp.Proofs.Binary64.Text
import SmallLisp.Proofs.Equality
import SmallLisp.Proofs.Reader
import SmallLisp.Value.Printer

/-!
# Reading back what was written

What the reader makes is readable (`Readable`): numbers, symbols that are words and would not be
read as numbers, and lists of these (`readable_of_parse`).  What is readable reads back as it was
(`parse_text`).

The second half follows the text through the layers, for every value whose leaves are written as
words (`Value.Legible`).  The tokens of the text of such a value are its own tokens, `Value.tokens`
(`splitTokens_text`), as long as a break or nothing follows; and the reader makes of these tokens
the value with each leaf read back by itself, `Value.reread`, whatever lists are open and whatever
follows (`readTokens_tokens`).  The leaves of a readable value are words, and `atom` takes these
back (`Readable.atom_text`).
-/

namespace SmallLisp

/-! ### What the reader makes -/

/-- What the reader can make: no truth values or procedures, and no symbol that is no word or
looks like a number. -/
inductive Readable : Value → Prop
  | int (n : Int64) : Readable (.int n)
  | real (x : Binary64) : Readable (.real x)
  | symbol {name : String} (word : IsWord name.toList) (self : atom name = .symbol name) :
      Readable (.symbol name)
  | list {items : List Value} (readable : ∀ v ∈ items, Readable v) : Readable (.list items)

theorem readable_atom {token : String} (h : IsWord token.toList) : Readable (atom token) := by
  rcases hn : int64? token with _ | n
  · rcases hx : Numeral.real? token.toList with _ | x
    · have hatom : atom token = .symbol token := by simp [atom, hn, hx]
      rw [hatom]
      exact .symbol h hatom
    · have hatom : atom token = .real x := by simp [atom, hn, hx]
      rw [hatom]
      exact .real x
  · have hatom : atom token = .int n := by simp [atom, hn]
    rw [hatom]
    exact .int n

namespace Reader

/-- Lists that are open, with readable items. -/
def ReadableLists (lists : Open) : Prop := ∀ items ∈ lists, ∀ v ∈ items, Readable v

/-- A step keeps the open lists readable, and ends with a readable value if it ends. -/
theorem readable_finish {lists : Open} {v : Value} (hv : Readable v) (h : ReadableLists lists) :
    (∀ w, finish v lists = .done w → Readable w) ∧
      ∀ lists', finish v lists = .more lists' → ReadableLists lists' := by
  rcases lists with _ | ⟨items, outer⟩
  · refine ⟨?_, by simp [finish]⟩
    rintro w ⟨⟩
    exact hv
  · refine ⟨by simp [finish], ?_⟩
    rintro lists' ⟨⟩
    rintro items' hmem w hw
    rcases List.mem_cons.mp hmem with rfl | hmem
    · rcases List.mem_cons.mp hw with rfl | hw
      · exact hv
      · exact h items (List.mem_cons_self ..) w hw
    · exact h items' (List.mem_cons_of_mem _ hmem) w hw

theorem readable_step {lists : Open} {token : String}
    (ht : token = "(" ∨ token = ")" ∨ IsWord token.toList) (h : ReadableLists lists) :
    (∀ w, step lists token = .done w → Readable w) ∧
      ∀ lists', step lists token = .more lists' → ReadableLists lists' := by
  unfold step
  split_ifs with hopen hclose
  · -- One more list is open, with no items yet.
    refine ⟨by simp, ?_⟩
    rintro lists' ⟨⟩
    rintro items hmem v hv
    rcases List.mem_cons.mp hmem with rfl | hmem
    · exact absurd hv (List.not_mem_nil)
    · exact h items hmem v hv
  · rcases lists with _ | ⟨items, outer⟩
    · exact ⟨by simp, by simp⟩
    · -- The innermost list is closed and becomes an item of the one around it.
      refine readable_finish (.list fun v hv => ?_) fun l hl => h l (List.mem_cons_of_mem _ hl)
      exact h items (List.mem_cons_self ..) v (List.mem_reverse.mp hv)
  · have hword : IsWord token.toList := by simpa [hopen, hclose] using ht
    exact readable_finish (readable_atom hword) h

theorem readable_readTokens {tokens : List String}
    (ht : ∀ t ∈ tokens, t = "(" ∨ t = ")" ∨ IsWord t.toList) {lists : Open}
    (h : ReadableLists lists) {v : Value} (hv : (readTokens lists tokens).1 = .ok v) :
    Readable v := by
  induction tokens generalizing lists with
  | nil => simp [readTokens] at hv
  | cons t tokens ih =>
    obtain ⟨hdone, hmore⟩ := readable_step (ht t (List.mem_cons_self ..)) h
    rw [readTokens_cons] at hv
    rcases hs : step lists t with w | lists' | e
    · rw [hs, resume_done] at hv
      obtain rfl : w = v := Except.ok.inj hv
      exact hdone w hs
    · rw [hs, resume_more] at hv
      have ht' : ∀ t ∈ tokens, t = "(" ∨ t = ")" ∨ IsWord t.toList := by
        intro t' hmem
        exact ht t' (List.mem_cons_of_mem _ hmem)
      exact ih ht' (hmore lists' hs) hv
    · simp [hs] at hv

end Reader

/-- What the reader makes is readable. -/
theorem readable_of_parse {source : String} {e : Value} (h : parse source = .ok e) :
    Readable e := by
  rw [parse_eq, parseTokens] at h
  rcases hread : Reader.readTokens [] (tokenize source) with ⟨_ | v, rest⟩
  · simp [hread] at h
  · obtain rfl : v = e := by
      simp only [hread] at h
      split_ifs at h
      exact Except.ok.inj h
    have htokens : ∀ t ∈ tokenize source, t = "(" ∨ t = ")" ∨ IsWord t.toList := by
      rw [tokenize_eq]
      exact fun t => isToken_of_mem_splitTokens
    have hlists : Reader.ReadableLists [] := by rintro items ⟨⟩
    exact Reader.readable_readTokens htokens hlists (by rw [hread])

/-! ### Leaves -/

theorem int64?_toString (n : Int64) : int64? (toString n.toInt) = some n := by
  have hlow := n.le_toInt
  have hhigh := n.toInt_lt
  rw [int64?, Numeral.integer?_toString, Option.bind_some, if_pos ⟨hlow, hhigh⟩, Int64.ofInt_toInt]

theorem isWord_toString (z : ℤ) : IsWord (toString z).toList := by
  refine ⟨?_, fun a => Decimal.isWordChar_toString⟩
  intro hnil
  have h := Numeral.integer?_toString z
  rw [hnil] at h
  simp [Numeral.integer?, Numeral.splitSign] at h

/-- The text of a leaf is a word, which is the leaf again. -/
theorem Readable.atom_text {v : Value} (h : Readable v) (hv : v.isList = false) :
    IsWord v.text.toList ∧ atom v.text = v := by
  cases h with
  | int n =>
    have htext : (Value.int n).text = toString n.toInt := by rw [Value.text, Value.textWith]
    rw [htext]
    refine ⟨isWord_toString _, ?_⟩
    rw [atom, int64?_toString]
  | real x =>
    have htext : (Value.real x).text = x.text := by rw [Value.text, Value.textWith]
    rw [htext]
    refine ⟨x.isWord_text, ?_⟩
    rw [atom, int64?, x.integer?_text, Option.bind_none, x.real?_text]
  | @symbol name word self =>
    have htext : (Value.symbol name).text = name := by rw [Value.text, Value.textWith]
    rw [htext]
    exact ⟨word, self⟩
  | list => simp [Value.isList] at hv

/-! ### Values that are written in words -/

namespace Value

/-- Whether every leaf of a value, which is whatever is no list, is written as a word. -/
inductive Legible : Value → Prop
  | leaf {v : Value} (leaf : v.isList = false) (word : IsWord v.text.toList) : Legible v
  | list {items : List Value} (legible : ∀ v ∈ items, Legible v) : Legible (.list items)

mutual

/-- A value with each leaf read back from its text. -/
def reread : Value → Value
  | list items => list (rereadItems items)
  | v => atom v.text

/-- Several values with their leaves read back. -/
def rereadItems : List Value → List Value
  | [] => []
  | v :: vs => reread v :: rereadItems vs

end

theorem reread_of_leaf {v : Value} (hv : v.isList = false) : v.reread = atom v.text := by
  cases v with
  | list items => simp [isList] at hv
  | _ => rfl

theorem rereadItems_eq_map (vs : List Value) : rereadItems vs = vs.map reread := by
  induction vs with
  | nil => rfl
  | cons v vs ih => rw [rereadItems, ih, List.map_cons]

theorem reread_list (items : List Value) : (list items).reread = list (items.map reread) := by
  rw [reread, rereadItems_eq_map]

end Value

/-- Readable values are written in words and read back as they were. -/
theorem Readable.legible_and_reread_eq {v : Value} (h : Readable v) : v.Legible ∧ v.reread = v := by
  have hleaf {u : Value} (hu : Readable u) (hl : u.isList = false) :
      u.Legible ∧ u.reread = u := by
    obtain ⟨hword, hatom⟩ := hu.atom_text hl
    exact ⟨.leaf hl hword, (Value.reread_of_leaf hl).trans hatom⟩
  induction h with
  | int n => exact hleaf (.int n) rfl
  | real x => exact hleaf (.real x) rfl
  | symbol word self => exact hleaf (.symbol word self) rfl
  | list _ ih =>
    refine ⟨.list fun v hv => (ih v hv).1, ?_⟩
    rw [Value.reread_list, List.map_congr_left fun v hv => (ih v hv).2, List.map_id']

/-! ### Tokens of a text -/

namespace Value

mutual

/-- The tokens of the text of a value. -/
def tokens : Value → List String
  | list items => "(" :: (itemTokens items ++ [")"])
  | v => [v.text]

/-- The tokens of the texts of several values. -/
def itemTokens : List Value → List String
  | [] => []
  | v :: vs => tokens v ++ itemTokens vs

end

theorem tokens_of_leaf {v : Value} (hv : v.isList = false) : v.tokens = [v.text] := by
  cases v with
  | list items => simp [isList] at hv
  | _ => rfl

theorem text_list (items : List Value) :
    (list items).text = "(" ++ " ".intercalate (items.map text) ++ ")" := by
  rw [text, textWith, textsWith_eq_map]
  rfl

end Value

theorem breaksOff_cons {a : Char} (h : isWordChar a = false) (cs : List Char) :
    BreaksOff (a :: cs) := by
  rintro b ⟨⟩
  exact h

/-- The tokens of items in parentheses, given those of the items. -/
theorem splitTokens_items {items : List Value}
    (h : ∀ v ∈ items, ∀ rest, BreaksOff rest →
      splitTokens (v.text.toList ++ rest) = v.tokens ++ splitTokens rest) (rest : List Char) :
    splitTokens ((" ".intercalate (items.map Value.text)).toList ++ ')' :: rest)
      = Value.itemTokens items ++ ")" :: splitTokens rest := by
  induction items with
  | nil =>
    rw [List.map_nil, String.intercalate_nil, Value.itemTokens]
    exact splitTokens_paren (by decide) rest
  | cons v vs ih =>
    have hv := h v (List.mem_cons_self ..)
    -- The last item is followed by the parenthesis, any other one by a blank.
    rcases vs with _ | ⟨w, vs⟩
    · rw [List.map_singleton, String.intercalate_singleton, hv _ (breaksOff_cons (by decide) _),
        splitTokens_paren (by decide), Value.itemTokens, Value.itemTokens, List.append_nil]
    · have hsplit : (" ".intercalate ((v :: w :: vs).map Value.text)).toList ++ ')' :: rest
          = v.text.toList
            ++ ' ' :: ((" ".intercalate ((w :: vs).map Value.text)).toList ++ ')' :: rest) := by
        simp [String.intercalate_cons_cons]
      rw [hsplit, hv _ (breaksOff_cons (by decide) _), splitTokens_blank (by decide),
        ih fun u hu => h u (List.mem_cons_of_mem _ hu), Value.itemTokens.eq_2 v,
        List.append_assoc]

/-- The tokens of the text of a legible value, with anything behind it that ends a word. -/
theorem splitTokens_text {v : Value} (h : v.Legible) :
    ∀ rest, BreaksOff rest →
      splitTokens (v.text.toList ++ rest) = v.tokens ++ splitTokens rest := by
  induction h with
  | leaf leaf word =>
    intro rest hrest
    rw [splitTokens_word word hrest, String.ofList_toList, Value.tokens_of_leaf leaf]
    rfl
  | list _ ih =>
    rename_i items _
    intro rest _
    have hsplit : (Value.list items).text.toList ++ rest
        = '(' :: ((" ".intercalate (items.map Value.text)).toList ++ ')' :: rest) := by
      simp [Value.text_list]
    rw [hsplit, splitTokens_paren (by decide), splitTokens_items ih, Value.tokens]
    simp

/-! ### Reading the tokens -/

namespace Reader

theorem step_of_word {token : String} (h : IsWord token.toList) (lists : Open) :
    step lists token = finish (atom token) lists := by
  have hopen : token ≠ "(" := by
    rintro rfl
    exact absurd (h.2 '(' (by simp)) (by decide)
  have hclose : token ≠ ")" := by
    rintro rfl
    exact absurd (h.2 ')' (by simp)) (by decide)
  unfold step
  rw [if_neg hopen, if_neg hclose]

/-- Reading items up to their closing parenthesis, given how one is read. -/
theorem readTokens_items {items : List Value}
    (h : ∀ v ∈ items, ∀ lists rest,
      readTokens lists (v.tokens ++ rest) = resume (finish v.reread lists) rest)
    (read : List Value) (lists : Open) (rest : List String) :
    readTokens (read :: lists) (Value.itemTokens items ++ ")" :: rest)
      = resume (finish (.list (read.reverse ++ items.map Value.reread)) lists) rest := by
  induction items generalizing read with
  | nil =>
    rw [Value.itemTokens, List.nil_append, readTokens_cons, List.map_nil, List.append_nil]
    rfl
  | cons v vs ih =>
    rw [Value.itemTokens, List.append_assoc, h v (List.mem_cons_self ..), finish, resume_more,
      ih (fun u hu => h u (List.mem_cons_of_mem _ hu)), List.reverse_cons, List.append_assoc,
      List.singleton_append, List.map_cons]

/-- The tokens of a legible value are read as that value with its leaves read back, wherever it
stands. -/
theorem readTokens_tokens {v : Value} (h : v.Legible) :
    ∀ lists rest, readTokens lists (v.tokens ++ rest) = resume (finish v.reread lists) rest := by
  induction h with
  | leaf leaf word =>
    intro lists rest
    rw [Value.tokens_of_leaf leaf, List.singleton_append, readTokens_cons, step_of_word word,
      Value.reread_of_leaf leaf]
  | list _ ih =>
    intro lists rest
    rw [Value.tokens, List.cons_append, readTokens_cons, List.append_assoc, List.singleton_append,
      Value.reread_list]
    exact readTokens_items ih [] lists rest

end Reader

/-- The text of a legible value reads back with every leaf in its place. -/
theorem parse_text_of_legible {e : Value} (h : e.Legible) : parse e.text = .ok e.reread := by
  have htokens : tokenize e.text = e.tokens ++ [] := by
    have hsplit := splitTokens_text h [] (by rintro a ⟨⟩)
    rw [List.append_nil, splitTokens_nil] at hsplit
    rw [tokenize_eq, hsplit]
  rw [parse_eq, parseTokens, htokens, Reader.readTokens_tokens h]
  rfl

/-- The text of a readable value reads back as that value. -/
theorem parse_text {e : Value} (h : Readable e) : parse e.text = .ok e := by
  obtain ⟨hlegible, hreread⟩ := h.legible_and_reread_eq
  rw [parse_text_of_legible hlegible, hreread]

/-! ### The round trip -/

/-- **Reading back**: the text of whatever was read reads back, as the same expression down to its
leaves.  So the two are equal unless they hold `nan`, and they have the same text. -/
theorem parse_text_of_parse {source : String} {e : Value} (h : parse source = .ok e) :
    ∃ e', parse e.text = .ok e' ∧ e' = e ∧ (e.holdsNan = false → e'.same e = true) ∧
      e'.text = e.text := by
  refine ⟨e, parse_text (readable_of_parse h), rfl, fun hnan => ?_, rfl⟩
  rw [Value.same_self, hnan]
  rfl

/-- An expression with a negative zero, a symbol that is almost a number and `nan`. -/
theorem parse_text_of_parse_mixed :
    parse "(1e (-0.0 NaN) -7)"
        = .ok (.list [.symbol "1e", .list [.real (.zero true), .real .nan], .int (-7)]) ∧
      ∃ e', parse "(1e (-0.0 NaN) -7)" = .ok e' ∧
        e' = .list [.symbol "1e", .list [.real (.zero true), .real .nan], .int (-7)] := by
  have hself : atom "1e" = .symbol "1e" := by rfl
  have hword : IsWord "1e".toList := isWord_of_all (by decide) (by decide)
  have hreadable : Readable
      (.list [.symbol "1e", .list [.real (.zero true), .real .nan], .int (-7)]) := by
    refine .list fun v hv => ?_
    simp only [List.mem_cons, List.not_mem_nil, or_false] at hv
    rcases hv with rfl | rfl | rfl
    · exact .symbol hword hself
    · refine .list fun v hv => ?_
      simp only [List.mem_cons, List.not_mem_nil, or_false] at hv
      rcases hv with rfl | rfl
      · exact .real _
      · exact .real _
    · exact .int _
  have htext : (Value.list [.symbol "1e", .list [.real (.zero true), .real .nan], .int (-7)]).text
      = "(1e (-0.0 NaN) -7)" := by decide +kernel
  have hparse := parse_text hreadable
  obtain ⟨e', he', heq, -⟩ := parse_text_of_parse hparse
  rw [htext] at hparse he'
  exact ⟨hparse, e', he', heq⟩

end SmallLisp
