import SmallLisp.Proofs.Effects
import SmallLisp.Proofs.Session
import SmallLisp.Proofs.Simulation
import SmallLisp.Proofs.Text.Lines

/-!
# Lines that print a value

A line that prints a value has bound nothing, so the lines after it cannot tell if it was there.
The stores of the two runs differ only in frames of calls that nothing leads to: they correspond
along the frames that both have (`Corresponds.grows_right`), and the lines after it come to the
same in both (`runLines_of_corresponds`).

`runScript_eraseIdx` says it of scripts on a fresh global frame.
-/

namespace SmallLisp

/-- Interprets lines one after the other. -/
def runLines (depth : ℕ) (f : FrameId) (lines : List String) : Run (List LineResult) :=
  lines.mapM fun line => (interpret depth f line).run

variable {depth : ℕ} {ρ : Pairing} {f f' : FrameId} {s t : Store}

namespace Run

variable {α β : Type} {step : α → Run β} {a : α} {as : List α}

theorem mapM_cons : ((a :: as).mapM step).run s = ((step a).run s).bind fun p =>
    ((as.mapM step).run p.2).map fun q => (p.1 :: q.1, q.2) := by
  rw [List.mapM_cons]
  show ((step a).run s).bind _ = _
  congr 1
  funext ⟨b, s₁⟩
  show ((as.mapM step).run s₁).bind _ = ((as.mapM step).run s₁).map _
  rw [Option.map_eq_bind]
  rfl

/-- Steps one after the other come to an end if the first does and the others do after it. -/
theorem mapM_cons_eq_some_iff {bs : List β} {s' : Store} :
    ((a :: as).mapM step).run s = some (bs, s') ↔
      ∃ b s₁ rest, (step a).run s = some (b, s₁) ∧ (as.mapM step).run s₁ = some (rest, s') ∧
        bs = b :: rest := by
  rw [mapM_cons, Option.bind_eq_some_iff]
  constructor
  · rintro ⟨⟨b, s₁⟩, hstep, hrest⟩
    obtain ⟨⟨rest, s₂⟩, hsteps, hresults⟩ := Option.map_eq_some_iff.1 hrest
    obtain ⟨rfl, rfl⟩ := Prod.mk.inj hresults
    exact ⟨b, s₁, rest, hstep, hsteps, rfl⟩
  · rintro ⟨b, s₁, rest, hstep, hsteps, rfl⟩
    refine ⟨(b, s₁), hstep, ?_⟩
    rw [hsteps]
    rfl

end Run

theorem runLines_cons {line : String} {lines : List String} :
    (runLines depth f (line :: lines)).run s
      = ((interpret depth f line).run.run s).bind fun p =>
        ((runLines depth f lines).run p.2).map fun q => (p.1 :: q.1, q.2) :=
  Run.mapM_cons

theorem runLines_cons_eq_some_iff {line : String} {lines : List String}
    {results : List LineResult} {s' : Store} :
    (runLines depth f (line :: lines)).run s = some (results, s') ↔
      ∃ r s₁ rs, (interpret depth f line).run.run s = some (r, s₁) ∧
        (runLines depth f lines).run s₁ = some (rs, s') ∧ results = r :: rs :=
  Run.mapM_cons_eq_some_iff

/-! ### One line -/

/-- What is readable is similar to itself. -/
theorem similar_of_readable {e : Value} (h : Readable e) : Similar ρ e e :=
  Alike.self fun _ _ _ _ hheld => absurd hheld (not_holds_of_readable h)

/-- A line comes to the same in paired frames of corresponding stores. -/
theorem interpret_simulates {source : String} (hf : ρ f f') :
    Simulates ρ (fun _ => Eq) (interpret depth f source) (interpret depth f' source) := by
  have hcode : Simulates ρ Similar (ofExcept (parse source)) (ofExcept (parse source)) := by
    refine Simulates.ofExcept ?_
    cases hparse : parse source with
    | ok e => exact .ok (similar_of_readable (readable_of_parse hparse))
    | error x => exact .error x
  have htext : Simulates ρ SimilarAnswers (evalText depth f source) (evalText depth f' source) :=
    hcode.bind fun hρ he => eval_simulates depth (hρ hf) he
  refine htext.bind fun _ ho => Simulates.pure ?_
  cases ho with
  | none => rfl
  | some hv => exact congrArg some hv.text_eq

/-- A line that prints a value leaves alone what was there. -/
theorem grows_of_interpret {source text : String} {s' : Store}
    (h : (interpret depth f source).run.run s = some (.ok (some text), s')) : s.Grows s' := by
  rcases interpret_cases h with ⟨x, -, hx, -⟩ | ⟨e, log, r, -, hlog, hr⟩
  · cases hx
  · rcases r with x | _ | v
    · cases hr
    · cases hr
    · exact hlog.grows

/-- What a line comes to in one store, it comes to in a corresponding one. -/
theorem interpret_of_corresponds {source : String} {r : LineResult} {t' : Store} (hf : ρ f f')
    (hst : Corresponds ρ s t)
    (h : (interpret depth f' source).run.run t = some (r, t')) :
    ∃ s' ρ', (interpret depth f source).run.run s = some (r, s') ∧ ρ.Extends ρ' ∧
      Corresponds ρ' s' t' := by
  have hmatched : Matched ρ (fun _ => Eq) ((interpret depth f source).run.run s)
      ((interpret depth f' source).run.run t) := interpret_simulates hf hst
  rw [h] at hmatched
  generalize (interpret depth f source).run.run s = o at hmatched
  cases hmatched with
  | some hρ hstores hresults =>
    refine ⟨_, _, ?_, hρ, hstores⟩
    cases hresults with
    | ok related => rw [related]
    | error x => rfl

/-! ### Scripts -/

/-- What lines come to in one store, they come to in a corresponding one. -/
theorem runLines_of_corresponds {lines : List String} {results : List LineResult} {t' : Store}
    (hf : ρ f f') (hst : Corresponds ρ s t)
    (h : (runLines depth f' lines).run t = some (results, t')) :
    ∃ s', (runLines depth f lines).run s = some (results, s') := by
  induction lines generalizing ρ s t results with
  | nil =>
    obtain ⟨rfl, rfl⟩ := Prod.mk.inj (Option.some.inj h)
    exact ⟨s, rfl⟩
  | cons line lines ih =>
    obtain ⟨r, t₁, rs, hline, hlines, rfl⟩ := runLines_cons_eq_some_iff.1 h
    obtain ⟨s₁, ρ', hline', hρ, hst₁⟩ := interpret_of_corresponds hf hst hline
    obtain ⟨s₂, hlines'⟩ := ih (hρ hf) hst₁ hlines
    exact ⟨s₂, runLines_cons_eq_some_iff.2 ⟨r, s₁, rs, hline', hlines', rfl⟩⟩

/-- Lines without one that prints a value come to the same as with it. -/
theorem runLines_eraseIdx {lines : List String} {results : List LineResult} {t' : Store}
    (hf : ρ f f') (hst : Corresponds ρ s t)
    (h : (runLines depth f' lines).run t = some (results, t')) {i : ℕ} {text : String}
    (hi : results[i]? = some (.ok (some text))) :
    ∃ s', (runLines depth f (lines.eraseIdx i)).run s = some (results.eraseIdx i, s') := by
  induction lines generalizing ρ s t results i with
  | nil =>
    obtain ⟨rfl, -⟩ := Prod.mk.inj (Option.some.inj h)
    cases hi
  | cons line lines ih =>
    obtain ⟨r, t₁, rs, hline, hlines, rfl⟩ := runLines_cons_eq_some_iff.1 h
    cases i with
    | zero =>
      -- Only the run with the line gets new frames, and none of them is paired.
      obtain rfl := Option.some.inj hi
      have hst₁ : Corresponds ρ s t₁ := hst.grows_right (grows_of_interpret hline)
      exact runLines_of_corresponds hf hst₁ hlines
    | succ i =>
      obtain ⟨s₁, ρ', hline', hρ, hst₁⟩ := interpret_of_corresponds hf hst hline
      obtain ⟨s₂, hlines'⟩ := ih (hρ hf) hst₁ hlines hi
      rw [List.eraseIdx_cons_succ, List.eraseIdx_cons_succ]
      exact ⟨s₂, runLines_cons_eq_some_iff.2 ⟨r, s₁, _, hline', hlines', rfl⟩⟩

/-- A store with a new global frame corresponds to itself. -/
theorem corresponds_root (s : Store) :
    Corresponds (fun g g' => g = s.root.1 ∧ g' = s.root.1) s.root.2 s.root.2 := by
  refine ⟨?_, ?_⟩
  · rintro g g' h h' ⟨rfl, rfl⟩ ⟨rfl, rfl⟩
    exact iff_of_true rfl rfl
  · rintro g g' ⟨rfl, rfl⟩
    have hframe := s.frames_root
    refine ⟨_, _, hframe, hframe, ?_, .none⟩
    apply List.forall₂_same.2
    intro p hp
    exact ⟨rfl, Alike.atom (isAtomic_of_mem_standardBindings hp)⟩

/-- Any lines of a text without some of them are the lines of a text. -/
theorem exists_scriptLines_eq {source : String} {lines : List String}
    (h : lines.Sublist (scriptLines source)) : ∃ source', scriptLines source' = lines := by
  have hmem : ∀ line ∈ lines, line ∈ Text.lines source ∧ (!Text.isBlank line) = true := by
    intro line hline
    exact List.mem_filter.1 (h.subset hline)
  refine ⟨String.ofList (lines.flatMap fun line => line.toList ++ ['\r', '\n']), ?_⟩
  unfold scriptLines
  rw [Text.lines_join fun line hline => Text.not_mem_of_mem_lines (hmem line hline).1]
  exact List.filter_eq_self.2 fun line hline => (hmem line hline).2

/-- **Lines that print a value are transparent**: a script without such a line, which is a script
too, comes to what it comes to with it on all other lines. -/
theorem runScript_eraseIdx {source : String} {results : List LineResult} {s₀ s : Store}
    (h : (runScript depth s₀.root.1 source).run s₀.root.2 = some (results, s)) {i : ℕ}
    {text : String} (hi : results[i]? = some (.ok (some text))) :
    (∃ source', scriptLines source' = (scriptLines source).eraseIdx i) ∧
      ∀ source', scriptLines source' = (scriptLines source).eraseIdx i →
        ∃ s', (runScript depth s₀.root.1 source').run s₀.root.2
          = some (results.eraseIdx i, s') := by
  refine ⟨exists_scriptLines_eq (List.eraseIdx_sublist ..), fun source' hsource' => ?_⟩
  have herase := runLines_eraseIdx ⟨rfl, rfl⟩ (corresponds_root s₀) h hi
  rw [← hsource'] at herase
  exact herase

/-- A call between two definitions can be left out. -/
theorem runScript_eraseIdx_call : ∃ s s',
    (runScript 3 Store.empty.root.1 "(define a 1)\n((lambda (x) 7) 2)\n(define b 3)").run
        Store.empty.root.2 = some ([.ok none, .ok (some "7"), .ok none], s) ∧
      (runScript 3 Store.empty.root.1 "(define a 1)\n(define b 3)").run Store.empty.root.2
        = some ([.ok none, .ok none], s') := by
  have hlines : scriptLines "(define a 1)\n((lambda (x) 7) 2)\n(define b 3)"
      = ["(define a 1)", "((lambda (x) 7) 2)", "(define b 3)"] := by decide +kernel
  have hlines' : scriptLines "(define a 1)\n(define b 3)" = ["(define a 1)", "(define b 3)"] := by
    decide +kernel
  have hfirst : tokenize "(define a 1)" = ["(", "define", "a", "1", ")"] := by decide +kernel
  have hcall : tokenize "((lambda (x) 7) 2)"
      = ["(", "(", "lambda", "(", "x", ")", "7", ")", "2", ")"] := by decide +kernel
  have hlast : tokenize "(define b 3)" = ["(", "define", "b", "3", ")"] := by decide +kernel
  have hrun : (runScript 3 Store.empty.root.1
      "(define a 1)\n((lambda (x) 7) 2)\n(define b 3)").run Store.empty.root.2
        = some ([.ok none, .ok (some "7"), .ok none],
          ((Store.empty.root.2.set 0 "a" (.int 1)).stamp.2.nested ["x"] [.int 2] 0).2.set 0 "b"
            (.int 3)) := by
    show (runLines 3 0 (scriptLines _)).run _ = _
    rw [hlines, runLines_cons, interpret_run, evalText_run, parse_eq, hfirst]
    show ((runLines 3 0 _).run (Store.empty.root.2.set 0 "a" (.int 1))).map _ = _
    rw [runLines_cons, interpret_run, evalText_run, parse_eq, hcall]
    show (((runLines 3 0 _).run _).map _).map _ = _
    rw [runLines_cons, interpret_run, evalText_run, parse_eq, hlast]
    rfl
  obtain ⟨-, hall⟩ := runScript_eraseIdx hrun (i := 1) rfl
  obtain ⟨s', hs'⟩ := hall _ (hlines'.trans (by rw [hlines]; rfl))
  exact ⟨_, s', hrun, hs'⟩

end SmallLisp
