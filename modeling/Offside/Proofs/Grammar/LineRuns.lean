import Offside.Proofs.Grammar.Tolerance

/-! One line end is as good as many.

A run of line ends is read like the first of them, wherever it stands: tokens are their own collapsed
form with line ends put in after line ends, where there is always room. So two token sequences that
collapse to the same are read to the same program, or rejected for the same cause. -/
namespace Offside

/-- The tokens with each run of line ends cut down to the first of them. -/
def collapse : List Token → List Token
  | [] => []
  | t :: ts => if t.kind = .newline then t :: skip (collapse ts) else t :: collapse ts

/-- After a line end there is room for the others of its run. -/
theorem padded_collapse (ts : List Token) : Grammar.Padded (collapse ts) ts := by
  induction ts with
  | nil => exact .nil
  | cons t ts ih =>
    rw [collapse]
    by_cases ht : t.kind = .newline
    · obtain ⟨ns, hblank, hts⟩ := eq_blank_append_skip ts
      have hrun : Grammar.Padded (t :: skip (collapse ts)) (t :: (ns ++ skip ts)) :=
        .cons rfl hblank (fun _ => .inl ht) ih.skip
      rw [if_pos ht]
      rwa [← hts] at hrun
    · rw [if_neg ht]
      show Grammar.Padded (t :: collapse ts) (t :: ([] ++ ts))
      exact .cons rfl Parser.blank_nil (fun hne => absurd rfl hne) ih

theorem SameOutcome.symm {r r' : Except ParseError Program} (h : SameOutcome r r') :
    SameOutcome r' r := by
  cases h with
  | ok hbare => exact .ok hbare.symm
  | error hcause => exact .error hcause.symm

theorem SameOutcome.trans {r r' r'' : Except ParseError Program} (h : SameOutcome r r')
    (h' : SameOutcome r' r'') : SameOutcome r r'' := by
  cases h with
  | ok hbare =>
    cases h' with
    | ok hbare' => exact .ok (hbare.trans hbare')
  | error hcause =>
    cases h' with
    | error hcause' => exact .error (hcause.trans hcause')

/-- **Reading sees kinds, texts and where line ends stand, not how many.** Token sequences that look
the same, runs of line ends collapsed, are both accepted, as the same program but for spans, or both
rejected for the same cause and so with the same message. -/
theorem parse_of_collapse (ts us : List Token)
    (h : (collapse ts).map Token.look = (collapse us).map Token.look) :
    (∃ p q, parse ts = .ok p ∧ parse us = .ok q ∧ p.bare = q.bare) ∨
      ∃ e e', parse ts = .error e ∧ parse us = .error e' ∧ e.cause = e'.cause ∧
        e.cause.message = e'.cause.message := by
  have hts := parse_of_padded (padded_collapse ts)
  have hus := parse_of_padded (padded_collapse us)
  have hcollapsed := parse_of_padded (.of_looks h)
  have hsame := (hts.symm.trans hcollapsed).trans hus
  generalize parse ts = r at hsame
  generalize parse us = r' at hsame
  cases hsame with
  | @ok p q hbare => exact .inl ⟨p, q, rfl, rfl, hbare⟩
  | @error e e' hcause => exact .inr ⟨e, e', rfl, rfl, hcause, congrArg _ hcause⟩

/-- Line ends with and without texts, in runs after a name, before a level and after a statement. -/
theorem parse_of_collapse_texts :
    let token := fun (line : Nat) (kind : Kind) (text : String) =>
      (⟨kind, .single ⟨line, 1, "f"⟩, text⟩ : Token)
    let ts := [token 1 .classWord "class", token 1 .word "a", token 1 .newline "", token 2 .indent "",
      token 2 .word "m", token 2 .leftParen "(", token 2 .rightParen ")", token 2 .newline "",
      token 3 .indent "", token 3 .newline "x", token 4 .word "b", token 4 .leftParen "(",
      token 4 .rightParen ")", token 4 .newline "", token 5 .dedent "", token 5 .dedent ""]
    let us := [token 7 .classWord "class", token 7 .word "a", token 7 .newline "y", token 8 .newline "",
      token 9 .newline "z", token 9 .indent "", token 9 .word "m", token 9 .leftParen "(",
      token 9 .rightParen ")", token 9 .newline "", token 9 .newline "", token 9 .indent "",
      token 9 .newline "", token 9 .newline "", token 9 .word "b", token 9 .leftParen "(",
      token 9 .rightParen ")", token 9 .newline "", token 9 .newline "", token 9 .dedent "",
      token 9 .dedent ""]
    (collapse ts).map Token.look = (collapse us).map Token.look ∧
      ∃ p q, parse ts = .ok p ∧ parse us = .ok q ∧ p.bare = q.bare := by
  intro token ts us
  have hlooks : (collapse ts).map Token.look = (collapse us).map Token.look := by decide +kernel
  have haccepted : (parse ts).isOk = true := by decide +kernel
  refine ⟨hlooks, (parse_of_collapse ts us hlooks).resolve_right ?_⟩
  rintro ⟨e, e', hrejected, -⟩
  rw [hrejected] at haccepted
  cases haccepted

end Offside
