import RillLang.Proofs.Tree.Exactness
import RillLang.Proofs.Tree.Lookahead

/-!
# Parse errors come as early as they can

A parse error names the first token with which the tokens can no longer begin a program.
What stands before that token begins one, as every reader that refuses was on the way to a
phrase (`Reader.program_refuses`).  And no program begins with the same kinds up to that
token: the reader of the program would have refused the token as well
(`Reader.program_mimics_error`).

* `Derives.not_refused` — no program has kinds that are refused.
* `ofTokens_error_earliest` — both halves for whole token lists.
-/

namespace RillLang

open Grammar Reader

/-- The token where the reading of a list stopped, and what the list has after it. -/
theorem exists_found (rest : List Token) (closing : Token) (after : List Token)
    (hclosing : closing.isEnd = true) :
    ∃ more, rest ++ closing :: after = rest.headD closing :: more ∧
      kindAt rest = (rest.headD closing).kind := by
  cases rest with
  | nil => exact ⟨after, rfl, (eq_of_beq hclosing).symm⟩
  | cons t rest => exact ⟨rest ++ closing :: after, rfl, rfl⟩

/-- Where the tokens of a program with its end are split before a token, so are the tokens
of the program, and the token is seen there. -/
theorem exists_rest_of_append_end {us ts more : List Token} {t : Token} {line : Int}
    (h : us ++ [Token.endOfInput line] = ts ++ t :: more) :
    ∃ rest, us = ts ++ rest ∧ kindAt rest = t.kind := by
  rcases List.eq_nil_or_concat more with rfl | ⟨init, last, rfl⟩
  · obtain ⟨rfl, hlast⟩ := List.append_inj' h rfl
    cases hlast
    exact ⟨[], by simp, rfl⟩
  · have hsplit : us ++ [Token.endOfInput line] = (ts ++ t :: init) ++ [last] := by simpa using h
    obtain ⟨rfl, -⟩ := List.append_inj' hsplit rfl
    exact ⟨t :: init, rfl, rfl⟩

/-- No program begins with the kinds of tokens that are refused, the refused one included. -/
theorem Grammar.Derives.not_refused {limit : Nat} {ts rest us : List Token} {q : Program}
    {expected : Expected} {found : Token} {line : Int} (hq : Derives us q)
    (hread : program (ts ++ rest).length limit (ts ++ rest) = .error (.unexpected expected) rest)
    (hfound : kindAt rest = found.kind) :
    ¬ (ts ++ [found]).map Token.kind <+: (us ++ [Token.endOfInput line]).map Token.kind := by
  rintro ⟨kinds, hkinds⟩
  rw [List.map_append, List.append_assoc] at hkinds
  obtain ⟨ts', more, hsplit, hts', hmore⟩ := List.map_eq_append_iff.1 hkinds.symm
  obtain ⟨t, more', rfl, ht, -⟩ := List.map_eq_cons_iff.1 hmore
  obtain ⟨rest', rfl, hrest'⟩ := exists_rest_of_append_end hsplit
  -- a limit that is large enough to read the program does not change the refusal
  have hlarge : program (ts ++ rest).length (max limit (12 * (ts' ++ rest').length)) (ts ++ rest) =
      .error (.unexpected expected) rest :=
    (program_within _ (Nat.le_max_left _ _)).eq_error hread nofun
  have hmeets : Meets (.unexpected expected) rest rest' := ⟨by rw [hfound, hrest', ht], nofun⟩
  have hrefused := program_mimics_error hlarge hts' hmeets
  rw [program_complete hq (Nat.le_max_right _ _)] at hrefused
  cases hrefused

/-- **A parse error is reported at the earliest possible token.**  The error of a closed list
that is not too deep names a token at or before the first end-of-input token, with its line;
the tokens before it begin a program of the grammar, and no program of the grammar, with its
end, begins with the kinds of the tokens up to and including it. -/
theorem ofTokens_error_earliest (limit : Nat) {tokens : List Token} {e : ParseError}
    (hclosed : Token.Closed tokens) (herror : Program.ofTokens limit tokens = .error e)
    (hdeep : ∀ found, e ≠ .tooDeep found) :
    ∃ k found expected, k ≤ (Token.beforeEnd tokens).length ∧ tokens[k]? = some found ∧
      e = .unexpected expected found found.line ∧
      (∃ us q, Derives us q ∧ tokens.take k <+: us) ∧
      ¬ ∃ us q line, Derives us q ∧ (tokens.take (k + 1)).map Token.kind <+:
        (us ++ [Token.endOfInput line]).map Token.kind := by
  obtain ⟨before, closing, after, rfl, hbefore, hclosing⟩ := hclosed.exists_split
  rw [Program.ofTokens_split limit hbefore hclosing hclosed] at herror
  rw [Token.beforeEnd_append hbefore hclosing]
  cases hread : program before.length limit before with
  | ok p rest =>
      rw [hread] at herror
      cases herror
  | error reject rest =>
      rw [hread] at herror
      obtain rfl : reject.toParseError (rest.headD closing) = e := Except.error.inj herror
      have hreject : reject ≠ .tooDeep := by
        rintro rfl
        exact hdeep _ rfl
      obtain ⟨⟨expected, rfl⟩, ts, rfl, more, q, hq⟩ := program_refuses hread hreject
      obtain ⟨tail, htail, hk⟩ := exists_found rest closing after hclosing
      rw [List.append_assoc, htail]
      refine ⟨ts.length, rest.headD closing, expected, by simp, by simp, rfl,
        ⟨ts ++ more, q, hq, by simp⟩, ?_⟩
      rintro ⟨us, q', line, hq', hkinds⟩
      rw [List.take_length_add_append] at hkinds
      exact hq'.not_refused hread hk hkinds

/-- In `let x = (1 +` and a semicolon, the semicolon is the first token that no program has
there. -/
theorem ofTokens_error_operand_missing :
    let tokens := [Token.mark .letWord 1, .identifier "x" 1, .mark .equal 1, .mark .leftParen 1,
      .number 1 1, .mark .plus 1, .mark .semicolon 2, .endOfInput 2]
    Token.Closed tokens ∧
      Program.ofTokens 40 tokens =
        .error (.unexpected (.phrase "expression") (.mark .semicolon 2) 2) ∧
      (∃ us q, Derives us q ∧ tokens.take 6 <+: us) ∧
      ¬ ∃ us q line, Derives us q ∧
        (tokens.take 7).map Token.kind <+: (us ++ [Token.endOfInput line]).map Token.kind := by
  intro tokens
  have hclosed : Token.Closed tokens := ⟨_, rfl, rfl⟩
  have herror : Program.ofTokens 40 tokens =
      .error (.unexpected (.phrase "expression") (.mark .semicolon 2) 2) := rfl
  obtain ⟨k, found, expected, hk, hfound, he, hbegins, hearliest⟩ :=
    ofTokens_error_earliest 40 hclosed herror nofun
  cases he
  have honly : ∀ i ≤ 7, tokens[i]? = some (.mark .semicolon 2) → i = 6 := by decide
  obtain rfl : k = 6 := honly k hk hfound
  exact ⟨hclosed, herror, hbegins, hearliest⟩

end RillLang
