import RillLang.Proofs.Machine.Lines
import RillLang.Proofs.Tree.Earliest

/-!
# Layout carries no meaning

The lines of tokens end up in the nodes of a tree and in messages, and nowhere else.  Lists
of the same lexemes on different lines are parsed alike: to programs that differ in their
lines only, or to errors about the token at the same place.  And programs that differ in
their lines only run alike.

For lists that are parsed, the readers take the same path (`Reader.mimics_program`), and
the trees can differ in nothing but lines, since the grammar has one tree for each list
(`Grammar.Derives.alike`).  For lists that are refused, the readers stop in the same
place for the same reason.
-/

namespace RillLang

open Grammar Reader

/-! ## Closed lists on other lines -/

namespace Token

theorem isEnd_eq_of_lexeme {t t' : Token} (h : t'.lexeme = t.lexeme) : t'.isEnd = t.isEnd := by
  rw [isEnd, isEnd, kind, kind, h]

theorem SameBy.isEnd_eq_false {ts ts' : List Token} (h : SameLexemes ts ts')
    (hopen : ∀ t ∈ ts, t.isEnd = false) : ∀ t' ∈ ts', t'.isEnd = false := by
  intro t' ht'
  have hmem : t'.lexeme ∈ ts.map lexeme := h ▸ List.mem_map_of_mem ht'
  obtain ⟨t, ht, hlexeme⟩ := List.mem_map.1 hmem
  rw [isEnd_eq_of_lexeme hlexeme.symm]
  exact hopen t ht

theorem Closed.relined {tokens tokens' : List Token} (h : Closed tokens)
    (hsame : SameLexemes tokens tokens') : Closed tokens' := by
  obtain ⟨last, hlast, hend⟩ := h
  have hmap : tokens'.getLast?.map lexeme = some last.lexeme := by
    rw [← List.getLast?_map, hsame, List.getLast?_map, hlast]
    rfl
  obtain ⟨last', hlast', hlexeme⟩ := Option.map_eq_some_iff.1 hmap
  exact ⟨last', hlast', by rw [isEnd_eq_of_lexeme hlexeme, hend]⟩

end Token

/-! ## Programs on other lines -/

/-- The same lexemes spell the same program, up to lines. -/
theorem Grammar.Derives.alike {ts ts' : List Token} {p p' : Program} (h : Derives ts p)
    (h' : Derives ts' p') (hsame : Token.SameLexemes ts ts') : p.alike p' = true := by
  obtain ⟨ss, hss, herase⟩ := h.relined hsame
  have hrelined : Derives ts' ⟨ss⟩ := hss
  rw [h'.unique hrelined]
  exact (Node.alikeList_iff _ _).2 herase.symm

/-- The readings of two programs that differ in lines only: both are read, or both are
refused for the same reason and with as many tokens taken. -/
theorem Reader.program_relined (limit : Nat) {tokens tokens' : List Token}
    (hopen : ∀ t ∈ tokens, t.isEnd = false) (hsame : Token.SameLexemes tokens tokens') :
    (∃ p p', program tokens.length limit tokens = .ok p [] ∧
        program tokens'.length limit tokens' = .ok p' []) ∨
      ∃ reject ts rest ts' rest', tokens = ts ++ rest ∧ tokens' = ts' ++ rest' ∧
        ts'.length = ts.length ∧ program tokens.length limit tokens = .error reject rest ∧
        program tokens'.length limit tokens' = .error reject rest' := by
  have hmimics := mimics_program tokens.length tokens'.length limit
  cases hread : program tokens.length limit tokens with
  | ok p rest =>
      obtain rfl := program_rest_eq_nil hopen hread
      have hall : program tokens.length limit (tokens ++ []) = .ok p [] := by
        rwa [List.append_nil]
      obtain ⟨p', hread'⟩ : ∃ p', program tokens'.length limit (tokens' ++ []) = .ok p' [] :=
        hmimics.ok (by simp) hall hsame.sameKinds rfl (by simp)
      rw [List.append_nil] at hread'
      exact .inl ⟨p, p', rfl, hread'⟩
  | error reject rest =>
      obtain ⟨ts, rfl⟩ := (hmimics.leaves tokens).of_error hread
      obtain ⟨ts', rest', rfl, hts, hrest⟩ := hsame.append_left
      have hmeets : Meets reject rest rest' := ⟨hrest.sameKinds.kindAt_eq, fun _ => hrest.sameKinds⟩
      exact .inr ⟨reject, ts, rest, ts', rest', rfl, rfl, hts.length_eq, rfl,
        program_mimics_error hread hts.sameKinds hmeets⟩

namespace Program

/-- The outcomes of parsing two lists agree: two programs that differ in lines only, or two
errors about the token at the same place in its list, for the same reason.  The reason says
what was expected. -/
inductive ParsedAlike (tokens tokens' : List Token) :
    Except ParseError Program → Except ParseError Program → Prop
  | ok {p p' : Program} : p.alike p' = true → ParsedAlike tokens tokens' (.ok p) (.ok p')
  | error {reject : Reject} {k : Nat} {found found' : Token} : reject ≠ .stalled →
      tokens[k]? = some found → tokens'[k]? = some found' →
      ParsedAlike tokens tokens' (.error (reject.toParseError found))
        (.error (reject.toParseError found'))

/-- Lists of the same lexemes are parsed alike. -/
theorem parsedAlike_relined (limit : Nat) {tokens tokens' : List Token}
    (hclosed : Token.Closed tokens) (hsame : Token.SameLexemes tokens tokens') :
    ParsedAlike tokens tokens' (ofTokens limit tokens) (ofTokens limit tokens') := by
  -- the first end-of-input tokens of the lists stand in the same place
  have hclosed' := hclosed.relined hsame
  obtain ⟨before, closing, after, rfl, hbefore, hclosing⟩ := hclosed.exists_split
  obtain ⟨before', others, rfl, hsameBefore, hothers⟩ := hsame.append_left
  obtain ⟨closing', after', rfl, hlexeme, -⟩ := hothers.cons_left
  have hbefore' := hsameBefore.isEnd_eq_false hbefore
  have hclosing' : closing'.isEnd = true := by rw [Token.isEnd_eq_of_lexeme hlexeme, hclosing]
  rw [ofTokens_split limit hbefore hclosing hclosed,
    ofTokens_split limit hbefore' hclosing' hclosed']
  rcases program_relined limit hbefore hsameBefore with ⟨p, p', hread, hread'⟩ |
    ⟨reject, ts, rest, ts', rest', rfl, rfl, hlength, hread, hread'⟩
  · rw [hread, hread']
    exact .ok ((program_sound hbefore hread).alike (program_sound hbefore' hread') hsameBefore)
  · rw [hread, hread']
    have hstalled : reject ≠ .stalled := by
      rintro rfl
      obtain ⟨⟨expected, hexpected⟩, -⟩ := program_refuses hread nofun
      cases hexpected
    obtain ⟨more, hmore, -⟩ := exists_found rest closing after hclosing
    obtain ⟨more', hmore', -⟩ := exists_found rest' closing' after' hclosing'
    refine .error (k := ts.length) hstalled ?_ ?_
    · rw [List.append_assoc, hmore]
      simp
    · rw [List.append_assoc, hmore', ← hlength]
      simp

end Program

/-- **Layout carries no meaning.**  Two closed lists of the same lexemes, on whatever lines, are
parsed alike: to programs that differ in lines only, or to errors with the same expectation
about the token at the same place.  And two programs that differ in lines only run the same
from every machine: they print the same, leave the same scopes, and end with the same
success or fault. -/
theorem layout_carries_no_meaning [Closing] :
    (∀ limit tokens tokens', Token.Closed tokens → Token.SameLexemes tokens tokens' →
      Program.ParsedAlike tokens tokens' (Program.ofTokens limit tokens)
        (Program.ofTokens limit tokens')) ∧
    ∀ p q : Program, p.alike q = true →
      ∀ limit rounds m, p.interpret limit rounds m = q.interpret limit rounds m := by
  refine ⟨fun limit tokens tokens' hclosed hsame => ?_, fun p q halike limit rounds m => ?_⟩
  · exact Program.parsedAlike_relined limit hclosed hsame
  · rw [Program.interpret_eq_of_alike halike]

/-- The statement `x = x - 1;` on one line and over three, and the same without its last
operand, where the semicolon is what both lists are refused for. -/
theorem layout_of_split_statement :
    let tokens := [Token.identifier "x" 1, .mark .equal 1, .identifier "x" 1, .mark .minus 1,
      .number 1 1, .mark .semicolon 1, .endOfInput 1]
    let tokens' := [Token.identifier "x" 1, .mark .equal 2, .identifier "x" 2, .mark .minus 3,
      .number 1 3, .mark .semicolon 3, .endOfInput 4]
    (∃ p p', Program.ofTokens 40 tokens = .ok p ∧ Program.ofTokens 40 tokens' = .ok p' ∧
      p.alike p' = true ∧
      ∀ limit rounds m, p.interpret limit rounds m = p'.interpret limit rounds m) ∧
    Program.ParsedAlike (tokens.eraseIdx 4) (tokens'.eraseIdx 4)
      (.error (.unexpected (.phrase "expression") (.mark .semicolon 1) 1))
      (.error (.unexpected (.phrase "expression") (.mark .semicolon 3) 3)) := by
  intro tokens tokens'
  refine ⟨?_, ?_⟩
  · have hparsed := layout_carries_no_meaning.1 40 tokens tokens' ⟨_, rfl, rfl⟩ rfl
    have hok : Program.ofTokens 40 tokens = .ok ⟨[.exprStmt 1 (.assign 1 "x"
        (.binary 1 (some (.binary .subtract)) (.reference 1 "x") (.literal 1 1)))]⟩ := rfl
    have hok' : Program.ofTokens 40 tokens' = .ok ⟨[.exprStmt 1 (.assign 1 "x"
        (.binary 3 (some (.binary .subtract)) (.reference 2 "x") (.literal 3 1)))]⟩ := rfl
    rw [hok, hok'] at hparsed
    cases hparsed with
    | ok halike => exact ⟨_, _, hok, hok', halike, layout_carries_no_meaning.2 _ _ halike⟩
  · exact layout_carries_no_meaning.1 40 (tokens.eraseIdx 4) (tokens'.eraseIdx 4)
      ⟨_, rfl, rfl⟩ rfl

end RillLang
