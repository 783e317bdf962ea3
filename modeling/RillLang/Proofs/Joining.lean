import Mathlib.Control.Monad.Basic
import RillLang.Proofs.Machine.Lines
import RillLang.Proofs.Token.Joined
import RillLang.Proofs.Tree.Exactness
import RillLang.Proofs.Tree.Lookahead

/-!
# Texts run one after the other

Two texts that scan and parse can be joined by a line feed, and running the joined text is
running the first and then, if it did not fail, the second (`interpret_joined`).

Nothing leaks across the line feed when the texts are scanned (`Token.scan_joined`); the
statements of the first text are read as before, since the second begins with no `else`
(`Reader.program_joined`); and the lines, which are the only difference, do not matter to
the run (`Program.interpret_eq_of_alike`).
-/

namespace RillLang

namespace Grammar

theorem Statements.append {ts us : List Token} {ss more : List Node} :
    Statements ts ss → Statements us more → Statements (ts ++ us) (ss ++ more)
  | .nil, h => h
  | .cons hs hss, h => by
      rw [List.append_assoc]
      exact .cons hs (hss.append h)

end Grammar

open Grammar Reader

namespace Token

theorem sameLexemes_moved (n : Int) (ts : List Token) : SameLexemes ts (ts.map (moved n)) := by
  show (ts.map (moved n)).map lexeme = ts.map lexeme
  rw [List.map_map]
  rfl

end Token

namespace Program

/-- A list with one end-of-input token, at its end, is parsed by reading all that stands
before it. -/
theorem ofTokens_concat_eq_ok {limit : Nat} {body : List Token} {last : Int} {p : Program}
    (hbody : ∀ t ∈ body, t.isEnd = false) :
    ofTokens limit (body ++ [Token.endOfInput last]) = .ok p ↔
      program body.length limit body = .ok p [] := by
  have hclosed : Token.Closed (body ++ [Token.endOfInput last]) :=
    ⟨_, List.getLast?_concat, rfl⟩
  rw [ofTokens_split limit hbody rfl hclosed, ofEnding_eq_ok]
  constructor
  · rintro ⟨rest, hread⟩
    rwa [program_rest_eq_nil hbody hread] at hread
  · intro hread
    exact ⟨[], hread⟩

/-- Two token lists that are parsed can be put one after the other, the second on other
lines. -/
theorem ofTokens_joined {limit : Nat} {body body' moved : List Token} {last last' : Int}
    {p q : Program} (hbody : ∀ t ∈ body, t.isEnd = false) (hbody' : ∀ t ∈ body', t.isEnd = false)
    (hp : ofTokens limit (body ++ [Token.endOfInput last]) = .ok p)
    (hq : ofTokens limit (body' ++ [Token.endOfInput last']) = .ok q)
    (hsame : Token.SameLexemes body' moved) (hmoved : ∀ t ∈ moved, t.isEnd = false) (line : Int) :
    ∃ r, ofTokens limit (body ++ moved ++ [Token.endOfInput line]) = .ok r ∧
      r.alike ⟨p.statements ++ q.statements⟩ = true := by
  have hreadp := (ofTokens_concat_eq_ok hbody).1 hp
  have hreadq := (ofTokens_concat_eq_ok hbody').1 hq
  have hderivesp : Statements body p.statements := program_sound hbody hreadp
  have hderivesq : Statements body' q.statements := program_sound hbody' hreadq
  have helse : kindAt moved ≠ .mark .elseWord := by
    rw [← hsame.sameKinds.kindAt_eq]
    simpa using hderivesq.kindAt_ne_elseWord (kindAt_nil_ne_mark _)
  obtain ⟨r, hread⟩ := program_joined hreadp hreadq hsame.sameKinds helse
  have hopen : ∀ t ∈ body ++ moved, t.isEnd = false := List.forall_mem_append.2 ⟨hbody, hmoved⟩
  refine ⟨r, (ofTokens_concat_eq_ok hopen).2 hread, ?_⟩
  obtain ⟨ss, hss, herase⟩ := hderivesq.relined hsame
  have hderives : Derives (body ++ moved) ⟨p.statements ++ ss⟩ := hderivesp.append hss
  rw [(program_sound hopen hread).unique hderives]
  refine (Node.alikeList_iff _ _).2 ?_
  rw [Node.eraseLinesList_append, Node.eraseLinesList_append, herase]

/-- The statements of two programs in a row run like the programs, one after the other. -/
theorem interpret_append [Closing] (p q : Program) (limit rounds : Nat) (m : Machine) :
    interpret limit rounds ⟨p.statements ++ q.statements⟩ m =
      match p.interpret limit rounds m with
      | .ok _ mid => q.interpret limit rounds mid
      | .error fault mid => .error fault mid :=
  Exec.sequence_append (Exec.execute rounds limit) p.statements q.statements m

end Program

/-- **Running texts one after the other is running them joined.**  Of two texts that scan
and parse, the text joined by a line feed scans and parses as well, under the same limit, to
the statements of the first followed by those of the second, up to lines; and on every
machine it runs as the first text and then, only if that did not fail, the second: it prints
the same, leaves the same scopes, and ends with the same success or fault. -/
theorem interpret_joined [Closing] {limit : Nat} {s s' : String} {tokens tokens' : List Token}
    {p q : Program} (hscan : Token.scan s = .ok tokens)
    (hparse : Program.ofTokens limit tokens = .ok p) (hscan' : Token.scan s' = .ok tokens')
    (hparse' : Program.ofTokens limit tokens' = .ok q) :
    ∃ joined r, Token.scan (s ++ "\n" ++ s') = .ok joined ∧
      Program.ofTokens limit joined = .ok r ∧ r.alike ⟨p.statements ++ q.statements⟩ = true ∧
      ∀ nesting rounds m, r.interpret nesting rounds m =
        match p.interpret nesting rounds m with
        | .ok _ mid => q.interpret nesting rounds mid
        | .error fault mid => .error fault mid := by
  obtain ⟨body, last, rfl, hjoined⟩ := Token.scan_joined hscan hscan'
  obtain ⟨body', last', rfl, -⟩ := Token.scanned_of_scan hscan'
  have hbody := (Token.scanned_of_scan hscan).not_isEnd
  have hbody' := (Token.scanned_of_scan hscan').not_isEnd
  have hmoved : ∀ t ∈ body'.map (Token.moved last), t.isEnd = false :=
    List.forall_mem_map.2 hbody'
  obtain ⟨r, hr, halike⟩ := Program.ofTokens_joined hbody hbody' hparse hparse'
    (Token.sameLexemes_moved last body') hmoved (last' + last)
  rw [List.map_append, ← List.append_assoc] at hjoined
  refine ⟨_, r, hjoined, hr, halike, fun nesting rounds m => ?_⟩
  rw [Program.interpret_eq_of_alike halike, Program.interpret_append]

/-- A conditional without `else` and a comment, then a text that prints and divides by
zero. -/
theorem interpret_joined_after_conditional :
    let s := "let x = 1; if (x) \x7b x = 0; \x7d // then"
    let s' := "print(x); x = 8 / x;"
    ∃ joined r, Token.scan (s ++ "\n" ++ s') = .ok joined ∧
      Program.ofTokens 40 joined = .ok r ∧
      (match r.interpret 40 5 .fresh with
        | .ok _ m => (m.printed, none)
        | .error fault m => (m.printed, some fault)) = (#[0], some .divisionByZero) := by
  intro s s'
  have hscan : Token.scan s = .ok [.mark .letWord 1, .identifier "x" 1, .mark .equal 1,
      .number 1 1, .mark .semicolon 1, .mark .ifWord 1, .mark .leftParen 1, .identifier "x" 1,
      .mark .rightParen 1, .mark .leftBrace 1, .identifier "x" 1, .mark .equal 1, .number 0 1,
      .mark .semicolon 1, .mark .rightBrace 1, .endOfInput 1] := by decide +kernel
  have hscan' : Token.scan s' = .ok [.mark .printWord 1, .mark .leftParen 1, .identifier "x" 1,
      .mark .rightParen 1, .mark .semicolon 1, .identifier "x" 1, .mark .equal 1, .number 8 1,
      .mark .slash 1, .identifier "x" 1, .mark .semicolon 1, .endOfInput 1] := by decide +kernel
  let p : Program := ⟨[.letStmt 1 "x" (.literal 1 1),
    .ifStmt 1 (.reference 1 "x") [.exprStmt 1 (.assign 1 "x" (.literal 1 0))] none]⟩
  let q : Program := ⟨[.printStmt 1 (.reference 1 "x"), .exprStmt 1 (.assign 1 "x"
    (.binary 1 (some (.binary .divide)) (.literal 1 8) (.reference 1 "x")))]⟩
  obtain ⟨joined, r, hjoined, hr, -, hrun⟩ :=
    @interpret_joined _ 40 s s' _ _ p q hscan rfl hscan' rfl
  refine ⟨joined, r, hjoined, hr, ?_⟩
  rw [hrun]
  rfl

end RillLang
