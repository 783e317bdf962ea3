import RillLang.Proofs.Token.Spelling
import RillLang.Proofs.Tree.Exactness
import RillLang.Tree.Print

/-!
# Printed programs are read back

Every well-formed program is printed as a text that scans and parses to the same
program, up to lines (`ofTokens_scan_print`).

Ranks and the grammar meet in `Grammar.AtRank`: the phrases that may stand where a rank
is asked for.  They are fewer for higher ranks (`AtRank.mono`), and parentheses lift any
expression to every rank (`AtRank.parenthesised`).  So an expression may stand in its
place exactly as printed (`Spelled.inPlace`), and the printed lexemes of a tree spell the
tree by induction on it.
-/

namespace RillLang

/-- The tier of a binary operator. -/
def BinaryOperator.tier : BinaryOperator → Tier
  | equal | notEqual => .equality
  | less | lessEqual | greater | greaterEqual => .comparison
  | add | subtract => .term
  | multiply | divide => .factor

/-- An operator is read from the mark it is written with. -/
theorem BinaryOperator.tier_operator? (op : BinaryOperator) :
    op.tier.operator? op.mark = some op := by
  cases op <;> rfl

namespace Grammar

/-! ## Phrases by rank -/

/-- The tokens spell an expression that may stand where a rank is asked for. -/
def AtRank : Nat → List Token → Node → Prop
  | 0 => Assignment
  | 1 => Tiered .equality
  | 2 => Tiered .comparison
  | 3 => Tiered .term
  | 4 => Tiered .factor
  | 5 => Unary
  | _ + 6 => Primary

theorem atRank_operator (op : BinaryOperator) : AtRank op.rank = Tiered op.tier := by
  cases op <;> rfl

/-- What may stand one rank above an operator is an operand of it. -/
theorem operand_of_atRank {op : BinaryOperator} {ts : List Token} {e : Node}
    (h : AtRank (op.rank + 1) ts e) : Operand op.tier ts e := by
  cases op with
  | equal | notEqual => exact .tighter rfl h
  | less | lessEqual | greater | greaterEqual => exact .tighter rfl h
  | add | subtract => exact .tighter rfl h
  | multiply | divide => exact .unary rfl h

theorem AtRank.of_succ {rank : Nat} {ts : List Token} {e : Node} (h : AtRank (rank + 1) ts e) :
    AtRank rank ts e := by
  match rank, h with
  | 0, h => exact .tiered h
  | 1, h => exact .operand (.tighter rfl h)
  | 2, h => exact .operand (.tighter rfl h)
  | 3, h => exact .operand (.tighter rfl h)
  | 4, h => exact .operand (.unary rfl h)
  | 5, h => exact .primary h
  | _ + 6, h => exact h

/-- What may stand at a rank may stand at every lower one. -/
theorem AtRank.mono {low high : Nat} {ts : List Token} {e : Node} (hle : low ≤ high)
    (h : AtRank high ts e) : AtRank low ts e := by
  induction hle with
  | refl => exact h
  | step _ ih => exact ih h.of_succ

theorem AtRank.parenthesised {opening closing : Token} {ts : List Token} {e : Node}
    (hopening : IsMark .leftParen opening) (h : AtRank 0 ts e)
    (hclosing : IsMark .rightParen closing) (rank : Nat) :
    AtRank rank (opening :: ts ++ [closing]) e :=
  have hprimary : AtRank (rank + 6) (opening :: ts ++ [closing]) e :=
    Primary.parenthesised hopening h hclosing
  hprimary.mono (Nat.le_add_right rank 6)

/-! ## Printed expressions -/

/-- Lexemes as tokens of one line. -/
def onLine (line : Int) (lexemes : List Lexeme) : List Token := lexemes.map (⟨·, line⟩)

@[simp] theorem onLine_nil (line : Int) : onLine line [] = [] := rfl

@[simp] theorem onLine_cons (line : Int) (a : Lexeme) (as : List Lexeme) :
    onLine line (a :: as) = ⟨a, line⟩ :: onLine line as := rfl

@[simp] theorem onLine_append (line : Int) (as bs : List Lexeme) :
    onLine line (as ++ bs) = onLine line as ++ onLine line bs := List.map_append

/-- A printed mark is a token of that mark. -/
theorem isMark_markLexeme (m : Mark) (line : Int) : IsMark m ⟨Node.markLexeme m, line⟩ := rfl

/-- The lexemes, written on a line, spell an expression that may stand at a rank and is
alike to the given one. -/
def Spelled (line : Int) (rank : Nat) (lexemes : List Lexeme) (e : Node) : Prop :=
  ∃ e', AtRank rank (onLine line lexemes) e' ∧ e'.alike e = true

/-- An expression with the parentheses its place asks for may stand there. -/
theorem Spelled.inPlace {line : Int} {e : Node} (h : Spelled line e.rank e.exprLexemes e)
    (needed : Nat) : Spelled line needed (Node.inPlace needed e e.exprLexemes) e := by
  obtain ⟨e', hspells, halike⟩ := h
  refine ⟨e', ?_, halike⟩
  unfold Node.inPlace
  split
  case isTrue =>
    simp only [List.cons_append, onLine_cons, onLine_append, onLine_nil]
    exact AtRank.parenthesised (isMark_markLexeme _ line) (hspells.mono (Nat.zero_le _))
      (isMark_markLexeme _ line) needed
  case isFalse hrank => exact hspells.mono (Nat.le_of_not_lt hrank)

/-- A printed expression spells the expression, at its own rank. -/
theorem spelled_exprLexemes (line : Int) {e : Node} (h : e.WellFormedExpr) :
    Spelled line e.rank e.exprLexemes e := by
  induction h with
  | @literal line' v _ _ => exact ⟨.literal line v, .number v line, by simp [Node.alike]⟩
  | @reference line' x _ =>
      exact ⟨.reference line x, .name (some x) line, by simp [Node.alike]⟩
  | @assign line' x e _ _ ih =>
      obtain ⟨e', hspells, halike⟩ := ih
      refine ⟨.assign line x e', ?_, by simp [Node.alike, halike]⟩
      exact Assignment.assign (isMark_markLexeme _ line) (hspells.mono (Nat.zero_le _))
  | unary _ ih =>
      obtain ⟨e', hspells, halike⟩ := ih.inPlace 5
      refine ⟨.unary line (some .negate) e', ?_, by simp [Node.alike, halike]⟩
      exact Unary.negate (isMark_markLexeme .minus line) hspells
  | @binary line' op l r _ _ ihl ihr =>
      obtain ⟨l', hl, hlAlike⟩ := ihl.inPlace op.rank
      obtain ⟨r', hr, hrAlike⟩ := ihr.inPlace (op.rank + 1)
      refine ⟨.binary line (some (.binary op)) l' r', ?_, by simp [Node.alike, hlAlike, hrAlike]⟩
      show AtRank op.rank _ _
      rw [atRank_operator] at hl ⊢
      rw [Node.exprLexemes, onLine_append, onLine_cons]
      exact .joined hl (isMark_markLexeme _ line) op.tier_operator? (operand_of_atRank hr)

theorem exists_expression_exprLexemes (line : Int) {e : Node} (h : e.WellFormedExpr) :
    ∃ e', Expression (onLine line e.exprLexemes) e' ∧ e'.alike e = true := by
  obtain ⟨e', hspells, halike⟩ := spelled_exprLexemes line h
  exact ⟨e', hspells.mono (Nat.zero_le _), halike⟩

/-! ## Printed statements -/

/-- Printed statements between printed braces are a block. -/
theorem block_onLine {line : Int} {lexemes : List Lexeme} {body : List Node}
    (h : Statements (onLine line lexemes) body) :
    Block (onLine line (Node.markLexeme .leftBrace :: lexemes ++ [Node.markLexeme .rightBrace]))
      body := by
  simp only [onLine_cons, onLine_append, onLine_nil]
  exact .braces (isMark_markLexeme _ line) h (isMark_markLexeme _ line)

mutual

/-- A printed statement spells the statement. -/
theorem exists_statement_stmtLexemes (line : Int) {s : Node} :
    s.WellFormedStmt →
      ∃ s', Statement (onLine line s.stmtLexemes) s' ∧ s'.alike s = true
  | @Node.WellFormedStmt.letStmt _ x e _ he => by
      obtain ⟨e', hspells, halike⟩ := exists_expression_exprLexemes line he
      refine ⟨.letStmt line x e', ?_, by simp [Node.alike, halike]⟩
      simp only [Node.stmtLexemes, onLine_append, onLine_cons, onLine_nil]
      exact Statement.letStmt (isMark_markLexeme .letWord line) (isMark_markLexeme .equal line)
        hspells (isMark_markLexeme .semicolon line)
  | .printStmt he => by
      obtain ⟨e', hspells, halike⟩ := exists_expression_exprLexemes line he
      refine ⟨.printStmt line e', ?_, by simp [Node.alike, halike]⟩
      have hprint := Statement.printStmt (isMark_markLexeme .printWord line)
        (isMark_markLexeme .leftParen line) hspells (isMark_markLexeme .rightParen line)
        (isMark_markLexeme .semicolon line)
      simpa [Node.stmtLexemes] using hprint
  | .exprStmt he => by
      obtain ⟨e', hspells, halike⟩ := exists_expression_exprLexemes line he
      -- the statement has the line of its first token, so the first token is needed
      obtain ⟨t, rest, htokens, -⟩ := hspells.opens
      refine ⟨.exprStmt t.line e', ?_, by simp [Node.alike, halike]⟩
      rw [htokens] at hspells
      have hexpr := Statement.exprStmt hspells (isMark_markLexeme .semicolon line)
      simpa [Node.stmtLexemes, htokens] using hexpr
  | .ifStmt hc ht => by
      obtain ⟨c', hcSpells, hcAlike⟩ := exists_expression_exprLexemes line hc
      obtain ⟨t', htSpells, htAlike⟩ := exists_statements_listLexemes line ht
      refine ⟨.ifStmt line c' t' none, ?_, by simp [Node.alike, Node.alikeOption, *]⟩
      have hif := Statement.ifStmt (isMark_markLexeme .ifWord line)
        (isMark_markLexeme .leftParen line) hcSpells (isMark_markLexeme .rightParen line)
        (block_onLine htSpells)
      simpa [Node.stmtLexemes, Node.elseLexemes] using hif
  | .ifElse hc ht hf => by
      obtain ⟨c', hcSpells, hcAlike⟩ := exists_expression_exprLexemes line hc
      obtain ⟨t', htSpells, htAlike⟩ := exists_statements_listLexemes line ht
      obtain ⟨f', hfSpells, hfAlike⟩ := exists_statements_listLexemes line hf
      refine ⟨.ifStmt line c' t' (some f'), ?_, by simp [Node.alike, Node.alikeOption, *]⟩
      have hif := Statement.ifElse (isMark_markLexeme .ifWord line)
        (isMark_markLexeme .leftParen line) hcSpells (isMark_markLexeme .rightParen line)
        (block_onLine htSpells) (isMark_markLexeme .elseWord line) (block_onLine hfSpells)
      simpa [Node.stmtLexemes, Node.elseLexemes] using hif
  | .whileStmt hc hb => by
      obtain ⟨c', hcSpells, hcAlike⟩ := exists_expression_exprLexemes line hc
      obtain ⟨b', hbSpells, hbAlike⟩ := exists_statements_listLexemes line hb
      refine ⟨.whileStmt line c' b', ?_, by simp [Node.alike, *]⟩
      have hwhile := Statement.whileStmt (isMark_markLexeme .whileWord line)
        (isMark_markLexeme .leftParen line) hcSpells (isMark_markLexeme .rightParen line)
        (block_onLine hbSpells)
      simpa [Node.stmtLexemes] using hwhile
  | .block hb => by
      obtain ⟨b', hbSpells, hbAlike⟩ := exists_statements_listLexemes line hb
      refine ⟨.block line b', ?_, by simp [Node.alike, hbAlike]⟩
      exact .block (block_onLine hbSpells)

/-- Printed statements spell the statements. -/
theorem exists_statements_listLexemes (line : Int) {ss : List Node} :
    Node.WellFormedList ss →
      ∃ ss', Statements (onLine line (Node.listLexemes ss)) ss' ∧ Node.alikeList ss' ss = true
  | .nil => ⟨[], .nil, by simp [Node.alikeList]⟩
  | .cons hs hss => by
      obtain ⟨s', hSpells, hAlike⟩ := exists_statement_stmtLexemes line hs
      obtain ⟨ss', hsSpells, hsAlike⟩ := exists_statements_listLexemes line hss
      refine ⟨s' :: ss', ?_, by simp [Node.alikeList, hAlike, hsAlike]⟩
      rw [Node.listLexemes, onLine_append]
      exact .cons hSpells hsSpells

end

end Grammar

/-! ## Printed lexemes can be scanned -/

namespace Node

open Lexeme

theorem scannable_markLexeme (m : Mark) : (markLexeme m).Scannable := .mark m

theorem allScannable_inPlace {needed : Nat} {e : Node} {lexemes : List Lexeme}
    (h : AllScannable lexemes) : AllScannable (inPlace needed e lexemes) := by
  unfold inPlace
  split
  case isTrue => simpa [scannable_markLexeme] using h
  case isFalse => exact h

theorem WellFormedExpr.allScannable {e : Node} (h : e.WellFormedExpr) :
    AllScannable e.exprLexemes := by
  induction h with
  | literal hnonneg hle => simpa [exprLexemes] using Scannable.number hnonneg hle
  | reference hx => simpa [exprLexemes] using Scannable.name hx
  | assign hx _ ih => simpa [exprLexemes, scannable_markLexeme, ih] using Scannable.name hx
  | unary _ ih => simpa [exprLexemes, scannable_markLexeme] using allScannable_inPlace ih
  | binary _ _ ihl ihr =>
      simpa [exprLexemes, scannable_markLexeme] using
        ⟨allScannable_inPlace ihl, allScannable_inPlace ihr⟩

mutual

theorem WellFormedStmt.allScannable {s : Node} :
    s.WellFormedStmt → AllScannable s.stmtLexemes
  | .letStmt hx he => by
      simpa [stmtLexemes, scannable_markLexeme, he.allScannable] using Scannable.name hx
  | .printStmt he => by simp [stmtLexemes, scannable_markLexeme, he.allScannable]
  | .exprStmt he => by simp [stmtLexemes, scannable_markLexeme, he.allScannable]
  | .ifStmt hc ht => by
      simp [stmtLexemes, elseLexemes, scannable_markLexeme, hc.allScannable, ht.allScannable]
  | .ifElse hc ht hf => by
      simp [stmtLexemes, elseLexemes, scannable_markLexeme, hc.allScannable, ht.allScannable,
        hf.allScannable]
  | .whileStmt hc hb => by
      simp [stmtLexemes, scannable_markLexeme, hc.allScannable, hb.allScannable]
  | .block hb => by simp [stmtLexemes, scannable_markLexeme, hb.allScannable]

theorem WellFormedList.allScannable {ss : List Node} :
    WellFormedList ss → AllScannable (listLexemes ss)
  | .nil => by simp [listLexemes]
  | .cons hs hss => by simp [listLexemes, hs.allScannable, hss.allScannable]

end

end Node

/-! ## The round trip -/

/-- No lexeme of a program text is the end of the input. -/
theorem Lexeme.AllScannable.not_isEnd {lexemes : List Lexeme} (h : AllScannable lexemes)
    (line : Int) : ∀ t ∈ Grammar.onLine line lexemes, t.isEnd = false := by
  intro t ht
  obtain ⟨a, ha, rfl⟩ := List.mem_map.1 ht
  cases h a ha <;> rfl

namespace Program

/-- The tokens of a printed program, all on the first line. -/
def printedTokens (p : Program) : List Token :=
  Grammar.onLine 1 (Node.listLexemes p.statements) ++ [.endOfInput 1]

theorem closed_printedTokens (p : Program) : Token.Closed p.printedTokens :=
  ⟨.endOfInput 1, List.getLast?_concat, rfl⟩

theorem WellFormed.beforeEnd_printedTokens {p : Program} (h : p.WellFormed) :
    Token.beforeEnd p.printedTokens = Grammar.onLine 1 (Node.listLexemes p.statements) :=
  Token.beforeEnd_append (Node.WellFormedList.allScannable h |>.not_isEnd 1) rfl []

theorem WellFormed.scan_print {p : Program} (h : p.WellFormed) :
    Token.scan p.print = .ok p.printedTokens := by
  rw [Token.scan, print, String.toList_ofList]
  exact Token.scanChars_spaced (Node.WellFormedList.allScannable h)

theorem WellFormed.exists_derives {p : Program} (h : p.WellFormed) :
    ∃ q, Grammar.Derives (Token.beforeEnd p.printedTokens) q ∧ q.alike p = true := by
  obtain ⟨ss, hspells, halike⟩ := Grammar.exists_statements_listLexemes 1 h
  rw [h.beforeEnd_printedTokens]
  exact ⟨⟨ss⟩, hspells, halike⟩

end Program

/-- **Printing and reading back gives the program again, up to lines.**  The text of a
well-formed program scans, and its tokens parse to a program that differs in nothing but
lines whenever the nesting limit is not reached; that is so in particular under a limit
of twelve for each token. -/
theorem ofTokens_scan_print {p : Program} (h : p.WellFormed) :
    ∃ tokens q, Token.scan p.print = .ok tokens ∧ q.alike p = true ∧
      (∀ limit, (∀ found, Program.ofTokens limit tokens ≠ .error (.tooDeep found)) →
        Program.ofTokens limit tokens = .ok q) ∧
      ∀ limit, 12 * tokens.length ≤ limit → Program.ofTokens limit tokens = .ok q := by
  obtain ⟨q, hderives, halike⟩ := h.exists_derives
  refine ⟨p.printedTokens, q, h.scan_print, halike, fun limit hroom => ?_, fun limit hlimit => ?_⟩
  · exact Program.ofTokens_of_derives_of_ne p.closed_printedTokens hderives hroom
  · refine Program.ofTokens_of_derives p.closed_printedTokens hderives (Nat.le_trans ?_ hlimit)
    rw [h.beforeEnd_printedTokens, Program.printedTokens, List.length_append]
    omega

/-- A right operand of equal rank, a sum under a minus sign and an assignment as an operand
keep their parentheses, and a product and a negation need none. -/
theorem ofTokens_scan_print_operands :
    let difference : Node := .binary 7 (some (.binary .subtract)) (.reference 7 "a")
      (.binary 7 (some (.binary .subtract)) (.literal 7 9223372036854775807)
        (.binary 7 (some (.binary .multiply)) (.unary 7 (some .negate) (.reference 7 "b"))
          (.assign 7 "c" (.literal 7 0))))
    let p : Program := ⟨[.ifStmt 8 (.unary 8 (some .negate) difference)
      [.letStmt 9 "_x" difference] (some [])]⟩
    p.WellFormed ∧
      p.print = "if ( - ( a - ( 9223372036854775807 - - b * ( c = 0 ) ) ) ) \x7b " ++
        "let _x = a - ( 9223372036854775807 - - b * ( c = 0 ) ) ; \x7d else \x7b \x7d" ∧
      ∃ tokens q, Token.scan p.print = .ok tokens ∧ q.alike p = true ∧
        Program.ofTokens 1000 tokens = .ok q := by
  intro difference p
  have hdifference : difference.WellFormedExpr :=
    .binary (.reference rfl) (.binary (.literal (by decide) (by decide))
      (.binary (.unary (.reference rfl)) (.assign rfl (.literal (by decide) (by decide)))))
  have hp : p.WellFormed :=
    .cons (.ifElse (.unary hdifference) (.cons (.letStmt rfl hdifference) .nil) .nil) .nil
  obtain ⟨tokens, q, hscan, halike, -, hparse⟩ := ofTokens_scan_print hp
  refine ⟨hp, by decide +kernel, tokens, q, hscan, halike, hparse 1000 ?_⟩
  rw [hp.scan_print] at hscan
  cases hscan
  decide

end RillLang
