import RillLang.Proofs.Token.Scanned

/-!
# Parsed programs are well formed

Every tree that the tokens of a text spell is well formed, and mentions only names that
the text has (`Program.listFrom_of_scan`).  The grammar puts each node where it belongs
and fixes the operators; the numbers and the names come from the scanner, which has
checked them.

`Node.mentioned` lists the names of a tree, and `Node.ExprFrom` and `Node.StmtFrom` join
the two statements, so that they are carried through a derivation together.
-/

namespace RillLang

namespace Node

/-! ## The names of a tree -/

mutual

/-- The names a tree mentions: those it reads, assigns or declares. -/
def mentioned : Node → List String
  | program ss => mentionedList ss
  | bare .. => []
  | literal .. => []
  | reference _ x => [x]
  | assign _ x e => x :: mentioned e
  | unary _ _ e => mentioned e
  | binary _ _ l r => mentioned l ++ mentioned r
  | letStmt _ x e => x :: mentioned e
  | printStmt _ e => mentioned e
  | exprStmt _ e => mentioned e
  | ifStmt _ c t f => mentioned c ++ mentionedList t ++ mentionedOption f
  | whileStmt _ c b => mentioned c ++ mentionedList b
  | block _ ss => mentionedList ss

/-- The names the trees of a list mention. -/
def mentionedList : List Node → List String
  | [] => []
  | n :: ns => mentioned n ++ mentionedList ns

/-- The names the trees of a list that may be missing mention. -/
def mentionedOption : Option (List Node) → List String
  | none => []
  | some ns => mentionedList ns

end

/-! ## Trees from tokens -/

/-- Some identifier among the tokens has the name. -/
def NamedIn (tokens : List Token) (x : String) : Prop := ∃ line, Token.identifier x line ∈ tokens

variable (tokens : List Token)

/-- A well-formed expression whose names are among the tokens. -/
def ExprFrom (e : Node) : Prop := e.WellFormedExpr ∧ ∀ x ∈ e.mentioned, NamedIn tokens x

/-- A well-formed statement whose names are among the tokens. -/
def StmtFrom (s : Node) : Prop := s.WellFormedStmt ∧ ∀ x ∈ s.mentioned, NamedIn tokens x

/-- Well-formed statements whose names are among the tokens. -/
def ListFrom (ss : List Node) : Prop :=
  WellFormedList ss ∧ ∀ x ∈ mentionedList ss, NamedIn tokens x

variable {tokens}

/-! ### One rule for each form -/

theorem exprFrom_literal {line v : Int} :
    (literal line v).ExprFrom tokens ↔ 0 ≤ v ∧ v ≤ Word.greatest := by
  constructor
  · rintro ⟨hwf, -⟩
    cases hwf with
    | literal hnonneg hle => exact ⟨hnonneg, hle⟩
  · rintro ⟨hnonneg, hle⟩
    exact ⟨.literal hnonneg hle, List.forall_mem_nil _⟩

theorem exprFrom_reference {line : Int} {x : String} :
    (reference line x).ExprFrom tokens ↔ isName x = true ∧ NamedIn tokens x := by
  constructor
  · rintro ⟨hwf, hnames⟩
    cases hwf with
    | reference hx => exact ⟨hx, List.forall_mem_singleton.1 hnames⟩
  · rintro ⟨hx, hmem⟩
    exact ⟨.reference hx, List.forall_mem_singleton.2 hmem⟩

theorem exprFrom_assign {line : Int} {x : String} {e : Node} :
    (assign line x e).ExprFrom tokens ↔
      isName x = true ∧ NamedIn tokens x ∧ e.ExprFrom tokens := by
  constructor
  · rintro ⟨hwf, hnames⟩
    cases hwf with
    | assign hx he =>
        obtain ⟨hmem, hrest⟩ := List.forall_mem_cons.1 hnames
        exact ⟨hx, hmem, he, hrest⟩
  · rintro ⟨hx, hmem, he, hrest⟩
    exact ⟨.assign hx he, List.forall_mem_cons.2 ⟨hmem, hrest⟩⟩

theorem exprFrom_unary {line : Int} {op : Option Operator} {e : Node} :
    (unary line op e).ExprFrom tokens ↔ op = some .negate ∧ e.ExprFrom tokens := by
  constructor
  · rintro ⟨hwf, hnames⟩
    cases hwf with
    | unary he => exact ⟨rfl, he, hnames⟩
  · rintro ⟨rfl, he, hnames⟩
    exact ⟨.unary he, hnames⟩

theorem exprFrom_binary {line : Int} {op : Option Operator} {l r : Node} :
    (binary line op l r).ExprFrom tokens ↔
      (∃ b, op = some (.binary b)) ∧ l.ExprFrom tokens ∧ r.ExprFrom tokens := by
  constructor
  · rintro ⟨hwf, hnames⟩
    cases hwf with
    | binary hl hr =>
        obtain ⟨hlnames, hrnames⟩ := List.forall_mem_append.1 hnames
        exact ⟨⟨_, rfl⟩, ⟨hl, hlnames⟩, hr, hrnames⟩
  · rintro ⟨⟨b, rfl⟩, ⟨hl, hlnames⟩, hr, hrnames⟩
    exact ⟨.binary hl hr, List.forall_mem_append.2 ⟨hlnames, hrnames⟩⟩

theorem stmtFrom_letStmt {line : Int} {x : String} {e : Node} :
    (letStmt line x e).StmtFrom tokens ↔
      isName x = true ∧ NamedIn tokens x ∧ e.ExprFrom tokens := by
  constructor
  · rintro ⟨hwf, hnames⟩
    cases hwf with
    | letStmt hx he =>
        obtain ⟨hmem, hrest⟩ := List.forall_mem_cons.1 hnames
        exact ⟨hx, hmem, he, hrest⟩
  · rintro ⟨hx, hmem, he, hrest⟩
    exact ⟨.letStmt hx he, List.forall_mem_cons.2 ⟨hmem, hrest⟩⟩

theorem stmtFrom_printStmt {line : Int} {e : Node} :
    (printStmt line e).StmtFrom tokens ↔ e.ExprFrom tokens := by
  constructor
  · rintro ⟨hwf, hnames⟩
    cases hwf with
    | printStmt he => exact ⟨he, hnames⟩
  · rintro ⟨he, hnames⟩
    exact ⟨.printStmt he, hnames⟩

theorem stmtFrom_exprStmt {line : Int} {e : Node} :
    (exprStmt line e).StmtFrom tokens ↔ e.ExprFrom tokens := by
  constructor
  · rintro ⟨hwf, hnames⟩
    cases hwf with
    | exprStmt he => exact ⟨he, hnames⟩
  · rintro ⟨he, hnames⟩
    exact ⟨.exprStmt he, hnames⟩

theorem stmtFrom_ifStmt {line : Int} {c : Node} {t : List Node} {f : Option (List Node)} :
    (ifStmt line c t f).StmtFrom tokens ↔
      c.ExprFrom tokens ∧ ListFrom tokens t ∧ ∀ body, f = some body → ListFrom tokens body := by
  constructor
  · rintro ⟨hwf, hnames⟩
    obtain ⟨hnames, hfnames⟩ := List.forall_mem_append.1 hnames
    obtain ⟨hcnames, htnames⟩ := List.forall_mem_append.1 hnames
    cases hwf with
    | ifStmt hc ht => exact ⟨⟨hc, hcnames⟩, ⟨ht, htnames⟩, by rintro body ⟨⟩⟩
    | ifElse hc ht hf =>
        refine ⟨⟨hc, hcnames⟩, ⟨ht, htnames⟩, ?_⟩
        rintro body ⟨⟩
        exact ⟨hf, hfnames⟩
  · rintro ⟨⟨hc, hcnames⟩, ⟨ht, htnames⟩, hf⟩
    have hctnames := List.forall_mem_append.2 ⟨hcnames, htnames⟩
    cases f with
    | none => exact ⟨.ifStmt hc ht, List.forall_mem_append.2 ⟨hctnames, List.forall_mem_nil _⟩⟩
    | some body =>
        obtain ⟨hbody, hbodynames⟩ := hf body rfl
        exact ⟨.ifElse hc ht hbody, List.forall_mem_append.2 ⟨hctnames, hbodynames⟩⟩

theorem stmtFrom_whileStmt {line : Int} {c : Node} {b : List Node} :
    (whileStmt line c b).StmtFrom tokens ↔ c.ExprFrom tokens ∧ ListFrom tokens b := by
  constructor
  · rintro ⟨hwf, hnames⟩
    cases hwf with
    | whileStmt hc hb =>
        obtain ⟨hcnames, hbnames⟩ := List.forall_mem_append.1 hnames
        exact ⟨⟨hc, hcnames⟩, hb, hbnames⟩
  · rintro ⟨⟨hc, hcnames⟩, hb, hbnames⟩
    exact ⟨.whileStmt hc hb, List.forall_mem_append.2 ⟨hcnames, hbnames⟩⟩

theorem stmtFrom_block {line : Int} {b : List Node} :
    (block line b).StmtFrom tokens ↔ ListFrom tokens b := by
  constructor
  · rintro ⟨hwf, hnames⟩
    cases hwf with
    | block hb => exact ⟨hb, hnames⟩
  · rintro ⟨hb, hnames⟩
    exact ⟨.block hb, hnames⟩

theorem listFrom_cons {s : Node} {ss : List Node} :
    ListFrom tokens (s :: ss) ↔ s.StmtFrom tokens ∧ ListFrom tokens ss := by
  constructor
  · rintro ⟨hwf, hnames⟩
    cases hwf with
    | cons hs hss =>
        obtain ⟨hsnames, hssnames⟩ := List.forall_mem_append.1 hnames
        exact ⟨⟨hs, hsnames⟩, hss, hssnames⟩
  · rintro ⟨⟨hs, hsnames⟩, hss, hssnames⟩
    exact ⟨.cons hs hss, List.forall_mem_append.2 ⟨hsnames, hssnames⟩⟩

end Node

/-! ## Derivations -/

namespace Grammar

open Node

variable {tokens : List Token}

/-- The tokens are among the given ones, and program text can have them. -/
def PartOf (tokens ts : List Token) : Prop := ∀ t ∈ ts, t ∈ tokens ∧ t.lexeme.Scannable

theorem PartOf.mono {ts us : List Token} (h : PartOf tokens ts) (hsub : ∀ t ∈ us, t ∈ ts) :
    PartOf tokens us :=
  fun t ht => h t (hsub t ht)

/-- An identifier of a program text carries a name, which is no keyword. -/
theorem PartOf.isName {ts : List Token} (h : PartOf tokens ts) {name : Option String} {line : Int}
    (hmem : ⟨.identifier name, line⟩ ∈ ts) :
    isName (identifierName name) = true ∧ NamedIn tokens (identifierName name) := by
  obtain ⟨htokens, hscan⟩ := h _ hmem
  cases hscan with
  | name hx => exact ⟨hx, line, htokens⟩

mutual

theorem Primary.exprFrom {ts : List Token} {e : Node} :
    Primary ts e → PartOf tokens ts → e.ExprFrom tokens
  | .number value line, hts => by
      obtain ⟨-, hscan⟩ := hts _ (List.mem_singleton_self _)
      cases hscan with
      | number hnonneg hle => exact exprFrom_literal.2 ⟨hnonneg, hle⟩
  | .name name line, hts => exprFrom_reference.2 (hts.isName (List.mem_singleton_self _))
  | .parenthesised _ he _, hts => he.exprFrom (hts.mono (by simp +contextual))

theorem Unary.exprFrom {ts : List Token} {e : Node} :
    Unary ts e → PartOf tokens ts → e.ExprFrom tokens
  | .primary h, hts => h.exprFrom hts
  | .negate _ h, hts => exprFrom_unary.2 ⟨rfl, h.exprFrom (hts.mono (by simp +contextual))⟩

theorem Tiered.exprFrom {t : Tier} {ts : List Token} {e : Node} :
    Tiered t ts e → PartOf tokens ts → e.ExprFrom tokens
  | .operand h, hts => h.exprFrom hts
  | .joined hl _ _ hr, hts =>
      exprFrom_binary.2 ⟨⟨_, rfl⟩, hl.exprFrom (hts.mono (by simp +contextual)),
        hr.exprFrom (hts.mono (by simp +contextual))⟩

theorem Operand.exprFrom {t : Tier} {ts : List Token} {e : Node} :
    Operand t ts e → PartOf tokens ts → e.ExprFrom tokens
  | .tighter _ h, hts => h.exprFrom hts
  | .unary _ h, hts => h.exprFrom hts

theorem Assignment.exprFrom {ts : List Token} {e : Node} :
    Assignment ts e → PartOf tokens ts → e.ExprFrom tokens
  | .assign _ h, hts => by
      obtain ⟨hx, hmem⟩ := hts.isName List.mem_cons_self
      exact exprFrom_assign.2 ⟨hx, hmem, h.exprFrom (hts.mono (by simp +contextual))⟩
  | .tiered h, hts => h.exprFrom hts

end

mutual

theorem Statement.stmtFrom {ts : List Token} {s : Node} :
    Statement ts s → PartOf tokens ts → s.StmtFrom tokens
  | @Statement.letStmt _ _ _ name line _ _ _ _ he _, hts => by
      obtain ⟨hx, hmem⟩ := @PartOf.isName _ _ hts name line (by simp)
      exact stmtFrom_letStmt.2 ⟨hx, hmem, he.exprFrom (hts.mono (by simp +contextual))⟩
  | .printStmt _ _ he _ _, hts =>
      stmtFrom_printStmt.2 (he.exprFrom (hts.mono (by simp +contextual)))
  | .exprStmt he _, hts =>
      stmtFrom_exprStmt.2 (he.exprFrom (hts.mono fun _ ht => List.mem_append_left _ ht))
  | .block hb, hts => stmtFrom_block.2 (hb.listFrom hts)
  | .ifStmt _ _ hc _ ht, hts =>
      stmtFrom_ifStmt.2 ⟨hc.exprFrom (hts.mono (by simp +contextual)),
        ht.listFrom (hts.mono (by simp +contextual)), by rintro body ⟨⟩⟩
  | .ifElse _ _ hc _ ht _ hf, hts =>
      stmtFrom_ifStmt.2 ⟨hc.exprFrom (hts.mono (by simp +contextual)),
        ht.listFrom (hts.mono (by simp +contextual)), by
          rintro body ⟨⟩
          exact hf.listFrom (hts.mono (by simp +contextual))⟩
  | .whileStmt _ _ hc _ hb, hts =>
      stmtFrom_whileStmt.2 ⟨hc.exprFrom (hts.mono (by simp +contextual)),
        hb.listFrom (hts.mono (by simp +contextual))⟩

theorem Block.listFrom {ts : List Token} {body : List Node} :
    Block ts body → PartOf tokens ts → ListFrom tokens body
  | .braces _ h _, hts => h.listFrom (hts.mono (by simp +contextual))

theorem Statements.listFrom {ts : List Token} {ss : List Node} :
    Statements ts ss → PartOf tokens ts → ListFrom tokens ss
  | .nil, _ => ⟨.nil, List.forall_mem_nil _⟩
  | .cons hs hss, hts =>
      listFrom_cons.2 ⟨hs.stmtFrom (hts.mono fun _ ht => List.mem_append_left _ ht),
        hss.listFrom (hts.mono fun _ ht => List.mem_append_right _ ht)⟩

end

end Grammar

/-- A text that parses stands for a well-formed program whose names are identifiers of
the text. -/
theorem Program.listFrom_of_scan {source : String} {tokens : List Token} {p : Program}
    {limit : Nat} (hscan : Token.scan source = .ok tokens)
    (hparse : Program.ofTokens limit tokens = .ok p) : Node.ListFrom tokens p.statements := by
  have hscanned := Token.scanned_of_scan hscan
  have hderives := Program.derives_of_ofTokens hscanned.closed hparse
  exact hderives.listFrom fun t ht =>
    ⟨(List.takeWhile_sublist _).mem ht, hscanned.scannable_of_mem_beforeEnd ht⟩

end RillLang
