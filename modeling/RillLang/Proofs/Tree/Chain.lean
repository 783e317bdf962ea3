import RillLang.Proofs.Tree.Exactness
import RillLang.Proofs.Tree.Print
import RillLang.Tree.Chain

/-!
# Reading chains

A chain of sums and products is read in the same room however long it is.  Two loops take
turns: the inner one multiplies, and when it meets a plus or a minus the outer one takes
over and starts it again behind the sign.  `Reader.resume` is the state of the two loops
between two links, and `resume_read` says what they make of the links that are left.

* `Chain.tree` — the tree of a chain: its sums lean to the left, and so do its products.
* `Chain.ofTokens_tokens` — a chain is read as its tree within a limit of thirteen.
-/

namespace RillLang

open Grammar

/-! ## The tree of a chain -/

namespace Chain

/-- What comes before the product that is being read: nothing, or a sum and a sign. -/
inductive Pending where
  | nothing
  | plus (sum : Node)
  | minus (sum : Node)

/-- The tree once the product has been read. -/
def Pending.join : Pending → Node → Node
  | nothing, product => product
  | plus sum, product => .binary 1 (some (.binary .add)) sum product
  | minus sum, product => .binary 1 (some (.binary .subtract)) sum product

/-- The tree of links after an unfinished product and what comes before it. -/
def treeFrom (pending : Pending) (product : Node) : List (ChainOperator × Nat) → Node
  | [] => pending.join product
  | (.plus, n) :: links => treeFrom (.plus (pending.join product)) (.literal 1 n) links
  | (.minus, n) :: links => treeFrom (.minus (pending.join product)) (.literal 1 n) links
  | (.times, n) :: links =>
    treeFrom pending (.binary 1 (some (.binary .multiply)) product (.literal 1 n)) links

/-- The tree of a chain. -/
def tree (c : Chain) : Node := treeFrom .nothing (.literal 1 c.first) c.links

/-- The lexemes of links. -/
def linkLexemes : List (ChainOperator × Nat) → List Lexeme
  | [] => []
  | (op, n) :: links => .mark op.mark none :: .number n :: linkLexemes links

/-- The lexemes of a statement that prints a chain. -/
def lexemes (c : Chain) : List Lexeme :=
  .mark .printWord none :: .mark .leftParen none :: (.number c.first :: linkLexemes c.links ++
    [.mark .rightParen none, .mark .semicolon none])

theorem length_linkLexemes (links : List (ChainOperator × Nat)) :
    (linkLexemes links).length = 2 * links.length := by
  induction links with
  | nil => rfl
  | cons link links ih =>
      simp only [linkLexemes, List.length_cons, ih]
      omega

end Chain

/-! ## The two loops -/

namespace Reader

open Chain Ending

variable {rounds room k k' : Nat} {n : Int} {tokens rest : List Token}

/-- The loop of products goes on behind `product`, and then the loop of sums behind what that
makes of `pending`. -/
def resume (rounds room : Nat) (pending : Pending) (product : Node) (k k' : Nat)
    (tokens : List Token) : EStateM.Result Reject (List Token) Node :=
  match chainOnto Tier.factor.operator? (operand rounds (room + 3) .factor) product k tokens with
  | .ok factor rest =>
    chainOnto Tier.term.operator? (operand rounds (room + 5) .term) (pending.join factor) k' rest
  | .error reject rest => .error reject rest

theorem operand_factor_number :
    operand rounds (room + 3) .factor (⟨.number n, 1⟩ :: rest) = .ok (.literal 1 n) rest := by
  rfl

/-- Behind a sign the loop of products starts again. -/
theorem operand_term_number :
    operand rounds (room + 5) .term (⟨.number n, 1⟩ :: rest) =
      chainOnto Tier.factor.operator? (operand rounds (room + 3) .factor) (.literal 1 n) rounds
        rest :=
  chain_of_operand operand_factor_number rounds

/-- The loop of sums takes a sign, and behind it reads the product that is now pending. -/
theorem chainOnto_sign {m : Mark} {op : BinaryOperator} {pending : Pending} {left : Node}
    (hop : Tier.term.operator? m = some op)
    (hjoin : pending.join = .binary 1 (some (.binary op)) left) :
    chainOnto Tier.term.operator? (operand rounds (room + 5) .term) left (k + 1)
        (⟨.mark m none, 1⟩ :: ⟨.number n, 1⟩ :: tokens) =
      resume rounds room pending (.literal 1 n) rounds k tokens := by
  rw [chainOnto, operatorAt_mark (isMark_mk m none 1), hop]
  simp only [Option.map_some]
  rw [operand_term_number]
  unfold resume
  cases chainOnto Tier.factor.operator? (operand rounds (room + 3) .factor) (.literal 1 n) rounds
    tokens with
  | ok factor rest => simp only [hjoin]
  | error reject rest => rfl

/-- A sign ends the product before it, and a new one begins. -/
theorem resume_sign {m : Mark} {op : BinaryOperator} {pending pending' : Pending} {product : Node}
    (hop : Tier.term.operator? m = some op)
    (hjoin : pending'.join = .binary 1 (some (.binary op)) (pending.join product)) :
    resume rounds room pending product k (k' + 1)
        (⟨.mark m none, 1⟩ :: ⟨.number n, 1⟩ :: tokens) =
      resume rounds room pending' (.literal 1 n) rounds k' tokens := by
  have hstop := stops_of_operator? (isMark_mk m none 1) hop (⟨.number n, 1⟩ :: tokens)
  rw [resume, chainOnto_stop (hstop .factor (by decide)) product k]
  exact chainOnto_sign hop hjoin

/-- A star goes on with the product. -/
theorem resume_star {pending : Pending} {product : Node} :
    resume rounds room pending product (k + 1) k'
        (⟨.mark .star none, 1⟩ :: ⟨.number n, 1⟩ :: tokens) =
      resume rounds room pending
        (.binary 1 (some (.binary .multiply)) product (.literal 1 n)) k k' tokens := by
  rw [resume, resume,
    chainOnto_link (isMark_mk .star none 1) rfl operand_factor_number]

/-- What the two loops make of links.  The induction is on the links; each takes one round of
one of the loops, and a new product has all rounds. -/
theorem resume_read (links : List (ChainOperator × Nat)) (pending : Pending) (product : Node)
    (hk : links.length ≤ k) (hk' : links.length ≤ k') (hrounds : links.length ≤ rounds)
    (hrest : Stops 3 rest) :
    resume rounds room pending product k k' (onLine 1 (linkLexemes links) ++ rest) =
      .ok (treeFrom pending product links) rest := by
  induction links generalizing pending product k k' with
  | nil =>
      rw [linkLexemes, onLine_nil, List.nil_append, resume,
        chainOnto_stop (hrest .factor (by decide)) product k]
      exact chainOnto_stop (hrest .term (by decide)) _ k'
  | cons link links ih =>
      obtain ⟨op, n⟩ := link
      rw [List.length_cons] at hk hk' hrounds
      obtain ⟨k, rfl⟩ : ∃ m, k = m + 1 := ⟨k - 1, by omega⟩
      obtain ⟨k', rfl⟩ : ∃ m, k' = m + 1 := ⟨k' - 1, by omega⟩
      simp only [linkLexemes, onLine_cons, List.cons_append]
      cases op with
      | plus =>
          have hjoin : (Pending.plus (pending.join product)).join =
              .binary 1 (some (.binary .add)) (pending.join product) := rfl
          rw [ChainOperator.mark, resume_sign rfl hjoin]
          exact ih _ _ (by omega) (by omega) (by omega)
      | minus =>
          have hjoin : (Pending.minus (pending.join product)).join =
              .binary 1 (some (.binary .subtract)) (pending.join product) := rfl
          rw [ChainOperator.mark, resume_sign rfl hjoin]
          exact ih _ _ (by omega) (by omega) (by omega)
      | times =>
          rw [ChainOperator.mark, resume_star]
          exact ih _ _ (by omega) (by omega) (by omega)

/-- The loop of sums starts as if nothing came before its first product. -/
theorem tier_term_number :
    tier rounds (room + 6) .term (⟨.number n, 1⟩ :: tokens) =
      resume rounds room .nothing (.literal 1 n) rounds rounds tokens := by
  refine (bind_apply _ _ _).trans ?_
  rw [operand_term_number]
  unfold resume
  cases chainOnto Tier.factor.operator? (operand rounds (room + 3) .factor) (.literal 1 n) rounds
    tokens with
  | ok factor rest => rfl
  | error reject rest => rfl

/-- A tier that has no operator after its first operand is that operand. -/
theorem tier_of_operand {t t' : Tier} {e : Node} (ht : t.tighter = some t')
    (h : tier rounds room t' tokens = .ok e rest) (hrest : operatorAt t.operator? rest = none) :
    tier rounds (room + 2) t tokens = .ok e rest := by
  have hoperand : operand rounds (room + 1) t tokens = .ok e rest := by
    rw [operand, ht]
    exact h
  rw [tier, chain_of_operand hoperand, chainOnto_stop hrest]

/-- A chain is read as an expression, in a room that does not depend on its length. -/
theorem expression_read_chain (c : Chain) (hrounds : c.links.length ≤ rounds) :
    ReadsExpression (expression rounds (room + 12))
      (⟨.number c.first, 1⟩ :: onLine 1 (linkLexemes c.links)) c.tree := by
  intro rest hrest
  have hterm : tier rounds (room + 6) .term
      (⟨.number c.first, 1⟩ :: onLine 1 (linkLexemes c.links) ++ rest) = .ok c.tree rest := by
    rw [List.cons_append, tier_term_number]
    exact resume_read c.links _ _ hrounds hrounds hrounds (hrest.1.mono (by decide))
  have hcomparison := tier_of_operand (t := .comparison) rfl hterm (hrest.1 _ (by decide))
  have hequality := tier_of_operand (t := .equality) rfl hcomparison (hrest.1 _ (by decide))
  rw [expression, assignment_eq_tier ?_, hequality]
  rintro ⟨name, line, sign, more, heq, -⟩
  cases heq

end Reader

/-! ## The statement -/

namespace Chain

open Reader

theorem allScannable_linkLexemes {links : List (ChainOperator × Nat)}
    (h : ∀ link ∈ links, (link.2 : Int) ≤ Word.greatest) :
    Lexeme.AllScannable (linkLexemes links) := by
  induction links with
  | nil => exact List.forall_mem_nil _
  | cons link links ih =>
      obtain ⟨hlink, hlinks⟩ := List.forall_mem_cons.1 h
      simp only [linkLexemes, Lexeme.allScannable_cons]
      exact ⟨.mark _, .number (Int.natCast_nonneg _) hlink, ih hlinks⟩

theorem Fits.allScannable {c : Chain} (h : c.Fits) : Lexeme.AllScannable c.lexemes := by
  have hfirst : (Lexeme.number c.first).Scannable := .number (Int.natCast_nonneg _) h.1
  have hlinks := allScannable_linkLexemes h.2
  simp [lexemes, Lexeme.Scannable.mark, hfirst, hlinks]

/-- The tokens of a statement that prints a chain, all on the first line. -/
def tokens (c : Chain) : List Token := onLine 1 c.lexemes

theorem tokens_eq (c : Chain) :
    c.tokens = ⟨.mark .printWord none, 1⟩ :: ⟨.mark .leftParen none, 1⟩ ::
      (⟨.number c.first, 1⟩ :: onLine 1 (linkLexemes c.links) ++
        ⟨.mark .rightParen none, 1⟩ :: ⟨.mark .semicolon none, 1⟩ :: []) := by
  simp [tokens, lexemes]

theorem closed_tokens (c : Chain) : Token.Closed (c.tokens ++ [Token.endOfInput 1]) :=
  ⟨_, List.getLast?_concat, rfl⟩

theorem statement_tokens (c : Chain) (room : Nat) :
    statement c.tokens.length (room + 13) c.tokens = .ok (.printStmt 1 c.tree) [] := by
  have hrounds : c.links.length ≤ c.tokens.length := by
    simp only [tokens_eq, onLine, List.length_cons, List.length_append, List.length_map,
      length_linkLexemes]
    omega
  have hexpression : ReadsExpression (expression c.tokens.length (room + 12)) _ c.tree :=
    expression_read_chain c hrounds
  generalize c.tokens.length = rounds at hexpression
  rw [tokens_eq]
  exact statement_read_print rfl rfl hexpression rfl rfl

/-- **A chain is read as its tree** within a limit of thirteen, however long it is. -/
theorem ofTokens_tokens {c : Chain} (hfits : c.Fits) {limit : Nat} (hlimit : 13 ≤ limit) :
    Program.ofTokens limit (c.tokens ++ [Token.endOfInput 1]) = .ok ⟨[.printStmt 1 c.tree]⟩ := by
  obtain ⟨room, rfl⟩ : ∃ room, limit = room + 13 := ⟨limit - 13, by omega⟩
  have hopen : ∀ t ∈ c.tokens, t.isEnd = false := hfits.allScannable.not_isEnd 1
  have hclosed := c.closed_tokens
  have hstatement := statement_tokens c room
  have hitems : items c.tokens.length closesProgram (statement c.tokens.length (room + 13))
      c.tokens = .ok [.printStmt 1 c.tree] [] := by
    obtain ⟨rounds, hrounds⟩ : ∃ n, c.tokens.length = n + 1 := ⟨_, rfl⟩
    rw [hrounds] at hstatement ⊢
    exact (itemsOnto_item rfl hstatement [] rounds).trans (itemsOnto_stop rfl _ rounds)
  rw [Program.ofTokens_split (room + 13) hopen rfl hclosed, program, Ending.bind_of_ok hitems]
  rfl

end Chain

end RillLang
