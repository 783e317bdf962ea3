import RillLang.Proofs.Layout
import RillLang.Proofs.Machine.Spine
import RillLang.Proofs.Streams
import RillLang.Proofs.Tree.Chain
import RillLang.Proofs.Word

/-!
# Chains of any length

The text `print(a + b * c - d);`, with as many numbers as one likes, is run to its end: it
prints the value of the chain, wrapped once, and nothing is reported (`run_chain`).  Neither
reading nor running takes more room for a longer chain.

* `Chain.scansAs_text` — the text scans as the lexemes of the chain.
* `Chain.spineYields_treeFrom` — its tree has its value.  The exact sum and product that
  `Chain.valueFrom` carries along stand for those of the tree up to wrapping.
-/

namespace RillLang

/-! ## Texts and their lexemes -/

namespace Token

/-- The text scans as the lexemes, whatever line it starts on. -/
def ScansAs (text : List Char) (lexemes : List Lexeme) : Prop :=
  ∀ line, ∃ tokens, ofPieces line (Piece.cut text) = .ok tokens ∧
    tokens.map lexeme = lexemes ++ [.endOfInput none]

theorem scansAs_nil : ScansAs [] [] := by
  intro line
  exact ⟨[endOfInput line], by rw [Piece.cut_nil, ofPieces_nil], rfl⟩

theorem ScansAs.spelling {rest : List Char} {lexemes : List Lexeme} (h : ScansAs rest lexemes)
    {a : Lexeme} (ha : a.Scannable) (hends : a.EndsBefore rest) :
    ScansAs (a.spelling ++ rest) (a :: lexemes) := by
  intro line
  obtain ⟨tokens, hscan, hlexemes⟩ := h line
  refine ⟨⟨a, line⟩ :: tokens, ?_, by rw [List.map_cons, hlexemes, List.cons_append]⟩
  rw [ofPieces_spelling ha line hends, hscan]
  rfl

theorem ScansAs.blanks {rest : List Char} {lexemes : List Lexeme} (h : ScansAs rest lexemes)
    {gap : List Char} (hgap : ∀ c ∈ gap, isBlank c = true) : ScansAs (gap ++ rest) lexemes := by
  induction gap with
  | nil => exact h
  | cons c gap ih =>
      obtain ⟨hc, hothers⟩ := List.forall_mem_cons.1 hgap
      intro line
      rw [List.cons_append, ofPieces_blank hc]
      exact ih hothers _

end Token

namespace Chain

open Token Lexeme

/-- No character goes on an operator of a chain. -/
theorem endsBefore_mark (op : ChainOperator) (rest : List Char) :
    (Lexeme.mark op.mark none).EndsBefore rest := by
  intro c _
  cases op <;> rfl

/-- A number ends where a link begins, or where the chain does. -/
theorem endsBefore_links {gap : String} (hgap : ∀ c ∈ gap.toList, isBlank c = true)
    (links : List (ChainOperator × Nat)) (n : Nat) {rest : List Char}
    (hrest : (Lexeme.number n).EndsBefore rest) :
    (Lexeme.number n).EndsBefore ((linksText gap links).toList ++ rest) := by
  cases links with
  | nil => exact hrest
  | cons link links =>
      obtain ⟨op, m⟩ := link
      intro c hc
      rw [extendedBy_number]
      simp only [linksText, String.toList_append, List.append_assoc] at hc
      cases hchars : gap.toList with
      | nil =>
          rw [hchars] at hc
          cases op <;> cases hc <;> rfl
      | cons d gap' =>
          rw [hchars] at hc hgap
          cases hc
          have hblank : isBlank c = true := hgap c (List.mem_cons_self ..)
          exact not_isDigit_of_not_isWordChar (not_isWordChar_of_isBlank hblank)

theorem scansAs_links {gap : String} (hgap : ∀ c ∈ gap.toList, isBlank c = true)
    {links : List (ChainOperator × Nat)} (hlinks : ∀ link ∈ links, (link.2 : Int) ≤ Word.greatest)
    {rest : List Char} {lexemes : List Lexeme} (hrest : ScansAs rest lexemes)
    (hend : ∀ n : Nat, (Lexeme.number n).EndsBefore rest) :
    ScansAs ((linksText gap links).toList ++ rest) (linkLexemes links ++ lexemes) := by
  induction links with
  | nil => exact hrest
  | cons link links ih =>
      obtain ⟨op, n⟩ := link
      obtain ⟨hn, hothers⟩ := List.forall_mem_cons.1 hlinks
      have hnumber := (ih hothers).spelling (.number (Int.natCast_nonneg n) hn)
        (endsBefore_links hgap links n (hend n))
      have hoperator := (hnumber.blanks hgap).spelling (.mark op.mark) (endsBefore_mark op _)
      simp only [linksText, String.toList_append, List.append_assoc, linkLexemes]
      exact hoperator.blanks hgap

/-- The text of a chain scans as its lexemes. -/
theorem scansAs_text {c : Chain} (hfits : c.Fits) {gap : String}
    (hgap : ∀ c ∈ gap.toList, isBlank c = true) : ScansAs (c.text gap).toList c.lexemes := by
  have hsemicolon : ScansAs [';'] [.mark .semicolon none] :=
    scansAs_nil.spelling (.mark .semicolon) (endsBefore_nil _)
  have hclose : ScansAs [')', ';'] [.mark .rightParen none, .mark .semicolon none] :=
    hsemicolon.spelling (.mark .rightParen) fun _ _ => rfl
  have hend (n : Nat) : (Lexeme.number n).EndsBefore [')', ';'] := by
    rintro c ⟨⟩
    rfl
  have hnumber := (scansAs_links hgap hfits.2 hclose hend).spelling
    (.number (Int.natCast_nonneg c.first) hfits.1) (endsBefore_links hgap c.links c.first (hend _))
  have hopen := hnumber.spelling (.mark .leftParen) fun _ _ => rfl
  have hprint := hopen.spelling (.mark .printWord) (by rintro c ⟨⟩; rfl)
  have htext : (c.text gap).toList = (Lexeme.mark .printWord none).spelling ++
      ((Lexeme.mark .leftParen none).spelling ++ ((Lexeme.number c.first).spelling ++
        ((linksText gap c.links).toList ++ [')', ';']))) := by
    simp only [text, String.toList_append, List.append_assoc]
    rfl
  rw [htext]
  exact hprint

end Chain

/-! ## The value of a chain -/

namespace Eval

/-- The evaluation gives the value and leaves the environment as it was. -/
def Yields (x : Eval Int) (v : Int) : Prop := ∀ env, x env = .ok v env

/-- Along its spine the node has the value, in every room that is not smaller than `need`. -/
def SpineYields (need : Nat) (e : Node) (v : Int) : Prop :=
  ∀ room, Yields (alongSpine (room + need) e) v

theorem spineYields_literal (line v : Int) : SpineYields 1 (.literal line v) v := fun _ _ => rfl

/-- A node by itself takes two units more than along its spine. -/
theorem SpineYields.evaluate {need : Nat} {e : Node} {v : Int} (h : SpineYields need e v)
    (room : Nat) : Yields (Eval.evaluate (room + need + 2) e) v := by
  by_cases hbinary : ∃ line op l r, e = .binary line op l r
  · obtain ⟨line, op, l, r, rfl⟩ := hbinary
    rw [evaluate_binary]
    exact h room
  · have hspine := h (room + 2)
    rw [alongSpine_of_ne fun line op l r he => hbinary ⟨line, op, l, r, he⟩] at hspine
    rwa [Nat.add_right_comm] at hspine

theorem SpineYields.binary {need : Nat} {l r : Node} {a b v : Int} {op : BinaryOperator}
    (hl : SpineYields need l a) (hr : ∀ room, Yields (Eval.evaluate (room + need) r) b)
    (hop : op.apply a b = .ok v) (line : Int) :
    SpineYields need (.binary line (some (.binary op)) l r) v := by
  intro room env
  rw [alongSpine_binary, Ending.bind_of_ok (hl room env), Ending.bind_of_ok (hr room env),
    applyBinary, hop]
  rfl

end Eval

namespace Chain

open Eval

/-- A product of a chain: it stands for the exact product `q`. -/
def Multiplies (product : Node) (q : Int) : Prop := SpineYields 1 product (Word.wrap q)

/-- What comes before a product stands for the exact sum; before the first product it is
zero. -/
def Pending.Sums : Pending → Int → Prop
  | nothing, sum => sum = 0
  | plus node, sum => SpineYields 3 node (Word.wrap sum)
  | minus node, sum => SpineYields 3 node (Word.wrap sum)

/-- A product with the sign before it. -/
def Pending.signed : Pending → Int → Int
  | nothing, q => q
  | plus _, q => q
  | minus _, q => -q

theorem Pending.signed_mul (pending : Pending) (q n : Int) :
    pending.signed (q * n) = pending.signed q * n := by
  cases pending with
  | minus node => exact (Int.neg_mul q n).symm
  | _ => rfl

theorem multiplies_literal {n : Nat} (h : (n : Int) ≤ Word.greatest) :
    Multiplies (.literal 1 n) n := by
  rw [Multiplies, Word.wrap_natCast h]
  exact spineYields_literal 1 n

theorem Multiplies.times {product : Node} {q : Int} (hproduct : Multiplies product q) {n : Nat}
    (h : (n : Int) ≤ Word.greatest) :
    Multiplies (.binary 1 (some (.binary .multiply)) product (.literal 1 n)) (q * n) := by
  refine hproduct.binary (b := Word.wrap n) (fun room env => ?_) ?_ 1
  · rw [Word.wrap_natCast h]
    rfl
  · rw [BinaryOperator.apply, Word.wrap_mul]

/-- A sum and the product after it stand for their exact sum. -/
theorem Pending.Sums.join {pending : Pending} {sum q : Int} {product : Node}
    (hsum : pending.Sums sum) (hproduct : Multiplies product q) :
    SpineYields 3 (pending.join product) (Word.wrap (sum + pending.signed q)) := by
  cases pending with
  | nothing =>
      obtain rfl : sum = 0 := hsum
      rw [Int.zero_add]
      exact fun room => hproduct (room + 2)
  | plus node =>
      refine SpineYields.binary hsum hproduct.evaluate ?_ 1
      rw [BinaryOperator.apply, Word.wrap_add]
      rfl
  | minus node =>
      refine SpineYields.binary hsum hproduct.evaluate ?_ 1
      rw [BinaryOperator.apply, Word.wrap_sub]
      rfl

/-- The tree of links has the exact value of the links, wrapped.  The induction is on the
links; a sign finishes the product before it, which then is part of the sum. -/
theorem spineYields_treeFrom {links : List (ChainOperator × Nat)}
    (hlinks : ∀ link ∈ links, (link.2 : Int) ≤ Word.greatest) {pending : Pending} {sum q : Int}
    {product : Node} (hsum : pending.Sums sum) (hproduct : Multiplies product q) :
    SpineYields 3 (treeFrom pending product links)
      (Word.wrap (valueFrom sum (pending.signed q) links)) := by
  induction links generalizing pending sum q product with
  | nil => exact hsum.join hproduct
  | cons link links ih =>
      obtain ⟨op, n⟩ := link
      obtain ⟨hn, hothers⟩ := List.forall_mem_cons.1 hlinks
      have hjoin := hsum.join hproduct
      cases op with
      | plus =>
          have hplus : (Pending.plus (pending.join product)).Sums (sum + pending.signed q) := hjoin
          exact ih hothers hplus (multiplies_literal hn)
      | minus =>
          have hminus : (Pending.minus (pending.join product)).Sums (sum + pending.signed q) :=
            hjoin
          exact ih hothers hminus (multiplies_literal hn)
      | times =>
          have htimes := ih hothers hsum (hproduct.times hn)
          rw [Pending.signed_mul] at htimes
          exact htimes

/-- A chain prints its value, wrapped. -/
theorem interpret_tree [Closing] {c : Chain} (hfits : c.Fits) {limit : Nat} (hlimit : 6 ≤ limit)
    (rounds : Nat) (m : Machine) :
    Program.interpret limit rounds ⟨[.printStmt 1 c.tree]⟩ m =
      .ok () ⟨m.env, m.printed.push (Word.wrap c.value)⟩ := by
  obtain ⟨room, rfl⟩ : ∃ room, limit = room + 6 := ⟨limit - 6, by omega⟩
  have hnothing : Pending.nothing.Sums 0 := rfl
  have htree : SpineYields 3 c.tree (Word.wrap c.value) :=
    spineYields_treeFrom hfits.2 hnothing (multiplies_literal hfits.1)
  have hprint : Exec.execute rounds (room + 6) (.printStmt 1 c.tree) m =
      .ok () ⟨m.env, m.printed.push (Word.wrap c.value)⟩ := by
    have heval : Exec.eval (evaluate (room + 5) c.tree) m = .ok (Word.wrap c.value) m := by
      rw [Exec.eval, htree.evaluate room m.env]
    exact Ending.bind_of_ok heval
  exact Ending.bind_of_ok hprint

/-- A text that scans as a chain parses to a program that prints the value of the chain. -/
theorem exists_program_of_scan [Closing] {c : Chain} (hfits : c.Fits) {tokens : List Token}
    (hlexemes : tokens.map Token.lexeme = c.lexemes ++ [.endOfInput none]) {limit : Nat}
    (hlimit : 13 ≤ limit) :
    ∃ p, Program.ofTokens limit tokens = .ok p ∧ ∀ rounds m,
      p.interpret limit rounds m = .ok () ⟨m.env, m.printed.push (Word.wrap c.value)⟩ := by
  have hsame : Token.SameLexemes (c.tokens ++ [.endOfInput 1]) tokens := by
    refine hlexemes.trans ?_
    simp [Chain.tokens, Grammar.onLine, Token.endOfInput, Function.comp_def]
  have hparsed := Program.parsedAlike_relined limit c.closed_tokens hsame
  rw [ofTokens_tokens hfits hlimit] at hparsed
  generalize Program.ofTokens limit tokens = outcome at hparsed
  cases hparsed with
  | @ok _ p halike =>
      refine ⟨p, rfl, fun rounds m => ?_⟩
      rw [← Program.interpret_eq_of_alike halike]
      exact interpret_tree hfits (by omega) rounds m

end Chain

/-- **Chains of any length run end to end.**  A statement that prints a chain of sums and
products of words, with any blanks around its operators, prints the exact value of the chain,
wrapped once, under every nesting limit that is at least thirteen; it reports nothing, and in
particular not that the nesting is too deep. -/
theorem run_chain [Closing] {limits : Limits} (hlimits : 13 ≤ limits.nesting) {c : Chain}
    (hfits : c.Fits) {gap : String} (hgap : ∀ ch ∈ gap.toList, isBlank ch = true)
    (terminal : Bool) :
    run limits { terminal } (c.text gap) = ⟨toString (Word.wrap c.value) ++ "\n", "", .ok 0⟩ := by
  obtain ⟨tokens, hscan, hlexemes⟩ := Chain.scansAs_text hfits hgap 1
  obtain ⟨p, hparse, hinterpret⟩ := Chain.exists_program_of_scan hfits hlexemes hlimits
  rw [run_of_ok hscan hparse]
  simp [tokenSection, showAndInterpret, interpretFresh, hinterpret, Machine.output,
    Machine.fresh, Machine.textOf, Machine.lineOf]

example :
    let c : Chain := ⟨2, [(.plus, 3), (.times, 4), (.minus, 5)]⟩
    c.text "" = "print(2+3*4-5);" ∧ c.value = 9 := by decide

/-- Two products that overflow, with a difference between them. -/
theorem run_chain_overflow :
    let c : Chain := ⟨9223372036854775807, [(.times, 9223372036854775807), (.minus, 3),
      (.times, 4611686018427387904), (.plus, 7)]⟩
    c.Fits ∧ run {} {} (c.text " ") = ⟨"4611686018427387912\n", "", .ok 0⟩ := by
  intro c
  have hfits : c.Fits := by decide
  have hvalue : Word.wrap c.value = 4611686018427387912 := by decide
  have hrun : run {} {} (c.text " ") = ⟨toString (Word.wrap c.value) ++ "\n", "", .ok 0⟩ :=
    run_chain (by decide) hfits (by simp [isBlank]) false
  rw [hvalue] at hrun
  exact ⟨hfits, hrun⟩

end RillLang
