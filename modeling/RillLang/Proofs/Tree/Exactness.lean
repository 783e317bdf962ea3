import RillLang.Proofs.Tree.Completeness
import RillLang.Proofs.Tree.Room
import RillLang.Proofs.Tree.Soundness

/-!
# Exactly the programs of the grammar

A token list that ends with an end-of-input token is parsed to a program exactly when
the tokens before the first such token spell that program, as long as the nesting limit
is not reached (`ofTokens_eq_ok_iff_derives`).  So tokens after the first end-of-input
token do not matter, and no token list spells two programs.

* `ofTokens_split` — what is parsed is what stands before the first end.
* `ofTokens_of_derives` — a limit of twelve for each token is always enough.
* `ofTokens_of_derives_of_ne` — a smaller limit is enough if it is not reached.
* `Derives.unique` — the grammar is unambiguous.
-/

namespace RillLang

namespace Token

/-- The list ends with an end-of-input token. -/
def Closed (tokens : List Token) : Prop := ∃ last, tokens.getLast? = some last ∧ last.isEnd = true

theorem isEnd_of_mem_beforeEnd {tokens : List Token} {t : Token} (h : t ∈ beforeEnd tokens) :
    t.isEnd = false := by
  have hopen := List.all_eq_true.1 List.all_takeWhile t h
  simpa using hopen

theorem beforeEnd_append {before : List Token} (hbefore : ∀ t ∈ before, t.isEnd = false)
    {closing : Token} (hclosing : closing.isEnd = true) (after : List Token) :
    beforeEnd (before ++ closing :: after) = before := by
  rw [beforeEnd, List.takeWhile_append_of_pos (by simpa using hbefore),
    List.takeWhile_cons_of_neg (by simpa using hclosing), List.append_nil]

/-- A closed list has a first end-of-input token. -/
theorem Closed.exists_split {tokens : List Token} (h : Closed tokens) :
    ∃ before closing after, tokens = before ++ closing :: after ∧
      (∀ t ∈ before, t.isEnd = false) ∧ closing.isEnd = true := by
  obtain ⟨last, hlast, hend⟩ := h
  cases hfind : tokens.find? Token.isEnd with
  | none => exact absurd hend (List.find?_eq_none.1 hfind last (List.mem_of_getLast? hlast))
  | some closing =>
      obtain ⟨hclosing, before, after, htokens, hbefore⟩ := List.find?_eq_some_iff_append.1 hfind
      exact ⟨before, closing, after, htokens, by simpa using hbefore, hclosing⟩

end Token

namespace Program

open Reader Grammar

/-- What an ending of the reader means, where the end of the input is `closing`. -/
def ofEnding (closing : Token) :
    EStateM.Result Reject (List Token) Program → Except ParseError Program
  | .ok program _ => .ok program
  | .error reject rest => .error (reject.toParseError (rest.headD closing))

/-- What is parsed is what stands before the first end-of-input token. -/
theorem ofTokens_split (limit : Nat) {before after : List Token} {closing : Token}
    (hbefore : ∀ t ∈ before, t.isEnd = false) (hclosing : closing.isEnd = true)
    (hclosed : Token.Closed (before ++ closing :: after)) :
    ofTokens limit (before ++ closing :: after) =
      ofEnding closing (program before.length limit before) := by
  obtain ⟨last, hlast, hend⟩ := hclosed
  have hfind : (before ++ closing :: after).find? Token.isEnd = some closing :=
    List.find?_eq_some_iff_append.2 ⟨hclosing, before, after, rfl, by simpa using hbefore⟩
  rw [ofTokens, hlast, hfind, Token.beforeEnd_append hbefore hclosing]
  dsimp only
  rw [if_pos hend]
  rfl

theorem exists_ofTokens_eq {tokens : List Token} (hclosed : Token.Closed tokens) :
    ∃ closing, ∀ limit, ofTokens limit tokens =
      ofEnding closing
        (program (Token.beforeEnd tokens).length limit (Token.beforeEnd tokens)) := by
  obtain ⟨before, closing, after, rfl, hbefore, hclosing⟩ := hclosed.exists_split
  refine ⟨closing, fun limit => ?_⟩
  rw [Token.beforeEnd_append hbefore hclosing]
  exact ofTokens_split limit hbefore hclosing hclosed

/-- A list that is not closed is refused under every limit. -/
theorem ofTokens_of_not_closed (limit : Nat) {tokens : List Token}
    (h : ¬ Token.Closed tokens) : ofTokens limit tokens = .error .unclosed := by
  unfold ofTokens
  cases hlast : tokens.getLast? with
  | none => rfl
  | some last =>
      have hopen : ¬ last.isEnd = true := fun hend => h ⟨last, hlast, hend⟩
      cases tokens.find? Token.isEnd with
      | none => rfl
      | some closing => exact if_neg hopen

theorem ofEnding_eq_ok {closing : Token} {p : Program}
    {ending : EStateM.Result Reject (List Token) Program} :
    ofEnding closing ending = .ok p ↔ ∃ rest, ending = .ok p rest := by
  cases ending with
  | ok q rest => simp [ofEnding]
  | error reject rest => simp [ofEnding]

/-- The nesting limit is reported exactly when it cuts the reader short. -/
theorem ofEnding_ne_tooDeep {closing : Token}
    {ending : EStateM.Result Reject (List Token) Program} :
    (∀ found, ofEnding closing ending ≠ .error (.tooDeep found)) ↔
      ∀ rest, ending ≠ .error .tooDeep rest := by
  cases ending with
  | ok q rest => simp [ofEnding]
  | error reject rest => cases reject <;> simp [ofEnding, Reject.toParseError]

/-- Under a limit of twelve for each token, whatever the grammar has is parsed. -/
theorem ofTokens_of_derives {limit : Nat} {tokens : List Token} (hclosed : Token.Closed tokens)
    {p : Program} (h : Derives (Token.beforeEnd tokens) p)
    (hlimit : 12 * (Token.beforeEnd tokens).length ≤ limit) :
    ofTokens limit tokens = .ok p := by
  obtain ⟨closing, heq⟩ := exists_ofTokens_eq hclosed
  rw [heq, program_complete h hlimit]
  rfl

/-- A list that is not too deep under one limit is parsed the same under any larger one. -/
theorem ofTokens_within {limit limit' : Nat} (hle : limit ≤ limit') {tokens : List Token}
    (hclosed : Token.Closed tokens)
    (hroom : ∀ found, ofTokens limit tokens ≠ .error (.tooDeep found)) :
    ofTokens limit' tokens = ofTokens limit tokens := by
  obtain ⟨closing, heq⟩ := exists_ofTokens_eq hclosed
  rw [heq limit] at hroom ⊢
  rw [heq limit', program_within _ hle _ (ofEnding_ne_tooDeep.1 hroom)]

/-- Whatever the grammar has is parsed, unless the nesting limit is reached. -/
theorem ofTokens_of_derives_of_ne {limit : Nat} {tokens : List Token}
    (hclosed : Token.Closed tokens) {p : Program} (h : Derives (Token.beforeEnd tokens) p)
    (hroom : ∀ found, ofTokens limit tokens ≠ .error (.tooDeep found)) :
    ofTokens limit tokens = .ok p := by
  -- a limit that is large enough finds the program, and the given one finds the same
  have hle := Nat.le_max_left limit (12 * (Token.beforeEnd tokens).length)
  rw [← ofTokens_within hle hclosed hroom]
  exact ofTokens_of_derives hclosed h (Nat.le_max_right _ _)

theorem derives_of_ofTokens {limit : Nat} {tokens : List Token} {p : Program}
    (hclosed : Token.Closed tokens) (h : ofTokens limit tokens = .ok p) :
    Derives (Token.beforeEnd tokens) p := by
  obtain ⟨closing, heq⟩ := exists_ofTokens_eq hclosed
  rw [heq] at h
  obtain ⟨rest, hread⟩ := ofEnding_eq_ok.1 h
  exact program_sound (fun _ ht => Token.isEnd_of_mem_beforeEnd ht) hread

end Program

namespace Grammar

/-- No token list spells two programs. -/
theorem Derives.unique {tokens : List Token} {p q : Program} (hp : Derives tokens p)
    (hq : Derives tokens q) : p = q := by
  have hread := Reader.program_complete hp (Nat.le_refl _)
  rw [Reader.program_complete hq (Nat.le_refl _)] at hread
  cases hread
  rfl

end Grammar

open Grammar

/-- **The parser accepts exactly the grammar and builds exactly its tree.**  A closed list
that is not too deep is parsed to a program exactly when the tokens before its first
end-of-input token spell the program, what comes after that token has no influence on
the outcome, no tokens spell two programs, and under a limit of twelve for each token
every program of the grammar is found. -/
theorem ofTokens_eq_ok_iff_derives (limit : Nat) :
    (∀ tokens, Token.Closed tokens →
      (∀ found, Program.ofTokens limit tokens ≠ .error (.tooDeep found)) →
      ∀ p, Program.ofTokens limit tokens = .ok p ↔ Derives (Token.beforeEnd tokens) p) ∧
    (∀ before closing after, (∀ t ∈ before, t.isEnd = false) → closing.isEnd = true →
      Token.Closed (before ++ closing :: after) →
      Program.ofTokens limit (before ++ closing :: after) =
        Program.ofTokens limit (before ++ [closing])) ∧
    (∀ tokens p q, Derives tokens p → Derives tokens q → p = q) ∧
    (∀ tokens p, Token.Closed tokens → Derives (Token.beforeEnd tokens) p →
      12 * (Token.beforeEnd tokens).length ≤ limit → Program.ofTokens limit tokens = .ok p) := by
  refine ⟨?_, ?_, fun _ _ _ hp hq => hp.unique hq, fun _ _ hclosed hp hlimit =>
    Program.ofTokens_of_derives hclosed hp hlimit⟩
  · intro tokens hclosed hroom p
    exact ⟨Program.derives_of_ofTokens hclosed, fun h =>
      Program.ofTokens_of_derives_of_ne hclosed h hroom⟩
  · intro before closing after hbefore hclosing hclosed
    have hclosed' : Token.Closed (before ++ [closing]) := ⟨closing, by simp, hclosing⟩
    rw [Program.ofTokens_split limit hbefore hclosing hclosed,
      Program.ofTokens_split limit hbefore hclosing hclosed']

/-- The statement `a = -b * 2;` over three lines, with a brace after the end of the input:
the negation binds tighter than the product, each node has its line, and the brace does
not matter. -/
theorem derives_assigned_product :
    let before := [Token.identifier "a" 1, .mark .equal 1, .mark .minus 2, .identifier "b" 2,
      .mark .star 3, .number 2 3, .mark .semicolon 3]
    let after := [Token.mark .rightBrace 4, .endOfInput 4]
    let p : Program := ⟨[.exprStmt 1 (.assign 1 "a" (.binary 3 (some (.binary .multiply))
      (.unary 2 (some .negate) (.reference 2 "b")) (.literal 3 2)))]⟩
    Token.Closed (before ++ .endOfInput 3 :: after) ∧
      Program.ofTokens 40 (before ++ .endOfInput 3 :: after) = .ok p ∧
      Program.ofTokens 40 (before ++ [.endOfInput 3]) = .ok p ∧ Derives before p := by
  intro before after p
  have hclosed : Token.Closed (before ++ .endOfInput 3 :: after) := ⟨_, rfl, rfl⟩
  have hok : Program.ofTokens 40 (before ++ .endOfInput 3 :: after) = .ok p := rfl
  have hroom : ∀ found, Program.ofTokens 40 (before ++ .endOfInput 3 :: after) ≠
      .error (.tooDeep found) := by
    intro found
    rw [hok]
    rintro ⟨⟩
  refine ⟨hclosed, hok, ?_, ?_⟩
  · rw [← hok]
    exact ((ofTokens_eq_ok_iff_derives 40).2.1 before (.endOfInput 3) after (by decide) rfl
      hclosed).symm
  · exact ((ofTokens_eq_ok_iff_derives 40).1 _ hclosed hroom p).1 hok

end RillLang
