import RillLang.Proofs.Ending
import RillLang.Tree.Grammar

/-!
# What one reader does

Each reader of the parser is described once: what it takes, or what it hands the
tokens on to.  The proofs about whole programs use these descriptions and look at
no reader's definition again.

* `takeMark_eq_ok`, `takeName_eq_ok` — a single token.
* `assignment_cases`, `unary_cases`, `primary_cases` — the readers that look at the
  tokens before they choose.
* `statement_eq`, `elseBranch_eq` — the choices made by the kind of the next token.
-/

namespace RillLang

namespace Grammar

theorem isMark_mk (m : Mark) (note : Option String) (line : Int) :
    IsMark m ⟨.mark m note, line⟩ := rfl

/-- A mark token carries its mark, and perhaps a note. -/
theorem IsMark.exists_note {m : Mark} {t : Token} (h : IsMark m t) :
    ∃ note, t = ⟨.mark m note, t.line⟩ := by
  obtain ⟨lexeme, line⟩ := t
  cases lexeme with
  | mark m' note =>
      have hm : m' = m := by simpa [IsMark, Token.kind, Lexeme.kind] using h
      exact ⟨note, by rw [hm]⟩
  | _ => simp [IsMark, Token.kind, Lexeme.kind] at h

/-- The tokens begin like an assignment: a name, then an equals sign. -/
def OpensAssignment (tokens : List Token) : Prop :=
  ∃ name line sign rest,
    tokens = ⟨.identifier name, line⟩ :: sign :: rest ∧ IsMark .equal sign

end Grammar

namespace Reader

open Grammar

/-! ## Single tokens -/

/-- Past the last token no mark comes. -/
theorem kindAt_nil_ne_mark (m : Mark) : kindAt [] ≠ .mark m := nofun

theorem takeMark_cons {m : Mark} {t : Token} (h : IsMark m t) (rest : List Token) :
    takeMark m (t :: rest) = .ok t.line rest := by
  obtain ⟨note, ht⟩ := h.exists_note
  rw [ht]
  simp [takeMark]

/-- A mark is taken exactly where it stands. -/
theorem takeMark_eq_ok {m : Mark} {tokens rest : List Token} {line : Int} :
    takeMark m tokens = .ok line rest ↔
      ∃ t, tokens = t :: rest ∧ IsMark m t ∧ t.line = line := by
  constructor
  · intro h
    unfold takeMark at h
    split at h
    · rename_i m' note line' rest'
      split at h
      · rename_i hm
        cases h
        exact ⟨_, rfl, by rw [hm]; exact isMark_mk m note line, rfl⟩
      · cases h
    · cases h
  · rintro ⟨t, rfl, hm, rfl⟩
    exact takeMark_cons hm rest

theorem takeName_eq_ok {tokens rest : List Token} {x : String} :
    takeName tokens = .ok x rest ↔
      ∃ name line, tokens = ⟨.identifier name, line⟩ :: rest ∧ x = identifierName name := by
  constructor
  · intro h
    unfold takeName at h
    split at h
    · rename_i name line rest'
      cases h
      exact ⟨name, line, rfl, rfl⟩
    · cases h
  · rintro ⟨name, line, rfl, rfl⟩
    rfl

/-- A mark is refused exactly where another token stands, which is not taken. -/
theorem takeMark_eq_error {m : Mark} {tokens rest : List Token} {reject : Reject} :
    takeMark m tokens = .error reject rest ↔
      reject = .unexpected (.kind (.mark m)) ∧ rest = tokens ∧ kindAt tokens ≠ .mark m := by
  by_cases hk : kindAt tokens = .mark m
  · cases tokens with
    | nil => cases hk
    | cons t after => simp [takeMark_cons (m := m) hk, hk]
  · have hrefuse : takeMark m tokens = .error (.unexpected (.kind (.mark m))) tokens := by
      unfold takeMark
      split
      · rename_i m' note line after
        rw [if_neg]
        rintro rfl
        exact hk rfl
      · rfl
    simp [hrefuse, hk, eq_comm]

theorem takeName_eq_error {tokens rest : List Token} {reject : Reject} :
    takeName tokens = .error reject rest ↔
      reject = .unexpected (.kind .identifier) ∧ rest = tokens ∧ kindAt tokens ≠ .identifier := by
  unfold takeName
  split
  · simp [kindAt, Token.kind, Lexeme.kind]
  · rename_i hname
    have hk : kindAt tokens ≠ .identifier := by
      intro hk
      rcases tokens with _ | ⟨⟨lexeme, line⟩, after⟩
      · cases hk
      · cases lexeme with
        | identifier name => exact hname name line after rfl
        | _ => cases hk
    simp [hk, eq_comm]

/-- The line of the next token is always there, and takes nothing. -/
theorem exists_nextLine (tokens : List Token) : ∃ line, nextLine tokens = .ok line tokens := by
  cases tokens with
  | nil => exact ⟨0, rfl⟩
  | cons t rest => exact ⟨t.line, rfl⟩

/-- Where no rounds are left there are no tokens. -/
theorem eq_nil_of_length_le_zero {tokens : List Token} (h : tokens.length ≤ 0) : tokens = [] :=
  List.length_eq_zero_iff.1 (Nat.le_zero.1 h)

/-! ## Readers that look ahead -/

/-- An assignment is read where a name has an equals sign after it; elsewhere the
tokens go to the loosest tier. -/
theorem assignment_cases (tokens : List Token) :
    (∃ name line sign rest,
      tokens = ⟨.identifier name, line⟩ :: sign :: rest ∧ IsMark .equal sign ∧
      ∀ rounds room, assignment rounds (room + 1) tokens =
        (assignment rounds room >>= fun e =>
          pure (.assign line (identifierName name) e)) rest) ∨
    (¬ OpensAssignment tokens ∧
      ∀ rounds room, assignment rounds (room + 1) tokens = tier rounds room .equality tokens) := by
  by_cases h : OpensAssignment tokens
  · obtain ⟨name, line, sign, rest, rfl, hsign⟩ := h
    refine .inl ⟨name, line, sign, rest, rfl, hsign, ?_⟩
    intro rounds room
    obtain ⟨note, hs⟩ := hsign.exists_note
    rw [hs, assignment]
    cases hr : assignment rounds room rest with
    | ok e rest' => simp only [Ending.bind_of_ok hr, hr]; rfl
    | error reject rest' => simp only [Ending.bind_of_error hr, hr]
  · refine .inr ⟨h, ?_⟩
    intro rounds room
    rw [assignment]
    dsimp only
    split
    · rename_i name line note line' rest
      exact absurd ⟨name, line, _, rest, rfl, isMark_mk .equal note line'⟩ h
    · rfl

/-- A minus sign is read as a negation; other tokens go to the primary expressions. -/
theorem unary_cases (tokens : List Token) :
    (∃ sign rest, tokens = sign :: rest ∧ IsMark .minus sign ∧
      ∀ rounds room, unary rounds (room + 1) tokens =
        (unary rounds room >>= fun e => pure (.unary sign.line (some .negate) e)) rest) ∨
    (kindAt tokens ≠ .mark .minus ∧
      ∀ rounds room, unary rounds (room + 1) tokens = primary rounds room tokens) := by
  by_cases h : ∃ sign rest, tokens = sign :: rest ∧ IsMark .minus sign
  · obtain ⟨sign, rest, rfl, hsign⟩ := h
    refine .inl ⟨sign, rest, rfl, hsign, ?_⟩
    intro rounds room
    obtain ⟨note, hs⟩ := hsign.exists_note
    rw [hs, unary]
    cases hr : unary rounds room rest with
    | ok e rest' => simp only [Ending.bind_of_ok hr, hr]; rfl
    | error reject rest' => simp only [Ending.bind_of_error hr, hr]
  · refine .inr ⟨?_, ?_⟩
    · intro hk
      cases tokens with
      | nil => cases hk
      | cons t rest => exact h ⟨t, rest, rfl, hk⟩
    · intro rounds room
      rw [unary]
      dsimp only
      split
      · rename_i note line rest
        exact absurd ⟨_, rest, rfl, isMark_mk .minus note line⟩ h
      · rfl

/-- A primary expression is a number, a name, or something between parentheses;
before anything else the reader refuses. -/
theorem primary_cases (tokens : List Token) :
    (∃ value line rest, tokens = ⟨.number value, line⟩ :: rest ∧
      ∀ rounds room, primary rounds (room + 1) tokens = .ok (.literal line value) rest) ∨
    (∃ name line rest, tokens = ⟨.identifier name, line⟩ :: rest ∧
      ∀ rounds room, primary rounds (room + 1) tokens =
        .ok (.reference line (identifierName name)) rest) ∨
    (kindAt tokens = .mark .leftParen ∧
      ∀ rounds room, primary rounds (room + 1) tokens =
        parenthesised (expression rounds room) tokens) ∨
    (kindAt tokens ∉ [.number, .identifier, .mark .leftParen] ∧
      ∀ rounds room, primary rounds (room + 1) tokens =
        .error (.unexpected (.phrase "expression")) tokens) := by
  rcases tokens with _ | ⟨⟨lexeme, line⟩, rest⟩
  · exact .inr (.inr (.inr ⟨by decide, fun rounds room => by rw [primary]⟩))
  · cases lexeme with
    | number value => exact .inl ⟨value, line, rest, rfl, fun rounds room => by rw [primary]⟩
    | identifier name =>
        exact .inr (.inl ⟨name, line, rest, rfl, fun rounds room => by rw [primary]⟩)
    | mark m note =>
        by_cases hm : m = .leftParen
        · subst hm
          exact .inr (.inr (.inl ⟨rfl, fun rounds room => by rw [primary]⟩))
        · refine .inr (.inr (.inr ⟨by simp [kindAt, Token.kind, Lexeme.kind, hm],
            fun rounds room => ?_⟩))
          rw [primary]
          all_goals simp [hm]
    | endOfInput note =>
        exact .inr (.inr (.inr ⟨by simp [kindAt, Token.kind, Lexeme.kind],
          fun rounds room => by rw [primary]⟩))

/-- The kind of the first token chooses the form of a statement. -/
theorem statement_eq (rounds room : Nat) (tokens : List Token) :
    statement rounds (room + 1) tokens =
      match kindAt tokens with
      | .mark .letWord => letStatement (expression rounds room) tokens
      | .mark .printWord => printStatement (expression rounds room) tokens
      | .mark .ifWord => conditional rounds room tokens
      | .mark .whileWord => loop rounds room tokens
      | .mark .leftBrace =>
        (nextLine >>= fun line => block rounds room >>= fun body =>
          pure (.block line body)) tokens
      | _ => expressionStatement (expression rounds room) tokens := by
  have hk : nextKind tokens = .ok (kindAt tokens) tokens := rfl
  rw [statement, Ending.bind_of_ok hk]
  cases kindAt tokens with
  | mark m => cases m <;> rfl
  | _ => rfl

/-- An `else` block is read where the word stands, and nothing elsewhere. -/
theorem elseBranch_eq (block : Reader (List Node)) (tokens : List Token) :
    elseBranch block tokens =
      if kindAt tokens = .mark .elseWord then
        (takeMark .elseWord >>= fun _ => block >>= fun body => pure (some body)) tokens
      else .ok none tokens := by
  have hk : nextKind tokens = .ok (kindAt tokens) tokens := rfl
  rw [elseBranch, Ending.bind_of_ok hk]
  cases kindAt tokens with
  | mark m => cases m <;> rfl
  | _ => rfl

end Reader

end RillLang
