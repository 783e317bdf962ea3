import RillLang.Proofs.Machine.Printed
import RillLang.Proofs.Token.Offence
import RillLang.Proofs.Tree.Lookahead

/-!
# Messages are one line

Whatever text a run is given, the message of its failure has no line feed in it.  A message
shows parts of the text: a stray character, which is quoted; the digits of a number that is
too great; a name or a token.

* `Text.oneLine_quoted` — quoting hides every line feed.
* `Offends.oneLine_message`, `Fault.From.oneLine_message` — scanning and running.
* `Program.exists_reject_of_scanned` — what can be wrong with tokens that come from a text,
  and so `Program.oneLine_message`.
-/

namespace RillLang

open Node

/-- The text has no line feed. -/
def OneLine (text : String) : Prop := text.toList.count '\n' = 0

instance (text : String) : Decidable (OneLine text) := inferInstanceAs (Decidable (_ = _))

theorem oneLine_iff {text : String} : OneLine text ↔ '\n' ∉ text.toList := List.count_eq_zero

@[simp] theorem oneLine_append {text more : String} :
    OneLine (text ++ more) ↔ OneLine text ∧ OneLine more := by
  simp [oneLine_iff]

/-- A text whose characters are all of a kind that line feeds are not has none. -/
theorem oneLine_of_forall {p : Char → Bool} (hnewline : p '\n' = false) {text : String}
    (h : ∀ c ∈ text.toList, p c = true) : OneLine text := by
  refine oneLine_iff.2 fun hmem => ?_
  rw [h _ hmem] at hnewline
  cases hnewline

/-! ## Numbers and names -/

@[simp] theorem oneLine_toString (v : Int) : OneLine (toString v) := by
  rw [oneLine_iff]
  have hnumeral := numeral_toString v
  generalize (toString v).toList = text at hnumeral
  cases hnumeral with
  | zero => decide
  | positive _ hdigits =>
      intro hmem
      cases hdigits _ hmem
  | negative _ hdigits =>
      intro hmem
      rcases List.mem_cons.1 hmem with hminus | hmem
      · cases hminus
      · cases hdigits _ hmem

@[simp] theorem oneLine_toString_nat (n : Nat) : OneLine (toString n) :=
  oneLine_toString (Int.ofNat n)

theorem oneLine_of_isName {x : String} (h : isName x = true) : OneLine x := by
  refine oneLine_of_forall (p := isWordChar) rfl ?_
  obtain ⟨c, cs, hchars, hc, hcs, -⟩ := exists_of_isName h
  rw [hchars]
  exact List.forall_mem_cons.2 ⟨isWordChar_of_isWordStart hc, hcs⟩

/-! ## Quoted text -/

namespace Text

theorem hexDigit_ne_newline {n : Nat} (h : n < 16) : hexDigit n ≠ '\n' := by
  revert n
  decide

theorem newline_not_mem_hexDigits (width n : Nat) : '\n' ∉ hexDigits width n := by
  induction width generalizing n with
  | zero => exact List.not_mem_nil
  | succ width ih =>
      have hlast := hexDigit_ne_newline (Nat.mod_lt n (by decide : 0 < 16))
      simp [hexDigits, ih, hlast.symm]

namespace Quoted

theorem quoteFor_ne_newline (text : List Char) : quoteFor text ≠ '\n' := by
  unfold quoteFor
  split <;> decide

theorem newline_not_mem_numeric (c : Char) : '\n' ∉ numeric c := by
  unfold numeric
  split
  · simp [newline_not_mem_hexDigits]
  split <;> simp [newline_not_mem_hexDigits]

/-- A character is written without a line feed; a line feed is one of those that are escaped. -/
theorem newline_not_mem_escape {quote : Char} (hquote : quote ≠ '\n') (c : Char) :
    '\n' ∉ escape quote c := by
  unfold escape
  split
  case isTrue hspecial =>
    rw [Bool.or_eq_true, beq_iff_eq, beq_iff_eq] at hspecial
    rcases hspecial with rfl | rfl
    · simp [hquote.symm]
    · decide
  case isFalse =>
    split
    · decide
    split
    · decide
    case isFalse hnewline =>
      split
      · decide
      split
      · intro hmem
        rw [← List.mem_singleton.1 hmem] at hnewline
        exact hnewline rfl
      · exact newline_not_mem_numeric c

end Quoted

/-- Quoted text is on one line. -/
@[simp] theorem oneLine_quoted (text : String) : OneLine (quoted text) := by
  have hquote := Quoted.quoteFor_ne_newline text.toList
  have hescape := Quoted.newline_not_mem_escape hquote
  simp [oneLine_iff, quoted, Quoted.encode, hquote.symm, hescape]

end Text

/-! ## Scan errors and faults -/

/-- The message for an offence is on one line. -/
theorem Offends.oneLine_message {text : List Char} {i : Nat} {e : ScanError}
    (h : Offends text i e) : OneLine e.message := by
  cases h with
  | stray =>
      show OneLine ("Unexpected character " ++ _ ++ " on line " ++ _)
      simp only [oneLine_append, Text.oneLine_quoted, oneLine_toString]
      decide
  | tooManyDigits =>
      show OneLine (_ ++ _ ++ _ ++ _ ++ _ ++ _ ++ _)
      simp only [oneLine_append, oneLine_toString_nat]
      decide
  | outOfRange =>
      have hdigits : OneLine (String.ofList (digitsAt text i)) := by
        refine oneLine_of_forall (p := isDigit) rfl ?_
        rw [String.toList_ofList]
        exact List.all_eq_true.1 List.all_takeWhile
      show OneLine ("Number literal " ++ _ ++ " out of range on line " ++ _)
      simp only [oneLine_append, hdigits, oneLine_toString]
      decide

/-- The message for a fault of a program whose names are names is on one line. -/
theorem Fault.From.oneLine_message {tokens : List Token} {fault : Fault} (h : fault.From tokens)
    (hnames : ∀ x, NamedIn tokens x → OneLine x) : OneLine fault.message := by
  cases h with
  | undefinedVariable hx =>
      show OneLine ("Undefined variable '" ++ _ ++ "'")
      simp only [oneLine_append, hnames _ hx]
      decide
  | divisionByZero => decide
  | nestingTooDeep => decide
  | outOfRounds => decide

/-! ## Parse errors -/

theorem Kind.oneLine_displayName (k : Kind) : OneLine k.displayName := by
  cases k with
  | number => decide
  | identifier => decide
  | mark m => cases m <;> decide
  | endOfInput => decide

/-- A token that program text can have is described on one line. -/
theorem Lexeme.Scannable.oneLine_describe {t : Token} (h : t.lexeme.Scannable) :
    OneLine t.describe := by
  obtain ⟨lexeme, line⟩ := t
  cases h with
  | number =>
      simp only [Token.describe, oneLine_append, oneLine_toString]
      decide
  | name hx =>
      simp only [Token.describe, identifierName, Option.getD_some, oneLine_append,
        oneLine_of_isName hx]
      decide
  | mark m => exact Kind.oneLine_displayName (.mark m)

theorem Token.Scanned.oneLine_describe {tokens : List Token} (h : Scanned tokens) {t : Token}
    (ht : t ∈ tokens) : OneLine t.describe := by
  obtain ⟨body, line, rfl, hbody⟩ := h
  rcases List.mem_append.1 ht with ht | ht
  · exact (hbody t ht).oneLine_describe
  · rw [List.mem_singleton.1 ht]
    exact Kind.oneLine_displayName .endOfInput

/-- The names of a scanned list are on one line. -/
theorem Token.Scanned.oneLine_of_namedIn {tokens : List Token} (h : Scanned tokens) {x : String}
    (hx : NamedIn tokens x) : OneLine x := by
  obtain ⟨line, hmem⟩ := hx
  have hdescribe := h.oneLine_describe hmem
  simp only [describe, identifier, identifierName, Option.getD_some, oneLine_append] at hdescribe
  exact hdescribe.1.2

namespace Program

/-- A scanned list that is no program has a token that is too deep, or one in place of what was
expected: a token of some kind, or an expression. -/
theorem exists_reject_of_scanned {limit : Nat} {tokens : List Token} {e : ParseError}
    (hscanned : Token.Scanned tokens) (herror : ofTokens limit tokens = .error e) :
    ∃ (reject : Reject) (found : Token), found ∈ tokens ∧ e = reject.toParseError found ∧
      (reject = .tooDeep ∨ reject.IsUnexpected) := by
  obtain ⟨before, closing, after, rfl, hbefore, hclosing⟩ := hscanned.closed.exists_split
  rw [ofTokens_split limit hbefore hclosing hscanned.closed] at herror
  cases hread : Reader.program before.length limit before with
  | ok p rest =>
      rw [hread] at herror
      cases herror
  | error reject rest =>
      rw [hread] at herror
      cases herror
      obtain ⟨ts, rfl⟩ :=
        ((Reader.mimics_program before.length before.length limit).leaves before).of_error hread
      refine ⟨reject, rest.headD closing, ?_, rfl, ?_⟩
      · cases rest with
        | nil => simp
        | cons t rest => simp
      · by_cases hdeep : reject = .tooDeep
        · exact .inl hdeep
        · exact .inr (Reader.program_isUnexpected hread hdeep).1

/-- The message for a scanned list that is no program is on one line. -/
theorem oneLine_message {limit : Nat} {tokens : List Token} {e : ParseError}
    (hscanned : Token.Scanned tokens) (herror : ofTokens limit tokens = .error e) :
    OneLine e.message := by
  obtain ⟨reject, found, hfound, rfl, hreject⟩ := exists_reject_of_scanned hscanned herror
  have hdescribe := hscanned.oneLine_describe hfound
  rcases hreject with rfl | hreject
  · show OneLine ("Nesting too deep at " ++ _ ++ " on line " ++ _)
    simp only [oneLine_append, hdescribe, oneLine_toString]
    decide
  · have hexpected : ∀ expected, OneLine (Expected.displayName expected) →
        OneLine (ParseError.message (.unexpected expected found found.line)) := by
      intro expected h
      show OneLine ("Expected " ++ _ ++ ", found " ++ _ ++ " on line " ++ _)
      simp only [oneLine_append, h, hdescribe, oneLine_toString]
      decide
    cases hreject with
    | kind k => exact hexpected (.kind k) k.oneLine_displayName
    | expression => exact hexpected (.phrase "expression") (by decide)

end Program

end RillLang
