import Mathlib.Control.Monad.Basic
import RillLang.Proofs.Token.Munch

/-!
# Scanning by lines

A text can be scanned in two parts, before and after any line feed: the outcome of the whole
is made of the outcomes of the parts, with the lines of the second counted on from those of the
first (`scan_line_break`).
-/

namespace RillLang

namespace Token

/-- The tokens of a text are closed by the end of the input on its last line. -/
theorem Munched.getLast? {before text : List Char} {tokens : List Token}
    (h : Munched before text tokens) :
    tokens.getLast? = some (endOfInput (endLine (before ++ text))) := by
  induction h with
  | done => rfl
  | @token before gap word rest lexeme tokens _ _ _ hothers ih =>
      have htext : before ++ (gap ++ word ++ rest) = before ++ gap ++ word ++ rest := by simp
      rw [htext, ← ih, List.getLast?_cons, ih]
      rfl

theorem endLine_of_scan {s : String} {body : List Token} {last : Int}
    (h : scan s = .ok (body ++ [endOfInput last])) : last = endLine s.toList := by
  have hmunched : Munched [] s.toList (body ++ [endOfInput last]) := munched_of_ofPieces h
  have hlast := hmunched.getLast?
  rw [List.getLast?_concat] at hlast
  injection hlast with hlast
  injection hlast

end Token

open Token

/-- **Scanning is compositional at line breaks.**  Two texts are joined by a line feed.  When
the first has tokens, the joined text has these but for the end of the input, and then the
tokens of the second on lines further down, by the line feeds of the first and the one between;
and it fails as the second does, with an error that is as far down, and whose message differs
in nothing else.  When the first text fails, the joined text fails with the same error. -/
theorem scan_line_break (s s' : String) :
    (∀ tokens, scan s = .ok tokens → ∃ body, tokens = body ++ [endOfInput (endLine s.toList)] ∧
      (∀ tokens', scan s' = .ok tokens' →
        scan (s ++ "\n" ++ s') = .ok (body ++ tokens'.map (moved (endLine s.toList)))) ∧
      ∀ e, scan s' = .error e → ∃ e' front, scan (s ++ "\n" ++ s') = .error e' ∧
        e' = e.moved (endLine s.toList) ∧ e'.line? = e.line?.map (· + endLine s.toList) ∧
        e.message = front ++ e.lineText ∧ e'.message = front ++ e'.lineText) ∧
      ∀ e, scan s = .error e → scan (s ++ "\n" ++ s') = .error e := by
  refine ⟨fun tokens hscan => ?_, fun e hscan => scan_joined_of_error hscan s'⟩
  obtain ⟨body, last, rfl, hok, herror⟩ := scan_then hscan s'
  obtain rfl : last = endLine s.toList := endLine_of_scan hscan
  refine ⟨body, rfl, hok, fun e hscan' => ?_⟩
  obtain ⟨front, hmessage, hmoved⟩ := e.exists_front (endLine s.toList)
  exact ⟨_, front, herror e hscan', rfl, e.line?_moved _, hmessage, hmoved⟩

/-- A text of two lines that ends in a comment, and one that fails on its second line. -/
theorem scan_line_break_stray :
    scan ("x =\n!= // 1 $" ++ "\n" ++ "2\n /!") =
      .error (.unexpected "!" 4) := by
  have hscan : scan "x =\n!= // 1 $" = .ok [.identifier "x" 1, .mark .equal 1,
      .mark .bangEqual 2, .endOfInput 2] := by decide +kernel
  have hscan' : scan "2\n /!" = .error (.unexpected "!" 2) := by decide +kernel
  obtain ⟨body, -, -, herror⟩ := (scan_line_break "x =\n!= // 1 $" "2\n /!").1 _ hscan
  obtain ⟨e', -, hjoined, rfl, -⟩ := herror _ hscan'
  exact hjoined

end RillLang
