import RillLang.Proofs.Token.Essence
import RillLang.Text.Newline

/-!
# Carriage returns at the end of lines

A carriage return before a line feed is a blank, or the last character of a comment, and
nothing else: dropping it leaves the essence of the text (`Piece.essence_append_dropReturns`),
and so its tokens (`Token.scan_dropReturns`).
-/

namespace RillLang

namespace Piece

/-- A carriage return at the end of a text is idle, or goes on a comment. -/
theorem essence_append_return (text : List Char) : essence (text ++ ['\r']) = essence text := by
  fun_induction cutOnto [] text with
  | case1 =>
      rw [List.nil_append, essence_of_isIdle rfl]
      rfl
  | case2 done c cs ih =>
      rw [List.cons_append]
      by_cases hcomment : c = '/' ∧ cs.head? = some '/'
      · obtain ⟨rfl, hslash⟩ := hcomment
        obtain ⟨ds, rfl⟩ := List.head?_eq_some_iff.1 hslash
        rw [munch_comment] at ih
        rw [List.cons_append, essence_of_isIdle rfl, essence_of_isIdle rfl, munch_comment,
          munch_comment, List.dropWhile_append]
        split
        case isTrue hend =>
          rw [List.isEmpty_iff.1 hend]
          rfl
        case isFalse => exact ih
      · have hword : isWordChar '\r' = false := by decide
        have hmunch := munch_append_of_ne hword (by decide) (by decide) hcomment []
        refine essence_congr (by rw [hmunch]) ?_
        rw [hmunch]
        exact ih

/-- A carriage return before a line feed makes no difference. -/
theorem essence_return_newline (before rest : List Char) :
    essence (before ++ '\r' :: '\n' :: rest) = essence (before ++ '\n' :: rest) := by
  have hsplit : before ++ '\r' :: '\n' :: rest = (before ++ ['\r']) ++ '\n' :: rest := by simp
  rw [hsplit, essence_append_newline, essence_append_newline, essence_append_return]

/-- Dropping carriage returns before line feeds leaves the essence, whatever stands before. -/
theorem essence_append_dropReturns (before text : List Char) :
    essence (before ++ Text.dropReturns text) = essence (before ++ text) := by
  fun_induction Text.dropReturns text generalizing before with
  | case1 => rfl
  | case2 rest ih =>
      rw [essence_return_newline, List.append_cons before, ih, ← List.append_cons]
  | case3 c rest _ ih => rw [List.append_cons before, ih, ← List.append_cons]

end Piece

/-- A text is scanned alike with and without carriage returns before its line feeds. -/
theorem Token.scan_dropReturns (text : String) :
    scan (String.ofList (Text.dropReturns text.toList)) = scan text := by
  refine scan_eq_of_essence_eq ?_
  rw [String.toList_ofList]
  exact Piece.essence_append_dropReturns [] text.toList

end RillLang
