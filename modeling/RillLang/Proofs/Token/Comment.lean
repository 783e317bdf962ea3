import Mathlib.Data.List.TakeWhile
import RillLang.Proofs.Token.Essence
import RillLang.Token.Comment

/-!
# Comments deleted by lines

Comments can be deleted before a text is scanned, line by line, and without a look at the
tokens (`scan_stripComments`).  For the scanner begins no token with the first of the first two
slashes of a line, nor does it stand in the middle of one there: up to these slashes the line
is cut as if it ended there (`Piece.cut_append_comment`).
-/

namespace RillLang

/-- No part of a text that was split at a character has this character in it. -/
theorem not_mem_of_mem_splitOn {stop : Char} {text line : List Char}
    (h : line ∈ text.splitOn stop) : stop ∉ line := by
  induction text generalizing line with
  | nil =>
      obtain rfl := List.mem_singleton.1 h
      exact List.not_mem_nil
  | cons c cs ih =>
      rw [List.splitOn_cons_eq_if_modifyHead] at h
      split at h
      case isTrue =>
        rcases List.mem_cons.1 h with rfl | hmem
        · exact List.not_mem_nil
        · exact ih hmem
      case isFalse hc =>
        obtain ⟨first, lines, heq⟩ := List.exists_cons_of_ne_nil (List.splitOn_ne_nil stop cs)
        rw [heq] at h ih
        rcases List.mem_cons.1 h with rfl | hmem
        · have hne : stop ≠ c := by
            rintro rfl
            exact hc BEq.rfl
          have hfirst := ih (List.mem_cons_self ..)
          exact List.not_mem_cons_of_ne_of_not_mem hne hfirst
        · exact ih (List.mem_cons_of_mem _ hmem)

/-! ## The first two slashes of a line -/

/-- A line is cut at its first two slashes, or has none: before them, and with the first of
them, there are no two slashes. -/
theorem cutComment_cases (line : List Char) :
    cutComment line = line ∨
      ∃ rest, line = cutComment line ++ '/' :: '/' :: rest ∧
        ¬ ['/', '/'] <:+: cutComment line ++ ['/'] := by
  fun_induction cutComment line with
  | case1 => exact .inl rfl
  | case2 rest =>
      refine .inr ⟨rest, rfl, fun hslashes => ?_⟩
      have hlength := hslashes.length_le
      simp at hlength
  | case3 c cs hc ih =>
      rcases ih with heq | ⟨rest, heq, hfree⟩
      · exact .inl (by rw [heq])
      · refine .inr ⟨rest, by rw [List.cons_append, ← heq], fun hslashes => ?_⟩
        rcases List.infix_cons_iff.1 hslashes with ⟨after, hprefix⟩ | hslashes
        · -- the slash after this one is a slash of the line, too
          obtain ⟨rfl, hafter⟩ := List.cons.inj hprefix
          have hhead : cs.head? = some '/' := by
            generalize cutComment cs = front at heq hafter
            cases front <;> cases hafter <;> rw [heq] <;> rfl
          obtain ⟨ds, rfl⟩ := List.head?_eq_some_iff.1 hhead
          exact hc ds rfl rfl
        · exact hfree hslashes

namespace Piece

/-- Two slashes begin a comment when no two slashes come before them. -/
theorem cut_append_comment {line : List Char} (h : ¬ ['/', '/'] <:+: line ++ ['/'])
    (rest : List Char) :
    cut (line ++ '/' :: '/' :: rest) = cut line ++ cut ('/' :: '/' :: rest) := by
  fun_induction cutOnto [] line with
  | case1 => rw [List.nil_append, cut_nil, List.nil_append]
  | case2 done c cs ih =>
      have hslash : c = '/' → (cs ++ ['/']).head? ≠ some '/' := by
        rintro rfl hhead
        obtain ⟨ds, hds⟩ := List.head?_eq_some_iff.1 hhead
        refine h ⟨[], ds, ?_⟩
        rw [List.cons_append, hds]
        rfl
      have hrest : ¬ ['/', '/'] <:+: (munch c cs).2 ++ ['/'] := by
        refine fun hslashes => h (hslashes.trans ?_)
        rw [← text_munch c cs, List.append_assoc]
        exact (List.suffix_append _ _).isInfix
      rw [List.cons_append, cut_cons, munch_append rfl (by decide) hslash, cut_cons,
        List.cons_append, ih hrest]

/-- Deleting the comment of a line leaves its essence. -/
theorem essence_cutComment {line : List Char} (h : '\n' ∉ line) :
    essence (cutComment line) = essence line := by
  rcases cutComment_cases line with heq | ⟨rest, heq, hfree⟩
  · rw [heq]
  · have hrest : ∀ c ∈ rest, isCommentChar c = true := by
      intro c hc
      have hne : c ≠ '\n' := by
        rintro rfl
        exact h (by rw [heq]; simp [hc])
      simpa [isCommentChar] using hne
    have hcomment : cut ('/' :: '/' :: rest) = [comment ('/' :: '/' :: rest)] := by
      rw [cut_cons, munch_comment, List.takeWhile_eq_self_iff.2 hrest,
        List.dropWhile_eq_nil_iff.2 hrest, cut_nil]
    have hcut := cut_append_comment hfree rest
    rw [← heq, hcomment] at hcut
    rw [essence, essence, hcut, List.filter_append]
    exact (List.append_nil _).symm

/-- Deleting the comments of all lines leaves the essence of the text they make. -/
theorem essence_intercalate {lines : List (List Char)} (h : ∀ line ∈ lines, '\n' ∉ line) :
    essence (['\n'].intercalate (lines.map cutComment)) =
      essence (['\n'].intercalate lines) := by
  induction lines with
  | nil => rfl
  | cons line lines ih =>
      obtain ⟨hline, hothers⟩ := List.forall_mem_cons.1 h
      cases lines with
      | nil =>
          rw [List.map_cons, List.map_nil, List.intercalate_singleton,
            List.intercalate_singleton, essence_cutComment hline]
      | cons line' lines =>
          rw [List.map_cons] at ih ⊢
          rw [List.map_cons, List.intercalate_cons_cons, List.intercalate_cons_cons,
            List.append_assoc, List.append_assoc, List.singleton_append, List.singleton_append,
            essence_append_newline, essence_append_newline, essence_cutComment hline, ih hothers]

end Piece

/-- **Comments can be deleted by lines.**  When everything from the first two slashes of each
line to its end is deleted, and the line feed kept, the text is scanned as before: to the same
tokens on the same lines, or to the same error. -/
theorem scan_stripComments (text : String) :
    Token.scan (String.ofList (stripComments text.toList)) = Token.scan text := by
  refine Token.scan_eq_of_essence_eq ?_
  rw [String.toList_ofList, stripComments,
    Piece.essence_intercalate fun _ => not_mem_of_mem_splitOn, List.intercalate_splitOn]

example : stripComments "a / b // c\n///\n1//2".toList = "a / b \n\n1".toList := by decide

end RillLang
