/-!
# Line ends

Files end their lines with a line feed, a carriage return, or both.  Reading a file
turns each of these into a line feed.  In a text where no carriage return stands alone,
that is to drop each one before a line feed (`unifyNewlines_eq_dropReturns`).
-/

namespace RillLang.Text

/-- The text with each line end turned into a line feed, after the characters
`done`, which are held last character first. -/
def unifyNewlinesOnto (done : List Char) : List Char → List Char
  | [] => done.reverse
  | '\r' :: '\n' :: rest => unifyNewlinesOnto ('\n' :: done) rest
  | '\r' :: rest => unifyNewlinesOnto ('\n' :: done) rest
  | c :: rest => unifyNewlinesOnto (c :: done) rest

/-- The text with each line end turned into a line feed. -/
def unifyNewlines (text : List Char) : List Char := unifyNewlinesOnto [] text

/-! ## Returns before line feeds -/

/-- The text with each carriage return and line feed in a row turned into a line feed. -/
def dropReturns : List Char → List Char
  | [] => []
  | '\r' :: '\n' :: rest => '\n' :: dropReturns rest
  | c :: rest => c :: dropReturns rest

/-- Every carriage return is immediately followed by a line feed. -/
def NoLoneReturn (text : List Char) : Prop :=
  ∀ i : Nat, text[i]? = some '\r' → text[i + 1]? = some '\n'

theorem noLoneReturn_cons {c : Char} {cs : List Char} :
    NoLoneReturn (c :: cs) ↔ (c = '\r' → cs[0]? = some '\n') ∧ NoLoneReturn cs := by
  refine ⟨fun h => ⟨fun hc => h 0 (congrArg some hc), fun i => h (i + 1)⟩, ?_⟩
  rintro ⟨hhead, htail⟩ (_ | i) hi
  · exact hhead (Option.some.inj hi)
  · exact htail i hi

instance decidableNoLoneReturn : (text : List Char) → Decidable (NoLoneReturn text)
  | [] => .isTrue nofun
  | _ :: cs =>
    have := decidableNoLoneReturn cs
    decidable_of_iff _ noLoneReturn_cons.symm

theorem NoLoneReturn.tail {c : Char} {cs : List Char} (h : NoLoneReturn (c :: cs)) :
    NoLoneReturn cs :=
  (noLoneReturn_cons.1 h).2

theorem NoLoneReturn.exists_newline {cs : List Char} (h : NoLoneReturn ('\r' :: cs)) :
    ∃ rest, cs = '\n' :: rest := by
  have hhead : cs[0]? = some '\n' := (noLoneReturn_cons.1 h).1 rfl
  cases cs with
  | nil => cases hhead
  | cons c rest =>
      obtain rfl : c = '\n' := Option.some.inj hhead
      exact ⟨rest, rfl⟩

/-- Where no carriage return stands alone, only those before line feeds are turned into
anything. -/
theorem unifyNewlinesOnto_eq_dropReturns {text : List Char} (h : NoLoneReturn text)
    (done : List Char) : unifyNewlinesOnto done text = done.reverse ++ dropReturns text := by
  fun_induction unifyNewlinesOnto done text with
  | case1 done => rw [dropReturns, List.append_nil]
  | case2 done rest ih =>
      rw [ih h.tail.tail, dropReturns, List.reverse_cons, List.append_assoc]
      rfl
  | case3 done rest hne ih =>
      obtain ⟨after, rfl⟩ := h.exists_newline
      exact absurd rfl (hne after)
  | case4 done c rest h₁ h₂ ih =>
      rw [ih h.tail, dropReturns, List.reverse_cons, List.append_assoc]
      · rfl
      · exact h₁

theorem unifyNewlines_eq_dropReturns {text : List Char} (h : NoLoneReturn text) :
    unifyNewlines text = dropReturns text :=
  unifyNewlinesOnto_eq_dropReturns h []

end RillLang.Text
