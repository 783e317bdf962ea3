import RillLang.Json.Grammar
import RillLang.Proofs.Token.Spelling

/-!
# The reader reads whatever the grammar has

A text of the grammar is read to its value (`read_of_spells`), so that a text has one
value at most.  A number goes on as long as there are digits, which is why a value is
followed by a character that is none (`Stops`); after a part of an array or an object
this is always so.  The reader is given as much room as the text is long, and each step
into a part takes a character at least.

* `readChars_eq_some`, `readInt_eq_some` — strings and numbers.
* `readValue_eq_some` — values, by recursion on what the grammar has.
-/

namespace RillLang.Json

open Json.Grammar

/-! ## Blanks -/

theorem length_le_of_blanks {text rest : List Char} (h : Blanks text rest) :
    rest.length ≤ text.length := by
  induction h with
  | none => exact Nat.le_refl _
  | more _ _ ih => exact Nat.le_succ_of_le ih

theorem skip_of_blanks {text rest : List Char} (h : Blanks text rest) : skip text = skip rest := by
  induction h with
  | none => rfl
  | more hc _ ih => rw [← ih, skip, List.dropWhile_cons_of_pos hc, skip]

theorem skip_cons {c : Char} (h : isSpace c = false) (rest : List Char) :
    skip (c :: rest) = c :: rest :=
  List.dropWhile_cons_of_neg (by simp [h])

/-- Skipping blanks leads to the first character that is none. -/
theorem skip_eq_cons {text rest : List Char} {c : Char} (h : Blanks text (c :: rest))
    (hc : isSpace c = false) : skip text = c :: rest := by
  rw [skip_of_blanks h, skip_cons hc]

/-- No digit comes next. -/
def Stops (text : List Char) : Prop := ∀ c ∈ text.head?, isNumeral c = false

theorem stops_cons {c : Char} {rest : List Char} : Stops (c :: rest) ↔ isNumeral c = false := by
  simp [Stops]

theorem not_isNumeral_of_isSpace {c : Char} (h : isSpace c = true) : isNumeral c = false := by
  simp only [isSpace, Bool.or_eq_true, beq_iff_eq] at h
  rcases h with ((rfl | rfl) | rfl) | rfl <;> rfl

theorem stops_of_blanks {text rest : List Char} (h : Blanks text rest) (hrest : Stops rest) :
    Stops text := by
  cases h with
  | none => exact hrest
  | more hc _ => exact stops_cons.2 (not_isNumeral_of_isSpace hc)

/-! ## Strings -/

theorem length_lt_of_characters {text cs rest : List Char} (h : Characters text cs rest) :
    rest.length < text.length := by
  induction h with
  | close => exact Nat.lt_succ_self _
  | plain _ _ _ _ ih => exact Nat.lt_succ_of_lt ih
  | short _ _ ih => simp only [List.length_cons]; omega
  | unit _ _ _ _ ih => simp only [List.length_cons]; omega
  | pair _ _ _ _ _ ih => simp only [List.length_cons]; omega

theorem readChars_eq_some {text cs rest : List Char} (h : Characters text cs rest) :
    readChars none text = some (cs, rest) := by
  induction h with
  | close => simp [readChars]
  | plain hquote hbackslash hshown _ ih =>
      rw [readChars]
      · simp [ih, hbackslash, Nat.not_lt.2 hshown]
      · exact hquote
      · exact fun _ _ _ _ _ h _ => hbackslash h
      · exact fun _ _ h _ => hbackslash h
  | short hescape _ ih =>
      unfold shortEscape? at hescape
      split at hescape <;> cases hescape <;> simp [readChars, shortEscape?, ih]
  | unit hunit hhigh hlow _ ih => simp [readChars, hunit, hhigh, hlow, ih]
  | pair hunit hhigh hunit' hlow _ ih => simp [readChars, hunit, hhigh, hunit', hlow, ih]

/-! ## Numbers -/

theorem natOf?_of_digits {digits : List Char} {n : Nat} (h : Digits digits n) :
    natOf? digits = some n := by
  cases h with
  | zero => rfl
  | @positive c cs hc _ =>
      unfold natOf?
      split
      · contradiction
      · rename_i heq; cases heq; contradiction
      · rename_i heq; cases heq; contradiction
      · rfl

theorem forall_isNumeral_of_digits {digits : List Char} {n : Nat} (h : Digits digits n) :
    ∀ c ∈ digits, isNumeral c = true := by
  cases h with
  | zero => exact List.forall_mem_singleton.2 rfl
  | positive _ hdigits => exact hdigits

theorem exists_cons_of_digits {digits : List Char} {n : Nat} (h : Digits digits n) :
    ∃ c cs, digits = c :: cs ∧ isNumeral c = true := by
  cases h with
  | zero => exact ⟨'0', [], rfl, rfl⟩
  | positive _ hdigits => exact ⟨_, _, rfl, hdigits _ (List.mem_cons_self ..)⟩

/-- A number begins with a sign or a digit. -/
theorem exists_cons_of_integer {text rest : List Char} {v : Int} (h : Integer text v rest) :
    ∃ c cs, text = c :: cs ∧ (c = '-' ∨ isNumeral c = true) := by
  cases h with
  | plain hdigits =>
      obtain ⟨c, cs, rfl, hc⟩ := exists_cons_of_digits hdigits
      exact ⟨c, _, rfl, .inr hc⟩
  | negative _ => exact ⟨_, _, rfl, .inl rfl⟩

theorem length_lt_of_integer {text rest : List Char} {v : Int} (h : Integer text v rest) :
    rest.length < text.length := by
  cases h with
  | plain hdigits =>
      obtain ⟨c, cs, rfl, -⟩ := exists_cons_of_digits hdigits
      simp only [List.cons_append, List.length_cons, List.length_append]
      omega
  | negative _ =>
      simp only [List.length_cons, List.length_append]
      omega

theorem readInt_eq_some {text rest : List Char} {v : Int} (h : Integer text v rest)
    (hrest : Stops rest) : readInt text = some (v, rest) := by
  cases h with
  | @plain digits _ n hdigits =>
      obtain ⟨htake, hdrop⟩ := takeWhile_run (forall_isNumeral_of_digits hdigits) hrest
      unfold readInt
      split
      · rename_i tail heq
        obtain ⟨c, cs, rfl, hc⟩ := exists_cons_of_digits hdigits
        cases heq
        cases hc
      · rw [htake, hdrop, natOf?_of_digits hdigits]
        rfl
  | @negative digits _ n hdigits =>
      obtain ⟨htake, hdrop⟩ := takeWhile_run (forall_isNumeral_of_digits hdigits) hrest
      simp only [readInt]
      rw [htake, hdrop, natOf?_of_digits hdigits]
      rfl

/-! ## How much text a part takes -/

mutual

theorem length_lt_of_value {text rest : List Char} {value : Json} :
    Value text value rest → rest.length < text.length
  | .null | .true | .false => by simp only [List.length_cons]; omega
  | .int h => length_lt_of_integer h
  | .str h => Nat.lt_succ_of_lt (length_lt_of_characters h)
  | .emptyArr h | .emptyObj h => by
      have hclose := length_le_of_blanks h
      simp only [List.length_cons] at hclose ⊢
      omega
  | .arr hblanks hitem hitems => by
      have hfront := length_le_of_blanks hblanks
      have hmore := length_lt_of_value hitem
      have hrest := length_lt_of_items hitems
      simp only [List.length_cons]
      omega
  | .obj hmember hmembers => by
      have hmore := length_lt_of_member hmember
      have hrest := length_lt_of_members hmembers
      simp only [List.length_cons]
      omega

theorem length_lt_of_items {text rest : List Char} {items : List Json} :
    Items text items rest → rest.length < text.length
  | .close h => length_le_of_blanks h
  | .next hcomma hblanks hitem hitems => by
      have hafter := length_le_of_blanks hcomma
      have hfront := length_le_of_blanks hblanks
      have hmore := length_lt_of_value hitem
      have hrest := length_lt_of_items hitems
      simp only [List.length_cons] at hafter
      omega

theorem length_lt_of_member {text rest : List Char} {member : String × Json} :
    Member text member rest → rest.length < text.length
  | .mk hquote hkey hcolon hblanks hvalue => by
      have hquoted := length_le_of_blanks hquote
      have hlength := length_lt_of_characters hkey
      have hafter := length_le_of_blanks hcolon
      have hfront := length_le_of_blanks hblanks
      have hrest := length_lt_of_value hvalue
      simp only [List.length_cons] at hquoted hafter
      omega

theorem length_lt_of_members {text rest : List Char} {members : List (String × Json)} :
    Members text members rest → rest.length < text.length
  | .close h => length_le_of_blanks h
  | .next hcomma hmember hmembers => by
      have hafter := length_le_of_blanks hcomma
      have hmore := length_lt_of_member hmember
      have hrest := length_lt_of_members hmembers
      simp only [List.length_cons] at hafter
      omega

end

/-! ## Values -/

/-- What begins with a digit or a sign is read as a number. -/
theorem readValue_number {c : Char} (hc : c = '-' ∨ isNumeral c = true) (cs : List Char)
    (room : Nat) :
    readValue (room + 1) (c :: cs) = (readInt (c :: cs)).map fun (v, rest) => (.int v, rest) := by
  have hspace : isSpace c = false := by
    rcases hc with rfl | hc
    · rfl
    · cases hblank : isSpace c with
      | false => rfl
      | true => rw [not_isNumeral_of_isSpace hblank] at hc; cases hc
  rw [readValue, skip_cons hspace]
  split
  case h_7 => cases readInt (c :: cs) <;> rfl
  -- every other form begins with a character of its own
  all_goals
    rename_i heq
    cases heq
    rcases hc with hc | hc <;> cases hc

/-- A value begins neither with a blank nor with a closing bracket. -/
theorem exists_cons_of_value {front rest : List Char} {value : Json} (h : Value front value rest) :
    ∃ c cs, front = c :: cs ∧ isSpace c = false ∧ c ≠ ']' := by
  cases h with
  | int h =>
      obtain ⟨c, cs, rfl, hc⟩ := exists_cons_of_integer h
      refine ⟨c, cs, rfl, ?_⟩
      rcases hc with rfl | hc
      · decide
      · refine ⟨?_, by rintro rfl; cases hc⟩
        cases hblank : isSpace c with
        | false => rfl
        | true => rw [not_isNumeral_of_isSpace hblank] at hc; cases hc
  | _ => exact ⟨_, _, rfl, by decide, by decide⟩

theorem stops_of_items {text rest : List Char} {items : List Json} (h : Items text items rest) :
    Stops text := by
  cases h with
  | close h => exact stops_of_blanks h (stops_cons.2 rfl)
  | next h _ _ _ => exact stops_of_blanks h (stops_cons.2 rfl)

theorem stops_of_members {text rest : List Char} {members : List (String × Json)}
    (h : Members text members rest) : Stops text := by
  cases h with
  | close h => exact stops_of_blanks h (stops_cons.2 rfl)
  | next h _ _ => exact stops_of_blanks h (stops_cons.2 rfl)

theorem skip_skip (text : List Char) : skip (skip text) = skip text := by
  induction text with
  | nil => rfl
  | cons c cs ih =>
      cases hc : isSpace c with
      | false => rw [skip_cons hc, skip_cons hc]
      | true =>
          have hskip : skip (c :: cs) = skip cs := List.dropWhile_cons_of_pos hc
          rw [hskip, ih]

mutual

/-- A value of the grammar is read where blanks lead to it, given room for each of its
characters. -/
theorem readValue_eq_some (room : Nat) {front rest text : List Char} {value : Json} :
    Value front value rest → skip text = skip front → Stops rest →
      front.length ≤ room + 1 + rest.length → readValue (room + 1) text = some (value, rest)
  | .null, hskip, _, _ => by rw [readValue, hskip, skip_cons rfl]; rfl
  | .true, hskip, _, _ => by rw [readValue, hskip, skip_cons rfl]; rfl
  | .false, hskip, _, _ => by rw [readValue, hskip, skip_cons rfl]; rfl
  | .int h, hskip, hrest, _ => by
      obtain ⟨c, cs, rfl, hc⟩ := exists_cons_of_integer h
      have hread := readValue_number hc cs room
      rw [readInt_eq_some h hrest] at hread
      rw [readValue, hskip, ← readValue, hread]
      rfl
  | .str h, hskip, _, _ => by
      rw [readValue, hskip, skip_cons rfl]
      simp only [readChars_eq_some h]
      rfl
  | .emptyArr h, hskip, _, _ => by
      rw [readValue, hskip, skip_cons rfl]
      simp only [skip_eq_cons h rfl]
  | @Value.arr inner _ _ _ _ _ hblanks hitem hitems, hskip, hrest, hroom => by
      have hfront := length_le_of_blanks hblanks
      have hmore := length_lt_of_value hitem
      have hlast := length_lt_of_items hitems
      simp only [List.length_cons] at hroom
      obtain ⟨room, rfl⟩ : ∃ n, room = n + 1 := ⟨room - 1, by omega⟩
      obtain ⟨c, cs, rfl, hc, hbracket⟩ := exists_cons_of_value hitem
      have hinner : skip inner = c :: cs := skip_eq_cons hblanks hc
      have hfirst := readValue_eq_some room hitem rfl (stops_of_items hitems) (by omega)
      have hothers := readItems_eq_some room hitems (by omega)
      rw [readValue, hskip, skip_cons rfl]
      simp only [hinner]
      split
      · rename_i heq
        cases heq
        exact absurd rfl hbracket
      · simp [hfirst, hothers]
  | .emptyObj h, hskip, _, _ => by
      rw [readValue, hskip, skip_cons rfl]
      simp only [skip_eq_cons h rfl]
  | @Value.obj inner _ _ _ _ hmember hmembers, hskip, hrest, hroom => by
      have hmore := length_lt_of_member hmember
      have hlast := length_lt_of_members hmembers
      simp only [List.length_cons] at hroom
      obtain ⟨room, rfl⟩ : ∃ n, room = n + 1 := ⟨room - 1, by omega⟩
      obtain ⟨quoted, hquoted⟩ : ∃ quoted, skip inner = '"' :: quoted := by
        cases hmember with
        | mk h => exact ⟨_, skip_eq_cons h rfl⟩
      have hfirst := readMember_eq_some room hmember
        (skip_skip inner) (stops_of_members hmembers) (by omega)
      have hothers := readMembers_eq_some room hmembers (by omega)
      rw [hquoted] at hfirst
      rw [readValue, hskip, skip_cons rfl]
      simp [hquoted, hfirst, hothers]

theorem readItems_eq_some (room : Nat) {text rest : List Char} {items : List Json} :
    Items text items rest → text.length ≤ room + 1 + rest.length →
      readItems (room + 1) text = some (items, rest)
  | .close h, _ => by
      rw [readItems, skip_eq_cons h rfl]
      rfl
  | .next hcomma hblanks hitem hitems, hroom => by
      have hafter := length_le_of_blanks hcomma
      have hfront := length_le_of_blanks hblanks
      have hmore := length_lt_of_value hitem
      have hlast := length_lt_of_items hitems
      simp only [List.length_cons] at hafter
      obtain ⟨room, rfl⟩ : ∃ n, room = n + 1 := ⟨room - 1, by omega⟩
      have hfirst := readValue_eq_some room hitem (skip_of_blanks hblanks)
        (stops_of_items hitems) (by omega)
      have hothers := readItems_eq_some room hitems (by omega)
      rw [readItems, skip_eq_cons hcomma rfl]
      simp [hfirst, hothers]

theorem readMember_eq_some (room : Nat) {front rest text : List Char}
    {member : String × Json} :
    Member front member rest → skip text = skip front → Stops rest →
      front.length ≤ room + 1 + rest.length → readMember (room + 1) text = some (member, rest)
  | .mk hquote hkey hcolon hblanks hvalue, hskip, hrest, hroom => by
      have hquoted := length_le_of_blanks hquote
      have hlength := length_lt_of_characters hkey
      have hafter := length_le_of_blanks hcolon
      have hfront := length_le_of_blanks hblanks
      have hlast := length_lt_of_value hvalue
      simp only [List.length_cons] at hquoted hafter
      obtain ⟨room, rfl⟩ : ∃ n, room = n + 1 := ⟨room - 1, by omega⟩
      have hread := readValue_eq_some room hvalue (skip_of_blanks hblanks) hrest
        (by omega)
      rw [readMember, hskip, skip_eq_cons hquote rfl]
      simp [readChars_eq_some hkey, skip_eq_cons hcolon rfl, hread]

theorem readMembers_eq_some (room : Nat) {text rest : List Char}
    {members : List (String × Json)} :
    Members text members rest → text.length ≤ room + 1 + rest.length →
      readMembers (room + 1) text = some (members, rest)
  | .close h, _ => by
      rw [readMembers, skip_eq_cons h rfl]
      rfl
  | .next hcomma hmember hmembers, hroom => by
      have hafter := length_le_of_blanks hcomma
      have hmore := length_lt_of_member hmember
      have hlast := length_lt_of_members hmembers
      simp only [List.length_cons] at hafter
      obtain ⟨room, rfl⟩ : ∃ n, room = n + 1 := ⟨room - 1, by omega⟩
      have hfirst := readMember_eq_some room hmember rfl (stops_of_members hmembers)
        (by omega)
      have hothers := readMembers_eq_some room hmembers (by omega)
      rw [readMembers, skip_eq_cons hcomma rfl]
      simp [hfirst, hothers]

end

/-- A text of the grammar is read to its value. -/
theorem read_of_spells {text : String} {value : Json} (h : Spells text value) :
    read text = some value := by
  obtain ⟨front, rest, hfront, hvalue, hrest⟩ := h
  have hlength : front.length ≤ text.length := by
    rw [← String.length_toList]
    exact length_le_of_blanks hfront
  have hstops : Stops rest := stops_of_blanks hrest (by simp [Stops])
  have hread := readValue_eq_some text.length hvalue (skip_of_blanks hfront) hstops
    (by omega)
  have hskip : skip rest = [] := skip_of_blanks hrest
  simp [read, hread, hskip]

/-- A text spells one value at most. -/
theorem spells_unique {text : String} {value value' : Json} (h : Spells text value)
    (h' : Spells text value') : value = value' :=
  Option.some.inj ((read_of_spells h).symm.trans (read_of_spells h'))

end RillLang.Json
