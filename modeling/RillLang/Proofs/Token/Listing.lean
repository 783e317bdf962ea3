import RillLang.Proofs.Machine.Printed
import RillLang.Proofs.Token.Scanned
import RillLang.Token.Listing
import RillLang.Token.ReadListing

/-!
# A listing tells the tokens

The listing of the tokens of a text can be read back, so texts with the same listing have
the same tokens, lines included (`Token.listing_tells_tokens`).  The columns of a listing
are only as wide as they need be and nothing is escaped; it can be read because none of
its parts has a blank in it.

* `Token.Solid` — a part of a row: a text without blanks that is not empty.
* `Token.ofRow?_row` — reading a row.
-/

namespace RillLang

theorem Kind.ofName?_name (k : Kind) : ofName? k.name = some k := by
  cases k with
  | mark m => cases m <;> rfl
  | _ => rfl

namespace Token

/-! ## The parts of a row -/

/-- The text is not empty and has no blank. -/
def Solid (text : List Char) : Prop := text ≠ [] ∧ ∀ c ∈ text, isBlank c = false

theorem Solid.space_not_mem {text : List Char} (h : Solid text) : ' ' ∉ text := by
  intro hmem
  cases h.2 _ hmem

theorem Solid.newline_not_mem {text : List Char} (h : Solid text) : '\n' ∉ text := by
  intro hmem
  cases h.2 _ hmem

theorem solid_of_isWordChar {c : Char} {cs : List Char}
    (h : ∀ d ∈ c :: cs, isWordChar d = true) : Solid (c :: cs) :=
  ⟨List.cons_ne_nil c cs, fun d hd => not_isBlank_of_isWordChar (h d hd)⟩

theorem solid_of_numeral {text : List Char} {v : Int} (h : Numeral text v) : Solid text := by
  cases h with
  | zero => exact solid_of_isWordChar (List.all_eq_true.1 rfl)
  | positive _ hdigits => exact solid_of_isWordChar fun d hd => isWordChar_of_isDigit (hdigits d hd)
  | negative _ hdigits =>
      refine ⟨List.cons_ne_nil _ _, List.forall_mem_cons.2 ⟨rfl, fun d hd => ?_⟩⟩
      exact not_isBlank_of_isWordChar (isWordChar_of_isDigit (hdigits d hd))

theorem solid_of_isName {x : String} (h : isName x = true) : Solid x.toList := by
  obtain ⟨c, cs, hchars, hc, hcs, -⟩ := exists_of_isName h
  rw [hchars]
  exact solid_of_isWordChar (List.forall_mem_cons.2 ⟨isWordChar_of_isWordStart hc, hcs⟩)

theorem solid_kindName (k : Kind) : Solid k.name.toList := by
  -- the name of a kind is a word
  cases k with
  | mark m => cases m <;> exact solid_of_isWordChar (List.all_eq_true.1 rfl)
  | _ => exact solid_of_isWordChar (List.all_eq_true.1 rfl)

/-! ## Reading the parts -/

theorem valueOfNumeral_of_numeral {text : List Char} {v : Int} (h : Numeral text v) :
    valueOfNumeral text = v := by
  cases h with
  | zero => rfl
  | @positive c cs _ hdigits =>
      -- a digit is not a minus sign
      have hminus : c ≠ '-' := by
        rintro rfl
        cases hdigits _ (List.mem_cons_self ..)
      simp [valueOfNumeral, hminus]
  | negative => rfl

@[simp] theorem valueOfNumeral_toString (v : Int) : valueOfNumeral (toString v).toList = v :=
  valueOfNumeral_of_numeral (numeral_toString v)

/-! ## Reading a row -/

@[simp] theorem wordsOf_space (text : List Char) : wordsOf (' ' :: text) = wordsOf text := by
  simp [wordsOf, List.splitOn_cons_eq_if_modifyHead]

theorem wordsOf_spaces (n : Nat) (text : List Char) :
    wordsOf (List.replicate n ' ' ++ text) = wordsOf text := by
  induction n with
  | zero => rfl
  | succ n ih => rw [List.replicate_succ, List.cons_append, wordsOf_space, ih]

/-- A word ends where a space begins. -/
theorem wordsOf_append {word rest : List Char} (h : Solid word)
    (hrest : ∀ c ∈ rest.head?, c = ' ') : wordsOf (word ++ rest) = word :: wordsOf rest := by
  cases rest with
  | nil => simp [wordsOf, List.splitOn_eq_singleton h.space_not_mem, h.1]
  | cons c cs =>
      obtain rfl := hrest c rfl
      rw [wordsOf_space]
      simp [wordsOf, List.splitOn_append_cons_self_of_not_mem h.space_not_mem, h.1]

theorem wordsOf_flatMap {words : List (List Char)} (h : ∀ word ∈ words, Solid word) :
    wordsOf (words.flatMap (' ' :: ·)) = words := by
  induction words with
  | nil => rfl
  | cons word words ih =>
      obtain ⟨hword, hwords⟩ := List.forall_mem_cons.1 h
      have hspace : ∀ c ∈ (words.flatMap (' ' :: ·)).head?, c = ' ' := by
        cases words <;> simp
      rw [List.flatMap_cons, List.cons_append, wordsOf_space, wordsOf_append hword hspace,
        ih hwords]

/-- The texts of what a lexeme carries: one text or none. -/
def valuesOf (a : Lexeme) : List (List Char) := (a.value?.map String.toList).toList

/-- What a row is made of. -/
theorem toList_row (t : Token) :
    (row t).toList = List.replicate (4 - (toString t.line).length) ' ' ++
      ((toString t.line).toList ++
        ' ' :: (t.kind.name.toList :: valuesOf t.lexeme).flatMap (' ' :: ·)) := by
  cases hvalue : t.lexeme.value? <;> simp [row, flushRight, valuesOf, hvalue]

/-- The lexeme can be read from its row. -/
def Readable (a : Lexeme) : Prop :=
  (∀ value ∈ valuesOf a, Solid value) ∧ lexeme? a.kind (valuesOf a) = some a

theorem readable_of_scannable {a : Lexeme} (h : a.Scannable) : Readable a := by
  cases h with
  | number =>
      refine ⟨List.forall_mem_singleton.2 (solid_of_numeral (numeral_toString _)), ?_⟩
      exact congrArg (some ∘ Lexeme.number) (valueOfNumeral_toString _)
  | name hname =>
      refine ⟨List.forall_mem_singleton.2 (solid_of_isName hname), ?_⟩
      exact congrArg (some ∘ Lexeme.identifier ∘ some) String.ofList_toList
  | mark m => exact ⟨List.forall_mem_nil _, rfl⟩

theorem readable_endOfInput : Readable (.endOfInput none) := ⟨List.forall_mem_nil _, rfl⟩

theorem Readable.wordsOf_row {t : Token} (h : Readable t.lexeme) :
    wordsOf (row t).toList =
      (toString t.line).toList :: t.kind.name.toList :: valuesOf t.lexeme := by
  have hwords : ∀ word ∈ t.kind.name.toList :: valuesOf t.lexeme, Solid word :=
    List.forall_mem_cons.2 ⟨solid_kindName t.kind, h.1⟩
  rw [toList_row, wordsOf_spaces, wordsOf_append (solid_of_numeral (numeral_toString t.line)),
    wordsOf_space, wordsOf_flatMap hwords]
  simp

theorem Readable.ofRow?_row {t : Token} (h : Readable t.lexeme) :
    ofRow? (row t).toList = some t := by
  have hlexeme : lexeme? t.kind (valuesOf t.lexeme) = some t.lexeme := h.2
  simp only [ofRow?, h.wordsOf_row, String.ofList_toList, Kind.ofName?_name,
    valueOfNumeral_toString]
  show (lexeme? t.kind (valuesOf t.lexeme)).bind _ = _
  rw [hlexeme]
  rfl

theorem Readable.newline_not_mem_row {t : Token} (h : Readable t.lexeme) :
    '\n' ∉ (row t).toList := by
  have hline := (solid_of_numeral (numeral_toString t.line)).newline_not_mem
  have hname := (solid_kindName t.kind).newline_not_mem
  have hvalues : ∀ value ∈ valuesOf t.lexeme, '\n' ∉ value :=
    fun value hvalue => (h.1 value hvalue).newline_not_mem
  simpa [toList_row, hname] using And.intro hline hvalues

/-! ## Reading a listing -/

theorem mapM_ofRow?_rows {tokens : List Token} (h : ∀ t ∈ tokens, Readable t.lexeme) :
    (tokens.map fun t => (row t).toList).mapM ofRow? = some tokens := by
  induction tokens with
  | nil => rfl
  | cons t tokens ih =>
      obtain ⟨ht, htokens⟩ := List.forall_mem_cons.1 h
      simp [ht.ofRow?_row, ih htokens]

/-- A listing of tokens that can be read from their rows can be read back. -/
theorem ofListing?_listing {tokens : List Token} (hne : tokens ≠ [])
    (h : ∀ t ∈ tokens, Readable t.lexeme) : ofListing? (listing tokens) = some tokens := by
  have hrows : (listing tokens).toList =
      ['\n'].intercalate (tokens.map fun t => (row t).toList) := by
    simp [listing, String.toList_intercalate, Function.comp_def]
  have hlines : ∀ line ∈ tokens.map (fun t => (row t).toList), '\n' ∉ line :=
    List.forall_mem_map.2 fun t ht => (h t ht).newline_not_mem_row
  rw [ofListing?, hrows, List.splitOn_intercalate '\n' hlines (by simpa using hne),
    mapM_ofRow?_rows h]

theorem Scanned.readable {tokens : List Token} (h : Scanned tokens) :
    ∀ t ∈ tokens, Readable t.lexeme := by
  obtain ⟨body, line, rfl, hbody⟩ := h
  refine List.forall_mem_append.2 ⟨fun t ht => readable_of_scannable (hbody t ht), ?_⟩
  exact List.forall_mem_singleton.2 readable_endOfInput

theorem Scanned.ne_nil {tokens : List Token} (h : Scanned tokens) : tokens ≠ [] := by
  obtain ⟨body, line, rfl, -⟩ := h
  simp

/-- **A listing tells the tokens.**  The listing of the tokens of a text can be read back; so
texts whose tokens have the same listing have the same tokens. -/
theorem listing_tells_tokens :
    (∀ text tokens, scan text = .ok tokens → ofListing? (listing tokens) = some tokens) ∧
      ∀ text text' tokens tokens', scan text = .ok tokens → scan text' = .ok tokens' →
        listing tokens = listing tokens' → tokens = tokens' := by
  have hread : ∀ text tokens, scan text = .ok tokens →
      ofListing? (listing tokens) = some tokens := fun text tokens hscan =>
    have hscanned := scanned_of_scan hscan
    ofListing?_listing hscanned.ne_nil hscanned.readable
  refine ⟨hread, fun text text' tokens tokens' hscan hscan' hlisting => ?_⟩
  have hsome := hread text tokens hscan
  rw [hlisting, hread text' tokens' hscan'] at hsome
  exact (Option.some.inj hsome).symm

/-- A text laid out in two ways, with a token on each of two lines. -/
theorem listing_tells_tokens_respaced :
    let tokens := [.mark .printWord 1, .number 12 3, .mark .semicolon 3, .endOfInput 3]
    scan "print // it\n\n012;" = .ok tokens ∧ scan " print\n\n12 ;" = .ok tokens ∧
      listing tokens = "   1  PRINT\n   3  NUMBER 12\n   3  SEMICOLON\n   3  EOF" ∧
      ofListing? (listing tokens) = some tokens ∧
      ∀ text tokens', scan text = .ok tokens' → listing tokens = listing tokens' →
        tokens = tokens' := by
  intro tokens
  have hscan : scan "print // it\n\n012;" = .ok tokens := by decide +kernel
  have hscan' : scan " print\n\n12 ;" = .ok tokens := by decide +kernel
  exact ⟨hscan, hscan', by decide +kernel, listing_tells_tokens.1 _ tokens hscan,
    fun text tokens' => listing_tells_tokens.2 _ text tokens tokens' hscan⟩

end Token

end RillLang
