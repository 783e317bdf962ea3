import RillLang.Proofs.Tree.Cursor

/-!
# The parser makes progress and stays inside its input

A parse with a cursor ends as the readers do (`Walk.parse_eq`), and what is known of the
readers carries over to it.  It never looks outside the list, its repetitions never run out
of rounds, and every statement or expression that it reads moves the cursor on
(`parser_makes_progress`).

* `Reader.program_rounds` — as many rounds as there are tokens are enough.
* `Walk.Advances` — how one part of a parse ends, and where it leaves the cursor.
-/

namespace RillLang

open Ending Grammar

/-- A program is read the same with any number of rounds that is not less than the number of
its tokens. -/
theorem Reader.program_rounds {rounds limit : Nat} {tokens : List Token}
    (hopen : ∀ t ∈ tokens, t.isEnd = false) (h : tokens.length ≤ rounds) :
    program rounds limit tokens = program tokens.length limit tokens := by
  have hmimics := mimics_program tokens.length rounds limit
  cases hread : program tokens.length limit tokens with
  | ok p rest =>
      obtain rfl := program_rest_eq_nil hopen hread
      have hread' : program tokens.length limit (tokens ++ []) = .ok p [] := by simpa using hread
      obtain ⟨q, hq⟩ := hmimics.ok (by simp) hread' rfl rfl (by simpa using h)
      rw [List.append_nil] at hq
      -- no tokens spell two programs
      obtain rfl := (program_sound hopen hread).unique (program_sound hopen hq)
      exact hq
  | error reject rest =>
      obtain ⟨ts, rfl⟩ := (hmimics.leaves tokens).of_error hread
      exact hmimics.error (Nat.le_refl _) hread rfl ⟨rfl, fun _ => rfl⟩ h

/-- A token did not fit, or the nesting limit was used up. -/
inductive Halt.IsRefusal : Halt → Prop
  | unexpected {reject : Reject} : reject.IsUnexpected → IsRefusal (.reject reject)
  | tooDeep : IsRefusal (.reject .tooDeep)

namespace Walk

/-! ## The whole parse -/

theorem follows_program (i : Input) (rounds limit : Nat) :
    Follows i (Reader.program rounds limit) (program rounds limit) :=
  Coupled.bind (follows_statementsOnto_program (followsAt i rounds limit).statement rounds [])
    fun _ => coupled_pure _

theorem inside_start (tokens : List Token) : (Cursor.start tokens).Inside :=
  ⟨Nat.zero_le _, rfl⟩

theorem at_start (i : Input) : At i i.before (.start i.tokens) :=
  ⟨rfl, rfl, inside_start i.tokens⟩

/-- Endings that are alike mean the same: a refusal is reported at the same token. -/
theorem outcome_eq {i : Input} {ending : EStateM.Result Reject (List Token) Program}
    {ending' : EStateM.Result Halt Cursor Program}
    (h : Alike (At i) (fun _ => At i) .reject ending ending') :
    outcome ending' = some (Program.ofEnding i.closing ending) := by
  cases h with
  | ok hrest => rfl
  | @error reject rest c hrest =>
      have hfound : c.tokens[c.position]? = some (rest.headD i.closing) := by
        rw [hrest.tokens_eq, i.getElem?_tokens hrest.position_le, hrest.drop_eq]
      rw [outcome, hfound]
      rfl

/-- The parse with a cursor and the parse by readers give the same. -/
theorem parse_eq {rounds limit : Nat} {tokens : List Token} (hclosed : Token.Closed tokens)
    (hrounds : (Token.beforeEnd tokens).length ≤ rounds) :
    parse rounds limit tokens = some (Program.ofTokens limit tokens) := by
  obtain ⟨i, rfl⟩ := Input.exists_of_closed hclosed
  rw [i.beforeEnd_tokens] at hrounds
  have hending := follows_program i rounds limit _ _ (at_start i)
  rw [Reader.program_rounds i.open_before hrounds] at hending
  have hreaders : Program.ofTokens limit i.tokens =
      Program.ofEnding i.closing (Reader.program i.before.length limit i.before) :=
    Program.ofTokens_split limit i.open_before i.isEnd_closing hclosed
  obtain ⟨last, hlast, hend⟩ := hclosed
  rw [parse, hlast, hreaders, ← outcome_eq hending]
  exact if_pos hend

/-- A closed list is a program, or is refused at a token that does not fit or is too deep. -/
theorem ofTokens_cases (limit : Nat) {tokens : List Token} (hclosed : Token.Closed tokens) :
    (∃ p, Program.ofTokens limit tokens = .ok p) ∨
      (∃ expected found,
        Program.ofTokens limit tokens = .error (.unexpected expected found found.line)) ∨
      ∃ found, Program.ofTokens limit tokens = .error (.tooDeep found) := by
  obtain ⟨closing, heq⟩ := Program.exists_ofTokens_eq hclosed
  rw [heq limit]
  cases hread : Reader.program (Token.beforeEnd tokens).length limit (Token.beforeEnd tokens) with
  | ok p rest => exact .inl ⟨p, rfl⟩
  | error reject rest =>
      by_cases hdeep : reject = .tooDeep
      · subst hdeep
        exact .inr (.inr ⟨rest.headD closing, rfl⟩)
      · obtain ⟨⟨expected, rfl⟩, -⟩ := Reader.program_refuses hread hdeep
        exact .inr (.inl ⟨expected, rest.headD closing, rfl⟩)

/-- The cursor stays in the list and does not pass the first end. -/
theorem program_inside (rounds limit : Nat) {tokens : List Token} (hclosed : Token.Closed tokens) :
    Leaves (program rounds limit) (.start tokens) fun c => c.tokens = tokens ∧ c.Inside := by
  obtain ⟨i, rfl⟩ := Input.exists_of_closed hclosed
  exact (follows_program i rounds limit).leaves (at_start i) fun _ _ hat =>
    ⟨hat.tokens_eq, hat.inside⟩

/-- The indices a cursor has stood at are those of tokens, and not beyond the first end. -/
theorem index_le_of_inside {tokens : List Token} (hclosed : Token.Closed tokens) {c : Cursor}
    (htokens : c.tokens = tokens) (hinside : c.Inside) {index : Nat} (h : index ∈ c.visited) :
    index ≤ (Token.beforeEnd tokens).length ∧ index < tokens.length := by
  have hposition := hinside.position_le
  obtain ⟨i, rfl⟩ := Input.exists_of_closed hclosed
  rw [htokens, i.beforeEnd_tokens] at hposition
  rw [hinside.visited_eq, List.mem_reverse, List.mem_range] at h
  have hlt := i.length_before_lt
  rw [i.beforeEnd_tokens]
  omega

/-! ## Its parts -/

section Parts

variable {α : Type}

/-- From every place up to the first end, the part of the parse either moves the cursor on or
refuses; in both cases the cursor stays inside the list. -/
def Advances (rounds : Nat) (w : Walk α) : Prop :=
  ∀ c, Token.Closed c.tokens → c.Inside → (Token.beforeEnd c.tokens).length ≤ rounds →
    Ends w c (fun _ c' => c'.tokens = c.tokens ∧ c'.Inside ∧ c.position < c'.position)
      fun h c' => c'.tokens = c.tokens ∧ c'.Inside ∧ h.IsRefusal

/-- A part advances that follows a reader of phrases that are not empty. -/
theorem advances_of {rounds : Nat} {r : Reader α} {w : Walk α} {phrase : List Token → α → Prop}
    {opens : Kind → Prop} {begins : List Token → Prop} (hfollows : ∀ i, Follows i r w)
    (htakes : Reader.Takes r phrase) (hne : ∀ ts a, phrase ts a → ts ≠ [])
    (hrefuses : Reader.Refuses rounds opens begins r) : Advances rounds w := by
  intro c hclosed hinside hrounds
  obtain ⟨i, hi⟩ := Input.exists_of_closed hclosed
  have hat : At i (i.before.drop c.position) c := ⟨hi.symm, rfl, hinside⟩
  rw [← hi, i.beforeEnd_tokens] at hrounds
  have hending := hfollows i _ _ hat
  unfold Ends
  cases hread : r (i.before.drop c.position) with
  | ok a rest =>
      rw [hread] at hending
      generalize w c = ending' at hending
      cases hending with
      | @ok _ _ c' hrest =>
          refine ⟨hrest.tokens_eq.trans hi, hrest.inside, ?_⟩
          -- the reader took a token, so that fewer are left
          obtain ⟨ts, htokens, hts⟩ := htakes hread
          have hpos := List.length_pos_iff.2 (hne ts a hts)
          have hlength := congrArg List.length htokens
          rw [← hrest.drop_eq, List.length_append, List.length_drop, List.length_drop] at hlength
          omega
  | error reject rest =>
      rw [hread] at hending
      generalize w c = ending' at hending
      cases hending with
      | error hrest =>
          refine ⟨hrest.tokens_eq.trans hi, hrest.inside, ?_⟩
          by_cases hdeep : reject = .tooDeep
          · subst hdeep
            exact .tooDeep
          · have hlength : (i.before.drop c.position).length ≤ rounds := by
              rw [List.length_drop]
              omega
            exact .unexpected (hrefuses _ _ _ hlength hread hdeep).1

end Parts

/-- With this much room every function of the parser advances. -/
structure AdvancesAt (rounds room : Nat) : Prop where
  statement : Advances rounds (statement rounds room)
  letStatement : Advances rounds (letStatement (expression rounds room))
  printStatement : Advances rounds (printStatement (expression rounds room))
  conditional : Advances rounds (conditional rounds room)
  loop : Advances rounds (loop rounds room)
  block : Advances rounds (block rounds room)
  expressionStatement : Advances rounds (expressionStatement (expression rounds room))
  parenthesised : Advances rounds (parenthesised (expression rounds room))
  expression : Advances rounds (expression rounds room)
  assignment : Advances rounds (assignment rounds room)
  tier (t : Tier) : Advances rounds (tier rounds room t)
  operand (t : Tier) : Advances rounds (operand rounds room t)
  unary : Advances rounds (unary rounds room)
  primary : Advances rounds (primary rounds room)

theorem advancesAt (rounds room : Nat) : AdvancesAt rounds room := by
  have hf (i : Input) : FollowsAt i rounds room := followsAt i rounds room
  have hs : Reader.SoundAt rounds room := Reader.soundAt rounds room
  have hr : Reader.RefusesAt rounds room := Reader.refusesAt rounds room
  have hstatement (ts : List Token) (s : Node) (h : Statement ts s) : ts ≠ [] := h.opens.ne_nil
  exact {
    statement := advances_of (fun i => (hf i).statement) hs.statement hstatement hr.statement
    letStatement := advances_of (fun i => follows_letStatement (hf i).expression)
      (Reader.takes_letStatement hs.expression) hstatement
      (Reader.refuses_letStatement hr.expression hs.expression)
    printStatement := advances_of (fun i => follows_printStatement (hf i).expression)
      (Reader.takes_printStatement hs.expression) hstatement
      (Reader.refuses_printStatement hr.expression hs.expression)
    conditional := advances_of (fun i => (hf i).conditional) hs.conditional hstatement
      hr.conditional
    loop := advances_of (fun i => (hf i).loop) hs.loop hstatement hr.loop
    block := advances_of (fun i => (hf i).block) hs.block (fun _ _ h => h.opens.ne_nil) hr.block
    expressionStatement := advances_of
      (fun i => follows_expressionStatement (hf i).expression hs.expression)
      (Reader.takes_expressionStatement hs.expression) hstatement
      (Reader.refuses_expressionStatement hr.expression hs.expression)
    parenthesised := advances_of (fun i => follows_parenthesised (hf i).expression)
      (Reader.takes_parenthesised hs.expression)
      (by rintro _ e ⟨opening, inner, closing, rfl, -⟩; simp)
      (Reader.refuses_parenthesised hr.expression hs.expression)
    expression := advances_of (fun i => (hf i).expression) hs.expression
      (fun _ _ h => h.opens.ne_nil) hr.expression
    assignment := advances_of (fun i => (hf i).assignment) hs.assignment
      (fun _ _ h => h.opens.ne_nil) hr.assignment
    tier := fun t => advances_of (fun i => (hf i).tier t) (hs.tier t)
      (fun _ _ h => h.opens.ne_nil) (hr.tier t)
    operand := fun t => advances_of (fun i => (hf i).operand t) (hs.operand t)
      (fun _ _ h => h.opens.ne_nil) (hr.operand t)
    unary := advances_of (fun i => (hf i).unary) hs.unary (fun _ _ h => h.opens.ne_nil) hr.unary
    primary := advances_of (fun i => (hf i).primary) hs.primary (fun _ _ h => h.opens.ne_nil)
      hr.primary }

end Walk

/-- **The parser makes progress and stays inside its input.**  With as many rounds as there
are tokens before the first end, a closed list is parsed to a program, or refused at a token
that does not fit or is too deep: nothing is looked at that is not there and no repetition runs
out of rounds.  The cursor only ever stands at tokens up to the first end, and every statement
or expression that is read, wherever reading it starts, moves it on. -/
theorem parser_makes_progress :
    (∀ (limit rounds : Nat) (tokens : List Token), Token.Closed tokens →
      (Token.beforeEnd tokens).length ≤ rounds →
        Walk.parse rounds limit tokens = some (Program.ofTokens limit tokens) ∧
        ((∃ p, Program.ofTokens limit tokens = .ok p) ∨
          (∃ expected found,
            Program.ofTokens limit tokens = .error (.unexpected expected found found.line)) ∨
          ∃ found, Program.ofTokens limit tokens = .error (.tooDeep found)) ∧
        Leaves (Walk.program rounds limit) (.start tokens) fun c => c.Inside ∧
          ∀ index ∈ c.visited,
            index ≤ (Token.beforeEnd tokens).length ∧ index < tokens.length) ∧
    ∀ rounds room, Walk.AdvancesAt rounds room := by
  refine ⟨fun limit rounds tokens hclosed hrounds => ⟨Walk.parse_eq hclosed hrounds,
    Walk.ofTokens_cases limit hclosed, ?_⟩, Walk.advancesAt⟩
  refine (Walk.program_inside rounds limit hclosed).imp fun c hc => ?_
  exact ⟨hc.2, fun index hindex => Walk.index_le_of_inside hclosed hc.1 hc.2 hindex⟩

/-- A block that is closed only after the first end of the input. -/
theorem parser_makes_progress_closed_late :
    let tokens := [Token.mark .leftBrace 1, .identifier "x" 1, .mark .semicolon 1,
      .endOfInput 2, .mark .rightBrace 3, .endOfInput 3]
    Token.Closed tokens ∧ (Token.beforeEnd tokens).length = 3 ∧
      Program.ofTokens 40 tokens =
        .error (.unexpected (.kind (.mark .rightBrace)) (.endOfInput 2) 2) ∧
      (∃ h c, Walk.program 3 40 (.start tokens) = .error h c ∧ c.visited = [3, 2, 1, 0] ∧
        ∀ index ∈ c.visited, index ≤ 3) ∧
      ∃ s c, Walk.statement 3 20 ⟨tokens, 1, [1, 0]⟩ = .ok s c ∧ 1 < c.position := by
  intro tokens
  have hclosed : Token.Closed tokens := ⟨_, rfl, rfl⟩
  obtain ⟨-, -, hinside⟩ := parser_makes_progress.1 40 3 tokens hclosed (by decide)
  have hadvance := (parser_makes_progress.2 3 20).statement ⟨tokens, 1, [1, 0]⟩ hclosed
    ⟨by decide, by decide⟩ (by decide)
  have hvisited : (match Walk.program 3 40 (.start tokens) with
    | .ok _ _ => none
    | .error _ c => some c.visited) = some [3, 2, 1, 0] := by decide +kernel
  have hread : (match Walk.statement 3 20 ⟨tokens, 1, [1, 0]⟩ with
    | .ok _ _ => true
    | .error _ _ => false) = true := by decide +kernel
  refine ⟨hclosed, by decide, rfl, ?_, ?_⟩
  · cases hprogram : Walk.program 3 40 (.start tokens) with
    | ok p c =>
        rw [hprogram] at hvisited
        cases hvisited
    | error h c =>
        rw [hprogram] at hvisited
        exact ⟨h, c, rfl, Option.some.inj hvisited,
          fun index hindex => ((hinside.of_error hprogram).2 index hindex).1⟩
  · cases hstatement : Walk.statement 3 20 ⟨tokens, 1, [1, 0]⟩ with
    | ok s c => exact ⟨s, c, rfl, (hadvance.of_ok hstatement).2.2⟩
    | error h c =>
        rw [hstatement] at hread
        cases hread

end RillLang
