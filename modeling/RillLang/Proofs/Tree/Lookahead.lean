import RillLang.Proofs.Tree.Mimicry
import RillLang.Proofs.Tree.Refusal

/-!
# How far a reader looks

What a reader does on some tokens it does on all tokens of the same kinds, whatever comes
after the token where it stopped; and after a whole statement it only matters whether an
`else` comes.

* `mimicsAt` — all readers at once, by induction on the room, and `mimics_program`.
* `program_mimics_error` — a program that is refused is refused for the same reason whenever
  the same kinds come first, up to the token that was refused.
* `itemsOnto_run` — statements that were read to the end are read in front of others.
-/

namespace RillLang

/-! ## What is seen of an assignment and of an atom -/

namespace Token.SameBy

open Reader

/-- Two kinds are seen of the tokens, the second of which may come after a token taken. -/
theorem seesAssignment_append {ts ts' rest rest' : List Token} (h : SameKinds ts ts')
    (hpos : ts ≠ []) (hrest : kindAt rest = kindAt rest') :
    seesAssignment (ts' ++ rest') = seesAssignment (ts ++ rest) := by
  cases ts with
  | nil => exact absurd rfl hpos
  | cons t us =>
      obtain ⟨t', us', rfl, hk, hus⟩ := h.cons_left
      have htail : kindAt (us ++ rest) = kindAt (us' ++ rest') := hus.near_append Eq.refl hrest
      show (t'.kind == _ && kindAt (us' ++ rest') == _) = (t.kind == _ && kindAt (us ++ rest) == _)
      rw [hk, htail]

theorem seesAssignment_eq {ts ts' : List Token} (h : SameKinds ts ts') :
    seesAssignment ts' = seesAssignment ts := by
  cases ts with
  | nil => rw [h.eq_nil]
  | cons t us =>
      have happend : seesAssignment (ts' ++ []) = seesAssignment (t :: us ++ []) :=
        h.seesAssignment_append (List.cons_ne_nil t us) rfl
      simpa using happend

end Token.SameBy

namespace Reader

open Grammar Ending
open Token (SameKinds)

theorem mimics_takeAtom {rounds rounds' : Nat} {near : Kind → Kind → Prop} :
    Mimics rounds rounds' near takeAtom takeAtom := by
  refine mimics_takeOne (fun k => k = .number ∨ k = .identifier) (by simp)
    (fun t rest ht => ?_) (fun _ => takeAtom_eq_error)
  obtain ⟨lexeme, line⟩ := t
  cases lexeme with
  | number value => exact ⟨_, rfl⟩
  | identifier name => exact ⟨_, rfl⟩
  | _ => rcases ht with ht | ht <;> cases ht

/-! ## All readers at once -/

/-- With this much room every reader does the same on tokens of the same kinds. -/
structure MimicsAt (rounds rounds' room : Nat) : Prop where
  statement : Mimics rounds rounds' ElseAlike (statement rounds room) (statement rounds' room)
  conditional :
    Mimics rounds rounds' ElseAlike (conditional rounds room) (conditional rounds' room)
  loop : Mimics rounds rounds' Any (loop rounds room) (loop rounds' room)
  block : Mimics rounds rounds' Any (block rounds room) (block rounds' room)
  expression : Mimics rounds rounds' Eq (expression rounds room) (expression rounds' room)
  assignment : Mimics rounds rounds' Eq (assignment rounds room) (assignment rounds' room)
  tier (t : Tier) : Mimics rounds rounds' Eq (tier rounds room t) (tier rounds' room t)
  operand (t : Tier) : Mimics rounds rounds' Eq (operand rounds room t) (operand rounds' room t)
  unary : Mimics rounds rounds' Eq (unary rounds room) (unary rounds' room)
  primary : Mimics rounds rounds' Eq (primary rounds room) (primary rounds' room)

theorem mimicsAt_zero (rounds rounds' : Nat) : MimicsAt rounds rounds' 0 where
  statement := by rw [Reader.statement, Reader.statement]; exact mimics_tooDeep
  conditional := by rw [Reader.conditional, Reader.conditional]; exact mimics_tooDeep
  loop := by rw [Reader.loop, Reader.loop]; exact mimics_tooDeep
  block := by rw [Reader.block, Reader.block]; exact mimics_tooDeep
  expression := by rw [Reader.expression, Reader.expression]; exact mimics_tooDeep
  assignment := by rw [Reader.assignment, Reader.assignment]; exact mimics_tooDeep
  tier t := by rw [Reader.tier, Reader.tier]; exact mimics_tooDeep
  operand t := by rw [Reader.operand, Reader.operand]; exact mimics_tooDeep
  unary := by rw [Reader.unary, Reader.unary]; exact mimics_tooDeep
  primary := by rw [Reader.primary, Reader.primary]; exact mimics_tooDeep

/-- A statement takes a token. -/
theorem statement_taking {rounds room : Nat} {ts rest : List Token} {s : Node}
    (h : statement rounds room (ts ++ rest) = .ok s rest) : 1 ≤ ts.length := by
  obtain ⟨us, hus, hs⟩ := (soundAt rounds room).statement h
  obtain rfl : ts = us := List.append_cancel_right hus
  exact hs.opens.length_pos

section Step

variable {rounds rounds' room : Nat} (ih : MimicsAt rounds rounds' room)

include ih

theorem mimics_conditional :
    Mimics rounds rounds' ElseAlike (conditional rounds (room + 1))
      (conditional rounds' (room + 1)) := by
  rw [conditional, conditional]
  refine (mimics_takeMark .ifWord).bind (fun _ _ => ?_) fun _ => Iff.rfl
  refine (mimics_parenthesised ih.expression).of_any.bind (fun _ _ => ?_) fun _ => Iff.rfl
  refine ih.block.of_any.bind (fun _ _ => ?_) fun _ => Iff.rfl
  exact (mimics_elseBranch ih.block).bind (fun _ _ => mimics_pure _ _) fun _ => Iff.rfl

theorem mimics_loop :
    Mimics rounds rounds' Any (loop rounds (room + 1)) (loop rounds' (room + 1)) := by
  rw [loop, loop]
  refine (mimics_takeMark .whileWord).bind (fun _ _ => ?_) fun _ => trivial
  refine (mimics_parenthesised ih.expression).bind (fun _ _ => ?_) fun _ => trivial
  exact ih.block.bind (fun _ _ => mimics_pure _ _) fun _ => trivial

theorem mimics_block :
    Mimics rounds rounds' Any (block rounds (room + 1)) (block rounds' (room + 1)) := by
  rw [block, block]
  refine (mimics_takeMark .leftBrace).bind (fun _ _ => ?_) fun _ => trivial
  have hend : closesBlock .endOfInput = true := rfl
  have hitems := mimics_itemsOnto ih.statement statement_taking hend rounds (Nat.le_refl _)
    (Nat.le_refl _) [] []
  exact hitems.bind_mark .rightBrace _ _

theorem mimics_statement :
    Mimics rounds rounds' ElseAlike (statement rounds (room + 1))
      (statement rounds' (room + 1)) := by
  refine mimics_of_kind (statement_eq_form rounds room) (statement_eq_form rounds' room)
    (fun k => ?_) (fun {rest rest' a} h _ => ?_)
  · unfold statementForm
    split
    · exact (mimics_letStatement ih.expression).of_any
    · exact (mimics_printStatement ih.expression).of_any
    · exact ih.conditional
    · exact ih.loop.of_any
    · refine Mimics.of_any (mimics_nextLine.bind (fun _ _ => ?_) fun _ => trivial)
      exact ih.block.bind (fun _ _ => mimics_pure _ _) fun _ => trivial
    · exact (mimics_expressionStatement ih.expression).of_any
  · have hnil : statement rounds (room + 1) ([] ++ rest) = .ok a rest := h
    cases statement_taking hnil

/-- A name with an equals sign after it is told by two tokens.  The second of them may be
the one that comes after the tokens taken; where nothing is taken there is no name. -/
theorem mimics_assignment :
    Mimics rounds rounds' Eq (assignment rounds (room + 1)) (assignment rounds' (room + 1)) := by
  refine mimics_of_choice seesAssignment (assignment_eq_form rounds room)
    (assignment_eq_form rounds' room) (fun seen => ?_)
    (fun {ts rest ts' rest' e} h hkinds hnear => ?_)
    (fun {ts rest ts' rest' reject} hlength h hkinds hmeets => ?_)
  · cases seen with
    | false => exact ih.tier .equality
    | true =>
        refine mimics_nextLine.bind (fun _ _ => ?_) Eq.refl
        refine mimics_takeName.bind (fun _ _ => ?_) Eq.refl
        refine (mimics_takeMark .equal).bind (fun _ _ => ?_) Eq.refl
        exact ih.assignment.bind (fun _ _ => mimics_pure _ _) Eq.refl
  · obtain ⟨us, hus, he⟩ := (soundAt rounds (room + 1)).assignment h
    obtain rfl : ts = us := List.append_cancel_right hus
    exact hkinds.seesAssignment_append he.opens.ne_nil hnear
  · by_cases hpos : ts = []
    · subst hpos
      rw [hkinds.eq_nil, List.nil_append, List.nil_append] at *
      by_cases hdeep : reject = .tooDeep
      · exact (hmeets.2 hdeep).seesAssignment_eq
      · obtain ⟨-, us, hus, -, hopen⟩ :=
          (refusesAt rounds (room + 1)).assignment _ _ _ hlength h hdeep
        have hname : kindAt rest ≠ .identifier := by
          intro hk
          refine hopen (List.append_left_eq_self.1 hus.symm) ?_
          rw [hk]
          trivial
        rw [seesAssignment, seesAssignment, ← hmeets.1, beq_false_of_ne hname, Bool.false_and,
          Bool.false_and]
    · exact hkinds.seesAssignment_append hpos hmeets.1

theorem mimics_operand (t : Tier) :
    Mimics rounds rounds' Eq (operand rounds (room + 1) t) (operand rounds' (room + 1) t) := by
  rw [operand, operand]
  cases t.tighter with
  | some tighter => exact ih.tier tighter
  | none => exact ih.unary

theorem mimics_unary :
    Mimics rounds rounds' Eq (unary rounds (room + 1)) (unary rounds' (room + 1)) := by
  refine mimics_of_kind (unary_eq_form rounds room) (unary_eq_form rounds' room) (fun k => ?_)
    fun _ => id
  unfold unaryForm
  split
  · refine (mimics_takeMark .minus).bind (fun _ _ => ?_) Eq.refl
    exact ih.unary.bind (fun _ _ => mimics_pure _ _) Eq.refl
  · exact ih.primary

theorem mimics_primary :
    Mimics rounds rounds' Eq (primary rounds (room + 1)) (primary rounds' (room + 1)) := by
  refine mimics_of_kind (primary_eq_form rounds room) (primary_eq_form rounds' room) (fun k => ?_)
    fun _ => id
  unfold primaryForm
  split
  · exact (mimics_parenthesised ih.expression).of_any
  · exact mimics_takeAtom

theorem mimicsAt_succ : MimicsAt rounds rounds' (room + 1) where
  statement := mimics_statement ih
  conditional := mimics_conditional ih
  loop := mimics_loop ih
  block := mimics_block ih
  expression := by rw [Reader.expression, Reader.expression]; exact ih.assignment
  assignment := mimics_assignment ih
  tier t := by rw [Reader.tier, Reader.tier]; exact mimics_chain (ih.operand t)
  operand := mimics_operand ih
  unary := mimics_unary ih
  primary := mimics_primary ih

end Step

/-- However much room there is, every reader does the same on tokens of the same kinds. -/
theorem mimicsAt (rounds rounds' room : Nat) : MimicsAt rounds rounds' room := by
  induction room with
  | zero => exact mimicsAt_zero rounds rounds'
  | succ room ih => exact mimicsAt_succ ih

/-! ## Whole programs -/

theorem mimics_program (rounds rounds' limit : Nat) :
    Mimics rounds rounds' Eq (program rounds limit) (program rounds' limit) := by
  have hend : closesProgram .endOfInput = true := rfl
  have hitems := mimics_itemsOnto (mimicsAt rounds rounds' limit).statement statement_taking hend
    rounds (Nat.le_refl _) (Nat.le_refl _) [] []
  exact hitems.bind (fun statements statements' =>
    mimics_pure (Program.mk statements) (Program.mk statements')) Eq.refl

/-- A program that is refused is refused for the same reason wherever the same kinds come
first, up to the token that was refused. -/
theorem program_mimics_error {limit : Nat} {ts rest ts' rest' : List Token} {reject : Reject}
    (h : program (ts ++ rest).length limit (ts ++ rest) = .error reject rest)
    (hkinds : SameKinds ts ts') (hmeets : Meets reject rest rest') :
    program (ts' ++ rest').length limit (ts' ++ rest') = .error reject rest' :=
  (mimics_program _ _ limit).error (Nat.le_refl _) h hkinds hmeets (Nat.le_refl _)

/-- Statements that were read to the end are read just so in front of other tokens, as
long as no `else` comes first there; then the reading goes on with those tokens. -/
theorem itemsOnto_run {rounds rounds' room : Nat} {stop : Kind → Bool} (n : Nat)
    (hn : n ≤ rounds) :
    ∀ {done nodes : List Node} {ts ts' rest' : List Token}, ts.length ≤ n →
      itemsOnto stop (statement rounds room) done n ts = .ok nodes [] → SameKinds ts ts' →
      kindAt rest' ≠ .mark .elseWord → ∀ n' done', n' ≤ rounds' → (ts' ++ rest').length ≤ n' →
      ∃ done'' n'', rest'.length ≤ n'' ∧ n'' ≤ n' ∧
        itemsOnto stop (statement rounds' room) done' n' (ts' ++ rest') =
          itemsOnto stop (statement rounds' room) done'' n'' rest' := by
  induction n with
  | zero =>
      intro done nodes ts ts' rest' hlength h hkinds helse n' done' hn' hlength'
      obtain rfl := eq_nil_of_length_le_zero hlength
      rw [hkinds.eq_nil]
      exact ⟨done', n', by rwa [hkinds.eq_nil] at hlength', Nat.le_refl _, rfl⟩
  | succ n ih =>
      intro done nodes ts ts' rest' hlength h hkinds helse n' done' hn' hlength'
      rw [itemsOnto_succ_eq_form, itemForm] at h
      by_cases hstop : stop (kindAt ts) = true
      · rw [if_pos hstop] at h
        obtain ⟨-, rfl⟩ := pure_eq_ok.1 h
        rw [hkinds.eq_nil]
        exact ⟨done', n', by rwa [hkinds.eq_nil] at hlength', Nat.le_refl _, rfl⟩
      · rw [if_neg hstop] at h
        obtain ⟨node, mid, hfirst, hmore⟩ := bind_eq_ok.1 h
        have hstatement := (mimicsAt rounds rounds' room).statement
        obtain ⟨us, rfl⟩ := (hstatement.leaves ts).of_ok hfirst
        obtain ⟨us', vs', rfl, hkus, hkvs⟩ := hkinds.append_left
        have hpos : us ≠ [] := List.ne_nil_of_length_pos (statement_taking hfirst)
        have hnear : ElseAlike (kindAt mid) (kindAt (vs' ++ rest')) := by
          have hend : ElseAlike (kindAt []) (kindAt rest') :=
            iff_of_false (kindAt_nil_ne_mark _) helse
          simpa using hkvs.near_append (fun _ => Iff.rfl) hend
        rw [List.append_assoc] at hlength' ⊢
        obtain ⟨node', hfirst'⟩ := hstatement.ok (by omega) hfirst hkus hnear (by omega)
        have hkind : stop (kindAt (us' ++ (vs' ++ rest'))) = false := by
          have hk : kindAt (us ++ mid) = kindAt (us' ++ (vs' ++ rest')) := hkus.kindAt_append hpos
          rw [← hk]
          exact Bool.eq_false_iff.2 hstop
        have hus := statement_taking hfirst
        rw [List.length_append] at hlength hlength'
        rw [hkus.length_eq] at hlength'
        obtain ⟨n', rfl⟩ : ∃ k, n' = k + 1 := ⟨n' - 1, by omega⟩
        obtain ⟨done'', n'', hrest, hle, heq⟩ := ih (by omega) (by omega) hmore hkvs helse n'
          (node' :: done') (by omega) (by omega)
        exact ⟨done'', n'', hrest, by omega, by rw [itemsOnto_item hkind hfirst', heq]⟩

theorem program_eq_ok {rounds limit : Nat} {tokens rest : List Token} {p : Program} :
    program rounds limit tokens = .ok p rest ↔
      itemsOnto closesProgram (statement rounds limit) [] rounds tokens =
        .ok p.statements rest := by
  rw [program, bind_eq_ok]
  constructor
  · rintro ⟨statements, mid, hitems, hpure⟩
    obtain ⟨rfl, rfl⟩ := pure_eq_ok.1 hpure
    exact hitems
  · intro hitems
    exact ⟨p.statements, rest, hitems, rfl⟩

/-- A program is read to the end of the tokens, if none of them is an end. -/
theorem program_rest_eq_nil {rounds limit : Nat} {tokens rest : List Token} {p : Program}
    (hopen : ∀ t ∈ tokens, t.isEnd = false) (h : program rounds limit tokens = .ok p rest) :
    rest = [] := by
  obtain ⟨ts, rfl, -, hstop⟩ := items_sound (soundAt rounds limit).statement (program_eq_ok.1 h)
  cases rest with
  | nil => rfl
  | cons t after =>
      have ht : t.isEnd = false := hopen t (by simp)
      rw [show t.isEnd = true from hstop] at ht
      cases ht

/-- Two programs that are read to the end are read after one another, the second on other
tokens of the same kinds. -/
theorem program_joined {limit : Nat} {ts us us' : List Token} {p q : Program}
    (hp : program ts.length limit ts = .ok p []) (hq : program us.length limit us = .ok q [])
    (hkinds : SameKinds us us') (helse : kindAt us' ≠ .mark .elseWord) :
    ∃ r, program (ts ++ us').length limit (ts ++ us') = .ok r [] := by
  obtain ⟨done, n, hlength, hle, hfirst⟩ := itemsOnto_run ts.length (Nat.le_refl _) (Nat.le_refl _)
    (program_eq_ok.1 hp) rfl helse (ts ++ us').length [] (Nat.le_refl _) (Nat.le_refl _)
  obtain ⟨done', n', -, -, hsecond⟩ := itemsOnto_run us.length (Nat.le_refl _) (Nat.le_refl _)
    (program_eq_ok.1 hq) hkinds (kindAt_nil_ne_mark _) n done hle (by simpa using hlength)
  rw [List.append_nil] at hsecond
  have hend : closesProgram (kindAt []) = true := rfl
  refine ⟨⟨done'.reverse⟩, program_eq_ok.2 ?_⟩
  rw [hfirst, hsecond, itemsOnto_stop hend]

end Reader

end RillLang
