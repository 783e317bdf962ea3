import RillLang.Proofs.Tree.Opening

/-!
# Lines leave no trace but themselves

The same lexemes on other lines spell the same tree, but for the lines of its nodes.

* `Token.SameBy` — token lists that agree in something, token by token.
* `Node.alike_iff` — two trees are alike when they are equal without their lines.
* `Grammar.Statements.relined` — phrases on other lines, by induction on the derivation.
-/

namespace RillLang

/-! ## Token lists that agree -/

namespace Token

variable {β : Type} {f : Token → β}

/-- The token lists agree in what `f` says of their tokens, one by one. -/
def SameBy (f : Token → β) (ts ts' : List Token) : Prop := ts'.map f = ts.map f

theorem SameBy.append_left {us vs ts' : List Token} (h : SameBy f (us ++ vs) ts') :
    ∃ us' vs', ts' = us' ++ vs' ∧ SameBy f us us' ∧ SameBy f vs vs' := by
  rw [SameBy, List.map_append] at h
  exact List.map_eq_append_iff.1 h

theorem SameBy.cons_left {t : Token} {ts ts' : List Token} (h : SameBy f (t :: ts) ts') :
    ∃ t' us', ts' = t' :: us' ∧ f t' = f t ∧ SameBy f ts us' := by
  rw [SameBy, List.map_cons] at h
  exact List.map_eq_cons_iff.1 h

theorem SameBy.eq_nil {ts' : List Token} (h : SameBy f [] ts') : ts' = [] :=
  List.map_eq_nil_iff.1 h

theorem SameBy.singleton_left {t : Token} {ts' : List Token} (h : SameBy f [t] ts') :
    ∃ t', ts' = [t'] ∧ f t' = f t := by
  obtain ⟨t', us', rfl, ht, hus⟩ := h.cons_left
  exact ⟨t', by rw [hus.eq_nil], ht⟩

theorem SameBy.length_eq {ts ts' : List Token} (h : SameBy f ts ts') :
    ts'.length = ts.length := by
  simpa using congrArg List.length h

/-- The token lists have the same kinds. -/
abbrev SameKinds : List Token → List Token → Prop := SameBy kind

/-- The token lists have the same lexemes, on whatever lines. -/
abbrev SameLexemes : List Token → List Token → Prop := SameBy lexeme

theorem SameBy.sameKinds {ts ts' : List Token} (h : SameLexemes ts ts') : SameKinds ts ts' := by
  have hkinds : ts'.map (Lexeme.kind ∘ lexeme) = ts.map (Lexeme.kind ∘ lexeme) := by
    rw [← List.map_map, h, List.map_map]
  exact hkinds

end Token

/-! ## Trees without their lines -/

namespace Node

mutual

/-- Two trees are alike when they are equal without their lines. -/
theorem alike_iff : ∀ n n' : Node, n.alike n' = true ↔ n.eraseLines = n'.eraseLines
  | .program ss, n' => by
      cases n' <;> simp [alike, eraseLines, alikeList_iff ss]
  | .bare family line, n' => by
      cases n' <;> simp [alike, eraseLines]
  | .literal line v, n' => by
      cases n' <;> simp [alike, eraseLines]
  | .reference line x, n' => by
      cases n' <;> simp [alike, eraseLines]
  | .assign line x e, n' => by
      cases n' <;> simp [alike, eraseLines, alike_iff e]
  | .unary line op e, n' => by
      cases n' <;> simp [alike, eraseLines, alike_iff e]
  | .binary line op l r, n' => by
      cases n' <;> simp [alike, eraseLines, alike_iff l, alike_iff r, and_assoc]
  | .letStmt line x e, n' => by
      cases n' <;> simp [alike, eraseLines, alike_iff e]
  | .printStmt line e, n' => by
      cases n' <;> simp [alike, eraseLines, alike_iff e]
  | .exprStmt line e, n' => by
      cases n' <;> simp [alike, eraseLines, alike_iff e]
  | .ifStmt line c t f, n' => by
      cases n' <;>
        simp [alike, eraseLines, alike_iff c, alikeList_iff t, alikeOption_iff f, and_assoc]
  | .whileStmt line c b, n' => by
      cases n' <;> simp [alike, eraseLines, alike_iff c, alikeList_iff b]
  | .block line ss, n' => by
      cases n' <;> simp [alike, eraseLines, alikeList_iff ss]

theorem alikeList_iff : ∀ ns ns' : List Node,
    alikeList ns ns' = true ↔ eraseLinesList ns = eraseLinesList ns'
  | [], ns' => by cases ns' <;> simp [alikeList, eraseLinesList]
  | n :: ns, ns' => by
      cases ns' <;> simp [alikeList, eraseLinesList, alike_iff n, alikeList_iff ns]

theorem alikeOption_iff : ∀ ns ns' : Option (List Node),
    alikeOption ns ns' = true ↔ eraseLinesOption ns = eraseLinesOption ns'
  | none, ns' => by cases ns' <;> simp [alikeOption, eraseLinesOption]
  | some ns, ns' => by
      cases ns' <;> simp [alikeOption, eraseLinesOption, alikeList_iff ns]

end

theorem eraseLinesList_append (ns ns' : List Node) :
    eraseLinesList (ns ++ ns') = eraseLinesList ns ++ eraseLinesList ns' := by
  induction ns with
  | nil => rfl
  | cons n ns ih => rw [List.cons_append, eraseLinesList, eraseLinesList, ih, List.cons_append]

end Node

/-! ## Phrases on other lines -/

namespace Grammar

open Token Node

theorem IsMark.of_lexeme {m : Mark} {t t' : Token} (h : IsMark m t)
    (hlexeme : t'.lexeme = t.lexeme) : IsMark m t' := by
  unfold IsMark Token.kind at h ⊢
  rw [hlexeme, h]

mutual

theorem Primary.relined {ts ts' : List Token} {e : Node} :
    Primary ts e → SameLexemes ts ts' → ∃ e', Primary ts' e' ∧ e'.eraseLines = e.eraseLines
  | .number value line, hsame => by
      obtain ⟨⟨lexeme, line'⟩, rfl, rfl⟩ := hsame.singleton_left
      exact ⟨.literal line' value, .number value line', rfl⟩
  | .name name line, hsame => by
      obtain ⟨⟨lexeme, line'⟩, rfl, rfl⟩ := hsame.singleton_left
      exact ⟨.reference line' _, .name name line', rfl⟩
  | .parenthesised hopening h hclosing, hsame => by
      obtain ⟨opening', after, rfl, hopening', hafter⟩ := hsame.cons_left
      obtain ⟨us', last, rfl, hus, hlast⟩ := hafter.append_left
      obtain ⟨closing', rfl, hclosing'⟩ := hlast.singleton_left
      obtain ⟨e', he', herase⟩ := h.relined hus
      exact ⟨e', .parenthesised (hopening.of_lexeme hopening') he' (hclosing.of_lexeme hclosing'),
        herase⟩

theorem Unary.relined {ts ts' : List Token} {e : Node} :
    Unary ts e → SameLexemes ts ts' → ∃ e', Unary ts' e' ∧ e'.eraseLines = e.eraseLines
  | .primary h, hsame => by
      obtain ⟨e', he', herase⟩ := h.relined hsame
      exact ⟨e', .primary he', herase⟩
  | .negate hsign h, hsame => by
      obtain ⟨sign', us', rfl, hsign', hus⟩ := hsame.cons_left
      obtain ⟨e', he', herase⟩ := h.relined hus
      exact ⟨_, .negate (hsign.of_lexeme hsign') he', by simp [eraseLines, herase]⟩

theorem Tiered.relined {t : Tier} {ts ts' : List Token} {e : Node} :
    Tiered t ts e → SameLexemes ts ts' → ∃ e', Tiered t ts' e' ∧ e'.eraseLines = e.eraseLines
  | .operand h, hsame => by
      obtain ⟨e', he', herase⟩ := h.relined hsame
      exact ⟨e', .operand he', herase⟩
  | .joined hl hsign hop hr, hsame => by
      obtain ⟨left', after, rfl, hleft, hafter⟩ := hsame.append_left
      obtain ⟨sign', right', rfl, hsign', hright⟩ := hafter.cons_left
      obtain ⟨l', hl', hlErase⟩ := hl.relined hleft
      obtain ⟨r', hr', hrErase⟩ := hr.relined hright
      exact ⟨_, .joined hl' (hsign.of_lexeme hsign') hop hr',
        by simp [eraseLines, hlErase, hrErase]⟩

theorem Operand.relined {t : Tier} {ts ts' : List Token} {e : Node} :
    Operand t ts e → SameLexemes ts ts' → ∃ e', Operand t ts' e' ∧ e'.eraseLines = e.eraseLines
  | .tighter ht h, hsame => by
      obtain ⟨e', he', herase⟩ := h.relined hsame
      exact ⟨e', .tighter ht he', herase⟩
  | .unary ht h, hsame => by
      obtain ⟨e', he', herase⟩ := h.relined hsame
      exact ⟨e', .unary ht he', herase⟩

theorem Assignment.relined {ts ts' : List Token} {e : Node} :
    Assignment ts e → SameLexemes ts ts' →
      ∃ e', Assignment ts' e' ∧ e'.eraseLines = e.eraseLines
  | .assign hsign h, hsame => by
      obtain ⟨⟨lexeme, line'⟩, after, rfl, rfl, hafter⟩ := hsame.cons_left
      obtain ⟨sign', us', rfl, hsign', hus⟩ := hafter.cons_left
      obtain ⟨e', he', herase⟩ := h.relined hus
      exact ⟨_, .assign (hsign.of_lexeme hsign') he', by simp [eraseLines, herase]⟩
  | .tiered h, hsame => by
      obtain ⟨e', he', herase⟩ := h.relined hsame
      exact ⟨e', .tiered he', herase⟩

end

/-- An expression between parentheses on other lines, and what comes after it. -/
theorem Assignment.relined_parenthesised {opening closing : Token} {ts after ts' : List Token}
    {e : Node} (hopening : IsMark .leftParen opening) (h : Expression ts e)
    (hclosing : IsMark .rightParen closing)
    (hsame : SameLexemes (opening :: (ts ++ closing :: after)) ts') :
    ∃ opening' us' closing' after' e', ts' = opening' :: (us' ++ closing' :: after') ∧
      IsMark .leftParen opening' ∧ Expression us' e' ∧ IsMark .rightParen closing' ∧
      e'.eraseLines = e.eraseLines ∧ SameLexemes after after' := by
  obtain ⟨opening', rest, rfl, hopening', hrest⟩ := hsame.cons_left
  obtain ⟨us', last, rfl, hus, hlast⟩ := hrest.append_left
  obtain ⟨closing', after', rfl, hclosing', hafter⟩ := hlast.cons_left
  obtain ⟨e', he', herase⟩ := h.relined hus
  exact ⟨opening', us', closing', after', e', rfl, hopening.of_lexeme hopening', he',
    hclosing.of_lexeme hclosing', herase, hafter⟩

mutual

theorem Statement.relined {ts ts' : List Token} {s : Node} :
    Statement ts s → SameLexemes ts ts' → ∃ s', Statement ts' s' ∧ s'.eraseLines = s.eraseLines
  | .letStmt hword hsign he hsemicolon, hsame => by
      obtain ⟨word', named, rfl, hword', hnamed⟩ := hsame.cons_left
      obtain ⟨⟨lexeme, line'⟩, signed, rfl, rfl, hsigned⟩ := hnamed.cons_left
      obtain ⟨sign', after, rfl, hsign', hafter⟩ := hsigned.cons_left
      obtain ⟨us', last, rfl, hus, hlast⟩ := hafter.append_left
      obtain ⟨semicolon', rfl, hsemicolon'⟩ := hlast.singleton_left
      obtain ⟨e', he', herase⟩ := he.relined hus
      exact ⟨_, .letStmt (hword.of_lexeme hword') (hsign.of_lexeme hsign') he'
        (hsemicolon.of_lexeme hsemicolon'), by simp [eraseLines, herase]⟩
  | .printStmt hword hopening he hclosing hsemicolon, hsame => by
      obtain ⟨word', after, rfl, hword', hafter⟩ := hsame.cons_left
      obtain ⟨opening', us', closing', last, e', rfl, hopening', he', hclosing', herase, hlast⟩ :=
        he.relined_parenthesised hopening hclosing hafter
      obtain ⟨semicolon', rfl, hsemicolon'⟩ := hlast.singleton_left
      have hprint := Statement.printStmt (hword.of_lexeme hword') hopening' he' hclosing'
        (hsemicolon.of_lexeme hsemicolon')
      exact ⟨_, by simpa using hprint, by simp [eraseLines, herase]⟩
  | .exprStmt he hsemicolon, hsame => by
      obtain ⟨us', last, rfl, hus, hlast⟩ := hsame.append_left
      obtain ⟨semicolon', rfl, hsemicolon'⟩ := hlast.singleton_left
      obtain ⟨e', he', herase⟩ := he.relined hus
      obtain ⟨t', vs', rfl, -, -⟩ := hus.cons_left
      exact ⟨_, .exprStmt he' (hsemicolon.of_lexeme hsemicolon'), by simp [eraseLines, herase]⟩
  | .block hb, hsame => by
      obtain ⟨body', hbody', herase⟩ := hb.relined hsame
      obtain ⟨t', us', rfl, -, -⟩ := hsame.cons_left
      exact ⟨_, .block hbody', by simp [eraseLines, herase]⟩
  | .ifStmt hword hopening hc hclosing hthen, hsame => by
      obtain ⟨word', after, rfl, hword', hafter⟩ := hsame.cons_left
      obtain ⟨opening', us', closing', thenTokens', c', rfl, hopening', hc', hclosing', hcErase,
        hsameThen⟩ := hc.relined_parenthesised hopening hclosing hafter
      obtain ⟨then', hthen', hthenErase⟩ := hthen.relined hsameThen
      have hif := Statement.ifStmt (hword.of_lexeme hword') hopening' hc' hclosing' hthen'
      exact ⟨_, hif, by simp [eraseLines, hcErase, hthenErase]⟩
  | .ifElse hword hopening hc hclosing hthen hotherwise helse, hsame => by
      rw [List.append_assoc] at hsame
      obtain ⟨word', after, rfl, hword', hafter⟩ := hsame.cons_left
      obtain ⟨opening', us', closing', branches', c', rfl, hopening', hc', hclosing', hcErase,
        hbranches⟩ := hc.relined_parenthesised hopening hclosing (by simpa using hafter)
      obtain ⟨thenTokens', rest, rfl, hsameThen, hrest⟩ := hbranches.append_left
      obtain ⟨otherwise', elseTokens', rfl, hotherwise', hsameElse⟩ := hrest.cons_left
      obtain ⟨then', hthen', hthenErase⟩ := hthen.relined hsameThen
      obtain ⟨else', helse', helseErase⟩ := helse.relined hsameElse
      have hif := Statement.ifElse (hword.of_lexeme hword') hopening' hc' hclosing' hthen'
        (hotherwise.of_lexeme hotherwise') helse'
      exact ⟨_, by simpa using hif,
        by simp [eraseLines, eraseLinesOption, hcErase, hthenErase, helseErase]⟩
  | .whileStmt hword hopening hc hclosing hbody, hsame => by
      obtain ⟨word', after, rfl, hword', hafter⟩ := hsame.cons_left
      obtain ⟨opening', us', closing', bodyTokens', c', rfl, hopening', hc', hclosing', hcErase,
        hsameBody⟩ := hc.relined_parenthesised hopening hclosing hafter
      obtain ⟨body', hbody', hbodyErase⟩ := hbody.relined hsameBody
      have hwhile := Statement.whileStmt (hword.of_lexeme hword') hopening' hc' hclosing' hbody'
      exact ⟨_, hwhile, by simp [eraseLines, hcErase, hbodyErase]⟩

theorem Block.relined {ts ts' : List Token} {body : List Node} :
    Block ts body → SameLexemes ts ts' →
      ∃ body', Block ts' body' ∧ eraseLinesList body' = eraseLinesList body
  | .braces hopening h hclosing, hsame => by
      obtain ⟨opening', after, rfl, hopening', hafter⟩ := hsame.cons_left
      obtain ⟨us', last, rfl, hus, hlast⟩ := hafter.append_left
      obtain ⟨closing', rfl, hclosing'⟩ := hlast.singleton_left
      obtain ⟨body', hbody', herase⟩ := h.relined hus
      exact ⟨body', .braces (hopening.of_lexeme hopening') hbody' (hclosing.of_lexeme hclosing'),
        herase⟩

theorem Statements.relined {ts ts' : List Token} {ss : List Node} :
    Statements ts ss → SameLexemes ts ts' →
      ∃ ss', Statements ts' ss' ∧ eraseLinesList ss' = eraseLinesList ss
  | .nil, hsame => by
      rw [hsame.eq_nil]
      exact ⟨[], .nil, rfl⟩
  | .cons hs hss, hsame => by
      obtain ⟨us', vs', rfl, hus, hvs⟩ := hsame.append_left
      obtain ⟨s', hs', hErase⟩ := hs.relined hus
      obtain ⟨ss', hss', hsErase⟩ := hss.relined hvs
      exact ⟨s' :: ss', .cons hs' hss', by simp [eraseLinesList, hErase, hsErase]⟩

end

end Grammar

end RillLang
