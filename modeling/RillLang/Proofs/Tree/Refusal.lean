import RillLang.Proofs.Tree.Soundness

/-!
# Where a reader refuses

A reader that refuses, unless it is cut short by the nesting limit, does so for a token
that it did not expect, and what it took before that token can be completed to a phrase.
It refuses at once only where no phrase begins.  In particular no repetition ever runs out
of rounds.

* `Begins` — the beginnings of the phrases of a kind.
* `Refuses` — what is said of one reader; `refuses_mark_bind`, `refuses_name_bind` and
  `Refuses.bind` follow the way readers are put together.
* `refusesAt` — all readers at once, by induction on the room.
* `program_refuses` — a whole program.
-/

namespace RillLang

namespace Grammar

open Reader (kindAt)

variable {α β : Type}

/-- The tokens can be completed to a phrase. -/
def Begins (phrase : List Token → α → Prop) (ts : List Token) : Prop :=
  ∃ more a, phrase (ts ++ more) a

theorem begins_self {phrase : List Token → α → Prop} {ts : List Token} {a : α}
    (h : phrase ts a) : Begins phrase ts :=
  ⟨[], a, by simpa using h⟩

theorem Begins.of_append {phrase : List Token → α → Prop} {ts us : List Token}
    (h : Begins phrase (ts ++ us)) : Begins phrase ts := by
  obtain ⟨more, a, ha⟩ := h
  exact ⟨us ++ more, a, by simpa using ha⟩

/-- The beginning of a part, after what stands before the part, begins the whole. -/
theorem Begins.part {phrase : List Token → α → Prop} {whole : List Token → β → Prop}
    {ts : List Token} (h : Begins phrase ts) (before after : List Token)
    (hwhole : ∀ us a, phrase us a → ∃ b, whole (before ++ us ++ after) b) :
    Begins whole (before ++ ts) := by
  obtain ⟨more, a, ha⟩ := h
  obtain ⟨b, hb⟩ := hwhole _ a ha
  exact ⟨more ++ after, b, by simpa using hb⟩

theorem Begins.imp {phrase : List Token → α → Prop} {whole : List Token → β → Prop}
    {ts : List Token} (h : Begins phrase ts)
    (hwhole : ∀ us a, phrase us a → ∃ b, whole us b) : Begins whole ts := by
  obtain ⟨more, a, ha⟩ := h
  exact ⟨more, hwhole _ a ha⟩

/-! ## Beginnings of expressions -/

theorem begins_primary : Begins Primary [] := ⟨[.number 0 0], _, .number 0 0⟩

/-- The tokens other than a minus sign that an expression begins with begin a primary
expression. -/
theorem OpensExpression.mem_of_ne_minus {k : Kind} (h : OpensExpression k)
    (hminus : k ≠ .mark .minus) : k ∈ [Kind.number, .identifier, .mark .leftParen] := by
  unfold OpensExpression at h
  split at h <;> first | contradiction | simp

theorem Operand.of_unary {ts : List Token} {e : Node} (h : Unary ts e) (t : Tier) :
    Operand t ts e := by
  have hfactor : Operand .factor ts e := .unary rfl h
  have hterm : Operand .term ts e := .tighter rfl (.operand hfactor)
  have hcomparison : Operand .comparison ts e := .tighter rfl (.operand hterm)
  cases t with
  | equality => exact .tighter rfl (.operand hcomparison)
  | comparison => exact hcomparison
  | term => exact hterm
  | factor => exact hfactor

theorem begins_unary : Begins Unary [] := begins_primary.imp fun _ e h => ⟨e, .primary h⟩

theorem begins_operand (t : Tier) : Begins (Operand t) [] :=
  begins_unary.imp fun _ e h => ⟨e, .of_unary h t⟩

theorem begins_expression : Begins Expression [] :=
  (begins_operand .equality).imp fun _ e h => ⟨e, .tiered (.operand h)⟩

/-- A token for a mark that is still to come. -/
theorem isMark_token (m : Mark) : IsMark m (.mark m 0) := rfl

theorem begins_parenthesised {opening : Token} {ts : List Token}
    (hopening : IsMark .leftParen opening) (h : Begins Expression ts) :
    Begins Parenthesised (opening :: ts) :=
  h.part [opening] [.mark .rightParen 0] fun us e he =>
    ⟨e, opening, us, _, by simp, hopening, he, isMark_token .rightParen⟩

theorem begins_parenthesised_nil : Begins Parenthesised [] :=
  Begins.of_append (begins_parenthesised (isMark_token .leftParen) begins_expression)

/-- An operand begun after an operator of its tier. -/
theorem Tiered.begins_joined {t : Tier} {before ts : List Token} {l : Node} {m : Mark}
    {op : BinaryOperator} {sign : Token} (hl : Tiered t before l) (hsign : IsMark m sign)
    (hop : t.operator? m = some op) (h : Begins (Operand t) ts) :
    Begins (Tiered t) (before ++ sign :: ts) := by
  have hjoined : Begins (Tiered t) (before ++ [sign] ++ ts) :=
    h.part (before ++ [sign]) [] fun _ _ hr => ⟨_, by simpa using Tiered.joined hl hsign hop hr⟩
  simpa using hjoined

/-! ## Beginnings of statements -/

theorem begins_block : Begins Block [] :=
  ⟨[.mark .leftBrace 0] ++ [.mark .rightBrace 0], [],
    .braces (isMark_token .leftBrace) .nil (isMark_token .rightBrace)⟩

theorem begins_braces {opening : Token} {ts : List Token} (hopening : IsMark .leftBrace opening)
    (h : Begins Statements ts) : Begins Block (opening :: ts) :=
  h.part [opening] [.mark .rightBrace 0] fun _ body hbody =>
    ⟨body, by simpa using Block.braces hopening hbody (isMark_token .rightBrace)⟩

theorem begins_letStmt {word sign : Token} {ts : List Token} (hword : IsMark .letWord word)
    (name : Option String) (line : Int) (hsign : IsMark .equal sign) (h : Begins Expression ts) :
    Begins Statement (word :: ⟨.identifier name, line⟩ :: sign :: ts) :=
  h.part [word, ⟨.identifier name, line⟩, sign] [.mark .semicolon 0] fun _ _ he =>
    ⟨_, by simpa using Statement.letStmt hword hsign he (isMark_token .semicolon)⟩

theorem begins_printStmt {word : Token} {ts : List Token} (hword : IsMark .printWord word)
    (h : Begins Parenthesised ts) : Begins Statement (word :: ts) := by
  refine h.part [word] [.mark .semicolon 0] ?_
  rintro us e ⟨opening, inner, closing, rfl, hopening, hinner, hclosing⟩
  have hprint := Statement.printStmt hword hopening hinner hclosing (isMark_token .semicolon)
  exact ⟨_, by simpa using hprint⟩

theorem begins_exprStmt {ts : List Token} (h : Begins Expression ts) : Begins Statement ts := by
  refine h.part [] [.mark .semicolon 0] fun us e he => ?_
  obtain ⟨t, rest, rfl, -⟩ := he.opens
  exact ⟨_, .exprStmt he (isMark_token .semicolon)⟩

theorem Block.exists_statement {ts : List Token} {body : List Node} (h : Block ts body) :
    ∃ s, Statement ts s := by
  obtain ⟨t, rest, rfl, -⟩ := h.opens
  exact ⟨_, .block h⟩

theorem begins_statement : Begins Statement [] := begins_exprStmt begins_expression

/-- The condition and the block that a conditional and a loop begin with. -/
theorem begins_condition {form : List Token → Node → Prop} {word : Token} {ts : List Token}
    (hform : ∀ {condition body : List Token} {c : Node} {ss : List Node},
      Parenthesised condition c → Block body ss → ∃ s, form (word :: condition ++ body) s)
    (h : Begins Parenthesised ts) : Begins form (word :: ts) := by
  obtain ⟨body, ss, hbody⟩ := begins_block
  exact h.part [word] body fun us c hc => by simpa using hform hc hbody

theorem exists_ifStmt {word : Token} (hword : IsMark .ifWord word) {condition body : List Token}
    {c : Node} {ss : List Node} (hc : Parenthesised condition c) (hbody : Block body ss) :
    ∃ s, Statement (word :: condition ++ body) s := by
  obtain ⟨opening, inner, closing, rfl, hopening, hinner, hclosing⟩ := hc
  exact ⟨_, by simpa using Statement.ifStmt hword hopening hinner hclosing hbody⟩

theorem exists_whileStmt {word : Token} (hword : IsMark .whileWord word)
    {condition body : List Token} {c : Node} {ss : List Node} (hc : Parenthesised condition c)
    (hbody : Block body ss) : ∃ s, Statement (word :: condition ++ body) s := by
  obtain ⟨opening, inner, closing, rfl, hopening, hinner, hclosing⟩ := hc
  exact ⟨_, by simpa using Statement.whileStmt hword hopening hinner hclosing hbody⟩

theorem begins_ifElse {word otherwise : Token} {condition body ts : List Token} {c : Node}
    {ss : List Node} (hword : IsMark .ifWord word) (hc : Parenthesised condition c)
    (hbody : Block body ss) (hotherwise : IsMark .elseWord otherwise) (h : Begins Block ts) :
    Begins Statement (word :: condition ++ body ++ otherwise :: ts) := by
  obtain ⟨opening, inner, closing, rfl, hopening, hinner, hclosing⟩ := hc
  have helse : Begins Statement
      (word :: (opening :: inner ++ [closing]) ++ body ++ [otherwise] ++ ts) := by
    refine h.part _ [] fun us es hes => ?_
    exact ⟨_, by simpa using
      Statement.ifElse hword hopening hinner hclosing hbody hotherwise hes⟩
  simpa using helse

end Grammar

/-- A token of some kind was expected, or an expression. -/
inductive Reject.IsUnexpected : Reject → Prop
  | kind (k : Kind) : IsUnexpected (.unexpected (.kind k))
  | expression : IsUnexpected (.unexpected (.phrase "expression"))

namespace Reader

open Grammar Ending

variable {α β : Type}

/-- A reader that refuses before the nesting limit does so for a token it did not expect,
after tokens of the given kind, and at once only where its phrases do not open. -/
def Refuses (rounds : Nat) (opens : Kind → Prop) (begins : List Token → Prop)
    (reader : Reader α) : Prop :=
  ∀ tokens reject rest, tokens.length ≤ rounds →
    reader tokens = .error reject rest → reject ≠ .tooDeep →
      reject.IsUnexpected ∧
        ∃ ts, tokens = ts ++ rest ∧ begins ts ∧ (ts = [] → ¬ opens (kindAt tokens))

/-- Nothing is said of where the phrases open. -/
def Anywhere : Kind → Prop := fun _ => False

theorem refuses_tooDeep (rounds : Nat) (opens : Kind → Prop) (begins : List Token → Prop) :
    Refuses rounds opens begins (refuse .tooDeep : Reader α) := by
  intro tokens reject rest _ h hdeep
  cases h
  exact absurd rfl hdeep

theorem refuses_pure (rounds : Nat) (opens : Kind → Prop) (begins : List Token → Prop) (a : α) :
    Refuses rounds opens begins (pure a : Reader α) := by
  intro tokens reject rest _ h _
  cases h

section Rules

variable {rounds : Nat} {opens opens' : Kind → Prop} {begins begins' : List Token → Prop}

theorem Refuses.imp {reader : Reader α} (h : Refuses rounds opens begins reader)
    (hopens : ∀ k, opens' k → opens k) (hbegins : ∀ ts, begins ts → begins' ts) :
    Refuses rounds opens' begins' reader := by
  intro tokens reject rest hlength herror hdeep
  obtain ⟨hreject, ts, htokens, hts, hopen⟩ := h _ _ _ hlength herror hdeep
  exact ⟨hreject, ts, htokens, hbegins ts hts, fun hnil hk => hopen hnil (hopens _ hk)⟩

/-- After the tokens `taken` the second part goes on with what the first part left. -/
theorem Refuses.after {reader : Reader α} (opens : Kind → Prop) (taken : List Token)
    {mid rest : List Token} {reject : Reject}
    (h : Refuses rounds Anywhere (fun us => begins (taken ++ us)) reader)
    (hpos : ∀ k, opens k → taken ≠ []) (hlength : (taken ++ mid).length ≤ rounds)
    (herror : reader mid = .error reject rest) (hdeep : reject ≠ .tooDeep) :
    reject.IsUnexpected ∧
      ∃ ts, taken ++ mid = ts ++ rest ∧ begins ts ∧
        (ts = [] → ¬ opens (kindAt (taken ++ mid))) := by
  rw [List.length_append] at hlength
  obtain ⟨hreject, us, rfl, hus, -⟩ := h _ _ _ (by omega) herror hdeep
  refine ⟨hreject, taken ++ us, by simp, hus, fun hnil hk => ?_⟩
  exact hpos _ hk (List.append_eq_nil_iff.1 hnil).1

theorem refuses_mark_bind {m : Mark} {f : Int → Reader α} (hopens : ∀ k, opens k → k = .mark m)
    (hbegins : begins [])
    (hf : ∀ t, IsMark m t → Refuses rounds Anywhere (fun us => begins (t :: us)) (f t.line)) :
    Refuses rounds opens begins (takeMark m >>= f) := by
  intro tokens reject rest hlength herror hdeep
  rcases bind_eq_error.1 herror with hmark | ⟨line, mid, hmark, hrest⟩
  · obtain ⟨rfl, rfl, hk⟩ := takeMark_eq_error.1 hmark
    exact ⟨.kind _, [], rfl, hbegins, fun _ hopen => hk (hopens _ hopen)⟩
  · obtain ⟨t, rfl, ht, rfl⟩ := takeMark_eq_ok.1 hmark
    exact (hf t ht).after opens [t] (fun _ _ => List.cons_ne_nil _ _) hlength hrest hdeep

theorem refuses_name_bind {f : String → Reader α} (hopens : ∀ k, opens k → k = .identifier)
    (hbegins : begins [])
    (hf : ∀ name line, Refuses rounds Anywhere
      (fun us => begins (⟨.identifier name, line⟩ :: us)) (f (identifierName name))) :
    Refuses rounds opens begins (takeName >>= f) := by
  intro tokens reject rest hlength herror hdeep
  rcases bind_eq_error.1 herror with hname | ⟨x, mid, hname, hrest⟩
  · obtain ⟨rfl, rfl, hk⟩ := takeName_eq_error.1 hname
    exact ⟨.kind _, [], rfl, hbegins, fun _ hopen => hk (hopens _ hopen)⟩
  · obtain ⟨name, line, rfl, rfl⟩ := takeName_eq_ok.1 hname
    exact (hf name line).after opens [⟨.identifier name, line⟩]
      (fun _ _ => List.cons_ne_nil _ _) hlength hrest hdeep

theorem refuses_nextLine_bind {f : Int → Reader α}
    (hf : ∀ line, Refuses rounds opens begins (f line)) :
    Refuses rounds opens begins (nextLine >>= f) := by
  intro tokens reject rest hlength herror hdeep
  obtain ⟨line, hline⟩ := exists_nextLine tokens
  rw [bind_of_ok hline] at herror
  exact hf line _ _ _ hlength herror hdeep

/-- A phrase, and what comes after it. -/
theorem Refuses.bind {x : Reader α} {f : α → Reader β} {phrase : List Token → α → Prop}
    (hx : Refuses rounds opens begins x) (htakes : Takes x phrase)
    (hpos : ∀ ts a, phrase ts a → ∀ k, opens k → ts ≠ [])
    (hf : ∀ ts a, phrase ts a → Refuses rounds Anywhere (fun us => begins (ts ++ us)) (f a)) :
    Refuses rounds opens begins (x >>= f) := by
  intro tokens reject rest hlength herror hdeep
  rcases bind_eq_error.1 herror with hfirst | ⟨a, mid, hfirst, hrest⟩
  · exact hx _ _ _ hlength hfirst hdeep
  · obtain ⟨ts, rfl, hts⟩ := htakes hfirst
    exact (hf ts a hts).after _ ts (hpos ts a hts) hlength hrest hdeep

/-- A phrase that is followed by a mark. -/
theorem Refuses.bind_mark {x : Reader α} {phrase : List Token → α → Prop}
    (hx : Refuses rounds opens begins x) (htakes : Takes x phrase)
    (hpos : ∀ ts a, phrase ts a → ∀ k, opens k → ts ≠ []) (m : Mark) (g : α → β)
    (hbegins : ∀ ts a, phrase ts a → begins ts) :
    Refuses rounds opens begins (x >>= fun a => takeMark m >>= fun _ => pure (g a)) := by
  refine hx.bind htakes hpos fun ts a hts => ?_
  exact refuses_mark_bind (fun _ => False.elim) (by simpa using hbegins ts a hts) fun _ _ =>
    refuses_pure _ _ _ _

theorem Refuses.bind_pure {x : Reader α} (hx : Refuses rounds opens begins x) (g : α → β) :
    Refuses rounds opens begins (x >>= fun a => pure (g a)) := by
  intro tokens reject rest hlength herror hdeep
  rcases bind_eq_error.1 herror with hfirst | ⟨a, mid, -, hrest⟩
  · exact hx _ _ _ hlength hfirst hdeep
  · cases hrest

end Rules

/-! ## The constructs, given their parts -/

section Constructs

variable {rounds : Nat} {opens : Kind → Prop} {expression : Reader Node}
  {body : Reader (List Node)}

section Expression

variable (hexpr : Refuses rounds opens (Begins Expression) expression)
  (htakes : Takes expression Expression)

include hexpr htakes

theorem refuses_parenthesised :
    Refuses rounds (· = .mark .leftParen) (Begins Parenthesised) (parenthesised expression) := by
  refine refuses_mark_bind (fun _ => id) begins_parenthesised_nil fun opening hopening => ?_
  have hinner : Refuses rounds Anywhere (fun us => Begins Parenthesised (opening :: us))
      expression :=
    hexpr.imp (fun _ => False.elim) fun ts hts => begins_parenthesised hopening hts
  exact hinner.bind_mark htakes (fun _ _ _ _ => False.elim) .rightParen id fun ts e he =>
    begins_parenthesised hopening (begins_self he)

theorem refuses_letStatement :
    Refuses rounds (· = .mark .letWord) (Begins Statement) (letStatement expression) := by
  have hnext {word : Token} (hword : IsMark .letWord word) (name : Option String) (line : Int) :
      Begins Statement [word, ⟨.identifier name, line⟩, .mark .equal 0] :=
    begins_letStmt hword name line (isMark_token .equal) begins_expression
  refine refuses_mark_bind (fun _ => id) begins_statement fun word hword => ?_
  refine refuses_name_bind (fun _ => False.elim) (Begins.of_append (hnext hword none 0))
    fun name line => ?_
  refine refuses_mark_bind (fun _ => False.elim) (Begins.of_append (hnext hword name line))
    fun sign hsign => ?_
  have hinit : Refuses rounds Anywhere
      (fun us => Begins Statement (word :: ⟨.identifier name, line⟩ :: sign :: us)) expression :=
    hexpr.imp (fun _ => False.elim) fun ts hts => begins_letStmt hword name line hsign hts
  exact hinit.bind_mark htakes (fun _ _ _ _ => False.elim) .semicolon _ fun ts e he =>
    begins_letStmt hword name line hsign (begins_self he)

theorem refuses_printStatement :
    Refuses rounds (· = .mark .printWord) (Begins Statement) (printStatement expression) := by
  refine refuses_mark_bind (fun _ => id) begins_statement fun word hword => ?_
  have hinner : Refuses rounds Anywhere (fun us => Begins Statement (word :: us))
      (parenthesised expression) :=
    (refuses_parenthesised hexpr htakes).imp (fun _ => False.elim) fun ts hts =>
      begins_printStmt hword hts
  exact hinner.bind_mark (takes_parenthesised htakes) (fun _ _ _ _ => False.elim) .semicolon _
    fun ts e he => begins_printStmt hword (begins_self he)

theorem refuses_expressionStatement :
    Refuses rounds opens (Begins Statement) (expressionStatement expression) := by
  refine refuses_nextLine_bind fun line => ?_
  have hfirst : Refuses rounds opens (Begins Statement) expression :=
    hexpr.imp (fun _ => id) fun ts hts => begins_exprStmt hts
  exact hfirst.bind_mark htakes (fun ts e he _ _ => he.opens.ne_nil) .semicolon _ fun ts e he =>
    begins_exprStmt (begins_self he)

end Expression

/-- An `else` block that is refused was begun by its word. -/
theorem refuses_elseBranch (hbody : Refuses rounds opens (Begins Block) body) :
    Refuses rounds Anywhere (fun us => ∃ otherwise after, us = otherwise :: after ∧
      IsMark .elseWord otherwise ∧ Begins Block after) (elseBranch body) := by
  intro tokens reject rest hlength herror hdeep
  rw [elseBranch_eq] at herror
  split at herror
  · rcases bind_eq_error.1 herror with hmark | ⟨line, mid, hmark, hrest⟩
    · exact absurd ‹_› (takeMark_eq_error.1 hmark).2.2
    · obtain ⟨otherwise, rfl, hotherwise, -⟩ := takeMark_eq_ok.1 hmark
      have hlength' : mid.length ≤ rounds := Nat.le_of_succ_le hlength
      obtain ⟨hreject, after, rfl, hafter, -⟩ := hbody.bind_pure some _ _ _ hlength' hrest hdeep
      exact ⟨hreject, otherwise :: after, rfl, ⟨otherwise, after, rfl, hotherwise, hafter⟩,
        fun _ => id⟩
  · cases herror

/-! ## The repetitions -/

/-- Items are refused where an item is; as each item takes a token, the rounds last. -/
theorem refuses_itemsOnto {stop : Kind → Bool} {item : Reader Node}
    (hitem : Refuses rounds opens (Begins Statement) item) (htakes : Takes item Statement)
    (hend : stop .endOfInput = true) (n : Nat) (hn : n ≤ rounds) :
    ∀ done, Refuses n Anywhere (Begins Statements) (itemsOnto stop item done n) := by
  induction n with
  | zero =>
      intro done tokens reject rest hlength herror _
      obtain rfl := eq_nil_of_length_le_zero hlength
      rw [itemsOnto, if_pos (show stop (kindAt []) = true from hend)] at herror
      cases herror
  | succ n ih =>
      intro done tokens reject rest hlength herror hdeep
      rw [itemsOnto] at herror
      split at herror
      · cases herror
      · split at herror
        · rename_i node mid hnode
          obtain ⟨ts, rfl, hts⟩ := htakes hnode
          have hpos := hts.opens.length_pos
          have hmid : mid.length ≤ n := by
            rw [List.length_append] at hlength
            omega
          obtain ⟨hreject, us, rfl, hus, -⟩ := ih (by omega) _ _ _ _ hmid herror hdeep
          refine ⟨hreject, ts ++ us, by simp, ?_, fun _ => id⟩
          exact hus.part ts [] fun vs ss hss => ⟨_, by simpa using Statements.cons hts hss⟩
        · rename_i reject' rest' hnode
          cases herror
          obtain ⟨hreject, ts, rfl, hts, -⟩ := hitem _ _ _ (by omega) hnode hdeep
          refine ⟨hreject, ts, rfl, ?_, fun _ => id⟩
          exact hts.imp fun us s hs => ⟨[s], by simpa using Statements.cons hs .nil⟩

theorem refuses_chainOnto {t : Tier} {operand : Reader Node}
    (hoperand : Refuses rounds opens (Begins (Operand t)) operand)
    (htakes : Takes operand (Operand t)) (n : Nat) (hn : n ≤ rounds) :
    ∀ {before left}, Tiered t before left →
      Refuses n Anywhere (fun us => Begins (Tiered t) (before ++ us))
        (chainOnto t.operator? operand left n) := by
  induction n with
  | zero =>
      intro before left _ tokens reject rest hlength herror _
      obtain rfl := eq_nil_of_length_le_zero hlength
      rw [chainOnto] at herror
      cases herror
  | succ n ih =>
      intro before left hleft tokens reject rest hlength herror hdeep
      rw [chainOnto] at herror
      split at herror
      · cases herror
      · rename_i op line after hop
        obtain ⟨m, sign, rfl, hsign, hm, rfl⟩ := operatorAt_eq_some hop
        have hafter : after.length ≤ n := Nat.le_of_succ_le_succ hlength
        dsimp only at herror
        split at herror
        · rename_i right mid hright
          obtain ⟨ts, rfl, hts⟩ := htakes hright
          have hmid : mid.length ≤ n := by
            rw [List.length_append] at hafter
            omega
          obtain ⟨hreject, us, rfl, hus, -⟩ :=
            ih (by omega) (.joined hleft hsign hm hts) _ _ _ hmid herror hdeep
          exact ⟨hreject, sign :: ts ++ us, by simp, by simpa using hus, fun _ => id⟩
        · rename_i reject' rest' hright
          cases herror
          obtain ⟨hreject, ts, rfl, hts, -⟩ := hoperand _ _ _ (by omega) hright hdeep
          exact ⟨hreject, sign :: ts, rfl, hleft.begins_joined hsign hm hts, fun _ => id⟩

theorem refuses_chain {t : Tier} {operand : Reader Node}
    (hoperand : Refuses rounds opens (Begins (Operand t)) operand)
    (htakes : Takes operand (Operand t)) :
    Refuses rounds opens (Begins (Tiered t)) (chain rounds t.operator? operand) := by
  have hfirst : Refuses rounds opens (Begins (Tiered t)) operand :=
    hoperand.imp (fun _ => id) fun ts hts => hts.imp fun us e he => ⟨e, .operand he⟩
  exact hfirst.bind htakes (fun ts e he _ _ => he.opens.ne_nil) fun ts e he =>
    refuses_chainOnto hoperand htakes rounds (Nat.le_refl _) (.operand he)

end Constructs

/-! ## All readers at once -/

/-- With this much room every reader refuses only where no phrase of its kind goes on. -/
structure RefusesAt (rounds room : Nat) : Prop where
  statement : Refuses rounds OpensStatement (Begins Statement) (statement rounds room)
  conditional : Refuses rounds (· = .mark .ifWord) (Begins Statement) (conditional rounds room)
  loop : Refuses rounds (· = .mark .whileWord) (Begins Statement) (loop rounds room)
  block : Refuses rounds (· = .mark .leftBrace) (Begins Block) (block rounds room)
  expression : Refuses rounds OpensExpression (Begins Expression) (expression rounds room)
  assignment : Refuses rounds OpensExpression (Begins Assignment) (assignment rounds room)
  tier (t : Tier) : Refuses rounds OpensExpression (Begins (Tiered t)) (tier rounds room t)
  operand (t : Tier) : Refuses rounds OpensExpression (Begins (Operand t)) (operand rounds room t)
  unary : Refuses rounds OpensExpression (Begins Unary) (unary rounds room)
  primary : Refuses rounds (fun k => OpensExpression k ∧ k ≠ .mark .minus) (Begins Primary)
    (primary rounds room)

theorem refusesAt_zero (rounds : Nat) : RefusesAt rounds 0 where
  statement := by rw [Reader.statement]; exact refuses_tooDeep _ _ _
  conditional := by rw [Reader.conditional]; exact refuses_tooDeep _ _ _
  loop := by rw [Reader.loop]; exact refuses_tooDeep _ _ _
  block := by rw [Reader.block]; exact refuses_tooDeep _ _ _
  expression := by rw [Reader.expression]; exact refuses_tooDeep _ _ _
  assignment := by rw [Reader.assignment]; exact refuses_tooDeep _ _ _
  tier t := by rw [Reader.tier]; exact refuses_tooDeep _ _ _
  operand t := by rw [Reader.operand]; exact refuses_tooDeep _ _ _
  unary := by rw [Reader.unary]; exact refuses_tooDeep _ _ _
  primary := by rw [Reader.primary]; exact refuses_tooDeep _ _ _

section Step

variable {rounds room : Nat} (ih : RefusesAt rounds room)

include ih

/-- A condition that is refused in a statement begun by `word`. -/
theorem refuses_condition {word : Token}
    (hform : ∀ {condition body : List Token} {c : Node} {ss : List Node},
      Parenthesised condition c → Block body ss → ∃ s, Statement (word :: condition ++ body) s) :
    Refuses rounds Anywhere (fun us => Begins Statement (word :: us))
      (parenthesised (expression rounds room)) :=
  (refuses_parenthesised ih.expression (soundAt rounds room).expression).imp
    (fun _ => False.elim) fun _ hts => begins_condition hform hts

/-- A block that is refused after a condition. -/
theorem refuses_body {word : Token}
    (hform : ∀ {condition body : List Token} {c : Node} {ss : List Node},
      Parenthesised condition c → Block body ss → ∃ s, Statement (word :: condition ++ body) s)
    {condition : List Token} {c : Node} (hc : Parenthesised condition c) :
    Refuses rounds Anywhere (fun us => Begins Statement (word :: (condition ++ us)))
      (block rounds room) := by
  refine ih.block.imp (fun _ => False.elim) fun ts hts => ?_
  exact hts.part (word :: condition) [] fun body ss hbody => by simpa using hform hc hbody

theorem refuses_conditional :
    Refuses rounds (· = .mark .ifWord) (Begins Statement) (conditional rounds (room + 1)) := by
  rw [conditional]
  have htakes : Takes (parenthesised (expression rounds room)) Parenthesised :=
    takes_parenthesised (soundAt rounds room).expression
  refine refuses_mark_bind (fun _ => id) begins_statement fun word hword => ?_
  refine (refuses_condition ih (exists_ifStmt hword)).bind htakes (fun _ _ _ _ => False.elim)
    fun condition c hc => ?_
  refine (refuses_body ih (exists_ifStmt hword) hc).bind (soundAt rounds room).block
    (fun _ _ _ _ => False.elim) fun body ss hbody => ?_
  refine Refuses.bind_pure ((refuses_elseBranch ih.block).imp (fun _ => id) ?_) _
  rintro us ⟨otherwise, after, rfl, hotherwise, hafter⟩
  simpa using begins_ifElse hword hc hbody hotherwise hafter

theorem refuses_loop :
    Refuses rounds (· = .mark .whileWord) (Begins Statement) (loop rounds (room + 1)) := by
  rw [loop]
  have htakes : Takes (parenthesised (expression rounds room)) Parenthesised :=
    takes_parenthesised (soundAt rounds room).expression
  refine refuses_mark_bind (fun _ => id) begins_statement fun word hword => ?_
  refine (refuses_condition ih (exists_whileStmt hword)).bind htakes (fun _ _ _ _ => False.elim)
    fun condition c hc => ?_
  exact (refuses_body ih (exists_whileStmt hword) hc).bind_pure _

theorem refuses_block :
    Refuses rounds (· = .mark .leftBrace) (Begins Block) (block rounds (room + 1)) := by
  rw [block]
  have htakes : Takes (items rounds closesBlock (statement rounds room)) Statements := by
    intro tokens nodes rest h
    obtain ⟨ts, rfl, hts, -⟩ := items_sound (soundAt rounds room).statement h
    exact ⟨ts, rfl, hts⟩
  refine refuses_mark_bind (fun _ => id) begins_block fun opening hopening => ?_
  have hitems : Refuses rounds Anywhere (fun us => Begins Block (opening :: us))
      (items rounds closesBlock (statement rounds room)) :=
    (refuses_itemsOnto ih.statement (soundAt rounds room).statement rfl rounds (Nat.le_refl _)
      []).imp (fun _ => id) fun ts hts => begins_braces hopening hts
  exact hitems.bind_mark htakes (fun _ _ _ _ => False.elim) .rightBrace id fun ts ss hss =>
    begins_braces hopening (begins_self hss)

/-- The form of a statement is chosen by its first token, so that a form that is refused
at once was not chosen by a token that opens it. -/
theorem refuses_statement :
    Refuses rounds OpensStatement (Begins Statement) (statement rounds (room + 1)) := by
  intro tokens reject rest hlength herror hdeep
  have htakes : Takes (expression rounds room) Expression := (soundAt rounds room).expression
  have chosen {m : Mark} {form : Reader Node} (hk : kindAt tokens = .mark m)
      (hform : Refuses rounds (· = .mark m) (Begins Statement) form)
      (hrefuse : form tokens = .error reject rest) :
      reject.IsUnexpected ∧ ∃ ts, tokens = ts ++ rest ∧
        Begins Statement ts ∧ (ts = [] → ¬ OpensStatement (kindAt tokens)) := by
    obtain ⟨hreject, ts, htokens, hts, hopen⟩ := hform _ _ _ hlength hrefuse hdeep
    exact ⟨hreject, ts, htokens, hts, fun hnil => absurd hk (hopen hnil)⟩
  rw [statement_eq] at herror
  split at herror
  · exact chosen ‹_› (refuses_letStatement ih.expression htakes) herror
  · exact chosen ‹_› (refuses_printStatement ih.expression htakes) herror
  · exact chosen ‹_› ih.conditional herror
  · exact chosen ‹_› ih.loop herror
  · refine chosen ‹_› (refuses_nextLine_bind fun line => ?_) herror
    refine Refuses.bind_pure (ih.block.imp (fun _ => id) fun ts hts => ?_) _
    exact hts.imp fun us ss hss => hss.exists_statement
  · rename_i hlet hprint hif hwhile hbrace
    obtain ⟨hreject, ts, htokens, hts, hopen⟩ :=
      refuses_expressionStatement ih.expression htakes _ _ _ hlength herror hdeep
    refine ⟨hreject, ts, htokens, hts, fun hnil hk => hopen hnil ?_⟩
    unfold OpensStatement at hk
    split at hk <;> first | contradiction | exact hk

theorem refuses_assignment :
    Refuses rounds OpensExpression (Begins Assignment) (assignment rounds (room + 1)) := by
  intro tokens reject rest hlength herror hdeep
  rcases assignment_cases tokens with ⟨name, line, sign, after, rfl, hsign, heq⟩ | ⟨-, heq⟩
  · rw [heq] at herror
    have hvalue : Refuses rounds Anywhere
        (fun us => Begins Assignment ([⟨.identifier name, line⟩, sign] ++ us))
        (assignment rounds room) :=
      ih.assignment.imp (fun _ => False.elim) fun ts hts =>
        hts.part [⟨.identifier name, line⟩, sign] [] fun us e he =>
          ⟨_, by simpa using Assignment.assign hsign he⟩
    exact (hvalue.bind_pure _).after OpensExpression [⟨.identifier name, line⟩, sign]
      (fun _ _ => List.cons_ne_nil _ _) hlength herror hdeep
  · rw [heq] at herror
    have htier : Refuses rounds OpensExpression (Begins Assignment) (tier rounds room .equality) :=
      (ih.tier .equality).imp (fun _ => id) fun ts hts => hts.imp fun us e he => ⟨e, .tiered he⟩
    exact htier _ _ _ hlength herror hdeep

theorem refuses_operand (t : Tier) :
    Refuses rounds OpensExpression (Begins (Operand t)) (operand rounds (room + 1) t) := by
  rw [operand]
  cases htighter : t.tighter with
  | some tighter =>
      exact (ih.tier tighter).imp (fun _ => id) fun ts hts =>
        hts.imp fun us e he => ⟨e, .tighter htighter he⟩
  | none =>
      exact ih.unary.imp (fun _ => id) fun ts hts =>
        hts.imp fun us e he => ⟨e, .unary htighter he⟩

theorem refuses_unary :
    Refuses rounds OpensExpression (Begins Unary) (unary rounds (room + 1)) := by
  intro tokens reject rest hlength herror hdeep
  rcases unary_cases tokens with ⟨sign, after, rfl, hsign, heq⟩ | ⟨hminus, heq⟩
  · rw [heq] at herror
    have hinner : Refuses rounds Anywhere (fun us => Begins Unary ([sign] ++ us))
        (unary rounds room) :=
      ih.unary.imp (fun _ => False.elim) fun ts hts =>
        hts.part [sign] [] fun us e he => ⟨_, by simpa using Unary.negate hsign he⟩
    exact (hinner.bind_pure _).after OpensExpression [sign] (fun _ _ => List.cons_ne_nil _ _)
      hlength herror hdeep
  · rw [heq] at herror
    obtain ⟨hreject, ts, htokens, hts, hopen⟩ := ih.primary _ _ _ hlength herror hdeep
    exact ⟨hreject, ts, htokens, hts.imp fun us e he => ⟨e, .primary he⟩,
      fun hnil hk => hopen hnil ⟨hk, hminus⟩⟩

theorem refuses_primary :
    Refuses rounds (fun k => OpensExpression k ∧ k ≠ .mark .minus) (Begins Primary)
      (primary rounds (room + 1)) := by
  intro tokens reject rest hlength herror hdeep
  rcases primary_cases tokens with ⟨value, line, after, -, heq⟩ | ⟨name, line, after, -, heq⟩ |
    ⟨hparen, heq⟩ | ⟨hother, heq⟩
  · rw [heq] at herror
    cases herror
  · rw [heq] at herror
    cases herror
  · rw [heq] at herror
    obtain ⟨hreject, ts, htokens, hts, hopen⟩ :=
      refuses_parenthesised ih.expression (soundAt rounds room).expression _ _ _ hlength herror
        hdeep
    refine ⟨hreject, ts, htokens, hts.imp ?_, fun hnil => absurd hparen (hopen hnil)⟩
    rintro us e ⟨opening, inner, closing, rfl, hopening, hinner, hclosing⟩
    exact ⟨e, .parenthesised hopening hinner hclosing⟩
  · rw [heq] at herror
    cases herror
    exact ⟨.expression, [], rfl, begins_primary, fun _ hk => hother (hk.1.mem_of_ne_minus hk.2)⟩

theorem refusesAt_succ : RefusesAt rounds (room + 1) where
  statement := refuses_statement ih
  conditional := refuses_conditional ih
  loop := refuses_loop ih
  block := refuses_block ih
  expression := by rw [Reader.expression]; exact ih.assignment
  assignment := refuses_assignment ih
  tier t := by
    rw [Reader.tier]
    exact refuses_chain (ih.operand t) ((soundAt rounds room).operand t)
  operand := refuses_operand ih
  unary := refuses_unary ih
  primary := refuses_primary ih

end Step

/-- However much room there is, every reader refuses only where no phrase of its kind
goes on. -/
theorem refusesAt (rounds room : Nat) : RefusesAt rounds room := by
  induction room with
  | zero => exact refusesAt_zero rounds
  | succ room ih => exact refusesAt_succ ih

/-- A program that is refused, and not for its depth, is refused for a token of some kind or
for an expression that was expected, after the beginning of a program. -/
theorem program_isUnexpected {limit : Nat} {tokens rest : List Token} {reject : Reject}
    (h : program tokens.length limit tokens = .error reject rest) (hdeep : reject ≠ .tooDeep) :
    reject.IsUnexpected ∧ ∃ ts, tokens = ts ++ rest ∧ Begins Derives ts := by
  have hend : closesProgram .endOfInput = true := rfl
  have hitems := refuses_itemsOnto (refusesAt tokens.length limit).statement
    (soundAt tokens.length limit).statement hend tokens.length (Nat.le_refl _) []
  obtain ⟨hreject, ts, htokens, hts, -⟩ :=
    hitems.bind_pure Program.mk _ _ _ (Nat.le_refl _) h hdeep
  exact ⟨hreject, ts, htokens, hts.imp fun us ss hss => ⟨⟨ss⟩, hss⟩⟩

theorem program_refuses {limit : Nat} {tokens rest : List Token} {reject : Reject}
    (h : program tokens.length limit tokens = .error reject rest) (hdeep : reject ≠ .tooDeep) :
    (∃ expected, reject = .unexpected expected) ∧
      ∃ ts, tokens = ts ++ rest ∧ Begins Derives ts := by
  obtain ⟨hreject, hbegins⟩ := program_isUnexpected h hdeep
  refine ⟨?_, hbegins⟩
  cases hreject with
  | kind k => exact ⟨_, rfl⟩
  | expression => exact ⟨_, rfl⟩

end Reader

end RillLang
