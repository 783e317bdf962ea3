import RillLang.Proofs.Tree.Forms
import RillLang.Proofs.Tree.Lines
import RillLang.Proofs.Tree.Soundness

/-!
# Two readings of tokens of the same kinds

A reader sees the kinds of the tokens, not their lines or what they carry, and it looks no
further than the token where it stops.  `Mimics` says so of two readers: the second does
what the first one does on all tokens of the same kinds, whatever comes after the place
where the first one stopped, as long as it is near to what came there.

* `mimics_takeOne` — readers of one token.
* `Mimics.bind`, `mimics_of_choice` — readers put together.
* `mimics_itemsOnto`, `mimics_chain` — the repetitions, each with rounds of its own.
-/

namespace RillLang

/-! ## Tokens of the same kinds -/

namespace Token.SameBy

open Reader (kindAt)

theorem kindAt_eq {ts ts' : List Token} (h : SameKinds ts ts') : kindAt ts = kindAt ts' := by
  cases ts with
  | nil => rw [h.eq_nil]
  | cons t us =>
      obtain ⟨t', us', rfl, hk, -⟩ := h.cons_left
      exact hk.symm

theorem kindAt_append {ts ts' rest rest' : List Token} (h : SameKinds ts ts') (hpos : ts ≠ []) :
    kindAt (ts ++ rest) = kindAt (ts' ++ rest') := by
  cases ts with
  | nil => exact absurd rfl hpos
  | cons t us =>
      obtain ⟨t', us', rfl, hk, -⟩ := h.cons_left
      exact hk.symm

/-- What holds between a kind and itself, and between the kinds after the tokens, holds
between the kinds that the tokens begin with. -/
theorem near_append {near : Kind → Kind → Prop} (hrefl : ∀ k, near k k)
    {ts ts' rest rest' : List Token} (h : SameKinds ts ts')
    (hnear : near (kindAt rest) (kindAt rest')) :
    near (kindAt (ts ++ rest)) (kindAt (ts' ++ rest')) := by
  by_cases hpos : ts = []
  · subst hpos
    rw [h.eq_nil]
    exact hnear
  · have hk : kindAt (ts ++ rest) = kindAt (ts' ++ rest') := h.kindAt_append hpos
    rw [hk]
    exact hrefl _

end Token.SameBy

namespace Reader

open Grammar Ending
open Token (SameKinds)

variable {α β : Type}

/-! ## Two readings that stop at the same place -/

/-- Two rests agree as far as a reader saw them that refused there: in their first kind,
or throughout when the nesting limit cut the reader short. -/
def Meets (reject : Reject) (rest rest' : List Token) : Prop :=
  kindAt rest = kindAt rest' ∧ (reject = .tooDeep → SameKinds rest rest')

/-- The second reader does what the first one does, on all tokens of the kinds that the
first one took.  After them may come any token that is near to the one that came after
them for the first reader, or that meets the one it refused. -/
structure Mimics (rounds rounds' : Nat) (near : Kind → Kind → Prop) (r r' : Reader α) :
    Prop where
  /-- The first reader takes tokens from the front. -/
  leaves (tokens : List Token) : Leaves r tokens (· <:+ tokens)
  ok {ts rest ts' rest' : List Token} {a : α} : (ts ++ rest).length ≤ rounds →
    r (ts ++ rest) = .ok a rest → SameKinds ts ts' → near (kindAt rest) (kindAt rest') →
    (ts' ++ rest').length ≤ rounds' → ∃ a', r' (ts' ++ rest') = .ok a' rest'
  error {ts rest ts' rest' : List Token} {reject : Reject} : (ts ++ rest).length ≤ rounds →
    r (ts ++ rest) = .error reject rest → SameKinds ts ts' → Meets reject rest rest' →
    (ts' ++ rest').length ≤ rounds' → r' (ts' ++ rest') = .error reject rest'

/-- Any token may come after what was taken. -/
def Any : Kind → Kind → Prop := fun _ _ => True

/-- An `else` may come only where one came. -/
def ElseAlike (k k' : Kind) : Prop := k = .mark .elseWord ↔ k' = .mark .elseWord

section Rules

variable {rounds rounds' : Nat} {near near' : Kind → Kind → Prop}

theorem Mimics.imp {r r' : Reader α} (h : Mimics rounds rounds' near r r')
    (hnear : ∀ k k', near' k k' → near k k') : Mimics rounds rounds' near' r r' where
  leaves := h.leaves
  ok hlength hr hkinds hrest := h.ok hlength hr hkinds (hnear _ _ hrest)
  error := h.error

theorem Mimics.of_any {r r' : Reader α} (h : Mimics rounds rounds' Any r r') :
    Mimics rounds rounds' near r r' :=
  h.imp fun _ _ _ => trivial

theorem Mimics.mono {m n : Nat} {r r' : Reader α} (h : Mimics rounds rounds' near r r')
    (hm : m ≤ rounds) (hn : n ≤ rounds') : Mimics m n near r r' where
  leaves := h.leaves
  ok hlength hr hkinds hrest hlength' :=
    h.ok (Nat.le_trans hlength hm) hr hkinds hrest (Nat.le_trans hlength' hn)
  error hlength hr hkinds hmeets hlength' :=
    h.error (Nat.le_trans hlength hm) hr hkinds hmeets (Nat.le_trans hlength' hn)

/-! ## Readers that take nothing, or one token -/

theorem mimics_pure (a a' : α) : Mimics rounds rounds' near (pure a) (pure a') where
  leaves tokens := List.suffix_refl tokens
  ok _ hr hkinds _ _ := by
    obtain rfl := List.append_left_eq_self.1 (pure_eq_ok.1 hr).2
    exact ⟨a', by rw [hkinds.eq_nil]; rfl⟩
  error _ hr := by cases hr

theorem mimics_tooDeep :
    Mimics rounds rounds' near (refuse .tooDeep : Reader α) (refuse .tooDeep) where
  leaves tokens := List.suffix_refl tokens
  ok _ hr := by cases hr
  error _ hr hkinds _ _ := by
    rw [refuse, EStateM.Result.error.injEq] at hr
    obtain ⟨rfl, hnil⟩ := hr
    obtain rfl := List.append_left_eq_self.1 hnil
    rw [hkinds.eq_nil]
    rfl

section TakeOne

variable {r : Reader α} (accepts : Kind → Prop) {reject : Reject}
  (hend : ¬ accepts .endOfInput)
  (hok : ∀ t rest, accepts t.kind → ∃ a, r (t :: rest) = .ok a rest)
  (herror : ∀ tokens, ¬ accepts (kindAt tokens) → r tokens = .error reject tokens)

include hend hok herror

/-- A reader of one token takes the token if its kind is accepted, and else nothing. -/
theorem takeOne_cases (tokens : List Token) :
    (∃ t rest a, tokens = t :: rest ∧ accepts t.kind ∧ r tokens = .ok a rest) ∨
      (¬ accepts (kindAt tokens) ∧ r tokens = .error reject tokens) := by
  by_cases hk : accepts (kindAt tokens)
  · cases tokens with
    | nil => exact absurd hk hend
    | cons t rest =>
        obtain ⟨a, ha⟩ := hok t rest hk
        exact .inl ⟨t, rest, a, rfl, hk, ha⟩
  · exact .inr ⟨hk, herror tokens hk⟩

theorem leaves_takeOne (tokens : List Token) : Leaves r tokens (· <:+ tokens) := by
  rcases takeOne_cases accepts hend hok herror tokens with ⟨t, after, a, rfl, -, heq⟩ | ⟨-, heq⟩
  · refine leaves_of (fun b rest hr => ?_) (fun _ rest hr => ?_) <;> rw [heq] at hr <;> cases hr
    exact List.suffix_cons t after
  · refine leaves_of (fun b rest hr => ?_) (fun _ rest hr => ?_) <;> rw [heq] at hr <;> cases hr
    exact List.suffix_refl tokens

theorem mimics_takeOne : Mimics rounds rounds' near r r where
  leaves := leaves_takeOne accepts hend hok herror
  ok {ts rest ts' rest' a} _ hr hkinds _ _ := by
    rcases takeOne_cases accepts hend hok herror (ts ++ rest) with
      ⟨t, after, b, htokens, ht, heq⟩ | ⟨-, heq⟩
    · rw [heq, EStateM.Result.ok.injEq] at hr
      obtain ⟨-, rfl⟩ := hr
      obtain rfl : ts = [t] := List.append_cancel_right htokens
      obtain ⟨t', us', rfl, hk, hus'⟩ := hkinds.cons_left
      rw [hus'.eq_nil]
      exact hok t' rest' (by rwa [hk])
    · rw [heq] at hr
      cases hr
  error {ts rest ts' rest' reject'} _ hr hkinds hmeets _ := by
    rcases takeOne_cases accepts hend hok herror (ts ++ rest) with
      ⟨t, after, b, -, -, heq⟩ | ⟨hk, heq⟩
    · rw [heq] at hr
      cases hr
    · rw [heq, EStateM.Result.error.injEq] at hr
      obtain ⟨rfl, hnil⟩ := hr
      obtain rfl := List.append_left_eq_self.1 hnil
      rw [hkinds.eq_nil]
      exact herror rest' (by rwa [← hmeets.1])

end TakeOne

theorem leaves_takeMark (m : Mark) (tokens : List Token) :
    Leaves (takeMark m) tokens (· <:+ tokens) :=
  leaves_takeOne (· = .mark m) nofun (fun _ rest ht => ⟨_, takeMark_cons ht rest⟩)
    (fun _ hk => takeMark_eq_error.2 ⟨rfl, rfl, hk⟩) tokens

theorem mimics_takeMark (m : Mark) : Mimics rounds rounds' near (takeMark m) (takeMark m) :=
  mimics_takeOne (· = .mark m) nofun (fun _ rest ht => ⟨_, takeMark_cons ht rest⟩)
    (fun _ hk => takeMark_eq_error.2 ⟨rfl, rfl, hk⟩)

theorem mimics_takeName : Mimics rounds rounds' near takeName takeName := by
  refine mimics_takeOne (· = .identifier) nofun (fun t rest ht => ?_)
    (fun _ hk => takeName_eq_error.2 ⟨rfl, rfl, hk⟩)
  obtain ⟨name, line, rfl⟩ := exists_identifier ht
  exact ⟨_, rfl⟩

theorem mimics_nextLine : Mimics rounds rounds' near nextLine nextLine where
  leaves tokens := by
    obtain ⟨line, hline⟩ := exists_nextLine tokens
    refine leaves_of (fun x rest hr => ?_) (fun reject rest hr => ?_) <;>
      rw [hline] at hr <;> cases hr
    exact List.suffix_refl _
  ok {ts rest ts' rest' x} _ hr hkinds _ _ := by
    obtain ⟨line, hline⟩ := exists_nextLine (ts ++ rest)
    rw [hline, EStateM.Result.ok.injEq] at hr
    obtain rfl := List.append_left_eq_self.1 hr.2
    rw [hkinds.eq_nil]
    exact exists_nextLine rest'
  error {ts rest ts' rest' reject} _ hr := by
    obtain ⟨line, hline⟩ := exists_nextLine (ts ++ rest)
    rw [hline] at hr
    cases hr

/-! ## Readers put together -/

/-- Two parts after one another.  Where the first part takes at least `taken` tokens, the
second may do with as many rounds fewer. -/
theorem Mimics.bind_taking {taken : Nat} {x x' : Reader α} {f f' : α → Reader β}
    (hx : Mimics (rounds + taken) (rounds' + taken) near x x')
    (hf : ∀ a a', Mimics rounds rounds' near (f a) (f' a')) (hrefl : ∀ k, near k k)
    (htakes : ∀ {ts rest a}, x (ts ++ rest) = .ok a rest → taken ≤ ts.length) :
    Mimics (rounds + taken) (rounds' + taken) near (x >>= f) (x' >>= f') where
  leaves tokens := by
    refine ends_bind.2 ((hx.leaves tokens).ends (fun a mid hmid => ?_) fun _ _ => id)
    exact ((hf a a).leaves mid).imp fun rest hrest => hrest.trans hmid
  ok {ts rest ts' rest' b} hlength hr hkinds hnear hlength' := by
    obtain ⟨a, mid, hfirst, hsecond⟩ := bind_eq_ok.1 hr
    obtain ⟨us, hus⟩ := (hx.leaves _).of_ok hfirst
    obtain ⟨vs, rfl⟩ := ((hf a a).leaves _).of_ok hsecond
    obtain rfl : us ++ vs = ts := List.append_cancel_right (by rw [List.append_assoc, hus])
    obtain ⟨us', vs', rfl, hkus, hkvs⟩ := hkinds.append_left
    rw [List.append_assoc] at hlength hlength' hfirst ⊢
    obtain ⟨a', hfirst'⟩ := hx.ok hlength hfirst hkus (hkvs.near_append hrefl hnear) hlength'
    have hpos := htakes hfirst
    rw [List.length_append] at hlength hlength'
    obtain ⟨b', hsecond'⟩ := (hf a a').ok (by omega) hsecond hkvs hnear
      (by rw [hkus.length_eq] at hlength'; omega)
    exact ⟨b', bind_eq_ok.2 ⟨a', _, hfirst', hsecond'⟩⟩
  error {ts rest ts' rest' reject} hlength hr hkinds hmeets hlength' := by
    rcases bind_eq_error.1 hr with hfirst | ⟨a, mid, hfirst, hsecond⟩
    · exact bind_of_error (hx.error hlength hfirst hkinds hmeets hlength')
    · obtain ⟨us, hus⟩ := (hx.leaves _).of_ok hfirst
      obtain ⟨vs, rfl⟩ := ((hf a a).leaves _).of_error hsecond
      obtain rfl : us ++ vs = ts := List.append_cancel_right (by rw [List.append_assoc, hus])
      obtain ⟨us', vs', rfl, hkus, hkvs⟩ := hkinds.append_left
      rw [List.append_assoc] at hlength hlength' hfirst ⊢
      have hnear : near (kindAt (vs ++ rest)) (kindAt (vs' ++ rest')) :=
        hkvs.near_append hrefl (by rw [hmeets.1]; exact hrefl _)
      obtain ⟨a', hfirst'⟩ := hx.ok hlength hfirst hkus hnear hlength'
      have hpos := htakes hfirst
      rw [List.length_append] at hlength hlength'
      have hsecond' := (hf a a').error (by omega) hsecond hkvs hmeets
        (by rw [hkus.length_eq] at hlength'; omega)
      rw [bind_of_ok hfirst', hsecond']

theorem Mimics.bind {x x' : Reader α} {f f' : α → Reader β} (hx : Mimics rounds rounds' near x x')
    (hf : ∀ a a', Mimics rounds rounds' near (f a) (f' a')) (hrefl : ∀ k, near k k) :
    Mimics rounds rounds' near (x >>= f) (x' >>= f') := by
  have hx' : Mimics (rounds + 0) (rounds' + 0) near x x' := hx
  exact hx'.bind_taking hf hrefl fun _ => Nat.zero_le _

/-- After a mark that ends a phrase any token may come. -/
theorem Mimics.bind_mark {x x' : Reader α} (hx : Mimics rounds rounds' Eq x x') (m : Mark)
    (g g' : α → β) :
    Mimics rounds rounds' near (x >>= fun a => takeMark m >>= fun _ => pure (g a))
      (x' >>= fun a => takeMark m >>= fun _ => pure (g' a)) := by
  have hmark (a a' : α) : Mimics rounds rounds' Eq (takeMark m >>= fun _ => pure (g a))
      (takeMark m >>= fun _ => pure (g' a')) :=
    (mimics_takeMark m).bind (fun _ _ => mimics_pure _ _) Eq.refl
  have hseq := hx.bind hmark Eq.refl
  refine ⟨hseq.leaves, fun {ts rest ts' rest' b} hlength hr hkinds _ hlength' => ?_, hseq.error⟩
  simp only [bind_eq_ok, takeMark_eq_ok, pure_eq_ok] at hr
  obtain ⟨a, _, hfirst, _, after, ⟨t, rfl, ht, -⟩, -, rfl⟩ := hr
  obtain ⟨us, hus⟩ := (hx.leaves _).of_ok hfirst
  obtain rfl : us ++ [t] = ts := List.append_cancel_right (by simpa using hus)
  obtain ⟨us', vs', rfl, hkus, hkvs⟩ := hkinds.append_left
  obtain ⟨t', ws', rfl, hk, hnil⟩ := hkvs.cons_left
  obtain rfl := hnil.eq_nil
  simp only [List.append_assoc, List.singleton_append] at hfirst hlength hlength' ⊢
  have hnear : kindAt (t :: after) = kindAt (t' :: rest') := hk.symm
  obtain ⟨a', hfirst'⟩ := hx.ok hlength hfirst hkus hnear hlength'
  exact ⟨g' a', by rw [bind_of_ok hfirst', bind_of_ok (takeMark_cons (Eq.trans hk ht) _)]; rfl⟩

/-- A reader that hands the tokens on to another one, chosen by what it sees of them. -/
theorem mimics_of_choice {ι : Type} (choice : List Token → ι) {r r' : Reader α}
    {c c' : ι → Reader α} (hr : ∀ tokens, r tokens = c (choice tokens) tokens)
    (hr' : ∀ tokens, r' tokens = c' (choice tokens) tokens)
    (hc : ∀ i, Mimics rounds rounds' near (c i) (c' i))
    (hok : ∀ {ts rest ts' rest' a}, r (ts ++ rest) = .ok a rest → SameKinds ts ts' →
      near (kindAt rest) (kindAt rest') → choice (ts' ++ rest') = choice (ts ++ rest))
    (herror : ∀ {ts rest ts' rest' reject}, (ts ++ rest).length ≤ rounds →
      r (ts ++ rest) = .error reject rest → SameKinds ts ts' → Meets reject rest rest' →
      choice (ts' ++ rest') = choice (ts ++ rest)) :
    Mimics rounds rounds' near r r' where
  leaves tokens := ((hc (choice tokens)).leaves tokens).of_eq (hr tokens)
  ok hlength h hkinds hnear hlength' := by
    rw [hr', hok h hkinds hnear]
    exact (hc _).ok hlength (by rwa [← hr]) hkinds hnear hlength'
  error hlength h hkinds hmeets hlength' := by
    rw [hr', herror hlength h hkinds hmeets]
    exact (hc _).error hlength (by rwa [← hr]) hkinds hmeets hlength'

/-- The choice is made by the next kind.  Where the reader takes nothing, the kinds that
may come there have to be equal for the choice to be the same. -/
theorem mimics_of_kind {r r' : Reader α} {c c' : Kind → Reader α}
    (hr : ∀ tokens, r tokens = c (kindAt tokens) tokens)
    (hr' : ∀ tokens, r' tokens = c' (kindAt tokens) tokens)
    (hc : ∀ k, Mimics rounds rounds' near (c k) (c' k))
    (hstay : ∀ {rest rest' a}, r rest = .ok a rest → near (kindAt rest) (kindAt rest') →
      kindAt rest = kindAt rest') : Mimics rounds rounds' near r r' := by
  refine mimics_of_choice kindAt hr hr' hc (fun {ts rest ts' rest' a} h hkinds hnear => ?_)
    (fun {ts rest ts' rest' reject} _ _ hkinds hmeets => ?_)
  · by_cases hpos : ts = []
    · subst hpos
      rw [hkinds.eq_nil]
      exact (hstay h hnear).symm
    · exact (hkinds.kindAt_append hpos).symm
  · exact (hkinds.near_append Eq.refl hmeets.1).symm

end Rules

/-! ## The constructs, given their parts -/

section Constructs

variable {rounds rounds' : Nat} {near : Kind → Kind → Prop} {e e' : Reader Node}
  {b b' : Reader (List Node)}

theorem mimics_parenthesised (h : Mimics rounds rounds' Eq e e') :
    Mimics rounds rounds' Any (parenthesised e) (parenthesised e') :=
  (mimics_takeMark .leftParen).bind (fun _ _ => h.bind_mark .rightParen _ _) fun _ => trivial

theorem mimics_letStatement (h : Mimics rounds rounds' Eq e e') :
    Mimics rounds rounds' Any (letStatement e) (letStatement e') := by
  refine (mimics_takeMark .letWord).bind (fun _ _ => ?_) fun _ => trivial
  refine mimics_takeName.bind (fun _ _ => ?_) fun _ => trivial
  refine (mimics_takeMark .equal).bind (fun _ _ => ?_) fun _ => trivial
  exact h.bind_mark .semicolon _ _

theorem mimics_printStatement (h : Mimics rounds rounds' Eq e e') :
    Mimics rounds rounds' Any (printStatement e) (printStatement e') :=
  (mimics_takeMark .printWord).bind
    (fun _ _ => (mimics_parenthesised h).of_any.bind_mark .semicolon _ _) fun _ => trivial

theorem mimics_expressionStatement (h : Mimics rounds rounds' Eq e e') :
    Mimics rounds rounds' Any (expressionStatement e) (expressionStatement e') :=
  mimics_nextLine.bind (fun _ _ => h.bind_mark .semicolon _ _) fun _ => trivial

theorem mimics_elseBranch (h : Mimics rounds rounds' Any b b') :
    Mimics rounds rounds' ElseAlike (elseBranch b) (elseBranch b') := by
  refine mimics_of_choice (fun tokens => decide (kindAt tokens = .mark .elseWord))
    (elseBranch_eq_form b) (elseBranch_eq_form b') (fun chosen => ?_)
    (fun _ hkinds hnear => ?_) (fun _ _ hkinds hmeets => ?_)
  · cases chosen with
    | false => exact mimics_pure _ _
    | true =>
        refine Mimics.of_any ((mimics_takeMark .elseWord).bind (fun _ _ => ?_) fun _ => trivial)
        exact h.bind (fun _ _ => mimics_pure _ _) fun _ => trivial
  · exact decide_eq_decide.2 (hkinds.near_append (fun _ => Iff.rfl) hnear).symm
  · rw [hkinds.near_append Eq.refl hmeets.1]

/-! ## The repetitions -/

/-- Where no rounds are left there are no tokens; readers that return at once there do the
same. -/
theorem mimics_at_end {r r' : Reader α} (hleaves : ∀ tokens, Leaves r tokens (· <:+ tokens))
    (hr : ∀ tokens, kindAt tokens = .endOfInput → ∃ a, r tokens = .ok a tokens)
    (hr' : ∀ tokens, kindAt tokens = .endOfInput → ∃ a, r' tokens = .ok a tokens)
    (hzero : rounds = 0 ∨ rounds' = 0) : Mimics rounds rounds' Eq r r' := by
  have hend {ts rest ts' rest' : List Token} (hlength : (ts ++ rest).length ≤ rounds)
      (hlength' : (ts' ++ rest').length ≤ rounds') (hkinds : SameKinds ts ts')
      (hnear : kindAt rest = kindAt rest') :
      kindAt (ts ++ rest) = .endOfInput ∧ kindAt (ts' ++ rest') = .endOfInput := by
    have hk : kindAt (ts ++ rest) = kindAt (ts' ++ rest') := hkinds.near_append Eq.refl hnear
    rcases hzero with rfl | rfl
    · rw [← hk, eq_nil_of_length_le_zero hlength]
      exact ⟨rfl, rfl⟩
    · rw [hk, eq_nil_of_length_le_zero hlength']
      exact ⟨rfl, rfl⟩
  refine ⟨hleaves, fun {ts rest ts' rest' a} hlength h hkinds hnear hlength' => ?_,
    fun {ts rest ts' rest' reject} hlength h hkinds hmeets hlength' => ?_⟩
  · obtain ⟨hk, hk'⟩ := hend hlength hlength' hkinds hnear
    obtain ⟨b, hb⟩ := hr _ hk
    rw [hb, EStateM.Result.ok.injEq] at h
    obtain rfl := List.append_left_eq_self.1 h.2
    rw [hkinds.eq_nil] at hk' ⊢
    exact hr' _ hk'
  · obtain ⟨b, hb⟩ := hr _ (hend hlength hlength' hkinds hmeets.1).1
    rw [hb] at h
    cases h

section Items

variable {stop : Kind → Bool} {item item' : Reader Node}

theorem leaves_itemsOnto (hitem : ∀ tokens, Leaves item tokens (· <:+ tokens)) (n : Nat) :
    ∀ done tokens, Leaves (itemsOnto stop item done n) tokens (· <:+ tokens) := by
  induction n with
  | zero =>
      intro done tokens
      refine leaves_of (fun nodes rest hr => ?_) (fun reject rest hr => ?_) <;>
        rw [itemsOnto] at hr <;> split at hr <;> cases hr <;> exact List.suffix_refl _
  | succ n ih =>
      intro done tokens
      refine Leaves.of_eq ?_ (itemsOnto_succ_eq_form done n tokens)
      unfold itemForm
      split
      · exact List.suffix_refl tokens
      · refine ends_bind.2 ((hitem tokens).ends (fun node mid hmid => ?_) fun _ _ => id)
        exact (ih (node :: done) mid).imp fun rest hrest => hrest.trans hmid

theorem mimics_itemsOnto (hitem : Mimics rounds rounds' ElseAlike item item')
    (htakes : ∀ {ts rest node}, item (ts ++ rest) = .ok node rest → 1 ≤ ts.length)
    (hend : stop .endOfInput = true) (n : Nat) (hn : n ≤ rounds) :
    ∀ {n'}, n' ≤ rounds' → ∀ done done',
      Mimics n n' Eq (itemsOnto stop item done n) (itemsOnto stop item' done' n') := by
  have hstop {item : Reader Node} {tokens : List Token} (done : List Node) (n : Nat)
      (hk : kindAt tokens = .endOfInput) :
      ∃ nodes, itemsOnto stop item done n tokens = .ok nodes tokens :=
    ⟨_, itemsOnto_stop (by rw [hk]; exact hend) done n⟩
  induction n with
  | zero =>
      intro n' hn' done done'
      exact mimics_at_end (leaves_itemsOnto hitem.leaves 0 done) (fun _ => hstop done 0)
        (fun _ => hstop done' n') (.inl rfl)
  | succ n ih =>
      intro n' hn' done done'
      cases n' with
      | zero =>
          exact mimics_at_end (leaves_itemsOnto hitem.leaves (n + 1) done)
            (fun _ => hstop done (n + 1)) (fun _ => hstop done' 0) (.inr rfl)
      | succ n' =>
          refine mimics_of_kind (itemsOnto_succ_eq_form done n) (itemsOnto_succ_eq_form done' n')
            (fun k => ?_) (fun _ => id)
          rw [itemForm, itemForm]
          by_cases hk : stop k = true
          · rw [if_pos hk, if_pos hk]
            exact mimics_pure _ _
          · rw [if_neg hk, if_neg hk]
            have hfirst : Mimics (n + 1) (n' + 1) Eq item item' :=
              (hitem.imp fun k k' hkk' => by rw [hkk', ElseAlike]).mono hn hn'
            exact hfirst.bind_taking (fun _ _ => ih (by omega) (by omega) _ _) Eq.refl htakes

end Items

section Chain

variable {operator? : Mark → Option BinaryOperator} {operand operand' : Reader Node}

theorem leaves_chainOnto (hoperand : ∀ tokens, Leaves operand tokens (· <:+ tokens)) (n : Nat) :
    ∀ left tokens, Leaves (chainOnto operator? operand left n) tokens (· <:+ tokens) := by
  induction n with
  | zero =>
      intro left tokens
      refine leaves_of (fun node rest hr => ?_) (fun reject rest hr => ?_) <;>
        rw [chainOnto] at hr <;> split at hr <;> cases hr <;> exact List.suffix_refl _
  | succ n ih =>
      intro left tokens
      refine Leaves.of_eq ?_ (chainOnto_succ_eq_form left n tokens)
      unfold linkForm
      split
      · rename_i m _
        cases operator? m with
        | none => exact List.suffix_refl tokens
        | some op =>
            refine ends_bind.2 ((leaves_takeMark m tokens).ends (fun line mid hmid => ?_)
              fun _ _ => id)
            refine ends_bind.2 ((hoperand mid).ends (fun right mid' hmid' => ?_) fun _ _ hrest =>
              hrest.trans hmid)
            exact (ih _ mid').imp fun rest hrest => (hrest.trans hmid').trans hmid
      · exact List.suffix_refl tokens

theorem chainOnto_at_end {tokens : List Token} (hk : kindAt tokens = .endOfInput) (left : Node)
    (n : Nat) : ∃ node, chainOnto operator? operand left n tokens = .ok node tokens := by
  refine ⟨left, chainOnto_stop ?_ left n⟩
  rcases tokens with _ | ⟨⟨lexeme, line⟩, rest⟩
  · rfl
  · cases lexeme with
    | mark m note => cases hk
    | _ => rfl

theorem mimics_chainOnto (hoperand : Mimics rounds rounds' Eq operand operand') (n : Nat)
    (hn : n ≤ rounds) : ∀ {n'}, n' ≤ rounds' → ∀ left left',
      Mimics n n' Eq (chainOnto operator? operand left n)
        (chainOnto operator? operand' left' n') := by
  induction n with
  | zero =>
      intro n' hn' left left'
      exact mimics_at_end (leaves_chainOnto hoperand.leaves 0 left)
        (fun _ hk => chainOnto_at_end hk left 0) (fun _ hk => chainOnto_at_end hk left' n')
        (.inl rfl)
  | succ n ih =>
      intro n' hn' left left'
      cases n' with
      | zero =>
          exact mimics_at_end (leaves_chainOnto hoperand.leaves (n + 1) left)
            (fun _ hk => chainOnto_at_end hk left (n + 1))
            (fun _ hk => chainOnto_at_end hk left' 0) (.inr rfl)
      | succ n' =>
          refine mimics_of_kind (chainOnto_succ_eq_form left n) (chainOnto_succ_eq_form left' n')
            (fun k => ?_) (fun _ => id)
          unfold linkForm
          split
          · rename_i m
            cases operator? m with
            | none => exact mimics_pure _ _
            | some op =>
                refine (mimics_takeMark m).bind_taking (fun _ _ => ?_) Eq.refl ?_
                · refine (hoperand.mono (by omega) (by omega)).bind (fun _ _ => ?_) Eq.refl
                  exact ih (by omega) (by omega) _ _
                · intro ts rest line hr
                  obtain ⟨t, htokens, -⟩ := takeMark_eq_ok.1 hr
                  obtain rfl : ts = [t] := List.append_cancel_right htokens
                  exact Nat.le_refl 1
          · exact mimics_pure _ _

theorem mimics_chain (hoperand : Mimics rounds rounds' Eq operand operand') :
    Mimics rounds rounds' Eq (chain rounds operator? operand)
      (chain rounds' operator? operand') :=
  hoperand.bind (fun left left' => mimics_chainOnto hoperand rounds (Nat.le_refl _) (Nat.le_refl _)
    left left') Eq.refl

end Chain

end Constructs

end Reader

end RillLang
