import RillLang.Env

/-!
# Which names an environment binds

`Env.names` lists the names of each scope, from the inside out.  Assigning a variable
changes none of them, and declaring one changes the innermost scope only.

* `Env.names_of_assign?` — an assignment keeps every name in its scope.
* `Env.Adds` — the names of two environments differ by names added to the innermost scope.
* `Env.isSome_get?` — whether a name has a value depends on `Env.names` alone.
-/

namespace RillLang

theorem Scope.mem_names_set (s : Scope) (x : String) (v : Int) (y : String) :
    y ∈ (s.set x v).names ↔ y ∈ s.names ∨ y = x := by
  by_cases h : y = x
  · subst h
    simp [← Scope.isSome_get?]
  · rw [← Scope.isSome_get?, Scope.get?_set_of_ne s v h, Scope.isSome_get?]
    simp [h]

/-- A name that is bound keeps its place. -/
theorem Scope.names_set {s : Scope} {x : String} {w : Int} (h : s.get? x = some w) (v : Int) :
    (s.set x v).names = s.names := by
  induction s with
  | nil => cases h
  | cons b rest ih =>
      obtain ⟨y, u⟩ := b
      rw [Scope.get?] at h
      rw [Scope.set]
      split at h
      case isTrue hy => rw [if_pos hy]; rfl
      case isFalse hy =>
        rw [if_neg hy]
        exact congrArg (y :: ·) (ih h)

namespace Env

/-- The names each scope binds, from the inside out. -/
def names (env : Env) : List (List String) := env.scopes.map Scope.names

theorem names_eq (env : Env) : env.names = env.inner.names :: env.outer.map Scope.names := rfl

theorem depth_of_names {env env' : Env} (h : env'.names = env.names) : env'.depth = env.depth := by
  have hlength := congrArg List.length h
  simpa only [names, depth, List.length_map] using hlength

theorem names_of_assignIn? {scopes scopes' : List Scope} {x : String} {v : Int}
    (h : assignIn? scopes x v = some scopes') :
    scopes'.map Scope.names = scopes.map Scope.names := by
  induction scopes generalizing scopes' with
  | nil => cases h
  | cons scope rest ih =>
      rw [assignIn?] at h
      split at h
      case h_1 w hw =>
        cases h
        rw [List.map_cons, List.map_cons, Scope.names_set hw]
      case h_2 =>
        obtain ⟨rest', hrest, rfl⟩ := Option.map_eq_some_iff.1 h
        rw [List.map_cons, List.map_cons, ih hrest]

/-- The scopes after an assignment are never none, so that they are those of an
environment. -/
theorem assignIn?_scopes (env : Env) (x : String) (v : Int) :
    assignIn? env.scopes x v = (env.assign? x v).map scopes := by
  unfold assign?
  cases h : assignIn? env.scopes x v with
  | none => rfl
  | some scopes' =>
      cases scopes' with
      | nil =>
          have hnames := names_of_assignIn? h
          cases hnames
      | cons inner outer => rfl

/-- An assignment keeps every name in its scope. -/
theorem names_of_assign? {env env' : Env} {x : String} {v : Int}
    (h : env.assign? x v = some env') : env'.names = env.names := by
  have hscopes := assignIn?_scopes env x v
  rw [h] at hscopes
  exact names_of_assignIn? hscopes

/-- Closing a scope uncovers the names of the scopes around it. -/
theorem exists_pop? {env : Env} {names : List String} {others : List (List String)}
    (h : env.outer.map Scope.names = names :: others) :
    ∃ env', env.pop? = some env' ∧ env'.names = names :: others := by
  obtain ⟨inner, outer⟩ := env
  cases outer with
  | nil => cases h
  | cons scope rest => exact ⟨⟨scope, rest⟩, rfl, h⟩

/-! ## Names added to the innermost scope -/

/-- The second environment binds the names of the first and, in its innermost scope, the
added names. -/
structure Adds (added : List String) (before after : Env) : Prop where
  /-- The scopes around the innermost one have the same names. -/
  outer : after.outer.map Scope.names = before.outer.map Scope.names
  /-- The innermost scope has its old names and the added ones. -/
  inner : ∀ y, y ∈ after.inner.names ↔ y ∈ before.inner.names ∨ y ∈ added

theorem Adds.of_names {before after : Env} (h : after.names = before.names) :
    Adds [] before after := by
  obtain ⟨hinner, houter⟩ := List.cons.inj h
  exact ⟨houter, fun y => by simp [hinner]⟩

theorem Adds.trans {xs ys : List String} {a b c : Env} (hab : Adds xs a b) (hbc : Adds ys b c) :
    Adds (xs ++ ys) a c := by
  refine ⟨hbc.outer.trans hab.outer, fun y => ?_⟩
  rw [hbc.inner, hab.inner, List.mem_append, or_assoc]

theorem adds_define (env : Env) (x : String) (v : Int) : Adds [x] env (env.define x v) :=
  ⟨rfl, fun y => by simp [define, Scope.mem_names_set]⟩

theorem Adds.depth_eq {xs : List String} {before after : Env} (h : Adds xs before after) :
    after.depth = before.depth := by
  have hlength := congrArg List.length h.outer
  simp only [List.length_map] at hlength
  simp [depth, scopes, hlength]

/-! ## Bound names -/

theorem isSome_getIn? (scopes : List Scope) (x : String) :
    (getIn? scopes x).isSome = true ↔ ∃ names ∈ scopes.map Scope.names, x ∈ names := by
  induction scopes with
  | nil => simp [getIn?]
  | cons scope rest ih =>
      have hscope := Scope.isSome_get? scope x
      rw [getIn?]
      cases hget : scope.get? x with
      | some v =>
          rw [hget] at hscope
          simp [← hscope]
      | none =>
          rw [hget] at hscope
          simpa [← hscope] using ih

/-- Each name of a context has a value. -/
def Binds (env : Env) (context : List String) : Prop :=
  ∀ x ∈ context, (env.get? x).isSome = true

/-- A name has a value when some scope binds it. -/
theorem isSome_get? {env : Env} {x : String} :
    (env.get? x).isSome = true ↔ ∃ names ∈ env.names, x ∈ names :=
  isSome_getIn? env.scopes x

/-- A variable can be assigned where it has a value. -/
theorem isSome_assign? (env : Env) (x : String) (v : Int) :
    (env.assign? x v).isSome = (env.get? x).isSome := by
  rw [get?, ← isSome_assignIn? env.scopes x v, assignIn?_scopes, Option.isSome_map]

theorem Binds.of_names {env env' : Env} {context : List String} (h : env.Binds context)
    (hnames : env'.names = env.names) : env'.Binds context := by
  intro x hx
  rw [isSome_get?, hnames, ← isSome_get?]
  exact h x hx

theorem Binds.of_adds {env env' : Env} {context added : List String} (h : env.Binds context)
    (hadds : Adds added env env') : env'.Binds (added ++ context) := by
  intro x hx
  rw [isSome_get?, names_eq]
  rcases List.mem_append.1 hx with hadded | hcontext
  · exact ⟨_, List.mem_cons_self .., (hadds.inner x).2 (.inr hadded)⟩
  · obtain ⟨names, hnames, hmem⟩ := isSome_get?.1 (h x hcontext)
    rcases List.mem_cons.1 hnames with rfl | houter
    · exact ⟨_, List.mem_cons_self .., (hadds.inner x).2 (.inl hmem)⟩
    · refine ⟨names, List.mem_cons_of_mem _ ?_, hmem⟩
      rw [hadds.outer]
      exact houter

theorem Binds.push {env : Env} {context : List String} (h : env.Binds context) :
    env.push.Binds context := by
  intro x hx
  rw [get?_push]
  exact h x hx

end Env

end RillLang
