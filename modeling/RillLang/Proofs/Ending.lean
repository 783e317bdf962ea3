/-!
# How a computation ends

Readers, evaluations and executions all act on a state and end in one of two ways:
with a result, or with a reason to stop.  Either way they leave a state behind.
This file says how a sequence of two such computations ends.

`Ends c s ok fail` says that `c`, started in `s`, ends in a way that `ok` or `fail`
allows, whichever it is.  Its rules follow the way a computation is put together.

`Coupled state stopped reason c c'` is about two computations: from states that are related they
end alike, and leave states that are related.  Where they stop, the relation may be another one.

`AgreesUnless cut c c'` is about two computations on the same states: the first ends as the
second does, unless it is cut short.  `CutShort cut log c c'` says more of two computations that
write a log: what was written up to the cut is the beginning of what the second one writes.
`Avoids cut c` says that the computation is never cut short.
-/

namespace RillLang.Ending

variable {ε σ α β : Type}

theorem pure_eq_ok {a b : α} {s s' : σ} :
    (pure a : EStateM ε σ α) s = .ok b s' ↔ a = b ∧ s = s' := by
  show EStateM.Result.ok a s = .ok b s' ↔ _
  simp

/-- A sequence goes on after a first part with a result, and stops where that part stops. -/
theorem bind_apply (x : EStateM ε σ α) (f : α → EStateM ε σ β) (s : σ) :
    (x >>= f) s =
      match x s with
      | .ok a mid => f a mid
      | .error e mid => .error e mid := by
  show EStateM.bind x f s = _
  rw [EStateM.bind]
  cases x s <;> rfl

/-- A sequence has a result exactly when both of its parts have one. -/
theorem bind_eq_ok {x : EStateM ε σ α} {f : α → EStateM ε σ β} {s s' : σ} {b : β} :
    (x >>= f) s = .ok b s' ↔ ∃ a mid, x s = .ok a mid ∧ f a mid = .ok b s' := by
  show EStateM.bind x f s = _ ↔ _
  unfold EStateM.bind
  cases x s with
  | ok a mid =>
      constructor
      · intro h
        exact ⟨a, mid, rfl, h⟩
      · rintro ⟨a', mid', ⟨⟩, h⟩
        exact h
  | error e mid => simp

/-- After a first part with a result, a sequence ends as its second part does. -/
theorem bind_of_ok {x : EStateM ε σ α} {f : α → EStateM ε σ β} {s mid : σ} {a : α}
    (h : x s = .ok a mid) : (x >>= f) s = f a mid := by
  show EStateM.bind x f s = _
  rw [EStateM.bind, h]

/-- A sequence stops where its first part does. -/
theorem bind_of_error {x : EStateM ε σ α} {f : α → EStateM ε σ β} {s mid : σ} {e : ε}
    (h : x s = .error e mid) : (x >>= f) s = .error e mid := by
  show EStateM.bind x f s = _
  rw [EStateM.bind, h]

/-- A sequence stops where its first part stops, or else where its second part does. -/
theorem bind_eq_error {x : EStateM ε σ α} {f : α → EStateM ε σ β} {s s' : σ} {e : ε} :
    (x >>= f) s = .error e s' ↔
      x s = .error e s' ∨ ∃ a mid, x s = .ok a mid ∧ f a mid = .error e s' := by
  cases h : x s with
  | ok a mid =>
      rw [bind_of_ok h]
      constructor
      · intro hf
        exact .inr ⟨a, mid, rfl, hf⟩
      · rintro (⟨⟨⟩⟩ | ⟨a', mid', ⟨⟩, hf⟩)
        exact hf
  | error e' mid =>
      rw [bind_of_error h]
      simp

/-! ## Conditions on every ending -/

/-- The computation ends with a result that `ok` allows, or stops for a reason that
`fail` allows. -/
def Ends (c : EStateM ε σ α) (s : σ) (ok : α → σ → Prop) (fail : ε → σ → Prop) : Prop :=
  match c s with
  | .ok a s' => ok a s'
  | .error e s' => fail e s'

/-- However the computation ends, it leaves a state of the kind. -/
def Leaves (c : EStateM ε σ α) (s : σ) (kind : σ → Prop) : Prop :=
  Ends c s (fun _ => kind) (fun _ => kind)

section Rules

variable {s s' : σ} {ok ok' : α → σ → Prop} {fail fail' : ε → σ → Prop}

theorem ends_pure {a : α} : Ends (pure a) s ok fail ↔ ok a s := Iff.rfl

theorem ends_throw {e : ε} : Ends (throw e : EStateM ε σ α) s ok fail ↔ fail e s := Iff.rfl

/-- A sequence ends well when its first part does, and its second part does after it. -/
theorem ends_bind {x : EStateM ε σ β} {f : β → EStateM ε σ α} :
    Ends (x >>= f) s ok fail ↔ Ends x s (fun b mid => Ends (f b) mid ok fail) fail := by
  unfold Ends
  cases h : x s with
  | ok b mid => rw [bind_of_ok h]
  | error e mid => rw [bind_of_error h]

theorem Ends.imp {c : EStateM ε σ α} (h : Ends c s ok fail)
    (hok : ∀ a s', ok a s' → ok' a s') (hfail : ∀ e s', fail e s' → fail' e s') :
    Ends c s ok' fail' := by
  unfold Ends at h ⊢
  cases hc : c s with
  | ok a s' =>
      rw [hc] at h
      exact hok a s' h
  | error e s' =>
      rw [hc] at h
      exact hfail e s' h

theorem leaves_of {c : EStateM ε σ α} {kind : σ → Prop} (hok : ∀ a s', c s = .ok a s' → kind s')
    (hfail : ∀ e s', c s = .error e s' → kind s') : Leaves c s kind := by
  unfold Leaves Ends
  cases h : c s with
  | ok a s' => exact hok a s' h
  | error e s' => exact hfail e s' h

theorem Leaves.of_eq {c c' : EStateM ε σ α} {kind : σ → Prop} (h : Leaves c' s kind)
    (heq : c s = c' s) : Leaves c s kind := by
  unfold Leaves Ends at h ⊢
  rwa [heq]

theorem Leaves.ends {c : EStateM ε σ α} {kind : σ → Prop} (h : Leaves c s kind)
    (hok : ∀ a s', kind s' → ok a s') (hfail : ∀ e s', kind s' → fail e s') :
    Ends c s ok fail :=
  Ends.imp h hok hfail

theorem Leaves.imp {c : EStateM ε σ α} {kind kind' : σ → Prop} (h : Leaves c s kind)
    (hkind : ∀ s', kind s' → kind' s') : Leaves c s kind' :=
  Ends.imp h (fun _ => hkind) (fun _ => hkind)

theorem Ends.and {c : EStateM ε σ α} (h : Ends c s ok fail) (h' : Ends c s ok' fail') :
    Ends c s (fun a s' => ok a s' ∧ ok' a s') (fun e s' => fail e s' ∧ fail' e s') := by
  unfold Ends at h h' ⊢
  cases hc : c s with
  | ok a s' =>
      rw [hc] at h h'
      exact ⟨h, h'⟩
  | error e s' =>
      rw [hc] at h h'
      exact ⟨h, h'⟩

theorem Ends.of_ok {c : EStateM ε σ α} {a : α} (h : Ends c s ok fail) (hc : c s = .ok a s') :
    ok a s' := by
  unfold Ends at h
  rw [hc] at h
  exact h

theorem Ends.of_error {c : EStateM ε σ α} {e : ε} (h : Ends c s ok fail)
    (hc : c s = .error e s') : fail e s' := by
  unfold Ends at h
  rw [hc] at h
  exact h

end Rules

/-! ## Two computations -/

section Coupling

variable {ε' σ' : Type} {state : σ → σ' → Prop} {stopped : ε → σ → σ' → Prop} {reason : ε → ε'}

/-- Two endings of one kind: with the same result, leaving related states, or with reasons that
correspond, leaving states that are related as those are where it stops for the reason. -/
inductive Alike (state : σ → σ' → Prop) (stopped : ε → σ → σ' → Prop) (reason : ε → ε') :
    EStateM.Result ε σ α → EStateM.Result ε' σ' α → Prop
  | ok {a : α} {s : σ} {s' : σ'} : state s s' → Alike state stopped reason (.ok a s) (.ok a s')
  | error {e : ε} {s : σ} {s' : σ'} :
      stopped e s s' → Alike state stopped reason (.error e s) (.error (reason e) s')

/-- From related states the two computations end alike. -/
def Coupled (state : σ → σ' → Prop) (stopped : ε → σ → σ' → Prop) (reason : ε → ε')
    (c : EStateM ε σ α) (c' : EStateM ε' σ' α) : Prop :=
  ∀ s s', state s s' → Alike state stopped reason (c s) (c' s')

theorem coupled_pure (a : α) : Coupled state stopped reason (pure a) (pure a) :=
  fun _ _ hs => .ok hs

theorem coupled_throw {e : ε} (h : ∀ s s', state s s' → stopped e s s') :
    Coupled (α := α) state stopped reason (throw e) (throw (reason e)) :=
  fun s s' hs => .error (h s s' hs)

/-- Sequences are coupled when their first parts are, and their second parts are after any
result of the first. -/
theorem Coupled.bind {x : EStateM ε σ β} {x' : EStateM ε' σ' β} {f : β → EStateM ε σ α}
    {f' : β → EStateM ε' σ' α} (hx : Coupled state stopped reason x x')
    (hf : ∀ b, Coupled state stopped reason (f b) (f' b)) :
    Coupled state stopped reason (x >>= f) (x' >>= f') := by
  intro s s' hs
  have hfirst := hx s s' hs
  rw [bind_apply, bind_apply]
  generalize x s = first, x' s' = first' at hfirst
  cases hfirst with
  | ok hmid => exact hf _ _ _ hmid
  | error hstop => exact .error hstop

/-- Whatever holds of all related states holds where a coupled computation ends. -/
theorem Coupled.leaves {c : EStateM ε σ α} {c' : EStateM ε' σ' α} {s : σ} {s' : σ'}
    {kind : σ' → Prop} (h : Coupled state (fun _ => state) reason c c') (hs : state s s')
    (hkind : ∀ s s', state s s' → kind s') : Leaves c' s' kind := by
  have halike := h s s' hs
  unfold Leaves Ends
  generalize c s = ending, c' s' = ending' at halike
  cases halike with
  | ok hend => exact hkind _ _ hend
  | error hend => exact hkind _ _ hend

end Coupling

/-! ## Computations that are cut short -/

section Cutting

variable {cut : ε}

/-- The first computation ends as the second one does, unless it stops for the reason
`cut`. -/
def AgreesUnless (cut : ε) (c c' : EStateM ε σ α) : Prop :=
  ∀ s, c s = c' s ∨ ∃ s', c s = .error cut s'

theorem agreesUnless_refl (c : EStateM ε σ α) : AgreesUnless cut c c := fun _ => .inl rfl

theorem agreesUnless_throw (c : EStateM ε σ α) : AgreesUnless cut (throw cut) c :=
  fun s => .inr ⟨s, rfl⟩

theorem AgreesUnless.bind {x x' : EStateM ε σ β} {f f' : β → EStateM ε σ α}
    (hx : AgreesUnless cut x x') (hf : ∀ b, AgreesUnless cut (f b) (f' b)) :
    AgreesUnless cut (x >>= f) (x' >>= f') := by
  intro s
  rcases hx s with heq | ⟨mid, hcut⟩
  · rw [bind_apply, bind_apply, heq]
    cases x' s with
    | ok b mid => exact hf b mid
    | error e mid => exact .inl rfl
  · exact .inr ⟨mid, bind_of_error hcut⟩

theorem AgreesUnless.trans {c c' c'' : EStateM ε σ α} (h : AgreesUnless cut c c')
    (h' : AgreesUnless cut c' c'') : AgreesUnless cut c c'' := by
  intro s
  rcases h s with heq | hcut
  · rw [heq]
    exact h' s
  · exact .inr hcut

/-- An ending that was not cut short is that of both computations. -/
theorem AgreesUnless.eq_of_ne {c c' : EStateM ε σ α} {s : σ} {ending : EStateM.Result ε σ α}
    (h : AgreesUnless cut c c') (hc : c s = ending) (hne : ∀ s', ending ≠ .error cut s') :
    c' s = ending := by
  rcases h s with heq | ⟨s', hcut⟩
  · exact heq.symm.trans hc
  · exact absurd (hc.symm.trans hcut) (hne s')

/-- Wherever it is started, the computation does not stop for the reason. -/
def Avoids (cut : ε) (c : EStateM ε σ α) : Prop := ∀ s s', c s ≠ .error cut s'

theorem avoids_pure (a : α) : Avoids cut (pure a : EStateM ε σ α) := by
  rintro s s' ⟨⟩

theorem avoids_throw {e : ε} (h : e ≠ cut) : Avoids cut (throw e : EStateM ε σ α) := by
  rintro s s' ⟨⟩
  exact h rfl

theorem Avoids.bind {x : EStateM ε σ β} {f : β → EStateM ε σ α} (hx : Avoids cut x)
    (hf : ∀ b, Avoids cut (f b)) : Avoids cut (x >>= f) := by
  intro s s' herror
  rcases bind_eq_error.1 herror with hfirst | ⟨b, mid, -, hrest⟩
  · exact hx s s' hfirst
  · exact hf b mid s' hrest

end Cutting

/-! ## Logs of computations that are cut short -/

section Logs

variable {τ : Type} {cut : ε} {log : σ → List τ}

/-- However the computation ends, what the log held before is the beginning of the log after. -/
def Appends (log : σ → List τ) (c : EStateM ε σ α) : Prop :=
  ∀ s, Leaves c s fun s' => log s <+: log s'

theorem appends_pure (a : α) : Appends log (pure a : EStateM ε σ α) :=
  fun s => ends_pure.2 (List.prefix_refl (log s))

theorem appends_throw (e : ε) : Appends log (throw e : EStateM ε σ α) :=
  fun s => ends_throw.2 (List.prefix_refl (log s))

theorem Appends.bind {x : EStateM ε σ β} {f : β → EStateM ε σ α} (hx : Appends log x)
    (hf : ∀ b, Appends log (f b)) : Appends log (x >>= f) := by
  intro s
  refine ends_bind.2 ((hx s).ends (fun b mid hmid => ?_) (fun _ _ h => h))
  exact (hf b mid).imp fun _ h => hmid.trans h

/-- The first computation is the second one cut short: they end the same, unless the first one
stops for the reason `cut`; then its log is the beginning of the log of the second one. -/
structure CutShort (cut : ε) (log : σ → List τ) (c c' : EStateM ε σ α) : Prop where
  /-- The second computation only adds to the log. -/
  appends : Appends log c'
  /-- The endings are the same, or the first one has written a part of what the second one
  writes. -/
  ending : ∀ s, c s = c' s ∨
    ∃ mid, c s = .error cut mid ∧ Leaves c' s fun s' => log mid <+: log s'

theorem cutShort_refl {c : EStateM ε σ α} (h : Appends log c) : CutShort cut log c c :=
  ⟨h, fun _ => .inl rfl⟩

theorem cutShort_throw {c : EStateM ε σ α} (h : Appends log c) : CutShort cut log (throw cut) c :=
  ⟨h, fun s => .inr ⟨s, rfl, h s⟩⟩

/-- A sequence whose first part is cut short has written a part of what that part writes. -/
theorem CutShort.bind {x x' : EStateM ε σ β} {f f' : β → EStateM ε σ α}
    (hx : CutShort cut log x x') (hf : ∀ b, CutShort cut log (f b) (f' b)) :
    CutShort cut log (x >>= f) (x' >>= f') := by
  refine ⟨hx.appends.bind fun b => (hf b).appends, fun s => ?_⟩
  rcases hx.ending s with heq | ⟨mid, hcut, hmid⟩
  · cases hx' : x' s with
    | error e mid => exact .inl ((bind_of_error (heq.trans hx')).trans (bind_of_error hx').symm)
    | ok b mid =>
        rcases (hf b).ending mid with heq' | ⟨mid', hcut, hmid'⟩
        · exact .inl ((bind_of_ok (heq.trans hx')).trans (heq'.trans (bind_of_ok hx').symm))
        · refine .inr ⟨mid', (bind_of_ok (heq.trans hx')).trans hcut, ?_⟩
          unfold Leaves Ends
          rw [bind_of_ok hx']
          exact hmid'
  · refine .inr ⟨mid, bind_of_error hcut, ends_bind.2 (hmid.ends (fun b mid' hmid' => ?_) ?_)⟩
    · exact ((hf b).appends mid').imp fun _ h => hmid'.trans h
    · exact fun _ _ h => h

theorem CutShort.agrees {c c' : EStateM ε σ α} (h : CutShort cut log c c') :
    AgreesUnless cut c c' :=
  fun s => (h.ending s).imp_right fun ⟨mid, hcut, _⟩ => ⟨mid, hcut⟩

/-- Where the first computation is cut short, the second one goes on. -/
theorem CutShort.leaves {c c' : EStateM ε σ α} {s mid : σ} (h : CutShort cut log c c')
    (hcut : c s = .error cut mid) : Leaves c' s fun s' => log mid <+: log s' := by
  rcases h.ending s with heq | ⟨mid', hcut', hmid⟩
  · -- the second one is cut short at the same place
    have hcut' : c' s = .error cut mid := heq.symm.trans hcut
    refine leaves_of (fun a s' h => ?_) (fun e s' h => ?_)
    · cases hcut'.symm.trans h
    · cases hcut'.symm.trans h
      exact List.prefix_refl (log mid)
  · obtain rfl : mid' = mid := by
      rw [hcut] at hcut'
      cases hcut'
      rfl
    exact hmid

end Logs

end RillLang.Ending
