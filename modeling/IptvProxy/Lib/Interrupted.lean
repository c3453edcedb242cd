import IptvProxy.Lib.Program

/-!
# Interrupted programs

A program may be cut off after any number of its commands, and be run again. If from every state in
`I` the program keeps to `I` at each of its commands (`Protocol.guarded`), then so do any number of
such runs (`Cuts.holds`), and what it follows holds of a run that is not cut off (`Follows.of_run`).
-/

namespace Effect

variable {C : Type} {A : C → Type} {E α σ : Type} (effect : σ → (c : C) → A c → Option σ)

/-- From state `s`, program `m` may be cut off in state `s'`. -/
inductive Cuts : Program C A E α → σ → σ → Prop where
  | here {m : Program C A E α} {s : σ} : Cuts m s s
  | call {c : C} {k : A c → Program C A E α} {s s' s'' : σ} {x : A c}
      (heffect : effect s c x = some s') (hrest : Cuts (k x) s' s'') : Cuts (.call c k) s s''

/-- The states of a system as phases, where commands are issued in `I` only. -/
def Protocol.guarded (I : σ → Prop) : Protocol C A σ := ⟨fun s _ => I s, effect⟩

variable {effect} {I : σ → Prop} {m : Program C A E α} {s s' : σ} {Q : α → σ → Prop}
  {R : E → σ → Prop}

/-- One program after the other. -/
theorem Follows.andThen {β P : Type} {π : Protocol C A P} {p : P} {f : α → Program C A E β}
    {Q : α → P → Prop} {Q' : β → P → Prop} {R : E → P → Prop} (h : Follows π m p Q R)
    (hf : ∀ a q, Q a q → Follows π (f a) q Q' R) : Follows π (m >>= f) p Q' R :=
  follows_bind.mpr (h.mono hf fun _ _ => id)

/-- A program that ends in `I` starts there. -/
theorem Follows.holds (h : Follows (.guarded effect I) m s Q R) (hQ : ∀ a q, Q a q → I q)
    (hR : ∀ e q, R e q → I q) : I s := by
  cases m with
  | pure a => exact hQ a s h
  | throw e => exact hR e s h
  | call c k => exact h.1

/-- Where a program is cut off, `I` holds. -/
theorem Cuts.holds (hcut : Cuts effect m s s') (h : Follows (.guarded effect I) m s Q R)
    (hQ : ∀ a q, Q a q → I q) (hR : ∀ e q, R e q → I q) : I s' := by
  induction hcut with
  | here => exact h.holds hQ hR
  | call heffect _ ih => exact ih (h.2 _ _ heffect)

/-- A program may be cut off at its end. -/
theorem Runs.cuts {r : Except E α} (hruns : Runs effect m s r s') : Cuts effect m s s' := by
  induction hruns with
  | pure => exact .here
  | throw => exact .here
  | call heffect _ ih => exact .call heffect ih

/-- What a program follows holds of its runs. -/
theorem Follows.of_run {r : Except E α} (h : Follows (.guarded effect I) m s Q R)
    (hruns : Runs effect m s r s') : (∀ a, r = .ok a → Q a s') ∧ (∀ e, r = .error e → R e s') := by
  induction hruns with
  | pure =>
    refine ⟨?_, nofun⟩
    rintro _ ⟨⟩
    exact h
  | throw =>
    refine ⟨nofun, ?_⟩
    rintro _ ⟨⟩
    exact h
  | call heffect _ ih => exact ih (h.2 _ _ heffect)

/-- If every command has an answer, a program comes to its end. -/
theorem exists_runs (htotal : ∀ s (c : C), ∃ x s', effect s c x = some s')
    (m : Program C A E α) (s : σ) : ∃ r s', Runs effect m s r s' := by
  induction m generalizing s with
  | pure a => exact ⟨_, _, .pure⟩
  | throw e => exact ⟨_, _, .throw⟩
  | call c k ih =>
    obtain ⟨x, s', hx⟩ := htotal s c
    obtain ⟨r, s'', hruns⟩ := ih x s'
    exact ⟨r, s'', .call hx hruns⟩

end Effect
