import Mathlib.Logic.Relation

/-!
# Guarded runs of a deterministic step function

A system is a partial step function `step : σ → α → Option σ`: the action carries every choice
the environment makes, so a run is a list of actions and can be evaluated (`exec`). A property of
runs is usually restricted to runs whose every step satisfies a **guard** `ok : σ → α → Prop` (no
fault, no crash, only these operations); `Run step ok s t` is reachability through such steps.

The rules below are the only inductions over runs the development does: `Run.invariant` for
properties of states, `Run.simulate` to carry a run over to an abstract system, `Run.mono` to
change the guard.
-/

namespace Transition

universe u v w

variable {σ : Type u} {α : Type v} {τ : Type w} (step : σ → α → Option σ)

/-- The state a list of actions leads to, if every action is enabled. -/
def exec : σ → List α → Option σ
  | s, [] => some s
  | s, a :: as => (step s a).bind fun t => exec t as

/-- One guarded step. -/
def Next (ok : σ → α → Prop) (s t : σ) : Prop := ∃ a, ok s a ∧ step s a = some t

/-- Reachability from `s` through steps that satisfy the guard. -/
abbrev Run (ok : σ → α → Prop) : σ → σ → Prop := Relation.ReflTransGen (Next step ok)

variable {step}

@[simp] theorem exec_nil (s : σ) : exec step s [] = some s := rfl

@[simp] theorem exec_cons (s : σ) (a : α) (as : List α) :
    exec step s (a :: as) = (step s a).bind fun t => exec step t as := rfl

theorem exec_append (s : σ) (as bs : List α) :
    exec step s (as ++ bs) = (exec step s as).bind fun t => exec step t bs := by
  induction as generalizing s with
  | nil => rfl
  | cons a as ih =>
    rw [List.cons_append, exec_cons, exec_cons]
    rcases step s a with _ | t
    · rfl
    · exact ih t

namespace Run

variable {ok ok' : σ → α → Prop} {s t u : σ}

/-- **Invariant rule**: what holds at the start and is kept by every guarded step holds at the
end of every guarded run. -/
theorem invariant {I : σ → Prop}
    (hstep : ∀ s a t, I s → ok s a → step s a = some t → I t)
    (h : Run step ok s t) (h₀ : I s) : I t := by
  induction h with
  | refl => exact h₀
  | tail _ hn ih =>
    obtain ⟨a, hok, hs⟩ := hn
    exact hstep _ a _ ih hok hs

/-- **Simulation rule**: if, under an invariant of the concrete system, every guarded step is an
abstract step or invisible, then every guarded run has an abstract counterpart. -/
theorem simulate {I : σ → Prop} {R : τ → τ → Prop} {view : σ → τ}
    (hinv : ∀ s a t, I s → ok s a → step s a = some t → I t)
    (hsim : ∀ s a t, I s → ok s a → step s a = some t →
      Relation.ReflTransGen R (view s) (view t))
    (h : Run step ok s t) (h₀ : I s) : Relation.ReflTransGen R (view s) (view t) := by
  have hboth : I t ∧ Relation.ReflTransGen R (view s) (view t) := by
    induction h with
    | refl => exact ⟨h₀, .refl⟩
    | tail _ hn ih =>
      obtain ⟨a, hok, hs⟩ := hn
      exact ⟨hinv _ a _ ih.1 hok hs, ih.2.trans (hsim _ a _ ih.1 hok hs)⟩
  exact hboth.2

/-- A weaker guard admits more runs. -/
theorem mono (himp : ∀ s a, ok s a → ok' s a) (h : Run step ok s t) : Run step ok' s t :=
  h.lift id fun _ _ ⟨a, hok, hs⟩ => ⟨a, himp _ a hok, hs⟩

/-- An executed list of actions is a run, if the guard accepts each action in every state. -/
theorem of_exec {as : List α} (hok : ∀ a ∈ as, ∀ s, ok s a) (h : exec step s as = some t) :
    Run step ok s t := by
  induction as generalizing s with
  | nil =>
    obtain rfl := Option.some.inj h
    exact .refl
  | cons a as ih =>
    rw [exec_cons] at h
    obtain ⟨s', hs, h'⟩ := Option.bind_eq_some_iff.mp h
    exact .head ⟨a, hok a (List.mem_cons_self ..) s, hs⟩
      (ih (fun b hb => hok b (List.mem_cons_of_mem _ hb)) h')

/-- An evaluated list of actions is a run to a state with the computed observation. -/
theorem of_eval {β : Type*} {as : List α} {f : σ → β} {x : β}
    (hok : ∀ a ∈ as, ∀ s, ok s a) (h : (exec step s as).map f = some x) :
    ∃ t, Run step ok s t ∧ f t = x := by
  obtain ⟨t, ht, hx⟩ := Option.map_eq_some_iff.mp h
  exact ⟨t, of_exec hok ht, hx⟩

/-- The same for a guard that depends on the state, by a test that is evaluated along the way. The
actions are chosen by a strategy that sees the state. -/
theorem of_strategy {β μ : Type*} {choose : σ → μ → α} {ms : List μ} {f : σ → β} {x : β}
    {test : σ → α → Bool} (hok : ∀ s a, test s a = true → ok s a)
    (h : (exec (fun s m => if test s (choose s m) then step s (choose s m) else none) s ms).map f =
      some x) :
    ∃ t, Run step ok s t ∧ f t = x := by
  obtain ⟨t, ht, hx⟩ := Option.map_eq_some_iff.mp h
  have hrun := @of_exec σ μ _ (fun _ _ => True) s t ms (fun _ _ _ => trivial) ht
  refine ⟨t, hrun.lift id fun a b hab => ?_, hx⟩
  obtain ⟨m, -, hm⟩ := hab
  dsimp only at hm
  split at hm
  · next htest => exact ⟨choose a m, hok a _ htest, hm⟩
  · cases hm

/-- The same for a list of actions. -/
theorem of_tested {β : Type*} {as : List α} {f : σ → β} {x : β} {test : σ → α → Bool}
    (hok : ∀ s a, test s a = true → ok s a)
    (h : (exec (fun s a => if test s a then step s a else none) s as).map f = some x) :
    ∃ t, Run step ok s t ∧ f t = x :=
  @of_strategy σ α step ok s β α (fun _ a => a) as f x test hok h

end Run

end Transition
