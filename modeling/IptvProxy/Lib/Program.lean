import Mathlib.Tactic.Common

/-!
# Programs over commands

A `Program` issues commands `c : C`, gets an answer of type `A c` to each, and returns or throws.
It is syntax: the same program can be interleaved with others, command by command, or run alone
(`Runs`).

A `Protocol` says which commands are allowed in which phase and what the phase is after an answer.
`Follows π m p Q R`: from phase `p`, whatever the answers are, program `m` issues allowed commands
only, and ends with `Q` if it returns and with `R` if it throws. The rules `follows_*` go through a
program in its own order. A protocol may be an automaton over the commands, or have the states of a
system as its phases.
-/

namespace Effect

/-- A program that returns an `α` or throws an `E`. -/
inductive Program (C : Type) (A : C → Type) (E α : Type) : Type where
  | pure (a : α)
  | throw (e : E)
  | call (c : C) (k : A c → Program C A E α)

variable {C : Type} {A : C → Type} {E α β : Type}

namespace Program

/-- Run `m`, then `f` on what it returns. -/
protected def bind : Program C A E α → (α → Program C A E β) → Program C A E β
  | .pure a, f => f a
  | .throw e, _ => .throw e
  | .call c k, f => .call c fun x => (k x).bind f

instance : Monad (Program C A E) where
  pure := .pure
  bind := Program.bind

/-- Run `m` and return what it throws. -/
def attempt : Program C A E α → Program C A E (Except E α)
  | .pure a => .pure (.ok a)
  | .throw e => .pure (.error e)
  | .call c k => .call c fun x => (k x).attempt

instance : MonadExceptOf E (Program C A E) where
  throw := .throw
  tryCatch m h := m.attempt.bind fun
    | .ok a => .pure a
    | .error e => h e

/-- One command. -/
def perform (c : C) : Program C A E (A c) := .call c .pure

/-- A result that is at hand. -/
def ofExcept : Except E α → Program C A E α
  | .ok a => .pure a
  | .error e => .throw e

/-- Run `m`, and `fin` after it in either case. -/
def finallyDo (m : Program C A E α) (fin : Program C A E Unit) : Program C A E α := do
  let r ← m.attempt
  fin
  ofExcept r

end Program

/-- A protocol with phases `P`. -/
structure Protocol (C : Type) (A : C → Type) (P : Type) where
  /-- which commands may be issued -/
  allowed : P → C → Prop
  /-- the phase after an answer; `none` if there is no such answer -/
  next : P → (c : C) → A c → Option P

variable {P : Type} (π : Protocol C A P)

/-- Program `m` follows the protocol. -/
def Follows : Program C A E α → P → (α → P → Prop) → (E → P → Prop) → Prop
  | .pure a, p, Q, _ => Q a p
  | .throw e, p, _, R => R e p
  | .call c k, p, Q, R => π.allowed p c ∧ ∀ x q, π.next p c x = some q → Follows (k x) q Q R

variable {π} {m : Program C A E α} {f : α → Program C A E β} {p : P}
  {Q Q' : α → P → Prop} {R R' : E → P → Prop}

theorem Follows.mono (h : Follows π m p Q R) (hQ : ∀ a q, Q a q → Q' a q)
    (hR : ∀ e q, R e q → R' e q) : Follows π m p Q' R' := by
  induction m generalizing p with
  | pure a => exact hQ a p h
  | throw e => exact hR e p h
  | call c k ih => exact ⟨h.1, fun x q hq => ih x (h.2 x q hq)⟩

@[simp] theorem follows_pure {a : α} : Follows π (pure a : Program C A E α) p Q R ↔ Q a p := .rfl

@[simp] theorem follows_throw {e : E} :
    Follows π (throw e : Program C A E α) p Q R ↔ R e p := .rfl

@[simp] theorem follows_perform {c : C} {Q : A c → P → Prop} :
    Follows π (Program.perform c : Program C A E (A c)) p Q R ↔
      π.allowed p c ∧ ∀ x q, π.next p c x = some q → Q x q := .rfl

/-- The rule of the sequence. -/
@[simp] theorem follows_bind {Q : β → P → Prop} :
    Follows π (m >>= f) p Q R ↔ Follows π m p (fun a q => Follows π (f a) q Q R) R := by
  change Follows π (m.bind f) p Q R ↔ _
  induction m generalizing p with
  | pure a => rfl
  | throw e => rfl
  | call c k ih =>
    refine and_congr_right fun _ => forall_congr' fun x => forall_congr' fun q => ?_
    exact imp_congr_right fun _ => ih x

@[simp] theorem follows_attempt {Q : Except E α → P → Prop} :
    Follows π m.attempt p Q R ↔
      Follows π m p (fun a => Q (.ok a)) (fun e => Q (.error e)) := by
  induction m generalizing p with
  | pure a => rfl
  | throw e => rfl
  | call c k ih =>
    refine and_congr_right fun _ => forall_congr' fun x => forall_congr' fun q => ?_
    exact imp_congr_right fun _ => ih x

@[simp] theorem follows_ofExcept {r : Except E α} :
    Follows π (Program.ofExcept r) p Q R ↔
      (∀ a, r = .ok a → Q a p) ∧ (∀ e, r = .error e → R e p) := by
  cases r with
  | ok a => simp [Program.ofExcept, Follows]
  | error e => simp [Program.ofExcept, Follows]

@[simp] theorem follows_ite {b : Prop} [Decidable b] {m n : Program C A E α} :
    Follows π (if b then m else n) p Q R ↔
      (b → Follows π m p Q R) ∧ (¬b → Follows π n p Q R) := by
  split
  · next h => simp [h]
  · next h => simp [h]

@[simp] theorem follows_finallyDo {fin : Program C A E Unit} :
    Follows π (m.finallyDo fin) p Q R ↔
      Follows π m p (fun a q => Follows π fin q (fun _ => Q a) R)
        (fun e q => Follows π fin q (fun _ => R e) R) := by
  simp [Program.finallyDo]

/-! ## Sets of phases -/

variable (π) in
/-- Program `m` follows the protocol from every phase in `I`, and does not leave `I`. -/
def Within (I : P → Prop) (m : Program C A E α) : Prop :=
  ∀ p, I p → Follows π m p (fun _ => I) (fun _ => I)

namespace Within

variable {I : P → Prop}

theorem follows (h : Within π I m) (hp : I p) (hQ : ∀ a q, I q → Q a q)
    (hR : ∀ e q, I q → R e q) : Follows π m p Q R :=
  (h p hp).mono hQ hR

theorem pure {a : α} : Within π I (pure a : Program C A E α) := fun _ hp => hp

theorem throw {e : E} : Within π I (throw e : Program C A E α) := fun _ hp => hp

theorem bind (h : Within π I m) (hf : ∀ a, Within π I (f a)) : Within π I (m >>= f) :=
  fun _ hp => follows_bind.mpr (h.follows hp (fun a q hq => hf a q hq) fun _ _ hq => hq)

theorem perform {c : C} (hallowed : ∀ p, I p → π.allowed p c)
    (hnext : ∀ p x q, I p → π.next p c x = some q → I q) :
    Within π I (Program.perform c : Program C A E (A c)) :=
  fun _ hp => ⟨hallowed _ hp, fun x q hq => hnext _ x q hp hq⟩

theorem attempt (h : Within π I m) : Within π I m.attempt :=
  fun p hp => follows_attempt.mpr (h p hp)

theorem ite {b : Prop} [Decidable b] {m n : Program C A E α} (hm : Within π I m)
    (hn : Within π I n) : Within π I (if b then m else n) :=
  fun p hp => follows_ite.mpr ⟨fun _ => hm p hp, fun _ => hn p hp⟩

end Within

/-! ## What a program throws -/

/-- Whatever program `m` throws satisfies `J`. -/
def Throws (J : E → Prop) : Program C A E α → Prop
  | .pure _ => True
  | .throw e => J e
  | .call _ k => ∀ x, Throws J (k x)

namespace Throws

variable {J : E → Prop}

theorem pure {a : α} : Throws J (pure a : Program C A E α) := trivial

theorem throw {e : E} (h : J e) : Throws J (throw e : Program C A E α) := h

theorem perform {c : C} : Throws J (Program.perform c : Program C A E (A c)) := fun _ => trivial

theorem bind (h : Throws J m) (hf : ∀ a, Throws J (f a)) : Throws J (m >>= f) := by
  change Throws J (m.bind f)
  induction m with
  | pure a => exact hf a
  | throw e => exact h
  | call c k ih => exact fun x => ih x (h x)

theorem attempt : Throws J m.attempt := by
  induction m with
  | pure a => trivial
  | throw e => trivial
  | call c k ih => exact ih

theorem ite {b : Prop} [Decidable b] {m n : Program C A E α} (hm : Throws J m)
    (hn : Throws J n) : Throws J (if b then m else n) := by
  split
  · exact hm
  · exact hn

/-- Under a protocol that allows every command. -/
theorem follows (h : Throws J m) (hπ : ∀ p c, π.allowed p c) :
    Follows π m p (fun _ _ => True) (fun e _ => J e) := by
  induction m generalizing p with
  | pure a => trivial
  | throw e => exact h
  | call c k ih => exact ⟨hπ p c, fun x q _ => ih x (h x)⟩

end Throws

/-! ## Running alone -/

section Runs

variable {σ : Type} (effect : σ → (c : C) → A c → Option σ)

/-- From state `s`, program `m` may end with `r` in state `s'`. -/
inductive Runs : Program C A E α → σ → Except E α → σ → Prop where
  | pure {a : α} {s : σ} : Runs (.pure a) s (.ok a) s
  | throw {e : E} {s : σ} : Runs (.throw e) s (.error e) s
  | call {c : C} {k : A c → Program C A E α} {s s' s'' : σ} {x : A c} {r : Except E α}
      (heffect : effect s c x = some s') (hrest : Runs (k x) s' r s'') : Runs (.call c k) s r s''

/-- A run with answers that depend on the state. -/
def Program.runWith (answer : σ → (c : C) → A c) : Program C A E α → σ → Option (Except E α × σ)
  | .pure a, s => some (.ok a, s)
  | .throw e, s => some (.error e, s)
  | .call c k, s =>
    (effect s c (answer s c)).bind fun s' => (k (answer s c)).runWith answer s'

/-- The states of a system as phases, with every command allowed. -/
def Protocol.ofEffect : Protocol C A σ := ⟨fun _ _ => True, effect⟩

variable {effect}

theorem Runs.of_runWith {answer : σ → (c : C) → A c} {m : Program C A E α} {s s' : σ}
    {r : Except E α} (h : m.runWith effect answer s = some (r, s')) : Runs effect m s r s' := by
  induction m generalizing s with
  | pure a =>
    obtain ⟨rfl, rfl⟩ := Prod.mk.inj (Option.some.inj h)
    exact .pure
  | throw e =>
    obtain ⟨rfl, rfl⟩ := Prod.mk.inj (Option.some.inj h)
    exact .throw
  | call c k ih =>
    obtain ⟨s₁, h₁, hrest⟩ := Option.bind_eq_some_iff.mp h
    exact .call h₁ (ih _ hrest)

/-- What a program follows holds of its runs. -/
theorem Follows.of_runs {m : Program C A E α} {s s' : σ} {r : Except E α}
    {Q : α → σ → Prop} {R : E → σ → Prop} (h : Follows (.ofEffect effect) m s Q R)
    (hruns : Runs effect m s r s') : (∀ a, r = .ok a → Q a s') ∧ (∀ e, r = .error e → R e s') := by
  induction hruns with
  | pure =>
    refine ⟨?_, fun e he => (by cases he)⟩
    rintro _ ⟨⟩
    exact h
  | throw =>
    refine ⟨fun a ha => (by cases ha), ?_⟩
    rintro _ ⟨⟩
    exact h
  | call heffect _ ih => exact ih (h.2 _ _ heffect)

end Runs

end Effect
