import IptvProxy.Lib.ExpiringMap
import Mathlib.Logic.Relation

/-!
# Values published in generations

A store that replaces large values without ever exposing a partial one. A value is a list of
pieces; every replacement writes its pieces under a fresh **generation** number, with an expiry,
and then swings the key's pointer to the generation in one step that also lifts the expiry.
Readers take a **lease** on the generation the pointer shows. A generation that loses its pointer
is deleted by the agent that took the pointer away, or, if it is leased, by the last reader to
release it; until then it is **retired** and has an expiry again.

Agents run concurrently; `Role` says what an agent is in the middle of. The steps below put no
condition on who may replace a value when: two agents may race for one key. `Inv` is what holds
anyway; what needs the replacing agent to know the current pointer is in
`IptvProxy.Lib.GenerationOwnership`.
-/

namespace GenerationStore

universe u v w

/-- Where a piece of a generation is stored. -/
structure Chunk (K : Type u) : Type u where
  /-- the key -/
  key : K
  /-- the generation -/
  generation : ℕ
  /-- the position of the piece -/
  index : ℕ
  deriving DecidableEq

/-- The pointer of a key: a generation, how many pieces it has, and what is said about it. -/
structure Pointer (M : Type w) : Type w where
  /-- the generation -/
  generation : ℕ
  /-- the number of pieces -/
  count : ℕ
  /-- its description -/
  info : M

/-- A published value. -/
structure Version (K : Type u) (V : Type v) (M : Type w) : Type max u v w where
  /-- the key it was published under -/
  key : K
  /-- its generation -/
  generation : ℕ
  /-- its pieces in order -/
  pieces : List V
  /-- its description -/
  info : M

/-- The pointer a version is published with. -/
def Version.pointer {K : Type u} {V : Type v} {M : Type w} (v : Version K V M) : Pointer M :=
  ⟨v.generation, v.pieces.length, v.info⟩

/-- A generation that waits for its readers. -/
structure Retired (K : Type u) : Type u where
  /-- its key -/
  key : K
  /-- the generation -/
  generation : ℕ
  /-- its number of pieces -/
  count : ℕ
  deriving DecidableEq

/-- What is to be deleted of the generation a pointer shows: nothing if it has no pieces. -/
def Pointer.retired {K : Type u} {M : Type w} (p : Pointer M) (key : K) : Option (Retired K) :=
  if 0 < p.count then some ⟨key, p.generation, p.count⟩ else none

/-- What an agent is in the middle of. -/
inductive Role (K : Type u) (V : Type v) (M : Type w) : Type max u v w where
  /-- nothing -/
  | idle
  /-- a replacement that has read the pointer -/
  | holding (key : K) (old : Option (Pointer M))
  /-- a replacement that has written `written` of its pieces -/
  | staging (key : K) (old : Option (Pointer M)) (generation : ℕ) (pieces : List V) (written : ℕ)
  /-- deleting pieces `i … count-1` of a generation -/
  | cleaning (key : K) (generation count i : ℕ)
  /-- giving an expiry to pieces `i … count-1` of a generation -/
  | expiring (key : K) (generation count i : ℕ)

/-- An agent: its lease and its role. -/
structure Agent (K : Type u) (V : Type v) (M : Type w) : Type max u v w where
  /-- the leased generation -/
  lease : Option (K × ℕ)
  /-- what it is doing -/
  role : Role K V M

/-- The store and its agents. -/
structure Store (K : Type u) (V : Type v) (M : Type w) : Type max u v w where
  /-- the clock -/
  now : ℕ
  /-- the pointer of every key -/
  active : K → Option (Pointer M)
  /-- the pieces -/
  chunks : ExpiringMap (Chunk K) V
  /-- how many leases a generation has -/
  readers : K × ℕ → ℕ
  /-- the generations that wait for their readers -/
  retired : K × ℕ → Option (Retired K)
  /-- the agents -/
  agents : List (Agent K V M)
  /-- the next generation number -/
  nextID : ℕ
  /-- everything published so far, the newest first -/
  published : List (Version K V M)

variable {K : Type u} {V : Type v} {M : Type w}

namespace Role

/-- Start deleting a generation. -/
def clean (key : K) (generation count : ℕ) : Role K V M :=
  if 0 < count then .cleaning key generation count 0 else .idle

/-- Start expiring a generation. -/
def expire (key : K) (generation count : ℕ) : Role K V M :=
  if 0 < count then .expiring key generation count 0 else .idle

/-- The generation the agent is writing. -/
def stages : Role K V M → Option ℕ
  | .staging _ _ g _ _ => some g
  | _ => none

/-- The generation whose pieces the agent writes, deletes or expires. -/
def uses : Role K V M → Option ℕ
  | .staging _ _ g _ _ => some g
  | .cleaning _ g _ _ => some g
  | .expiring _ g _ _ => some g
  | _ => none

theorem uses_of_stages {r : Role K V M} {g : ℕ} (h : r.stages = some g) : r.uses = some g := by
  cases r <;> simp_all [stages, uses]

@[simp] theorem stages_clean (k : K) (g n : ℕ) :
    (clean k g n : Role K V M).stages = none := by
  unfold clean
  split <;> rfl

@[simp] theorem stages_expire (k : K) (g n : ℕ) :
    (expire k g n : Role K V M).stages = none := by
  unfold expire
  split <;> rfl

theorem uses_clean {k : K} {g n g' : ℕ} (h : (clean k g n : Role K V M).uses = some g') :
    g' = g := by
  unfold clean at h
  split at h
  · exact (Option.some.inj h).symm
  · cases h

theorem uses_expire {k : K} {g n g' : ℕ} (h : (expire k g n : Role K V M).uses = some g') :
    g' = g := by
  unfold expire at h
  split at h
  · exact (Option.some.inj h).symm
  · cases h

end Role

namespace Store

variable [DecidableEq K]

/-- Replace an agent. -/
def setAgent (s : Store K V M) (i : ℕ) (a : Agent K V M) : Store K V M :=
  { s with agents := s.agents.set i a }

/-- Give agent `i`, whose lease is `l`, a new role. -/
def setRole (s : Store K V M) (i : ℕ) (l : Option (K × ℕ)) (r : Role K V M) : Store K V M :=
  s.setAgent i ⟨l, r⟩

/-- Lift the expiry of pieces `0 … n-1`. -/
def persistAll (c : ExpiringMap (Chunk K) V) (now : ℕ) (key : K) (g : ℕ) :
    ℕ → ExpiringMap (Chunk K) V
  | 0 => c
  | n + 1 => (persistAll c now key g n).persist now ⟨key, g, n⟩

/-- Take a generation out of use: it is retired if it has readers, and deleted otherwise. -/
def retire (s : Store K V M) (i : ℕ) (l : Option (K × ℕ)) (r : Retired K) : Store K V M :=
  if 0 < s.readers (r.key, r.generation) then
    { s with retired := Function.update s.retired (r.key, r.generation) (some r) }.setRole i l
      (.expire r.key r.generation r.count)
  else s.setRole i l (.clean r.key r.generation r.count)

/-- The generation that a replacement by generation `g` takes out of use. -/
def replaced (key : K) (old : Option (Pointer M)) (g : ℕ) : Option (Retired K) :=
  old.bind fun p => if p.generation = g then none else p.retired key

/-- The effect of publishing on the pieces and the pointer. -/
def publish (s : Store K V M) (v : Version K V M) : Store K V M :=
  { s with
    chunks := persistAll s.chunks s.now v.key v.generation v.pieces.length
    active := Function.update s.active v.key (some v.pointer)
    published := v :: s.published }

/-- Drop the lease `l`: the readers and the retired generations after it, and the generation the
agent has to delete. -/
def unpin (s : Store K V M) (l : K × ℕ) : Store K V M × Option (Retired K) :=
  if 1 < s.readers l then
    ({ s with readers := Function.update s.readers l (s.readers l - 1) }, none)
  else
    ({ s with
        readers := Function.update s.readers l 0
        retired := Function.update s.retired l none },
      s.retired l)

end Store

/-- What a step is, as far as the conditions on runs distinguish it. -/
inductive Label where
  /-- no condition mentions it -/
  | other
  /-- agent `i` swings the pointer -/
  | swap (i : ℕ)
  /-- agent `i` deletes a piece, or fails to -/
  | clean (i : ℕ) (applied : Bool)
  /-- agent `i` expires a piece, or fails to -/
  | expire (i : ℕ) (applied : Bool)
  /-- all agents and the memory of leases and retirements are lost -/
  | crash

variable [DecidableEq K]

open Store in
/-- The steps of the store. -/
inductive Step : Store K V M → Label → Store K V M → Prop where
  /-- a replacement reads the pointer, or ignores it -/
  | load {s : Store K V M} {i l k old} (hi : s.agents[i]? = some ⟨l, .idle⟩)
      (hold : old = none ∨ old = s.active k) : Step s .other (s.setRole i l (.holding k old))
  /-- a replacement gives up before it writes anything -/
  | drop {s : Store K V M} {i l k old} (hi : s.agents[i]? = some ⟨l, .holding k old⟩) :
      Step s .other (s.setRole i l .idle)
  /-- a replacement gets its pieces and a fresh generation -/
  | stage {s : Store K V M} {i l k old} (pieces : List V)
      (hi : s.agents[i]? = some ⟨l, .holding k old⟩) :
      Step s .other
        { s.setRole i l (.staging k old s.nextID pieces 0) with nextID := s.nextID + 1 }
  /-- a replacement writes its next piece, with an expiry -/
  | write {s : Store K V M} {i l k old g pieces j v} (d : ℕ)
      (hi : s.agents[i]? = some ⟨l, .staging k old g pieces j⟩) (hv : pieces[j]? = some v) :
      Step s .other
        ({ s with chunks := s.chunks.set ⟨k, g, j⟩ v (some d) }.setRole i l
          (.staging k old g pieces (j + 1)))
  /-- a replacement gives up and deletes what it wrote -/
  | abandon {s : Store K V M} {i l k old g pieces j}
      (hi : s.agents[i]? = some ⟨l, .staging k old g pieces j⟩) :
      Step s .other (s.setRole i l (.clean k g j))
  /-- a replacement publishes: all pieces are there -/
  | swap {s : Store K V M} {i l k old g pieces} (info : M)
      (hi : s.agents[i]? = some ⟨l, .staging k old g pieces pieces.length⟩)
      (hall : ∀ j < pieces.length, s.chunks.has s.now ⟨k, g, j⟩ = true) :
      Step s (.swap i)
        (match replaced k old g with
          | none => (s.publish ⟨k, g, pieces, info⟩).setRole i l .idle
          | some r => (s.publish ⟨k, g, pieces, info⟩).retire i l r)
  /-- the next piece is deleted, or the deletion fails -/
  | clean {s : Store K V M} {i l k g n j} (applied : Bool)
      (hi : s.agents[i]? = some ⟨l, .cleaning k g n j⟩) :
      Step s (.clean i applied)
        ({ s with
            chunks := if applied then s.chunks.del ⟨k, g, j⟩ else s.chunks }.setRole i l
          (if j + 1 < n then .cleaning k g n (j + 1) else .idle))
  /-- the next piece gets an expiry, or that fails -/
  | expire {s : Store K V M} {i l k g n j} (applied : Bool) (d : ℕ)
      (hi : s.agents[i]? = some ⟨l, .expiring k g n j⟩) :
      Step s (.expire i applied)
        ({ s with
            chunks := if applied then s.chunks.expire s.now ⟨k, g, j⟩ d else s.chunks }.setRole i l
          (if j + 1 < n then .expiring k g n (j + 1) else .idle))
  /-- a reader takes a lease on the generation the pointer shows -/
  | pin {s : Store K V M} {i k p} (hi : s.agents[i]? = some ⟨none, .idle⟩)
      (hp : s.active k = some p) (hcount : 0 < p.count) :
      Step s .other
        ({ s with
            readers := Function.update s.readers (k, p.generation)
              (s.readers (k, p.generation) + 1) }.setRole i (some (k, p.generation)) .idle)
  /-- a reader drops its lease; the last one deletes a retired generation -/
  | unpin {s : Store K V M} {i l} (hi : s.agents[i]? = some ⟨some l, .idle⟩) :
      Step s .other
        ((s.unpin l).1.setRole i none
          (match (s.unpin l).2 with
            | none => .idle
            | some r => .clean r.key r.generation r.count))
  /-- an agent removes the pointer of a key -/
  | remove {s : Store K V M} {i l k} (hi : s.agents[i]? = some ⟨l, .idle⟩) :
      Step s .other
        (match (s.active k).bind fun p => p.retired k with
          | none => { s with active := Function.update s.active k none }
          | some r => { s with active := Function.update s.active k none }.retire i l r)
  /-- a new agent -/
  | spawn {s : Store K V M} :
      Step s .other { s with agents := s.agents ++ [⟨none, .idle⟩] }
  /-- a number is used for something else -/
  | newID {s : Store K V M} : Step s .other { s with nextID := s.nextID + 1 }
  /-- time passes -/
  | tick {s : Store K V M} (d : ℕ) : Step s .other { s with now := s.now + d }
  /-- a crash: what is stored survives, the agents do not -/
  | crash {s : Store K V M} :
      Step s .crash
        { s with
          readers := fun _ => 0
          retired := fun _ => none
          agents := s.agents.map fun _ => ⟨none, .idle⟩ }

end GenerationStore
