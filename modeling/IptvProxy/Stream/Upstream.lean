import IptvProxy.Stream.Delivery

/-!
# One upstream for a key

A session is registered when it is created, under the same lock, and leaves the map in `finish`
only, after its context was cancelled. So a session whose context is not cancelled is the one the
map holds for its key, and a session whose goroutine has returned is cancelled and not in the map
(`one_upstream`).
-/

namespace IptvProxy.Stream

open Transition

universe u

variable {C : Type u}

/-- `run` is behind the `s.cancel()` of `finish`. -/
def Session.finishing (x : Session C) : Bool :=
  match x.pump with
  | .sweep | .closeDone | .unregister | .ended => true
  | _ => false

/-- What every move of a session keeps, its last step apart. -/
structure Session.Later (x y : Session C) : Prop where
  /-- the key -/
  key : y.key = x.key
  /-- a cancelled context stays cancelled -/
  cancelled : y.cancelled = false → x.cancelled = false
  /-- `finish` cancels first -/
  finishing : (x.finishing = true → x.cancelled = true) → y.finishing = true → y.cancelled = true
  /-- `run` has not returned yet -/
  ended : y.pump = .ended → x.pump = .ended

/-- What a step does to the map and the sessions. -/
inductive State.Shift (s t : State C) : Prop where
  /-- nothing -/
  | same (hreg : t.registry = s.registry) (h : t.sessions = s.sessions)
  /-- a session moves -/
  | later {n : ℕ} {x y : Session C} (hreg : t.registry = s.registry)
    (hn : s.sessions[n]? = some x) (hy : x.Later y) (h : t.sessions = s.sessions.set n y)
  /-- a session is created for a key that has none -/
  | create {key : String} (hnone : s.registry key = none)
    (hreg : t.registry = Function.update s.registry key (some s.sessions.length))
    (h : t.sessions = s.sessions ++ [.fresh key])
  /-- a session leaves the map, and its goroutine returns -/
  | unregister {n : ℕ} {x : Session C} (hn : s.sessions[n]? = some x) (hp : x.pump = .unregister)
    (hreg : t.registry = (s.unregister n x).registry)
    (h : t.sessions = s.sessions.set n (x.goto .ended))

/-- The map and the sessions. -/
structure State.Registered (s : State C) : Prop where
  /-- a session with a live context is the one in the map -/
  live : ∀ (n : ℕ) x, s.sessions[n]? = some x → x.cancelled = false → s.registry x.key = some n
  /-- `finish` cancels first -/
  finishing : ∀ (n : ℕ) x, s.sessions[n]? = some x → x.finishing = true → x.cancelled = true
  /-- a session in the map still has its goroutine -/
  listed : ∀ key n, s.registry key = some n → ∃ x, s.sessions[n]? = some x ∧ x.key = key ∧
    x.pump ≠ .ended

/-! ## Steps -/

namespace Session

variable {x y : Session C}

/-- A caller's move leaves the goroutine where it is. -/
theorem Later.of_caller (hkey : y.key = x.key) (hpump : y.pump = x.pump)
    (hcancelled : x.cancelled = true → y.cancelled = true) : x.Later y where
  key := hkey
  cancelled hy := by
    rcases hx : x.cancelled with _ | _
    · rfl
    · rw [hcancelled hx] at hy
      cases hy
  finishing h hy := by
    rw [Session.finishing, hpump] at hy
    exact hcancelled (h hy)
  ended h := hpump ▸ h

theorem later_of_step {ch : Choice C} (hs : x.step ch = some y) : x.Later y := by
  unfold step at hs
  split at hs <;> split at hs <;> try split at hs
  all_goals cases hs
  all_goals refine ⟨rfl, ?_, ?_, ?_⟩
  all_goals first
    -- `s.cancel()`
    | exact fun _ _ => rfl
    | exact id
    | rintro ⟨⟩
    -- elsewhere `run` does not get behind it
    | (rintro - ⟨⟩; done)
    -- the sweep and `close(s.done)`
    | (rintro h -; apply h; simp [finishing, *])

end Session

/-- The step of a caller that works with a session. -/
theorem shift_of_stepWith {s t : State C} {i n : ℕ} {x : Session C} {pc : Pc} {b : Branch}
    (hx : s.sessions[n]? = some x) (h : stepWith s i n x pc b = some t) : s.Shift t := by
  have hlater : ∀ {y : Session C} {pc : Pc}, y.key = x.key → y.pump = x.pump →
      (x.cancelled = true → y.cancelled = true) → s.Shift ((s.update n y).goto i pc) :=
    fun hkey hpump hcancelled => .later rfl hx (.of_caller hkey hpump hcancelled) rfl
  cases pc with
  | cancel m =>
    cases b <;> cases h
    exact hlater rfl rfl fun _ => rfl
  | closeStart m v =>
    cases b <;> cases h
    exact hlater rfl rfl id
  | addViewer m | remove m v =>
    cases b <;> simp only [stepWith] at h
    all_goals try split at h
    all_goals cases h
    exact hlater rfl rfl id
  | next m v | nextClosed m v =>
    cases b <;> simp only [stepWith] at h
    case go =>
      obtain ⟨w, -, rfl⟩ := Option.map_eq_some_iff.mp h
      split
      all_goals first
        | exact .same rfl rfl
        | exact hlater rfl rfl id
    all_goals cases h
  | nextWait m v =>
    cases b <;> simp only [stepWith] at h
    case go =>
      obtain ⟨w, -, h⟩ := Option.bind_eq_some_iff.mp h
      split at h <;> cases h
      exact hlater rfl rfl id
    case ctxDone =>
      cases h
      exact .same rfl rfl
    case closed =>
      obtain ⟨w, -, h⟩ := Option.bind_eq_some_iff.mp h
      split at h <;> cases h
      exact .same rfl rfl
  | _ =>
    cases b <;> simp only [stepWith] at h
    all_goals try split at h
    all_goals cases h
    all_goals exact .same rfl rfl

/-- **Inversion of a step** for the map. -/
theorem shift_of_step {s t : State C} {a : Action C} (ht : step s a = some t) : s.Shift t := by
  cases a with
  | run i b =>
    obtain ⟨pc, -, h⟩ := Option.bind_eq_some_iff.mp ht
    unfold stepThread at h
    split at h
    · obtain rfl := Option.some.inj h
      split
      · exact .same rfl rfl
      · next hnone => exact .create hnone rfl rfl
    · obtain ⟨n, -, h⟩ := Option.bind_eq_some_iff.mp h
      obtain ⟨x, hx, h⟩ := Option.bind_eq_some_iff.mp h
      exact shift_of_stepWith hx h
  | pump n ch =>
    obtain ⟨x, hx, h⟩ := Option.bind_eq_some_iff.mp ht
    unfold stepPump at h
    split at h
    · next hp =>
      obtain rfl := Option.some.inj h
      exact .unregister hx hp rfl rfl
    · obtain ⟨y, hy, rfl⟩ := Option.map_eq_some_iff.mp h
      exact .later rfl hx (Session.later_of_step hy) rfl
  | _ =>
    obtain rfl := Option.some.inj ht
    exact .same rfl rfl

namespace State

variable {s t : State C}

theorem unregister_of_ne {n : ℕ} {x : Session C} {key : String}
    (h : s.registry key ≠ some n) : (s.unregister n x).registry key = s.registry key := by
  rw [unregister]
  dsimp only
  split
  · next hreg =>
    have hkey : key ≠ x.key := by
      rintro rfl
      exact h hreg
    rw [Function.update_of_ne hkey]
  · rfl

theorem unregister_self {n : ℕ} {x : Session C} :
    (s.unregister n x).registry x.key ≠ some n := by
  rw [unregister]
  dsimp only
  split
  · rw [Function.update_self]
    rintro ⟨⟩
  · assumption

theorem Registered.step (h : s.Registered) (hst : s.Shift t) : t.Registered := by
  cases hst with
  | same hreg hsess =>
    constructor
    · rw [hreg, hsess]
      exact h.live
    · rw [hsess]
      exact h.finishing
    · rw [hreg, hsess]
      exact h.listed
  | @later n x y hreg hn hy hsess =>
    constructor
    · intro m z hz hlive
      rw [hsess] at hz
      rw [hreg]
      rcases Agents.getElem?_set_cases hz with ⟨rfl, rfl⟩ | ⟨-, hz⟩
      · rw [hy.key]
        exact h.live m x hn (hy.cancelled hlive)
      · exact h.live m z hz hlive
    · intro m z hz hfin
      rw [hsess] at hz
      rcases Agents.getElem?_set_cases hz with ⟨rfl, rfl⟩ | ⟨-, hz⟩
      · exact hy.finishing (h.finishing m x hn) hfin
      · exact h.finishing m z hz hfin
    · intro key m hm
      rw [hreg] at hm
      obtain ⟨z, hz, hkey, hp⟩ := h.listed key m hm
      by_cases hmn : m = n
      · subst hmn
        obtain rfl := Option.some.inj (hz.symm.trans hn)
        refine ⟨y, by rw [hsess]; exact Agents.getElem?_set_of_some hn, hy.key.trans hkey, ?_⟩
        exact fun he => hp (hy.ended he)
      · exact ⟨z, by rw [hsess, List.getElem?_set_ne (Ne.symm hmn)]; exact hz, hkey, hp⟩
  | @create key hnone hreg hsess =>
    constructor
    · intro m z hz hlive
      rw [hsess] at hz
      rw [hreg]
      rcases Agents.getElem?_append_places hz with hz | ⟨rfl, rfl⟩
      · have hold := h.live m z hz hlive
        -- the key was free, so it is not the key of a live session
        have hne : z.key ≠ key := by
          intro heq
          rw [heq, hnone] at hold
          cases hold
        rw [Function.update_of_ne hne]
        exact hold
      · exact Function.update_self ..
    · intro m z hz hfin
      rw [hsess] at hz
      rcases Agents.getElem?_append_cases hz with hz | rfl
      · exact h.finishing m z hz hfin
      · cases hfin
    · intro key' m hm
      rw [hreg] at hm
      by_cases hkey : key' = key
      · subst hkey
        rw [Function.update_self] at hm
        obtain rfl := Option.some.inj hm
        exact ⟨_, by rw [hsess]; exact List.getElem?_concat_length, rfl, fun hp => by cases hp⟩
      · rw [Function.update_of_ne hkey] at hm
        obtain ⟨z, hz, hrest⟩ := h.listed key' m hm
        exact ⟨z, by rw [hsess]; exact Agents.getElem?_append_of_some hz, hrest⟩
  | @unregister n x hn hp hreg hsess =>
    -- a session leaves the registry only when it is cancelled, so no live one is lost
    have hdown : x.cancelled = true := h.finishing n x hn (by rw [Session.finishing, hp])
    constructor
    · intro m z hz hlive
      rw [hsess] at hz
      rw [hreg]
      rcases Agents.getElem?_set_cases hz with ⟨rfl, rfl⟩ | ⟨hmn, hz⟩
      · rw [show (x.goto .ended).cancelled = x.cancelled from rfl, hdown] at hlive
        cases hlive
      · have hold := h.live m z hz hlive
        rw [unregister_of_ne]
        · exact hold
        · rw [hold]
          exact fun heq => hmn (Option.some.inj heq)
    · intro m z hz hfin
      rw [hsess] at hz
      rcases Agents.getElem?_set_cases hz with ⟨rfl, rfl⟩ | ⟨-, hz⟩
      · exact hdown
      · exact h.finishing m z hz hfin
    · intro key m hm
      rw [hreg] at hm
      have hmn : m ≠ n := by
        rintro rfl
        by_cases hkey : s.registry key = some m
        · obtain ⟨z, hz, rfl, -⟩ := h.listed key m hkey
          obtain rfl := Option.some.inj (hz.symm.trans hn)
          exact unregister_self hm
        · rw [unregister_of_ne hkey] at hm
          exact hkey hm
      -- what is still registered was registered before
      have hold : s.registry key = some m := by
        by_cases hkey : s.registry key = some n
        · obtain ⟨z, hz, rfl, -⟩ := h.listed key n hkey
          obtain rfl := Option.some.inj (hz.symm.trans hn)
          rw [unregister] at hm
          dsimp only at hm
          rw [if_pos hkey, Function.update_self] at hm
          cases hm
        · rwa [unregister_of_ne hkey] at hm
      obtain ⟨z, hz, hrest⟩ := h.listed key m hold
      exact ⟨z, by rw [hsess, List.getElem?_set_ne (Ne.symm hmn)]; exact hz, hrest⟩

end State

/-! ## The result -/

theorem registered_of_run {ok : State C → Action C → Prop} {s : State C}
    (h : Run step ok init s) : s.Registered := by
  refine h.invariant (I := State.Registered) (fun s a t hs _ ht => hs.step (shift_of_step ht)) ?_
  constructor <;> rintro _ _ ⟨⟩

/-- **One live upstream for a key, and none is leaked.** In every state, a session whose context is
not cancelled is the one in the map, so a key has at most one; and in a state in which all
goroutines have returned, all contexts are cancelled and the map is empty. -/
theorem one_upstream {s : State C} (h : Run step (fun _ _ => True) init s) :
    (∀ (n : ℕ) x, s.sessions[n]? = some x → x.cancelled = false → s.registry x.key = some n) ∧
    (∀ (n m : ℕ) x y, s.sessions[n]? = some x → s.sessions[m]? = some y → x.key = y.key →
      x.cancelled = false → y.cancelled = false → n = m) ∧
    ((∀ x ∈ s.sessions, x.pump = .ended) →
      (∀ x ∈ s.sessions, x.cancelled = true) ∧ ∀ key, s.registry key = none) := by
  have hreg := registered_of_run h
  refine ⟨hreg.live, ?_, fun hended => ⟨?_, ?_⟩⟩
  · intro n m x y hn hm hkey hx hy
    have hlive := hreg.live n x hn hx
    rw [hkey, hreg.live m y hm hy] at hlive
    exact (Option.some.inj hlive).symm
  · intro x hx
    obtain ⟨n, hn⟩ := List.mem_iff_getElem?.mp hx
    exact hreg.finishing n x hn (by rw [Session.finishing, hended x hx])
  · intro key
    rcases hkey : s.registry key with _ | n
    · rfl
    · obtain ⟨x, hx, -, hp⟩ := hreg.listed key n hkey
      exact absurd (hended x (List.mem_of_getElem? hx)) hp

/-- A caller gives up before the stream is opened. -/
def givenUp : List (Action Unit) :=
  [.subscribe "k", .run 0 .go, .run 0 .ctxDone, .run 0 .go, .run 0 .go,
    .pump 0 (.opened (some "context canceled")), .pump 0 .go, .pump 0 .go, .pump 0 .go,
    .pump 0 .go, .pump 0 .go]

/-- Its session is reclaimed. -/
theorem one_upstream_givenUp :
    ∃ s : State Unit, Run step (fun _ _ => True) init s ∧ s.sessions.length = 1 ∧
      (∀ x ∈ s.sessions, x.cancelled = true) ∧ ∀ key, s.registry key = none := by
  have h : (exec step init givenUp).map (fun s : State Unit => s.sessions.map Session.pump) =
      some [.ended] := by
    decide +kernel
  obtain ⟨s, hrun, hpumps⟩ := Run.of_eval (fun _ _ _ => trivial) h
  have hended : ∀ x ∈ s.sessions, x.pump = .ended := by
    intro x hx
    have hmem : x.pump ∈ s.sessions.map Session.pump := List.mem_map_of_mem hx
    rw [hpumps] at hmem
    exact List.mem_singleton.mp hmem
  have hlength : s.sessions.length = 1 := by
    rw [← List.length_map Session.pump, hpumps, List.length_singleton]
  exact ⟨s, hrun, hlength, (one_upstream hrun).2.2 hended⟩

end IptvProxy.Stream
