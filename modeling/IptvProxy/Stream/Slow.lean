import IptvProxy.Stream.Delivery

/-!
# Slow viewers

`broadcast` waits for a viewer that is alone and drops a viewer that is not. How many there are is
counted before it waits, so a second viewer that is inserted meanwhile waits with it for the first
(`joins_blocked_pump`). `slow_viewer_stalls_nobody` says that this is the only way: otherwise a
broadcast to two viewers or more comes to its end by steps of the goroutine `run` alone.
-/

namespace IptvProxy.Stream

open Transition

universe u

variable {C : Type u}

namespace Session

/-- `broadcast` waits for its only viewer, whose queue is full. -/
def blocked (x : Session C) : Bool :=
  match x.pump with
  | .sendOnly v _ _ => (x.viewers[v]?.map fun w => !w.hasRoom && !w.closed).getD false
  | _ => false

/-- A viewer that is waited for is alone. -/
def Alone (x : Session C) : Prop :=
  x.cancelled = false → x.blocked = true → ∀ v c last, x.pump = .sendOnly v c last →
    ∀ (u : ℕ) w, x.viewers[u]? = some w → w.member = true → u = v

/-- A broadcast is under way. -/
def broadcasting (x : Session C) : Bool :=
  match x.pump with
  | .look _ _ | .sendOnly _ _ _ | .lockAll _ _ | .sendAll _ _ _ | .cancelEmpty _
  | .endOfRead _ => true
  | _ => false

/-- Steps of the goroutine `run` alone. -/
abbrev PumpRun : Session C → Session C → Prop :=
  Relation.ReflTransGen fun x y => ∃ ch, x.step ch = some y

variable {x y : Session C}

/-! ## The invariant -/

/-- The only viewer is counted under the lock. -/
theorem members_of_step {ch : Choice C} (hs : x.step ch = some y) {v : ℕ} {c : C} {last : Bool}
    (hp : y.pump = .sendOnly v c last) :
    x.members = [v] ∧ ∃ k, y.viewers = x.viewers.map (Viewer.seen k) := by
  unfold step at hs
  split at hs <;> split at hs <;> try split at hs
  all_goals cases hs
  all_goals first
    | (cases hp; exact ⟨‹x.members = [_]›, _, rfl⟩)
    | cases hp
    -- the sweep stays where it is
    | (rename_i hsweep _; exact absurd (hsweep.symm.trans hp) (by rintro ⟨⟩))

theorem Alone.modify (h : x.Alone) {v : ℕ} {f : Viewer C → Viewer C}
    (hmember : ∀ w, (f w).member = true → w.member = true)
    (hfull : ∀ w, (f w).hasRoom = false → (f w).closed = false →
      w.hasRoom = false ∧ w.closed = false) : (x.modify v f).Alone := by
  intro hlive hblocked u c last hp
  have hp' : x.pump = .sendOnly u c last := hp
  have hold : x.blocked = true := by
    rw [blocked, hp] at hblocked
    rw [blocked, hp']
    dsimp only at hblocked ⊢
    by_cases hvu : u = v
    · subst hvu
      rcases hw : x.viewers[u]? with _ | w
      · rw [Session.modify, List.getElem?_modify, hw] at hblocked
        cases hblocked
      · rw [getElem?_modify_self hw] at hblocked
        simp only [Option.map_some, Option.getD_some, Bool.and_eq_true, Bool.not_eq_true'] at *
        exact hfull w hblocked.1 hblocked.2
    · rwa [getElem?_modify_ne hvu] at hblocked
  intro u' w hu' hw
  obtain ⟨w₀, hw₀, ⟨rfl, rfl⟩ | ⟨-, rfl⟩⟩ := modify_cases hu'
  · exact h hlive hold u c last hp' _ w₀ hw₀ (hmember w₀ hw)
  · exact h hlive hold u c last hp' _ w hw₀ hw

theorem blocked_insert : (x.insert).blocked = x.blocked := by
  rw [blocked, blocked, show x.insert.pump = x.pump from rfl]
  split
  · next v _ _ _ =>
    rw [show x.insert.viewers = x.viewers ++ [.fresh] from rfl]
    rcases Nat.lt_trichotomy v x.viewers.length with hlt | rfl | hgt
    · rw [List.getElem?_append_left hlt]
    · rw [List.getElem?_concat_length, List.getElem?_eq_none (Nat.le_refl _)]
      rfl
    · rw [List.getElem?_eq_none (by simp; omega), List.getElem?_eq_none (Nat.le_of_lt hgt)]
  · rfl

/-- **Every move keeps it**, if nobody joins while the goroutine waits. -/
theorem Alone.evolves (h : x.Alone)
    (hy : x.Evolves (fun x => x.cancelled = false → x.blocked = false) y) : y.Alone := by
  cases hy with
  | pump ch hs =>
    intro _ _ v c last hp u w hu hw
    obtain ⟨hmembers, k, hviewers⟩ := members_of_step hs hp
    rw [hviewers, List.getElem?_map, Option.map_eq_some_iff] at hu
    obtain ⟨w₀, hw₀, rfl⟩ := hu
    have hmem : u ∈ x.members := mem_members.mpr ⟨w₀, hw₀, hw⟩
    rw [hmembers] at hmem
    exact List.mem_singleton.mp hmem
  | unregister hp =>
    intro _ hblocked
    cases hblocked
  | insert hmu hok =>
    intro hlive hblocked
    rw [blocked_insert, hok hlive] at hblocked
    cases hblocked
  | remove v hmu =>
    refine h.modify (fun w hw => ?_) fun w hroom hopen => ?_
    · split at hw
      · cases hw
      · exact hw
    · split at hopen
      · cases hopen
      · next hm =>
        rw [if_neg hm] at hroom
        exact ⟨hroom, hopen⟩
  | cancel =>
    intro hlive
    cases hlive
  | closeStart => exact h
  | take =>
    refine h.modify (fun _ hw => hw) fun w hroom hopen => ⟨?_, hopen⟩
    simp only [Viewer.hasRoom, Viewer.take, List.length_tail, decide_eq_false_iff_not] at hroom ⊢
    omega
  | eof => exact h.modify (fun _ hw => hw) fun w hroom hopen => ⟨hroom, hopen⟩

/-! ## The end of a broadcast -/

theorem ends_of_endOfRead {last : Bool} (hp : x.pump = .endOfRead last) :
    ∃ y, PumpRun x y ∧ (y.pump = .read ∨ y.pump = .finish) := by
  refine ⟨x.goto (if last || x.cancelled then .finish else .read), .single ⟨.go, ?_⟩, ?_⟩
  · rw [step, hp]
  · rw [goto]
    dsimp only
    split
    · exact .inr rfl
    · exact .inl rfl

theorem ends_of_step {ch : Choice C} (hs : x.step ch = some y)
    (hy : ∃ z, PumpRun y z ∧ (z.pump = .read ∨ z.pump = .finish)) :
    ∃ z, PumpRun x z ∧ (z.pump = .read ∨ z.pump = .finish) := by
  obtain ⟨z, hrun, hz⟩ := hy
  exact ⟨z, .head ⟨ch, hs⟩ hrun, hz⟩

theorem ends_of_go (hs : x.step .go = some y)
    (hy : ∃ z, PumpRun y z ∧ (z.pump = .read ∨ z.pump = .finish)) :
    ∃ z, PumpRun x z ∧ (z.pump = .read ∨ z.pump = .finish) :=
  ends_of_step hs hy

/-- The loop under the lock serves one viewer after the other. -/
theorem ends_of_sendAll {c : C} {last : Bool} (todo : List ℕ)
    (hp : x.pump = .sendAll c todo last) :
    ∃ y, PumpRun x y ∧ (y.pump = .read ∨ y.pump = .finish) := by
  induction todo generalizing x with
  | nil =>
    have hs : x.step .go = some (x.goto (if x.isEmpty then .cancelEmpty last else .endOfRead last)) := by
      rw [step, hp]
    refine ends_of_step hs ?_
    split
    · exact ends_of_go rfl (ends_of_endOfRead rfl)
    · exact ends_of_endOfRead rfl
  | cons v todo ih =>
    have hs : x.step (.visit v) = some ((x.modify v (offer c)).goto (.sendAll c todo last)) := by
      rw [step, hp]
      dsimp only
      rw [if_pos (List.mem_cons_self ..), List.erase_cons_head]
    exact ends_of_step hs (ih rfl)

/-- **A broadcast that does not wait for a full queue comes to its end.** -/
theorem ends_of_broadcasting (hb : x.broadcasting = true) (hnot : x.blocked = false)
    (hviewer : ∀ v c last, x.pump = .sendOnly v c last → ∃ w, x.viewers[v]? = some w)
    (htwo : 2 ≤ x.members.length) :
    ∃ y, PumpRun x y ∧ (y.pump = .read ∨ y.pump = .finish) := by
  rw [broadcasting] at hb
  split at hb
  · next c last hp =>
    have hs : x.step .go = some
        ({ x with broadcasts := x.broadcasts ++ [c] }.goto (.lockAll c last)) := by
      rw [step, hp]
      dsimp only
      split
      · next v hv =>
        rw [hv] at htwo
        simp at htwo
      · rfl
    exact ends_of_step hs (ends_of_go rfl (ends_of_sendAll _ rfl))
  · next v c last hp =>
    obtain ⟨w, hw⟩ := hviewer v c last hp
    rw [blocked, hp] at hnot
    dsimp only at hnot
    rw [hw, Option.map_some, Option.getD_some, Bool.and_eq_false_iff] at hnot
    rcases hnot with hroom | hclosed
    · have hs : x.step .sent =
          some ((x.modify v (Viewer.enqueue c)).goto (.endOfRead last)) := by
        rw [step, hp]
        dsimp only
        rw [hw, Option.map_some, Option.getD_some, if_pos (by simpa using hroom)]
      exact ends_of_step hs (ends_of_endOfRead rfl)
    · have hs : x.step .viewerClosed = some (x.goto (.endOfRead last)) := by
        rw [step, hp]
        dsimp only
        rw [hw, Option.map_some, Option.getD_some, if_pos (by simpa using hclosed)]
      exact ends_of_step hs (ends_of_endOfRead rfl)
  · next c last hp =>
    have hs : x.step .go = some (x.looked.goto (.sendAll c x.members last)) := by
      rw [step, hp]
    exact ends_of_step hs (ends_of_sendAll _ rfl)
  · next c todo last hp => exact ends_of_sendAll todo hp
  · next last hp =>
    have hs : x.step .go = some (x.cancel.goto (.endOfRead last)) := by
      rw [step, hp]
    exact ends_of_step hs (ends_of_endOfRead rfl)
  · next last hp => exact ends_of_endOfRead hp
  · cases hb

/-- A goroutine that waits for a full queue has no step. -/
theorem step_of_blocked (hlive : x.cancelled = false) (hb : x.blocked = true) (ch : Choice C) :
    x.step ch = none := by
  rw [blocked] at hb
  split at hb
  · next v c last hp =>
    rcases hw : x.viewers[v]? with _ | w
    · rw [hw] at hb
      cases hb
    · rw [hw, Option.map_some, Option.getD_some, Bool.and_eq_true, Bool.not_eq_true',
        Bool.not_eq_true'] at hb
      cases ch <;> simp [step, hp, hlive, hw, hb]
  · cases hb

/-- Two viewers are not waited for. -/
theorem Alone.not_blocked (h : x.Alone) (hlive : x.cancelled = false)
    (htwo : 2 ≤ x.members.length) : x.blocked = false := by
  rw [Bool.eq_false_iff]
  intro hb
  obtain ⟨v, c, last, hp⟩ : ∃ v c last, x.pump = .sendOnly v c last := by
    rw [blocked] at hb
    split at hb
    · next v c last hp => exact ⟨v, c, last, hp⟩
    · cases hb
  have hall : ∀ u ∈ x.members, u = v := by
    intro u hu
    obtain ⟨w, hw, hm⟩ := mem_members.mp hu
    exact h hlive hb v c last hp u w hw hm
  have hsub : x.members.Sublist [v] := by
    rcases hmembers : x.members with _ | ⟨a, _ | ⟨b, rest⟩⟩
    · exact List.nil_sublist _
    · rw [hall a (by rw [hmembers]; exact List.mem_cons_self ..)]
    · have hnd := nodup_members (x := x)
      rw [hmembers, List.nodup_cons] at hnd
      have ha : a = v := hall a (by rw [hmembers]; exact List.mem_cons_self ..)
      have hb : b = v := hall b (by rw [hmembers]; simp)
      exact absurd (ha ▸ hb ▸ List.mem_cons_self ..) hnd.1
  have hle := hsub.length_le
  rw [List.length_singleton] at hle
  omega

end Session

/-! ## The result -/

/-- Nobody joins a live session while its goroutine waits for a full queue. -/
abbrev JoinsUnblocked : State C → Action C → Prop :=
  InsertsOk fun x => x.cancelled = false → x.blocked = false

/-- **A slow viewer stalls nobody else.** In every state of a run in which nobody joins a session
whose goroutine waits, the goroutine of a live session with two viewers or more does not wait for
a full queue: a broadcast under way comes to its end by its own steps. -/
theorem slow_viewer_stalls_nobody {s : State C} (h : Run step JoinsUnblocked init s) {n : ℕ}
    {x : Session C} (hx : s.sessions[n]? = some x) (hlive : x.cancelled = false)
    (htwo : 2 ≤ x.members.length) :
    x.blocked = false ∧ (x.broadcasting = true →
      ∃ y, x.PumpRun y ∧ (y.pump = .read ∨ y.pump = .finish)) := by
  have hall : s.Inv ∧ ∀ (n : ℕ) x, s.sessions[n]? = some x → x.Alone := by
    refine h.invariant (I := fun s : State C =>
      s.Inv ∧ ∀ (n : ℕ) x, s.sessions[n]? = some x → x.Alone) ?_
      ⟨State.inv_init, fun _ _ h => by cases h⟩
    intro s a t ⟨hinv, halone⟩ hok ht
    refine ⟨hinv.step ht, fun n y hy => ?_⟩
    obtain ⟨key, rfl⟩ | ⟨x, hx, rfl | hev⟩ := (moves_of_step hinv hok ht).cases_on_session hy
    · intro _ hblocked
      cases hblocked
    · exact halone n y hx
    · exact (halone n x hx).evolves hev
  have hnot : x.blocked = false := (hall.2 n x hx).not_blocked hlive htwo
  refine ⟨hnot, fun hb => Session.ends_of_broadcasting hb hnot (fun v c last hp => ?_) htwo⟩
  have hpump := (hall.1.sessions n x hx).pump
  rw [Session.PumpInv, hp] at hpump
  obtain ⟨⟨w, -, hw, -⟩, -⟩ := hpump
  exact ⟨w, hw⟩

/-! ## A second viewer joins while the goroutine waits -/

/-- One chunk reaches the only viewer. -/
def oneSent : List (Action Unit) := [.pump 0 (.data (some ()) false), .pump 0 .go, .pump 0 .sent,
  .pump 0 .go]

/-- A viewer that reads nothing, until its queue is full and the goroutine waits. -/
def fillsQueue : List (Action Unit) :=
  [.subscribe "k", .run 0 .go, .pump 0 (.opened none), .pump 0 .go, .run 0 .go, .run 0 .go,
    .run 0 .go, .run 0 .go, .run 0 .go, .pump 0 .started] ++
    (List.replicate viewerQueueSize oneSent).flatten ++
    [.pump 0 (.data (some ()) false), .pump 0 .go]

/-- A second viewer. -/
def joins : List (Action Unit) :=
  [.subscribe "k", .run 1 .go, .run 1 .go, .run 1 .go, .run 1 .go, .run 1 .go, .run 1 .go]

/-- The goroutine waits for the first viewer, and the second one gets nothing. -/
theorem joins_blocked_pump :
    ∃ s x w, Run step (fun _ _ => True) (init : State Unit) s ∧ s.sessions[0]? = some x ∧
      x.cancelled = false ∧ x.members = [0, 1] ∧ x.viewers[1]? = some w ∧ w.hasRoom = true ∧
      ∀ ch, x.step ch = none := by
  have h : (exec step (init : State Unit) (fillsQueue ++ joins)).map (fun s =>
      s.sessions[0]?.map fun x => (x.cancelled, x.members, x.blocked,
        x.viewers[1]?.map Viewer.hasRoom)) =
      some (some (false, [0, 1], true, some true)) := by
    decide +kernel
  obtain ⟨s, hrun, hobs⟩ := Run.of_eval (fun _ _ _ => trivial) h
  obtain ⟨x, hx, hobs⟩ := Option.map_eq_some_iff.mp hobs
  simp only [Prod.mk.injEq] at hobs
  obtain ⟨hlive, hmembers, hblocked, hroom⟩ := hobs
  obtain ⟨w, hw, hroom⟩ := Option.map_eq_some_iff.mp hroom
  exact ⟨s, x, w, hrun, hx, hlive, hmembers, hw, hroom, Session.step_of_blocked hlive hblocked⟩

/-- Two viewers of a stream, and a chunk for both. -/
def twoViewers : List (Action Unit) :=
  [.subscribe "k", .run 0 .go, .subscribe "k", .run 1 .go, .pump 0 (.opened none), .pump 0 .go,
    .run 0 .go, .run 0 .go, .run 0 .go, .run 0 .go, .run 0 .go, .run 1 .go, .run 1 .go, .run 1 .go,
    .run 1 .go, .run 1 .go, .pump 0 .started, .pump 0 (.data (some ()) false)]

/-- No goroutine waits for a full queue. -/
def noneBlocked (s : State C) (_ : Action C) : Bool := s.sessions.all fun x => !x.blocked

theorem noneBlocked_sound (s : State C) (a : Action C) (h : noneBlocked s a = true) :
    JoinsUnblocked s a := by
  intro i n x b _ _ hx _
  have hnot := List.all_eq_true.mp h x (List.mem_of_getElem? hx)
  simpa using hnot

/-- The chunk is delivered. -/
theorem slow_viewer_stalls_nobody_sample :
    ∃ s x, Run step JoinsUnblocked (init : State Unit) s ∧ s.sessions[0]? = some x ∧
      x.members = [0, 1] ∧ x.pump = .look () false ∧
      ∃ y, x.PumpRun y ∧ (y.pump = .read ∨ y.pump = .finish) := by
  have h : (exec (fun s a => if noneBlocked s a then step s a else none) (init : State Unit)
      twoViewers).map (fun s => s.sessions[0]?.map fun x => (x.cancelled, x.members, x.pump)) =
      some (some (false, [0, 1], .look () false)) := by
    decide +kernel
  obtain ⟨s, hrun, hobs⟩ := Run.of_tested noneBlocked_sound h
  obtain ⟨x, hx, hobs⟩ := Option.map_eq_some_iff.mp hobs
  simp only [Prod.mk.injEq] at hobs
  obtain ⟨hlive, hmembers, hpump⟩ := hobs
  have htwo : 2 ≤ x.members.length := by
    rw [hmembers]
    decide
  have hb : x.broadcasting = true := by rw [Session.broadcasting, hpump]
  exact ⟨s, x, hrun, hx, hmembers, hpump, (slow_viewer_stalls_nobody hrun hx hlive htwo).2 hb⟩

end IptvProxy.Stream
