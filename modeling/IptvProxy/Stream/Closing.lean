import IptvProxy.Stream.Delivery

/-!
# The end of a session

`finish` empties the map of viewers and closes them, then `done`. `Subscribe` looks at `done` and
inserts its viewer in two steps, so a viewer may be inserted after `finish` swept the map; nobody
closes it then (`viewer_outlives_session`). The condition is that no viewer is inserted into a
session that was swept.
-/

namespace IptvProxy.Stream

open Transition

universe u

variable {C : Type u}

/-- `finish` has emptied the map. -/
def Session.swept (x : Session C) : Bool :=
  match x.pump with
  | .closeDone | .unregister | .ended => true
  | _ => false

/-- Viewers are inserted before the sweep only. -/
abbrev InsertsBeforeSweep : State C → Action C → Prop := InsertsOk fun x => x.swept = false

/-- A closed viewer gives its caller what is queued and then `io.EOF`: nothing is queued any more,
and no `Next` waits. -/
structure Drains (s : State C) (n v : ℕ) (w : Viewer C) : Prop where
  /-- the viewer is closed -/
  closed : w.closed = true
  /-- it stays closed, and what it may still return is in the queue now -/
  bounded : ∀ t, Run step (fun _ _ => True) s t → ∃ y w', t.sessions[n]? = some y ∧
    y.viewers[v]? = some w' ∧ w'.closed = true ∧ w'.taken ++ w'.queue = w.put
  /-- a call of `Next` goes on, whatever its context does -/
  answers : ∀ (i : ℕ) pc, s.threads[i]? = some pc →
    pc = .next n v ∨ pc = .nextWait n v ∨ pc = .nextClosed n v →
    ∃ b t, b ≠ .ctxDone ∧ step s (.run i b) = some t

namespace Session

variable {x y : Session C}

/-- The map stays empty once it was swept. -/
def Emptied (x : Session C) : Prop :=
  x.swept = true → ∀ (v : ℕ) w, x.viewers[v]? = some w → w.member = false

/-- The pump passes the sweep with an empty map. -/
theorem swept_of_step {ch : Choice C} (hs : x.step ch = some y) (hy : y.swept = true) :
    y.viewers = x.viewers ∧ (x.swept = true ∨ x.isEmpty = true) := by
  unfold Session.step at hs
  split at hs <;> split at hs <;> try split at hs
  all_goals cases hs
  all_goals first
    -- the sweep itself, `close(s.done)` after it
    | exact ⟨rfl, .inr ‹x.isEmpty = true›⟩
    | (refine ⟨rfl, .inl ?_⟩; simp [swept, *]; done)
    -- elsewhere the pump does not get behind the sweep
    | cases hy
    | (unfold swept Session.modify at hy; simp_all)

theorem Emptied.step (h : x.Emptied) {ch : Choice C} (hs : x.step ch = some y) : y.Emptied := by
  intro hy v w hv
  obtain ⟨hviewers, hsw | he⟩ := swept_of_step hs hy
  · exact h hsw v w (hviewers ▸ hv)
  · exact isEmpty_iff.mp he v w (hviewers ▸ hv)

/-- A caller changes a viewer without putting it into the map. -/
theorem Emptied.modify (h : x.Emptied) {u : ℕ} {f : Viewer C → Viewer C}
    (hf : ∀ w, (f w).member = true → w.member = true) : (x.modify u f).Emptied := by
  intro hsw v w hv
  obtain ⟨w₀, hw₀, ⟨rfl, rfl⟩ | ⟨-, rfl⟩⟩ := modify_cases hv
  · have hout := h hsw v w₀ hw₀
    rcases hm : (f w₀).member with _ | _
    · rfl
    · rw [hf w₀ hm] at hout
      cases hout
  · exact h hsw v w hw₀

theorem Emptied.evolves (h : x.Emptied) (hy : x.Evolves (fun x => x.swept = false) y) :
    y.Emptied := by
  cases hy with
  | pump ch hs => exact h.step hs
  | unregister hp => exact fun _ v w hv => h (by simp [swept, hp]) v w hv
  | insert _ hsw =>
    intro hsw'
    rw [show x.insert.swept = x.swept from rfl, hsw] at hsw'
    cases hsw'
  | remove u =>
    refine h.modify fun w hm => ?_
    split at hm
    · cases hm
    · exact hm
  | take => exact h.modify fun _ hm => hm
  | eof => exact h.modify fun _ hm => hm
  | cancel => exact h
  | closeStart => exact h

theorem Evolves.ended {ok : Session C → Prop} (hy : x.Evolves ok y) (hx : x.pump = .ended) :
    y.pump = .ended := by
  cases hy with
  | pump ch hs => cases ch <;> simp [Session.step, hx] at hs
  | unregister => rfl
  | _ => exact hx

end Session

/-- In a run that inserts viewers before the sweep only, swept sessions have empty maps. -/
theorem emptied_of_run {s : State C} (h : Run step InsertsBeforeSweep init s) {n : ℕ}
    {x : Session C} (hx : s.sessions[n]? = some x) : x.Emptied := by
  have hall : s.Inv ∧ ∀ (n : ℕ) x, s.sessions[n]? = some x → x.Emptied := by
    refine h.invariant (I := fun s : State C =>
      s.Inv ∧ ∀ (n : ℕ) x, s.sessions[n]? = some x → x.Emptied) ?_
      ⟨State.inv_init, fun _ _ h => by cases h⟩
    intro s a t ⟨hinv, hemp⟩ hok ht
    refine ⟨hinv.step ht, fun n y hy => ?_⟩
    obtain ⟨key, rfl⟩ | ⟨x, hx, rfl | hev⟩ := (moves_of_step hinv hok ht).cases_on_session hy
    · intro hsw
      cases hsw
    · exact hemp n y hx
    · exact (hemp n x hx).evolves hev
  exact hall.2 n x hx

/-- After the end of `run` a viewer keeps its chunks, and a closed one stays closed. -/
theorem viewer_of_run {s t : State C} (h : Run step (fun _ _ => True) s t) (hs : s.Inv) {n v : ℕ}
    {x : Session C} {w : Viewer C} (hx : s.sessions[n]? = some x) (he : x.pump = .ended)
    (hv : x.viewers[v]? = some w) (hc : w.closed = true) :
    ∃ y w', t.sessions[n]? = some y ∧ y.viewers[v]? = some w' ∧ w'.closed = true ∧
      w'.taken ++ w'.queue = w.put := by
  have hall : t.Inv ∧ ∃ y w', t.sessions[n]? = some y ∧ y.pump = .ended ∧
      y.viewers[v]? = some w' ∧ w'.closed = true ∧ w'.put = w.put := by
    refine h.invariant (I := fun t : State C => t.Inv ∧ ∃ y w', t.sessions[n]? = some y ∧
      y.pump = .ended ∧ y.viewers[v]? = some w' ∧ w'.closed = true ∧ w'.put = w.put) ?_
      ⟨hs, x, w, hx, he, hv, hc, rfl⟩
    rintro s a t ⟨hinv, x, w', hx, he, hv, hc, hput⟩ - ht
    have hmoves : s.Moves (fun _ => True) t :=
      moves_of_step hinv (fun _ _ _ _ _ _ _ => trivial) ht
    refine ⟨hinv.step ht, ?_⟩
    obtain ⟨y, hy, rfl | hev⟩ := hmoves.of_session hx
    · exact ⟨y, w', hy, he, hv, hc, hput⟩
    · obtain ⟨w'', hv'', hc'', hput''⟩ := hev.viewer hv
      exact ⟨y, w'', hy, hev.ended he, hv'', hc'' hc, (hput'' he).trans hput⟩
  obtain ⟨hinv, y, w', hy, -, hv', hc', hput⟩ := hall
  exact ⟨y, w', hy, hv', hc', (((hinv.sessions n y hy).viewers v w' hv').fifo).trans hput⟩

/-- A call of `Next` on a closed viewer does not wait. -/
theorem next_answers {s : State C} {n v i : ℕ} {x : Session C} {w : Viewer C} {pc : Pc}
    (hx : s.sessions[n]? = some x) (hv : x.viewers[v]? = some w) (hc : w.closed = true)
    (hi : s.threads[i]? = some pc)
    (hpc : pc = .next n v ∨ pc = .nextWait n v ∨ pc = .nextClosed n v) :
    ∃ b t, b ≠ .ctxDone ∧ step s (.run i b) = some t := by
  obtain rfl | rfl | rfl := hpc
  · exact ⟨.go, _, (fun h => by cases h), by
      simp [step, hi, stepThread, Pc.session, hx, stepWith, hv]; rfl⟩
  · exact ⟨.closed, _, (fun h => by cases h), by
      simp [step, hi, stepThread, Pc.session, hx, stepWith, hv, hc]; rfl⟩
  · exact ⟨.go, _, (fun h => by cases h), by
      simp [step, hi, stepThread, Pc.session, hx, stepWith, hv]; rfl⟩

/-- **No viewer outlives its session**, in a run that inserts viewers before the sweep only: once
`run` has returned, every viewer of the session is closed and drains. -/
theorem drains_of_ended {s : State C} (h : Run step InsertsBeforeSweep init s) {n v : ℕ}
    {x : Session C} {w : Viewer C} (hx : s.sessions[n]? = some x) (he : x.pump = .ended)
    (hv : x.viewers[v]? = some w) : Drains s n v w := by
  have hinv := inv_of_run h
  have hout := emptied_of_run h hx (by simp [Session.swept, he]) v w hv
  have hc := ((hinv.sessions n x hx).viewers v w hv).closed hout
  exact ⟨hc, fun t ht => viewer_of_run ht hinv hx he hv hc,
    fun i pc hi hpc => next_answers hx hv hc hi hpc⟩

/-- The condition as a test. -/
def insertsBeforeSweep (s : State C) : Action C → Bool
  | .run i _ => match s.threads[i]? with
    | some (.addViewer n) => s.sessions[n]?.all fun x => !x.swept
    | _ => true
  | _ => true

theorem insertsBeforeSweep_sound (s : State C) (a : Action C)
    (h : insertsBeforeSweep s a = true) : InsertsBeforeSweep s a := by
  rintro i n x b rfl hi hx
  simpa [insertsBeforeSweep, hi, hx] using h

theorem drains_oneChunk :
    ∃ (s : State ℕ) (w : Viewer ℕ), w.put = [7] ∧ Drains s 0 0 w := by
  let w : Viewer ℕ := ⟨[], true, false, some 0, [7], [7], some 1, false⟩
  let x : Session ℕ := ⟨"news", true, true, true, true, none, .ended, [w], [7]⟩
  have heval : (exec (fun s a => if insertsBeforeSweep s a then step s a else none) init
      oneChunk).map State.sessions = some [x] := by decide +kernel
  obtain ⟨s, hs, hobs⟩ := Run.of_tested insertsBeforeSweep_sound heval
  have hx : s.sessions[0]? = some x := by rw [hobs]; rfl
  exact ⟨s, w, rfl, drains_of_ended hs hx rfl rfl⟩

/-! ## The bad order -/

/-- A subscriber that passed the check of `done`; another one whose context ends, which cancels the
session nobody watches; the end of the session; the insertion; a call of `Next`. -/
def subscribeAcrossFinish : List (Action ℕ) :=
  [.subscribe "news", .run 0 .go, .pump 0 (.opened none), .pump 0 .go, .run 0 .go, .run 0 .go,
    .run 0 .go,
    .subscribe "news", .run 1 .go, .run 1 .ctxDone, .run 1 .go, .run 1 .go,
    .pump 0 .ctxDone, .pump 0 .go, .pump 0 .go, .pump 0 .go, .pump 0 .go,
    .run 0 .go, .run 0 .go,
    .next 0 0, .run 2 .go]

/-- The session is over and the subscriber has a viewer that is open: its `Next` waits. -/
theorem viewer_outlives_session :
    ∃ (s : State ℕ) (x : Session ℕ) (w : Viewer ℕ), Run step (fun _ _ => True) init s ∧
      s.sessions[0]? = some x ∧ x.pump = .ended ∧ x.viewers[0]? = some w ∧ w.closed = false ∧
      s.threads = [.subscribed 0 0, .refused none, .nextWait 0 0] ∧
      ∀ b, (step s (.run 2 b)).isSome = true → b = .ctxDone := by
  let x : Session ℕ := ⟨"news", true, true, true, true, none, .ended, [.fresh], []⟩
  have heval : (exec step init subscribeAcrossFinish).map (fun s => (s.sessions, s.threads)) =
      some ([x], [.subscribed 0 0, .refused none, .nextWait 0 0]) := by decide +kernel
  obtain ⟨s, hs, hobs⟩ := Run.of_eval (fun _ _ _ => trivial) heval
  obtain ⟨hsessions, hthreads⟩ := Prod.mk.inj hobs
  have hx : s.sessions[0]? = some x := by rw [hsessions]; rfl
  refine ⟨s, x, .fresh, hs, hx, rfl, rfl, rfl, hthreads, fun b hb => ?_⟩
  cases b with
  | ctxDone => rfl
  | go | closed =>
    simp [step, hthreads, stepThread, Pc.session, hx, stepWith, x, Viewer.fresh] at hb

end IptvProxy.Stream
