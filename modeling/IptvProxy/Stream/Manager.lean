import Mathlib.Logic.Function.Basic
import IptvProxy.Stream.Session

/-!
# The stream manager

`Manager`, `Subscribe`, `Remove` and `Next` of `internal/stream/manager.go`: any number of callers
and any number of sessions, each with its goroutine `run`. A caller is a thread; one step is one
channel operation, one section under a mutex or one plain statement. A session is named by its
position in the list of all sessions ever created, the source's pointer.

`Snapshots`, the response headers and the counter of received bytes are left out: nothing here
reads them.
-/

namespace IptvProxy.Stream

universe u

variable {C : Type u}

/-- Where a caller is. A session and a viewer are given by their positions. -/
inductive Pc where
  /-- `Subscribe`: look up or create the session under `m.mu` -/
  | lookup (key : String)
  /-- `Subscribe`: the `select` on `ctx` and `ready` -/
  | waitReady (key : String) (n : ℕ)
  /-- `cancelIfEmpty`: count the viewers -/
  | cancelIfEmpty (n : ℕ)
  /-- `s.cancel()` of `cancelIfEmpty` or `Remove` -/
  | cancel (n : ℕ)
  /-- `Subscribe`: look at `openErr` -/
  | checkOpenErr (key : String) (n : ℕ)
  /-- `Subscribe`: look at `done` -/
  | checkDone (key : String) (n : ℕ)
  /-- `addViewer`: the insertion -/
  | addViewer (n : ℕ)
  /-- `addViewer`: `close(s.start)` -/
  | closeStart (n v : ℕ)
  /-- `Subscribe` returned this viewer -/
  | subscribed (n v : ℕ)
  /-- `Subscribe` returned an error, `none` for the caller's own `ctx.Err()` -/
  | refused (err : Option String)
  /-- `Remove` -/
  | remove (n v : ℕ)
  /-- `Next`: the first `select` -/
  | next (n v : ℕ)
  /-- `Next`: the blocking `select` -/
  | nextWait (n v : ℕ)
  /-- `Next`: the last `select` -/
  | nextClosed (n v : ℕ)
  /-- the call has returned -/
  | returned
  deriving DecidableEq, Repr

/-- The branch a caller takes where there are several. -/
inductive Branch where
  /-- the next statement, or the branch that is not `ctx` or `closed` -/
  | go
  /-- the branch `<-ctx.Done()` of the caller's own context -/
  | ctxDone
  /-- the branch `<-v.closed` -/
  | closed
  deriving DecidableEq, Repr

/-- The manager, the sessions and the callers. -/
structure State (C : Type u) where
  /-- `m.sessions` -/
  registry : String → Option ℕ
  /-- all sessions ever created -/
  sessions : List (Session C)
  /-- the callers -/
  threads : List Pc

/-- `NewManager` -/
def init : State C := ⟨fun _ => none, [], []⟩

namespace State

/-- Thread `i` goes on to `pc`. -/
def goto (s : State C) (i : ℕ) (pc : Pc) : State C := { s with threads := s.threads.set i pc }

/-- Session `n` changes to `x`. -/
def update (s : State C) (n : ℕ) (x : Session C) : State C :=
  { s with sessions := s.sessions.set n x }

/-- A new caller. -/
def call (s : State C) (pc : Pc) : State C := { s with threads := s.threads ++ [pc] }

/-- Create the session of a key. -/
def create (s : State C) (key : String) : State C :=
  { s with
    registry := Function.update s.registry key (some s.sessions.length)
    sessions := s.sessions ++ [.fresh key] }

/-- The end of `finish`: leave the map if it still holds this session. -/
def unregister (s : State C) (n : ℕ) (x : Session C) : State C :=
  { s with registry :=
      if s.registry x.key = some n then Function.update s.registry x.key none else s.registry }

end State

open State

/-- The step of a caller that works with session `n`, which is `x`. -/
def stepWith (s : State C) (i n : ℕ) (x : Session C) : Pc → Branch → Option (State C)
  | .waitReady key _, .go => if x.ready then some (s.goto i (.checkOpenErr key n)) else none
  | .waitReady _ _, .ctxDone => some (s.goto i (.cancelIfEmpty n))
  | .cancelIfEmpty _, .go =>
    if x.muHeld then none
    else some (s.goto i (if x.isEmpty then .cancel n else .refused none))
  | .cancel _, .go => some ((s.update n x.cancel).goto i (.refused none))
  | .checkOpenErr key _, .go =>
    some (s.goto i (match x.openErr with
      | some err => .refused (some err)
      | none => .checkDone key n))
  | .checkDone key _, .go => some (s.goto i (if x.done then .lookup key else .addViewer n))
  | .addViewer _, .go =>
    if x.muHeld then none
    else some ((s.update n x.insert).goto i (.closeStart n x.viewers.length))
  | .closeStart _ v, .go => some ((s.update n x.closeStart).goto i (.subscribed n v))
  | .remove _ v, .go =>
    if x.muHeld then none
    else
      let y := x.remove v
      some ((s.update n y).goto i (if y.isEmpty then .cancel n else .returned))
  | .next _ v, .go => x.viewers[v]?.map fun w =>
    if w.queue = [] then s.goto i (.nextWait n v)
    else (s.update n (x.modify v Viewer.take)).goto i .returned
  | .nextWait _ v, .go => x.viewers[v]?.bind fun w =>
    if w.queue = [] then none else some ((s.update n (x.modify v Viewer.take)).goto i .returned)
  | .nextWait _ _, .ctxDone => some (s.goto i .returned)
  | .nextWait _ v, .closed => x.viewers[v]?.bind fun w =>
    if w.closed then some (s.goto i (.nextClosed n v)) else none
  | .nextClosed _ v, .go => x.viewers[v]?.map fun w =>
    if w.queue = [] then (s.update n (x.modify v Viewer.returnEOF)).goto i .returned
    else (s.update n (x.modify v Viewer.take)).goto i .returned
  | _, _ => none

/-- The session a caller works with. -/
def Pc.session : Pc → Option ℕ
  | waitReady _ n | cancelIfEmpty n | cancel n | checkOpenErr _ n | checkDone _ n | addViewer n
  | closeStart n _ | remove n _ | next n _ | nextWait n _ | nextClosed n _ => some n
  | _ => none

/-- One step of thread `i`. -/
def stepThread (s : State C) (i : ℕ) (pc : Pc) (b : Branch) : Option (State C) :=
  match pc, b with
  | .lookup key, .go => some <| match s.registry key with
    | some n => s.goto i (.waitReady key n)
    | none => (s.create key).goto i (.waitReady key s.sessions.length)
  | pc, b => pc.session.bind fun n => s.sessions[n]?.bind fun x => stepWith s i n x pc b

/-- What happens next. -/
inductive Action (C : Type u) where
  /-- somebody calls `Subscribe` -/
  | subscribe (key : String)
  /-- somebody calls `Remove` for a viewer -/
  | remove (n v : ℕ)
  /-- somebody calls `Next` of a viewer -/
  | next (n v : ℕ)
  /-- a step of caller `i` -/
  | run (i : ℕ) (b : Branch)
  /-- a step of the goroutine `run` of session `n` -/
  | pump (n : ℕ) (c : Session.Choice C)

/-- A step of the goroutine `run` of session `n`, which is `x`. -/
def stepPump (s : State C) (n : ℕ) (x : Session C) (c : Session.Choice C) : Option (State C) :=
  match x.pump, c with
  | .unregister, .go => some ((s.unregister n x).update n (x.goto .ended))
  | _, c => (x.step c).map (s.update n)

/-- The step function. -/
def step (s : State C) : Action C → Option (State C)
  | .subscribe key => some (s.call (.lookup key))
  | .remove n v => some (s.call (.remove n v))
  | .next n v => some (s.call (.next n v))
  | .run i b => s.threads[i]?.bind fun pc => stepThread s i pc b
  | .pump n c => s.sessions[n]?.bind fun x => stepPump s n x c

end IptvProxy.Stream
