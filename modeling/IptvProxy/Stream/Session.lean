import Mathlib.Data.List.Basic

/-!
# A shared live stream

`Session` and `Viewer` of `internal/stream/manager.go`. The goroutine `run` reads the provider's
body and broadcasts each chunk to the viewers; its program point is `Pump`. One step of it is one
channel operation, one section under `mu`, or one turn of a loop that holds `mu`: between the
turns of `broadcast`'s and `finish`'s loops other goroutines run, but not their sections under
`mu` (`Session.muHeld`).

A viewer is named by its position in the list of all viewers of the session, in the order of
their insertion; the source numbers them by an atomic counter. `member` says that it is in the
map `viewers`. The chunks are of any type.

The fields marked *history* are not in the source. They record what happened: which chunks were
broadcast, put into a queue, taken out of it, and when the first `io.EOF` was returned.
-/

namespace IptvProxy.Stream

universe u

/-- `viewerQueueSize` -/
def viewerQueueSize : ℕ := 32

/-- `Viewer` -/
structure Viewer (C : Type u) where
  /-- the buffered channel -/
  queue : List C
  /-- `closed` is closed -/
  closed : Bool
  /-- the viewer is in the session's map -/
  member : Bool
  /-- *history*: the first broadcast that looked at the map after the insertion -/
  first : Option ℕ
  /-- *history*: all chunks put into the queue -/
  put : List C
  /-- *history*: all chunks `Next` took out of the queue -/
  taken : List C
  /-- *history*: how many chunks were taken when `Next` returned its first `io.EOF` -/
  eof : Option ℕ
  /-- *history*: closed by its own `Remove` -/
  removed : Bool
  deriving DecidableEq

/-- Where the goroutine `run` of a session is. `last` says that the read that filled the buffer
also returned an error. -/
inductive Pump (C : Type u) where
  /-- `open(s.ctx)` -/
  | opening
  /-- `close(s.ready)`; the stream was opened or not -/
  | closeReady (opened : Bool)
  /-- the `select` before the loop -/
  | waitStart
  /-- `resp.Body.Read` -/
  | read
  /-- `broadcast`: count the viewers under the read lock -/
  | look (c : C) (last : Bool)
  /-- `broadcast`: the `select` for the only viewer -/
  | sendOnly (v : ℕ) (c : C) (last : Bool)
  /-- `broadcast`: take the lock -/
  | lockAll (c : C) (last : Bool)
  /-- `broadcast`: the loop under the lock, with the viewers still to be served -/
  | sendAll (c : C) (todo : List ℕ) (last : Bool)
  /-- `broadcast`: `s.cancel()` after the last viewer was dropped -/
  | cancelEmpty (last : Bool)
  /-- the end of the loop body of `run` -/
  | endOfRead (last : Bool)
  /-- `finish`: `s.cancel()` -/
  | finish
  /-- `finish`: the loop under the lock -/
  | sweep
  /-- `finish`: `close(s.done)` -/
  | closeDone
  /-- `finish`: leave the manager's map -/
  | unregister
  /-- `run` has returned -/
  | ended
  deriving DecidableEq

/-- `Session` -/
structure Session (C : Type u) where
  /-- `key` -/
  key : String
  /-- `ctx` is cancelled -/
  cancelled : Bool
  /-- `ready` is closed -/
  ready : Bool
  /-- `start` is closed -/
  start : Bool
  /-- `done` is closed -/
  done : Bool
  /-- `openErr` -/
  openErr : Option String
  /-- the goroutine `run` -/
  pump : Pump C
  /-- all viewers ever inserted -/
  viewers : List (Viewer C)
  /-- *history*: the chunks broadcast so far -/
  broadcasts : List C
  deriving DecidableEq

variable {C : Type u}

/-- The viewer `addViewer` inserts. -/
def Viewer.fresh : Viewer C := ⟨[], false, true, none, [], [], none, false⟩

namespace Viewer

/-- Leave the map and close. -/
def drop (w : Viewer C) : Viewer C := { w with member := false, closed := true }

/-- A broadcast looks at the map. -/
def seen (k : ℕ) (w : Viewer C) : Viewer C :=
  { w with first := if w.member then some (w.first.getD k) else w.first }

/-- A chunk enters the queue. -/
def enqueue (c : C) (w : Viewer C) : Viewer C := { w with queue := w.queue ++ [c], put := w.put ++ [c] }

/-- There is room in the queue. -/
def hasRoom (w : Viewer C) : Bool := decide (w.queue.length < viewerQueueSize)

/-- `Next` takes a chunk. -/
def take (w : Viewer C) : Viewer C :=
  { w with queue := w.queue.tail, taken := w.taken ++ w.queue.head?.toList }

/-- `Next` returns `io.EOF`. -/
def returnEOF (w : Viewer C) : Viewer C := { w with eof := some (w.eof.getD w.taken.length) }

/-- The chunks `Next` returned before its first `io.EOF`. -/
def delivered (w : Viewer C) : List C := w.taken.take (w.eof.getD w.taken.length)

end Viewer

namespace Session

/-- A new session. -/
def fresh (key : String) : Session C :=
  ⟨key, false, false, false, false, none, .opening, [], []⟩

/-- `run` is inside a section under `mu`. -/
def muHeld (x : Session C) : Bool :=
  match x.pump with
  | .sendAll _ _ _ | .sweep => true
  | _ => false

/-- The positions of the viewers in the map. -/
def members (x : Session C) : List ℕ :=
  (List.range x.viewers.length).filter fun v => (x.viewers[v]?.map Viewer.member).getD false

/-- `len(s.viewers) == 0` -/
def isEmpty (x : Session C) : Bool := x.members.isEmpty

/-- Change viewer `v`. -/
def modify (x : Session C) (v : ℕ) (f : Viewer C → Viewer C) : Session C :=
  { x with viewers := x.viewers.modify v f }

/-- `run` goes on. -/
def goto (x : Session C) (p : Pump C) : Session C := { x with pump := p }

/-- A broadcast looks at the map and finds these viewers in it. -/
def looked (x : Session C) : Session C :=
  { x with viewers := x.viewers.map (Viewer.seen (x.broadcasts.length - 1)) }

/-! ## The other goroutines -/

/-- `addViewer`: the insertion. -/
def insert (x : Session C) : Session C := { x with viewers := x.viewers ++ [.fresh] }

/-- `s.startOnce.Do(func() { close(s.start) })` -/
def closeStart (x : Session C) : Session C := { x with start := true }

/-- `s.cancel()` -/
def cancel (x : Session C) : Session C := { x with cancelled := true }

/-- `Remove`: the section under `mu`. -/
def remove (x : Session C) (v : ℕ) : Session C :=
  x.modify v fun w => if w.member then { w.drop with removed := true } else w

/-! ## The pump -/

/-- What decides a step of `run`: how `open` ends, which branch a `select` takes, what a read
returns, which viewer the loop over the map visits next. -/
inductive Choice (C : Type u) where
  /-- `open` succeeded with a 2xx status, or the text of `openErr` -/
  | opened (err : Option String)
  /-- the next statement -/
  | go
  /-- the branch `<-s.ctx.Done()` -/
  | ctxDone
  /-- the branch `<-s.start` -/
  | started
  /-- a read: the bytes, if there are any, and whether it also returned an error -/
  | data (c : Option C) (last : Bool)
  /-- the branch `<-only.closed` -/
  | viewerClosed
  /-- the branch `only.queue <- chunk` -/
  | sent
  /-- the loop visits viewer `v` -/
  | visit (v : ℕ)

/-- One turn of the loop of `broadcast`: send without blocking, or drop the viewer. -/
def offer (c : C) (w : Viewer C) : Viewer C := if w.hasRoom then w.enqueue c else w.drop

/-- One step of `run`, up to the section under the manager's mutex. -/
def step (x : Session C) : Choice C → Option (Session C)
  | .opened err => match x.pump with
    | .opening => some { x.goto (.closeReady err.isNone) with openErr := err }
    | _ => none
  | .go => match x.pump with
    | .closeReady opened =>
      some { x.goto (if opened then .waitStart else .finish) with ready := true }
    | .look c last =>
      let y := { x with broadcasts := x.broadcasts ++ [c] }
      match x.members with
      | [v] => some (y.looked.goto (.sendOnly v c last))
      | _ => some (y.goto (.lockAll c last))
    | .lockAll c last => some (x.looked.goto (.sendAll c x.members last))
    | .sendAll _ [] last => some (x.goto (if x.isEmpty then .cancelEmpty last else .endOfRead last))
    | .cancelEmpty last => some (x.cancel.goto (.endOfRead last))
    | .endOfRead last => some (x.goto (if last || x.cancelled then .finish else .read))
    | .finish => some (x.cancel.goto .sweep)
    | .sweep => if x.isEmpty then some (x.goto .closeDone) else none
    | .closeDone => some { x.goto .unregister with done := true }
    | _ => none
  | .ctxDone => if x.cancelled = false then none else match x.pump with
    | .waitStart => some (x.goto .finish)
    | .sendOnly _ _ last => some (x.goto (.endOfRead last))
    | _ => none
  | .started => match x.pump with
    | .waitStart => if x.start then some (x.goto .read) else none
    | _ => none
  | .data c last => match x.pump, c with
    | .read, some c => some (x.goto (.look c last))
    | .read, none => some (x.goto (.endOfRead last))
    | _, _ => none
  | .viewerClosed => match x.pump with
    | .sendOnly v _ last =>
      if (x.viewers[v]?.map Viewer.closed).getD false then some (x.goto (.endOfRead last)) else none
    | _ => none
  | .sent => match x.pump with
    | .sendOnly v c last =>
      if (x.viewers[v]?.map Viewer.hasRoom).getD false then
        some ((x.modify v (Viewer.enqueue c)).goto (.endOfRead last))
      else none
    | _ => none
  | .visit v => match x.pump with
    | .sendAll c todo last =>
      if v ∈ todo then some ((x.modify v (offer c)).goto (.sendAll c (todo.erase v) last)) else none
    | .sweep => if v ∈ x.members then some (x.modify v Viewer.drop) else none
    | _ => none

end Session

end IptvProxy.Stream
