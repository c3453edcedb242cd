import IptvProxy.Media.Playlist
import IptvProxy.Stream.Delivery

/-!
# Playlists through a shared session

A live endpoint that answers with an HLS playlist is collected by `readMultiplexedHLS` of
`internal/proxy/live_proxy.go`, for each client from its own viewer of the shared session. `Next`
returns `io.EOF` at the end of the upstream body, but also to a viewer that was dropped and to all
viewers of a session that is given up, and a viewer gets only the chunks that are broadcast after
its insertion: then the collected body is not the upstream body, and no error is returned
(`late_client_gets_a_part`).

`shared_playlist_complete`: nothing else goes wrong. If the clients of a session come before its
first broadcast, no queue is full when a chunk is offered, and the goroutine does not give up before
the end of the body while it has viewers, then every client gets the upstream body.
-/

namespace IptvProxy.Stream

open Transition Percent

/-! ## The collector -/

/-- What `Next` returns. -/
inductive Answer where
  /-- a chunk -/
  | chunk (c : Bytes)
  /-- `io.EOF` -/
  | eof
  /-- another error -/
  | failed (message : String)

/-- `readMultiplexedHLS` from `body` on; `none` while it waits for `Next`. -/
def collect (body : Bytes) : List Answer → Option (Except String Bytes)
  | [] => none
  | .chunk c :: rest =>
    if Media.Playlist.maxHLSPlaylistBytes < body.length + c.length then
      some (.error "HLS playlist exceeds maximum size")
    else collect (body ++ c) rest
  | .eof :: _ => some (.ok body)
  | .failed message :: _ => some (.error message)

/-- `readMultiplexedHLS` -/
def readMultiplexedHLS (answers : List Answer) : Option (Except String Bytes) := collect [] answers

/-- What `Next` has returned up to its first `io.EOF`. -/
def Viewer.answers (w : Viewer Bytes) : List Answer :=
  w.delivered.map .chunk ++ if w.eof.isSome then [.eof] else []

/-- A collected body is made of all chunks. -/
theorem collect_chunks {chunks : List Bytes} {rest : List Answer} {body result : Bytes}
    (h : collect body (chunks.map .chunk ++ rest) = some (.ok result)) :
    collect (body ++ chunks.flatten) rest = some (.ok result) := by
  induction chunks generalizing body with
  | nil => simpa using h
  | cons c chunks ih =>
    rw [List.map_cons, List.cons_append, collect] at h
    split at h
    · cases h
    · have hrest := ih h
      rwa [List.append_assoc] at hrest

/-- A body is returned at the first `io.EOF`, and it is what was delivered. -/
theorem eq_of_readMultiplexedHLS {w : Viewer Bytes} {result : Bytes}
    (h : readMultiplexedHLS w.answers = some (.ok result)) :
    w.eof.isSome = true ∧ result = w.delivered.flatten := by
  have hrest := collect_chunks h
  split at hrest
  · next heof => exact ⟨heof, (Except.ok.inj (Option.some.inj hrest)).symm⟩
  · cases hrest

/-! ## The conditions -/

namespace Session

/-- The bytes that have been read. -/
def received (x : Session Bytes) : Bytes :=
  x.broadcasts.flatten ++
    match x.pump with
    | .look c _ => c
    | _ => []

/-- There is no further read. -/
def lastRead {C : Type*} (x : Session C) : Bool :=
  match x.pump with
  | .look _ last | .sendOnly _ _ last | .lockAll _ last | .sendAll _ _ last | .cancelEmpty last
  | .endOfRead last => last
  | .finish | .sweep | .closeDone | .unregister | .ended => true
  | _ => false

/-- The upstream answers with `body`: a read returns the bytes that come next, and fails before the
end only if the session is cancelled. -/
def Choice.Delivers (body : Bytes) (x : Session Bytes) : Choice Bytes → Prop
  | .opened err => err = none
  | .data c last =>
    x.received ++ c.getD [] <+: body ∧
      (last = true → x.received ++ c.getD [] = body ∨ x.cancelled = true)
  | _ => True

/-- The goroutine does not give up before the end of `body` while it has viewers, and it drops none:
no queue is full when a chunk is offered to several viewers. -/
def Choice.Attentive (body : Bytes) (x : Session Bytes) : Choice Bytes → Prop
  | .ctxDone => x.isEmpty = true
  | .data c last => last = true → x.received ++ c.getD [] ≠ body → x.isEmpty = true
  | .go => x.pump = .endOfRead false → x.cancelled = true → x.isEmpty = true
  | .visit v => ∀ c todo last, x.pump = .sendAll c todo last → ∀ w, x.viewers[v]? = some w →
    w.hasRoom = true
  | _ => True

/-- A client may come: nothing has been broadcast, and the goroutine has not given up before the end
of `body`. -/
def Joinable (body : Bytes) (x : Session Bytes) : Prop :=
  x.broadcasts = [] ∧ (x.lastRead = true → x.received = body)

end Session

/-- The upstream of session `n` answers with `body`. -/
def Delivers (n : ℕ) (body : Bytes) (s : State Bytes) : Action Bytes → Prop
  | .pump m ch => m = n → ∀ x, s.sessions[n]? = some x → ch.Delivers body x
  | _ => True

/-- The clients of session `n` come in time, and its goroutine serves them to the end. -/
def Attentive (n : ℕ) (body : Bytes) (s : State Bytes) : Action Bytes → Prop
  | .pump m ch => m = n → ∀ x, s.sessions[n]? = some x → ch.Attentive body x
  | .run i _ => s.threads[i]? = some (.addViewer n) → ∀ x, s.sessions[n]? = some x → x.Joinable body
  | _ => True

/-- Every client of session `n` that gets a body without error gets `body`. A client calls `Remove`
after `readMultiplexedHLS` has returned. -/
def Complete (n : ℕ) (body : Bytes) (s : State Bytes) : Prop :=
  ∀ x (v : ℕ) (w : Viewer Bytes) result, s.sessions[n]? = some x → x.viewers[v]? = some w →
    w.removed = false → readMultiplexedHLS w.answers = some (.ok result) → result = body

/-! ## The invariant -/

namespace Session

variable {body : Bytes} {x y : Session Bytes}

/-- The chunk that viewer `v` of the map has still to be given. -/
def owed (x : Session Bytes) (v : ℕ) : List Bytes :=
  match x.pump with
  | .sendOnly _ c _ | .lockAll c _ => [c]
  | .sendAll c todo _ => if v ∈ todo then [c] else []
  | _ => []

/-- `finish` empties the map, or has done so. -/
def sweeps {C : Type*} (x : Session C) : Bool :=
  match x.pump with
  | .sweep | .closeDone | .unregister | .ended => true
  | _ => false

/-- The goroutine neither waits for the only viewer nor is behind a failed start. -/
def settled {C : Type*} (p : Pump C) : Bool :=
  match p with
  | .sendOnly .. | .closeReady false => false
  | _ => true

/-- Every viewer gets the whole of `body`. -/
structure Whole (body : Bytes) (x : Session Bytes) : Prop where
  /-- a viewer in the map has been given everything, up to the chunk in hand -/
  members : ∀ (v : ℕ) w, x.viewers[v]? = some w → w.member = true →
    w.put ++ x.owed v = x.broadcasts
  /-- one that the session has closed has been given the body -/
  closed : ∀ (v : ℕ) w, x.viewers[v]? = some w → w.member = false → w.removed = false →
    x.sweeps = true ∧ w.put.flatten = body
  /-- a viewer that is waited for is alone -/
  only : ∀ u c last, x.pump = .sendOnly u c last → ∀ (v : ℕ) w, x.viewers[v]? = some w →
    w.member = true → v = u
  /-- the last read is the end of the body, or nobody is there -/
  last : x.lastRead = true → x.received = body ∨ x.isEmpty = true
  /-- the stream was opened -/
  opened : x.pump ≠ .closeReady false

namespace Whole

theorem fresh (key : String) : (Session.fresh key).Whole body where
  members _ _ hv := by cases hv
  closed _ _ hv := by cases hv
  only _ _ _ hp := by cases hp
  last h := by cases h
  opened h := by cases h

/-- The map is empty. -/
theorem not_member (he : x.isEmpty = true) {v : ℕ} {w : Viewer Bytes} (hv : x.viewers[v]? = some w)
    (hm : w.member = true) : False := by
  rw [isEmpty_iff.mp he v w hv] at hm
  cases hm

/-- The flags and the text of the error are not looked at. -/
theorem of_same (h : x.Whole body) (hviewers : y.viewers = x.viewers)
    (hbroadcasts : y.broadcasts = x.broadcasts) (hpump : y.pump = x.pump) : y.Whole body := by
  obtain ⟨key, cancelled, ready, start, done, openErr, pump, viewers, broadcasts⟩ := x
  obtain ⟨key', cancelled', ready', start', done', openErr', pump', viewers', broadcasts'⟩ := y
  obtain rfl : viewers' = viewers := hviewers
  obtain rfl : broadcasts' = broadcasts := hbroadcasts
  obtain rfl : pump' = pump := hpump
  exact ⟨h.members, h.closed, h.only, h.last, h.opened⟩

/-! ### The callers -/

/-- A caller changes one viewer that stays in the map, or leaves it by its own `Remove`. -/
theorem modify (h : x.Whole body) {u : ℕ} {f : Viewer Bytes → Viewer Bytes}
    (hput : ∀ w, (f w).put = w.put)
    (hkeep : ∀ w, (f w).member = w.member ∧ (f w).removed = w.removed ∨
      (f w).member = false ∧ (f w).removed = true) : (x.modify u f).Whole body := by
  have hall : ∀ (v : ℕ) w, (x.modify u f).viewers[v]? = some w → ∃ w₀, x.viewers[v]? = some w₀ ∧
      w.put = w₀.put ∧ (w.member = w₀.member ∧ w.removed = w₀.removed ∨
        w.member = false ∧ w.removed = true) := by
    intro v w hv
    obtain ⟨w₀, hw₀, ⟨rfl, rfl⟩ | ⟨-, rfl⟩⟩ := modify_cases hv
    · exact ⟨w₀, hw₀, hput w₀, hkeep w₀⟩
    · exact ⟨w, hw₀, rfl, .inl ⟨rfl, rfl⟩⟩
  constructor
  · intro v w hv hm
    obtain ⟨w₀, hw₀, hp, ⟨hmember, -⟩ | ⟨hout, -⟩⟩ := hall v w hv
    · rw [hp]
      exact h.members v w₀ hw₀ (hmember ▸ hm)
    · rw [hout] at hm
      cases hm
  · intro v w hv hm hr
    obtain ⟨w₀, hw₀, hp, ⟨hmember, hremoved⟩ | ⟨-, hremoved⟩⟩ := hall v w hv
    · rw [hp]
      exact h.closed v w₀ hw₀ (hmember ▸ hm) (hremoved ▸ hr)
    · rw [hremoved] at hr
      cases hr
  · intro u' c last hp v w hv hm
    obtain ⟨w₀, hw₀, -, ⟨hmember, -⟩ | ⟨hout, -⟩⟩ := hall v w hv
    · exact h.only u' c last hp v w₀ hw₀ (hmember ▸ hm)
    · rw [hout] at hm
      cases hm
  · intro hlast
    refine (h.last hlast).imp_right fun he => isEmpty_iff.mpr fun v w hv => ?_
    obtain ⟨w₀, hw₀, -, ⟨hmember, -⟩ | ⟨hout, -⟩⟩ := hall v w hv
    · rw [hmember]
      exact isEmpty_iff.mp he v w₀ hw₀
    · exact hout
  · exact h.opened

theorem remove (h : x.Whole body) (v : ℕ) : (x.remove v).Whole body := by
  refine h.modify (fun w => ?_) fun w => ?_
  · split <;> rfl
  · split
    · exact .inr ⟨rfl, rfl⟩
    · exact .inl ⟨rfl, rfl⟩

/-- A client comes in time. -/
theorem insert (h : x.Whole body) (hinv : x.Inv) (hmu : x.muHeld = false)
    (hjoin : x.Joinable body) : x.insert.Whole body := by
  obtain ⟨hbroadcasts, hlast⟩ := hjoin
  have hold : ∀ (v : ℕ) w, x.insert.viewers[v]? = some w →
      x.viewers[v]? = some w ∨ w = Viewer.fresh := fun _ _ hv => Agents.getElem?_append_cases hv
  -- no broadcast is under way
  have howed : ∀ v, x.owed v = [] := by
    intro v
    have hpump := hinv.pump
    rw [owed]
    rw [PumpInv, hbroadcasts] at hpump
    split
    · next hp =>
      rw [hp] at hpump
      obtain ⟨⟨w, k, -, -, hput, -⟩, -⟩ := hpump
      simp at hput
    · next hp =>
      rw [hp] at hpump
      obtain ⟨⟨log, hlog⟩, -⟩ := hpump
      simp at hlog
    · next hp => rw [muHeld_goto_sendAll hp] at hmu; cases hmu
    · rfl
  constructor
  · intro v w hv hm
    rcases hold v w hv with hv | rfl
    · exact h.members v w hv hm
    · rw [show x.insert.owed v = [] from howed v, show x.insert.broadcasts = [] from hbroadcasts]
      rfl
  · intro v w hv hm hr
    rcases hold v w hv with hv | rfl
    · exact h.closed v w hv hm hr
    · cases hm
  · intro u c last hp v w hv hm
    have hc := howed v
    rw [owed, show x.pump = _ from hp] at hc
    cases hc
  · exact fun hl => .inl (hlast hl)
  · exact h.opened

/-! ### The goroutine -/

/-- It goes on, with the viewers and the broadcasts as they are. -/
theorem goto (h : x.Whole body) {p : Pump Bytes}
    (howed : ∀ (v : ℕ) w, x.viewers[v]? = some w → w.member = true → (x.goto p).owed v = x.owed v)
    (hsweeps : x.sweeps = false ∨ (x.goto p).sweeps = true)
    (hlast : (x.goto p).lastRead = true → (x.goto p).received = body ∨ x.isEmpty = true)
    (hp : settled p = true) : (x.goto p).Whole body where
  members v w hv hm := by
    rw [howed v w hv hm]
    exact h.members v w hv hm
  closed v w hv hm hr := by
    obtain ⟨hs, hbody⟩ := h.closed v w hv hm hr
    rw [hs] at hsweeps
    exact ⟨hsweeps.resolve_left (by decide), hbody⟩
  only u c last hu := by
    rw [show p = _ from hu] at hp
    cases hp
  last := hlast
  opened hu := by
    rw [show p = _ from hu] at hp
    cases hp

/-- It goes on, and owes as much as it did. -/
theorem pass (h : x.Whole body) {p q : Pump Bytes} (hq : x.pump = q)
    (howed : ∀ v, (x.goto p).owed v = (x.goto q).owed v)
    (hsweeps : (x.goto q).sweeps = false ∨ (x.goto p).sweeps = true)
    (hlast : (x.goto p).lastRead = true → (x.goto p).received = body ∨ x.isEmpty = true)
    (hp : settled p = true) : (x.goto p).Whole body := by
  have hsame : x.goto q = x := by
    rw [← hq]
    rfl
  rw [hsame] at hsweeps
  exact h.goto (fun v _ _ _ => (howed v).trans (congrArg (owed · v) hsame)) hsweeps hlast hp

/-- The map was empty when the goroutine gave up. -/
theorem giveUp (h : x.Whole body) {p : Pump Bytes} (he : x.isEmpty = true)
    (hsweeps : x.sweeps = false ∨ (x.goto p).sweeps = true) (hp : settled p = true) :
    (x.goto p).Whole body :=
  h.goto (fun _ _ hv hm => (not_member he hv hm).elim) hsweeps (fun _ => .inr he) hp

/-- A broadcast begins. -/
theorem look (h : x.Whole body) {c : Bytes} {last : Bool} (hp : x.pump = .look c last)
    (hs : x.step .go = some y) : y.Whole body := by
  have hclosed : ∀ (v : ℕ) w, x.viewers[v]? = some w → w.member = false → w.removed = true := by
    intro v w hv hm
    by_contra hr
    have hsweeps := (h.closed v w hv hm (by simpa using hr)).1
    rw [sweeps, hp] at hsweeps
    cases hsweeps
  have hput : ∀ (v : ℕ) w, x.viewers[v]? = some w → w.member = true →
      w.put ++ [c] = x.broadcasts ++ [c] := by
    intro v w hv hm
    have hmembers := h.members v w hv hm
    rw [owed, hp, List.append_nil] at hmembers
    rw [hmembers]
  have hreceived : x.received = (x.broadcasts ++ [c]).flatten := by
    rw [received, hp]
    simp
  have hlast : last = true → (x.broadcasts ++ [c]).flatten = body ∨ x.isEmpty = true := by
    intro hl
    rw [← hreceived]
    exact h.last (by rw [lastRead, hp]; exact hl)
  rw [Session.step, hp] at hs
  dsimp only at hs
  split at hs
  · next u hu =>
    -- the only viewer is waited for
    obtain rfl := Option.some.inj hs
    have hold : ∀ (v : ℕ) w, ({ x with broadcasts := x.broadcasts ++ [c] }.looked).viewers[v]? =
        some w → ∃ w₀, x.viewers[v]? = some w₀ ∧ w.put = w₀.put ∧ w.member = w₀.member ∧
          w.removed = w₀.removed := by
      intro v w hv
      obtain ⟨w₀, hw₀, rfl⟩ := looked_cases hv
      exact ⟨w₀, hw₀, rfl, rfl, rfl⟩
    have hne : x.isEmpty = false := by
      rw [isEmpty, hu]
      rfl
    constructor
    · intro v w hv hm
      obtain ⟨w₀, hw₀, hp₀, hm₀, -⟩ := hold v w hv
      rw [hp₀]
      exact hput v w₀ hw₀ (hm₀ ▸ hm)
    · intro v w hv hm hr
      obtain ⟨w₀, hw₀, -, hm₀, hr₀⟩ := hold v w hv
      rw [hr₀, hclosed v w₀ hw₀ (hm₀ ▸ hm)] at hr
      cases hr
    · intro u' c' last' hu' v w hv hm
      obtain ⟨w₀, hw₀, -, hm₀, -⟩ := hold v w hv
      have hmem : v ∈ x.members := mem_members.mpr ⟨w₀, hw₀, hm₀ ▸ hm⟩
      rw [hu, List.mem_singleton] at hmem
      cases hu'
      exact hmem
    · intro hl
      rcases hlast hl with hbody | he
      · exact .inl (by rw [received]; simpa [Session.goto, looked] using hbody)
      · rw [hne] at he
        cases he
    · intro hp'
      cases hp'
  · obtain rfl := Option.some.inj hs
    constructor
    · exact fun v w hv hm => hput v w hv hm
    · intro v w hv hm hr
      rw [hclosed v w hv hm] at hr
      cases hr
    · intro _ _ _ hp'
      cases hp'
    · intro hl
      rcases hlast hl with hbody | he
      · exact .inl (by rw [received]; simpa [Session.goto] using hbody)
      · exact .inr he
    · intro hp'
      cases hp'

/-- The viewers are counted again, under the lock. -/
theorem lockAll (h : x.Whole body) {c : Bytes} {last : Bool} (hp : x.pump = .lockAll c last) :
    (x.looked.goto (.sendAll c x.members last)).Whole body := by
  have hold : ∀ (v : ℕ) w, x.looked.viewers[v]? = some w → ∃ w₀, x.viewers[v]? = some w₀ ∧
      w.put = w₀.put ∧ w.member = w₀.member ∧ w.removed = w₀.removed := by
    intro v w hv
    obtain ⟨w₀, hw₀, rfl⟩ := looked_cases hv
    exact ⟨w₀, hw₀, rfl, rfl, rfl⟩
  constructor
  · intro v w hv hm
    obtain ⟨w₀, hw₀, hp₀, hm₀, -⟩ := hold v w hv
    have hmem : v ∈ x.members := mem_members.mpr ⟨w₀, hw₀, hm₀ ▸ hm⟩
    have hmembers := h.members v w₀ hw₀ (hm₀ ▸ hm)
    rw [owed, hp] at hmembers
    rw [hp₀, owed]
    simpa [Session.goto, looked, hmem] using hmembers
  · intro v w hv hm hr
    obtain ⟨w₀, hw₀, hp₀, hm₀, hr₀⟩ := hold v w hv
    have hsweeps := (h.closed v w₀ hw₀ (hm₀ ▸ hm) (hr₀ ▸ hr)).1
    rw [sweeps, hp] at hsweeps
    cases hsweeps
  · intro _ _ _ hp'
    cases hp'
  · intro hl
    have hlast := h.last (by rw [lastRead, hp]; exact hl)
    rw [received, hp] at hlast
    refine hlast.imp (fun hbody => ?_) fun he => isEmpty_iff.mpr fun v w hv => ?_
    · rw [received]
      exact hbody
    · obtain ⟨w₀, hw₀, -, hm₀, -⟩ := hold v w hv
      rw [hm₀]
      exact isEmpty_iff.mp he v w₀ hw₀
  · intro hp'
    cases hp'

/-- A viewer is given the chunk in hand. -/
theorem give (h : x.Whole body) {u : ℕ} {c : Bytes} {p : Pump Bytes}
    (hu : ∀ w, x.viewers[u]? = some w → w.member = true → x.owed u = [c])
    (hbusy : x.sweeps = false)
    (hmine : ((x.modify u (.enqueue c)).goto p).owed u = [])
    (hothers : ∀ (v : ℕ) w, v ≠ u → x.viewers[v]? = some w → w.member = true →
      ((x.modify u (.enqueue c)).goto p).owed v = x.owed v)
    (hlast : (x.goto p).lastRead = true → (x.goto p).received = body ∨ x.isEmpty = true)
    (hp : settled p = true) : ((x.modify u (.enqueue c)).goto p).Whole body where
  members v w hv hm := by
    obtain ⟨w₀, hw₀, ⟨rfl, rfl⟩ | ⟨hne, rfl⟩⟩ := modify_cases hv
    · have hmembers := h.members v w₀ hw₀ hm
      rw [hu w₀ hw₀ hm] at hmembers
      rw [hmine, List.append_nil]
      exact hmembers
    · rw [hothers v w hne hw₀ hm]
      exact h.members v w hw₀ hm
  closed v w hv hm hr := by
    obtain ⟨w₀, hw₀, hw⟩ := modify_cases hv
    have hout : w₀.member = false ∧ w₀.removed = false := by
      obtain ⟨-, rfl⟩ | ⟨-, rfl⟩ := hw
      · exact ⟨hm, hr⟩
      · exact ⟨hm, hr⟩
    rw [(h.closed v w₀ hw₀ hout.1 hout.2).1] at hbusy
    cases hbusy
  only u' c' last hu' := by
    rw [show p = _ from hu'] at hp
    cases hp
  last hl := by
    refine (hlast hl).imp id fun he => isEmpty_iff.mpr fun v w hv => ?_
    obtain ⟨w₀, hw₀, ⟨-, rfl⟩ | ⟨-, rfl⟩⟩ := modify_cases hv
    · exact isEmpty_iff.mp he v w₀ hw₀
    · exact isEmpty_iff.mp he v w hw₀
  opened hu' := by
    rw [show p = _ from hu'] at hp
    cases hp

/-- The only viewer takes the chunk. -/
theorem sent (h : x.Whole body) {u : ℕ} {c : Bytes} {last : Bool}
    (hp : x.pump = .sendOnly u c last) :
    ((x.modify u (.enqueue c)).goto (.endOfRead last)).Whole body := by
  refine h.give (fun w _ _ => by rw [owed, hp]) (by rw [sweeps, hp]) rfl ?_ ?_ rfl
  · intro v w hne hv hm
    exact absurd (h.only u c last hp v w hv hm) hne
  · intro hl
    have hlast := h.last (by rw [lastRead, hp]; exact hl)
    rw [received, hp] at hlast
    exact hlast

/-- One turn of the loop of `broadcast`, with room in the queue. -/
theorem offer (h : x.Whole body) (hinv : x.Inv) {c : Bytes} {todo : List ℕ} {last : Bool} {u : ℕ}
    (hp : x.pump = .sendAll c todo last) (hu : u ∈ todo)
    (hroom : ∀ w, x.viewers[u]? = some w → w.hasRoom = true) :
    ((x.modify u (Session.offer c)).goto (.sendAll c (todo.erase u) last)).Whole body := by
  have hpump := hinv.pump
  rw [PumpInv, hp] at hpump
  obtain ⟨hnd, -, -⟩ := hpump
  have hsame : x.modify u (Session.offer c) = x.modify u (.enqueue c) := by
    rw [Session.modify, Session.modify]
    congr 1
    apply List.ext_getElem?
    intro v
    rw [List.getElem?_modify, List.getElem?_modify]
    split
    · next huv =>
      subst huv
      rcases hw : x.viewers[u]? with _ | w
      · rfl
      · exact congrArg some (if_pos (hroom w hw))
    · rfl
  rw [hsame]
  refine h.give (fun w _ _ => by rw [owed, hp]; exact if_pos hu) (by rw [sweeps, hp]) ?_ ?_ ?_
    rfl
  · exact if_neg fun hmem => ((List.Nodup.mem_erase_iff hnd).mp hmem).1 rfl
  · intro v w hne _ _
    rw [owed, owed, hp]
    have hiff : v ∈ todo.erase u ↔ v ∈ todo := by
      rw [List.Nodup.mem_erase_iff hnd]
      exact and_iff_right hne
    simp only [Session.goto, hiff]
  · intro hl
    have hlast := h.last (by rw [lastRead, hp]; exact hl)
    rw [received, hp] at hlast
    exact hlast

/-- `finish` closes a viewer. -/
theorem sweep (h : x.Whole body) {u : ℕ} (hp : x.pump = .sweep) (hu : u ∈ x.members) :
    (x.modify u .drop).Whole body := by
  obtain ⟨w₁, hw₁, hm₁⟩ := mem_members.mp hu
  have hbody : x.broadcasts.flatten = body := by
    rcases h.last (by rw [lastRead, hp]) with hbody | he
    · rw [received, hp] at hbody
      simpa using hbody
    · exact (not_member he hw₁ hm₁).elim
  constructor
  · intro v w hv hm
    obtain ⟨w₀, hw₀, ⟨rfl, rfl⟩ | ⟨-, rfl⟩⟩ := modify_cases hv
    · cases hm
    · exact h.members v w hw₀ hm
  · intro v w hv hm hr
    obtain ⟨w₀, hw₀, ⟨rfl, rfl⟩ | ⟨-, rfl⟩⟩ := modify_cases hv
    · obtain rfl := Option.some.inj (hw₁.symm.trans hw₀)
      have hmembers := h.members v w₁ hw₁ hm₁
      rw [owed, hp, List.append_nil] at hmembers
      refine ⟨(by rw [sweeps, show (x.modify v .drop).pump = .sweep from hp]), ?_⟩
      rw [← hbody, ← hmembers]
      rfl
    · exact h.closed v w hw₀ hm hr
  · intro _ _ _ hp'
    rw [show x.pump = _ from hp'] at hp
    cases hp
  · intro _
    refine .inl ?_
    rw [received, show (x.modify u .drop).pump = .sweep from hp, List.append_nil]
    exact hbody
  · intro hp'
    rw [show x.pump = _ from hp'] at hp
    cases hp

/-- The next statement. -/
theorem go (h : x.Whole body) (hattentive : (Choice.go).Attentive body x)
    (hs : x.step .go = some y) : y.Whole body := by
  have hlast := h.last
  rcases hp : x.pump with _ | opened | _ | _ | ⟨c, last⟩ | _ | ⟨c, last⟩ | ⟨c, todo, last⟩ |
    last | last | _ | _ | _ | _ | _
  case look => exact h.look hp hs
  case lockAll =>
    simp only [Session.step, hp] at hs
    obtain rfl := Option.some.inj hs
    exact h.lockAll hp
  case sendAll =>
    cases todo with
    | cons u todo =>
      simp only [Session.step, hp] at hs
      cases hs
    | nil =>
      simp only [Session.step, hp] at hs
      obtain rfl := Option.some.inj hs
      rw [lastRead, received, hp] at hlast
      split
      · exact h.pass hp (fun _ => rfl) (.inl rfl) hlast rfl
      · exact h.pass hp (fun _ => rfl) (.inl rfl) hlast rfl
  case closeReady =>
    cases opened with
    | false => exact absurd hp h.opened
    | true =>
      simp only [Session.step, hp] at hs
      obtain rfl := Option.some.inj hs
      have hgoto : (x.goto .waitStart).Whole body :=
        h.pass hp (fun _ => rfl) (.inl rfl) (fun hl => by cases hl) rfl
      exact hgoto.of_same rfl rfl rfl
  case cancelEmpty =>
    simp only [Session.step, hp] at hs
    obtain rfl := Option.some.inj hs
    rw [lastRead, received, hp] at hlast
    have hgoto : (x.goto (.endOfRead last)).Whole body :=
      h.pass hp (fun _ => rfl) (.inl rfl) hlast rfl
    exact hgoto.of_same rfl rfl rfl
  case endOfRead =>
    simp only [Session.step, hp] at hs
    obtain rfl := Option.some.inj hs
    rw [lastRead, received, hp] at hlast
    have howed : ∀ p : Pump Bytes, p = .finish ∨ p = .read → ∀ (v : ℕ) w, x.viewers[v]? = some w →
        w.member = true → (x.goto p).owed v = x.owed v := by
      rintro p (rfl | rfl) v w - -
      · rw [owed, owed, hp]; rfl
      · rw [owed, owed, hp]; rfl
    split
    · next hend =>
      refine h.goto (howed _ (.inl rfl)) (.inl (by rw [sweeps, hp])) (fun _ => ?_) rfl
      cases last with
      | true => exact hlast rfl
      | false => exact .inr (hattentive hp (by simpa using hend))
    · exact h.goto (howed _ (.inr rfl)) (.inl (by rw [sweeps, hp])) (fun hl => by cases hl) rfl
  case finish =>
    simp only [Session.step, hp] at hs
    obtain rfl := Option.some.inj hs
    rw [lastRead, received, hp] at hlast
    have hgoto : (x.goto .sweep).Whole body :=
      h.pass hp (fun _ => rfl) (.inr rfl) hlast rfl
    exact hgoto.of_same rfl rfl rfl
  case sweep =>
    simp only [Session.step, hp] at hs
    split at hs
    · next he =>
      obtain rfl := Option.some.inj hs
      exact h.giveUp he (.inr rfl) rfl
    · cases hs
  case closeDone =>
    simp only [Session.step, hp] at hs
    obtain rfl := Option.some.inj hs
    rw [lastRead, received, hp] at hlast
    have hgoto : (x.goto .unregister).Whole body :=
      h.pass hp (fun _ => rfl) (.inr rfl) hlast rfl
    exact hgoto.of_same rfl rfl rfl
  all_goals
    simp only [Session.step, hp] at hs
    cases hs

/-- `run` returns. -/
theorem ended (h : x.Whole body) (hp : x.pump = .unregister) : (x.goto .ended).Whole body := by
  have hlast := h.last
  rw [lastRead, received, hp] at hlast
  exact h.pass hp (fun _ => rfl) (.inr rfl) hlast rfl

/-- **One step** of the goroutine. -/
theorem step (h : x.Whole body) (hinv : x.Inv) {ch : Choice Bytes} (hdelivers : ch.Delivers body x)
    (hattentive : ch.Attentive body x) (hs : x.step ch = some y) : y.Whole body := by
  cases ch with
  | opened err =>
    simp only [Session.step] at hs
    split at hs
    · next hp =>
      obtain rfl := Option.some.inj hs
      obtain rfl := hdelivers
      have hgoto : (x.goto (.closeReady true)).Whole body :=
        h.pass hp (fun _ => rfl) (.inl rfl) (fun hl => by cases hl) rfl
      exact hgoto.of_same rfl rfl rfl
    · cases hs
  | go => exact h.go hattentive hs
  | ctxDone =>
    simp only [Session.step] at hs
    split at hs
    · cases hs
    · split at hs
      · next hp =>
        obtain rfl := Option.some.inj hs
        exact h.giveUp hattentive (.inl (by rw [sweeps, hp])) rfl
      · next hp =>
        obtain rfl := Option.some.inj hs
        exact h.giveUp hattentive (.inl (by rw [sweeps, hp])) rfl
      · cases hs
  | started =>
    simp only [Session.step] at hs
    split at hs
    · next hp =>
      split at hs
      · obtain rfl := Option.some.inj hs
        exact h.pass hp (fun _ => rfl) (.inl rfl) (fun hl => by cases hl) rfl
      · cases hs
    · cases hs
  | data c last =>
    obtain ⟨-, hend⟩ := hdelivers
    -- a read that fails before the end finds nobody there
    have hread : last = true → x.received ++ c.getD [] = body ∨ x.isEmpty = true := by
      intro hl
      by_cases hbody : x.received ++ c.getD [] = body
      · exact .inl hbody
      · exact .inr (hattentive hl hbody)
    simp only [Session.step] at hs
    split at hs
    · next c hp =>
      obtain rfl := Option.some.inj hs
      refine h.pass hp (fun _ => rfl) (.inl rfl) ?_ rfl
      intro hl
      rw [received, hp, List.append_nil] at hread
      exact hread hl
    · next hp =>
      obtain rfl := Option.some.inj hs
      refine h.pass hp (fun _ => rfl) (.inl rfl) ?_ rfl
      intro hl
      rw [received, hp, List.append_nil] at hread
      exact hread hl
    · cases hs
  | viewerClosed =>
    simp only [Session.step] at hs
    split at hs
    · next u c last hp =>
      split at hs
      · next hc =>
        obtain rfl := Option.some.inj hs
        -- a closed viewer is not in the map, and it was the only one
        refine h.giveUp (isEmpty_iff.mpr fun v w hv => ?_) (.inl (by rw [sweeps, hp]))
          rfl
        by_contra hm
        have hm : w.member = true := by simpa using hm
        obtain rfl := h.only u c last hp v w hv hm
        rw [hv, Option.map_some, Option.getD_some, (hinv.viewers v w hv).isOpen hm] at hc
        cases hc
      · cases hs
    · cases hs
  | sent =>
    simp only [Session.step] at hs
    split at hs
    · next u c last hp =>
      split at hs
      · obtain rfl := Option.some.inj hs
        exact h.sent hp
      · cases hs
    · cases hs
  | visit u =>
    simp only [Session.step] at hs
    split at hs
    · next c todo last hp =>
      split at hs
      · next hu =>
        obtain rfl := Option.some.inj hs
        exact h.offer hinv hp hu (hattentive c todo last hp)
      · cases hs
    · next hp =>
      split at hs
      · next hu =>
        obtain rfl := Option.some.inj hs
        exact h.sweep hp hu
      · cases hs
    · cases hs

end Whole

/-- Only the sweep stays where it is. -/
theorem visit_of_step {ch : Choice Bytes} (hs : x.step ch = some y) (hpump : y.pump = x.pump) :
    ∃ v, ch = .visit v ∧ x.pump = .sweep := by
  unfold Session.step at hs
  split at hs <;> split at hs <;> try split at hs
  all_goals cases hs
  all_goals first
    | exact ⟨_, rfl, ‹x.pump = .sweep›⟩
    | simp_all [Session.goto, Session.modify, looked, cancel]

/-- A move that leaves the goroutine where it is. -/
theorem Whole.called (h : x.Whole body) (hinv : x.Inv) (hy : x.Evolves (Joinable body) y)
    (hpump : y.pump = x.pump) : y.Whole body := by
  cases hy with
  | pump ch hs =>
    obtain ⟨v, rfl, hp⟩ := visit_of_step hs hpump
    simp only [Session.step, hp] at hs
    split at hs
    · next hv =>
      obtain rfl := Option.some.inj hs
      exact h.sweep hp hv
    · cases hs
  | unregister hp => cases hpump.trans hp
  | insert hmu hjoin => exact h.insert hinv hmu hjoin
  | remove v hmu => exact h.remove v
  | cancel => exact h.of_same rfl rfl rfl
  | closeStart => exact h.of_same rfl rfl rfl
  | take hv hq => exact h.modify (fun _ => rfl) fun _ => .inl ⟨rfl, rfl⟩
  | eof hv hc hq => exact h.modify (fun _ => rfl) fun _ => .inl ⟨rfl, rfl⟩

end Session

/-! ## Runs -/

/-- A caller leaves the goroutines where they are. -/
theorem pump_of_stepWith {s t : State Bytes} {i n : ℕ} {x : Session Bytes} {pc : Pc} {b : Branch}
    (h : stepWith s i n x pc b = some t) :
    t.sessions = s.sessions ∨ ∃ y, y.pump = x.pump ∧ t.sessions = s.sessions.set n y := by
  cases pc with
  | cancel m =>
    cases b <;> cases h
    exact .inr ⟨x.cancel, rfl, rfl⟩
  | closeStart m v =>
    cases b <;> cases h
    exact .inr ⟨x.closeStart, rfl, rfl⟩
  | addViewer m =>
    cases b <;> simp only [stepWith] at h
    all_goals try split at h
    all_goals cases h
    exact .inr ⟨x.insert, rfl, rfl⟩
  | remove m v =>
    cases b <;> simp only [stepWith] at h
    all_goals try split at h
    all_goals cases h
    exact .inr ⟨x.remove v, rfl, rfl⟩
  | next m v | nextClosed m v =>
    cases b <;> simp only [stepWith] at h
    case go =>
      obtain ⟨w, hw, rfl⟩ := Option.map_eq_some_iff.mp h
      split
      all_goals first
        | exact .inl rfl
        | exact .inr ⟨x.modify v _, rfl, rfl⟩
    all_goals cases h
  | nextWait m v =>
    cases b <;> simp only [stepWith] at h
    case go =>
      obtain ⟨w, hw, h⟩ := Option.bind_eq_some_iff.mp h
      split at h <;> cases h
      exact .inr ⟨x.modify v _, rfl, rfl⟩
    case ctxDone =>
      cases h
      exact .inl rfl
    case closed =>
      obtain ⟨w, hw, h⟩ := Option.bind_eq_some_iff.mp h
      split at h <;> cases h
      exact .inl rfl
  | _ =>
    cases b <;> simp only [stepWith] at h
    all_goals try split at h
    all_goals cases h
    all_goals exact .inl rfl

/-- **One step** keeps the invariant of session `n`. -/
theorem whole_of_step {n : ℕ} {body : Bytes} {s t : State Bytes} {a : Action Bytes} (hinv : s.Inv)
    (h : ∀ x, s.sessions[n]? = some x → x.Whole body) (hdelivers : Delivers n body s a)
    (hattentive : Attentive n body s a) (ht : step s a = some t) :
    ∀ x, t.sessions[n]? = some x → x.Whole body := by
  intro y hy
  cases a with
  | pump m ch =>
    obtain ⟨x, hx, hs⟩ := Option.bind_eq_some_iff.mp ht
    -- another session moves
    have hother : ∀ {z : Session Bytes}, t.sessions = s.sessions.set m z → m ≠ n → y.Whole body := by
      intro z hz hmn
      rw [hz, List.getElem?_set_ne hmn] at hy
      exact h y hy
    unfold stepPump at hs
    split at hs
    · next hp =>
      obtain rfl := Option.some.inj hs
      by_cases hmn : m = n
      · subst hmn
        obtain rfl := Option.some.inj ((Agents.getElem?_of_eq_set rfl hx).symm.trans hy)
        exact (h x hx).ended hp
      · exact hother rfl hmn
    · obtain ⟨z, hz, rfl⟩ := Option.map_eq_some_iff.mp hs
      by_cases hmn : m = n
      · subst hmn
        obtain rfl := Option.some.inj ((Agents.getElem?_of_eq_set rfl hx).symm.trans hy)
        exact (h x hx).step (hinv.sessions m x hx) (hdelivers rfl x hx) (hattentive rfl x hx) hz
      · exact hother rfl hmn
  | run i b =>
    obtain ⟨pc, hi, hs⟩ := Option.bind_eq_some_iff.mp ht
    unfold stepThread at hs
    split at hs
    · next key =>
      obtain rfl := Option.some.inj hs
      split at hy
      · exact h y hy
      · rcases Agents.getElem?_append_cases hy with hy | rfl
        · exact h y hy
        · exact .fresh key
    · obtain ⟨m, hm, hs⟩ := Option.bind_eq_some_iff.mp hs
      obtain ⟨x, hx, hs⟩ := Option.bind_eq_some_iff.mp hs
      rcases pump_of_stepWith hs with hsame | ⟨z, hpump, hz⟩
      · exact h y (hsame ▸ hy)
      · by_cases hmn : m = n
        · subst hmn
          obtain rfl := Option.some.inj ((Agents.getElem?_of_eq_set hz hx).symm.trans hy)
          have hmoves : s.Moves (Session.Joinable body) t := by
            refine moves_of_stepWith hx hm (fun hpc => hattentive (hpc ▸ hi) x hx) ?_ hs
            rintro v rfl w hw
            obtain ⟨x', w', hx', hw', hc⟩ := hinv.waiting i m v hi
            obtain rfl := Option.some.inj (hx.symm.trans hx')
            obtain rfl := Option.some.inj (hw.symm.trans hw')
            exact hc
          obtain ⟨z', hz', hev⟩ := hmoves.of_session hx
          obtain rfl := Option.some.inj (hy.symm.trans hz')
          rcases hev with rfl | hev
          · exact h _ hx
          · exact (h x hx).called (hinv.sessions m x hx) hev hpump
        · rw [hz, List.getElem?_set_ne hmn] at hy
          exact h y hy
  | _ =>
    obtain rfl := Option.some.inj ht
    exact h y hy

/-- **A shared playlist is complete**, in every run whose steps serve the clients of the session: a
client whose `readMultiplexedHLS` returns without error gets the whole upstream body. -/
theorem shared_playlist_complete {n : ℕ} {body : Bytes} {s : State Bytes}
    (hrun : Run step (fun s a => Delivers n body s a ∧ Attentive n body s a) init s) :
    Complete n body s := by
  have hall : s.Inv ∧ ∀ x, s.sessions[n]? = some x → x.Whole body := by
    refine hrun.invariant (I := fun s : State Bytes =>
      s.Inv ∧ ∀ x, s.sessions[n]? = some x → x.Whole body) ?_ ⟨State.inv_init, nofun⟩
    rintro s a t ⟨hinv, h⟩ ⟨hdelivers, hattentive⟩ ht
    exact ⟨hinv.step ht, whole_of_step hinv h hdelivers hattentive ht⟩
  intro x v w result hx hv hr hread
  obtain ⟨heof, rfl⟩ := eq_of_readMultiplexedHLS hread
  obtain ⟨m, hm⟩ := Option.isSome_iff_exists.mp heof
  have hw := (hall.1.sessions n x hx).viewers v w hv
  have hout : w.member = false := by
    by_contra hmember
    have hopen := hw.isOpen (by simpa using hmember)
    rw [(hw.drained m hm).1] at hopen
    cases hopen
  obtain ⟨-, hbody⟩ := (hall.2 x hx).closed v w hv hout hr
  have hdelivered := (delivery (hrun.mono fun _ _ _ => trivial) hx hv).2.2 hr m hm
  rw [hdelivered, hbody]

/-! ## Scripted runs -/

/-- The test for `Choice.Delivers`. -/
def Session.Choice.delivers (body : Bytes) (x : Session Bytes) : Session.Choice Bytes → Bool
  | .opened err => err.isNone
  | .data c last =>
    (x.received ++ c.getD []).isPrefixOf body &&
      (!last || decide (x.received ++ c.getD [] = body) || x.cancelled)
  | _ => true

/-- The test for `Choice.Attentive`. -/
def Session.Choice.attentive (body : Bytes) (x : Session Bytes) : Session.Choice Bytes → Bool
  | .ctxDone => x.isEmpty
  | .data c last => !last || decide (x.received ++ c.getD [] = body) || x.isEmpty
  | .go => !x.cancelled || x.isEmpty || decide (x.pump ≠ .endOfRead false)
  | .visit v => (x.viewers[v]?.map Viewer.hasRoom).getD true
  | _ => true

/-- The test for `Delivers 0`. -/
def delivers (body : Bytes) (s : State Bytes) : Action Bytes → Bool
  | .pump _ ch => s.sessions[0]?.all fun x => ch.delivers body x
  | _ => true

/-- The test for both conditions on session 0. -/
def served (body : Bytes) (s : State Bytes) : Action Bytes → Bool
  | .pump _ ch => s.sessions[0]?.all fun x => ch.delivers body x && ch.attentive body x
  | .run i _ => decide (s.threads[i]? ≠ some (.addViewer 0)) ||
    s.sessions[0]?.all fun x => x.broadcasts.isEmpty && !x.lastRead
  | _ => true

theorem Session.Choice.delivers_sound {body : Bytes} {x : Session Bytes} {ch : Session.Choice Bytes}
    (h : ch.delivers body x = true) : ch.Delivers body x := by
  cases ch with
  | opened err => exact Option.isNone_iff_eq_none.mp h
  | data c last =>
    simp only [delivers, Bool.and_eq_true, Bool.or_eq_true, Bool.not_eq_true', decide_eq_true_eq,
      List.isPrefixOf_iff_prefix] at h
    refine ⟨h.1, fun hl => ?_⟩
    rcases h.2 with (hnot | hbody) | hc
    · rw [hl] at hnot
      cases hnot
    · exact .inl hbody
    · exact .inr hc
  | _ => trivial

theorem Session.Choice.attentive_sound {body : Bytes} {x : Session Bytes}
    {ch : Session.Choice Bytes} (h : ch.attentive body x = true) : ch.Attentive body x := by
  cases ch with
  | ctxDone => exact h
  | data c last =>
    simp only [attentive, Bool.or_eq_true, Bool.not_eq_true', decide_eq_true_eq] at h
    intro hl hnot
    rcases h with (hl' | hbody) | he
    · rw [hl] at hl'
      cases hl'
    · exact absurd hbody hnot
    · exact he
  | go =>
    simp only [attentive, Bool.or_eq_true, Bool.not_eq_true', decide_eq_true_eq] at h
    intro hp hc
    rcases h with (hlive | he) | hnot
    · rw [hc] at hlive
      cases hlive
    · exact he
    · exact absurd hp hnot
  | visit v =>
    intro c todo last _ w hw
    simpa [attentive, hw] using h
  | _ => trivial

theorem delivers_sound {body : Bytes} (s : State Bytes) (a : Action Bytes)
    (h : delivers body s a = true) : Delivers 0 body s a := by
  cases a with
  | pump m ch =>
    intro _ x hx
    rw [delivers, hx] at h
    exact Session.Choice.delivers_sound h
  | _ => trivial

theorem served_sound {body : Bytes} (s : State Bytes) (a : Action Bytes)
    (h : served body s a = true) : Delivers 0 body s a ∧ Attentive 0 body s a := by
  cases a with
  | pump m ch =>
    have hboth : ∀ x, s.sessions[0]? = some x → ch.Delivers body x ∧ ch.Attentive body x := by
      intro x hx
      rw [served, hx] at h
      obtain ⟨hdelivers, hattentive⟩ := (Bool.and_eq_true ..).mp h
      exact ⟨Session.Choice.delivers_sound hdelivers, Session.Choice.attentive_sound hattentive⟩
    exact ⟨fun _ x hx => (hboth x hx).1, fun _ x hx => (hboth x hx).2⟩
  | run i b =>
    refine ⟨trivial, fun hi x hx => ?_⟩
    simp only [served, hi, hx, ne_eq, not_true_eq_false, decide_false, Bool.false_or,
      Option.all_some, Bool.and_eq_true, List.isEmpty_iff, Bool.not_eq_true'] at h
    exact ⟨h.1, fun hl => by rw [h.2] at hl; cases hl⟩
  | _ => exact ⟨trivial, trivial⟩

/-- What the client of viewer 1 of session 0 gets. -/
def secondResult (s : State Bytes) : Option (Bool × Option (Option Bytes)) :=
  (s.sessions[0]?.bind fun x => x.viewers[1]?).map fun w =>
    (w.removed, (readMultiplexedHLS w.answers).map Except.toOption)

/-- `#E` in two chunks. -/
def shortPlaylist : Bytes := [35, 69]

/-- A chunk for both viewers. -/
def toBoth (c : Bytes) (last : Bool) : List (Action Bytes) :=
  [.pump 0 (.data (some c) last), .pump 0 .go, .pump 0 .go, .pump 0 (.visit 0), .pump 0 (.visit 1),
    .pump 0 .go, .pump 0 .go]

/-- The end of the session. -/
def finishes : List (Action Bytes) :=
  [.pump 0 .go, .pump 0 (.visit 0), .pump 0 (.visit 1), .pump 0 .go, .pump 0 .go, .pump 0 .go]

/-- Two clients come before the first broadcast. -/
def bothInTime : List (Action Bytes) :=
  List.flatten [[.subscribe "k", .run 0 .go, .subscribe "k", .run 1 .go, .pump 0 (.opened none),
      .pump 0 .go],
    List.replicate 5 (.run 0 .go), List.replicate 5 (.run 1 .go), [.pump 0 .started],
    toBoth [35] false, toBoth [69] true, finishes,
    [.next 0 1, .run 2 .go, .next 0 1, .run 3 .go, .next 0 1, .run 4 .go, .run 4 .closed,
      .run 4 .go]]

/-- The second one gets the body. -/
theorem shared_playlist_complete_two :
    ∃ s, Run step (fun s a => Delivers 0 shortPlaylist s a ∧ Attentive 0 shortPlaylist s a) init s ∧
      Complete 0 shortPlaylist s ∧ secondResult s = some (false, some (some shortPlaylist)) := by
  have h : (exec (fun s a => if served shortPlaylist s a then step s a else none) init
      bothInTime).map secondResult = some (some (false, some (some shortPlaylist))) := by
    decide
  obtain ⟨s, hrun, hresult⟩ := Run.of_tested served_sound h
  exact ⟨s, hrun, shared_playlist_complete hrun, hresult⟩

/-! ## A client that comes too late -/

/-- The second client comes after the first broadcast. -/
def secondTooLate : List (Action Bytes) :=
  List.flatten [[.subscribe "k", .run 0 .go, .pump 0 (.opened none), .pump 0 .go],
    List.replicate 5 (.run 0 .go),
    [.pump 0 .started, .pump 0 (.data (some [35]) false), .pump 0 .go, .pump 0 .sent, .pump 0 .go,
      .subscribe "k"],
    List.replicate 6 (.run 1 .go), toBoth [69] true, finishes,
    [.next 0 1, .run 2 .go, .next 0 1, .run 3 .go, .run 3 .closed, .run 3 .go]]

/-- **The claim fails**: it gets the second chunk alone, without an error. -/
theorem late_client_gets_a_part :
    ∃ body s, Run step (Delivers 0 body) init s ∧ ¬Complete 0 body s := by
  have h : (exec (fun s a => if delivers shortPlaylist s a then step s a else none) init
      secondTooLate).map secondResult = some (some (false, some (some [69]))) := by
    decide
  obtain ⟨s, hrun, hresult⟩ := Run.of_tested delivers_sound h
  refine ⟨shortPlaylist, s, hrun, fun hcomplete => ?_⟩
  obtain ⟨w, hw, hobs⟩ := Option.map_eq_some_iff.mp hresult
  obtain ⟨x, hx, hv⟩ := Option.bind_eq_some_iff.mp hw
  obtain ⟨hr, hread⟩ := Prod.mk.inj hobs
  obtain ⟨outcome, houtcome, hok⟩ := Option.map_eq_some_iff.mp hread
  obtain rfl : outcome = .ok [69] := by
    cases outcome with
    | error message => cases hok
    | ok result => exact congrArg Except.ok (Option.some.inj hok)
  have hbody := hcomplete x 1 w [69] hx hv hr houtcome
  exact absurd hbody (by decide)

end IptvProxy.Stream
