import IptvProxy.Lib.Transition
import IptvProxy.Logs.Service
import Mathlib.Data.List.Nodup

/-!
# The stream of logs

`GET` of `app/api/logs/stream/route.ts`. A connection is told about new logs twice: by the emitter,
when a log was written by this process, and by polls of the table, which may overlap. The set of the
identifiers that it has seen keeps a log from being sent twice.

Everything up to the cursor has been seen, as long as `MAX(rowid)` does not drop (`Tail`): without
`AUTOINCREMENT` the row identifiers of deleted rows are used again. So a log that is announced is
sent exactly once (`announced_log_is_sent_once`), and so is one that is only found by a poll
(`polled_log_is_sent_once`).
-/

namespace IptvProxy.Logs.Live

open Transition Cursor

/-! ## The connection -/

/-- The variables of a connection. -/
structure Connection where
  /-- `lastRowId` -/
  lastRowId : ℕ
  /-- `seen` -/
  seen : List Text
  /-- `closed` -/
  closed : Bool
  /-- whether the stream takes more events -/
  accepting : Bool
  /-- the `log` events -/
  sent : List LogEntry
  deriving DecidableEq

/-- `send`, of an event `log` -/
def Connection.send (c : Connection) (log : LogEntry) : Connection :=
  if c.closed then c
  else if c.accepting then { c with sent := c.sent ++ [log] }
  else { c with closed := true }

/-- `onNewLog` -/
def Connection.onNewLog (c : Connection) (log : LogEntry) : Connection :=
  if log.id ∈ c.seen then c
  else { c with seen := log.id :: c.seen }.send log

/-- The body of the loop over `result.rows`. -/
def Connection.handleRow (c : Connection) (row : Row) : Connection :=
  { c with lastRowId := max c.lastRowId row.rowid }.onNewLog row.entry

/-- A call of `databaseTail` that has not come to its end. -/
structure Poll where
  /-- the argument of the query -/
  since : ℕ
  /-- `result.rows`, if there is an answer -/
  rows : Option (List Row)
  /-- `MAX(rowid)` at the answer -/
  newest : ℕ
  deriving DecidableEq

/-- The table, the process and one connection. -/
structure State where
  /-- the table -/
  logs : List Row
  /-- the identifiers that have been drawn -/
  ids : List Text
  /-- every entry that the table has held -/
  held : List LogEntry
  /-- entries that have been inserted here, and not been emitted -/
  unannounced : List LogEntry
  /-- the connection -/
  conn : Connection
  /-- whether `start` has run and `cleanup` has not -/
  listening : Bool
  /-- the polls -/
  polls : List Poll
  deriving DecidableEq

/-- What may happen. -/
inductive Act where
  /-- the `INSERT` of `writeLog`, in this process or another one -/
  | insert (w : Written) (here : Bool)
  /-- the `emit` of `writeLog` -/
  | announce (i : ℕ)
  /-- the `UPDATE` of `updateLog`, with the entry that it has read before -/
  | set (id : Text) (input : Input) (existing : LogEntry)
  /-- the `DELETE` of `deleteLog`, `clearAllLogs` and `pruneOldLogs` -/
  | delete (doomed : LogEntry → Bool)
  /-- `start` -/
  | start
  /-- the interval of `databaseTail` -/
  | tick
  /-- the database answers a poll -/
  | answer (i : ℕ)
  /-- the query of a poll fails -/
  | fail (i : ℕ)
  /-- a poll handles its answer -/
  | handle (i : ℕ)
  /-- the stream takes no more events -/
  | leave
  /-- `cleanup` -/
  | cleanup

variable (toLowerCase : Text → Text)

/-- What the `UPDATE` sets, which has read the entry before. -/
def overwrite (input : Input) (existing entry : LogEntry) : LogEntry :=
  { input.change toLowerCase existing with
    id := entry.id
    timestamp := entry.timestamp
    createdAt := entry.createdAt }

/-- One step. Identifiers are not drawn twice. -/
def step (s : State) : Act → Option State
  | .insert w here =>
    if w.id ∈ s.ids then none
    else some { s with
      logs := insertLog s.logs (w.entry toLowerCase)
      ids := w.id :: s.ids
      held := w.entry toLowerCase :: s.held
      unannounced := if here then s.unannounced ++ [w.entry toLowerCase] else s.unannounced }
  | .announce i =>
    s.unannounced[i]?.map fun log => { s with
      unannounced := s.unannounced.eraseIdx i
      conn := if s.listening then s.conn.onNewLog log else s.conn }
  | .set id input existing =>
    let logs := setLog s.logs id (overwrite toLowerCase input existing)
    some { s with logs := logs, held := logs.map Row.entry ++ s.held }
  | .delete doomed => some { s with logs := deleteLogs s.logs doomed }
  | .start => if s.listening ∨ s.conn.closed then none else some { s with listening := true }
  | .tick =>
    if s.listening then some { s with polls := s.polls ++ [⟨s.conn.lastRowId, none, 0⟩] } else none
  | .answer i =>
    s.polls[i]?.bind fun poll =>
      let answered : Poll :=
        ⟨poll.since, some (page Row.rowid 200 poll.since s.logs), maxRowId s.logs⟩
      if poll.rows = none then some { s with polls := s.polls.set i answered } else none
  | .fail i =>
    s.polls[i]?.bind fun poll =>
      if poll.rows = none then some { s with polls := s.polls.eraseIdx i } else none
  | .handle i =>
    s.polls[i]?.bind fun poll => poll.rows.map fun rows => { s with
      polls := s.polls.eraseIdx i
      conn := rows.foldl Connection.handleRow s.conn }
  | .leave => some { s with conn := { s.conn with accepting := false } }
  | .cleanup =>
    if s.listening then
      some { s with listening := false, conn := { s.conn with closed := true } }
    else none

/-- The connection has asked for `MAX(rowid)`. -/
structure Opened (s : State) : Prop where
  /-- the table is in its order -/
  sorted : Sorted Row.rowid s.logs
  /-- what the table holds -/
  held : ∀ row ∈ s.logs, row.entry ∈ s.held
  /-- what has been inserted -/
  unannounced : ∀ log ∈ s.unannounced, log ∈ s.held
  /-- the variables of `GET` -/
  conn : s.conn = ⟨maxRowId s.logs, [], false, true, []⟩
  /-- before `start` -/
  listening : s.listening = false
  /-- no polls -/
  polls : s.polls = []

/-- The stream is open. -/
def Connection.Open (c : Connection) : Prop := c.closed = false ∧ c.accepting = true

instance (c : Connection) : Decidable c.Open := inferInstanceAs (Decidable (_ ∧ _))

/-- The row with the greatest identifier is not deleted, unless another one has it too. -/
def KeepsNewest (s : State) (a : Act) : Prop :=
  ∀ doomed, a = .delete doomed → maxRowId s.logs ≤ maxRowId (deleteLogs s.logs doomed)

/-! ## Once -/

section Once

variable {c : Connection} {log : LogEntry} {rows : List Row}

/-- Nothing is sent twice, and nothing that is seen is kept from an open stream. -/
structure Once (c : Connection) : Prop where
  /-- once -/
  distinct : (c.sent.map LogEntry.id).Nodup
  /-- what is sent has been seen -/
  seen : ∀ log ∈ c.sent, log.id ∈ c.seen
  /-- what is seen has been sent -/
  told : c.Open → ∀ id ∈ c.seen, ∃ log ∈ c.sent, log.id = id

theorem Once.onNewLog (h : Once c) (log : LogEntry) : Once (c.onNewLog log) := by
  rw [Connection.onNewLog]
  split
  · exact h
  · next hnew =>
    have hfresh : log.id ∉ c.sent.map LogEntry.id := fun hmem => by
      obtain ⟨old, hold, heq⟩ := List.mem_map.mp hmem
      exact hnew (heq ▸ h.seen old hold)
    rw [Connection.send]
    split
    · next hclosed =>
      exact ⟨h.distinct, fun old hold => List.mem_cons_of_mem _ (h.seen old hold),
        fun hopen => absurd (hopen.1.symm.trans hclosed) (by decide)⟩
    split
    · refine ⟨?_, fun old hold => ?_, fun hopen id hid => ?_⟩
      · rw [List.map_append, List.nodup_append]
        refine ⟨h.distinct, by simp, fun a ha b hb => ?_⟩
        rw [List.map_singleton, List.mem_singleton] at hb
        rintro rfl
        exact hfresh (hb ▸ ha)
      · rcases List.mem_append.mp hold with hold | hold
        · exact List.mem_cons_of_mem _ (h.seen old hold)
        · rw [List.mem_singleton.mp hold]
          exact List.mem_cons_self
      · rcases List.mem_cons.mp hid with rfl | hid
        · exact ⟨log, by simp, rfl⟩
        · obtain ⟨old, hold, heq⟩ := h.told hopen id hid
          exact ⟨old, List.mem_append_left _ hold, heq⟩
    · exact ⟨h.distinct, fun old hold => List.mem_cons_of_mem _ (h.seen old hold),
        fun hopen => (by cases hopen.1)⟩

theorem Once.handleRow (h : Once c) (row : Row) : Once (c.handleRow row) := by
  have hcursor : Once { c with lastRowId := max c.lastRowId row.rowid } :=
    ⟨h.distinct, h.seen, h.told⟩
  exact hcursor.onNewLog row.entry

theorem Once.foldl (h : Once c) (rows : List Row) : Once (rows.foldl Connection.handleRow c) := by
  induction rows generalizing c with
  | nil => exact h
  | cons row rows ih => exact ih (h.handleRow row)

/-- What is sent after a new log. -/
theorem mem_sent_onNewLog {old : LogEntry} (h : old ∈ (c.onNewLog log).sent) :
    old ∈ c.sent ∨ old = log := by
  rw [Connection.onNewLog] at h
  split at h
  · exact .inl h
  rw [Connection.send] at h
  split at h
  · exact .inl h
  split at h
  · simpa using h
  · exact .inl h

theorem mem_sent_foldl {old : LogEntry} (h : old ∈ (rows.foldl Connection.handleRow c).sent) :
    old ∈ c.sent ∨ ∃ row ∈ rows, old = row.entry := by
  induction rows generalizing c with
  | nil => exact .inl h
  | cons row rows ih =>
    rcases ih h with h | ⟨row', hrow', heq⟩
    · rcases mem_sent_onNewLog h with h | heq
      · exact .inl h
      · exact .inr ⟨row, List.mem_cons_self, heq⟩
    · exact .inr ⟨row', List.mem_cons_of_mem _ hrow', heq⟩

theorem seen_send : (c.send log).seen = c.seen := by
  rw [Connection.send]
  split
  · rfl
  split <;> rfl

theorem lastRowId_send : (c.send log).lastRowId = c.lastRowId := by
  rw [Connection.send]
  split
  · rfl
  split <;> rfl

/-- What a new log does. -/
theorem onNewLog_spec (c : Connection) (log : LogEntry) :
    (c.onNewLog log).lastRowId = c.lastRowId ∧ c.seen ⊆ (c.onNewLog log).seen ∧
      log.id ∈ (c.onNewLog log).seen := by
  rw [Connection.onNewLog]
  split
  · next hseen => exact ⟨rfl, List.Subset.refl _, hseen⟩
  · rw [lastRowId_send, seen_send]
    exact ⟨rfl, List.subset_cons_self _ _, List.mem_cons_self⟩

/-- What an answer does. -/
theorem foldl_spec (c : Connection) (rows : List Row) :
    (rows.foldl Connection.handleRow c).lastRowId = max c.lastRowId (newest Row.rowid rows) ∧
      c.seen ⊆ (rows.foldl Connection.handleRow c).seen ∧
      ∀ row ∈ rows, row.entry.id ∈ (rows.foldl Connection.handleRow c).seen := by
  induction rows generalizing c with
  | nil => exact ⟨by simp, List.Subset.refl _, fun _ h => (by cases h)⟩
  | cons row rows ih =>
    obtain ⟨hcursor, hseen, hnew⟩ := onNewLog_spec
      { c with lastRowId := max c.lastRowId row.rowid } row.entry
    obtain ⟨hcursor', hseen', hrows⟩ := ih (c.handleRow row)
    refine ⟨?_, fun id hid => hseen' (hseen hid), fun row' hrow' => ?_⟩
    · rw [List.foldl_cons, hcursor', Connection.handleRow, hcursor, newest_cons, max_assoc]
    · rcases List.mem_cons.mp hrow' with rfl | hrow'
      · exact hseen' hnew
      · exact hrows row' hrow'

end Once

/-! ## The tail of the table -/

section Tail

variable {toLowerCase} {s t : State} {a : Act} {snapshot : ℕ} {logs : List Row} {w : Written}

/-- What may become of a table without its newest row being deleted. -/
structure Grown (logs logs' : List Row) : Prop where
  /-- in order -/
  sorted : Sorted Row.rowid logs'
  /-- `MAX(rowid)` does not drop -/
  newest : maxRowId logs ≤ maxRowId logs'
  /-- a row is an old one, whose values may be new, or it comes behind -/
  rows : ∀ row ∈ logs', maxRowId logs < row.rowid ∨
    ∃ old ∈ logs, old.rowid = row.rowid ∧ old.entry.id = row.entry.id

theorem overwrite_id (input : Input) (existing entry : LogEntry) :
    (overwrite toLowerCase input existing entry).id = entry.id := rfl

theorem grown_insertLog (h : Sorted Row.rowid logs) (entry : LogEntry) :
    Grown logs (insertLog logs entry) := by
  refine ⟨?_, ?_, fun row hrow => ?_⟩
  · rw [Sorted, insertLog, List.pairwise_append]
    refine ⟨h, List.pairwise_singleton _ _, fun row hrow new hnew => ?_⟩
    rw [List.mem_singleton.mp hnew]
    exact Nat.lt_succ_of_le (le_newest hrow)
  · rw [maxRowId, maxRowId, insertLog, newest_append]
    exact le_max_left _ _
  · rcases List.mem_append.mp hrow with hrow | hrow
    · exact .inr ⟨row, hrow, rfl, rfl⟩
    · rw [List.mem_singleton.mp hrow]
      exact .inl (Nat.lt_succ_self _)

theorem grown_setLog (h : Sorted Row.rowid logs) (id : Text) {change : LogEntry → LogEntry}
    (hid : ∀ entry, (change entry).id = entry.id) : Grown logs (setLog logs id change) := by
  have hsame : ∀ row : Row, (row.set id change).rowid = row.rowid ∧
      (row.set id change).entry.id = row.entry.id := by
    intro row
    rw [Row.set]
    split
    · exact ⟨rfl, hid row.entry⟩
    · exact ⟨rfl, rfl⟩
  refine ⟨?_, ?_, fun row hrow => ?_⟩
  · rw [Sorted, setLog, List.pairwise_map]
    exact h.imp fun {row row'} hlt => by rwa [(hsame row).1, (hsame row').1]
  · refine newest_le fun row hrow => ?_
    have hmem : row.set id change ∈ setLog logs id change := List.mem_map_of_mem hrow
    exact (hsame row).1.symm.trans_le (le_newest hmem)
  · obtain ⟨old, hold, rfl⟩ := List.mem_map.mp hrow
    exact .inr ⟨old, hold, (hsame old).1.symm, (hsame old).2.symm⟩

theorem grown_deleteLogs (h : Sorted Row.rowid logs) {doomed : LogEntry → Bool}
    (hnewest : maxRowId logs ≤ maxRowId (deleteLogs logs doomed)) :
    Grown logs (deleteLogs logs doomed) :=
  ⟨h.sublist List.filter_sublist, hnewest,
    fun row hrow => .inr ⟨row, (List.mem_filter.mp hrow).1, rfl, rfl⟩⟩

/-- A poll knows the rows between its cursor and the end of its answer. -/
structure Poll.Covers (p : Poll) (logs : List Row) (rows : List Row) : Prop where
  /-- the answer is older than the table -/
  newest : Cursor.newest Row.rowid rows ≤ p.newest ∧ p.newest ≤ maxRowId logs
  /-- how far it reaches -/
  reach : min p.newest (p.since + 200) ≤ max p.since (Cursor.newest Row.rowid rows)
  /-- no gaps -/
  rows : ∀ row ∈ logs, p.since < row.rowid → row.rowid ≤ Cursor.newest Row.rowid rows →
    ∃ row' ∈ rows, row'.entry.id = row.entry.id

/-- Everything up to the cursor has been seen. -/
structure Tail (snapshot : ℕ) (s : State) : Prop where
  /-- the table is in its order -/
  sorted : Sorted Row.rowid s.logs
  /-- the cursor stands in the table -/
  cursor : s.conn.lastRowId ≤ maxRowId s.logs
  /-- what is new up to the cursor -/
  seen : ∀ row ∈ s.logs, snapshot < row.rowid → row.rowid ≤ s.conn.lastRowId →
    row.entry.id ∈ s.conn.seen
  /-- polls start behind the cursor -/
  since : ∀ p ∈ s.polls, p.since ≤ s.conn.lastRowId
  /-- polls leave nothing out -/
  covers : ∀ p ∈ s.polls, ∀ rows, p.rows = some rows → p.Covers s.logs rows

theorem Poll.Covers.grown {p : Poll} {logs logs' rows : List Row} (h : p.Covers logs rows)
    (hgrown : Grown logs logs') : p.Covers logs' rows := by
  refine ⟨⟨h.newest.1, h.newest.2.trans hgrown.newest⟩, h.reach, fun row hrow hsince hle => ?_⟩
  have hbefore : row.rowid ≤ maxRowId logs := hle.trans (h.newest.1.trans h.newest.2)
  obtain hnew | ⟨old, hold, hrowid, hid⟩ := hgrown.rows row hrow
  · exact absurd hbefore (Nat.not_le.mpr hnew)
  · obtain ⟨row', hrow', heq⟩ := h.rows old hold (hrowid ▸ hsince) (hrowid ▸ hle)
    exact ⟨row', hrow', heq.trans hid⟩

/-- The table grows. -/
theorem Tail.grown (h : Tail snapshot s) (hgrown : Grown s.logs t.logs) (hconn : t.conn = s.conn)
    (hpolls : t.polls = s.polls) : Tail snapshot t := by
  refine ⟨hgrown.sorted, ?_, fun row hrow hsnapshot hle => ?_, ?_, fun p hp rows hrows => ?_⟩
  · rw [hconn]
    exact h.cursor.trans hgrown.newest
  · rw [hconn] at hle ⊢
    obtain hnew | ⟨old, hold, hrowid, hid⟩ := hgrown.rows row hrow
    · exact absurd (hle.trans h.cursor) (Nat.not_le.mpr hnew)
    · exact hid ▸ h.seen old hold (hrowid ▸ hsnapshot) (hrowid ▸ hle)
  · rw [hconn, hpolls]
    exact h.since
  · rw [hpolls] at hp
    exact (h.covers p hp rows hrows).grown hgrown

/-- The connection hears of logs, and polls come to their end. -/
theorem Tail.moved (h : Tail snapshot s) (hlogs : t.logs = s.logs)
    (hcursor : t.conn.lastRowId = s.conn.lastRowId) (hseen : s.conn.seen ⊆ t.conn.seen)
    (hpolls : ∀ p ∈ t.polls, p ∈ s.polls) : Tail snapshot t := by
  refine ⟨hlogs ▸ h.sorted, hlogs ▸ hcursor ▸ h.cursor, fun row hrow hsnapshot hle => ?_,
    fun p hp => hcursor ▸ h.since p (hpolls p hp), fun p hp => hlogs ▸ h.covers p (hpolls p hp)⟩
  exact hseen (h.seen row (hlogs ▸ hrow) hsnapshot (hcursor ▸ hle))

/-- **An answer is handled.** -/
theorem Tail.handle (h : Tail snapshot s) {i : ℕ} {p : Poll} {rows : List Row}
    (hp : s.polls[i]? = some p) (hrows : p.rows = some rows) :
    Tail snapshot { s with
      polls := s.polls.eraseIdx i
      conn := rows.foldl Connection.handleRow s.conn } := by
  have hmem := List.mem_of_getElem? hp
  have hcovers := h.covers p hmem rows hrows
  obtain ⟨hcursor, hseen, hnew⟩ := foldl_spec s.conn rows
  refine ⟨h.sorted, ?_, fun row hrow hsnapshot hle => ?_, fun q hq => ?_,
    fun q hq => h.covers q (List.mem_of_mem_eraseIdx hq)⟩
  · change (rows.foldl Connection.handleRow s.conn).lastRowId ≤ maxRowId s.logs
    rw [hcursor]
    exact max_le h.cursor (hcovers.newest.1.trans hcovers.newest.2)
  · change row.rowid ≤ (rows.foldl Connection.handleRow s.conn).lastRowId at hle
    change row.entry.id ∈ (rows.foldl Connection.handleRow s.conn).seen
    rw [hcursor] at hle
    by_cases hold : row.rowid ≤ s.conn.lastRowId
    · exact hseen (h.seen row hrow hsnapshot hold)
    · have hsince := h.since p hmem
      obtain ⟨row', hrow', heq⟩ := hcovers.rows row hrow (by omega) (by omega)
      exact heq ▸ hnew row' hrow'
  · change q.since ≤ (rows.foldl Connection.handleRow s.conn).lastRowId
    rw [hcursor]
    exact (h.since q (List.mem_of_mem_eraseIdx hq)).trans (le_max_left _ _)

/-- **A step keeps to the tail**, if it does not delete the newest row. -/
theorem Tail.step (h : Tail snapshot s) (hok : KeepsNewest s a)
    (hstep : Live.step toLowerCase s a = some t) : Tail snapshot t := by
  cases a with
  | insert w here =>
    rw [Live.step, Option.ite_none_left_eq_some] at hstep
    obtain rfl := Option.some.inj hstep.2
    exact h.grown (grown_insertLog h.sorted _) rfl rfl
  | announce i =>
    obtain ⟨log, -, rfl⟩ := Option.map_eq_some_iff.mp hstep
    refine h.moved rfl ?_ ?_ fun _ => id
    · dsimp only
      split
      · exact (onNewLog_spec s.conn log).1
      · rfl
    · dsimp only
      split
      · exact (onNewLog_spec s.conn log).2.1
      · exact List.Subset.refl _
  | set id input existing =>
    obtain rfl := Option.some.inj hstep
    exact h.grown (grown_setLog h.sorted id (overwrite_id input existing)) rfl rfl
  | delete doomed =>
    obtain rfl := Option.some.inj hstep
    exact h.grown (grown_deleteLogs h.sorted (hok doomed rfl)) rfl rfl
  | start =>
    rw [Live.step, Option.ite_none_left_eq_some] at hstep
    obtain rfl := Option.some.inj hstep.2
    exact h.moved rfl rfl (List.Subset.refl _) fun _ => id
  | tick =>
    rw [Live.step, Option.ite_none_right_eq_some] at hstep
    obtain rfl := Option.some.inj hstep.2
    refine ⟨h.sorted, h.cursor, h.seen, fun p hp => ?_, fun p hp rows hrows => ?_⟩
    · rcases List.mem_append.mp hp with hp | hp
      · exact h.since p hp
      · rw [List.mem_singleton.mp hp]
    · rcases List.mem_append.mp hp with hp | hp
      · exact h.covers p hp rows hrows
      · rw [List.mem_singleton.mp hp] at hrows
        cases hrows
  | answer i =>
    obtain ⟨poll, hpoll, hstep⟩ := Option.bind_eq_some_iff.mp hstep
    rw [Option.ite_none_right_eq_some] at hstep
    obtain rfl := Option.some.inj hstep.2
    refine ⟨h.sorted, h.cursor, h.seen, fun p hp => ?_, fun p hp rows hrows => ?_⟩
    · rcases List.mem_or_eq_of_mem_set hp with hp | rfl
      · exact h.since p hp
      · exact h.since poll (List.mem_of_getElem? hpoll)
    · rcases List.mem_or_eq_of_mem_set hp with hp | rfl
      · exact h.covers p hp rows hrows
      · obtain rfl := Option.some.inj hrows
        exact ⟨⟨newest_le fun row hrow => le_newest (mem_of_mem_page hrow).1, le_rfl⟩,
          le_newest_page h.sorted,
          fun row hrow hsince hle => ⟨row, mem_page h.sorted hrow hsince hle, rfl⟩⟩
  | fail i =>
    obtain ⟨poll, -, hstep⟩ := Option.bind_eq_some_iff.mp hstep
    rw [Option.ite_none_right_eq_some] at hstep
    obtain rfl := Option.some.inj hstep.2
    exact h.moved rfl rfl (List.Subset.refl _) fun _ => List.mem_of_mem_eraseIdx
  | handle i =>
    obtain ⟨poll, hpoll, hstep⟩ := Option.bind_eq_some_iff.mp hstep
    obtain ⟨rows, hrows, rfl⟩ := Option.map_eq_some_iff.mp hstep
    exact h.handle hpoll hrows
  | leave =>
    obtain rfl := Option.some.inj hstep
    exact h.moved rfl rfl (List.Subset.refl _) fun _ => id
  | cleanup =>
    rw [Live.step, Option.ite_none_right_eq_some] at hstep
    obtain rfl := Option.some.inj hstep.2
    exact h.moved rfl rfl (List.Subset.refl _) fun _ => id

end Tail

/-! ## Runs -/

section Runs

variable {toLowerCase} {s s₀ s' t : State} {a : Act}

/-- Where the entries come from that are sent. -/
structure Sound (s : State) : Prop where
  /-- nothing is sent twice -/
  once : Once s.conn
  /-- the table -/
  logs : ∀ row ∈ s.logs, row.entry ∈ s.held
  /-- what is to be emitted -/
  unannounced : ∀ log ∈ s.unannounced, log ∈ s.held
  /-- what polls have read -/
  polls : ∀ p ∈ s.polls, ∀ rows, p.rows = some rows → ∀ row ∈ rows, row.entry ∈ s.held
  /-- what has been sent -/
  sent : ∀ log ∈ s.conn.sent, log ∈ s.held

/-- What a step may do to the sources of entries. -/
theorem Sound.step (h : Sound s) (hstep : Live.step toLowerCase s a = some t) : Sound t := by
  cases a with
  | insert w here =>
    rw [Live.step, Option.ite_none_left_eq_some] at hstep
    obtain rfl := Option.some.inj hstep.2
    refine ⟨h.once, fun row hrow => ?_, fun log hlog => ?_,
      fun p hp rows hrows row hrow => List.mem_cons_of_mem _ (h.polls p hp rows hrows row hrow),
      fun log hlog => List.mem_cons_of_mem _ (h.sent log hlog)⟩
    · rcases List.mem_append.mp hrow with hrow | hrow
      · exact List.mem_cons_of_mem _ (h.logs row hrow)
      · rw [List.mem_singleton.mp hrow]
        exact List.mem_cons_self
    · change log ∈ (if here = true then _ else _) at hlog
      split at hlog
      · rcases List.mem_append.mp hlog with hlog | hlog
        · exact List.mem_cons_of_mem _ (h.unannounced log hlog)
        · rw [List.mem_singleton.mp hlog]
          exact List.mem_cons_self
      · exact List.mem_cons_of_mem _ (h.unannounced log hlog)
  | announce i =>
    obtain ⟨log, hlog, rfl⟩ := Option.map_eq_some_iff.mp hstep
    refine ⟨?_, h.logs, fun old hold => h.unannounced old (List.mem_of_mem_eraseIdx hold), h.polls,
      fun old hold => ?_⟩
    · dsimp only
      split
      · exact h.once.onNewLog log
      · exact h.once
    · dsimp only at hold
      split at hold
      · rcases mem_sent_onNewLog hold with hold | rfl
        · exact h.sent old hold
        · exact h.unannounced _ (List.mem_of_getElem? hlog)
      · exact h.sent old hold
  | set id input existing =>
    obtain rfl := Option.some.inj hstep
    exact ⟨h.once, fun row hrow => List.mem_append_left _ (List.mem_map_of_mem hrow),
      fun log hlog => List.mem_append_right _ (h.unannounced log hlog),
      fun p hp rows hrows row hrow => List.mem_append_right _ (h.polls p hp rows hrows row hrow),
      fun log hlog => List.mem_append_right _ (h.sent log hlog)⟩
  | delete doomed =>
    obtain rfl := Option.some.inj hstep
    exact ⟨h.once, fun row hrow => h.logs row (List.mem_filter.mp hrow).1, h.unannounced, h.polls,
      h.sent⟩
  | start =>
    rw [Live.step, Option.ite_none_left_eq_some] at hstep
    obtain rfl := Option.some.inj hstep.2
    exact ⟨h.once, h.logs, h.unannounced, h.polls, h.sent⟩
  | tick =>
    rw [Live.step, Option.ite_none_right_eq_some] at hstep
    obtain rfl := Option.some.inj hstep.2
    refine ⟨h.once, h.logs, h.unannounced, fun p hp rows hrows => ?_, h.sent⟩
    rcases List.mem_append.mp hp with hp | hp
    · exact h.polls p hp rows hrows
    · rw [List.mem_singleton.mp hp] at hrows
      cases hrows
  | answer i =>
    obtain ⟨poll, -, hstep⟩ := Option.bind_eq_some_iff.mp hstep
    rw [Option.ite_none_right_eq_some] at hstep
    obtain rfl := Option.some.inj hstep.2
    refine ⟨h.once, h.logs, h.unannounced, fun p hp rows hrows row hrow => ?_, h.sent⟩
    rcases List.mem_or_eq_of_mem_set hp with hp | rfl
    · exact h.polls p hp rows hrows row hrow
    · obtain rfl := Option.some.inj hrows
      exact h.logs row (mem_of_mem_page hrow).1
  | fail i =>
    obtain ⟨poll, -, hstep⟩ := Option.bind_eq_some_iff.mp hstep
    rw [Option.ite_none_right_eq_some] at hstep
    obtain rfl := Option.some.inj hstep.2
    exact ⟨h.once, h.logs, h.unannounced, fun p hp => h.polls p (List.mem_of_mem_eraseIdx hp),
      h.sent⟩
  | handle i =>
    obtain ⟨poll, hpoll, hstep⟩ := Option.bind_eq_some_iff.mp hstep
    obtain ⟨rows, hrows, rfl⟩ := Option.map_eq_some_iff.mp hstep
    refine ⟨h.once.foldl rows, h.logs, h.unannounced,
      fun p hp => h.polls p (List.mem_of_mem_eraseIdx hp), fun log hlog => ?_⟩
    rcases mem_sent_foldl hlog with hlog | ⟨row, hrow, rfl⟩
    · exact h.sent log hlog
    · exact h.polls poll (List.mem_of_getElem? hpoll) rows hrows row hrow
  | leave =>
    obtain rfl := Option.some.inj hstep
    exact ⟨⟨h.once.distinct, h.once.seen, fun hopen => (by cases hopen.2)⟩, h.logs,
      h.unannounced, h.polls, h.sent⟩
  | cleanup =>
    rw [Live.step, Option.ite_none_right_eq_some] at hstep
    obtain rfl := Option.some.inj hstep.2
    exact ⟨⟨h.once.distinct, h.once.seen, fun hopen => (by cases hopen.1)⟩, h.logs,
      h.unannounced, h.polls, h.sent⟩

theorem Opened.sound (h : Opened s) : Sound s := by
  refine ⟨⟨?_, ?_, ?_⟩, h.held, h.unannounced, ?_, ?_⟩
  all_goals simp [h.conn, h.polls]

theorem Opened.tail (h : Opened s) : Tail (maxRowId s.logs) s := by
  refine ⟨h.sorted, ?_, fun row _ hnew hle => ?_, ?_, ?_⟩
  · rw [h.conn]
  · rw [h.conn] at hle
    exact absurd hle (Nat.not_le.mpr hnew)
  · simp [h.polls]
  · simp [h.polls]

/-- What has been seen stays seen. -/
theorem seen_step (hstep : Live.step toLowerCase s a = some t) : s.conn.seen ⊆ t.conn.seen := by
  cases a with
  | announce i =>
    obtain ⟨log, -, rfl⟩ := Option.map_eq_some_iff.mp hstep
    dsimp only
    split
    · exact (onNewLog_spec s.conn log).2.1
    · exact List.Subset.refl _
  | handle i =>
    obtain ⟨poll, -, hstep⟩ := Option.bind_eq_some_iff.mp hstep
    obtain ⟨rows, -, rfl⟩ := Option.map_eq_some_iff.mp hstep
    exact (foldl_spec s.conn rows).2.1
  | insert w here => grind [Live.step]
  | set id input existing => grind [Live.step]
  | delete doomed => grind [Live.step]
  | start => grind [Live.step]
  | tick => grind [Live.step]
  | answer i => grind [Live.step]
  | fail i => grind [Live.step]
  | leave => grind [Live.step]
  | cleanup => grind [Live.step]

/-- Any step. -/
abbrev Any (_ : State) (_ : Act) : Prop := True

theorem Opened.sound_run (h : Opened s₀) (hrun : Run (Live.step toLowerCase) Any s₀ s) : Sound s :=
  hrun.invariant (fun _ _ _ hs _ hstep => hs.step hstep) h.sound

/-- What has been seen is sent once on an open stream. -/
theorem Sound.count_sent (h : Sound s) (hopen : s.conn.Open) {id : Text} (hid : id ∈ s.conn.seen) :
    s.conn.sent.countP (·.id = id) = 1 := by
  obtain ⟨log, hlog, rfl⟩ := h.once.told hopen id hid
  have hcount := List.count_eq_one_of_mem h.once.distinct (List.mem_map_of_mem hlog)
  rw [List.count, List.countP_map] at hcount
  rw [← hcount]
  exact List.countP_congr fun old _ => by simp

/-- **No log is sent twice**, in any run, and what is sent was in the table. -/
theorem no_log_is_sent_twice (h : Opened s₀) (hrun : Run (Live.step toLowerCase) Any s₀ s) :
    (s.conn.sent.map LogEntry.id).Nodup ∧ ∀ log ∈ s.conn.sent, log ∈ s.held :=
  ⟨(h.sound_run hrun).once.distinct, (h.sound_run hrun).sent⟩

/-- **A log that is announced is sent once**, whatever polls read and whatever is deleted. -/
theorem announced_log_is_sent_once {i : ℕ} {log : LogEntry} (h : Opened s₀)
    (hrun : Run (Live.step toLowerCase) Any s₀ s) (hlistening : s.listening = true)
    (hlog : s.unannounced[i]? = some log)
    (hannounce : Live.step toLowerCase s (.announce i) = some s')
    (hrest : Run (Live.step toLowerCase) Any s' t) (hopen : t.conn.Open) :
    t.conn.sent.countP (·.id = log.id) = 1 := by
  have hsound : Sound t :=
    h.sound_run ((hrun.tail ⟨_, trivial, hannounce⟩).trans hrest)
  have hseen : log.id ∈ s'.conn.seen := by
    rw [Live.step, hlog, Option.map_some, Option.some.injEq] at hannounce
    rw [← hannounce, hlistening, if_pos rfl]
    exact (onNewLog_spec s.conn log).2.2
  refine hsound.count_sent hopen (hrest.invariant (I := fun u => log.id ∈ u.conn.seen) ?_ hseen)
  exact fun _ _ _ hs _ hstep => seen_step hstep hs

/-- **A log that a poll comes upon is sent once**: in a run that does not delete the newest row, a
poll that has been handled leaves out no log that is new, up to 200 rows from where it began and up
to what was the newest row at its answer. -/
theorem polled_log_is_sent_once {i : ℕ} {p : Poll} {row : Row} (h : Opened s₀)
    (hrun : Run (Live.step toLowerCase) KeepsNewest s₀ s) (hp : s.polls[i]? = some p)
    (hhandle : Live.step toLowerCase s (.handle i) = some s') (hrow : row ∈ s.logs)
    (hnew : maxRowId s₀.logs < row.rowid) (hreach : row.rowid ≤ min p.newest (p.since + 200))
    (hrest : Run (Live.step toLowerCase) Any s' t) (hopen : t.conn.Open) :
    t.conn.sent.countP (·.id = row.entry.id) = 1 := by
  have htail : Tail (maxRowId s₀.logs) s :=
    hrun.invariant (fun _ _ _ hs hok hstep => hs.step hok hstep) h.tail
  have hsound : Sound t := h.sound_run
    (((hrun.mono fun _ _ _ => trivial).tail ⟨_, trivial, hhandle⟩).trans hrest)
  have hseen : row.entry.id ∈ s'.conn.seen := by
    obtain ⟨poll, hpoll, hstep⟩ := Option.bind_eq_some_iff.mp hhandle
    obtain ⟨rows, hrows, rfl⟩ := Option.map_eq_some_iff.mp hstep
    obtain rfl := Option.some.inj (hp.symm.trans hpoll)
    have hmem := List.mem_of_getElem? hp
    have hle := hreach.trans (htail.covers p hmem rows hrows).reach
    refine (htail.handle hp hrows).seen row hrow hnew (hle.trans ?_)
    change max p.since (newest Row.rowid rows) ≤
      (rows.foldl Connection.handleRow s.conn).lastRowId
    rw [(foldl_spec s.conn rows).1]
    have hsince := htail.since p hmem
    omega
  refine hsound.count_sent hopen
    (hrest.invariant (I := fun u => row.entry.id ∈ u.conn.seen) ?_ hseen)
  exact fun _ _ _ hs _ hstep => seen_step hstep hs

/-! ## A run -/

/-- A log of the proxy. -/
def sampleWritten (id message : String) : Written where
  id := text id
  now := text "2026-01-01T00:00:00.000Z"
  level := .info
  source := .proxy
  category := text "cache.result"
  message := text message
  metadata := none

/-- The row of a log. -/
def sampleRow (rowid : ℕ) (id message : String) : Row :=
  ⟨rowid, (sampleWritten id message).entry (List.map lower)⟩

/-- A table with one log, when a connection has asked for its newest row. -/
def sampleOpened : State where
  logs := [sampleRow 5 "a" "old"]
  ids := [text "a"]
  held := [(sampleRow 5 "a" "old").entry]
  unannounced := []
  conn := ⟨5, [], false, true, []⟩
  listening := false
  polls := []

theorem sampleOpened_opened : Opened sampleOpened where
  sorted := List.pairwise_singleton _ _
  held := by decide +kernel
  unannounced := by decide
  conn := by decide
  listening := rfl
  polls := rfl

/-- Two logs are written before `start`, one of them by another process, and two polls overlap. -/
def sampleActs : List Act :=
  [.insert (sampleWritten "b" "elsewhere") false, .insert (sampleWritten "c" "here") true, .start,
    .tick, .tick, .answer 0, .answer 1]

/-- The table after these steps. -/
def sampleLogs : List Row :=
  [sampleRow 5 "a" "old", sampleRow 6 "b" "elsewhere", sampleRow 7 "c" "here"]

/-- The state after these steps. -/
def samplePolled : State where
  logs := sampleLogs
  ids := [text "c", text "b", text "a"]
  held := [(sampleRow 7 "c" "here").entry, (sampleRow 6 "b" "elsewhere").entry,
    (sampleRow 5 "a" "old").entry]
  unannounced := [(sampleRow 7 "c" "here").entry]
  conn := ⟨5, [], false, true, []⟩
  listening := true
  polls := [⟨5, some (sampleLogs.drop 1), 7⟩, ⟨5, some (sampleLogs.drop 1), 7⟩]

/-- One of the logs is announced. -/
def sampleAnnounced : State :=
  { samplePolled with
    unannounced := []
    conn := ⟨5, [text "c"], false, true, [(sampleRow 7 "c" "here").entry]⟩ }

/-- A poll is handled. -/
def sampleHandled : State :=
  { sampleAnnounced with
    conn := ⟨7, [text "b", text "c"], false, true,
      [(sampleRow 7 "c" "here").entry, (sampleRow 6 "b" "elsewhere").entry]⟩
    polls := [⟨5, some (sampleLogs.drop 1), 7⟩] }

/-- The other one is handled. -/
def sampleEnd : State := { sampleHandled with polls := [] }

theorem sampleActs_exec :
    exec (Live.step (List.map lower)) sampleOpened sampleActs = some samplePolled := by
  decide +kernel

theorem sampleAnnounced_step :
    Live.step (List.map lower) samplePolled (.announce 0) = some sampleAnnounced := by
  decide +kernel

theorem sampleHandled_step :
    Live.step (List.map lower) sampleAnnounced (.handle 0) = some sampleHandled := by
  decide +kernel

theorem sampleEnd_step :
    Live.step (List.map lower) sampleHandled (.handle 0) = some sampleEnd := by
  decide +kernel

/-- The announced log is sent once, although both polls have read it. -/
theorem sample_announced_once : sampleEnd.conn.sent.countP (·.id = text "c") = 1 :=
  announced_log_is_sent_once sampleOpened_opened
    (Run.of_exec (fun _ _ _ => trivial) sampleActs_exec) rfl rfl sampleAnnounced_step
    (.tail (.single ⟨_, trivial, sampleHandled_step⟩) ⟨_, trivial, sampleEnd_step⟩) (by decide)

/-- The log of the other process is sent once. -/
theorem sample_polled_once : sampleEnd.conn.sent.countP (·.id = text "b") = 1 := by
  have hkeeps : ∀ a ∈ sampleActs, ∀ s, KeepsNewest s a := by
    rintro a ha s doomed rfl
    simp [sampleActs] at ha
  have hrun : Run (Live.step (List.map lower)) KeepsNewest sampleOpened sampleAnnounced :=
    (Run.of_exec hkeeps sampleActs_exec).tail
      ⟨_, fun _ heq => (by cases heq), sampleAnnounced_step⟩
  have hrow : sampleRow 6 "b" "elsewhere" ∈ sampleAnnounced.logs :=
    List.mem_of_getElem? (i := 1) rfl
  have honce := polled_log_is_sent_once sampleOpened_opened hrun rfl sampleHandled_step hrow
    (by decide) (by decide) (.single ⟨_, trivial, sampleEnd_step⟩) (by decide)
  exact honce

/-- A run of both. -/
theorem sample_not_twice : (sampleEnd.conn.sent.map LogEntry.id).Nodup ∧
    ∀ log ∈ sampleEnd.conn.sent, log ∈ sampleEnd.held :=
  no_log_is_sent_twice sampleOpened_opened
    ((((Run.of_exec (fun _ _ _ => trivial) sampleActs_exec).tail
      ⟨_, trivial, sampleAnnounced_step⟩).tail ⟨_, trivial, sampleHandled_step⟩).tail
      ⟨_, trivial, sampleEnd_step⟩)

end Runs

end IptvProxy.Logs.Live
