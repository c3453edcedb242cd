import IptvProxy.Bulk.Model
import IptvProxy.Lib.Agents
import IptvProxy.Lib.Transition

/-!
# Polls and the record of a bulk refresh

Two facts carry everything: a caller that is between a successful `SETNX` and its release owns the
live lock, and a stored record that says `refreshing` belongs to such a caller, or to one that gave
up (`Pc.abandoned`: its first save failed or its process died). While a poll is between its `GET` of
an active record and its last command, no other operation stores a record. So a poll that finds the
lock gone has read the record of an operation that has released it since, or of an abandoned one.

The finisher stores the final record before it releases the lock. A poll that reads the record
before and the lock after these two steps writes `interrupted` over a final record
(`poll_interrupts_completed`); `Ok` keeps the release and the first save of an operation apart from
the commands of a poll.
-/

namespace IptvProxy.Bulk

open Cache (Outcome)
open Transition BulkCacheState

/-! ## Who owns what -/

/-- The caller has stored a record that says `refreshing`, and not yet the final one. -/
def Pc.recorded : Pc → Bool
  | providers _ | nextEntry _ _ | saveStarted _ _ | warmOne _ _ | saveWarmed _ _ | saveStopped _
  | saveFinal _ => true
  | _ => false

/-- The caller has the lock and the record it saves says `refreshing`. -/
def Pc.warming : Pc → Bool
  | saveBegun _ => true
  | pc => pc.recorded

/-- The caller is between a successful `SETNX` and the release at the end. -/
def Pc.running : Pc → Bool
  | release _ => true
  | pc => pc.warming

/-- The caller is in `finishBulkCacheRefresh`. -/
def Pc.finishing : Pc → Bool
  | saveFinal _ | release _ => true
  | _ => false

/-- The caller is in `finishBulkCacheRefresh` or has been there. -/
def Pc.atEnd : Pc → Bool
  | finished _ => true
  | pc => pc.finishing

/-- The poll has read an active record and has not written or returned. -/
def Pc.reading : Pc → Bool
  | pollLock _ | pollSave _ _ => true
  | _ => false

/-- The operation will never be completed. -/
def Pc.abandoned : Pc → Bool
  | releaseFailed _ | beginFailed _ | crashed _ => true
  | _ => false

/-- The final record is stored. -/
def Pc.completed : Pc → Bool
  | release _ | finished _ => true
  | _ => false

/-- Some caller of operation `id` is at such a program point. -/
def State.HasOperation (s : State) (p : Pc → Bool) (id : ℕ) : Prop :=
  ∃ (i : ℕ) (pc : Pc), s.threads[i]? = some pc ∧ pc.operation = some id ∧ p pc = true

/-- Operation `id` has stored its final record. -/
def State.Completed (s : State) (id : ℕ) : Prop := s.HasOperation Pc.completed id

/-- Operation `id` is running. -/
def State.Running (s : State) (id : ℕ) : Prop := s.HasOperation Pc.running id

/-- Operation `id` was given up. -/
def State.Abandoned (s : State) (id : ℕ) : Prop := s.HasOperation Pc.abandoned id

/-- The operation of the record that was stored last. -/
def State.lastOperation (s : State) : Option (Option ℕ) :=
  (s.records bulkCacheStateKey).map fun e => e.value.operationID

/-! ## The guard -/

/-- The steps on which the polls are right. -/
structure Ok (s : State) (a : Action) : Prop where
  /-- an operation ends before its lock expires -/
  inTime : ∀ d, a = .tick d → ∀ pc ∈ s.threads, pc.running = true → ∀ e,
    s.locks bulkCacheLockKey = some e → pc.operation = some e.value → e.live (s.now + d) = true
  /-- the final record reaches Redis -/
  stored : ∀ i o st, a = .run i (.redis o) → s.threads[i]? = some (.saveFinal st) →
    o.applied = true
  /-- no poll is between its `GET` of an operation's record and its `EXISTS` when the finisher of
  the operation releases the lock -/
  released : ∀ i c st, a = .run i c → s.threads[i]? = some (.release st) →
    ∀ read, .pollLock read ∈ s.threads → read.operationID ≠ st.operationID
  /-- no poll is between its `GET` of an active record and its last command when an operation stores
  its first record -/
  begun : ∀ i c st, a = .run i c → s.threads[i]? = some (.saveBegun st) →
    ∀ pc ∈ s.threads, pc.reading = false
  /-- no process dies in `finishBulkCacheRefresh` -/
  alive : ∀ i pc, a = .crash i → s.threads[i]? = some pc → pc.finishing = false

/-- What a step may not do to the record and to those who ask for it. -/
structure Sound (s : State) (a : Action) (t : State) : Prop where
  /-- a final record is never replaced by an interrupted one -/
  kept : ∀ r, s.record = some r → r.status.final = true →
    ∀ r', t.record = some r' → r'.status ≠ .interrupted
  /-- a poll replaces only the record of the operation it reports on -/
  newer : ∀ i o read st r, a = .run i (.redis o) → s.threads[i]? = some (.pollSave read st) →
    s.record = some r → r.operationID = st.operationID
  /-- `interrupted` is reported only of operations that neither completed nor run -/
  reported : ∀ (i : ℕ) st, t.threads[i]? = some (.reported st) → st.status = .interrupted →
    ∃ id, st.operationID = some id ∧ ¬ t.Completed id ∧ ¬ t.Running id

/-! ## The invariant -/

/-- The record a caller has in hand fits its program point. -/
def Pc.Shape (s : State) (pc : Pc) : Prop :=
  match pc with
  | acquire st | saveBegun st | providers st | nextEntry st _ | saveStarted st _ | warmOne st _
  | saveWarmed st _ | saveStopped st => st.status = .refreshing ∧ ∃ id, st.operationID = some id
  | releaseFailed st | beginFailed st => ∃ id, st.operationID = some id
  | saveFinal st | release st | finished st =>
    st.status.final = true ∧ ∃ id, st.operationID = some id
  | pollLock read =>
    read.status = .refreshing ∧ ∃ id, read.operationID = some id ∧
      s.lastOperation = some (some id) ∧ (s.Running id ∨ s.Abandoned id)
  | pollSave _ st =>
    st.status = .interrupted ∧ ∃ id, st.operationID = some id ∧
      s.lastOperation = some (some id) ∧ s.Abandoned id
  | reported st =>
    st.status = .interrupted → ∃ id, st.operationID = some id ∧ s.Abandoned id
  | pollRead | pollFailed | crashed _ => True

/-- The invariant. -/
structure Inv (s : State) : Prop where
  /-- ids are not reused -/
  fresh : ∀ (i : ℕ) pc id, s.threads[i]? = some pc → pc.operation = some id → id < s.nextID
  /-- an operation has one caller -/
  unique : ∀ (i j : ℕ) pc pc' id, s.threads[i]? = some pc → s.threads[j]? = some pc' →
    pc.operation = some id → pc'.operation = some id → i = j
  /-- a running operation owns the live lock -/
  owner : ∀ (i : ℕ) pc, s.threads[i]? = some pc → pc.running = true →
    ∃ e, s.locks.lookup s.now bulkCacheLockKey = some e ∧ pc.operation = some e.value
  /-- an active record belongs to a running or an abandoned operation -/
  active : ∀ e, s.records bulkCacheStateKey = some e → e.value.status = .refreshing →
    ∃ id, e.value.operationID = some id ∧ (s.HasOperation Pc.warming id ∨ s.Abandoned id)
  /-- it is the running operation that has stored a record last -/
  recorded : ∀ (i : ℕ) pc, s.threads[i]? = some pc → pc.recorded = true →
    s.lastOperation = some pc.operation
  /-- a final record belongs to an operation that is at its end -/
  final : ∀ e, s.records bulkCacheStateKey = some e → e.value.status.final = true →
    ∃ id, e.value.operationID = some id ∧
      s.HasOperation Pc.atEnd id
  /-- an interrupted record belongs to an abandoned operation -/
  interrupted : ∀ e, s.records bulkCacheStateKey = some e → e.value.status = .interrupted →
    ∃ id, e.value.operationID = some id ∧ s.Abandoned id
  /-- callers are as their program points say -/
  shape : ∀ (i : ℕ) pc, s.threads[i]? = some pc → pc.Shape s

theorem Pc.running_of_warming {pc : Pc} (h : pc.warming = true) : pc.running = true := by
  cases pc with
  | release => rfl
  | _ => exact h

theorem Pc.recorded_of_running {pc : Pc} (h : pc.running = false) : pc.recorded = false := by
  cases pc with
  | saveBegun | release => rfl
  | _ => exact h

theorem Pc.warming_of_recorded {pc : Pc} (h : pc.recorded = true) : pc.warming = true := by
  cases pc with
  | saveBegun => rfl
  | _ => exact h

/-- What a poll reads is what is stored. -/
theorem State.record_eq_some {s : State} {r : BulkCacheState} (h : s.record = some r) :
    ∃ e, s.records bulkCacheStateKey = some e ∧ e.value = r := by
  obtain ⟨e, he, rfl⟩ := Option.map_eq_some_iff.mp h
  exact ⟨e, (ExpiringMap.lookup_eq_some.mp he).1, rfl⟩

theorem State.HasOperation.imp {s t : State} {p : Pc → Bool} {id : ℕ} (h : s.HasOperation p id)
    (hst : ∀ (i : ℕ) pc, s.threads[i]? = some pc → pc.operation = some id → p pc = true →
      ∃ pc', t.threads[i]? = some pc' ∧ pc'.operation = some id ∧ p pc' = true) :
    t.HasOperation p id := by
  obtain ⟨i, pc, hi, hop, hp⟩ := h
  exact ⟨i, hst i pc hi hop hp⟩

theorem State.lastOperation_save {s : State} {o : Outcome} {st : BulkCacheState} {ttl : ℕ}
    (ho : o.applied = true) :
    (s.saveBulkCacheState o st ttl).lastOperation = some st.operationID := by
  rw [saveBulkCacheState, if_pos ho, lastOperation]
  dsimp only
  rw [ExpiringMap.set_self]
  rfl

/-- What the polls rely on: abandoned callers stay so, an operation whose record is being read does
not end, and no other operation stores a record meanwhile. -/
structure State.Keeps (s t : State) : Prop where
  /-- abandoned operations -/
  abandoned : ∀ id, s.Abandoned id → t.Abandoned id
  /-- operations whose record is being read -/
  running : ∀ read id, .pollLock read ∈ s.threads → read.operationID = some id → s.Running id →
    t.Running id ∨ t.Abandoned id
  /-- records -/
  last : (∃ pc ∈ s.threads, pc.reading = true) → t.lastOperation = s.lastOperation

theorem Pc.Shape.mono {s t : State} {pc : Pc} (h : pc.Shape s) (hpc : pc ∈ s.threads)
    (hst : s.Keeps t) : pc.Shape t := by
  cases pc with
  | pollLock read =>
    obtain ⟨hr, id, hid, hlast, hop⟩ := h
    refine ⟨hr, id, hid, (hst.last ⟨_, hpc, rfl⟩).trans hlast, ?_⟩
    exact hop.elim (hst.running read id hpc hid) fun hab => .inr (hst.abandoned id hab)
  | pollSave read st =>
    obtain ⟨hs, id, hid, hlast, hab⟩ := h
    exact ⟨hs, id, hid, (hst.last ⟨_, hpc, rfl⟩).trans hlast, hst.abandoned id hab⟩
  | reported st =>
    intro hs
    obtain ⟨id, hop, hab⟩ := h hs
    exact ⟨id, hop, hst.abandoned id hab⟩
  | _ => exact h

/-- The callers and the record are as they were. -/
theorem State.Keeps.of_same {s t : State} (hthreads : t.threads = s.threads)
    (hrecords : t.lastOperation = s.lastOperation) : s.Keeps t := by
  refine ⟨fun id h => ?_, fun _ id _ _ h => .inl ?_, fun _ => hrecords⟩
  · rwa [Abandoned, HasOperation, hthreads]
  · rwa [Running, HasOperation, hthreads]

namespace Inv

variable {s : State} {i : ℕ} {pc pc' : Pc}

/-- Only one operation runs at a time. -/
theorem running_unique (h : Inv s) {j : ℕ} (hi : s.threads[i]? = some pc)
    (hr : pc.running = true) (hj : s.threads[j]? = some pc') (hr' : pc'.running = true) :
    i = j := by
  obtain ⟨e, he, hop⟩ := h.owner i pc hi hr
  obtain ⟨e', he', hop'⟩ := h.owner j pc' hj hr'
  rw [he] at he'
  obtain rfl := Option.some.inj he'
  exact h.unique i j pc pc' _ hi hj hop hop'

/-- An abandoned operation neither completed nor runs. -/
theorem not_of_abandoned (h : Inv s) {id : ℕ} (hab : s.Abandoned id) :
    ¬ s.Completed id ∧ ¬ s.Running id := by
  obtain ⟨i, pc, hi, hop, hp⟩ := hab
  constructor
  · rintro ⟨j, pc', hj, hop', hp'⟩
    obtain rfl := h.unique i j pc pc' id hi hj hop hop'
    obtain rfl := Option.some.inj (hi.symm.trans hj)
    cases pc <;> simp_all [Pc.abandoned, Pc.completed]
  · rintro ⟨j, pc', hj, hop', hp'⟩
    obtain rfl := h.unique i j pc pc' id hi hj hop hop'
    obtain rfl := Option.some.inj (hi.symm.trans hj)
    cases pc <;> simp_all [Pc.abandoned, Pc.running, Pc.warming, Pc.recorded]

/-- While the lock is free no operation runs. -/
theorem not_running_of_unlocked (h : Inv s) {id : ℕ} (hl : s.locked = false) : ¬ s.Running id := by
  rintro ⟨i, pc, hi, -, hr⟩
  obtain ⟨e, he, -⟩ := h.owner i pc hi hr
  simp [State.locked, ExpiringMap.has, he] at hl

/-- The record of an abandoned operation is not final. -/
theorem not_final_of_abandoned (h : Inv s) {id : ℕ} {r : BulkCacheState} (hab : s.Abandoned id)
    (hr : s.record = some r) (hid : r.operationID = some id) : r.status.final = false := by
  rw [← Bool.not_eq_true]
  intro hf
  obtain ⟨e, he, rfl⟩ := State.record_eq_some hr
  obtain ⟨id', hid', j, pc', hj, hop', hp'⟩ := h.final e he hf
  obtain rfl := Option.some.inj (hid.symm.trans hid')
  obtain ⟨i, pc, hi, hop, hp⟩ := hab
  obtain rfl := h.unique i j pc pc' id hi hj hop hop'
  obtain rfl := Option.some.inj (hi.symm.trans hj)
  cases pc <;> simp_all [Pc.abandoned, Pc.atEnd, Pc.finishing]

/-- A caller may go on from `pc` to `pc'`. -/
structure Moves (s : State) (pc pc' : Pc) : Prop where
  /-- with its operation, or without one -/
  operation : ∀ id, pc'.operation = some id → pc.operation = some id
  /-- a running operation owns the lock -/
  owner : pc'.running = true →
    ∃ e, s.locks.lookup s.now bulkCacheLockKey = some e ∧ pc'.operation = some e.value
  /-- an abandoned operation stays so -/
  abandoned : pc.abandoned = true → pc'.abandoned = true ∧ pc'.operation = pc.operation
  /-- an operation that runs goes on or is given up, unless no poll looks at its record -/
  running : pc.running = true →
    (pc'.running = true ∨ pc'.abandoned = true) ∧ pc'.operation = pc.operation ∨
      ∀ read, .pollLock read ∈ s.threads → read.operationID ≠ pc.operation
  /-- an operation at its end stays there -/
  atEnd : pc.atEnd = true → pc'.atEnd = true ∧ pc'.operation = pc.operation
  /-- a caller that has stored a record was the last -/
  recorded : pc'.recorded = true → s.lastOperation = some pc'.operation
  /-- no active record is left behind -/
  active : ∀ e, s.records bulkCacheStateKey = some e → e.value.status = .refreshing →
    e.value.operationID = pc.operation → pc.warming = true →
    (pc'.warming = true ∨ pc'.abandoned = true) ∧ pc'.operation = pc.operation

/-- An operation keeps what is true of its program points if its caller does. -/
theorem hasOperation_goto {p p' : Pc → Bool} {id : ℕ} (hi : s.threads[i]? = some pc)
    (hp : ∀ q, p q = true → p' q = true)
    (hpc : p pc = true → pc.operation = some id → p' pc' = true ∧ pc'.operation = pc.operation)
    (h : s.HasOperation p id) : (s.goto i pc').HasOperation p' id := by
  obtain ⟨j, q, hj, hq, hpq⟩ := h
  by_cases hji : j = i
  · subst hji
    obtain rfl := Option.some.inj (hi.symm.trans hj)
    obtain ⟨hp', hop'⟩ := hpc hpq hq
    exact ⟨j, pc', Agents.getElem?_set_of_some hi, hop'.trans hq, hp'⟩
  · exact ⟨j, q, (List.getElem?_set_ne (Ne.symm hji)).trans hj, hq, hp q hpq⟩

/-- A caller that does not run an operation yet, or a poll. -/
theorem Moves.of_idle (hr : pc.running = false) (ha : pc.abandoned = false)
    (he : pc.atEnd = false) (hop : ∀ id, pc'.operation = some id → pc.operation = some id)
    (howner : pc'.running = true →
      ∃ e, s.locks.lookup s.now bulkCacheLockKey = some e ∧ pc'.operation = some e.value)
    (hrec : pc'.recorded = false) : Moves s pc pc' where
  operation := hop
  owner := howner
  abandoned h := by rw [ha] at h; cases h
  running h := by rw [hr] at h; cases h
  atEnd h := by rw [he] at h; cases h
  recorded h := by rw [hrec] at h; cases h
  active _ _ _ _ h := by rw [Pc.running_of_warming h] at hr; cases hr

theorem Moves.keeps (hm : Moves s pc pc') (hi : s.threads[i]? = some pc) :
    s.Keeps (s.goto i pc') where
  abandoned _ h := hasOperation_goto hi (fun _ hp => hp) (fun hp _ => hm.abandoned hp) h
  running read id hread hid h := by
    obtain ⟨j, q, hj, hq, hr⟩ := h
    by_cases hji : j = i
    · subst hji
      obtain rfl := Option.some.inj (hi.symm.trans hj)
      rcases hm.running hr with ⟨hr' | ha', hop'⟩ | hno
      · exact .inl ⟨j, pc', Agents.getElem?_set_of_some hi, hop'.trans hq, hr'⟩
      · exact .inr ⟨j, pc', Agents.getElem?_set_of_some hi, hop'.trans hq, ha'⟩
      · exact absurd (hid.trans hq.symm) (hno read hread)
    · exact .inl ⟨j, q, (List.getElem?_set_ne (Ne.symm hji)).trans hj, hq, hr⟩
  last _ := rfl

/-- **Program points**: a caller moves on. -/
theorem goto (h : Inv s) (hi : s.threads[i]? = some pc) (hm : Moves s pc pc')
    (hshape : pc'.Shape (s.goto i pc')) : Inv (s.goto i pc') := by
  have hlookup : ∀ (j : ℕ) q, (s.goto i pc').threads[j]? = some q →
      (j = i ∧ q = pc') ∨ (j ≠ i ∧ s.threads[j]? = some q) :=
    fun _ _ hj => Agents.getElem?_set_cases hj
  have hkeeps := hm.keeps hi
  refine ⟨?_, ?_, ?_, ?_, ?_, ?_, ?_, ?_⟩
  · intro j q id hj hq
    rcases hlookup j q hj with ⟨rfl, rfl⟩ | ⟨-, hj⟩
    · exact h.fresh j pc id hi (hm.operation id hq)
    · exact h.fresh j q id hj hq
  · intro j k q q' id hj hk hq hq'
    rcases hlookup j q hj with ⟨rfl, rfl⟩ | ⟨-, hj'⟩ <;>
      rcases hlookup k q' hk with ⟨rfl, rfl⟩ | ⟨-, hk'⟩
    · rfl
    · exact h.unique _ k pc q' id hi hk' (hm.operation id hq) hq'
    · exact h.unique j _ q pc id hj' hi hq (hm.operation id hq')
    · exact h.unique j k q q' id hj' hk' hq hq'
  · intro j q hj hr
    rcases hlookup j q hj with ⟨rfl, rfl⟩ | ⟨-, hj⟩
    · exact hm.owner hr
    · exact h.owner j q hj hr
  · intro e he hst
    obtain ⟨id, hid, ⟨j, q, hj, hq, hw⟩ | hab'⟩ := h.active e he hst
    · refine ⟨id, hid, ?_⟩
      by_cases hji : j = i
      · subst hji
        obtain rfl := Option.some.inj (hi.symm.trans hj)
        obtain ⟨hw' | ha', hop'⟩ := hm.active e he hst (hid.trans hq.symm) hw
        · exact .inl ⟨j, pc', Agents.getElem?_set_of_some hi, hop'.trans hq, hw'⟩
        · exact .inr ⟨j, pc', Agents.getElem?_set_of_some hi, hop'.trans hq, ha'⟩
      · exact .inl ⟨j, q, (List.getElem?_set_ne (Ne.symm hji)).trans hj, hq, hw⟩
    · exact ⟨id, hid, .inr (hkeeps.abandoned id hab')⟩
  · intro j q hj hr
    rcases hlookup j q hj with ⟨rfl, rfl⟩ | ⟨-, hj⟩
    · exact hm.recorded hr
    · exact h.recorded j q hj hr
  · intro e he hf
    obtain ⟨id, hid, hend⟩ := h.final e he hf
    exact ⟨id, hid, hasOperation_goto hi (fun _ hp => hp) (fun hp _ => hm.atEnd hp) hend⟩
  · intro e he hst
    obtain ⟨id, hid, hab'⟩ := h.interrupted e he hst
    exact ⟨id, hid, hkeeps.abandoned id hab'⟩
  · intro j q hj
    rcases hlookup j q hj with ⟨rfl, rfl⟩ | ⟨-, hj⟩
    · exact hshape
    · exact (h.shape j q hj).mono (List.mem_of_getElem? hj) hkeeps

/-- Stored records as they were. -/
theorem shape_same {s' : State} (h : Inv s) (hthreads : s'.threads = s.threads)
    (hlast : s'.lastOperation = s.lastOperation) (j : ℕ) (q : Pc)
    (hj : s'.threads[j]? = some q) : q.Shape s' := by
  rw [hthreads] at hj
  exact (h.shape j q hj).mono (List.mem_of_getElem? hj) (.of_same hthreads hlast)

/-- **The record**: a save by the right caller, of the operation that has stored the last record or
while no poll is looking. -/
theorem save (h : Inv s) (o : Outcome) (st : BulkCacheState) (ttl : ℕ)
    (hlast : s.lastOperation = some st.operationID ∨ (∀ q ∈ s.threads, q.reading = false) ∧
      ∀ (j : ℕ) q, s.threads[j]? = some q → q.recorded = true → q.operation = st.operationID)
    (hact : st.status = .refreshing →
      ∃ id, st.operationID = some id ∧ (s.HasOperation Pc.warming id ∨ s.Abandoned id))
    (hfin : st.status.final = true → ∃ id, st.operationID = some id ∧ s.HasOperation Pc.atEnd id)
    (hint : st.status = .interrupted → ∃ id, st.operationID = some id ∧ s.Abandoned id) :
    Inv (s.saveBulkCacheState o st ttl) := by
  by_cases ho : o.applied = true
  · have hnew : (s.saveBulkCacheState o st ttl).lastOperation = _ := State.lastOperation_save ho
    rw [State.saveBulkCacheState, if_pos ho] at hnew ⊢
    have hcases : ∀ e, s.records.set bulkCacheStateKey (st.saved s.now) (some (s.now + ttl))
        bulkCacheStateKey = some e → e.value = st.saved s.now := by
      intro e he
      rw [ExpiringMap.set_self] at he
      obtain rfl := Option.some.inj he
      rfl
    refine ⟨h.fresh, h.unique, h.owner, fun e he hst => ?_, fun j q hj hr => ?_,
      fun e he hst => ?_, fun e he hst => ?_, fun j q hj => ?_⟩
    · rw [hcases e he] at hst ⊢
      exact hact hst
    · rw [hnew]
      rcases hlast with hlast | ⟨-, hothers⟩
      · exact hlast.symm.trans (h.recorded j q hj hr)
      · rw [hothers j q hj hr]
    · rw [hcases e he] at hst ⊢
      exact hfin hst
    · rw [hcases e he] at hst ⊢
      exact hint hst
    · refine (h.shape j q hj).mono (List.mem_of_getElem? hj) ⟨fun _ => id, fun _ _ _ _ => .inl, ?_⟩
      rintro ⟨q', hq', hreading⟩
      rcases hlast with hlast | ⟨hnone, -⟩
      · exact hnew.trans hlast.symm
      · rw [hnone q' hq'] at hreading
        cases hreading
  · rw [State.saveBulkCacheState, if_neg ho]
    exact h

/-- **The lock**: a release by a caller that is not running removes no running caller's lock. -/
theorem releaseLock (h : Inv s) (o : Outcome) {st : BulkCacheState}
    (hi : s.threads[i]? = some pc) (hpc : pc.operation = st.operationID)
    (hrun : pc.running = false) : Inv (s.releaseBulkCacheLock o st) := by
  unfold State.releaseBulkCacheLock
  split
  · next id _ hid =>
    refine ⟨h.fresh, h.unique, ?_, h.active, h.recorded, h.final, h.interrupted,
      h.shape_same rfl rfl⟩
    intro j q hj hr
    obtain ⟨e, he, hop⟩ := h.owner j q hj hr
    refine ⟨e, ?_, hop⟩
    have hne : e.value ≠ id := by
      rintro rfl
      obtain rfl := h.unique i j pc q _ hi hj (hpc.trans hid) hop
      obtain rfl := Option.some.inj (hi.symm.trans hj)
      rw [hrun] at hr
      cases hr
    have hstored := (ExpiringMap.lookup_eq_some.mp he).1
    dsimp only
    rw [ExpiringMap.delIfEq_of_ne]
    · exact he
    · rw [hstored]
      exact fun heq => hne (Option.some.inj heq)
  · exact h

/-- A new caller with a new operation or none. -/
theorem spawn (h : Inv s) {n : ℕ} (hn : s.nextID ≤ n)
    (hop : ∀ id, pc.operation = some id → s.nextID ≤ id ∧ id < n)
    (hrun : pc.running = false) (hshape : pc.Shape { s.spawn pc with nextID := n }) :
    Inv { s.spawn pc with nextID := n } := by
  have hmono : ∀ p id, s.HasOperation p id →
      State.HasOperation { s.spawn pc with nextID := n } p id := fun p id hid =>
    hid.imp fun j q hj hq hp => ⟨q, Agents.getElem?_append_of_some hj, hq, hp⟩
  have hkeeps : s.Keeps { s.spawn pc with nextID := n } :=
    ⟨hmono _, fun _ _ _ _ hr => .inl (hmono _ _ hr), fun _ => rfl⟩
  refine ⟨?_, ?_, ?_, ?_, ?_, ?_, ?_, ?_⟩
  · intro j q id hj hq
    rcases Agents.getElem?_append_cases hj with hj | rfl
    · exact Nat.lt_of_lt_of_le (h.fresh j q id hj hq) hn
    · exact (hop id hq).2
  · intro j k q q' id hj hk hq hq'
    rcases Agents.getElem?_append_places hj with hj' | ⟨rfl, rfl⟩ <;>
      rcases Agents.getElem?_append_places hk with hk' | ⟨rfl, rfl⟩
    · exact h.unique j k q q' id hj' hk' hq hq'
    · have := h.fresh j q id hj' hq
      have := (hop id hq').1
      omega
    · have := h.fresh k q' id hk' hq'
      have := (hop id hq).1
      omega
    · rfl
  · intro j q hj hr
    rcases Agents.getElem?_append_cases hj with hj | rfl
    · exact h.owner j q hj hr
    · rw [hrun] at hr
      cases hr
  · intro e he hst
    obtain ⟨id, hid, hw | hab⟩ := h.active e he hst
    · exact ⟨id, hid, .inl (hmono _ id hw)⟩
    · exact ⟨id, hid, .inr (hmono _ id hab)⟩
  · intro j q hj hr
    rcases Agents.getElem?_append_cases hj with hj | rfl
    · exact h.recorded j q hj hr
    · rw [Pc.running_of_warming (Pc.warming_of_recorded hr)] at hrun
      cases hrun
  · intro e he hf
    obtain ⟨id, hid, hend⟩ := h.final e he hf
    exact ⟨id, hid, hmono _ id hend⟩
  · intro e he hst
    obtain ⟨id, hid, hab⟩ := h.interrupted e he hst
    exact ⟨id, hid, hmono _ id hab⟩
  · intro j q hj
    rcases Agents.getElem?_append_cases hj with hj | rfl
    · exact (h.shape j q hj).mono (List.mem_of_getElem? hj) hkeeps
    · exact hshape

/-- Time passes while no running operation loses its lock. -/
theorem tick (h : Inv s) {d : ℕ} (hok : Ok s (.tick d)) : Inv { s with now := s.now + d } := by
  refine ⟨h.fresh, h.unique, ?_, h.active, h.recorded, h.final, h.interrupted,
    h.shape_same rfl rfl⟩
  intro j q hj hr
  obtain ⟨e, he, hop⟩ := h.owner j q hj hr
  have hstored := (ExpiringMap.lookup_eq_some.mp he).1
  exact ⟨e, ExpiringMap.lookup_eq_some.mpr
    ⟨hstored, hok.inTime d rfl q (List.mem_of_getElem? hj) hr e hstored hop⟩, hop⟩

/-- A caller that is not running takes a free lock, or finds it taken. -/
theorem setLock (h : Inv s) (o : Outcome) (id : ℕ) : Inv (s.setLock o id) := by
  unfold State.setLock
  split
  · refine ⟨h.fresh, h.unique, ?_, h.active, h.recorded, h.final, h.interrupted,
      h.shape_same rfl rfl⟩
    intro j q hj hr
    obtain ⟨e, he, hop⟩ := h.owner j q hj hr
    refine ⟨e, ?_, hop⟩
    dsimp only
    rw [ExpiringMap.setNX_of_has]
    · exact he
    · simp [ExpiringMap.has, he]
  · exact h

/-- The caller took the free lock. -/
theorem lookup_setLock {id : ℕ} (hl : s.locked = false) :
    (s.setLock .ok id).locks.lookup s.now bulkCacheLockKey =
      some ⟨id, some (s.now + bulkCacheLockTTL)⟩ := by
  rw [ExpiringMap.lookup_eq_some]
  constructor
  · simp only [State.locked] at hl
    simp [State.setLock, ExpiringMap.setNX, hl, Outcome.applied]
  · simp [Expiring.live, bulkCacheLockTTL, Cache.hour, Cache.minute, Cache.second]

/-- Moves of a running caller that keeps its record in hand active. -/
theorem work (h : Inv s) (hi : s.threads[i]? = some pc) (hw : pc.recorded = true)
    (hw' : pc'.recorded = true) (hop : pc'.operation = pc.operation)
    (hend : pc.atEnd = false) (hshape : pc'.Shape (s.goto i pc')) :
    Inv (s.goto i pc') := by
  refine h.goto hi ⟨fun _ hid => hop ▸ hid, fun _ => ?_, fun hab => ?_, fun _ => .inl ?_,
    fun hend' => (by rw [hend] at hend'; cases hend'), fun _ => ?_,
    fun _ _ _ _ _ => ⟨.inl (Pc.warming_of_recorded hw'), hop⟩⟩ hshape
  · rw [hop]
    exact h.owner i pc hi (Pc.running_of_warming (Pc.warming_of_recorded hw))
  · cases pc <;> simp_all [Pc.recorded, Pc.abandoned]
  · exact ⟨.inl (Pc.running_of_warming (Pc.warming_of_recorded hw')), hop⟩
  · rw [hop]
    exact h.recorded i pc hi hw

/-- A progress save. -/
theorem saveActive (h : Inv s) (hi : s.threads[i]? = some pc) (hw : pc.recorded = true)
    {st : BulkCacheState} {id : ℕ} (hop : pc.operation = some id) (hst : st.operationID = some id)
    (hs : st.status = .refreshing) (o : Outcome) (ttl : ℕ) :
    Inv (s.saveBulkCacheState o st ttl) :=
  h.save o st ttl (.inl ((h.recorded i pc hi hw).trans (by rw [hop, hst])))
    (fun _ => ⟨id, hst, .inl ⟨i, pc, hi, hop, Pc.warming_of_recorded hw⟩⟩)
    (fun hf => by rw [hs] at hf; cases hf) (fun hint => by rw [hs] at hint; cases hint)

end Inv

/-! ## One step -/

theorem Pc.shape_loop {s : State} {st : BulkCacheState} {id : ℕ} (now left : ℕ)
    (hs : st.status = .refreshing) (hid : st.operationID = some id) :
    (Pc.loop now st left).Shape s := by
  cases left with
  | zero => exact ⟨st.finalStatus_final, id, hid⟩
  | succ left => exact ⟨hs, id, hid⟩

@[simp] theorem Pc.recorded_loop (now left : ℕ) (st : BulkCacheState) :
    (Pc.loop now st left).recorded = true := by
  cases left <;> rfl

@[simp] theorem Pc.operation_loop (now left : ℕ) (st : BulkCacheState) :
    (Pc.loop now st left).operation = st.operationID := by
  cases left <;> rfl

@[simp] theorem BulkCacheState.warmed_status (st : BulkCacheState) (r : Warmed) :
    (st.warmed r).status = st.status := by
  cases r <;> rfl

@[simp] theorem BulkCacheState.warmed_operationID (st : BulkCacheState) (r : Warmed) :
    (st.warmed r).operationID = st.operationID := by
  cases r <;> rfl

@[simp] theorem State.saveBulkCacheState_threads (s : State) (o : Outcome) (st : BulkCacheState)
    (ttl : ℕ) : (s.saveBulkCacheState o st ttl).threads = s.threads := by
  unfold saveBulkCacheState
  split <;> rfl

@[simp] theorem State.setLock_threads (s : State) (o : Outcome) (id : ℕ) :
    (s.setLock o id).threads = s.threads := by
  unfold setLock
  split <;> rfl

@[simp] theorem State.setLock_now (s : State) (o : Outcome) (id : ℕ) :
    (s.setLock o id).now = s.now := by
  unfold setLock
  split <;> rfl

theorem State.goto_releaseBulkCacheLock (s : State) (i : ℕ) (pc : Pc) (o : Outcome)
    (st : BulkCacheState) :
    (s.releaseBulkCacheLock o st).goto i pc = (s.goto i pc).releaseBulkCacheLock o st := by
  unfold releaseBulkCacheLock
  split <;> rfl

namespace Inv

variable {s t : State} {i : ℕ}

/-- A save moves no caller. -/
theorem threads_of_save {pc : Pc} {o : Outcome} {st : BulkCacheState} {ttl : ℕ}
    (hi : s.threads[i]? = some pc) :
    (s.saveBulkCacheState o st ttl).threads[i]? = some pc := by
  rw [State.saveBulkCacheState_threads]
  exact hi

/-- `SETNX` of the lock. -/
theorem stepAcquire (h : Inv s) {st : BulkCacheState} {id : ℕ} {o : Outcome}
    (hi : s.threads[i]? = some (.acquire st)) (hid : st.operationID = some id) :
    Inv (stepAcquire s i st id o) := by
  have hi' : (s.setLock o id).threads[i]? = some (.acquire st) := by simpa using hi
  obtain ⟨hs, -⟩ := h.shape i _ hi
  have hleave : ∀ pc : Pc, pc.running = false → (∀ x, pc.operation = some x →
      st.operationID = some x) → pc.Shape ((s.setLock o id).goto i pc) →
      Inv ((s.setLock o id).goto i pc) := fun pc hr hop hshape =>
    (h.setLock o id).goto hi' (.of_idle rfl rfl rfl hop (fun hr' => by rw [hr] at hr'; cases hr')
      (Pc.recorded_of_running hr)) hshape
  unfold Bulk.stepAcquire
  split
  · exact hleave (.beginFailed st) rfl (fun _ hx => hx) ⟨id, hid⟩
  · split
    · exact hleave .pollRead rfl (fun _ hx => by cases hx) trivial
    · next ho hl =>
      refine (h.setLock o id).goto hi' (.of_idle rfl rfl rfl (fun _ hx => hx) (fun _ => ?_) rfl)
        ⟨hs, id, hid⟩
      obtain rfl := Outcome.eq_ok (by simpa using ho)
      rw [State.setLock_now]
      exact ⟨_, lookup_setLock (by simpa using hl), hid⟩

/-- Moves of a poll, which owns nothing. -/
theorem poll (h : Inv s) {pc pc' : Pc} (hi : s.threads[i]? = some pc)
    (hpc : pc = .pollRead ∨ pc.reading = true) (hr : pc'.running = false)
    (hop : pc'.operation = none) (hshape : pc'.Shape (s.goto i pc')) : Inv (s.goto i pc') := by
  have hidle : pc.running = false ∧ pc.abandoned = false ∧ pc.atEnd = false := by
    cases pc <;> simp_all [Pc.reading, Pc.running, Pc.warming, Pc.recorded, Pc.abandoned, Pc.atEnd,
      Pc.finishing]
  exact h.goto hi (.of_idle hidle.1 hidle.2.1 hidle.2.2 (fun x hx => by rw [hop] at hx; cases hx)
    (fun hr' => by rw [hr] at hr'; cases hr') (Pc.recorded_of_running hr)) hshape

/-- Abandoned operations stay so while another caller moves. -/
theorem abandoned_goto {pc pc' : Pc} {id : ℕ} (hi : s.threads[i]? = some pc)
    (ha : pc.abandoned = false) (hab : s.Abandoned id) : (s.goto i pc').Abandoned id := by
  obtain ⟨j, q, hj, hq, hp⟩ := hab
  refine ⟨j, q, ?_, hq, hp⟩
  have hji : j ≠ i := by
    rintro rfl
    obtain rfl := Option.some.inj (hi.symm.trans hj)
    rw [ha] at hp
    cases hp
  exact (List.getElem?_set_ne (Ne.symm hji)).trans hj

/-- `GET` of a poll. -/
theorem stepPollRead (h : Inv s) {o : Outcome} (hi : s.threads[i]? = some .pollRead) :
    Inv (stepPollRead s i o) := by
  unfold Bulk.stepPollRead
  split
  · exact h.poll hi (.inl rfl) rfl rfl trivial
  · rcases hrec : s.record with _ | r
    · exact h.poll hi (.inl rfl) rfl rfl (fun hs => by cases hs)
    · obtain ⟨e, he, rfl⟩ := State.record_eq_some hrec
      dsimp only
      split
      · next hs =>
        refine h.poll hi (.inl rfl) rfl rfl ⟨hs, ?_⟩
        obtain ⟨id, hid, hop⟩ := h.active e he hs
        have hlast : s.lastOperation = some (some id) := by rw [State.lastOperation, he, ← hid]; rfl
        have hkeep : ∀ p, p Pc.pollRead = false → s.HasOperation p id →
            (s.goto i (.pollLock e.value)).HasOperation p id := fun p hp =>
          hasOperation_goto hi (fun _ hq => hq) fun hq => by rw [hp] at hq; cases hq
        refine ⟨id, hid, hlast, hop.imp (fun hw => hkeep _ rfl ?_) (hkeep _ rfl)⟩
        obtain ⟨j, q, hj, hq, hp⟩ := hw
        exact ⟨j, q, hj, hq, Pc.running_of_warming hp⟩
      · refine h.poll hi (.inl rfl) rfl rfl fun hs => ?_
        obtain ⟨id, hid, hab⟩ := h.interrupted e he hs
        exact ⟨id, hid, abandoned_goto hi rfl hab⟩

/-- `EXISTS` of a poll. -/
theorem stepPollLock (h : Inv s) {o : Outcome} {read : BulkCacheState}
    (hi : s.threads[i]? = some (.pollLock read)) : Inv (stepPollLock s i read o) := by
  obtain ⟨hs, id, hid, hlast, hop⟩ := h.shape i _ hi
  unfold Bulk.stepPollLock
  split
  · exact h.poll hi (.inr rfl) rfl rfl (fun hs' => by rw [hs] at hs'; cases hs')
  · next hl =>
    have hfree : s.locked = false := by simpa using (not_or.mp hl).2
    have hab := hop.resolve_left (h.not_running_of_unlocked hfree)
    exact h.poll hi (.inr rfl) rfl rfl ⟨rfl, id, hid, hlast, abandoned_goto hi rfl hab⟩

/-- **The step lemma for a caller.** -/
theorem stepThread (h : Inv s) {pc : Pc} {c : Choice} (hok : Ok s (.run i c))
    (hi : s.threads[i]? = some pc) (ht : stepThread s i pc c = some t) : Inv t := by
  have hsh := h.shape i pc hi
  cases pc with
  | acquire st =>
    cases c with
    | redis o =>
      obtain ⟨id, hid, rfl⟩ := Option.map_eq_some_iff.mp ht
      exact h.stepAcquire hi hid
    | _ => cases ht
  | saveBegun st =>
    cases c with
    | redis o =>
      obtain rfl := Option.some.inj ht
      obtain ⟨hs, id, hid⟩ := hsh
      have h' : Inv (s.saveBulkCacheState o st bulkCacheActiveTTL) := by
        refine h.save o st _ (.inr ⟨hok.begun i _ st rfl hi, fun j q hj hr => ?_⟩)
          (fun _ => ⟨id, hid, .inl ⟨i, _, hi, hid, rfl⟩⟩)
          (fun hf => by rw [hs] at hf; cases hf) (fun hs' => by rw [hs] at hs'; cases hs')
        -- no other operation runs
        obtain rfl := h.running_unique hi rfl hj (Pc.running_of_warming (Pc.warming_of_recorded hr))
        obtain rfl := Option.some.inj (hi.symm.trans hj)
        cases hr
      have hi' : (s.saveBulkCacheState o st bulkCacheActiveTTL).threads[i]? = _ :=
        threads_of_save hi
      have howner := h'.owner i _ hi' rfl
      split
      · next ho =>
        refine h'.goto hi' ⟨fun _ hx => hx, fun _ => howner, fun ha => (by cases ha),
          fun _ => .inl ⟨.inl rfl, rfl⟩, fun he => (by cases he), fun _ => ?_,
          fun _ _ _ _ _ => ⟨.inl rfl, rfl⟩⟩ ⟨hs, id, hid⟩
        exact State.lastOperation_save (Outcome.applied_of_replied ho)
      · exact h'.goto hi' ⟨fun _ hx => hx, fun hr => (by cases hr), fun ha => (by cases ha),
          fun _ => .inl ⟨.inr rfl, rfl⟩, fun he => (by cases he), fun hr => (by cases hr),
          fun _ _ _ _ _ => ⟨.inr rfl, rfl⟩⟩ ⟨id, hid⟩
    | _ => cases ht
  | releaseFailed st =>
    cases c with
    | redis o =>
      obtain rfl := Option.some.inj ht
      have h' : Inv (s.goto i (.beginFailed st)) :=
        h.goto hi ⟨fun _ hx => hx, fun hr => (by cases hr), fun _ => ⟨rfl, rfl⟩,
          fun hr => (by cases hr), fun he => (by cases he), fun hr => (by cases hr),
          fun _ _ _ _ hw => by cases hw⟩ hsh
      rw [State.goto_releaseBulkCacheLock]
      exact h'.releaseLock o (Agents.getElem?_set_of_some hi) rfl rfl
    | _ => cases ht
  | providers st =>
    cases c with
    | providers r =>
      obtain ⟨hs, id, hid⟩ := hsh
      cases r with
      | error text =>
        obtain rfl := Option.some.inj ht
        exact h.work hi rfl rfl rfl rfl ⟨hs, id, hid⟩
      | ok n =>
        obtain rfl := Option.some.inj ht
        exact h.work hi rfl (Pc.recorded_loop ..) (Pc.operation_loop ..) rfl
          (Pc.shape_loop _ _ hs hid)
    | _ => cases ht
  | nextEntry st left =>
    cases c with
    | context ended =>
      obtain ⟨hs, id, hid⟩ := hsh
      cases ended with
      | none =>
        obtain rfl := Option.some.inj ht
        exact h.work hi rfl rfl rfl rfl ⟨hs, id, hid⟩
      | some text =>
        obtain rfl := Option.some.inj ht
        exact h.work hi rfl rfl rfl rfl ⟨hs, id, hid⟩
    | _ => cases ht
  | saveStarted st left =>
    cases c with
    | redis o =>
      obtain rfl := Option.some.inj ht
      obtain ⟨hs, id, hid⟩ := hsh
      exact (h.saveActive hi rfl hid hid hs o _).work
        (threads_of_save hi) rfl rfl rfl rfl ⟨hs, id, hid⟩
    | _ => cases ht
  | warmOne st left =>
    cases c with
    | warm r =>
      obtain rfl := Option.some.inj ht
      obtain ⟨hs, id, hid⟩ := hsh
      exact h.work hi rfl rfl (by simp [Pc.operation]) rfl
        ⟨by simpa using hs, id, by simpa using hid⟩
    | _ => cases ht
  | saveWarmed st left =>
    cases c with
    | redis o =>
      obtain rfl := Option.some.inj ht
      obtain ⟨hs, id, hid⟩ := hsh
      exact (h.saveActive hi rfl hid hid hs o _).work
        (threads_of_save hi) rfl (Pc.recorded_loop ..) (Pc.operation_loop ..) rfl
        (Pc.shape_loop _ _ hs hid)
    | _ => cases ht
  | saveStopped st =>
    cases c with
    | redis o =>
      obtain rfl := Option.some.inj ht
      obtain ⟨hs, id, hid⟩ := hsh
      exact (h.saveActive hi rfl hid hid hs o _).work
        (threads_of_save hi) rfl rfl rfl rfl ⟨st.finalStatus_final, id, hid⟩
    | _ => cases ht
  | saveFinal st =>
    cases c with
    | redis o =>
      obtain rfl := Option.some.inj ht
      obtain ⟨hf, id, hid⟩ := hsh
      have happ := hok.stored i o st rfl hi
      have h' := h.save o st bulkCacheHistoryTTL (.inl (h.recorded i _ hi rfl))
        (fun hs => by rw [hs] at hf; cases hf) (fun _ => ⟨id, hid, i, _, hi, hid, rfl⟩)
        (fun hs => by rw [hs] at hf; cases hf)
      have hi' : (s.saveBulkCacheState o st bulkCacheHistoryTTL).threads[i]? = _ :=
        threads_of_save hi
      refine h'.goto hi' ⟨fun _ hx => hx, fun _ => h'.owner i (.saveFinal st) hi' rfl,
        fun ha => (by cases ha), fun _ => .inl ⟨.inl rfl, rfl⟩, fun _ => ⟨rfl, rfl⟩,
        fun hr => (by cases hr), fun e he hs => ?_⟩ ⟨hf, id, hid⟩
      -- the stored record is the final one
      rw [State.saveBulkCacheState, if_pos happ] at he
      dsimp only at he
      rw [ExpiringMap.set_self] at he
      obtain rfl := Option.some.inj he
      rw [saved_status] at hs
      rw [hs] at hf
      cases hf
    | _ => cases ht
  | release st =>
    cases c with
    | redis o =>
      obtain rfl := Option.some.inj ht
      have h' : Inv (s.goto i (.finished st)) :=
        h.goto hi ⟨fun _ hx => hx, fun hr => (by cases hr), fun ha => (by cases ha),
          fun _ => .inr (hok.released i _ st rfl hi), fun _ => ⟨rfl, rfl⟩, fun hr => (by cases hr),
          fun _ _ _ _ hw => by cases hw⟩ hsh
      rw [State.goto_releaseBulkCacheLock]
      exact h'.releaseLock o (Agents.getElem?_set_of_some hi) rfl rfl
    | _ => cases ht
  | pollRead =>
    cases c with
    | redis o =>
      obtain rfl := Option.some.inj ht
      exact h.stepPollRead hi
    | _ => cases ht
  | pollLock read =>
    cases c with
    | redis o =>
      obtain rfl := Option.some.inj ht
      exact h.stepPollLock hi
    | _ => cases ht
  | pollSave read st =>
    cases c with
    | redis o =>
      obtain rfl := Option.some.inj ht
      obtain ⟨hs, id, hid, hlast, hab⟩ := hsh
      have h' := h.save o st bulkCacheHistoryTTL (.inl (by rw [hlast, hid]))
        (fun hs' => by rw [hs] at hs'; cases hs') (fun hf => by rw [hs] at hf; cases hf)
        fun _ => ⟨id, hid, hab⟩
      have hab' : (s.saveBulkCacheState o st bulkCacheHistoryTTL).Abandoned id := by
        rwa [State.Abandoned, State.HasOperation, State.saveBulkCacheState_threads]
      exact h'.poll (threads_of_save hi) (.inr rfl) rfl rfl
        fun _ => ⟨id, hid, abandoned_goto (threads_of_save hi) rfl hab'⟩
    | _ => cases ht
  | _ => cases ht

/-- The process of a caller dies. -/
theorem crash (h : Inv s) {pc : Pc} (hi : s.threads[i]? = some pc) (hok : Ok s (.crash i))
    (hended : pc.ended = false) : Inv (s.goto i (.crashed pc.operation)) := by
  refine h.goto hi ⟨fun _ hx => hx, fun hr => (by cases hr), fun _ => ⟨rfl, rfl⟩,
    fun _ => .inl ⟨.inr rfl, rfl⟩, fun he => ?_, fun hr => (by cases hr),
    fun _ _ _ _ _ => ⟨.inr rfl, rfl⟩⟩ trivial
  have hfinishing := hok.alive i pc rfl hi
  cases pc <;> simp_all [Pc.atEnd, Pc.finishing, Pc.ended]

/-- **The step lemma.** -/
theorem step (h : Inv s) {a : Action} (hok : Ok s a) (ht : step s a = some t) : Inv t := by
  cases a with
  | start =>
    obtain rfl := Option.some.inj ht
    refine h.spawn (Nat.le_succ _) (fun id hid => ?_) rfl ⟨rfl, s.nextID, rfl⟩
    obtain rfl := Option.some.inj hid
    exact ⟨Nat.le_refl _, Nat.lt_succ_self _⟩
  | poll =>
    obtain rfl := Option.some.inj ht
    exact h.spawn (Nat.le_refl _) (fun id hid => by cases hid) rfl trivial
  | run i c =>
    obtain ⟨pc, hi, ht⟩ := Option.bind_eq_some_iff.mp ht
    exact h.stepThread hok hi ht
  | tick d =>
    obtain rfl := Option.some.inj ht
    exact h.tick hok
  | crash i =>
    obtain ⟨pc, hi, ht⟩ := Option.bind_eq_some_iff.mp ht
    split at ht
    · cases ht
    · next hended =>
      obtain rfl := Option.some.inj ht
      exact h.crash hi hok (by simpa using hended)

/-- Nothing is stored and nobody is there. -/
theorem init : Inv init where
  fresh _ _ _ hi := by cases hi
  unique _ _ _ _ _ hi := by cases hi
  owner _ _ hi := by cases hi
  active _ he := by cases he
  recorded _ _ hi := by cases hi
  final _ he := by cases he
  interrupted _ he := by cases he
  shape _ _ hi := by cases hi

end Inv

/-- Every state of a guarded run satisfies the invariant. -/
theorem inv_of_run {s : State} (h : Run step Ok init s) : Inv s :=
  h.invariant (fun _ _ _ hi hok hs => hi.step hok hs) Inv.init

/-! ## Polls -/

/-- The record a caller saves next. -/
def Pc.saves : Pc → Option BulkCacheState
  | saveBegun st | saveStarted st _ | saveWarmed st _ | saveStopped st | saveFinal st
  | pollSave _ st => some st
  | _ => none

/-- Time does not go back, and the record changes only when a caller saves its own. -/
def State.Saves (s : State) (a : Action) (t : State) : Prop :=
  s.now ≤ t.now ∧ (t.records = s.records ∨
    ∃ (i : ℕ) (o : Outcome) (pc : Pc) (st : BulkCacheState) (d : ℕ), a = .run i (.redis o) ∧
      s.threads[i]? = some pc ∧ pc.saves = some st ∧
      t.records = s.records.set bulkCacheStateKey (st.saved s.now) (some d))

theorem State.saves_of_save {s : State} {i : ℕ} {o : Outcome} {pc pc' : Pc} {st : BulkCacheState}
    {ttl : ℕ} (hi : s.threads[i]? = some pc) (hpc : pc.saves = some st) :
    s.Saves (.run i (.redis o)) ((s.saveBulkCacheState o st ttl).goto i pc') := by
  unfold saveBulkCacheState
  split
  · exact ⟨Nat.le_refl _, .inr ⟨i, o, pc, st, s.now + ttl, rfl, hi, hpc, rfl⟩⟩
  · exact ⟨Nat.le_refl _, .inl rfl⟩

theorem State.saves_of_release {s : State} {a : Action} {i : ℕ} {o : Outcome} {pc : Pc}
    {st : BulkCacheState} : s.Saves a ((s.releaseBulkCacheLock o st).goto i pc) := by
  unfold releaseBulkCacheLock
  split <;> exact ⟨Nat.le_refl _, .inl rfl⟩

theorem State.saves_of_setLock {s : State} {a : Action} {i : ℕ} {o : Outcome} {pc : Pc} {id : ℕ} :
    s.Saves a ((s.setLock o id).goto i pc) := by
  unfold setLock
  split <;> exact ⟨Nat.le_refl _, .inl rfl⟩

theorem State.saves_of_step {s t : State} {a : Action} (h : step s a = some t) :
    s.Saves a t := by
  cases a with
  | run i c =>
    obtain ⟨pc, hi, h⟩ := Option.bind_eq_some_iff.mp h
    cases pc with
    | acquire st =>
      cases c with
      | redis o =>
        obtain ⟨id, -, rfl⟩ := Option.map_eq_some_iff.mp h
        exact saves_of_setLock
      | _ => cases h
    | releaseFailed st | release st =>
      cases c with
      | redis o =>
        obtain rfl := Option.some.inj h
        exact saves_of_release
      | _ => cases h
    | saveBegun st | saveStarted st left | saveWarmed st left | saveStopped st | saveFinal st
    | pollSave read st =>
      cases c with
      | redis o =>
        obtain rfl := Option.some.inj h
        exact saves_of_save hi rfl
      | _ => cases h
    | _ =>
      rcases c with o | (text | n) | (_ | text) | r
      all_goals cases h
      all_goals exact ⟨Nat.le_refl _, .inl rfl⟩
  | crash i =>
    obtain ⟨pc, -, h⟩ := Option.bind_eq_some_iff.mp h
    split at h
    · cases h
    · obtain rfl := Option.some.inj h
      exact ⟨Nat.le_refl _, .inl rfl⟩
  | tick d =>
    obtain rfl := Option.some.inj h
    exact ⟨Nat.le_add_right _ _, .inl rfl⟩
  | _ =>
    obtain rfl := Option.some.inj h
    exact ⟨Nat.le_refl _, .inl rfl⟩

/-- **Polls are right**: on every run with any number of refreshes and polls, with Redis errors
and crashes, a step that meets the condition harms no record and no report. -/
theorem bulkStatus_sound {s t : State} {a : Action} (hrun : Run step Ok init s) (hok : Ok s a)
    (ht : step s a = some t) : Sound s a t := by
  have hinv := inv_of_run hrun
  have hinv' := hinv.step hok ht
  -- a poll that writes reports on an abandoned operation, whose record is the stored one
  have hpoll : ∀ {i : ℕ} {read st r : BulkCacheState},
      s.threads[i]? = some (.pollSave read st) → s.record = some r →
        r.operationID = st.operationID ∧ r.status.final = false := by
    intro i read st r hi hr
    obtain ⟨-, id, hid, hlast, hab⟩ := hinv.shape i _ hi
    have hop : r.operationID = some id := by
      obtain ⟨e, he, rfl⟩ := State.record_eq_some hr
      rw [State.lastOperation, he] at hlast
      exact Option.some.inj hlast
    exact ⟨hop.trans hid.symm, hinv.not_final_of_abandoned hab hr hop⟩
  refine ⟨?_, ?_, ?_⟩
  · intro r hr hf r' hr' hs
    obtain ⟨e', he', rfl⟩ := Option.map_eq_some_iff.mp hr'
    obtain ⟨hle, hsame | ⟨i, o, pc, st, d, rfl, hi, hpc, hset⟩⟩ := State.saves_of_step ht
    · rw [hsame] at he'
      have he := ExpiringMap.lookup_mono hle he'
      rw [State.record, he] at hr
      obtain rfl := Option.some.inj hr
      rw [hs] at hf
      cases hf
    · have hst : st.status = .interrupted := by
        have he := (ExpiringMap.lookup_eq_some.mp he').1
        rw [hset, ExpiringMap.set_self] at he
        obtain rfl := Option.some.inj he
        exact hs
      have hsh := hinv.shape i pc hi
      cases pc with
      | pollSave read st' =>
        rw [(hpoll hi hr).2] at hf
        cases hf
      | saveBegun | saveStarted | saveWarmed | saveStopped | saveFinal =>
        obtain rfl := Option.some.inj hpc
        have := hsh.1
        rw [hst] at this
        cases this
      | _ => cases hpc
  · rintro i o read st r rfl hi hr
    exact (hpoll hi hr).1
  · intro i st hi hs
    obtain ⟨id, hid, hab⟩ := hinv'.shape i _ hi hs
    obtain ⟨hc, hr⟩ := hinv'.not_of_abandoned hab
    exact ⟨id, hid, hc, hr⟩

/-- A test for `Ok`. -/
def ok (s : State) : Action → Bool
  | .run i c => match s.threads[i]?, c with
    | some (.saveFinal _), .redis o => o.applied
    | some (.release st), _ => s.threads.all fun
      | .pollLock read => read.operationID ≠ st.operationID
      | _ => true
    | some (.saveBegun _), _ => s.threads.all fun pc => !pc.reading
    | _, _ => true
  | .tick _ | .crash _ => false
  | _ => true

theorem ok_sound (s : State) (a : Action) (h : ok s a = true) : Ok s a where
  inTime d ha := by subst ha; cases h
  stored i o st ha hi := by
    subst ha
    simpa only [ok, hi] using h
  released i c st ha hi read hread := by
    subst ha
    simp only [ok, hi, List.all_eq_true] at h
    exact of_decide_eq_true (h _ hread)
  begun i c st ha hi pc hpc := by
    subst ha
    simp only [ok, hi, List.all_eq_true, Bool.not_eq_true'] at h
    exact h pc hpc
  alive i pc ha := by subst ha; cases h

/-- A refresh that succeeds, with a poll that reads its record and its lock, and one whose first
save succeeds without a reply, so that it releases the lock. A poll finds the lock gone. -/
def refreshAndPolls : List Action :=
  [.start, .run 0 (.redis .ok), .run 0 (.redis .ok), .run 0 (.providers (.ok 0)),
    .poll, .run 1 (.redis .ok), .run 1 (.redis .ok),
    .run 0 (.redis .ok), .run 0 (.redis .ok),
    .start, .run 2 (.redis .ok), .run 2 (.redis .lost), .run 2 (.redis .ok),
    .poll, .run 3 (.redis .ok), .run 3 (.redis .ok)]

/-- What that poll stores and reports is right: the second operation is neither running nor
complete. -/
theorem bulkStatus_sound_polls : ∃ s t, Run step Ok init s ∧
    step s (.run 3 (.redis .ok)) = some t ∧ s.Completed 0 ∧
    t.threads[3]? = some (.reported ((begun 0 1).interrupt 0)) ∧
    Sound s (.run 3 (.redis .ok)) t ∧ ¬ t.Completed 1 ∧ ¬ t.Running 1 := by
  have heval : (exec (fun s a => if ok s a then step s a else none) init refreshAndPolls).map
      State.threads = some [.finished ((begun 0 0).finish 0), .reported (begun 0 0),
        .beginFailed (begun 0 1), .pollSave (begun 0 1) ((begun 0 1).interrupt 0)] := by
    decide +kernel
  obtain ⟨s, hrun, hthreads⟩ := Run.of_tested ok_sound heval
  have hi : s.threads[3]? = some (.pollSave (begun 0 1) ((begun 0 1).interrupt 0)) := by
    rw [hthreads]
    rfl
  have hstep : step s (.run 3 (.redis .ok)) = some
      ((s.saveBulkCacheState .ok ((begun 0 1).interrupt 0) bulkCacheHistoryTTL).goto 3
        (.reported ((begun 0 1).interrupt 0))) := by
    simp only [step, hi, Option.bind_some, stepThread]
  have hok : Ok s (.run 3 (.redis .ok)) := ok_sound _ _ (by simp only [ok, hi])
  have hsound := bulkStatus_sound hrun hok hstep
  have hreported : ((s.saveBulkCacheState .ok ((begun 0 1).interrupt 0) bulkCacheHistoryTTL).goto 3
      (.reported ((begun 0 1).interrupt 0))).threads[3]? =
      some (.reported ((begun 0 1).interrupt 0)) :=
    Agents.getElem?_set_of_some (Inv.threads_of_save hi)
  obtain ⟨id, hid, hcompleted, hrunning⟩ := hsound.reported 3 _ hreported rfl
  obtain rfl : 1 = id := Option.some.inj hid
  exact ⟨s, _, hrun, hstep, ⟨0, _, by rw [hthreads]; rfl, rfl, rfl⟩, hreported, hsound, hcompleted,
    hrunning⟩

/-! ## The bad order -/

/-- A refresh without providers, with a poll that reads the record before the finisher stores the
final one and looks at the lock after the finisher released it. The poll's write is next. -/
def pollAcrossFinish : List Action :=
  [.start, .run 0 (.redis .ok), .run 0 (.redis .ok), .run 0 (.providers (.ok 0)),
    .poll, .run 1 (.redis .ok),
    .run 0 (.redis .ok), .run 0 (.redis .ok),
    .run 1 (.redis .ok)]

/-- The refresh succeeded and no process died, but the poll stores and reports that it was
interrupted. -/
theorem poll_interrupts_completed :
    ∃ s t, Run step (fun _ a => ∀ i, a ≠ .crash i) init s ∧ s.Completed 0 ∧
      step s (.run 1 (.redis .ok)) = some t ∧
      s.record.map BulkCacheState.status = some .succeeded ∧
      t.record.map BulkCacheState.status = some .interrupted ∧
      ¬ Sound s (.run 1 (.redis .ok)) t := by
  have heval : (exec step init pollAcrossFinish).map (fun s => (s.record, s.threads)) =
      some (some ((begun 0 0).finish 0), [.finished ((begun 0 0).finish 0),
        .pollSave (begun 0 0) ((begun 0 0).interrupt 0)]) := by decide +kernel
  obtain ⟨s, hs, hobs⟩ : ∃ s, Run step (fun _ a => ∀ i, a ≠ .crash i) init s ∧
      (s.record, s.threads) = _ := Run.of_eval (by simp [pollAcrossFinish]) heval
  obtain ⟨hrec, hthreads⟩ := Prod.mk.inj hobs
  have hstep : step s (.run 1 (.redis .ok)) = some
      ((s.saveBulkCacheState .ok ((begun 0 0).interrupt 0) bulkCacheHistoryTTL).goto 1
        (.reported ((begun 0 0).interrupt 0))) := by
    simp [step, hthreads, stepThread]
  have ht : ((s.saveBulkCacheState .ok ((begun 0 0).interrupt 0) bulkCacheHistoryTTL).goto 1
      (.reported ((begun 0 0).interrupt 0))).record =
        some (((begun 0 0).interrupt 0).saved s.now) := by
    simp [State.record, State.goto, State.saveBulkCacheState, Outcome.applied,
      ExpiringMap.lookup, Expiring.live, bulkCacheHistoryTTL, Cache.hour, Cache.minute,
      Cache.second]
  refine ⟨s, _, hs, ⟨0, .finished ((begun 0 0).finish 0), by rw [hthreads]; rfl, rfl, rfl⟩, hstep,
    by rw [hrec]; rfl, by rw [ht]; rfl, fun h => ?_⟩
  exact h.kept _ hrec rfl _ ht rfl

end IptvProxy.Bulk
