import IptvProxy.Lib.Agents
import IptvProxy.Lib.GenerationStore

/-!
# What holds in every state of a generation store

`Inv` relates the pointers, the pieces, the leases and the roles of the agents. Its consequences
are the two safety properties of the store: a pointer always shows a complete published value
(`Inv.active`), and nobody deletes a leased generation (`RoleOk` of a cleaning agent with
`Inv.no_lease`). Neither needs replacements of one key to exclude each other.
-/

namespace GenerationStore

open Agents

universe u v w

variable {K : Type u} {V : Type v} {M : Type w}

/-- The pointer of `k` does not show generation `g`. -/
def Store.Inactive (s : Store K V M) (k : K) (g : ℕ) : Prop :=
  ∀ p, s.active k = some p → p.generation ≠ g

/-- A pointer read earlier belongs to a published version. -/
def Store.OldOk (s : Store K V M) (k : K) (old : Option (Pointer M)) : Prop :=
  ∀ p, old = some p → ∃ v ∈ s.published, v.key = k ∧ v.pointer = p

/-- What holds of an agent in the middle of something. -/
def Store.RoleOk (s : Store K V M) : Role K V M → Prop
  | .idle => True
  | .holding k old => s.OldOk k old
  | .staging k old g pieces j =>
    s.OldOk k old ∧ g < s.nextID ∧ (∀ v ∈ s.published, v.generation ≠ g) ∧ j ≤ pieces.length ∧
      ∀ i e, s.chunks ⟨k, g, i⟩ = some e → i < j ∧ pieces[i]? = some e.value
  | .cleaning k g _ _ => g < s.nextID ∧ s.Inactive k g ∧ s.readers (k, g) = 0
  | .expiring k g _ _ => g < s.nextID ∧ s.Inactive k g

/-- The number of agents with lease `l`. -/
def leases [DecidableEq K] (agents : List (Agent K V M)) (l : K × ℕ) : ℕ :=
  agents.countP fun a => decide (a.lease = some l)

variable [DecidableEq K]

/-- The invariant of the store. -/
structure Inv (s : Store K V M) : Prop where
  /-- pieces have used generation numbers -/
  chunk_lt : ∀ {c : Chunk K} {e : Expiring V}, s.chunks c = some e → c.generation < s.nextID
  /-- so have published versions -/
  pub_lt : ∀ {v : Version K V M}, v ∈ s.published → v.generation < s.nextID
  /-- a generation is published once -/
  pub_inj : ∀ {v v' : Version K V M}, v ∈ s.published → v' ∈ s.published →
    v.generation = v'.generation → v = v'
  /-- the pieces of a published generation are the published ones -/
  pub_chunk : ∀ {v : Version K V M}, v ∈ s.published → ∀ {i : ℕ} {e : Expiring V},
    s.chunks ⟨v.key, v.generation, i⟩ = some e → v.pieces[i]? = some e.value
  /-- a pointer shows a published version, all of whose pieces are there for good -/
  active : ∀ {k : K} {p : Pointer M}, s.active k = some p →
    ∃ v ∈ s.published, v.key = k ∧ v.pointer = p ∧ ∀ i < v.pieces.length,
      ∃ e, s.chunks ⟨k, v.generation, i⟩ = some e ∧ e.deadline = none
  /-- a retired generation has readers and is not active -/
  retired : ∀ {l : K × ℕ} {r : Retired K}, s.retired l = some r →
    0 < s.readers l ∧ s.Inactive l.1 l.2 ∧
      ∃ v ∈ s.published, v.key = l.1 ∧ v.generation = l.2 ∧ r = ⟨l.1, l.2, v.pieces.length⟩
  /-- the readers are the leases -/
  readers : ∀ l : K × ℕ, s.readers l = leases s.agents l
  /-- a leased generation is published -/
  lease : ∀ {i : ℕ} {a : Agent K V M} {l : K × ℕ}, s.agents[i]? = some a → a.lease = some l →
    ∃ v ∈ s.published, v.key = l.1 ∧ v.generation = l.2
  /-- every agent is as its role says -/
  role : ∀ {i : ℕ} {a : Agent K V M}, s.agents[i]? = some a → s.RoleOk a.role
  /-- a generation that is being written is nobody else's business -/
  staging_unique : ∀ {i j : ℕ} {a b : Agent K V M} {g : ℕ}, s.agents[i]? = some a →
    s.agents[j]? = some b → a.role.stages = some g → b.role.uses = some g → i = j

/-! ## Agents and leases -/

theorem leases_set {agents : List (Agent K V M)} {i : ℕ} {a b : Agent K V M}
    (hi : agents[i]? = some a) (l : K × ℕ) :
    leases (agents.set i b) l + (if a.lease = some l then 1 else 0) =
      leases agents l + (if b.lease = some l then 1 else 0) := by
  obtain ⟨hlt, rfl⟩ := List.getElem?_eq_some_iff.mp hi
  unfold leases
  rw [List.countP_set hlt]
  have hpos : (if agents[i].lease = some l then 1 else 0) ≤
      List.countP (fun a => decide (a.lease = some l)) agents := by
    split
    · next h =>
      exact List.countP_pos_iff.mpr ⟨agents[i], List.getElem_mem hlt, by simpa using h⟩
    · exact Nat.zero_le _
  simp only [decide_eq_true_eq]
  omega

/-- Changing an agent without touching its lease keeps the counts. -/
theorem leases_set_same {agents : List (Agent K V M)} {i : ℕ} {a b : Agent K V M}
    (hi : agents[i]? = some a) (hl : b.lease = a.lease) (l : K × ℕ) :
    leases (agents.set i b) l = leases agents l := by
  have h := leases_set (b := b) hi l
  rw [hl] at h
  omega

theorem leases_pos {agents : List (Agent K V M)} {i : ℕ} {a : Agent K V M} {l : K × ℕ}
    (hi : agents[i]? = some a) (hl : a.lease = some l) : 0 < leases agents l :=
  List.countP_pos_iff.mpr ⟨a, List.mem_of_getElem? hi, by simpa using hl⟩

/-! ## Publishing -/

theorem persistAll_eq_some {c : ExpiringMap (Chunk K) V} {now : ℕ} {k : K} {g : ℕ} (n : ℕ)
    {x : Chunk K} {e : Expiring V} (h : Store.persistAll c now k g n x = some e) :
    ∃ e₀, c x = some e₀ ∧ e₀.value = e.value := by
  induction n generalizing e with
  | zero => exact ⟨e, h, rfl⟩
  | succ n ih =>
    obtain ⟨e₁, h₁, hv₁⟩ := ExpiringMap.persist_eq_some h
    obtain ⟨e₀, h₀, hv₀⟩ := ih h₁
    exact ⟨e₀, h₀, hv₀.trans hv₁⟩

theorem persistAll_ne (c : ExpiringMap (Chunk K) V) (now : ℕ) {k : K} {g : ℕ} (n : ℕ)
    {x : Chunk K} (h : ∀ j < n, x ≠ ⟨k, g, j⟩) : Store.persistAll c now k g n x = c x := by
  induction n with
  | zero => rfl
  | succ n ih =>
    rw [Store.persistAll, ExpiringMap.persist_ne _ _ (h n (Nat.lt_succ_self n))]
    exact ih fun j hj => h j (Nat.lt_succ_of_lt hj)

/-- After publishing, the pieces are there for good. -/
theorem persistAll_self {c : ExpiringMap (Chunk K) V} {now : ℕ} {k : K} {g : ℕ} {n j : ℕ}
    (hj : j < n) (h : c.has now ⟨k, g, j⟩ = true) :
    ∃ e, Store.persistAll c now k g n ⟨k, g, j⟩ = some e ∧ e.deadline = none := by
  induction n with
  | zero => exact absurd hj (Nat.not_lt_zero j)
  | succ n ih =>
    by_cases hjn : j = n
    · subst hjn
      refine ExpiringMap.persist_self_of_has ?_
      have hsame : Store.persistAll c now k g j ⟨k, g, j⟩ = c ⟨k, g, j⟩ := by
        refine persistAll_ne c now j fun i hi heq => ?_
        cases heq
        exact Nat.lt_irrefl _ hi
      rw [← h, ExpiringMap.has, ExpiringMap.has, ExpiringMap.lookup, ExpiringMap.lookup, hsame]
    · rw [Store.persistAll, ExpiringMap.persist_ne]
      · exact ih (by omega)
      · intro heq
        cases heq
        exact hjn rfl

namespace Inv

variable {s t : Store K V M} {k : K} {old : Option (Pointer M)}

/-- A generation without readers is leased by nobody. -/
theorem no_lease (hinv : Inv s) {l : K × ℕ} (h : s.readers l = 0) {i : ℕ} {a : Agent K V M}
    (hi : s.agents[i]? = some a) : a.lease ≠ some l := by
  intro hl
  have hpos := leases_pos hi hl
  rw [← hinv.readers l, h] at hpos
  exact Nat.lt_irrefl 0 hpos

/-- The version a pointer shows. -/
theorem active_version (hinv : Inv s) {k : K} {p : Pointer M} (h : s.active k = some p) :
    s.OldOk k (some p) := by
  rintro q hq
  obtain rfl := Option.some.inj hq
  obtain ⟨v, hv, hk, hp, -⟩ := hinv.active h
  exact ⟨v, hv, hk, hp⟩

/-- Giving an agent a role it is fit for, without new business. -/
theorem setRole (hinv : Inv s) {i : ℕ} {l : Option (K × ℕ)} {r r' : Role K V M}
    (hi : s.agents[i]? = some ⟨l, r⟩) (hok : s.RoleOk r')
    (hstage : ∀ g, r'.stages = some g → r.stages = some g ∨
      ∀ (j : ℕ) (a : Agent K V M), s.agents[j]? = some a → a.role.uses ≠ some g)
    (huse : ∀ g, r'.uses = some g → r.uses = some g ∨
      ∀ (j : ℕ) (a : Agent K V M), s.agents[j]? = some a → a.role.stages ≠ some g) :
    Inv (s.setRole i l r') where
  chunk_lt := hinv.chunk_lt
  pub_lt := hinv.pub_lt
  pub_inj := hinv.pub_inj
  pub_chunk := hinv.pub_chunk
  active := hinv.active
  retired := hinv.retired
  readers l' := by
    change s.readers l' = leases (s.agents.set i ⟨l, r'⟩) l'
    rw [leases_set_same (b := ⟨l, r'⟩) hi rfl, hinv.readers]
  lease := by
    intro j a l' hj hl
    rcases getElem?_set_cases hj with ⟨-, rfl⟩ | ⟨-, hj⟩
    · exact hinv.lease hi hl
    · exact hinv.lease hj hl
  role := by
    intro j a hj
    rcases getElem?_set_cases hj with ⟨-, rfl⟩ | ⟨-, hj⟩
    · exact hok
    · exact hinv.role hj
  staging_unique := by
    intro j j' a b g hj hj' hstages huses
    rcases getElem?_set_cases hj with ⟨hji, rfl⟩ | ⟨-, hold⟩ <;>
      rcases getElem?_set_cases hj' with ⟨hji', rfl⟩ | ⟨-, hold'⟩
    · rw [hji, hji']
    · rw [hji]
      rcases hstage g hstages with hs | hno
      · exact hinv.staging_unique hi hold' hs huses
      · exact absurd huses (hno j' b hold')
    · rw [hji']
      rcases huse g huses with hu | hno
      · exact hinv.staging_unique hold hi hstages hu
      · exact absurd hstages (hno j a hold)
    · exact hinv.staging_unique hold hold' hstages huses

/-- Pieces of generations no pointer shows may be deleted or given a deadline. -/
theorem shrinkChunks (hinv : Inv s) {c : ExpiringMap (Chunk K) V}
    (hsub : ∀ x e, c x = some e → ∃ e₀, s.chunks x = some e₀ ∧ e₀.value = e.value)
    (hact : ∀ k p, s.active k = some p → ∀ i,
      c ⟨k, p.generation, i⟩ = s.chunks ⟨k, p.generation, i⟩) :
    Inv { s with chunks := c } where
  chunk_lt := by
    intro x e he
    obtain ⟨e₀, he₀, -⟩ := hsub x e he
    exact hinv.chunk_lt he₀
  pub_lt := hinv.pub_lt
  pub_inj := hinv.pub_inj
  pub_chunk := by
    intro v hv i e he
    obtain ⟨e₀, he₀, hval⟩ := hsub _ e he
    rw [← hval]
    exact hinv.pub_chunk hv he₀
  active := by
    intro k p hp
    obtain ⟨v, hv, hk, hvp, hall⟩ := hinv.active hp
    refine ⟨v, hv, hk, hvp, fun i hi => ?_⟩
    obtain ⟨e, he, hd⟩ := hall i hi
    refine ⟨e, ?_, hd⟩
    have hg : v.generation = p.generation := by rw [← hvp]; rfl
    rw [hg] at he ⊢
    exact (hact k p hp i).trans he
  retired := hinv.retired
  readers := hinv.readers
  lease := hinv.lease
  role := by
    intro j a hj
    have h := hinv.role hj
    rcases hr : a.role with _ | _ | ⟨k, old, g, pieces, n⟩ | _ | _ <;> rw [hr] at h
    · trivial
    · exact h
    · obtain ⟨hold, hlt, hpub, hle, hch⟩ := h
      refine ⟨hold, hlt, hpub, hle, fun i e he => ?_⟩
      obtain ⟨e₀, he₀, hval⟩ := hsub _ e he
      rw [← hval]
      exact hch i e₀ he₀
    · exact h
    · exact h
  staging_unique := hinv.staging_unique

/-- Deleting a piece of a generation no pointer shows. -/
theorem delChunk (hinv : Inv s) {k : K} {g : ℕ} (hg : s.Inactive k g) (j : ℕ) :
    Inv { s with chunks := s.chunks.del ⟨k, g, j⟩ } := by
  refine hinv.shrinkChunks (fun x e he => ⟨e, (ExpiringMap.del_eq_some he).2, rfl⟩) ?_
  intro k' p hp i
  refine ExpiringMap.del_ne _ fun heq => ?_
  obtain ⟨rfl, hgen, -⟩ := Chunk.mk.inj heq
  exact hg p hp hgen

/-- Expiring a piece of a generation no pointer shows. -/
theorem expireChunk (hinv : Inv s) {k : K} {g : ℕ} (hg : s.Inactive k g) (j d : ℕ) :
    Inv { s with chunks := s.chunks.expire s.now ⟨k, g, j⟩ d } := by
  refine hinv.shrinkChunks (fun x e he => ExpiringMap.expire_eq_some he) ?_
  intro k' p hp i
  refine ExpiringMap.expire_ne _ _ _ fun heq => ?_
  obtain ⟨rfl, hgen, -⟩ := Chunk.mk.inj heq
  exact hg p hp hgen

/-- A generation that is being written is not active. -/
theorem inactive_of_staging (hinv : Inv s) {k k' : K} {old : Option (Pointer M)} {g j : ℕ}
    {pieces : List V} (h : s.RoleOk (.staging k old g pieces j)) : s.Inactive k' g := by
  intro p hp hgen
  obtain ⟨v, hv, -, rfl, -⟩ := hinv.active hp
  exact h.2.2.1 v hv hgen

/-- A published generation is not being written. -/
theorem not_staging (hinv : Inv s) {v : Version K V M} (hv : v ∈ s.published) (j : ℕ)
    (a : Agent K V M) (hj : s.agents[j]? = some a) : a.role.stages ≠ some v.generation := by
  intro hst
  have h := hinv.role hj
  rcases hr : a.role with _ | _ | ⟨k, old, g, pieces, n⟩ | _ | _ <;> rw [hr] at h hst
  case staging =>
    have hg : g = v.generation := Option.some.inj hst
    exact h.2.2.1 v hv hg.symm
  all_goals cases hst

/-- A generation that is being written has no readers. -/
theorem readers_of_staging (hinv : Inv s) {k : K} {old : Option (Pointer M)} {g j : ℕ}
    {pieces : List V} (h : s.RoleOk (.staging k old g pieces j)) : s.readers (k, g) = 0 := by
  rw [hinv.readers, leases, List.countP_eq_zero]
  intro a ha
  obtain ⟨i, hi⟩ := List.mem_iff_getElem?.mp ha
  simp only [decide_eq_true_eq]
  intro hl
  obtain ⟨v, hv, -, hg⟩ := hinv.lease hi hl
  exact h.2.2.1 v hv hg

/-! ## The steps of a replacement -/

/-- Writing a piece the agent accounts for: only the agent itself looks at its generation. -/
theorem putChunk (hinv : Inv s) {i : ℕ} {l : Option (K × ℕ)} {k : K} {old : Option (Pointer M)}
    {g j n : ℕ} {pieces : List V} {v : V} (d : Option ℕ)
    (hi : s.agents[i]? = some ⟨l, .staging k old g pieces n⟩) (hj : j < n)
    (hv : pieces[j]? = some v) : Inv { s with chunks := s.chunks.set ⟨k, g, j⟩ v d } := by
  obtain ⟨-, hlt, hpub, -, -⟩ := hinv.role hi
  have hne : ∀ k' g' m, g' ≠ g →
      s.chunks.set ⟨k, g, j⟩ v d ⟨k', g', m⟩ = s.chunks ⟨k', g', m⟩ := by
    intro k' g' m hg
    exact ExpiringMap.set_ne _ _ _ fun heq => hg (by cases heq; rfl)
  refine
    { chunk_lt := ?_, pub_lt := hinv.pub_lt, pub_inj := hinv.pub_inj, pub_chunk := ?_,
      active := ?_, retired := hinv.retired, readers := hinv.readers, lease := hinv.lease,
      role := ?_, staging_unique := hinv.staging_unique }
  · intro x e he
    by_cases hx : x = ⟨k, g, j⟩
    · rw [hx]
      exact hlt
    · exact hinv.chunk_lt (e := e) (by rw [← ExpiringMap.set_ne s.chunks v d hx]; exact he)
  · intro w hw m e he
    exact hinv.pub_chunk hw ((hne _ _ _ (hpub w hw)).symm.trans he)
  · intro k' p hp
    obtain ⟨w, hw, hk, hwp, hall⟩ := hinv.active hp
    refine ⟨w, hw, hk, hwp, fun m hm => ?_⟩
    obtain ⟨e, he, hd⟩ := hall m hm
    exact ⟨e, (hne _ _ _ (hpub w hw)).trans he, hd⟩
  · intro j' a hj'
    have hok := hinv.role hj'
    rcases hr : a.role with _ | _ | ⟨k', old', g', pieces', n'⟩ | _ | _ <;> rw [hr] at hok
    · trivial
    · exact hok
    · obtain ⟨hold', hlt', hpub', hle', hch'⟩ := hok
      refine ⟨hold', hlt', hpub', hle', fun m e he => ?_⟩
      by_cases hx : (⟨k', g', m⟩ : Chunk K) = ⟨k, g, j⟩
      · -- the writer itself
        obtain ⟨rfl, rfl, rfl⟩ := Chunk.mk.inj hx
        have hij : j' = i := hinv.staging_unique hj' hi (by rw [hr]; rfl) rfl
        subst hij
        rw [hi] at hj'
        obtain rfl := Option.some.inj hj'
        obtain ⟨-, -, -, rfl, rfl⟩ := Role.staging.inj hr
        change s.chunks.set ⟨k', g', m⟩ v d ⟨k', g', m⟩ = some e at he
        rw [ExpiringMap.set_self] at he
        obtain rfl := Option.some.inj he
        exact ⟨hj, hv⟩
      · exact hch' m e ((ExpiringMap.set_ne _ _ _ hx).symm.trans he)
    · exact hok
    · exact hok

theorem write (hinv : Inv s) {i : ℕ} {l : Option (K × ℕ)} {k : K} {old : Option (Pointer M)}
    {g j : ℕ} {pieces : List V} {v : V} (d : ℕ)
    (hi : s.agents[i]? = some ⟨l, .staging k old g pieces j⟩) (hv : pieces[j]? = some v) :
    Inv ({ s with chunks := s.chunks.set ⟨k, g, j⟩ v (some d) }.setRole i l
      (.staging k old g pieces (j + 1))) := by
  obtain ⟨hold, hlt, hpub, -, hch⟩ := hinv.role hi
  have hlen : j < pieces.length := (List.getElem?_eq_some_iff.mp hv).1
  -- account for the piece first, then write it
  have hnext : Inv (s.setRole i l (.staging k old g pieces (j + 1))) := by
    refine hinv.setRole hi ⟨hold, hlt, hpub, hlen, fun m e he => ?_⟩ (fun _ h => .inl h)
      (fun _ h => .inl h)
    obtain ⟨hm, hval⟩ := hch m e he
    exact ⟨Nat.lt_succ_of_lt hm, hval⟩
  have hi' : (s.setRole i l (.staging k old g pieces (j + 1))).agents[i]? =
      some ⟨l, .staging k old g pieces (j + 1)⟩ :=
    getElem?_set_of_some hi
  exact hnext.putChunk (some d) hi' (Nat.lt_succ_self j) hv

/-- Swinging the pointer to a completely written generation. -/
theorem publish (hinv : Inv s) {i : ℕ} {l : Option (K × ℕ)} {k : K} {old : Option (Pointer M)}
    {g : ℕ} {pieces : List V} (info : M)
    (hi : s.agents[i]? = some ⟨l, .staging k old g pieces pieces.length⟩)
    (hall : ∀ j < pieces.length, s.chunks.has s.now ⟨k, g, j⟩ = true) :
    Inv ((s.publish ⟨k, g, pieces, info⟩).setRole i l .idle) := by
  have hrole := hinv.role hi
  obtain ⟨-, hlt, hpub, -, hch⟩ := id hrole
  have hne : ∀ {k' g' m}, g' ≠ g →
      Store.persistAll s.chunks s.now k g pieces.length ⟨k', g', m⟩ = s.chunks ⟨k', g', m⟩ := by
    intro k' g' m hg
    exact persistAll_ne _ _ _ fun j _ heq => hg (by cases heq; rfl)
  -- the new pointer shows nothing that was published, deleted or expired before
  have hinact : ∀ {k' g'}, s.Inactive k' g' → g' ≠ g →
      (s.publish ⟨k, g, pieces, info⟩).Inactive k' g' := by
    intro k' g' h hg p hp
    change Function.update s.active k (some ⟨g, pieces.length, info⟩) k' = some p at hp
    by_cases hk : k' = k
    · subst hk
      rw [Function.update_self] at hp
      obtain rfl := Option.some.inj hp
      exact fun h => hg h.symm
    · rw [Function.update_of_ne hk] at hp
      exact h p hp
  refine
    { chunk_lt := ?_, pub_lt := ?_, pub_inj := ?_, pub_chunk := ?_, active := ?_,
      retired := ?_, readers := ?_, lease := ?_, role := ?_, staging_unique := ?_ }
  · intro x e he
    obtain ⟨e₀, he₀, -⟩ := persistAll_eq_some _ he
    exact hinv.chunk_lt he₀
  · intro v hv
    rcases List.mem_cons.mp hv with rfl | hv
    · exact hlt
    · exact hinv.pub_lt hv
  · intro v v' hv hv' hgen
    rcases List.mem_cons.mp hv with rfl | hv <;> rcases List.mem_cons.mp hv' with rfl | hv'
    · rfl
    · exact absurd hgen.symm (hpub v' hv')
    · exact absurd hgen (hpub v hv)
    · exact hinv.pub_inj hv hv' hgen
  · intro v hv m e he
    rcases List.mem_cons.mp hv with rfl | hv
    · obtain ⟨e₀, he₀, hval⟩ := persistAll_eq_some _ he
      rw [← hval]
      exact (hch m e₀ he₀).2
    · exact hinv.pub_chunk hv ((hne (hpub v hv)).symm.trans he)
  · intro k' p hp
    change Function.update s.active k (some ⟨g, pieces.length, info⟩) k' = some p at hp
    by_cases hk : k' = k
    · subst hk
      rw [Function.update_self] at hp
      obtain rfl := Option.some.inj hp
      exact ⟨⟨k', g, pieces, info⟩, List.mem_cons_self .., rfl, rfl,
        fun m hm => persistAll_self hm (hall m hm)⟩
    · rw [Function.update_of_ne hk] at hp
      obtain ⟨v, hv, hvk, hvp, hpieces⟩ := hinv.active hp
      refine ⟨v, List.mem_cons_of_mem _ hv, hvk, hvp, fun m hm => ?_⟩
      obtain ⟨e, he, hd⟩ := hpieces m hm
      exact ⟨e, (hne (hpub v hv)).trans he, hd⟩
  · intro l' r hr
    obtain ⟨hpos, hina, v, hv, hvk, hvg, hreq⟩ := hinv.retired hr
    exact ⟨hpos, hinact hina (by rw [← hvg]; exact hpub v hv), v, List.mem_cons_of_mem _ hv,
      hvk, hvg, hreq⟩
  · intro l'
    change s.readers l' = leases (s.agents.set i ⟨l, .idle⟩) l'
    rw [leases_set_same (b := ⟨l, .idle⟩) hi rfl, hinv.readers]
  · intro j a l' hj hl
    have hv : ∃ v ∈ s.published, v.key = l'.1 ∧ v.generation = l'.2 := by
      rcases getElem?_set_cases hj with ⟨-, rfl⟩ | ⟨-, hj⟩
      · exact hinv.lease hi hl
      · exact hinv.lease hj hl
    obtain ⟨v, hv, h⟩ := hv
    exact ⟨v, List.mem_cons_of_mem _ hv, h⟩
  · intro j a hj
    rcases getElem?_set_cases hj with ⟨-, rfl⟩ | ⟨hji, hj⟩
    · trivial
    · have hok := hinv.role hj
      -- whatever generation another agent is busy with, it is not the new one
      have hother : ∀ g', a.role.uses = some g' → g' ≠ g := by
        rintro g' hu rfl
        exact hji (hinv.staging_unique hi hj rfl hu).symm
      have hold : ∀ {k' old'}, s.OldOk k' old' →
          (s.publish ⟨k, g, pieces, info⟩).OldOk k' old' := by
        intro k' old' h p hp
        obtain ⟨v, hv, hrest⟩ := h p hp
        exact ⟨v, List.mem_cons_of_mem _ hv, hrest⟩
      rcases hr : a.role with _ | ⟨k', old'⟩ | ⟨k', old', g', pieces', n⟩ | ⟨k', g', n, m⟩ |
        ⟨k', g', n, m⟩ <;> rw [hr] at hok hother
      · trivial
      · exact hold hok
      · obtain ⟨hold', hlt', hpub', hle', hch'⟩ := hok
        have hg : g' ≠ g := hother g' rfl
        refine ⟨hold hold', hlt', fun v hv => ?_, hle', fun m e he => ?_⟩
        · rcases List.mem_cons.mp hv with rfl | hv
          · exact fun h => hg h.symm
          · exact hpub' v hv
        · exact hch' m e ((hne hg).symm.trans he)
      · exact ⟨hok.1, hinact hok.2.1 (hother g' rfl), hok.2.2⟩
      · exact ⟨hok.1, hinact hok.2 (hother g' rfl)⟩
  · intro j₁ j₂ a b g' h₁ h₂ hst hus
    rcases getElem?_set_cases h₁ with ⟨-, rfl⟩ | ⟨-, h₁⟩
    · cases hst
    · rcases getElem?_set_cases h₂ with ⟨-, rfl⟩ | ⟨-, h₂⟩
      · cases hus
      · exact hinv.staging_unique h₁ h₂ hst hus

/-- Taking a published generation that is no longer shown out of use. -/
theorem retire (hinv : Inv s) {i : ℕ} {l : Option (K × ℕ)} {v : Version K V M} {r : Retired K}
    (hi : s.agents[i]? = some ⟨l, .idle⟩) (hv : v ∈ s.published)
    (hr : r = ⟨v.key, v.generation, v.pieces.length⟩) (hina : s.Inactive v.key v.generation) :
    Inv (s.retire i l r) := by
  subst hr
  have hfree := hinv.not_staging hv
  unfold Store.retire
  dsimp only
  split
  · next hpos =>
    -- with readers: the retired map gets a new entry
    have hret : Inv
        { s with
          retired := Function.update s.retired (v.key, v.generation)
            (some ⟨v.key, v.generation, v.pieces.length⟩) } := by
      refine { hinv with retired := ?_ }
      intro l' r' hr'
      dsimp only at hr'
      by_cases hl : l' = (v.key, v.generation)
      · subst hl
        rw [Function.update_self] at hr'
        obtain rfl := Option.some.inj hr'
        exact ⟨hpos, hina, v, hv, rfl, rfl, rfl⟩
      · rw [Function.update_of_ne hl] at hr'
        exact hinv.retired hr'
    refine hret.setRole hi ?_ (fun g h => by simp at h) fun g h => .inr ?_
    · unfold Role.expire
      split
      · exact ⟨hinv.pub_lt hv, hina⟩
      · trivial
    · rw [Role.uses_expire h]
      exact hfree
  · next hzero =>
    refine hinv.setRole hi ?_ (fun g h => by simp at h) fun g h => .inr ?_
    · unfold Role.clean
      split
      · exact ⟨hinv.pub_lt hv, hina, Nat.eq_zero_of_not_pos hzero⟩
      · trivial
    · rw [Role.uses_clean h]
      exact hfree

omit [DecidableEq K] in
/-- The pointer that a replacement has read belongs to a published version. -/
theorem retired_of_old (h : s.OldOk k old) {r : Retired K}
    (hr : old.bind (fun p => p.retired k) = some r) :
    ∃ v ∈ s.published, r = ⟨v.key, v.generation, v.pieces.length⟩ := by
  obtain ⟨p, hp, hret⟩ := Option.bind_eq_some_iff.mp hr
  obtain ⟨v, hv, rfl, rfl⟩ := h p hp
  refine ⟨v, hv, ?_⟩
  unfold Pointer.retired at hret
  split at hret
  · exact (Option.some.inj hret).symm
  · cases hret

theorem swap (hinv : Inv s) {i : ℕ} {l : Option (K × ℕ)} {g : ℕ} {pieces : List V} (info : M)
    (hi : s.agents[i]? = some ⟨l, .staging k old g pieces pieces.length⟩)
    (hall : ∀ j < pieces.length, s.chunks.has s.now ⟨k, g, j⟩ = true) :
    Inv (match Store.replaced k old g with
      | none => (s.publish ⟨k, g, pieces, info⟩).setRole i l .idle
      | some r => (s.publish ⟨k, g, pieces, info⟩).retire i l r) := by
  have hpub := hinv.publish info hi hall
  have hold : s.OldOk k old := (hinv.role hi).1
  rcases hr : Store.replaced k old g with _ | r
  · exact hpub
  · -- the pointer now shows `g`, so the old generation is out of use
    obtain ⟨p, hp, hret⟩ := Option.bind_eq_some_iff.mp hr
    split at hret
    · cases hret
    · next hne =>
      obtain ⟨v, hv, hveq⟩ := retired_of_old hold (r := r) (by rw [hp]; exact hret)
      obtain ⟨v', hv', hk', hp'⟩ := hold p hp
      have hkey : r.key = k ∧ r.generation = p.generation := by
        unfold Pointer.retired at hret
        split at hret
        · cases hret
          exact ⟨rfl, rfl⟩
        · cases hret
      have hina : ((s.publish ⟨k, g, pieces, info⟩).setRole i l .idle).Inactive v.key
          v.generation := by
        have hvk : v.key = k := by rw [← hkey.1, hveq]
        have hvg : v.generation = p.generation := by rw [← hkey.2, hveq]
        rw [hvk, hvg]
        intro q hq
        change Function.update s.active k (some ⟨g, pieces.length, info⟩) k = some q at hq
        rw [Function.update_self] at hq
        obtain rfl := Option.some.inj hq
        exact fun h => hne h.symm
      have hi' : ((s.publish ⟨k, g, pieces, info⟩).setRole i l .idle).agents[i]? =
          some ⟨l, .idle⟩ := getElem?_set_of_some hi
      have hfin := hpub.retire hi' (List.mem_cons_of_mem _ hv) hveq hina
      -- setting the role twice is setting it once
      simpa only [Store.retire, Store.setRole, Store.setAgent, List.set_set] using hfin

/-! ## Deleting and expiring -/

theorem clean (hinv : Inv s) {i : ℕ} {l : Option (K × ℕ)} {g n j : ℕ} (applied : Bool)
    (hi : s.agents[i]? = some ⟨l, .cleaning k g n j⟩) :
    Inv ({ s with
        chunks := if applied then s.chunks.del ⟨k, g, j⟩ else s.chunks }.setRole i l
      (if j + 1 < n then .cleaning k g n (j + 1) else .idle)) := by
  have hok : s.RoleOk (.cleaning k g n j) := hinv.role hi
  have hchunks : Inv { s with
      chunks := if applied then s.chunks.del ⟨k, g, j⟩ else s.chunks } := by
    cases applied with
    | true => exact hinv.delChunk hok.2.1 j
    | false => exact hinv
  by_cases hn : j + 1 < n
  · rw [if_pos hn]
    exact hchunks.setRole hi hok (fun _ h => by cases h) (fun _ h => .inl h)
  · rw [if_neg hn]
    exact hchunks.setRole hi trivial (fun _ h => by cases h) (fun _ h => by cases h)

theorem expire (hinv : Inv s) {i : ℕ} {l : Option (K × ℕ)} {g n j : ℕ} (applied : Bool) (d : ℕ)
    (hi : s.agents[i]? = some ⟨l, .expiring k g n j⟩) :
    Inv ({ s with
        chunks := if applied then s.chunks.expire s.now ⟨k, g, j⟩ d else s.chunks }.setRole i l
      (if j + 1 < n then .expiring k g n (j + 1) else .idle)) := by
  have hok : s.RoleOk (.expiring k g n j) := hinv.role hi
  have hchunks : Inv { s with
      chunks := if applied then s.chunks.expire s.now ⟨k, g, j⟩ d else s.chunks } := by
    cases applied with
    | true => exact hinv.expireChunk hok.2 j d
    | false => exact hinv
  by_cases hn : j + 1 < n
  · rw [if_pos hn]
    exact hchunks.setRole hi hok (fun _ h => by cases h) (fun _ h => .inl h)
  · rw [if_neg hn]
    exact hchunks.setRole hi trivial (fun _ h => by cases h) (fun _ h => by cases h)

/-! ## Leases -/

/-- An idle agent may change its lease: the readers follow. -/
theorem setLease (hinv : Inv s) {i : ℕ} {l' : Option (K × ℕ)} {readers : K × ℕ → ℕ}
    {retired : K × ℕ → Option (Retired K)}
    (hreaders : ∀ x, readers x = leases (s.agents.set i ⟨l', .idle⟩) x)
    (hlease : ∀ x, l' = some x → ∃ v ∈ s.published, v.key = x.1 ∧ v.generation = x.2)
    (hclean : ∀ x, s.readers x = 0 → readers x ≠ 0 → ¬ s.Inactive x.1 x.2)
    (hretired : ∀ x r, retired x = some r → s.retired x = some r ∧ 0 < readers x) :
    Inv ({ s with readers := readers, retired := retired }.setRole i l' .idle) := by
  refine
    { hinv with
      retired := ?_, readers := hreaders, lease := ?_, role := ?_, staging_unique := ?_ }
  · intro x r hr
    obtain ⟨hr, hpos⟩ := hretired x r hr
    exact ⟨hpos, (hinv.retired hr).2⟩
  · intro j a x hj hl
    rcases getElem?_set_cases hj with ⟨-, rfl⟩ | ⟨-, hj⟩
    · exact hlease x hl
    · exact hinv.lease hj hl
  · intro j a hj
    rcases getElem?_set_cases hj with ⟨-, rfl⟩ | ⟨-, hj⟩
    · trivial
    · have hok := hinv.role hj
      rcases hr : a.role with _ | _ | _ | ⟨k, g, n, m⟩ | _ <;> rw [hr] at hok
      case cleaning =>
        -- a generation that is being deleted is inactive, so nobody gets a lease on it
        refine ⟨hok.1, hok.2.1, ?_⟩
        by_contra hne
        exact hclean (k, g) hok.2.2 hne hok.2.1
      all_goals exact hok
  · intro j₁ j₂ a b g' h₁ h₂ hst hus
    rcases getElem?_set_cases h₁ with ⟨-, rfl⟩ | ⟨-, h₁⟩
    · cases hst
    · rcases getElem?_set_cases h₂ with ⟨-, rfl⟩ | ⟨-, h₂⟩
      · cases hus
      · exact hinv.staging_unique h₁ h₂ hst hus

theorem pin (hinv : Inv s) {i : ℕ} {p : Pointer M} (hi : s.agents[i]? = some ⟨none, .idle⟩)
    (hp : s.active k = some p) :
    Inv ({ s with
        readers := Function.update s.readers (k, p.generation)
          (s.readers (k, p.generation) + 1) }.setRole i (some (k, p.generation)) .idle) := by
  refine hinv.setLease (fun x => ?_) (fun x hx => ?_)
    (fun x hzero hne => ?_) (fun x r hr => ⟨hr, ?_⟩)
  · have h := leases_set (b := ⟨some (k, p.generation), .idle⟩) hi x
    rw [← hinv.readers] at h
    by_cases hx : x = (k, p.generation)
    · subst hx
      rw [Function.update_self]
      simpa using h.symm
    · rw [Function.update_of_ne hx]
      simpa [Ne.symm hx] using h.symm
  · obtain rfl := Option.some.inj hx
    obtain ⟨v, hv, hk, hvp, -⟩ := hinv.active hp
    exact ⟨v, hv, hk, by rw [← hvp]; rfl⟩
  · by_cases hx : x = (k, p.generation)
    · subst hx
      exact fun hina => hina p hp rfl
    · rw [Function.update_of_ne hx] at hne
      exact absurd hzero hne
  · have hpos := (hinv.retired hr).1
    by_cases hx : x = (k, p.generation)
    · subst hx
      rw [Function.update_self]
      exact Nat.succ_pos _
    · rwa [Function.update_of_ne hx]

theorem unpin (hinv : Inv s) {i : ℕ} {l : K × ℕ} (hi : s.agents[i]? = some ⟨some l, .idle⟩) :
    Inv ((s.unpin l).1.setRole i none
      (match (s.unpin l).2 with
        | none => .idle
        | some r => .clean r.key r.generation r.count)) := by
  have hcount := fun x => leases_set (b := ⟨none, .idle⟩) hi x
  have hpos : 0 < s.readers l := by
    rw [hinv.readers]
    exact leases_pos hi rfl
  unfold Store.unpin
  split
  · next hmore =>
    -- other readers remain
    refine hinv.setLease (fun x => ?_) (fun x hx => by cases hx)
      (fun x hzero hne => ?_) (fun x r hr => ⟨hr, ?_⟩)
    · have h := hcount x
      rw [← hinv.readers] at h
      by_cases hx : x = l
      · subst hx
        rw [Function.update_self]
        simp only [if_true, reduceCtorEq, if_false] at h
        omega
      · rw [Function.update_of_ne hx]
        simpa [Ne.symm hx] using h.symm
    · by_cases hx : x = l
      · subst hx
        omega
      · rw [Function.update_of_ne hx] at hne
        exact absurd hzero hne
    · by_cases hx : x = l
      · subst hx
        rw [Function.update_self]
        omega
      · rw [Function.update_of_ne hx]
        exact (hinv.retired hr).1
  · next hlast =>
    -- the last reader takes the retired generation with it
    have hlease : Inv
        ({ s with
            readers := Function.update s.readers l 0
            retired := Function.update s.retired l none }.setRole i none .idle) := by
      refine hinv.setLease (fun x => ?_) (fun x hx => by cases hx)
        (fun x hzero hne => ?_) (fun x r hr => ?_)
      · have h := hcount x
        rw [← hinv.readers] at h
        by_cases hx : x = l
        · subst hx
          rw [Function.update_self]
          simp only [if_true, reduceCtorEq, if_false] at h
          omega
        · rw [Function.update_of_ne hx]
          simpa [Ne.symm hx] using h.symm
      · by_cases hx : x = l
        · subst hx
          rw [Function.update_self] at hne
          exact absurd rfl hne
        · rw [Function.update_of_ne hx] at hne
          exact absurd hzero hne
      · by_cases hx : x = l
        · subst hx
          rw [Function.update_self] at hr
          cases hr
        · rw [Function.update_of_ne hx] at hr ⊢
          exact ⟨hr, (hinv.retired hr).1⟩
    rcases hr : s.retired l with _ | r
    · exact hlease
    · obtain ⟨-, hina, v, hv, hvk, hvg, rfl⟩ := hinv.retired hr
      have hi' : ({ s with
            readers := Function.update s.readers l 0
            retired := Function.update s.retired l none }.setRole i none .idle).agents[i]? =
          some ⟨none, .idle⟩ := getElem?_set_of_some hi
      have hfin : Inv (({ s with
            readers := Function.update s.readers l 0
            retired := Function.update s.retired l none }.setRole i none .idle).setRole i none
          (.clean l.1 l.2 v.pieces.length)) := by
        refine hlease.setRole hi' ?_ (fun g h => by simp at h) fun g h => .inr ?_
        · unfold Role.clean
          split
          · exact ⟨by rw [← hvg]; exact hinv.pub_lt hv, hina, Function.update_self ..⟩
          · trivial
        · rw [Role.uses_clean h, ← hvg]
          exact hlease.not_staging hv
      simpa only [Store.setRole, Store.setAgent, List.set_set] using hfin

/-! ## The other steps -/

theorem remove (hinv : Inv s) {i : ℕ} {l : Option (K × ℕ)}
    (hi : s.agents[i]? = some ⟨l, .idle⟩) :
    Inv (match (s.active k).bind fun p => p.retired k with
      | none => { s with active := Function.update s.active k none }
      | some r => { s with active := Function.update s.active k none }.retire i l r) := by
  have hinact : ∀ {k' g}, s.Inactive k' g →
      Store.Inactive { s with active := Function.update s.active k none } k' g := by
    intro k' g h p hp
    by_cases hk : k' = k
    · subst hk
      dsimp only at hp
      rw [Function.update_self] at hp
      cases hp
    · refine h p ?_
      dsimp only at hp
      rwa [Function.update_of_ne hk] at hp
  have hgone : Inv { s with active := Function.update s.active k none } := by
    refine { hinv with active := ?_, retired := ?_, role := ?_ }
    · intro k' p hp
      dsimp only at hp
      by_cases hk : k' = k
      · subst hk
        rw [Function.update_self] at hp
        cases hp
      · rw [Function.update_of_ne hk] at hp
        exact hinv.active hp
    · intro l' r hr
      obtain ⟨hpos, hina, hv⟩ := hinv.retired hr
      exact ⟨hpos, hinact hina, hv⟩
    · intro j a hj
      have hok := hinv.role hj
      rcases hr : a.role with _ | _ | _ | _ | _ <;> rw [hr] at hok
      · trivial
      · exact hok
      · exact hok
      · exact ⟨hok.1, hinact hok.2.1, hok.2.2⟩
      · exact ⟨hok.1, hinact hok.2⟩
  rcases hr : (s.active k).bind fun p => p.retired k with _ | r
  · exact hgone
  · obtain ⟨p, hp, -⟩ := Option.bind_eq_some_iff.mp hr
    have hold : s.OldOk k (s.active k) := by
      rw [hp]
      exact hinv.active_version hp
    obtain ⟨v, hv, hveq⟩ := retired_of_old hold hr
    obtain ⟨q, hq, hret⟩ := Option.bind_eq_some_iff.mp hr
    refine hgone.retire hi hv hveq ?_
    have hvk : v.key = k := by
      unfold Pointer.retired at hret
      split at hret
      · cases hret
        exact (congrArg Retired.key hveq).symm
      · cases hret
    rw [hvk]
    intro q' hq'
    dsimp only at hq'
    rw [Function.update_self] at hq'
    cases hq'

/-- More room for generation numbers. -/
theorem newID (hinv : Inv s) : Inv { s with nextID := s.nextID + 1 } := by
  refine { hinv with chunk_lt := ?_, pub_lt := ?_, role := ?_ }
  · exact fun h => Nat.lt_succ_of_lt (hinv.chunk_lt h)
  · exact fun h => Nat.lt_succ_of_lt (hinv.pub_lt h)
  · intro j a hj
    have hok := hinv.role hj
    rcases hr : a.role with _ | _ | _ | _ | _ <;> rw [hr] at hok
    · trivial
    · exact hok
    · exact ⟨hok.1, Nat.lt_succ_of_lt hok.2.1, hok.2.2⟩
    · exact ⟨Nat.lt_succ_of_lt hok.1, hok.2⟩
    · exact ⟨Nat.lt_succ_of_lt hok.1, hok.2⟩

omit [DecidableEq K] in
/-- Agents are busy with used generation numbers only. -/
theorem uses_lt {r : Role K V M} {g : ℕ} (hok : s.RoleOk r) (h : r.uses = some g) :
    g < s.nextID := by
  rcases r with _ | _ | _ | _ | _
  · cases h
  · cases h
  · obtain rfl := Option.some.inj h
    exact hok.2.1
  · obtain rfl := Option.some.inj h
    exact hok.1
  · obtain rfl := Option.some.inj h
    exact hok.1

theorem stage (hinv : Inv s) {i : ℕ} {l : Option (K × ℕ)} (pieces : List V)
    (hi : s.agents[i]? = some ⟨l, .holding k old⟩) :
    Inv { s.setRole i l (.staging k old s.nextID pieces 0) with nextID := s.nextID + 1 } := by
  have hold : s.OldOk k old := hinv.role hi
  refine hinv.newID.setRole hi ⟨hold, Nat.lt_succ_self _, ?_, Nat.zero_le _, ?_⟩ ?_ ?_
  · exact fun v hv => Nat.ne_of_lt (hinv.pub_lt hv)
  · intro m e he
    exact absurd (hinv.chunk_lt he) (Nat.lt_irrefl _)
  · -- nobody is busy with the fresh number
    rintro g hg
    obtain rfl := Option.some.inj hg
    exact .inr fun j a hj hu => Nat.lt_irrefl _ (uses_lt (hinv.role hj) hu)
  · rintro g hg
    obtain rfl := Option.some.inj hg
    exact .inr fun j a hj hst =>
      Nat.lt_irrefl _ (uses_lt (hinv.role hj) (Role.uses_of_stages hst))

theorem abandon (hinv : Inv s) {i : ℕ} {l : Option (K × ℕ)} {g j : ℕ} {pieces : List V}
    (hi : s.agents[i]? = some ⟨l, .staging k old g pieces j⟩) :
    Inv (s.setRole i l (.clean k g j)) := by
  have hok : s.RoleOk (.staging k old g pieces j) := hinv.role hi
  refine hinv.setRole hi ?_ (fun g' h => by simp at h) fun g' h => .inl ?_
  · unfold Role.clean
    split
    · exact ⟨hok.2.1, hinv.inactive_of_staging hok, hinv.readers_of_staging hok⟩
    · trivial
  · rw [Role.uses_clean h]
    rfl

theorem spawn (hinv : Inv s) : Inv { s with agents := s.agents ++ [⟨none, .idle⟩] } := by
  refine { hinv with readers := ?_, lease := ?_, role := ?_, staging_unique := ?_ }
  · intro l
    rw [hinv.readers]
    simp [leases, List.countP_append]
  · intro j a l hj hl
    rcases getElem?_append_cases hj with hj | rfl
    · exact hinv.lease hj hl
    · cases hl
  · intro j a hj
    rcases getElem?_append_cases hj with hj | rfl
    · exact hinv.role hj
    · trivial
  · intro j₁ j₂ a b g h₁ h₂ hst hus
    rcases getElem?_append_cases h₁ with h₁ | rfl
    · rcases getElem?_append_cases h₂ with h₂ | rfl
      · exact hinv.staging_unique h₁ h₂ hst hus
      · cases hus
    · cases hst

theorem crash (hinv : Inv s) :
    Inv { s with
      readers := fun _ => 0
      retired := fun _ => none
      agents := s.agents.map fun _ => ⟨none, .idle⟩ } := by
  have hidle : ∀ {j : ℕ} {a : Agent K V M},
      (s.agents.map fun _ => (⟨none, .idle⟩ : Agent K V M))[j]? = some a → a = ⟨none, .idle⟩ := by
    intro j a hj
    obtain ⟨-, -, rfl⟩ := List.mem_map.mp (List.mem_of_getElem? hj)
    rfl
  refine
    { hinv with retired := ?_, readers := ?_, lease := ?_, role := ?_, staging_unique := ?_ }
  · rintro l r hr
    cases hr
  · intro l
    rw [eq_comm, leases, List.countP_eq_zero]
    intro a ha
    obtain ⟨-, -, rfl⟩ := List.mem_map.mp ha
    simp
  · intro j a l hj hl
    obtain rfl := hidle hj
    cases hl
  · intro j a hj
    obtain rfl := hidle hj
    trivial
  · intro j₁ j₂ a b g h₁ h₂ hst hus
    obtain rfl := hidle h₁
    cases hst

/-- **Every step keeps the invariant**, whoever replaces what when. -/
theorem step (hinv : Inv s) {label : Label} (h : Step s label t) : Inv t := by
  cases h with
  | load hi hold =>
    refine hinv.setRole hi ?_ (fun _ h => by cases h) (fun _ h => by cases h)
    rcases hold with rfl | rfl
    · rintro p hp
      cases hp
    · exact fun p hp => hinv.active_version hp p rfl
  | drop hi => exact hinv.setRole hi trivial (fun _ h => by cases h) (fun _ h => by cases h)
  | stage pieces hi => exact hinv.stage pieces hi
  | write d hi hv => exact hinv.write d hi hv
  | abandon hi => exact hinv.abandon hi
  | swap info hi hall => exact hinv.swap info hi hall
  | clean applied hi => exact hinv.clean applied hi
  | expire applied d hi => exact hinv.expire applied d hi
  | pin hi hp => exact hinv.pin hi hp
  | unpin hi => exact hinv.unpin hi
  | remove hi => exact hinv.remove hi
  | spawn => exact hinv.spawn
  | newID => exact hinv.newID
  | tick d => exact { hinv with }
  | crash => exact hinv.crash

/-- An empty store satisfies the invariant. -/
theorem empty (now nextID : ℕ) :
    Inv (⟨now, fun _ => none, .empty, fun _ => 0, fun _ => none, [], nextID, []⟩ :
      Store K V M) where
  chunk_lt h := by cases h
  pub_lt h := by cases h
  pub_inj h := by cases h
  pub_chunk h := by cases h
  active h := by cases h
  retired h := by cases h
  readers _ := rfl
  lease h := by cases h
  role h := by cases h
  staging_unique h := by cases h

end Inv

end GenerationStore
