import IptvProxy.Lib.GenerationInvariant

/-!
# Who answers for a generation

A replacement takes out of use the generation whose pointer it has read (`replaced`). If somebody
else has swung the pointer in the meantime, that is the wrong generation, and the right one is
left behind. A swap is **informed** if this has not happened. In runs whose swaps are informed,

* a leased generation is active or retired, so its last reader deletes it (`LeaseOwned`);
* if in addition nothing crashes and deletions succeed, every stored piece is active, retired,
  being written or being deleted (`ChunkOwned`): nothing leaks;
* if crashes and failing deletions come only when no piece depends on them, every piece without
  an expiry is active, or about to be deleted or to get an expiry (`ChunkTimed`).
-/

namespace GenerationStore

open Agents

universe u v w

variable {K : Type u} {V : Type v} {M : Type w}

/-! ## Pieces and roles -/

/-- The agent has written the piece. -/
def Role.writes (x : Chunk K) : Role K V M → Prop
  | .staging k _ g _ n => x.key = k ∧ x.generation = g ∧ x.index < n
  | _ => False

/-- The agent is about to delete the piece. -/
def Role.deletes (x : Chunk K) : Role K V M → Prop
  | .cleaning k g n j => x.key = k ∧ x.generation = g ∧ j ≤ x.index ∧ x.index < n
  | _ => False

/-- The agent is about to give the piece an expiry. -/
def Role.expires (x : Chunk K) : Role K V M → Prop
  | .expiring k g n j => x.key = k ∧ x.generation = g ∧ j ≤ x.index ∧ x.index < n
  | _ => False

namespace Store

/-- The pointer of `k` shows the non-empty generation `g`. -/
def Shows (s : Store K V M) (k : K) (g : ℕ) : Prop :=
  ∃ p, s.active k = some p ∧ p.generation = g ∧ 0 < p.count

/-- The generation of the piece waits for its readers. -/
def Waits (s : Store K V M) (x : Chunk K) : Prop :=
  ∃ r, s.retired (x.key, x.generation) = some r ∧ x.index < r.count

/-- Some agent is in a role that satisfies `P`. -/
def HasRole (s : Store K V M) (P : Role K V M → Prop) : Prop :=
  ∃ (i : ℕ) (a : Agent K V M), s.agents[i]? = some a ∧ P a.role

/-- Agent `i` has read the pointer it is about to replace, as far as it shows any pieces. -/
def Informed (s : Store K V M) (i : ℕ) : Prop :=
  ∀ l k old g pieces n, s.agents[i]? = some ⟨l, .staging k old g pieces n⟩ →
    ∀ p, s.active k = some p → 0 < p.count → old = some p

/-- A stored piece that will never expire. -/
def Bare (s : Store K V M) (x : Chunk K) : Prop :=
  ∃ e, s.chunks x = some e ∧ e.deadline = none

end Store

theorem Role.deletes_clean {x : Chunk K} {n : ℕ} (h : x.index < n) :
    (Role.clean x.key x.generation n : Role K V M).deletes x := by
  unfold Role.clean
  rw [if_pos (Nat.zero_lt_of_lt h)]
  exact ⟨rfl, rfl, Nat.zero_le _, h⟩

theorem Role.expires_expire {x : Chunk K} {n : ℕ} (h : x.index < n) :
    (Role.expire x.key x.generation n : Role K V M).expires x := by
  unfold Role.expire
  rw [if_pos (Nat.zero_lt_of_lt h)]
  exact ⟨rfl, rfl, Nat.zero_le _, h⟩

/-! ## Frames -/

section Frame

variable {s : Store K V M} {P : Role K V M → Prop} {i : ℕ} {l l' : Option (K × ℕ)}
  {r r' : Role K V M}

/-- A role of another agent, or one that is kept, is still there. -/
theorem Store.HasRole.set (h : s.HasRole P) (hi : s.agents[i]? = some ⟨l, r⟩)
    (hP : P r → P r') {s' : Store K V M} (hs' : s'.agents = s.agents.set i ⟨l', r'⟩) :
    s'.HasRole P := by
  obtain ⟨j, a, hj, ha⟩ := h
  by_cases hji : j = i
  · subst hji
    rw [hi] at hj
    obtain rfl := Option.some.inj hj
    refine ⟨j, ⟨l', r'⟩, ?_, hP ha⟩
    rw [hs']
    exact getElem?_set_of_some hi
  · refine ⟨j, a, ?_, ha⟩
    rw [hs', List.getElem?_set_ne (fun h => hji h.symm)]
    exact hj

/-- The new role of an agent. -/
theorem Store.HasRole.of_set (hi : s.agents[i]? = some ⟨l, r⟩) (hP : P r')
    {s' : Store K V M} (hs' : s'.agents = s.agents.set i ⟨l', r'⟩) : s'.HasRole P := by
  refine ⟨i, ⟨l', r'⟩, ?_, hP⟩
  rw [hs']
  exact getElem?_set_of_some hi

/-- More agents. -/
theorem Store.HasRole.append (h : s.HasRole P) {new : List (Agent K V M)} {s' : Store K V M}
    (hs' : s'.agents = s.agents ++ new) : s'.HasRole P := by
  obtain ⟨j, a, hj, ha⟩ := h
  refine ⟨j, a, ?_, ha⟩
  rw [hs']
  exact getElem?_append_of_some hj

end Frame

variable [DecidableEq K]

section Retire

variable {s : Store K V M} {i : ℕ} {l : Option (K × ℕ)} {r : Retired K}

@[simp] theorem retire_active : (s.retire i l r).active = s.active := by
  unfold Store.retire
  split <;> rfl

@[simp] theorem retire_chunks : (s.retire i l r).chunks = s.chunks := by
  unfold Store.retire
  split <;> rfl

/-- The role `retire` leaves the agent in. -/
theorem retire_agents : ∃ r', (s.retire i l r).agents = s.agents.set i ⟨l, r'⟩ := by
  unfold Store.retire
  split
  · exact ⟨_, rfl⟩
  · exact ⟨_, rfl⟩

/-- A generation taken out of use waits or is being deleted. -/
theorem waits_or_deletes_of_retire {a : Agent K V M} (hi : s.agents[i]? = some a) {x : Chunk K}
    (hx : x.key = r.key ∧ x.generation = r.generation) (hlt : x.index < r.count) :
    (s.retire i l r).Waits x ∨ (s.retire i l r).HasRole (Role.deletes x) := by
  unfold Store.retire
  rw [← hx.1, ← hx.2]
  split
  · refine .inl ⟨r, ?_, hlt⟩
    exact Function.update_self ..
  · exact .inr (.of_set (l := a.lease) (r := a.role) hi (Role.deletes_clean hlt) rfl)

/-- A generation taken out of use gets an expiry or is being deleted. -/
theorem expires_or_deletes_of_retire {a : Agent K V M} (hi : s.agents[i]? = some a) {x : Chunk K}
    (hx : x.key = r.key ∧ x.generation = r.generation) (hlt : x.index < r.count) :
    (s.retire i l r).HasRole (Role.deletes x) ∨ (s.retire i l r).HasRole (Role.expires x) := by
  unfold Store.retire
  rw [← hx.1, ← hx.2]
  split
  · exact .inr (.of_set (l := a.lease) (r := a.role) hi (Role.expires_expire hlt) rfl)
  · exact .inl (.of_set (l := a.lease) (r := a.role) hi (Role.deletes_clean hlt) rfl)

/-- Taking one generation out of use lets the others wait. -/
theorem Store.Waits.retire {x : Chunk K} (h : s.Waits x)
    (hr : x.key = r.key → x.generation = r.generation → x.index < r.count) :
    (s.retire i l r).Waits x := by
  obtain ⟨r', hr', hlt⟩ := h
  unfold Store.retire
  split
  · by_cases hx : (x.key, x.generation) = (r.key, r.generation)
    · refine ⟨r, ?_, ?_⟩
      · change Function.update s.retired (r.key, r.generation) (some r) (x.key, x.generation) = _
        rw [hx]
        exact Function.update_self ..
      · exact hr (congrArg Prod.fst hx) (congrArg Prod.snd hx)
    · refine ⟨r', ?_, hlt⟩
      change Function.update s.retired (r.key, r.generation) (some r) (x.key, x.generation) = _
      rw [Function.update_of_ne hx]
      exact hr'
  · exact ⟨r', hr', hlt⟩

end Retire

/-! ## What a pointer that moves on leaves behind -/

namespace Inv

variable {s : Store K V M} {k : K}

/-- The pieces of the shown generation are as many as its pointer says. -/
theorem shown_index (hinv : Inv s) {x : Chunk K} {e : Expiring V} (hx : s.chunks x = some e)
    {p : Pointer M} (hp : s.active x.key = some p) (hg : p.generation = x.generation) :
    x.index < p.count := by
  obtain ⟨v, hv, hk, rfl, -⟩ := hinv.active hp
  have hpiece := hinv.pub_chunk hv (i := x.index) (e := e) (by
    rw [hk, ← hx]
    exact congrArg (fun g => s.chunks ⟨x.key, g, x.index⟩) hg)
  exact (List.getElem?_eq_some_iff.mp hpiece).1

omit [DecidableEq K] in
theorem retired_of_count {p : Pointer M} (h : 0 < p.count) :
    p.retired k = some ⟨k, p.generation, p.count⟩ := by
  unfold Pointer.retired
  rw [if_pos h]

omit [DecidableEq K] in
theorem retired_of_active {p : Pointer M} (hp : s.active k = some p) (h : 0 < p.count) :
    ((s.active k).bind fun p => p.retired k) = some ⟨k, p.generation, p.count⟩ := by
  rw [hp, Option.bind_some, retired_of_count h]

omit [DecidableEq K] in
/-- What a replacement takes out of use was published. -/
theorem version_of_replaced {old : Option (Pointer M)} {g : ℕ} {r : Retired K}
    (hold : s.OldOk k old) (hr : Store.replaced k old g = some r) :
    ∃ v ∈ s.published, r = ⟨v.key, v.generation, v.pieces.length⟩ := by
  obtain ⟨p, hp, hret⟩ := Option.bind_eq_some_iff.mp hr
  split at hret
  · cases hret
  · exact retired_of_old hold (r := r) (by rw [hp]; exact hret)

/-- An informed swap takes the shown generation out of use. -/
theorem replaced_of_informed (hinv : Inv s) {i : ℕ} {l : Option (K × ℕ)}
    {old : Option (Pointer M)} {g n : ℕ} {pieces : List V}
    (hi : s.agents[i]? = some ⟨l, .staging k old g pieces n⟩) (hinf : s.Informed i)
    {p : Pointer M} (hp : s.active k = some p) (hcount : 0 < p.count) :
    Store.replaced k old g = some ⟨k, p.generation, p.count⟩ := by
  have hold : old = some p := hinf l k old g pieces n hi p hp hcount
  have hne : p.generation ≠ g := hinv.inactive_of_staging (hinv.role hi) p hp
  rw [hold, Store.replaced, Option.bind_some, if_neg hne, retired_of_count hcount]

end Inv

/-! ## Leased generations -/

/-- A leased generation is active or waits for its readers. -/
def LeaseOwned (s : Store K V M) : Prop :=
  ∀ l : K × ℕ, 0 < s.readers l → s.Shows l.1 l.2 ∨ (s.retired l).isSome = true

/-- The condition of `LeaseOwned` on a step. -/
def Store.SwapInformed (s : Store K V M) : Label → Prop
  | .swap i => s.Informed i
  | _ => True

namespace LeaseOwned

variable {s t : Store K V M} {k : K}

/-- A pointer that moves on, and the generation it leaves behind is taken out of use. -/
theorem retire (h : LeaseOwned s) (i : ℕ) (l : Option (K × ℕ)) {r : Retired K}
    (hr : ∀ p, s.active k = some p → 0 < p.count → r = ⟨k, p.generation, p.count⟩)
    (hread : t.readers = s.readers) (hret : t.retired = s.retired)
    (hact : ∀ k', k' ≠ k → t.active k' = s.active k') : LeaseOwned (t.retire i l r) := by
  -- what the retired map had, it keeps
  have hkeep : ∀ x, (s.retired x).isSome = true → ((t.retire i l r).retired x).isSome = true := by
    intro x hx
    unfold Store.retire
    split
    · change (Function.update t.retired (r.key, r.generation) (some r) x).isSome = true
      by_cases hxr : x = (r.key, r.generation)
      · rw [hxr, Function.update_self]
        rfl
      · rw [Function.update_of_ne hxr, hret]
        exact hx
    · change (t.retired x).isSome = true
      rw [hret]
      exact hx
  have hreaders : (t.retire i l r).readers = s.readers := by
    rw [← hread]
    unfold Store.retire
    split <;> rfl
  intro x hpos
  rw [hreaders] at hpos
  rcases h x hpos with ⟨p, hp, hg, hcount⟩ | hsome
  · by_cases hk : x.1 = k
    · -- the generation that moves out has a reader, so it is retired
      rw [hk] at hp
      have hx : (r.key, r.generation) = x := by
        rw [hr p hp hcount]
        exact Prod.ext hk.symm hg
      refine .inr ?_
      unfold Store.retire
      rw [hx, hread, if_pos hpos]
      change (Function.update t.retired x (some r) x).isSome = true
      rw [Function.update_self]
      rfl
    · exact .inl ⟨p, by rw [retire_active, hact _ hk]; exact hp, hg, hcount⟩
  · exact .inr (hkeep x hsome)

/-- A pointer that moves on and leaves nothing behind. -/
theorem moveOn (h : LeaseOwned s) (hempty : ∀ p, s.active k = some p → ¬ 0 < p.count)
    (hread : t.readers = s.readers) (hret : t.retired = s.retired)
    (hact : ∀ k', k' ≠ k → t.active k' = s.active k') : LeaseOwned t := by
  intro x hpos
  rw [hread] at hpos
  rcases h x hpos with ⟨p, hp, hg, hcount⟩ | hsome
  · by_cases hk : x.1 = k
    · exact absurd hcount (hempty p (hk ▸ hp))
    · exact .inl ⟨p, by rw [hact _ hk]; exact hp, hg, hcount⟩
  · exact .inr (by rw [hret]; exact hsome)

theorem swap (h : LeaseOwned s) (hinv : Inv s) {i : ℕ} {l : Option (K × ℕ)}
    {old : Option (Pointer M)} {g n : ℕ} {pieces : List V} (info : M)
    (hi : s.agents[i]? = some ⟨l, .staging k old g pieces n⟩) (hinf : s.Informed i) :
    LeaseOwned (match Store.replaced k old g with
      | none => (s.publish ⟨k, g, pieces, info⟩).setRole i l .idle
      | some r => (s.publish ⟨k, g, pieces, info⟩).retire i l r) := by
  have hact : ∀ k', k' ≠ k → (s.publish ⟨k, g, pieces, info⟩).active k' = s.active k' :=
    fun k' hk' => Function.update_of_ne hk' _ _
  rcases hrep : Store.replaced k old g with _ | r
  · refine h.moveOn (k := k) (fun p hp hcount => ?_) rfl rfl hact
    rw [hinv.replaced_of_informed hi hinf hp hcount] at hrep
    cases hrep
  · refine h.retire (k := k) i l (fun p hp hcount => ?_) rfl rfl hact
    rw [hinv.replaced_of_informed hi hinf hp hcount] at hrep
    exact (Option.some.inj hrep).symm

theorem remove (h : LeaseOwned s) (i : ℕ) (l : Option (K × ℕ)) :
    LeaseOwned (match (s.active k).bind fun p => p.retired k with
      | none => { s with active := Function.update s.active k none }
      | some r => { s with active := Function.update s.active k none }.retire i l r) := by
  have hact : ∀ k', k' ≠ k → Function.update s.active k none k' = s.active k' :=
    fun k' hk' => Function.update_of_ne hk' _ _
  rcases hrep : (s.active k).bind fun p => p.retired k with _ | r
  · refine h.moveOn (k := k) (fun p hp hcount => ?_) rfl rfl hact
    rw [Inv.retired_of_active hp hcount] at hrep
    cases hrep
  · refine h.retire (k := k) i l (fun p hp hcount => ?_) rfl rfl hact
    rw [Inv.retired_of_active hp hcount] at hrep
    exact (Option.some.inj hrep).symm

theorem pin (h : LeaseOwned s) {p : Pointer M} (hp : s.active k = some p) (hcount : 0 < p.count) :
    LeaseOwned { s with
      readers := Function.update s.readers (k, p.generation)
        (s.readers (k, p.generation) + 1) } := by
  intro x hpos
  by_cases hx : x = (k, p.generation)
  · subst hx
    exact .inl ⟨p, hp, rfl, hcount⟩
  · dsimp only at hpos
    rw [Function.update_of_ne hx] at hpos
    exact h x hpos

theorem unpin (h : LeaseOwned s) (l : K × ℕ) : LeaseOwned (s.unpin l).1 := by
  intro x hpos
  unfold Store.unpin at hpos ⊢
  split
  · next hmore =>
    rw [if_pos hmore] at hpos
    refine h x ?_
    by_cases hx : x = l
    · subst hx
      omega
    · dsimp only at hpos
      rwa [Function.update_of_ne hx] at hpos
  · next hlast =>
    rw [if_neg hlast] at hpos
    dsimp only at hpos ⊢
    by_cases hx : x = l
    · subst hx
      rw [Function.update_self] at hpos
      exact absurd hpos (Nat.lt_irrefl 0)
    · rw [Function.update_of_ne hx] at hpos ⊢
      exact h x hpos

/-- **Leases stay owned** as long as swaps are informed. -/
theorem step (h : LeaseOwned s) (hinv : Inv s) {label : Label} (hok : s.SwapInformed label)
    (hs : Step s label t) : LeaseOwned t := by
  cases hs with
  | swap info hi _ => exact h.swap hinv info hi hok
  | pin _ hp hcount => exact h.pin hp hcount
  | unpin _ => exact h.unpin _
  | remove _ => exact h.remove _ _
  | crash => exact fun l hpos => absurd hpos (Nat.lt_irrefl 0)
  | _ => exact h

end LeaseOwned

/-! ## Retired generations -/

/-- A retired generation has pieces. -/
def RetiredNonempty (s : Store K V M) : Prop := ∀ l r, s.retired l = some r → 0 < r.count

namespace RetiredNonempty

variable {s t : Store K V M}

omit [DecidableEq K] in
theorem count_pos_of_retired {p : Pointer M} {k : K} {r : Retired K} (h : p.retired k = some r) :
    0 < r.count := by
  unfold Pointer.retired at h
  split at h
  · next hpos =>
    obtain rfl := Option.some.inj h
    exact hpos
  · cases h

theorem retire (h : RetiredNonempty s) (hret : t.retired = s.retired) (i : ℕ)
    (l : Option (K × ℕ)) {r : Retired K} (hpos : 0 < r.count) :
    RetiredNonempty (t.retire i l r) := by
  intro x r' hr'
  unfold Store.retire at hr'
  split at hr'
  · by_cases hx : x = (r.key, r.generation)
    · change Function.update t.retired (r.key, r.generation) (some r) x = some r' at hr'
      rw [hx, Function.update_self] at hr'
      obtain rfl := Option.some.inj hr'
      exact hpos
    · change Function.update t.retired (r.key, r.generation) (some r) x = some r' at hr'
      rw [Function.update_of_ne hx, hret] at hr'
      exact h x r' hr'
  · exact h x r' (hret ▸ hr')

theorem step (h : RetiredNonempty s) {label : Label} (hs : Step s label t) :
    RetiredNonempty t := by
  cases hs with
  | @swap i l k old g pieces info hi hall =>
    rcases hrep : Store.replaced k old g with _ | r
    · exact h
    · obtain ⟨p, -, hr⟩ := Option.bind_eq_some_iff.mp hrep
      split at hr
      · cases hr
      · exact h.retire (t := s.publish ⟨k, g, pieces, info⟩) rfl i l (count_pos_of_retired hr)
  | @remove i l k hi =>
    rcases hrep : (s.active k).bind fun p => p.retired k with _ | r
    · exact h
    · obtain ⟨p, -, hr⟩ := Option.bind_eq_some_iff.mp hrep
      exact h.retire (t := { s with active := Function.update s.active k none }) rfl i l
        (count_pos_of_retired hr)
  | @unpin i l hi =>
    intro x r hr
    refine h x r ?_
    change (s.unpin l).1.retired x = some r at hr
    unfold Store.unpin at hr
    split at hr
    · exact hr
    · by_cases hx : x = l
      · rw [hx] at hr
        dsimp only at hr
        rw [Function.update_self] at hr
        cases hr
      · dsimp only at hr
        rwa [Function.update_of_ne hx] at hr
  | crash => exact fun l r hr => nomatch hr
  | _ => exact h

end RetiredNonempty

/-! ## Stored pieces -/

/-- Every stored piece is active, retired, being written or being deleted. -/
def ChunkOwned (s : Store K V M) : Prop :=
  ∀ (x : Chunk K) (e : Expiring V), s.chunks x = some e →
    s.Shows x.key x.generation ∨ s.Waits x ∨ s.HasRole (Role.writes x) ∨
      s.HasRole (Role.deletes x)

/-- The condition of `ChunkOwned` on a step: swaps are informed, deletions succeed, nothing
crashes. -/
def Store.Faultless (s : Store K V M) : Label → Prop
  | .swap i => s.Informed i
  | .clean _ applied => applied = true
  | .crash => False
  | _ => True

namespace ChunkOwned

variable {s t : Store K V M} {k : K}

omit [DecidableEq K] in
/-- A step of agent `i` that keeps pointers and retirements. -/
theorem frame (h : ChunkOwned s) {i : ℕ} {l l' : Option (K × ℕ)} {r r' : Role K V M}
    (hi : s.agents[i]? = some ⟨l, r⟩) (ha : t.agents = s.agents.set i ⟨l', r'⟩)
    (hact : t.active = s.active) (hret : t.retired = s.retired)
    (hsub : ∀ x e, t.chunks x = some e → (∃ e₀, s.chunks x = some e₀) ∨ r'.writes x)
    (hw : ∀ x, r.writes x → r'.writes x ∨ r'.deletes x)
    (hd : ∀ x e, t.chunks x = some e → r.deletes x → r'.deletes x) : ChunkOwned t := by
  intro x e he
  rcases hsub x e he with ⟨e₀, he₀⟩ | hnew
  case inr => exact .inr (.inr (.inl (.of_set hi hnew ha)))
  rcases h x e₀ he₀ with ⟨p, hp, hrest⟩ | ⟨ret, hr, hlt⟩ | hwrites | hdeletes
  · exact .inl ⟨p, by rw [hact]; exact hp, hrest⟩
  · exact .inr (.inl ⟨ret, by rw [hret]; exact hr, hlt⟩)
  · by_cases hwi : r.writes x
    · rcases hw x hwi with hw' | hd'
      · exact .inr (.inr (.inl (.of_set hi hw' ha)))
      · exact .inr (.inr (.inr (.of_set hi hd' ha)))
    · exact .inr (.inr (.inl (hwrites.set hi (fun h => absurd h hwi) ha)))
  · exact .inr (.inr (.inr (hdeletes.set hi (hd x e he) ha)))

/-- A pointer that moves on, and the generation it leaves behind is taken out of use. -/
theorem retire (h : ChunkOwned s) (hinv : Inv s) {i : ℕ} {l : Option (K × ℕ)} {ro : Role K V M}
    (hi : s.agents[i]? = some ⟨l, ro⟩) {r : Retired K}
    (hr : ∀ p, s.active k = some p → 0 < p.count → r = ⟨k, p.generation, p.count⟩)
    (hv : ∃ v ∈ s.published, r = ⟨v.key, v.generation, v.pieces.length⟩)
    (hagents : t.agents = s.agents) (hret : t.retired = s.retired)
    (hact : ∀ k', k' ≠ k → t.active k' = s.active k')
    (hsub : ∀ x e, t.chunks x = some e → ∃ e₀, s.chunks x = some e₀)
    (hw : ∀ x, ro.writes x → t.Shows x.key x.generation) (hd : ∀ x, ¬ ro.deletes x) :
    ChunkOwned (t.retire i l r) := by
  intro x e he
  rw [retire_chunks] at he
  obtain ⟨e₀, he₀⟩ := hsub x e he
  have hi' : t.agents[i]? = some ⟨l, ro⟩ := by rw [hagents]; exact hi
  obtain ⟨r', hset⟩ := retire_agents (s := t) (i := i) (l := l) (r := r)
  have hset' : (t.retire i l r).agents = s.agents.set i ⟨l, r'⟩ := by rw [hset, hagents]
  rcases h x e₀ he₀ with ⟨p, hp, hg, hcount⟩ | ⟨ret, hretx, hlt⟩ | hwrites | hdeletes
  · by_cases hk : x.key = k
    · -- the piece belongs to the generation that moves out
      have hidx := hinv.shown_index he₀ hp hg
      rw [hk] at hp
      have hreq := hr p hp hcount
      rcases waits_or_deletes_of_retire (r := r) (l := l) hi' (x := x)
        (by rw [hreq]; exact ⟨hk, hg.symm⟩) (by rw [hreq]; exact hidx) with hwait | hdel
      · exact .inr (.inl hwait)
      · exact .inr (.inr (.inr hdel))
    · exact .inl ⟨p, by rw [retire_active, hact _ hk]; exact hp, hg, hcount⟩
  · have hwait : t.Waits x := ⟨ret, by rw [hret]; exact hretx, hlt⟩
    refine .inr (.inl (hwait.retire fun hkey hgen => ?_))
    obtain ⟨v, hv, rfl⟩ := hv
    have hpiece := hinv.pub_chunk hv (i := x.index) (e := e₀) (by
      rw [← he₀]
      exact congrArg₂ (fun a b => s.chunks ⟨a, b, x.index⟩) hkey.symm hgen.symm)
    exact (List.getElem?_eq_some_iff.mp hpiece).1
  · by_cases hwi : ro.writes x
    · obtain ⟨p, hp, hrest⟩ := hw x hwi
      exact .inl ⟨p, by rw [retire_active]; exact hp, hrest⟩
    · exact .inr (.inr (.inl (hwrites.set hi (fun h => absurd h hwi) hset')))
  · exact .inr (.inr (.inr (hdeletes.set hi (fun h => absurd h (hd x)) hset')))

/-- A pointer that moves on and leaves nothing behind. -/
theorem moveOn (h : ChunkOwned s) {i : ℕ} {l : Option (K × ℕ)} {ro r' : Role K V M}
    (hi : s.agents[i]? = some ⟨l, ro⟩)
    (hempty : ∀ p, s.active k = some p → ¬ 0 < p.count)
    (hagents : t.agents = s.agents.set i ⟨l, r'⟩) (hret : t.retired = s.retired)
    (hact : ∀ k', k' ≠ k → t.active k' = s.active k')
    (hsub : ∀ x e, t.chunks x = some e → ∃ e₀, s.chunks x = some e₀)
    (hw : ∀ x, ro.writes x → t.Shows x.key x.generation) (hd : ∀ x, ¬ ro.deletes x) :
    ChunkOwned t := by
  intro x e he
  obtain ⟨e₀, he₀⟩ := hsub x e he
  rcases h x e₀ he₀ with ⟨p, hp, hg, hcount⟩ | ⟨ret, hretx, hlt⟩ | hwrites | hdeletes
  · by_cases hk : x.key = k
    · exact absurd hcount (hempty p (hk ▸ hp))
    · exact .inl ⟨p, by rw [hact _ hk]; exact hp, hg, hcount⟩
  · exact .inr (.inl ⟨ret, by rw [hret]; exact hretx, hlt⟩)
  · by_cases hwi : ro.writes x
    · exact .inl (hw x hwi)
    · exact .inr (.inr (.inl (hwrites.set hi (fun h => absurd h hwi) hagents)))
  · exact .inr (.inr (.inr (hdeletes.set hi (fun h => absurd h (hd x)) hagents)))

theorem swap (h : ChunkOwned s) (hinv : Inv s) {i : ℕ} {l : Option (K × ℕ)}
    {old : Option (Pointer M)} {g : ℕ} {pieces : List V} (info : M)
    (hi : s.agents[i]? = some ⟨l, .staging k old g pieces pieces.length⟩)
    (hinf : s.Informed i) :
    ChunkOwned (match Store.replaced k old g with
      | none => (s.publish ⟨k, g, pieces, info⟩).setRole i l .idle
      | some r => (s.publish ⟨k, g, pieces, info⟩).retire i l r) := by
  have hact : ∀ k', k' ≠ k → (s.publish ⟨k, g, pieces, info⟩).active k' = s.active k' :=
    fun k' hk' => Function.update_of_ne hk' _ _
  have hsub : ∀ x e, (s.publish ⟨k, g, pieces, info⟩).chunks x = some e →
      ∃ e₀, s.chunks x = some e₀ := by
    intro x e he
    obtain ⟨e₀, he₀, -⟩ := persistAll_eq_some _ he
    exact ⟨e₀, he₀⟩
  -- the agent's own pieces are now shown
  have hw : ∀ x, (Role.staging k old g pieces pieces.length : Role K V M).writes x →
      (s.publish ⟨k, g, pieces, info⟩).Shows x.key x.generation := by
    rintro x ⟨hk, hg, hlt⟩
    refine ⟨⟨g, pieces.length, info⟩, ?_, hg.symm, Nat.zero_lt_of_lt hlt⟩
    rw [hk]
    exact Function.update_self ..
  rcases hrep : Store.replaced k old g with _ | r
  · refine h.moveOn hi (k := k) (fun p hp hcount => ?_) rfl rfl hact hsub hw
      (fun x hx => hx)
    rw [hinv.replaced_of_informed hi hinf hp hcount] at hrep
    cases hrep
  · refine h.retire hinv hi (k := k) (fun p hp hcount => ?_) ?_ rfl rfl hact hsub hw
      (fun x hx => hx)
    · rw [hinv.replaced_of_informed hi hinf hp hcount] at hrep
      exact (Option.some.inj hrep).symm
    · exact Inv.version_of_replaced (hinv.role hi).1 hrep

theorem remove (h : ChunkOwned s) (hinv : Inv s) {i : ℕ} {l : Option (K × ℕ)}
    (hi : s.agents[i]? = some ⟨l, .idle⟩) :
    ChunkOwned (match (s.active k).bind fun p => p.retired k with
      | none => { s with active := Function.update s.active k none }
      | some r => { s with active := Function.update s.active k none }.retire i l r) := by
  have hact : ∀ k', k' ≠ k → Function.update s.active k none k' = s.active k' :=
    fun k' hk' => Function.update_of_ne hk' _ _
  rcases hrep : (s.active k).bind fun p => p.retired k with _ | r
  · have hset : s.agents = s.agents.set i ⟨l, .idle⟩ := (set_of_getElem? hi).symm
    refine h.moveOn hi (k := k) (fun p hp hcount => ?_) hset rfl hact
      (fun x e he => ⟨e, he⟩) (fun x hx => hx.elim) (fun x hx => hx)
    rw [Inv.retired_of_active hp hcount] at hrep
    cases hrep
  · refine h.retire hinv hi (k := k) (fun p hp hcount => ?_) ?_ rfl rfl hact
      (fun x e he => ⟨e, he⟩) (fun x hx => hx.elim) (fun x hx => hx)
    · rw [Inv.retired_of_active hp hcount] at hrep
      exact (Option.some.inj hrep).symm
    · exact Inv.retired_of_old (fun p hp => hinv.active_version hp p rfl) hrep

theorem unpin (h : ChunkOwned s) (hinv : Inv s) {i : ℕ} {l : K × ℕ}
    (hi : s.agents[i]? = some ⟨some l, .idle⟩) :
    ChunkOwned ((s.unpin l).1.setRole i none
      (match (s.unpin l).2 with
        | none => .idle
        | some r => .clean r.key r.generation r.count)) := by
  unfold Store.unpin
  split
  · exact h.frame hi rfl rfl rfl (fun x e he => .inl ⟨e, he⟩) (fun x hx => hx.elim)
      (fun x e _ hx => hx.elim)
  · -- the last reader answers for what waited for it
    dsimp only
    set r' : Role K V M := match s.retired l with
      | none => .idle
      | some r => .clean r.key r.generation r.count with hr'
    have hset : ∀ r : Role K V M, (Store.setRole
        { s with
          readers := Function.update s.readers l 0
          retired := Function.update s.retired l none } i none r).agents =
        s.agents.set i ⟨none, r⟩ := fun _ => rfl
    intro x e he
    rcases h x e he with hshown | ⟨ret, hretx, hlt⟩ | hwrites | hdeletes
    · exact .inl hshown
    · by_cases hx : (x.key, x.generation) = l
      · refine .inr (.inr (.inr (.of_set hi ?_ (hset r'))))
        obtain ⟨-, -, v, -, -, -, rfl⟩ := hinv.retired hretx
        rw [hr', ← hx, hretx]
        exact Role.deletes_clean hlt
      · refine .inr (.inl ⟨ret, ?_, hlt⟩)
        exact (Function.update_of_ne hx _ _).trans hretx
    · exact .inr (.inr (.inl (hwrites.set hi (fun h => h.elim) rfl)))
    · exact .inr (.inr (.inr (hdeletes.set hi (fun h => h.elim) rfl)))

theorem clean (h : ChunkOwned s) {i : ℕ} {l : Option (K × ℕ)} {g n j : ℕ}
    (hi : s.agents[i]? = some ⟨l, .cleaning k g n j⟩) :
    ChunkOwned ({ s with chunks := s.chunks.del ⟨k, g, j⟩ }.setRole i l
      (if j + 1 < n then .cleaning k g n (j + 1) else .idle)) := by
  refine h.frame hi rfl rfl rfl
    (fun x e he => .inl ⟨e, (ExpiringMap.del_eq_some he).2⟩) (fun x hx => hx.elim) ?_
  rintro x e he ⟨hk, hg, hge, hlt⟩
  -- the piece that is still there is a later one
  have hne : x.index ≠ j := by
    intro hj
    apply (ExpiringMap.del_eq_some he).1
    rw [← hk, ← hg, ← hj]
  rw [if_pos (by omega)]
  exact ⟨hk, hg, by omega, hlt⟩

omit [DecidableEq K] in
theorem spawn (h : ChunkOwned s) : ChunkOwned { s with agents := s.agents ++ [⟨none, .idle⟩] } := by
  intro x e he
  rcases h x e he with hshown | hwait | hwrites | hdeletes
  · exact .inl hshown
  · exact .inr (.inl hwait)
  · exact .inr (.inr (.inl (hwrites.append rfl)))
  · exact .inr (.inr (.inr (hdeletes.append rfl)))

/-- **Nothing leaks** without faults. -/
theorem step (h : ChunkOwned s) (hinv : Inv s) {label : Label} (hok : s.Faultless label)
    (hs : Step s label t) : ChunkOwned t := by
  cases hs with
  | write d hi hv =>
    refine h.frame hi rfl rfl rfl (fun x e he => ?_) (fun x hx => .inl ?_)
      (fun x e _ hx => hx.elim)
    · rw [or_iff_not_imp_right]
      intro hnew
      refine ⟨e, (ExpiringMap.set_ne _ _ _ fun heq => hnew ?_).symm.trans he⟩
      rw [heq]
      exact ⟨rfl, rfl, Nat.lt_succ_self _⟩
    · exact ⟨hx.1, hx.2.1, Nat.lt_succ_of_lt hx.2.2⟩
  | abandon hi =>
    refine h.frame hi rfl rfl rfl (fun x e he => .inl ⟨e, he⟩) ?_ (fun x e _ hx => hx.elim)
    rintro x ⟨rfl, rfl, hlt⟩
    exact .inr (Role.deletes_clean hlt)
  | swap info hi _ => exact h.swap hinv info hi hok
  | clean applied hi =>
    obtain rfl : applied = true := hok
    exact h.clean hi
  | expire applied d hi =>
    refine h.frame hi rfl rfl rfl (fun x e he => .inl ?_) (fun x hx => hx.elim)
      (fun x e _ hx => hx.elim)
    cases applied with
    | false => exact ⟨e, he⟩
    | true =>
      obtain ⟨e₀, he₀, -⟩ := ExpiringMap.expire_eq_some he
      exact ⟨e₀, he₀⟩
  | unpin hi => exact h.unpin hinv hi
  | remove hi => exact h.remove hinv hi
  | spawn => exact h.spawn
  | newID => exact h
  | tick d => exact h
  | crash => exact hok.elim
  | load hi _ | drop hi | stage _ hi | pin hi _ _ =>
    exact h.frame hi rfl rfl rfl (fun x e he => .inl ⟨e, he⟩) (fun x hx => hx.elim)
      (fun x e _ hx => hx.elim)

/-- At rest the stored pieces are those the pointers show. -/
theorem shown (h : ChunkOwned s) (hinv : Inv s) {x : Chunk K} {e : Expiring V}
    (hx : s.chunks x = some e) (hrest : ∀ (i : ℕ) (a : Agent K V M), s.agents[i]? = some a →
      a = ⟨none, .idle⟩) : s.Shows x.key x.generation := by
  have hno : ∀ {P : Role K V M → Prop}, ¬ P .idle → ¬ s.HasRole P := by
    rintro P hP ⟨i, a, hi, ha⟩
    rw [hrest i a hi] at ha
    exact hP ha
  rcases h x e hx with hshown | ⟨r, hr, -⟩ | hwrites | hdeletes
  · exact hshown
  · obtain ⟨hpos, -⟩ := hinv.retired hr
    rw [hinv.readers, leases, List.countP_pos_iff] at hpos
    obtain ⟨a, ha, hl⟩ := hpos
    obtain ⟨i, hi⟩ := List.mem_iff_getElem?.mp ha
    rw [hrest i a hi] at hl
    simp at hl
  · exact absurd hwrites (hno fun h => h)
  · exact absurd hdeletes (hno fun h => h)

end ChunkOwned

/-! ## Pieces without an expiry -/

/-- Every stored piece that never expires is active, or about to be deleted or to get an expiry. -/
def ChunkTimed (s : Store K V M) : Prop :=
  ∀ x : Chunk K, s.Bare x →
    s.Shows x.key x.generation ∨ s.HasRole (Role.deletes x) ∨ s.HasRole (Role.expires x)

/-- The condition of `ChunkTimed` on a step: swaps are informed, and nothing fails or crashes that
a piece without an expiry depends on. -/
def Store.Protected (s : Store K V M) : Label → Prop
  | .swap i => s.Informed i
  | .clean i applied => applied = true ∨ ∀ l k g n j,
      s.agents[i]? = some ⟨l, .cleaning k g n j⟩ → ¬ s.Bare ⟨k, g, j⟩
  | .expire i applied => applied = true ∨ ∀ l k g n j,
      s.agents[i]? = some ⟨l, .expiring k g n j⟩ → ¬ s.Bare ⟨k, g, j⟩
  | .crash => ∀ x, s.Bare x →
      ¬ s.HasRole (Role.deletes x) ∧ ¬ s.HasRole (Role.expires x)
  | .other => True

namespace ChunkTimed

variable {s t : Store K V M} {k : K}

omit [DecidableEq K] in
/-- A step of agent `i` that keeps pointers and leaves no new piece without an expiry. -/
theorem frame (h : ChunkTimed s) {i : ℕ} {l l' : Option (K × ℕ)} {r r' : Role K V M}
    (hi : s.agents[i]? = some ⟨l, r⟩) (ha : t.agents = s.agents.set i ⟨l', r'⟩)
    (hact : t.active = s.active) (hsub : ∀ x, t.Bare x → s.Bare x)
    (hd : ∀ x, t.Bare x → r.deletes x → r'.deletes x)
    (he : ∀ x, t.Bare x → r.expires x → r'.expires x) : ChunkTimed t := by
  intro x hx
  rcases h x (hsub x hx) with ⟨p, hp, hrest⟩ | hdeletes | hexpires
  · exact .inl ⟨p, by rw [hact]; exact hp, hrest⟩
  · exact .inr (.inl (hdeletes.set hi (hd x hx) ha))
  · exact .inr (.inr (hexpires.set hi (he x hx) ha))

/-- A pointer that moves on, and the generation it leaves behind is taken out of use. -/
theorem retire (h : ChunkTimed s) (hinv : Inv s) {i : ℕ} {l : Option (K × ℕ)} {ro : Role K V M}
    (hi : s.agents[i]? = some ⟨l, ro⟩) {r : Retired K}
    (hr : ∀ p, s.active k = some p → 0 < p.count → r = ⟨k, p.generation, p.count⟩)
    (hagents : t.agents = s.agents) (hact : ∀ k', k' ≠ k → t.active k' = s.active k')
    (hsub : ∀ x, t.Bare x → t.Shows x.key x.generation ∨ s.Bare x)
    (hd : ∀ x, ¬ ro.deletes x) (he : ∀ x, ¬ ro.expires x) : ChunkTimed (t.retire i l r) := by
  intro x hx
  have hi' : t.agents[i]? = some ⟨l, ro⟩ := by rw [hagents]; exact hi
  obtain ⟨r', hset⟩ := retire_agents (s := t) (i := i) (l := l) (r := r)
  have hset' : (t.retire i l r).agents = s.agents.set i ⟨l, r'⟩ := by rw [hset, hagents]
  have hxt : t.Bare x := by
    obtain ⟨e, hex, hdl⟩ := hx
    exact ⟨e, by rwa [retire_chunks] at hex, hdl⟩
  rcases hsub x hxt with ⟨p, hp, hrest⟩ | hxs
  · exact .inl ⟨p, by rw [retire_active]; exact hp, hrest⟩
  rcases h x hxs with ⟨p, hp, hg, hcount⟩ | hdeletes | hexpires
  · by_cases hk : x.key = k
    · -- the piece belongs to the generation that moves out
      obtain ⟨e, hex, -⟩ := hxs
      have hidx := hinv.shown_index hex hp hg
      rw [hk] at hp
      have hreq := hr p hp hcount
      exact .inr (expires_or_deletes_of_retire hi' (by rw [hreq]; exact ⟨hk, hg.symm⟩)
        (by rw [hreq]; exact hidx))
    · exact .inl ⟨p, by rw [retire_active, hact _ hk]; exact hp, hg, hcount⟩
  · exact .inr (.inl (hdeletes.set hi (fun h => absurd h (hd x)) hset'))
  · exact .inr (.inr (hexpires.set hi (fun h => absurd h (he x)) hset'))

omit [DecidableEq K] in
/-- A pointer that moves on and leaves nothing behind. -/
theorem moveOn (h : ChunkTimed s) {i : ℕ} {l : Option (K × ℕ)} {ro r' : Role K V M}
    (hi : s.agents[i]? = some ⟨l, ro⟩) (hempty : ∀ p, s.active k = some p → ¬ 0 < p.count)
    (hagents : t.agents = s.agents.set i ⟨l, r'⟩)
    (hact : ∀ k', k' ≠ k → t.active k' = s.active k')
    (hsub : ∀ x, t.Bare x → t.Shows x.key x.generation ∨ s.Bare x)
    (hd : ∀ x, ¬ ro.deletes x) (he : ∀ x, ¬ ro.expires x) : ChunkTimed t := by
  intro x hx
  rcases hsub x hx with hshown | hxs
  · exact .inl hshown
  rcases h x hxs with ⟨p, hp, hg, hcount⟩ | hdeletes | hexpires
  · by_cases hk : x.key = k
    · exact absurd hcount (hempty p (hk ▸ hp))
    · exact .inl ⟨p, by rw [hact _ hk]; exact hp, hg, hcount⟩
  · exact .inr (.inl (hdeletes.set hi (fun h => absurd h (hd x)) hagents))
  · exact .inr (.inr (hexpires.set hi (fun h => absurd h (he x)) hagents))

theorem swap (h : ChunkTimed s) (hinv : Inv s) {i : ℕ} {l : Option (K × ℕ)}
    {old : Option (Pointer M)} {g : ℕ} {pieces : List V} (info : M)
    (hi : s.agents[i]? = some ⟨l, .staging k old g pieces pieces.length⟩)
    (hinf : s.Informed i) :
    ChunkTimed (match Store.replaced k old g with
      | none => (s.publish ⟨k, g, pieces, info⟩).setRole i l .idle
      | some r => (s.publish ⟨k, g, pieces, info⟩).retire i l r) := by
  have hact : ∀ k', k' ≠ k → (s.publish ⟨k, g, pieces, info⟩).active k' = s.active k' :=
    fun k' hk' => Function.update_of_ne hk' _ _
  -- the only pieces that lose their expiry are shown
  have hsub : ∀ x, (s.publish ⟨k, g, pieces, info⟩).Bare x →
      (s.publish ⟨k, g, pieces, info⟩).Shows x.key x.generation ∨ s.Bare x := by
    rintro x ⟨e, he, hdl⟩
    by_cases hx : ∃ j < pieces.length, x = ⟨k, g, j⟩
    · obtain ⟨j, hj, rfl⟩ := hx
      exact .inl ⟨⟨g, pieces.length, info⟩, Function.update_self .., rfl, Nat.zero_lt_of_lt hj⟩
    · refine .inr ⟨e, (persistAll_ne _ _ _ fun j hj heq => hx ⟨j, hj, heq⟩).symm.trans he, hdl⟩
  rcases hrep : Store.replaced k old g with _ | r
  · refine h.moveOn hi (k := k) (fun p hp hcount => ?_) rfl hact hsub (fun x hx => hx)
      (fun x hx => hx)
    rw [hinv.replaced_of_informed hi hinf hp hcount] at hrep
    cases hrep
  · refine h.retire hinv hi (k := k) (fun p hp hcount => ?_) rfl hact hsub (fun x hx => hx)
      (fun x hx => hx)
    rw [hinv.replaced_of_informed hi hinf hp hcount] at hrep
    exact (Option.some.inj hrep).symm

theorem remove (h : ChunkTimed s) (hinv : Inv s) {i : ℕ} {l : Option (K × ℕ)}
    (hi : s.agents[i]? = some ⟨l, .idle⟩) :
    ChunkTimed (match (s.active k).bind fun p => p.retired k with
      | none => { s with active := Function.update s.active k none }
      | some r => { s with active := Function.update s.active k none }.retire i l r) := by
  have hact : ∀ k', k' ≠ k → Function.update s.active k none k' = s.active k' :=
    fun k' hk' => Function.update_of_ne hk' _ _
  rcases hrep : (s.active k).bind fun p => p.retired k with _ | r
  · have hset : s.agents = s.agents.set i ⟨l, .idle⟩ := (set_of_getElem? hi).symm
    refine h.moveOn hi (k := k) (fun p hp hcount => ?_) hset hact (fun x hx => .inr hx)
      (fun x hx => hx) (fun x hx => hx)
    rw [Inv.retired_of_active hp hcount] at hrep
    cases hrep
  · refine h.retire hinv hi (k := k) (fun p hp hcount => ?_) rfl hact (fun x hx => .inr hx)
      (fun x hx => hx) (fun x hx => hx)
    rw [Inv.retired_of_active hp hcount] at hrep
    exact (Option.some.inj hrep).symm

theorem clean (h : ChunkTimed s) {i : ℕ} {l : Option (K × ℕ)} {g n j : ℕ} {applied : Bool}
    (hi : s.agents[i]? = some ⟨l, .cleaning k g n j⟩)
    (hok : s.Protected (.clean i applied)) :
    ChunkTimed ({ s with
        chunks := if applied then s.chunks.del ⟨k, g, j⟩ else s.chunks }.setRole i l
      (if j + 1 < n then .cleaning k g n (j + 1) else .idle)) := by
  have hsub : ∀ x e, (if applied then s.chunks.del ⟨k, g, j⟩ else s.chunks) x = some e →
      s.chunks x = some e ∧ (applied = true → x ≠ ⟨k, g, j⟩) := by
    intro x e he
    split at he
    · exact ⟨(ExpiringMap.del_eq_some he).2, fun _ => (ExpiringMap.del_eq_some he).1⟩
    · next hno => exact ⟨he, fun h => absurd h hno⟩
  refine h.frame hi rfl rfl ?_ ?_ (fun x _ hx => hx.elim)
  · rintro x ⟨e, he, hdl⟩
    exact ⟨e, (hsub x e he).1, hdl⟩
  · rintro x ⟨e, he, hdl⟩ ⟨hk, hg, hge, hlt⟩
    have hne : x.index ≠ j := by
      intro hj
      have hx : x = ⟨k, g, j⟩ := by rw [← hk, ← hg, ← hj]
      rcases hok with happ | hbare
      · exact (hsub x e he).2 happ hx
      · exact hbare l k g n j hi ⟨e, by rw [← hx]; exact (hsub x e he).1, hdl⟩
    rw [if_pos (by omega)]
    exact ⟨hk, hg, by omega, hlt⟩

theorem expire (h : ChunkTimed s) {i : ℕ} {l : Option (K × ℕ)} {g n j : ℕ} {applied : Bool}
    (d : ℕ) (hi : s.agents[i]? = some ⟨l, .expiring k g n j⟩)
    (hok : s.Protected (.expire i applied)) :
    ChunkTimed ({ s with
        chunks := if applied then s.chunks.expire s.now ⟨k, g, j⟩ d else s.chunks }.setRole i l
      (if j + 1 < n then .expiring k g n (j + 1) else .idle)) := by
  have hsub : ∀ x, Store.Bare { s with
      chunks := if applied then s.chunks.expire s.now ⟨k, g, j⟩ d else s.chunks } x →
      s.Bare x ∧ (applied = true → x ≠ ⟨k, g, j⟩) := by
    rintro x ⟨e, he, hdl⟩
    dsimp only at he
    split at he
    · by_cases hx : x = ⟨k, g, j⟩
      · rw [hx] at he
        exact absurd hdl (ExpiringMap.deadline_of_expire he)
      · rw [ExpiringMap.expire_ne _ _ _ hx] at he
        exact ⟨⟨e, he, hdl⟩, fun _ => hx⟩
    · next hno => exact ⟨⟨e, he, hdl⟩, fun h => absurd h hno⟩
  refine h.frame hi rfl rfl (fun x hx => (hsub x hx).1) (fun x _ hx => hx.elim) ?_
  rintro x hb ⟨hk, hg, hge, hlt⟩
  have hne : x.index ≠ j := by
    intro hj
    have hx : x = ⟨k, g, j⟩ := by rw [← hk, ← hg, ← hj]
    rcases hok with happ | hbare
    · exact (hsub x hb).2 happ hx
    · exact hbare l k g n j hi (by rw [← hx]; exact (hsub x hb).1)
  rw [if_pos (by omega)]
  exact ⟨hk, hg, by omega, hlt⟩

/-- **Nothing stays for good** that no pointer shows, as long as nothing goes wrong while a piece
without an expiry depends on it. -/
theorem step (h : ChunkTimed s) (hinv : Inv s) {label : Label} (hok : s.Protected label)
    (hs : Step s label t) : ChunkTimed t := by
  cases hs with
  | @write i l k old g pieces j v d hi hv =>
    refine h.frame hi rfl rfl ?_ (fun x _ hx => hx.elim) (fun x _ hx => hx.elim)
    rintro x ⟨e, he, hdl⟩
    change s.chunks.set ⟨k, g, j⟩ v (some d) x = some e at he
    by_cases hx : x = ⟨k, g, j⟩
    · rw [hx, ExpiringMap.set_self] at he
      obtain rfl := Option.some.inj he
      cases hdl
    · exact ⟨e, (ExpiringMap.set_ne _ _ _ hx).symm.trans he, hdl⟩
  | swap info hi _ => exact h.swap hinv info hi hok
  | clean applied hi => exact h.clean hi hok
  | expire applied d hi => exact h.expire d hi hok
  | remove hi => exact h.remove hinv hi
  | spawn =>
    intro x hx
    rcases h x hx with hshown | hdeletes | hexpires
    · exact .inl hshown
    · exact .inr (.inl (hdeletes.append rfl))
    · exact .inr (.inr (hexpires.append rfl))
  | newID => exact h
  | tick d => exact h
  | crash =>
    intro x hx
    rcases h x hx with hshown | hdeletes | hexpires
    · exact .inl hshown
    · exact absurd hdeletes (hok x hx).1
    · exact absurd hexpires (hok x hx).2
  | @unpin i l hi =>
    have hkept : (s.unpin l).1.active = s.active ∧ (s.unpin l).1.chunks = s.chunks ∧
        (s.unpin l).1.agents = s.agents := by
      unfold Store.unpin
      split <;> exact ⟨rfl, rfl, rfl⟩
    have hset : ∀ r : Role K V M, ((s.unpin l).1.setRole i none r).agents =
        s.agents.set i ⟨none, r⟩ := by
      intro r
      rw [← hkept.2.2]
      rfl
    refine h.frame hi (hset _) hkept.1 ?_ (fun x _ hx => hx.elim) (fun x _ hx => hx.elim)
    rintro x ⟨e, he, hdl⟩
    exact ⟨e, hkept.2.1 ▸ he, hdl⟩
  | load hi _ | drop hi | stage _ hi | abandon hi | pin hi _ _ =>
    exact h.frame hi rfl rfl (fun x hx => hx) (fun x _ hx => hx.elim) (fun x _ hx => hx.elim)

end ChunkTimed

end GenerationStore
