import IptvProxy.Vpn.System

/-!
# At most one tunnel

A connect operation stops the other tunnels before it starts its own, and holds the lock from its
check to its end. A rotation does not hold it: it stops WARP, renews the registration and connects
WARP again, and in between a connect operation finds no tunnel (`two_tunnels`). Apart from that,
and from a stop command that fails on a running tunnel, there is at most one tunnel
(`at_most_one_tunnel`).
-/

namespace IptvProxy.Vpn

open Agents Effect Transition

/-- A connect operation is about to stop tunnel `u`, which is not its own. -/
def Thread.Clears (t : Thread) (u : Tunnel) : Prop :=
  ∃ own k, t.request.target = some own ∧ u ≠ own ∧ t.program = .call (.stop u) k

/-- When a connect operation stops the other tunnels, the command does not fail on a running one,
and when it stops WARP, no rotation is going to connect it again. -/
def Orderly (s : System) : Action → Prop
  | .run i answer => ∀ t u, s.threads[i]? = some t → t.Clears u →
    (s.shared.level u = .down ∨ (answer (.stop u)).error = none ∨ (answer (.stop u)).down = true) ∧
      (u = .warp → ∀ v ∈ s.threads, v.phase ≠ .rotating)
  | _ => True

/-! ## What a command does to the tunnels and to the lock -/

section Effect

variable {i : ℕ} {s s' : State} {t u : Tunnel} {c : Cmd} {x : c.Answer}

theorem State.look_level {seen : Bool} (h : s.look t seen = some s') :
    s'.level = s.level ∧ s'.holder = s.holder ∧ (seen = true → s.level t = .up) := by
  rw [State.look] at h
  split at h
  · cases h
  · next hup =>
    obtain rfl := Option.some.inj h
    exact ⟨rfl, rfl, fun hseen => by_contra fun hl => hup ⟨hseen, hl⟩⟩

theorem State.stop_level {x : Stopped} (hu : s.level u = .down) : (s.stop t x).level u = .down := by
  rw [State.stop]
  split
  · change (if u = t then _ else _) = _
    split
    · rfl
    · exact hu
  · exact hu

theorem State.stop_holder {x : Stopped} : (s.stop t x).holder = s.holder := by
  rw [State.stop]
  split <;> rfl

/-- A stop command that works. -/
theorem State.stop_down {x : Stopped} (h : s.level t = .down ∨ x.error = none ∨ x.down = true) :
    (s.stop t x).level t = .down := by
  rcases h with h | h
  · exact State.stop_level h
  · rw [State.stop, if_pos h]
    exact if_pos rfl

/-- The commands that leave the tunnels as they are; all but two also leave the lock. -/
theorem effect_frame (h : effect i s c x = some s') (hstop : ∀ t, c ≠ .stop t)
    (hstart : ∀ t, c ≠ .start t) :
    s'.level = s.level ∧ (c ≠ .enter → c ≠ .leave → s'.holder = s.holder) := by
  cases c with
  | stop t => exact absurd rfl (hstop t)
  | start t => exact absurd rfl (hstart t)
  | isConnectionActive t => exact ⟨(State.look_level h).1, fun _ _ => (State.look_level h).2.1⟩
  | warpStatus => exact ⟨(State.look_level h).1, fun _ _ => (State.look_level h).2.1⟩
  | enter =>
    rw [effect] at h
    split at h <;> obtain rfl := Option.some.inj h <;> exact ⟨rfl, fun h => absurd rfl h⟩
  | leave =>
    obtain rfl := Option.some.inj h
    exact ⟨rfl, fun _ h => absurd rfl h⟩
  | getSettings =>
    cases x with
    | error => obtain rfl := Option.some.inj h; exact ⟨rfl, fun _ _ => rfl⟩
    | ok settings =>
      rw [effect] at h
      split at h
      · obtain rfl := Option.some.inj h; exact ⟨rfl, fun _ _ => rfl⟩
      · cases h
  | updateVpnState patch =>
    cases x <;> obtain rfl := Option.some.inj h <;> exact ⟨rfl, fun _ _ => rfl⟩
  | openvpnPoll =>
    cases x with
    | ready =>
      rw [effect] at h
      split at h
      · obtain rfl := Option.some.inj h; exact ⟨rfl, fun _ _ => rfl⟩
      · cases h
    | _ => obtain rfl := Option.some.inj h; exact ⟨rfl, fun _ _ => rfl⟩
  | wait =>
    rw [effect] at h
    split at h
    · obtain rfl := Option.some.inj h; exact ⟨rfl, fun _ _ => rfl⟩
    · cases h
  | isBusy =>
    rw [effect] at h
    split at h
    · obtain rfl := Option.some.inj h; exact ⟨rfl, fun _ _ => rfl⟩
    · cases h
  | _ => obtain rfl := Option.some.inj h; exact ⟨rfl, fun _ _ => rfl⟩

/-- A start command brings no other tunnel up. -/
theorem State.start_level {x : Started} (htu : t ≠ u) (hu : s.level u = .down) :
    (s.start t x).level u = .down := by
  rw [State.start]
  split
  · exact (if_neg (Ne.symm htu)).trans hu
  · exact hu

theorem State.start_holder {x : Started} : (s.start t x).holder = s.holder := by
  rw [State.start]
  split <;> rfl

end Effect

/-- What a look at WARP makes of a phase. -/
theorem Phase.next_warpStatus {r : Request} {p : Phase} {x : WarpStatus} :
    p.next r .warpStatus x = p ∨ (∃ n, p.next r .warpStatus x = .looked n) ∨
      p.next r .warpStatus x = .rotating ∧ x.connected = true := by
  cases p with
  | looked n =>
    simp only [Phase.next]
    split
    · next hx => exact .inr (.inr ⟨rfl, hx.2.2⟩)
    · exact .inr (.inl ⟨n + 1, rfl⟩)
  | rotating => exact .inl rfl
  | locked cleared => exact .inl rfl

/-! ## The invariant -/

/-- What a request may count on. -/
structure Thread.Ok (level : Tunnel → Level) (t : Thread) : Prop where
  /-- what a connect operation has stopped stays down, but for its own tunnel -/
  cleared : ∀ cleared own, t.phase = .locked cleared → t.request.target = some own →
    ∀ u ∈ cleared, u ≠ own → level u = .down
  /-- a rotation that is going to connect WARP finds the other tunnels down -/
  rotating : t.phase = .rotating → ∀ u, u ≠ .warp → level u = .down

/-- The request has stopped WARP to bring another tunnel up. -/
def Thread.NeedsWarpDown (t : Thread) : Prop :=
  ∃ cleared own, t.phase = .locked cleared ∧ t.request.target = some own ∧ .warp ∈ cleared ∧
    own ≠ .warp

/-- The invariant. -/
structure System.Inv (s : System) : Prop where
  /-- every request keeps to its discipline -/
  follows : ∀ t ∈ s.threads, Follows (discipline t.request) t.program t.phase
    (fun _ _ => True) (fun _ _ => True)
  /-- who is in the phase with the lock has it -/
  holder : ∀ (i : ℕ) t cleared, s.threads[i]? = some t → t.phase = .locked cleared →
    s.shared.holder = some i
  /-- at most one tunnel is up or on its way -/
  one : ∀ t u, s.shared.level t ≠ .down → s.shared.level u ≠ .down → t = u
  /-- each request -/
  ok : ∀ t ∈ s.threads, t.Ok s.shared.level
  /-- no rotation reconnects while another tunnel is brought up -/
  apart : ∀ t ∈ s.threads, t.phase = .rotating → ∀ u ∈ s.threads, ¬u.NeedsWarpDown

variable {s : System} {shared : State} {i : ℕ} {t : Thread} {p : Phase} {m : Op Result}

/-- The tunnels that are down stay down. -/
theorem Thread.Ok.mono {level level' : Tunnel → Level} (h : t.Ok level)
    (hlevel : ∀ u, level u = .down → level' u = .down) : t.Ok level' :=
  ⟨fun cleared own hp ht u hu hne => hlevel u (h.cleared cleared own hp ht u hu hne),
    fun hp u hu => hlevel u (h.rotating hp u hu)⟩

namespace System.Inv

/-- Request `i` goes on to phase `p`. -/
theorem set (h : s.Inv) (hi : s.threads[i]? = some t)
    (hfollows : Follows (discipline t.request) m p (fun _ _ => True) (fun _ _ => True))
    (hholder : ∀ (j : ℕ) u cleared, (s.threads.set i ⟨t.request, p, m⟩)[j]? = some u →
      u.phase = .locked cleared → shared.holder = some j)
    (hone : ∀ t u, shared.level t ≠ .down → shared.level u ≠ .down → t = u)
    (hothers : ∀ (j : ℕ) u, j ≠ i → s.threads[j]? = some u → u.Ok shared.level)
    (hok : Thread.Ok shared.level ⟨t.request, p, m⟩)
    (hrotating : p = .rotating → ∀ u ∈ s.threads, ¬u.NeedsWarpDown)
    (hneeds : Thread.NeedsWarpDown ⟨t.request, p, m⟩ → ∀ u ∈ s.threads, u.phase ≠ .rotating) :
    System.Inv ⟨shared, s.threads.set i ⟨t.request, p, m⟩⟩ where
  follows := forall_mem_set h.follows hfollows
  holder := hholder
  one := hone
  ok u hu := by
    obtain ⟨j, hj⟩ := List.mem_iff_getElem?.mp hu
    rcases getElem?_set_cases hj with ⟨rfl, rfl⟩ | ⟨hji, hj⟩
    · exact hok
    · exact hothers j u hji hj
  apart v hv hrot w hw hneed := by
    rcases List.mem_or_eq_of_mem_set hv with hv | rfl
    · rcases List.mem_or_eq_of_mem_set hw with hw | rfl
      · exact h.apart v hv hrot w hw hneed
      · exact hneeds hneed v hv hrot
    · rcases List.mem_or_eq_of_mem_set hw with hw | rfl
      · exact hrotating hrot w hw hneed
      · obtain ⟨cleared, own, hlocked, -⟩ := hneed
        exact absurd (hlocked.symm.trans hrot) (by rintro ⟨⟩)

/-- The same for a command that starts no tunnel. -/
theorem keep (h : s.Inv) (hi : s.threads[i]? = some t)
    (hfollows : Follows (discipline t.request) m p (fun _ _ => True) (fun _ _ => True))
    (hholder : ∀ (j : ℕ) u cleared, (s.threads.set i ⟨t.request, p, m⟩)[j]? = some u →
      u.phase = .locked cleared → shared.holder = some j)
    (hlevel : ∀ u, s.shared.level u = .down → shared.level u = .down)
    (hok : Thread.Ok shared.level ⟨t.request, p, m⟩)
    (hrotating : p = .rotating → ∀ u ∈ s.threads, ¬u.NeedsWarpDown)
    (hneeds : Thread.NeedsWarpDown ⟨t.request, p, m⟩ → ∀ u ∈ s.threads, u.phase ≠ .rotating) :
    System.Inv ⟨shared, s.threads.set i ⟨t.request, p, m⟩⟩ :=
  h.set hi hfollows hholder
    (fun t u ht hu => h.one t u (fun hd => ht (hlevel t hd)) fun hd => hu (hlevel u hd))
    (fun _ u _ hj => (h.ok u (List.mem_of_getElem? hj)).mono hlevel) hok hrotating hneeds

/-- The same in a phase that claims nothing new. -/
theorem rest (h : s.Inv) (hi : s.threads[i]? = some t)
    (hfollows : Follows (discipline t.request) m p (fun _ _ => True) (fun _ _ => True))
    (hp : p = t.phase ∨ ∃ n, p = .looked n)
    (hholder : ∀ (j : ℕ) u cleared, (s.threads.set i ⟨t.request, p, m⟩)[j]? = some u →
      u.phase = .locked cleared → shared.holder = some j)
    (hlevel : ∀ u, s.shared.level u = .down → shared.level u = .down) :
    System.Inv ⟨shared, s.threads.set i ⟨t.request, p, m⟩⟩ := by
  have hmem := List.mem_of_getElem? hi
  rcases hp with rfl | ⟨n, rfl⟩
  · refine h.keep hi hfollows hholder hlevel ?_ (h.apart t hmem) ?_
    · exact ⟨((h.ok t hmem).mono hlevel).cleared, ((h.ok t hmem).mono hlevel).rotating⟩
    · exact fun hneed u hu hrot => h.apart u hu hrot t hmem hneed
  · refine h.keep hi hfollows hholder hlevel ⟨?_, ?_⟩ ?_ ?_
    · rintro _ _ ⟨⟩
    · rintro ⟨⟩
    · rintro ⟨⟩
    · rintro ⟨cleared, own, ⟨⟩, -⟩

/-- The lock, if the command does not deal with it. -/
theorem holder_set (h : s.Inv) (hshared : shared.holder = s.shared.holder)
    (hp : ∀ cleared, p = .locked cleared → s.shared.holder = some i) (j : ℕ) (u : Thread)
    (cleared : List Tunnel) (hj : (s.threads.set i ⟨t.request, p, m⟩)[j]? = some u)
    (hu : u.phase = .locked cleared) : shared.holder = some j := by
  rw [hshared]
  rcases getElem?_set_cases hj with ⟨rfl, rfl⟩ | ⟨-, hj⟩
  · exact hp cleared hu
  · exact h.holder j u cleared hj hu

variable {answer : (c : Cmd) → c.Answer} {c : Cmd} {k : c.Answer → Op Result}

/-- The commands of the lock. -/
theorem enter (h : s.Inv) (hi : s.threads[i]? = some t)
    (hfollows : Follows (discipline t.request) m t.phase (fun _ _ => True) (fun _ _ => True))
    (heffect : effect i s.shared .enter () = some shared) :
    System.Inv ⟨shared, s.threads.set i ⟨t.request, t.phase, m⟩⟩ := by
  have hlevel := (effect_frame heffect (fun t => by rintro ⟨⟩) fun t => by rintro ⟨⟩).1
  refine h.rest hi hfollows (.inl rfl) ?_ fun u hu => by rw [hlevel]; exact hu
  rw [effect] at heffect
  split at heffect
  · next hfree =>
    -- the lock is free, so nobody is in the phase with it
    intro j u cleared hj hu
    rcases getElem?_set_cases hj with ⟨rfl, rfl⟩ | ⟨-, hj⟩
    · rw [h.holder j t cleared hi hu] at hfree
      cases hfree
    · rw [h.holder j u cleared hj hu] at hfree
      cases hfree
  · obtain rfl := Option.some.inj heffect
    exact h.holder_set rfl fun cleared hp => h.holder i t cleared hi hp

theorem wait (h : s.Inv) (hi : s.threads[i]? = some t)
    (hfollows : Follows (discipline t.request) m (.locked []) (fun _ _ => True) (fun _ _ => True))
    (heffect : effect i s.shared .wait () = some shared) :
    System.Inv ⟨shared, s.threads.set i ⟨t.request, .locked [], m⟩⟩ := by
  rw [effect] at heffect
  split at heffect
  · next hfree =>
    obtain rfl := Option.some.inj heffect
    refine h.keep hi hfollows (h.holder_set rfl fun _ _ => hfree) (fun _ hu => hu) ⟨?_, ?_⟩ ?_ ?_
    · rintro _ _ ⟨⟩ _ u hu
      cases hu
    · rintro ⟨⟩
    · rintro ⟨⟩
    · rintro ⟨cleared, own, ⟨⟩, -, hmem, -⟩
      cases hmem
  · cases heffect

theorem leave (h : s.Inv) (hi : s.threads[i]? = some t)
    (hallowed : ∃ cleared, t.phase = .locked cleared)
    (hfollows : Follows (discipline t.request) m (.looked 0) (fun _ _ => True) (fun _ _ => True))
    (heffect : effect i s.shared .leave () = some shared) :
    System.Inv ⟨shared, s.threads.set i ⟨t.request, .looked 0, m⟩⟩ := by
  obtain ⟨mine, hmine⟩ := hallowed
  obtain rfl := Option.some.inj heffect
  refine h.rest hi hfollows (.inr ⟨0, rfl⟩) ?_ fun _ hu => hu
  -- this request has the lock, so no other is in the phase with it
  intro j u cleared hj hu
  rcases getElem?_set_cases hj with ⟨rfl, rfl⟩ | ⟨hji, hj⟩
  · cases hu
  · have hboth := (h.holder i t mine hi hmine).symm.trans (h.holder j u cleared hj hu)
    exact absurd (Option.some.inj hboth).symm hji

/-- A connect operation stops a tunnel. -/
theorem stop (h : s.Inv) (hi : s.threads[i]? = some t) {u own : Tunnel} {x : Stopped}
    {cleared : List Tunnel} (hp : t.phase = .locked cleared) (ht : t.request.target = some own)
    (hfollows : Follows (discipline t.request) m (.locked (u :: cleared)) (fun _ _ => True)
      (fun _ _ => True))
    (hstopped : u ≠ own → s.shared.level u = .down ∨ x.error = none ∨ x.down = true)
    (hapart : u ≠ own → u = .warp → ∀ v ∈ s.threads, v.phase ≠ .rotating) :
    System.Inv ⟨s.shared.stop u x, s.threads.set i ⟨t.request, .locked (u :: cleared), m⟩⟩ := by
  have hmem := List.mem_of_getElem? hi
  have hdown : ∀ v, s.shared.level v = .down → (s.shared.stop u x).level v = .down :=
    fun v hv => State.stop_level hv
  refine h.keep hi hfollows (h.holder_set State.stop_holder fun _ _ => h.holder i t cleared hi hp)
    hdown ⟨?_, ?_⟩ ?_ ?_
  · rintro _ own' ⟨⟩ hown v hv hne
    obtain rfl := Option.some.inj (ht.symm.trans hown)
    rcases List.mem_cons.mp hv with rfl | hv
    · exact State.stop_down (hstopped hne)
    · exact hdown v ((h.ok t hmem).cleared cleared own hp ht v hv hne)
  · rintro ⟨⟩
  · rintro ⟨⟩
  · rintro ⟨_, own', ⟨⟩, hown, hwarp, hne⟩
    obtain rfl := Option.some.inj (ht.symm.trans hown)
    rcases List.mem_cons.mp hwarp with rfl | hwarp
    · exact hapart (Ne.symm hne) rfl
    · exact fun v hv hrot => h.apart v hv hrot t hmem ⟨cleared, own, hp, ht, hwarp, hne⟩

/-- A request starts a tunnel, and no other is up. -/
theorem start (h : s.Inv) (hi : s.threads[i]? = some t) {own : Tunnel} {x : Started}
    (hp : p = t.phase ∨ ∃ n, p = .looked n)
    (hfollows : Follows (discipline t.request) m p (fun _ _ => True) (fun _ _ => True))
    (hdown : ∀ u, u ≠ own → s.shared.level u = .down)
    (hokay : ∀ (j : ℕ) u, s.threads[j]? = some u → u.Ok (s.shared.start own x).level) :
    System.Inv ⟨s.shared.start own x, s.threads.set i ⟨t.request, p, m⟩⟩ := by
  have hmem := List.mem_of_getElem? hi
  have hothers : ∀ u, u ≠ own → (s.shared.start own x).level u = .down :=
    fun u hu => State.start_level (Ne.symm hu) (hdown u hu)
  have hown : ∀ u, (s.shared.start own x).level u ≠ .down → u = own :=
    fun u hu => by_contra fun hne => hu (hothers u hne)
  have hlock : ∀ cleared, p = .locked cleared → s.shared.holder = some i := by
    rintro cleared rfl
    rcases hp with hp | ⟨n, ⟨⟩⟩
    exact h.holder i t cleared hi hp.symm
  refine h.set hi hfollows (h.holder_set State.start_holder hlock) ?_ (fun j u _ hj => hokay j u hj)
    ?_ ?_ ?_
  · exact fun u v hu hv => (hown u hu).trans (hown v hv).symm
  · rcases hp with rfl | ⟨n, rfl⟩
    · exact ⟨(hokay i t hi).cleared, (hokay i t hi).rotating⟩
    · exact ⟨fun _ _ h => (by cases h), fun h => by cases h⟩
  · rcases hp with rfl | ⟨n, rfl⟩
    · exact h.apart t hmem
    · rintro ⟨⟩
  · rcases hp with rfl | ⟨n, rfl⟩
    · exact fun hneed u hu hrot => h.apart u hu hrot t hmem hneed
    · rintro ⟨cleared, own, ⟨⟩, -⟩

/-- A rotation starts WARP. -/
theorem startRotating (h : s.Inv) (hi : s.threads[i]? = some t) {x : Started}
    (hp : t.phase = .rotating)
    (hfollows : Follows (discipline t.request) m (.looked 3) (fun _ _ => True) (fun _ _ => True)) :
    System.Inv ⟨s.shared.start .warp x, s.threads.set i ⟨t.request, .looked 3, m⟩⟩ := by
  have hmem := List.mem_of_getElem? hi
  have hdown := (h.ok t hmem).rotating hp
  refine h.start hi (.inr ⟨3, rfl⟩) hfollows hdown fun j u hj => ⟨?_, fun _ v hv => ?_⟩
  · intro cleared own hlocked hown v hv hne
    have humem := List.mem_of_getElem? hj
    refine State.start_level ?_ ((h.ok u humem).cleared cleared own hlocked hown v hv hne)
    -- a connect operation that has stopped WARP for another tunnel is apart from rotations
    rintro rfl
    exact h.apart t hmem hp u humem ⟨cleared, own, hlocked, hown, hv, Ne.symm hne⟩
  · exact State.start_level (Ne.symm hv) (hdown v hv)

/-- A connect operation starts its tunnel. -/
theorem startOwn (h : s.Inv) (hi : s.threads[i]? = some t) {own : Tunnel} {x : Started}
    {cleared : List Tunnel} (hp : t.phase = .locked cleared) (ht : t.request.target = some own)
    (hready : ∀ u, u ≠ own → u ∈ cleared)
    (hfollows : Follows (discipline t.request) m t.phase (fun _ _ => True) (fun _ _ => True)) :
    System.Inv ⟨s.shared.start own x, s.threads.set i ⟨t.request, t.phase, m⟩⟩ := by
  have hmem := List.mem_of_getElem? hi
  have hdown : ∀ u, u ≠ own → s.shared.level u = .down :=
    fun u hu => (h.ok t hmem).cleared cleared own hp ht u (hready u hu) hu
  refine h.start hi (.inl rfl) hfollows hdown fun j u hj => ⟨?_, fun hrot v hv => ?_⟩
  · intro cleared' own' hlocked hown v hv hne
    -- only the operation itself has the lock
    have hji := Option.some.inj
      ((h.holder j u cleared' hj hlocked).symm.trans (h.holder i t cleared hi hp))
    subst hji
    obtain rfl := Option.some.inj (hj.symm.trans hi)
    obtain rfl := Option.some.inj (ht.symm.trans hown)
    exact State.start_level (Ne.symm hne) (hdown v hne)
  · have humem := List.mem_of_getElem? hj
    by_cases hwarp : own = .warp
    · subst hwarp
      exact State.start_level (Ne.symm hv) (hdown v hv)
    · exact absurd ⟨cleared, own, hp, ht, hready .warp (Ne.symm hwarp), hwarp⟩
        (h.apart u humem hrot t hmem)

/-- A look at WARP. -/
theorem look (h : s.Inv) (hi : s.threads[i]? = some t) {x : WarpStatus}
    (hfollows : Follows (discipline t.request) m (t.phase.next t.request .warpStatus x)
      (fun _ _ => True) (fun _ _ => True))
    (heffect : effect i s.shared .warpStatus x = some shared) :
    System.Inv ⟨shared, s.threads.set i ⟨t.request, t.phase.next t.request .warpStatus x, m⟩⟩ := by
  obtain ⟨hlevel, hlock, hup⟩ := State.look_level heffect
  have hsame : ∀ u, s.shared.level u = .down → shared.level u = .down :=
    fun u hu => by rw [hlevel]; exact hu
  have hmem := List.mem_of_getElem? hi
  have hrest : t.phase.next t.request .warpStatus x = t.phase ∨
      (∃ n, t.phase.next t.request .warpStatus x = .looked n) →
      System.Inv ⟨shared, s.threads.set i ⟨t.request, t.phase.next t.request .warpStatus x, m⟩⟩ := by
    refine fun hp => h.rest hi hfollows hp (h.holder_set hlock fun cleared hc => ?_) hsame
    rcases hp with hp | ⟨n, hp⟩
    · exact h.holder i t cleared hi (hp.symm.trans hc)
    · rw [hp] at hc
      cases hc
  rcases Phase.next_warpStatus with hp | hp | ⟨hp, hconnected⟩
  · exact hrest (.inl hp)
  · exact hrest (.inr hp)
  · have hothers : ∀ u, u ≠ .warp → s.shared.level u = .down := by
      intro u hu
      by_contra hl
      exact hu (h.one u .warp hl (by rw [hup hconnected]; rintro ⟨⟩))
    rw [hp] at hfollows ⊢
    refine h.keep hi hfollows (h.holder_set hlock fun _ h => by cases h) hsame ⟨?_, ?_⟩ ?_ ?_
    · rintro _ _ ⟨⟩
    · exact fun _ u hu => hsame u (hothers u hu)
    · -- WARP is up, so nobody has stopped it for another tunnel
      rintro - u hu ⟨cleared, own, hlocked, hown, hwarp, hne⟩
      have hd := (h.ok u hu).cleared cleared own hlocked hown .warp hwarp (Ne.symm hne)
      rw [hup hconnected] at hd
      cases hd
    · rintro ⟨cleared, own, ⟨⟩, -⟩

/-- A request stops a tunnel. -/
theorem stopAny (h : s.Inv) (hi : s.threads[i]? = some t) {answer : (c : Cmd) → c.Answer}
    (ha : Orderly s (.run i answer)) {u : Tunnel} {k : Stopped → Op Result}
    (hprogram : t.program = .call (.stop u) k)
    (hfollows : Follows (discipline t.request) m
      (t.phase.next t.request (.stop u) (answer (.stop u))) (fun _ _ => True) (fun _ _ => True)) :
    System.Inv ⟨s.shared.stop u (answer (.stop u)),
      s.threads.set i ⟨t.request, t.phase.next t.request (.stop u) (answer (.stop u)), m⟩⟩ := by
  have hkeep : t.phase.next t.request (.stop u) (answer (.stop u)) = t.phase →
      System.Inv ⟨s.shared.stop u (answer (.stop u)),
        s.threads.set i ⟨t.request, t.phase.next t.request (.stop u) (answer (.stop u)), m⟩⟩ := by
    refine fun hp => h.rest hi hfollows (.inl hp) (h.holder_set State.stop_holder ?_) ?_
    · exact fun cleared hc => h.holder i t cleared hi (hp.symm.trans hc)
    · exact fun v hv => State.stop_level hv
  cases hp : t.phase with
  | looked n => exact hp ▸ hkeep (by rw [hp]; rfl)
  | rotating => exact hp ▸ hkeep (by rw [hp]; rfl)
  | locked cleared =>
    rcases ht : t.request.target with _ | own
    · have hsame : Phase.next t.request (.locked cleared) (.stop u) (answer (.stop u)) =
          .locked cleared := if_pos ht
      exact hp ▸ hkeep (by rw [hp, hsame])
    · have hmore : Phase.next t.request (.locked cleared) (.stop u) (answer (.stop u)) =
          .locked (u :: cleared) := if_neg (by rw [ht]; rintro ⟨⟩)
      rw [hp, hmore] at hfollows
      rw [hmore]
      have horderly : u ≠ own → _ := fun hne => ha t u hi ⟨own, k, ht, hne, hprogram⟩
      exact h.stop hi hp ht hfollows (fun hne => (horderly hne).1) fun hne => (horderly hne).2

/-- **One command** of a request keeps the invariant. -/
theorem run (h : s.Inv) (hi : s.threads[i]? = some t) {answer : (c : Cmd) → c.Answer}
    (ha : Orderly s (.run i answer)) {s' : System} (hs : t.step s i answer = some s') : s'.Inv := by
  have hmem := List.mem_of_getElem? hi
  have hfollows := h.follows t hmem
  rw [Thread.step] at hs
  split at hs
  · next c k hprogram =>
    obtain ⟨shared, heffect, rfl⟩ := Option.map_eq_some_iff.mp hs
    rw [hprogram] at hfollows
    obtain ⟨hallowed, hnext⟩ := hfollows
    have hfollows := hnext (answer c) _ rfl
    -- a command that neither deals with the lock nor changes the tunnels
    have hquiet : (∀ u, c ≠ .stop u) → (∀ u, c ≠ .start u) → c ≠ .enter → c ≠ .leave →
        (t.phase.next t.request c (answer c) = t.phase ∨
          ∃ n, t.phase.next t.request c (answer c) = .looked n) →
        System.Inv ⟨shared, s.threads.set i
          ⟨t.request, t.phase.next t.request c (answer c), k (answer c)⟩⟩ := by
      intro hstop hstart henter hleave hp
      obtain ⟨hlevel, hlock⟩ := effect_frame heffect hstop hstart
      refine h.rest hi hfollows hp (h.holder_set (hlock henter hleave) fun cleared hc => ?_)
        fun u hu => by rw [hlevel]; exact hu
      rcases hp with hp | ⟨n, hp⟩
      · exact h.holder i t cleared hi (hp.symm.trans hc)
      · rw [hp] at hc
        cases hc
    cases c with
    | enter => exact h.enter hi hfollows heffect
    | wait => exact h.wait hi hfollows heffect
    | leave => exact h.leave hi hallowed hfollows heffect
    | warpStatus => exact h.look hi hfollows heffect
    | stop u =>
      obtain rfl := Option.some.inj heffect
      exact h.stopAny hi ha hprogram hfollows
    | start u =>
      obtain rfl := Option.some.inj heffect
      rcases hallowed with ⟨hp, rfl⟩ | ⟨cleared, hp, ht, hready⟩
      · have hthree : t.phase.next t.request (.start .warp) (answer (.start .warp)) = .looked 3 :=
          if_pos hp
        rw [hthree] at hfollows ⊢
        exact h.startRotating hi hp hfollows
      · have hsame : t.phase.next t.request (.start u) (answer (.start u)) = t.phase :=
          if_neg (by rw [hp]; rintro ⟨⟩)
        rw [hsame] at hfollows ⊢
        exact h.startOwn hi hp ht hready hfollows
    | log level source category =>
      refine hquiet (by rintro _ ⟨⟩) (by rintro _ ⟨⟩) (by rintro ⟨⟩) (by rintro ⟨⟩) ?_
      simp only [Phase.next]
      split
      · exact .inr ⟨3, rfl⟩
      · exact .inl rfl
    | _ => exact hquiet (by rintro _ ⟨⟩) (by rintro _ ⟨⟩) (by rintro ⟨⟩) (by rintro ⟨⟩) (.inl rfl)
  · cases hs
  · cases hs

/-- **One step** keeps the invariant. -/
theorem step {a : Action} {s' : System} (h : s.Inv) (ha : Orderly s a)
    (hs : Vpn.step s a = some s') : s'.Inv := by
  cases a with
  | run i answer =>
    obtain ⟨t, hi, hs⟩ := Option.bind_eq_some_iff.mp hs
    exact h.run hi ha hs
  | request r rounds =>
    obtain rfl := Option.some.inj hs
    constructor
    · exact forall_mem_append h.follows (follows_program r rounds)
    · intro j u cleared hj hu
      rcases getElem?_append_cases hj with hj | rfl
      · exact h.holder j u cleared hj hu
      · cases hu
    · exact h.one
    · exact forall_mem_append h.ok ⟨fun _ _ h => (by cases h), fun h => by cases h⟩
    · refine forall_mem_append (fun t ht hrot => forall_mem_append (h.apart t ht hrot) ?_) ?_
      · rintro ⟨cleared, own, ⟨⟩, -⟩
      · rintro ⟨⟩
  | settle t up =>
    rw [Vpn.step] at hs
    split at hs
    · next hstarting =>
      obtain rfl := Option.some.inj hs
      -- the tunnel was on its way, so what is down is another one
      have hdown : ∀ u, s.shared.level u = .down →
          (s.shared.setLevel t (if up then .up else .down)).level u = .down := by
        intro u hu
        refine (if_neg ?_).trans hu
        rintro rfl
        rw [hstarting] at hu
        cases hu
      refine ⟨h.follows, h.holder, fun u v hu hv => ?_, fun u hu => (h.ok u hu).mono hdown, h.apart⟩
      exact h.one u v (fun hd => hu (hdown u hd)) fun hd => hv (hdown v hd)
    · cases hs

end System.Inv

/-- The invariant along a run. -/
theorem inv_of_run {settings : Settings} {bypass : List String}
    (h : Run step Orderly ⟨.idle settings bypass, []⟩ s) : s.Inv := by
  refine h.invariant (I := System.Inv) (fun s a s' hs ha hstep => hs.step ha hstep) ?_
  constructor
  · rintro _ ⟨⟩
  · rintro _ _ _ ⟨⟩
  · exact fun t u ht => absurd rfl ht
  · rintro _ ⟨⟩
  · rintro _ ⟨⟩

/-- **At most one tunnel.** In every state of a run in which the stops of connect operations are
orderly, at most one tunnel is up, or on its way. -/
theorem at_most_one_tunnel {settings : Settings} {bypass : List String}
    (h : Run step Orderly ⟨.idle settings bypass, []⟩ s) {t u : Tunnel}
    (ht : s.shared.level t ≠ .down) (hu : s.shared.level u ≠ .down) : t = u :=
  (inv_of_run h).one t u ht hu

/-! ## Scripted runs -/

/-- A line of a script. -/
inductive Move where
  | request (r : Request)
  | turn (i : ℕ)
  | up (t : Tunnel)

/-- What happens at a line. -/
def Move.action (s : System) : Move → Action
  | request r => .request r 1
  | turn i => .run i (truthful s.shared)
  | up t => .settle t true

/-- A test for `Orderly`. -/
def orderly (s : System) : Action → Bool
  | .run i answer =>
    match s.threads[i]?.map Thread.program with
    | some (.call (.stop u) _) =>
      decide ((answer (.stop u)).error = none) && s.threads.all fun v => decide (v.phase ≠ .rotating)
    | _ => true
  | _ => true

theorem orderly_sound (s : System) (a : Action) (h : orderly s a = true) : Orderly s a := by
  cases a with
  | run i answer =>
    rintro t u hi ⟨own, k, -, -, hprogram⟩
    rw [orderly, hi, Option.map_some, hprogram] at h
    obtain ⟨hstop, hrotating⟩ := Bool.and_eq_true_iff.mp h
    refine ⟨.inr (.inl (of_decide_eq_true hstop)), fun _ v hv => ?_⟩
    exact of_decide_eq_true (List.all_eq_true.mp hrotating v hv)
  | _ => trivial

/-- WARP is connected. -/
def warpConnects : List Move :=
  .request .connectWarp :: List.replicate 25 (.turn 0) ++ .up .warp :: List.replicate 7 (.turn 0)

/-- It is the only tunnel that is up. -/
theorem at_most_one_tunnel_warp :
    ∃ s, Run step Orderly ⟨.idle initialSettings [], []⟩ s ∧ s.shared.level .warp = .up ∧
      ∀ t, s.shared.level t ≠ .down → t = .warp := by
  have h : (exec (fun s (m : Move) => if orderly s (m.action s) then step s (m.action s) else none)
      ⟨.idle initialSettings [], []⟩ warpConnects).map (fun s => s.shared.level .warp) =
      some .up := by
    decide +kernel
  obtain ⟨s, hrun, hup⟩ := Run.of_strategy orderly_sound h
  refine ⟨s, hrun, hup, fun t ht => at_most_one_tunnel hrun ht ?_⟩
  rw [hup]
  rintro ⟨⟩

/-! ## The window of a rotation -/

/-- A rotation stops WARP; WireGuard is brought up; the rotation connects WARP. -/
def rotationOverlaps : List Move :=
  warpConnects ++ .request .rotate :: List.replicate 13 (.turn 1) ++
    .request (.connectWireguard "home") :: List.replicate 28 (.turn 2) ++
    List.replicate 4 (.turn 1) ++ [.up .warp]

/-- The test that every step passes. -/
def anyStep (_ : System) (_ : Action) : Bool := true

/-- Then two tunnels are up, although every command works and every look is right. -/
theorem two_tunnels :
    ∃ s, Run step (fun _ _ => True) ⟨.idle initialSettings [], []⟩ s ∧
      s.shared.level .wireguard = .up ∧ s.shared.level .warp = .up := by
  have h : (exec (fun s (m : Move) => if anyStep s (m.action s) then step s (m.action s) else none)
      ⟨.idle initialSettings [], []⟩ rotationOverlaps).map
        (fun s => (s.shared.level .wireguard, s.shared.level .warp)) = some (.up, .up) := by
    decide +kernel
  have hany : ∀ s a, anyStep s a = true → (fun (_ : System) (_ : Action) => True) s a :=
    fun _ _ _ => trivial
  obtain ⟨s, hrun, hup⟩ := Run.of_strategy hany h
  exact ⟨s, hrun, Prod.mk.inj hup⟩

end IptvProxy.Vpn
