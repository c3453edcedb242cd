import IptvProxy.Lib.Interrupted
import IptvProxy.Vpn.Wireguard
import Mathlib.Data.List.Forall2
import Mathlib.Logic.Relation

/-!
# Routes around the tunnel

`RoutingService` of `lib/services/vpn/routing.ts`. Before a tunnel is started, the routes of the
main table are copied into a table of their own, and rules send the replies of the services and the
private networks there.

The rules have places of their own. A place is emptied before it is filled, so that it holds at most
four rules whatever has been cut off before (`Few`), which is as many as are deleted. So after any
number of runs, cut off or not, a run that succeeds leaves exactly its rules (`rules_are_exact`),
and a reply is routed as it was before the tunnel, whatever the main table becomes
(`replies_stay_direct`). This is said of a kernel that deletes what is there and adds what is not:
the service goes on when a deletion, the flush or a copied route fails, and says nothing.
-/

namespace IptvProxy.Vpn.Bypass

open Js Effect Config Forwarding Wireguard

/-! ## The rules -/

/-- Which packets a rule selects. -/
inductive Selector where
  /-- every packet -/
  | all
  /-- `ipproto tcp sport` -/
  | sport (port : ℕ)
  /-- `to` -/
  | to (network : Text)
  deriving DecidableEq

/-- The tables. -/
inductive TableName where
  /-- the addresses of the host -/
  | local
  /-- the main table -/
  | main
  /-- `BYPASS_TABLE` -/
  | bypass
  deriving DecidableEq

/-- A rule of the kernel. -/
abbrev IpRule : Type := Rule Selector TableName

/-- `RULE_PRIORITY_START` -/
def RULE_PRIORITY_START : ℕ := 100

/-- `PRIVATE_NETWORKS` -/
def PRIVATE_NETWORKS : List Text :=
  ["10.0.0.0/8".toList, "172.16.0.0/12".toList, "192.168.0.0/16".toList]

/-- `bypassPorts` -/
def bypassPorts (raw : Text) : List ℕ :=
  (((raw.splitOn ',').filterMap fun part => parseInt (trim part)).filter fun port =>
    0 < port ∧ port ≤ 65535).reverse.dedup.reverse

/-- What the rules select, in their order. -/
def selectors (ports : List ℕ) : List Selector :=
  ports.map .sport ++ PRIVATE_NETWORKS.map .to

/-- The rules from a priority on. -/
def rulesFrom (priority : ℕ) : List Selector → List IpRule
  | [] => []
  | selector :: rest => ⟨priority, selector, .bypass⟩ :: rulesFrom (priority + 1) rest

/-! ## The network -/

/-- What iproute2 makes of texts. -/
structure Reader where
  /-- a route -/
  parse : List Text → Option (Address × Route)
  /-- a network -/
  network : Text → Option Address

/-- The tables and the rules. -/
structure Tables where
  /-- the rules, in their order -/
  rules : List IpRule
  /-- the main table -/
  main : Table Bool Route
  /-- the table around the tunnel -/
  bypass : Table Bool Route
  deriving DecidableEq

/-- The commands. -/
inductive Cmd where
  /-- `ip rule del priority` -/
  | ruleDel (priority : ℕ)
  /-- `ip route flush table` -/
  | flush
  /-- `ip route show table main` -/
  | showMain
  /-- `ip route add table` -/
  | routeAdd (tokens : List Text)
  /-- `ip rule add priority` -/
  | ruleAdd (rule : IpRule)
  /-- `LogService.debug`, `LogService.error` -/
  | log

/-- The answers. -/
@[reducible] def Cmd.Answer : Cmd → Type
  | showMain => Except String Text
  | _ => Except String Unit

/-- The lines of an output that are not blank. -/
def outputLines (output : Text) : List Text :=
  ((output.splitOn '\n').map trim).filter (· ≠ [])

/-- The device of a tunnel. -/
def isTunnel (device : Text) : Bool :=
  "tun".toList.isPrefixOf device || "wg".toList.isPrefixOf device

/-- A line with a route through a tunnel. -/
def namesTunnel (line : Text) : Bool :=
  includes line " dev tun".toList || includes line " dev wg".toList

variable (I : Reader)

/-- How iproute2 writes a table: a line for each route, which it reads again. -/
def Shows (output : Text) (t : Table Bool Route) : Prop :=
  List.Forall₂ (fun line x => I.parse (parts line) = some x ∧
    namesTunnel line = isTunnel x.2.device) (outputLines (trim output)) t

instance (output : Text) (t : Table Bool Route) : Decidable (Shows I output t) :=
  inferInstanceAs (Decidable (List.Forall₂ _ _ _))

variable {I} in
/-- The lines without a tunnel are the routes without one. -/
theorem Shows.copied {output : Text} {t : Table Bool Route} (h : Shows I output t) :
    List.Forall₂ (fun line x => I.parse (parts line) = some x)
      ((outputLines (trim output)).filter fun line => !namesTunnel line)
      (t.filter fun x => !isTunnel x.2.device) := by
  refine (List.rel_filter ?_ h).imp fun line x hx => hx.1
  intro line x hx
  simp [hx.2]

variable (reliable : Bool)

/-- What a command does; `none` if the answer is not possible. A command that fails has no effect. A
kernel is reliable if rules and routes are deleted where there are any, and a route is added where
there is none. -/
def effect (s : Tables) : (c : Cmd) → c.Answer → Option Tables
  | .ruleDel priority, .ok _ =>
    if s.rules.any (·.priority = priority) then
      some { s with rules := s.rules.eraseP (·.priority = priority) }
    else none
  | .ruleDel priority, .error _ =>
    if reliable && s.rules.any (·.priority = priority) then none else some s
  | .flush, .ok _ => some { s with bypass := [] }
  | .flush, .error _ => if reliable && !s.bypass.isEmpty then none else some s
  | .showMain, .ok output => if Shows I output s.main then some s else none
  | .routeAdd tokens, .ok _ =>
    (I.parse tokens).bind fun x =>
      if (route s.bypass x.1).isSome then none else some { s with bypass := s.bypass ++ [x] }
  | .routeAdd tokens, .error _ =>
    if reliable && (I.parse tokens).any (fun x => route s.bypass x.1 = none) then none else some s
  | .ruleAdd rule, .ok _ => some { s with rules := insertRule rule s.rules }
  | _, _ => some s

/-! ## The service -/

/-- A program over the commands. -/
abbrev Op := Program Cmd Cmd.Answer String

/-- One command. -/
abbrev perform (c : Cmd) : Op c.Answer := Program.perform c

/-- The loop of `deleteRule`. -/
def deleteRule (priority : ℕ) : ℕ → Op Unit
  | 0 => return ()
  | i + 1 => do
    match ← perform (.ruleDel priority) with
    | .ok _ => deleteRule priority i
    | .error _ => return ()

/-- The loop of `cleanupBypassRouting`. -/
def deleteRules (priority : ℕ) : ℕ → Op Unit
  | 0 => return ()
  | count + 1 => do
    deleteRule priority 4
    deleteRules (priority + 1) count

/-- `cleanupBypassRouting` -/
def cleanupBypassRouting (ports : List ℕ) : Op Unit := do
  deleteRules RULE_PRIORITY_START (ports.length + PRIVATE_NETWORKS.length)
  let _ ← perform .flush

/-- The `catch` in the loop over the routes. -/
def noteSkipped : Except String Unit → Op Unit
  | .ok _ => return ()
  | .error _ => do Program.ofExcept (← perform .log)

/-- The loop over the routes. -/
def addRoutes : List Text → Op Unit
  | [] => return ()
  | line :: rest => do
    noteSkipped (← perform (.routeAdd (parts line)))
    addRoutes rest

/-- The loops over the ports and the networks. -/
def addRules : List IpRule → Op Unit
  | [] => return ()
  | rule :: rest => do
    Program.ofExcept (← perform (.ruleAdd rule))
    addRules rest

/-- The body of the `try` of `prepareBypassRouting`. -/
def install (ports : List ℕ) : Op Unit := do
  cleanupBypassRouting ports
  let mainRoutes ← Program.ofExcept (← perform .showMain)
  addRoutes ((outputLines (trim mainRoutes)).filter fun line => !namesTunnel line)
  addRules (rulesFrom RULE_PRIORITY_START (selectors ports))
  Program.ofExcept (← perform .log)

/-- `prepareBypassRouting` -/
def prepareBypassRouting (ports : List ℕ) : Op Unit := do
  match ← (install ports).attempt with
  | .ok () => return ()
  | .error message =>
    Program.ofExcept (← perform .log)
    throw s!"Unable to preserve inbound service routing: {message}"

/-! ## Places -/

section Places

/-- The place is one of the service's own. -/
def owned (n : ℕ) (rule : IpRule) : Bool :=
  RULE_PRIORITY_START ≤ rule.priority && rule.priority < RULE_PRIORITY_START + n

/-- How many rules are at a place. -/
def countAt (rules : List IpRule) (priority : ℕ) : ℕ := rules.countP (·.priority = priority)

variable {n p q : ℕ} {rules : List IpRule} {rule : IpRule}

theorem countAt_eraseP_ne (h : q ≠ p) :
    countAt (rules.eraseP (·.priority = p)) q = countAt rules q := by
  induction rules with
  | nil => rfl
  | cons r rules ih =>
    rw [List.eraseP_cons]
    by_cases hr : r.priority = p
    · have hq : r.priority ≠ q := fun heq => h (heq.symm.trans hr)
      simp [hr, countAt, Ne.symm h]
    · simp only [hr, decide_false, cond_false]
      rw [countAt, countAt, List.countP_cons, List.countP_cons]
      exact congrArg (· + _) ih

theorem countAt_eraseP_self (h : rules.any (·.priority = p) = true) :
    countAt (rules.eraseP (·.priority = p)) p + 1 = countAt rules p := by
  induction rules with
  | nil => cases h
  | cons r rules ih =>
    rw [List.eraseP_cons]
    by_cases hr : r.priority = p
    · simp [hr, countAt]
    · rw [List.any_cons, Bool.or_eq_true] at h
      have hrest := ih (h.resolve_left (by simpa using hr))
      simp only [hr, decide_false, cond_false]
      rw [countAt, countAt, List.countP_cons_of_neg (by simpa using hr),
        List.countP_cons_of_neg (by simpa using hr)]
      exact hrest

theorem countAt_eq_zero : countAt rules p = 0 ↔ rules.any (·.priority = p) = false := by
  rw [countAt, List.countP_eq_zero, List.any_eq_false]

theorem unowned_eraseP (hlow : RULE_PRIORITY_START ≤ p) (hhigh : p < RULE_PRIORITY_START + n) :
    (rules.eraseP (·.priority = p)).filter (fun r => !owned n r) =
      rules.filter (fun r => !owned n r) := by
  induction rules with
  | nil => rfl
  | cons r rules ih =>
    rw [List.eraseP_cons]
    by_cases hr : r.priority = p
    · have hown : owned n r = true := by
        simp [owned, hr, hlow, hhigh]
      simp [hr, hown]
    · simp only [hr, decide_false, cond_false]
      rw [List.filter_cons, List.filter_cons, ih]

/-- The rules of the service have different places. -/
theorem countAt_rulesFrom (selectors : List Selector) (priority : ℕ) :
    (∀ rule ∈ rulesFrom priority selectors, priority ≤ rule.priority ∧
      rule.priority < priority + selectors.length) ∧
      countAt (rulesFrom priority selectors) q ≤ 1 := by
  induction selectors generalizing priority with
  | nil => exact ⟨fun _ h => (by cases h), Nat.zero_le _⟩
  | cons selector selectors ih =>
    obtain ⟨hplaces, hcount⟩ := ih (priority + 1)
    refine ⟨fun rule hrule => ?_, ?_⟩
    · rw [List.length_cons]
      rcases List.mem_cons.mp hrule with rfl | hrule
      · exact ⟨le_rfl, by simp⟩
      · have h := hplaces rule hrule
        omega
    · rw [rulesFrom, countAt, List.countP_cons]
      by_cases hq : priority = q
      · have hzero : countAt (rulesFrom (priority + 1) selectors) q = 0 := by
          rw [countAt_eq_zero, List.any_eq_false]
          intro rule hrule
          have h := hplaces rule hrule
          simp
          omega
        rw [countAt] at hzero
        rw [hzero]
        split <;> omega
      · rw [if_neg (by simpa using hq)]
        exact hcount

theorem rulesFrom_append (a b : List Selector) (priority : ℕ) :
    rulesFrom priority (a ++ b) = rulesFrom priority a ++ rulesFrom (priority + a.length) b := by
  induction a generalizing priority with
  | nil => rfl
  | cons selector a ih =>
    rw [List.cons_append, rulesFrom, rulesFrom, ih, List.length_cons, List.cons_append]
    congr 3
    omega

end Places

/-! ## Runs -/

section Runs

/-- What holds at every command: the places are in order, hold at most four rules each, and the
other rules are `F`. -/
structure Few (n : ℕ) (F : List IpRule) (s : Tables) : Prop where
  /-- in order -/
  ordered : Ordered s.rules
  /-- at most four rules -/
  few : ∀ p, RULE_PRIORITY_START ≤ p → p < RULE_PRIORITY_START + n → countAt s.rules p ≤ 4
  /-- the other rules -/
  others : s.rules.filter (fun r => !owned n r) = F

variable {I} {n : ℕ} {F : List IpRule} {s s' : Tables} {R : String → Tables → Prop}

/-- Commands are issued where the places hold few rules. -/
abbrev guarded (I : Reader) (n : ℕ) (F : List IpRule) : Protocol Cmd Cmd.Answer Tables :=
  .guarded (effect I true) (Few n F)

theorem Few.of_rules (h : Few n F s) (hrules : s'.rules = s.rules) : Few n F s' := by
  obtain ⟨hordered, hfew, hothers⟩ := h
  exact ⟨by rwa [hrules], by rwa [hrules], by rwa [hrules]⟩

/-- The places below `p` are empty, and the main table is `m`. -/
def Emptied (m : Table Bool Route) (p : ℕ) (s : Tables) : Prop :=
  (∀ q, RULE_PRIORITY_START ≤ q → q < p → countAt s.rules q = 0) ∧ s.main = m

/-- **A place is emptied.** -/
theorem follows_deleteRule {m : Table Bool Route} {p i : ℕ} (h : Few n F s) (hm : Emptied m p s)
    (hlow : RULE_PRIORITY_START ≤ p) (hhigh : p < RULE_PRIORITY_START + n)
    (hi : countAt s.rules p ≤ i) :
    Follows (guarded I n F) (deleteRule p i) s
      (fun _ s' => Few n F s' ∧ Emptied m (p + 1) s') R := by
  have hdone : ∀ {s : Tables}, Few n F s → Emptied m p s → countAt s.rules p = 0 →
      Few n F s ∧ Emptied m (p + 1) s := by
    intro s hs hms hzero
    refine ⟨hs, fun q hq hqp => ?_, hms.2⟩
    rcases Nat.lt_succ_iff_lt_or_eq.mp hqp with hlt | rfl
    · exact hms.1 q hq hlt
    · exact hzero
  induction i generalizing s with
  | zero => exact hdone h hm (Nat.le_zero.mp hi)
  | succ i ih =>
    rw [deleteRule]
    refine follows_bind.mpr ⟨h, fun answer s' hs' => ?_⟩
    have heffect : effect I true s (.ruleDel p) answer = some s' := hs'
    cases answer with
    | ok u =>
      rw [effect, Option.ite_none_right_eq_some] at heffect
      obtain ⟨hany, hs'⟩ := heffect
      obtain rfl := Option.some.inj hs'
      have hself := countAt_eraseP_self hany
      have hcount : ∀ q, countAt (s.rules.eraseP (·.priority = p)) q ≤ countAt s.rules q := by
        intro q
        by_cases hq : q = p
        · rw [hq]
          omega
        · rw [countAt_eraseP_ne hq]
      refine ih ⟨h.ordered.sublist List.eraseP_sublist,
        fun q h₁ h₂ => (hcount q).trans (h.few q h₁ h₂),
        (unowned_eraseP hlow hhigh).trans h.others⟩ ⟨fun q h₁ h₂ => ?_, hm.2⟩ ?_
      · exact Nat.le_zero.mp ((hcount q).trans (hm.1 q h₁ h₂).le)
      · change countAt (s.rules.eraseP _) p ≤ i
        omega
    | error e =>
      rw [effect, Bool.true_and, Option.ite_none_left_eq_some] at heffect
      obtain ⟨hany, hs'⟩ := heffect
      obtain rfl := Option.some.inj hs'
      exact hdone h hm (countAt_eq_zero.mpr (by simpa using hany))

theorem follows_deleteRules {m : Table Bool Route} {p count : ℕ} (h : Few n F s)
    (hm : Emptied m p s) (hlow : RULE_PRIORITY_START ≤ p)
    (hhigh : p + count ≤ RULE_PRIORITY_START + n) :
    Follows (guarded I n F) (deleteRules p count) s
      (fun _ s' => Few n F s' ∧ Emptied m (p + count) s') R := by
  induction count generalizing s p with
  | zero => exact ⟨h, hm⟩
  | succ count ih =>
    rw [deleteRules]
    have hone := follows_deleteRule (I := I) (R := R) h hm hlow (by omega)
      (h.few p hlow (by omega))
    refine follows_bind.mpr (hone.mono (fun _ s₁ h₁ => ?_) fun _ _ => id)
    have hrest := ih (s := s₁) (p := p + 1) h₁.1 h₁.2 (by omega) (by omega)
    rwa [show p + 1 + count = p + (count + 1) by omega] at hrest

/-- The own places of the ports. -/
abbrev places (ports : List ℕ) : ℕ := (selectors ports).length

theorem places_eq (ports : List ℕ) : ports.length + PRIVATE_NETWORKS.length = places ports := by
  simp [places, selectors]

/-- **The clean-up empties the own places and the table.** -/
theorem follows_cleanup (ports : List ℕ) (h : Few (places ports) F s) :
    Follows (guarded I (places ports) F) (cleanupBypassRouting ports) s
      (fun _ s' => Few (places ports) F s' ∧ s'.rules.filter (owned (places ports)) = [] ∧
        s'.main = s.main ∧ s'.bypass = []) R := by
  rw [cleanupBypassRouting, places_eq]
  have hstart : Emptied s.main RULE_PRIORITY_START s :=
    ⟨fun q h₁ h₂ => absurd h₁ (Nat.not_le.mpr h₂), rfl⟩
  refine follows_bind.mpr
    ((follows_deleteRules h hstart le_rfl le_rfl).mono (fun _ s₁ h₁ => ?_) fun _ _ => id)
  obtain ⟨hfew, hempty, hmain⟩ := h₁
  have hnone : s₁.rules.filter (owned (places ports)) = [] := by
    rw [List.filter_eq_nil_iff]
    intro rule hrule hown
    simp only [owned, Bool.and_eq_true, decide_eq_true_eq] at hown
    have hzero := hempty rule.priority hown.1 hown.2
    rw [countAt_eq_zero, List.any_eq_false] at hzero
    exact hzero rule hrule (decide_eq_true rfl)
  refine follows_bind.mpr ⟨hfew, fun answer s₂ hs₂ => ?_⟩
  have heffect : effect I true s₁ .flush answer = some s₂ := hs₂
  cases answer with
  | ok u =>
    obtain rfl := Option.some.inj heffect
    exact ⟨hfew.of_rules rfl, hnone, hmain, rfl⟩
  | error e =>
    rw [effect, Bool.true_and, Option.ite_none_left_eq_some] at heffect
    obtain rfl := Option.some.inj heffect.2
    exact ⟨hfew, hnone, hmain, List.isEmpty_iff.mp (by simpa using heffect.1)⟩

/-- An entry in the log changes nothing. -/
theorem follows_log {Q : Unit → Tables → Prop} (h : Few n F s) (hQ : Q () s)
    (hR : ∀ e, R e s) :
    Follows (guarded I n F) (do Program.ofExcept (← perform .log) : Op Unit) s Q R := by
  refine follows_bind.mpr ⟨h, fun answer s' hs' => ?_⟩
  obtain rfl := Option.some.inj (show some s = some s' by cases answer <;> exact hs')
  exact follows_ofExcept.mpr ⟨fun _ _ => hQ, fun e _ => hR e⟩

/-- **The routes are copied** in their order, if they lead to different destinations. -/
theorem follows_addRoutes (lines : List Text) (h : Few n F s) :
    Follows (guarded I n F) (addRoutes lines) s
      (fun _ s' => Few n F s' ∧ s'.rules = s.rules ∧ s'.main = s.main ∧
        ∀ xs, List.Forall₂ (fun line x => I.parse (parts line) = some x) lines xs →
          ((s.bypass ++ xs).map Prod.fst).Nodup → s'.bypass = s.bypass ++ xs)
      (fun _ => Few n F) := by
  induction lines generalizing s with
  | nil =>
    refine ⟨h, rfl, rfl, fun xs hxs _ => ?_⟩
    rw [List.forall₂_nil_left_iff.mp hxs, List.append_nil]
  | cons line lines ih =>
    rw [addRoutes]
    refine follows_bind.mpr ⟨h, fun answer s₁ hs₁ => ?_⟩
    have heffect : effect I true s (.routeAdd (parts line)) answer = some s₁ := hs₁
    cases answer with
    | ok u =>
      obtain ⟨x, hx, hs₁⟩ := Option.bind_eq_some_iff.mp heffect
      rw [Option.ite_none_left_eq_some] at hs₁
      obtain rfl := Option.some.inj hs₁.2
      have hfew : Few n F { s with bypass := s.bypass ++ [x] } := h.of_rules rfl
      refine follows_bind.mpr ((ih hfew).mono (fun _ s₂ h₂ => ?_) fun _ _ => id)
      obtain ⟨hfew₂, hrules, hmain, hcopied⟩ := h₂
      refine ⟨hfew₂, hrules, hmain, fun xs hxs hnodup => ?_⟩
      obtain ⟨x', xs, hx', htail, rfl⟩ := List.forall₂_cons_left_iff.mp hxs
      obtain rfl := Option.some.inj (hx.symm.trans hx')
      rw [hcopied xs htail (by simpa using hnodup)]
      simp
    | error e =>
      rw [effect, Bool.true_and, Option.ite_none_left_eq_some] at heffect
      obtain ⟨hadded, hs₁⟩ := heffect
      obtain rfl := Option.some.inj hs₁
      refine follows_bind.mpr (follows_log h ?_ fun _ => h)
      refine (ih h).mono (fun _ s₂ h₂ => ?_) fun _ _ => id
      obtain ⟨hfew₂, hrules, hmain, -⟩ := h₂
      refine ⟨hfew₂, hrules, hmain, fun xs hxs hnodup => ?_⟩
      obtain ⟨x', xs, hx', -, rfl⟩ := List.forall₂_cons_left_iff.mp hxs
      refine absurd ?_ hadded
      rw [hx', Option.any_some, decide_eq_true_eq, route, Option.map_eq_none_iff,
        List.find?_eq_none]
      intro y hy heq
      rw [List.map_append, List.nodup_append] at hnodup
      exact hnodup.2.2 y.1 (List.mem_map_of_mem hy) x'.1 (by simp) (by simpa using heq)

/-- The places are filled in their order. -/
theorem follows_addRules {ports : List ℕ} {done todo : List Selector}
    (hall : done ++ todo = selectors ports) (h : Few (places ports) F s)
    (hdone : s.rules.filter (owned (places ports)) = rulesFrom RULE_PRIORITY_START done) :
    Follows (guarded I (places ports) F)
      (addRules (rulesFrom (RULE_PRIORITY_START + done.length) todo)) s
      (fun _ s' => Few (places ports) F s' ∧
        s'.rules.filter (owned (places ports)) =
          rulesFrom RULE_PRIORITY_START (selectors ports) ∧
        s'.main = s.main ∧ s'.bypass = s.bypass)
      (fun _ => Few (places ports) F) := by
  induction todo generalizing s done with
  | nil =>
    rw [List.append_nil] at hall
    exact ⟨h, by rw [hdone, hall], rfl, rfl⟩
  | cons selector todo ih =>
    rw [rulesFrom, addRules]
    refine follows_bind.mpr ⟨h, fun answer s₁ hs₁ => ?_⟩
    cases answer with
    | error e =>
      obtain rfl := Option.some.inj (show some s = some s₁ from hs₁)
      exact h
    | ok u =>
      obtain rfl := Option.some.inj
        (show some { s with rules := insertRule _ s.rules } = some s₁ from hs₁)
      have hlength : done.length < places ports := by
        rw [places, ← hall, List.length_append, List.length_cons]
        omega
      have hown : owned (places ports)
          ⟨RULE_PRIORITY_START + done.length, selector, .bypass⟩ = true := by
        simp [owned, hlength]
      obtain ⟨hfilter, hothers⟩ := h.ordered.filter_insertRule (f := owned (places ports))
        (fun r hr => by
          rw [hdone] at hr
          have hplace := (countAt_rulesFrom (q := 0) done RULE_PRIORITY_START).1 r hr
          exact hplace.2.le) hown
      have hnext : (insertRule ⟨RULE_PRIORITY_START + done.length, selector, .bypass⟩
          s.rules).filter (owned (places ports)) =
            rulesFrom RULE_PRIORITY_START (done ++ [selector]) := by
        rw [hfilter, hdone, rulesFrom_append]
        rfl
      have hfew : Few (places ports) F { s with
          rules := insertRule ⟨RULE_PRIORITY_START + done.length, selector, .bypass⟩ s.rules } := by
        refine ⟨h.ordered.insertRule, fun p hlow hhigh => ?_, hothers.trans h.others⟩
        have hcount := (countAt_rulesFrom (q := p) (done ++ [selector]) RULE_PRIORITY_START).2
        rw [← hnext, countAt, List.countP_filter] at hcount
        refine le_trans (le_of_eq ?_) (hcount.trans (by decide))
        refine List.countP_congr fun r _ => ?_
        simp only [decide_eq_true_eq, Bool.and_eq_true, owned]
        constructor
        · rintro rfl
          exact ⟨rfl, hlow, hhigh⟩
        · exact fun hr => hr.1
      have hrest := ih (s := { s with
        rules := insertRule ⟨RULE_PRIORITY_START + done.length, selector, .bypass⟩ s.rules })
        (by simpa using hall) hfew hnext
      rw [List.length_append, List.length_singleton, ← Nat.add_assoc] at hrest
      exact hrest

/-- What a run leaves that succeeds. -/
structure Installed (ports : List ℕ) (F : List IpRule) (m : Table Bool Route) (s : Tables) :
    Prop where
  /-- few rules -/
  few : Few (places ports) F s
  /-- the own rules -/
  rules : s.rules.filter (owned (places ports)) = rulesFrom RULE_PRIORITY_START (selectors ports)
  /-- the main table -/
  main : s.main = m
  /-- the copied routes -/
  bypass : (m.map Prod.fst).Nodup → s.bypass = m.filter fun x => !isTunnel x.2.device

/-- **What `prepareBypassRouting` does**, and that it keeps to few rules when it fails. -/
theorem follows_prepare (ports : List ℕ) (h : Few (places ports) F s) :
    Follows (guarded I (places ports) F) (prepareBypassRouting ports) s
      (fun _ => Installed ports F s.main) (fun _ => Few (places ports) F) := by
  refine follows_bind.mpr (follows_attempt.mpr (Follows.mono
    (Q := fun _ => Installed ports F s.main) (R := fun _ => Few (places ports) F) ?_
    (fun _ _ => id) fun message s₁ h₁ => ?_))
  · refine follows_bind.mpr ((follows_cleanup ports h).mono (fun _ s₁ h₁ => ?_) fun _ _ => id)
    obtain ⟨hfew, hempty, hmain, hbypass⟩ := h₁
    refine follows_bind.mpr ⟨hfew, fun answer s₂ hs₂ => ?_⟩
    have heffect : effect I true s₁ .showMain answer = some s₂ := hs₂
    refine follows_bind.mpr (follows_ofExcept.mpr ⟨?_, ?_⟩)
    · rintro output rfl
      rw [effect, Option.ite_none_right_eq_some] at heffect
      obtain ⟨hshows, hs₂⟩ := heffect
      obtain rfl := Option.some.inj hs₂
      refine follows_bind.mpr ((follows_addRoutes _ hfew).mono (fun _ s₃ h₃ => ?_) fun _ _ => id)
      obtain ⟨hfew₃, hrules, hmain₃, hcopied⟩ := h₃
      have hstart : s₃.rules.filter (owned (places ports)) =
          rulesFrom RULE_PRIORITY_START [] := by
        rw [hrules, hempty]
        rfl
      refine follows_bind.mpr ((follows_addRules (List.nil_append _) hfew₃ hstart).mono
        (fun _ s₄ h₄ => ?_) fun _ _ => id)
      obtain ⟨hfew₄, hrules₄, hmain₄, hbypass₄⟩ := h₄
      refine follows_log hfew₄ ⟨hfew₄, hrules₄, ?_, fun hnodup => ?_⟩ fun _ => hfew₄
      · rw [hmain₄, hmain₃, hmain]
      · rw [hbypass₄, hcopied _ (hshows.copied) ?_, hbypass, List.nil_append, hmain]
        rw [hbypass, List.nil_append, hmain]
        exact hnodup.sublist (List.filter_sublist.map _)
    · rintro e rfl
      obtain rfl := Option.some.inj (show some s₁ = some s₂ from heffect)
      exact hfew
  · refine follows_bind.mpr ⟨h₁, fun answer s₂ hs₂ => ?_⟩
    obtain rfl := Option.some.inj (show some s₁ = some s₂ by cases answer <;> exact hs₂)
    exact follows_bind.mpr (follows_ofExcept.mpr ⟨fun _ _ => h₁, fun _ _ => h₁⟩)

/-- What may happen between the runs that succeed, on a reliable kernel: a run that is cut off
anywhere or fails, and changes of the main table. -/
inductive Step (I : Reader) (ports : List ℕ) (s : Tables) : Tables → Prop where
  /-- `prepareBypassRouting`, as far as it gets -/
  | prepare {s' : Tables} (hcut : Cuts (effect I true) (prepareBypassRouting ports) s s') :
      Step I ports s s'
  /-- `cleanupBypassRouting`, as far as it gets -/
  | cleanup {s' : Tables} (hcut : Cuts (effect I true) (cleanupBypassRouting ports) s s') :
      Step I ports s s'
  /-- the tunnel, or the container -/
  | routes (m : Table Bool Route) : Step I ports s { s with main := m }

theorem Step.few {ports : List ℕ} (hstep : Step I ports s s') (h : Few (places ports) F s) :
    Few (places ports) F s' := by
  cases hstep with
  | prepare hcut =>
    exact hcut.holds (follows_prepare ports h) (fun _ _ hq => hq.few) fun _ _ => id
  | cleanup hcut =>
    exact hcut.holds (follows_cleanup (R := fun _ => Few (places ports) F) ports h)
      (fun _ _ hq => hq.1) fun _ _ => id
  | routes m => exact h.of_rules rfl

theorem Few.steps {ports : List ℕ} (h : Few (places ports) F s)
    (hsteps : Relation.ReflTransGen (Step I ports) s s') : Few (places ports) F s' := by
  induction hsteps with
  | refl => exact h
  | tail _ hstep ih => exact hstep.few ih

/-- What a run leaves that succeeds, after any others. -/
theorem installed {ports : List ℕ} {s₀ : Tables} (hordered : Ordered s₀.rules)
    (hnone : s₀.rules.filter (owned (places ports)) = [])
    (hsteps : Relation.ReflTransGen (Step I ports) s₀ s)
    (hrun : Runs (effect I true) (prepareBypassRouting ports) s (.ok ()) s') :
    Installed ports (s₀.rules.filter fun r => !owned (places ports) r) s.main s' := by
  have hstart : Few (places ports) (s₀.rules.filter fun r => !owned (places ports) r) s₀ := by
    refine ⟨hordered, fun p hlow hhigh => ?_, rfl⟩
    have hzero : countAt s₀.rules p = 0 := by
      rw [countAt_eq_zero, List.any_eq_false]
      intro rule hrule hp
      obtain rfl : rule.priority = p := by simpa using hp
      exact List.filter_eq_nil_iff.mp hnone rule hrule (by simp [owned, hlow, hhigh])
    rw [hzero]
    exact Nat.zero_le _
  exact ((follows_prepare ports (hstart.steps hsteps)).of_run hrun).1 () rfl

/-- **The rules are exact**, on a reliable kernel. After any number of runs, cut off anywhere or
not, and changes of the main table, a run that succeeds leaves exactly the rules of the ports and
the networks at their places, the other rules as they were at the start, and the routes that do not
lead through a tunnel. -/
theorem rules_are_exact {ports : List ℕ} {s₀ : Tables} (hordered : Ordered s₀.rules)
    (hnone : s₀.rules.filter (owned (places ports)) = [])
    (hsteps : Relation.ReflTransGen (Step I ports) s₀ s)
    (hrun : Runs (effect I true) (prepareBypassRouting ports) s (.ok ()) s') :
    s'.rules.filter (owned (places ports)) = rulesFrom RULE_PRIORITY_START (selectors ports) ∧
      (s'.rules.filter fun r => !owned (places ports) r) =
        (s₀.rules.filter fun r => !owned (places ports) r) ∧
      s'.main = s.main ∧
      ((s.main.map Prod.fst).Nodup →
        s'.bypass = s.main.filter fun x => !isTunnel x.2.device) := by
  have h := installed hordered hnone hsteps hrun
  exact ⟨h.rules, h.few.others, h.main, h.bypass⟩

/-! ## Packets -/

/-- A packet. -/
structure Packet where
  /-- the port that it comes from, if it is TCP -/
  source : Option ℕ
  /-- the address that it goes to -/
  destination : Address

/-- Which packets a rule selects. -/
def selects (I : Reader) : Selector → Packet → Bool
  | .all, _ => true
  | .sport port, a => a.source = some port
  | .to network, a => (I.network network).any fun p => p.isPrefixOf a.destination

/-- The route of a packet in a table. -/
def find (hosts main bypass : Table Bool Route) : TableName → Packet → Option Route
  | .local, a => lookup hosts a.destination
  | .main, a => lookup main a.destination
  | .bypass, a => lookup bypass a.destination

theorem mem_rulesFrom {selector : Selector} {sels : List Selector} (priority : ℕ)
    (h : selector ∈ sels) : ∃ rule ∈ rulesFrom priority sels, rule.selector = selector := by
  induction sels generalizing priority with
  | nil => cases h
  | cons first sels ih =>
    rcases List.mem_cons.mp h with rfl | h
    · exact ⟨_, List.mem_cons_self, rfl⟩
    · obtain ⟨rule, hrule, heq⟩ := ih (priority + 1) h
      exact ⟨rule, List.mem_cons_of_mem _ hrule, heq⟩

theorem table_rulesFrom (sels : List Selector) (priority : ℕ) :
    ∀ rule ∈ rulesFrom priority sels, rule.table = TableName.bypass := by
  induction sels generalizing priority with
  | nil => exact fun _ h => (by cases h)
  | cons first sels ih =>
    intro rule hrule
    rcases List.mem_cons.mp hrule with rfl | hrule
    · rfl
    · exact ih (priority + 1) rule hrule

/-- The own rules stand together, behind those of earlier places. -/
theorem Installed.rules_eq {ports : List ℕ} {m : Table Bool Route} (h : Installed ports F m s) :
    ∃ behind, s.rules = s.rules.filter (fun r => r.priority < RULE_PRIORITY_START) ++
      (rulesFrom RULE_PRIORITY_START (selectors ports) ++ behind) := by
  have hafter : Ordered (s.rules.filter fun r => decide (RULE_PRIORITY_START ≤ r.priority)) :=
    h.few.ordered.sublist List.filter_sublist
  refine ⟨_, (h.few.ordered.split RULE_PRIORITY_START).symm.trans (congrArg _
    ((hafter.split (RULE_PRIORITY_START + places ports)).symm.trans (congrArg (· ++ _) ?_)))⟩
  rw [List.filter_filter, ← h.rules]
  refine List.filter_congr fun r _ => ?_
  rw [owned, Bool.and_comm]

/-- **Replies stay direct**, on a reliable kernel. After a run that succeeds, a packet from a port
of the services, or to a private network, that no rule of an earlier place routes takes the route it
would take without the tunnels, if there is one, whatever the main table becomes. -/
theorem replies_stay_direct {ports : List ℕ} {s₀ : Tables} {hosts m : Table Bool Route}
    {a : Packet} {r : Route} (hordered : Ordered s₀.rules)
    (hnone : s₀.rules.filter (owned (places ports)) = [])
    (hsteps : Relation.ReflTransGen (Step I ports) s₀ s) (hnodup : (s.main.map Prod.fst).Nodup)
    (hrun : Runs (effect I true) (prepareBypassRouting ports) s (.ok ()) s')
    (hpacket : (∃ port ∈ ports, a.source = some port) ∨
      ∃ network ∈ PRIVATE_NETWORKS, ∃ p, I.network network = some p ∧ p <+: a.destination)
    (hearlier : firstRoute (selects I) (find hosts m s'.bypass)
      (s₀.rules.filter fun r => r.priority < RULE_PRIORITY_START) a = none)
    (hroute : lookup (s.main.filter fun x => !isTunnel x.2.device) a.destination = some r) :
    firstRoute (selects I) (find hosts m s'.bypass) s'.rules a = some r := by
  have h := installed hordered hnone hsteps hrun
  obtain ⟨behind, hrules⟩ := h.rules_eq
  have hfront : s'.rules.filter (fun r => r.priority < RULE_PRIORITY_START) =
      s₀.rules.filter (fun r => r.priority < RULE_PRIORITY_START) := by
    have hothers := congrArg
      (List.filter fun r : IpRule => decide (r.priority < RULE_PRIORITY_START)) h.few.others
    rw [List.filter_filter, List.filter_filter] at hothers
    have hkept : ∀ r : IpRule,
        (decide (r.priority < RULE_PRIORITY_START) && !owned (places ports) r) =
          decide (r.priority < RULE_PRIORITY_START) := fun r => by
      by_cases hr : r.priority < RULE_PRIORITY_START
      · simp [owned, hr]
      · simp [hr]
    simpa only [hkept] using hothers
  have hselected : ∃ x ∈ rulesFrom RULE_PRIORITY_START (selectors ports),
      selects I x.selector a = true := by
    rcases hpacket with ⟨port, hport, ha⟩ | ⟨network, hnetwork, p, hp, hbegins⟩
    · have hmem : .sport port ∈ selectors ports :=
        List.mem_append_left _ (List.mem_map_of_mem hport)
      obtain ⟨x, hx, hsel⟩ := mem_rulesFrom RULE_PRIORITY_START hmem
      exact ⟨x, hx, by rw [hsel, selects, ha, decide_eq_true_eq]⟩
    · have hmem : .to network ∈ selectors ports :=
        List.mem_append_right _ (List.mem_map_of_mem hnetwork)
      obtain ⟨x, hx, hsel⟩ := mem_rulesFrom RULE_PRIORITY_START hmem
      refine ⟨x, hx, ?_⟩
      rw [hsel, selects, hp, Option.any_some, List.isPrefixOf_iff_prefix]
      exact hbegins
  have hown : firstRoute (selects I) (find hosts m s'.bypass)
      (rulesFrom RULE_PRIORITY_START (selectors ports)) a = lookup s'.bypass a.destination :=
    firstRoute_eq (table_rulesFrom (selectors ports) RULE_PRIORITY_START) hselected
  rw [hrules, firstRoute_append, hfront, hearlier, Option.none_or, firstRoute_append, hown,
    h.bypass hnodup, hroute, Option.some_or]

/-! ## A run -/

/-- iproute2 on three routes. -/
def sampleReader : Reader where
  parse tokens :=
    if tokens = parts "default via 172.17.0.1 dev eth0".toList then
      some ([], ⟨some "172.17.0.1".toList, "eth0".toList⟩)
    else if tokens = parts "172.17.0.0/16 dev eth0 scope link".toList then
      some (bits [172, 17, 0, 0] 16, ⟨none, "eth0".toList⟩)
    else if tokens = parts "0.0.0.0/1 dev wg0 scope link".toList then
      some ([false], tunnelRoute)
    else none
  network text :=
    if text = "10.0.0.0/8".toList then some (bits [10, 0, 0, 0] 8)
    else if text = "172.16.0.0/12".toList then some (bits [172, 16, 0, 0] 12)
    else if text = "192.168.0.0/16".toList then some (bits [192, 168, 0, 0] 16)
    else none

/-- The container at its start. -/
def sampleTables : Tables where
  rules := [⟨0, .all, .local⟩, ⟨32766, .all, .main⟩]
  main := [([], ⟨some "172.17.0.1".toList, "eth0".toList⟩),
    (bits [172, 17, 0, 0] 16, ⟨none, "eth0".toList⟩)]
  bypass := []

/-- The container after a run that has failed at its second rule, with a tunnel. -/
def sampleFailed : Tables where
  rules := [⟨0, .all, .local⟩, ⟨100, .sport 3000, .bypass⟩, ⟨32766, .all, .main⟩]
  main := ([false], tunnelRoute) :: sampleTables.main
  bypass := sampleTables.main

/-- The container after the next run. -/
def samplePrepared : Tables where
  rules := [⟨0, .all, .local⟩, ⟨100, .sport 3000, .bypass⟩, ⟨101, .sport 8080, .bypass⟩,
    ⟨102, .to "10.0.0.0/8".toList, .bypass⟩, ⟨103, .to "172.16.0.0/12".toList, .bypass⟩,
    ⟨104, .to "192.168.0.0/16".toList, .bypass⟩, ⟨32766, .all, .main⟩]
  main := sampleFailed.main
  bypass := sampleTables.main

/-- The routes at the start, as they are shown. -/
def sampleOutput : String :=
  "default via 172.17.0.1 dev eth0 \n172.17.0.0/16 dev eth0 scope link \n"

/-- The answers of the kernel, where a rule may not be added. -/
def sampleAnswer (output : String) (failing : Option ℕ) (s : Tables) : (c : Cmd) → c.Answer
  | .ruleDel priority =>
    if s.rules.any (·.priority = priority) then .ok ()
    else .error "RTNETLINK answers: No such file or directory"
  | .flush => if s.bypass = [] then .error "FIB table does not exist" else .ok ()
  | .showMain => .ok output.toList
  | .routeAdd _ => .ok ()
  | .ruleAdd rule =>
    if failing = some rule.priority then .error "RTNETLINK answers: Invalid argument" else .ok ()
  | .log => .ok ()

/-- A run fails, and then a tunnel comes up. -/
theorem sample_steps :
    Relation.ReflTransGen (Step sampleReader [3000, 8080]) sampleTables sampleFailed := by
  have hfirst : (prepareBypassRouting [3000, 8080]).runWith (effect sampleReader true)
      (sampleAnswer sampleOutput (some 101)) sampleTables =
      some (.error ("Unable to preserve inbound service routing: " ++
        "RTNETLINK answers: Invalid argument"),
        { sampleFailed with main := sampleTables.main }) := by decide +kernel
  exact .tail (.single (.prepare (Runs.of_runWith hfirst).cuts)) (.routes sampleFailed.main)

theorem sample_ordered : Ordered sampleTables.rules := by
  simp [Ordered, sampleTables]

theorem sample_run : Runs (effect sampleReader true) (prepareBypassRouting [3000, 8080]) sampleFailed
    (.ok ()) samplePrepared := by
  have hrun : (prepareBypassRouting [3000, 8080]).runWith (effect sampleReader true)
      (sampleAnswer ("0.0.0.0/1 dev wg0 scope link \n" ++ sampleOutput) none) sampleFailed =
      some (.ok (), samplePrepared) := by decide +kernel
  exact Runs.of_runWith hrun

/-- The rule that the first run left is not doubled. -/
theorem sample_rules_are_exact :
    samplePrepared.rules.filter (owned (places [3000, 8080])) =
        rulesFrom RULE_PRIORITY_START (selectors [3000, 8080]) ∧
      (samplePrepared.rules.filter fun r => !owned (places [3000, 8080]) r) =
        (sampleTables.rules.filter fun r => !owned (places [3000, 8080]) r) ∧
      samplePrepared.main = sampleFailed.main ∧
      ((sampleFailed.main.map Prod.fst).Nodup →
        samplePrepared.bypass = sampleFailed.main.filter fun x => !isTunnel x.2.device) :=
  rules_are_exact sample_ordered (by decide) sample_steps sample_run

/-- A reply of the proxy to a client whose address the tunnel takes. -/
theorem sample_reply_stays_direct :
    firstRoute (selects sampleReader)
      (find [(bits [127, 0, 0, 0] 8, ⟨none, "lo".toList⟩)] sampleFailed.main samplePrepared.bypass)
      samplePrepared.rules ⟨some 8080, bits [8, 8, 8, 8] 32⟩ =
        some ⟨some "172.17.0.1".toList, "eth0".toList⟩ :=
  replies_stay_direct sample_ordered (by decide) sample_steps (by decide) sample_run
    (.inl ⟨8080, by decide, rfl⟩) (by decide) (by decide)

example : bypassPorts "3000, 8080,x,3000".toList = [3000, 8080] := by decide +kernel

end Runs

end IptvProxy.Vpn.Bypass
