import IptvProxy.Xtream.Authentication

/-!
# Adding a client account

The path scan takes every segment that equals a known user name for the first half of a credential
pair, by design: a local name in a path must not pass unchecked. So the name of one account can
turn other people's requests away (`account_named_live`). A new account changes nothing for a
request that does not offer its name: not in a pair of the query or the body, not among the path
segments the scan looks at.
-/

namespace IptvProxy.Xtream

variable {L : Library} {p p' : Provider} {v : User}

/-- `p'` is `p` with one more user. -/
structure AddsUser (p p' : Provider) (v : User) : Prop where
  /-- the new user stands somewhere among the others -/
  users : ∃ xs ys, p.users = xs ++ ys ∧ p'.users = xs ++ v :: ys
  /-- nothing else changes -/
  same : { p' with users := p.users } = p

/-- The path segments the scan looks up. -/
def scanned (p : Provider) : List Bytes → List Bytes
  | [] => []
  | [_] => []
  | segment :: next :: segments =>
    segment :: if providerHasClientUsername p segment then scanned p segments
      else scanned p (next :: segments)

/-- The new user is nobody the pair authenticates and does not have the name in the pair. -/
def Unrelated (L : Library) (p : Provider) (v : User) (pr : Bytes × Bytes) : Prop :=
  v.username ≠ pr.1 ∧ ∀ w, authenticateXtreamClient L p pr.1 pr.2 = some w →
    v.username ≠ w.username

namespace AddsUser

theorem upstreamUsername (h : AddsUser p p' v) : p'.upstreamUsername = p.upstreamUsername := by
  rw [← h.same]

theorem upstreamPassword (h : AddsUser p p' v) : p'.upstreamPassword = p.upstreamPassword := by
  rw [← h.same]

theorem host (h : AddsUser p p' v) : p'.host = p.host := by
  rw [← h.same]

theorem authenticateUsers {username password : Bytes} (hv : v.username ≠ username)
    (xs ys : List User) : Provider.authenticateUsers L username password (xs ++ v :: ys) =
      Provider.authenticateUsers L username password (xs ++ ys) := by
  induction xs with
  | nil => simp [Provider.authenticateUsers, hv]
  | cons x xs ih => simp only [List.cons_append, Provider.authenticateUsers, ih]

theorem authenticate (h : AddsUser p p' v) {username password : Bytes}
    (hv : v.username ≠ username) :
    p'.authenticate L username password = p.authenticate L username password := by
  obtain ⟨xs, ys, hxs, hys⟩ := h.users
  rw [Provider.authenticate, Provider.authenticate, hxs, hys, authenticateUsers hv]

/-- An unrelated user changes no successful authentication. -/
theorem authenticateXtreamClient (h : AddsUser p p' v) {pr : Bytes × Bytes} {w : User}
    (hv : Unrelated L p v pr) (hw : authenticateXtreamClient L p pr.1 pr.2 = some w) :
    authenticateXtreamClient L p' pr.1 pr.2 = some w := by
  have hname := hv.2 w hw
  rw [Xtream.authenticateXtreamClient] at hw ⊢
  rw [h.authenticate hv.1]
  split at hw
  · exact hw
  · dsimp only at hw ⊢
    split at hw
    · next hcond =>
      rw [if_pos hcond]
      have hplus := (Provider.authenticate_eq_some hw).name
      rw [h.authenticate (hplus ▸ hname)]
      exact hw
    · cases hw

theorem checkPair (h : AddsUser p p' v) {pr : Bytes × Bytes} {selected u : User}
    (hv : Unrelated L p v pr) (hu : checkPair L p selected pr.1 pr.2 = .ok u) :
    checkPair L p' selected pr.1 pr.2 = .ok u := by
  unfold Xtream.checkPair at hu ⊢
  rcases hauth : Xtream.authenticateXtreamClient L p pr.1 pr.2 with _ | w <;> rw [hauth] at hu
  · cases hu
  · rw [h.authenticateXtreamClient hv hauth]
    exact hu

theorem providerHasClientUsername (h : AddsUser p p' v) {segment : Bytes}
    (hv : v.username ≠ segment) :
    providerHasClientUsername p' segment = providerHasClientUsername p segment := by
  obtain ⟨xs, ys, hxs, hys⟩ := h.users
  simp [Xtream.providerHasClientUsername, hxs, hys, hv]

theorem translateValues (h : AddsUser p p' v) {pairs : List (Bytes × Bytes)}
    (hkeys : SeparateKeys pairs) {selected : User} {q : Values} {matched : Bool}
    {res : User × Values × Bool} (hv : ∀ pr ∈ recognisedValues pairs q, Unrelated L p v pr)
    (hres : translateValues L p pairs selected q matched = .ok res) :
    translateValues L p' pairs selected q matched = .ok res := by
  induction pairs generalizing selected q matched with
  | nil => exact hres
  | cons k pairs ih =>
    obtain ⟨nameKey, passKey⟩ := k
    obtain ⟨hk, hkeys⟩ := List.pairwise_cons.mp hkeys
    simp only [Xtream.translateValues, recognisedValues, List.filterMap_cons] at hres hv ⊢
    split at hres
    · next hskip =>
      rw [if_pos hskip] at hv ⊢
      exact ih hkeys hv hres
    · next hskip =>
      rw [if_neg hskip] at hv ⊢
      rcases hpair : Xtream.checkPair L p selected (q.get nameKey) (q.get passKey) with e | u <;>
        rw [hpair] at hres
      · cases hres
      · rw [h.checkPair (hv _ (List.mem_cons_self ..)) hpair, h.upstreamUsername,
          h.upstreamPassword]
        refine ih hkeys (fun pr hpr => hv pr (List.mem_cons_of_mem _ ?_)) hres
        rwa [recognisedValues_set hk] at hpr

theorem translatePath (h : AddsUser p p' v) {segments : List Bytes} {selected : User}
    {res : List Bytes × User × Option ℕ}
    (hv : ∀ pr ∈ recognisedPath p segments, Unrelated L p v pr)
    (hscan : v.username ∉ scanned p segments)
    (hres : translatePath L p segments selected = .ok res) :
    translatePath L p' segments selected = .ok res := by
  induction segments using recognisedPath.induct p generalizing selected res with
  | case1 => exact hres
  | case2 => exact hres
  | case3 segment next segments hknown ih =>
    simp only [scanned, hknown, if_true, List.mem_cons, not_or] at hscan
    simp only [recognisedPath, hknown, if_true] at hv
    simp only [Xtream.translatePath, hknown, if_true] at hres
    rw [Xtream.translatePath, h.providerHasClientUsername hscan.1, if_pos hknown]
    rcases hpair : Xtream.checkPair L p selected segment next with e | u <;> rw [hpair] at hres
    · cases hres
    · rw [h.checkPair (hv (segment, next) (List.mem_cons_self ..)) hpair]
      dsimp only at hres ⊢
      rcases hrest : Xtream.translatePath L p segments u with e | rest <;> rw [hrest] at hres
      · cases hres
      · rw [ih (fun pr hpr => hv pr (List.mem_cons_of_mem _ hpr)) hscan.2 hrest,
          h.upstreamUsername, h.upstreamPassword]
        exact hres
  | case4 segment next segments hknown ih =>
    simp only [scanned, hknown, Bool.false_eq_true, if_false, List.mem_cons, not_or] at hscan
    simp only [recognisedPath, hknown, Bool.false_eq_true, if_false] at hv
    simp only [Xtream.translatePath, hknown, Bool.false_eq_true, if_false] at hres
    rw [Xtream.translatePath, h.providerHasClientUsername hscan.1, if_neg hknown]
    rcases hrest : Xtream.translatePath L p (next :: segments) selected with e | rest <;>
      rw [hrest] at hres
    · cases hres
    · rw [ih hv (by simpa using hscan.2) hrest]
      exact hres

theorem translateFields (h : AddsUser p p' v) {pairs : List (Bytes × Bytes)}
    (hkeys : SeparateKeys pairs) {selected : User} {payload : List (Bytes × Json)} {matched : Bool}
    {res : User × List (Bytes × Json) × Bool}
    (hv : ∀ pr ∈ recognisedFields pairs payload, Unrelated L p v pr)
    (hres : translateFields L p pairs selected payload matched = .ok res) :
    translateFields L p' pairs selected payload matched = .ok res := by
  induction pairs generalizing selected payload matched with
  | nil => exact hres
  | cons k pairs ih =>
    obtain ⟨nameKey, passKey⟩ := k
    obtain ⟨hk, hkeys⟩ := List.pairwise_cons.mp hkeys
    rcases hu : stringField payload nameKey with _ | username <;>
      rcases hp : stringField payload passKey with _ | password <;>
      simp only [Xtream.translateFields, recognisedFields, List.filterMap_cons, hu, hp]
        at hres hv ⊢
    case some.some =>
      split at hres
      · next hskip =>
        rw [if_pos hskip] at hv ⊢
        exact ih hkeys hv hres
      · next hskip =>
        rw [if_neg hskip] at hv ⊢
        rcases hpair : Xtream.checkPair L p selected username password with e | u <;>
          rw [hpair] at hres
        · cases hres
        · have hfirst : Unrelated L p v (username, password) := hv _ (List.mem_cons_self ..)
          rw [h.checkPair hfirst hpair, h.upstreamUsername, h.upstreamPassword]
          refine ih hkeys (fun pr hpr => hv pr (List.mem_cons_of_mem _ ?_)) hres
          rwa [recognisedFields_set hk] at hpr
    all_goals exact ih hkeys hv hres

theorem translateBody (h : AddsUser p p' v) {r : Request} {selected : User} {res : User × Body}
    (hv : ∀ pr ∈ recognisedBody L r, Unrelated L p v pr)
    (hres : translateXtreamBodyCredentials L p r selected = .ok res) :
    translateXtreamBodyCredentials L p' r selected = .ok res := by
  unfold translateXtreamBodyCredentials at hres ⊢
  unfold recognisedBody at hv
  revert hv hres
  rcases bodyKind L r with _ | kind
  · exact fun _ hres => hres
  · rcases r.body with _ | _ | body
    · exact fun _ hres => hres
    · intro _ hres
      cases hres
    · intro hv hres
      dsimp only at hres ⊢
      split at hres
      · cases hres
      · next hlen =>
        rw [if_neg hlen]
        cases kind with
        | form =>
          dsimp only at hres hv ⊢
          split at hres
          · cases hres
          · next hform =>
            rw [if_neg hform]
            rcases hvalues : Xtream.translateValues L p credentialPairs selected
              (Values.parse body).1 false with e | out <;> rw [hvalues] at hres
            · cases hres
            · rw [h.translateValues separateKeys_credentialPairs hv hvalues]
              exact hres
        | json =>
          dsimp only at hres hv ⊢
          split at hres
          · next hempty =>
            rw [if_pos hempty]
            exact hres
          · next hempty =>
            rw [if_neg hempty] at hv ⊢
            revert hv hres
            rcases L.decodeObject (L.trimSpace body) with _ | payload
            · intro _ hres
              cases hres
            · intro hv hres
              dsimp only at hres ⊢
              rcases hfields : Xtream.translateFields L p credentialPairs selected payload false
                with e | out <;> rw [hfields] at hres
              · cases hres
              · rw [h.translateFields separateKeys_credentialPairs hv hfields]
                exact hres

/-- A new user with another name than those the request offers changes nothing. -/
theorem build (h : AddsUser p p' v) {remaining : Bytes} {r : Request} {t : Translated}
    (hv : ∀ pr ∈ recognised L p remaining r, Unrelated L p v pr)
    (hscan : v.username ∉ scanned p (splitSlash (trimPrefixSlash remaining)))
    (ht : buildTransparentUpstreamURL L p remaining r = .ok t) :
    buildTransparentUpstreamURL L p' remaining r = .ok t := by
  obtain ⟨a⟩ := accepted_of_build ht
  have hquery := h.translateValues separateKeys_credentialPairs
    (fun pr hpr => hv pr (List.mem_append_left _ hpr)) a.hquery
  have hpath := h.translatePath
    (fun pr hpr => hv pr (List.mem_append_right _ (List.mem_append_left _ hpr))) hscan a.hpath
  have hbody := h.translateBody
    (fun pr hpr => hv pr (List.mem_append_right _ (List.mem_append_right _ hpr))) a.hbody
  exact build_of_accepted { a with
    hbase := h.host ▸ a.hbase
    hquery := hquery
    hpath := hpath
    hbody := hbody }

end AddsUser

/-- **Accounts do not interfere**, for a request with one pair of credentials that does not offer
the name of the new account: not as it spells the pair, not in the path segments the scan looks
at. -/
theorem accounts_do_not_interfere {remaining : Bytes} {r : Request} {t : Translated}
    {pr : Bytes × Bytes} (h : AddsUser p p' v)
    (ht : buildTransparentUpstreamURL L p remaining r = .ok t)
    (hone : recognised L p remaining r = [pr]) (hdifferent : v.username ≠ t.user.username)
    (hspelled : v.username ≠ pr.1)
    (hscan : v.username ∉ scanned p (splitSlash (trimPrefixSlash remaining))) :
    buildTransparentUpstreamURL L p' remaining r = .ok t := by
  refine h.build (fun pr' hpr' => ?_) hscan ht
  rw [hone, List.mem_singleton] at hpr'
  subst hpr'
  refine ⟨hspelled, fun w hw => ?_⟩
  have hcheck := (checkAll_of_build ht).1
  rw [hone] at hcheck
  obtain ⟨-, hnil⟩ | ⟨pr'', hmem, hauth⟩ := checkAll_eq_ok hcheck
  · exact absurd (congrArg User.username hnil) (checkAll_of_build ht).2
  · obtain rfl := List.mem_singleton.mp hmem
    obtain rfl := Option.some.inj (hw.symm.trans hauth)
    exact hdifferent

/-! ## Examples -/

/-- The client `bob`. -/
def bob : User := sampleUser "1" "bob" "a"

/-- Another client, called `live`. -/
def live : User := sampleUser "2" "live" "x"

/-- Another client, called `eve`. -/
def eve : User := sampleUser "2" "eve" "x"

/-- The account `live` turns away `bob`'s request for a live stream. -/
theorem account_named_live :
    AddsUser (sampleProvider [bob]) (sampleProvider [bob, live]) live ∧
    live.username ≠ bob.username ∧
    recognised asciiLibrary (sampleProvider [bob]) (ascii "/live/bob/a/7.ts") (getRequest "") =
      [(ascii "bob", ascii "a")] ∧
    (buildTransparentUpstreamURL asciiLibrary (sampleProvider [bob]) (ascii "/live/bob/a/7.ts")
      (getRequest "")).toOption.map (fun t => t.url.path) = some (ascii "/live/UP/SECRET/7.ts") ∧
    (buildTransparentUpstreamURL asciiLibrary (sampleProvider [bob, live])
      (ascii "/live/bob/a/7.ts") (getRequest "")).toOption = none := by
  refine ⟨⟨⟨[bob], [], rfl, rfl⟩, rfl⟩, ?_, ?_, ?_, ?_⟩ <;> decide

theorem accounts_do_not_interfere_sample :
    ∃ t, buildTransparentUpstreamURL asciiLibrary (sampleProvider [bob, eve])
      (ascii "/live/bob/a/7.ts") (getRequest "") = .ok t := by
  have hok : (buildTransparentUpstreamURL asciiLibrary (sampleProvider [bob])
      (ascii "/live/bob/a/7.ts") (getRequest "")).toOption.map (fun t => t.user.username) =
        some (ascii "bob") := by decide
  rcases hb : buildTransparentUpstreamURL asciiLibrary (sampleProvider [bob])
      (ascii "/live/bob/a/7.ts") (getRequest "") with e | t <;> rw [hb] at hok
  · cases hok
  · have hone : recognised asciiLibrary (sampleProvider [bob]) (ascii "/live/bob/a/7.ts")
        (getRequest "") = [(ascii "bob", ascii "a")] := by decide
    refine ⟨t, accounts_do_not_interfere (v := eve) ⟨⟨[bob], [], rfl, rfl⟩, rfl⟩ hb hone ?_
      (by decide) (by decide)⟩
    rw [show t.user.username = ascii "bob" from Option.some.inj hok]
    decide

end IptvProxy.Xtream
