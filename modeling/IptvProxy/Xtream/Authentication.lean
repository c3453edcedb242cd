import IptvProxy.Xtream.Translate

/-!
# Who the translator lets in

The three places that may carry credentials do the same thing to every complete pair they
recognise: authenticate it, and compare the user with the one selected before (`checkPair`). So the
translator checks the list of all recognised pairs in order (`checkAll`), and what it selects is
what is left at the end.

`sameClientUser` compares ids, and user names only if an id is missing. It is therefore not
transitive on users some of whom have no id (`three_users_pass_as_one`); the results are for user
lists where everybody has an id.
-/

namespace IptvProxy.Xtream

variable {L : Library} {p : Provider}

/-! ## The recognised pairs -/

/-- The complete pairs of a query or a form body. -/
def recognisedValues (pairs : List (Bytes × Bytes)) (q : Values) : List (Bytes × Bytes) :=
  pairs.filterMap fun k =>
    if q.get k.1 = [] ∨ q.get k.2 = [] then none else some (q.get k.1, q.get k.2)

/-- The pairs of path segments that start with a known local username. -/
def recognisedPath (p : Provider) : List Bytes → List (Bytes × Bytes)
  | [] => []
  | [_] => []
  | segment :: next :: segments =>
    if providerHasClientUsername p segment then (segment, next) :: recognisedPath p segments
    else recognisedPath p (next :: segments)

/-- The complete pairs of a JSON body. -/
def recognisedFields (pairs : List (Bytes × Bytes)) (payload : List (Bytes × Json)) :
    List (Bytes × Bytes) :=
  pairs.filterMap fun k =>
    match stringField payload k.1, stringField payload k.2 with
    | some username, some password =>
      if username = [] ∨ password = [] then none else some (username, password)
    | _, _ => none

/-- The complete pairs of a body that can be read. -/
def recognisedBody (L : Library) (r : Request) : List (Bytes × Bytes) :=
  match bodyKind L r, r.body with
  | some .form, .bytes body => recognisedValues credentialPairs (Values.parse body).1
  | some .json, .bytes body =>
    if L.trimSpace body = [] ∨ L.trimSpace body = ascii "{}" then []
    else ((L.decodeObject (L.trimSpace body)).map (recognisedFields credentialPairs)).getD []
  | _, _ => []

/-- All complete pairs the translator recognises, in its order. -/
def recognised (L : Library) (p : Provider) (remaining : Bytes) (r : Request) :
    List (Bytes × Bytes) :=
  recognisedValues credentialPairs r.query ++
    (recognisedPath p (splitSlash (trimPrefixSlash remaining)) ++ recognisedBody L r)

/-- The checks of a list of pairs, one after the other. -/
def checkAll (L : Library) (p : Provider) : List (Bytes × Bytes) → User → Except Error User
  | [], selected => .ok selected
  | pair :: pairs, selected =>
    match checkPair L p selected pair.1 pair.2 with
    | .error e => .error e
    | .ok user => checkAll L p pairs user

theorem checkAll_append (prs prs' : List (Bytes × Bytes)) (selected : User) :
    checkAll L p (prs ++ prs') selected =
      match checkAll L p prs selected with
      | .error e => .error e
      | .ok user => checkAll L p prs' user := by
  induction prs generalizing selected with
  | nil => rfl
  | cons pr prs ih =>
    simp only [List.cons_append, checkAll]
    rcases checkPair L p selected pr.1 pr.2 with e | user
    · rfl
    · exact ih user

/-! ## The three places -/

/-- The keys of the pairs after the first are other keys. -/
def SeparateKeys : List (Bytes × Bytes) → Prop :=
  List.Pairwise fun k k' => k'.1 ≠ k.1 ∧ k'.1 ≠ k.2 ∧ k'.2 ≠ k.1 ∧ k'.2 ≠ k.2

theorem separateKeys_credentialPairs : SeparateKeys credentialPairs := by
  unfold SeparateKeys
  decide

/-- Replacing one pair does not change the later ones. -/
theorem recognisedValues_set {pairs : List (Bytes × Bytes)} {nameKey passKey x y : Bytes}
    {q : Values} (hk : ∀ k' ∈ pairs, k'.1 ≠ nameKey ∧ k'.1 ≠ passKey ∧ k'.2 ≠ nameKey ∧
      k'.2 ≠ passKey) :
    recognisedValues pairs ((q.set nameKey x).set passKey y) = recognisedValues pairs q := by
  apply List.filterMap_congr
  intro k' hk'
  obtain ⟨h₁, h₂, h₃, h₄⟩ := hk k' hk'
  rw [Values.get_set_ne h₂, Values.get_set_ne h₁, Values.get_set_ne h₄, Values.get_set_ne h₃]

theorem translateValues_user {pairs : List (Bytes × Bytes)} (hkeys : SeparateKeys pairs)
    (selected : User) (q : Values) (matched : Bool) :
    (translateValues L p pairs selected q matched).map (·.1) =
      checkAll L p (recognisedValues pairs q) selected := by
  induction pairs generalizing selected q matched with
  | nil => rfl
  | cons k pairs ih =>
    obtain ⟨nameKey, passKey⟩ := k
    obtain ⟨hk, hkeys⟩ := List.pairwise_cons.mp hkeys
    simp only [translateValues, recognisedValues, List.filterMap_cons]
    split
    · exact ih hkeys selected q matched
    · simp only [checkAll]
      rcases checkPair L p selected (q.get nameKey) (q.get passKey) with e | user
      · rfl
      · dsimp only
        rw [ih hkeys, recognisedValues_set hk]
        rfl

theorem translatePath_user (segments : List Bytes) (selected : User) :
    (translatePath L p segments selected).map (·.2.1) =
      checkAll L p (recognisedPath p segments) selected := by
  induction segments using recognisedPath.induct p generalizing selected with
  | case1 => rfl
  | case2 => rfl
  | case3 segment next segments hknown ih =>
    simp only [translatePath, recognisedPath, hknown, if_true, checkAll]
    rcases checkPair L p selected segment next with e | user
    · rfl
    · dsimp only
      rw [← ih user]
      rcases translatePath L p segments user with e | ⟨rest, user, first⟩ <;> rfl
  | case4 segment next segments hknown ih =>
    simp only [translatePath, recognisedPath, hknown, Bool.false_eq_true, if_false]
    rw [← ih selected]
    rcases translatePath L p (next :: segments) selected with e | ⟨rest, user, first⟩ <;> rfl

theorem stringField_setField_ne {payload : List (Bytes × Json)} {k k' x : Bytes} (h : k' ≠ k) :
    stringField (setField payload k x) k' = stringField payload k' := by
  have hlookup : (setField payload k x).lookup k' = payload.lookup k' := by
    rw [setField, List.lookup_cons, beq_false_of_ne h]
    dsimp only
    induction payload with
    | nil => rfl
    | cons f fs ih =>
      by_cases hf : f.1 = k
      · have hne : (k' == f.1) = false := beq_false_of_ne (hf ▸ h)
        rw [List.filter_cons_of_neg (by simpa using hf), ih, List.lookup_cons, hne]
      · rw [List.filter_cons_of_pos (by simpa using hf), List.lookup_cons, List.lookup_cons, ih]
  rw [stringField, stringField, hlookup]

theorem recognisedFields_set {pairs : List (Bytes × Bytes)} {nameKey passKey x y : Bytes}
    {payload : List (Bytes × Json)} (hk : ∀ k' ∈ pairs, k'.1 ≠ nameKey ∧ k'.1 ≠ passKey ∧
      k'.2 ≠ nameKey ∧ k'.2 ≠ passKey) :
    recognisedFields pairs (setField (setField payload nameKey x) passKey y) =
      recognisedFields pairs payload := by
  apply List.filterMap_congr
  intro k' hk'
  obtain ⟨h₁, h₂, h₃, h₄⟩ := hk k' hk'
  rw [stringField_setField_ne h₂, stringField_setField_ne h₁, stringField_setField_ne h₄,
    stringField_setField_ne h₃]

theorem translateFields_user {pairs : List (Bytes × Bytes)} (hkeys : SeparateKeys pairs)
    (selected : User) (payload : List (Bytes × Json)) (matched : Bool) :
    (translateFields L p pairs selected payload matched).map (·.1) =
      checkAll L p (recognisedFields pairs payload) selected := by
  induction pairs generalizing selected payload matched with
  | nil => rfl
  | cons k pairs ih =>
    obtain ⟨nameKey, passKey⟩ := k
    obtain ⟨hk, hkeys⟩ := List.pairwise_cons.mp hkeys
    rcases hu : stringField payload nameKey with _ | username <;>
      rcases hp : stringField payload passKey with _ | password <;>
      simp only [translateFields, recognisedFields, List.filterMap_cons, hu, hp]
    case some.some =>
      split
      · exact ih hkeys selected payload matched
      · simp only [checkAll]
        rcases checkPair L p selected username password with e | user
        · rfl
        · dsimp only
          rw [ih hkeys, recognisedFields_set hk]
          rfl
    all_goals exact ih hkeys selected payload matched

theorem translateBody_user (r : Request) (selected : User) :
    (∃ e, translateXtreamBodyCredentials L p r selected = .error e) ∨
      (translateXtreamBodyCredentials L p r selected).map (·.1) =
        checkAll L p (recognisedBody L r) selected := by
  unfold translateXtreamBodyCredentials recognisedBody
  rcases bodyKind L r with _ | kind
  · exact .inr rfl
  · rcases r.body with _ | _ | body
    · cases kind <;> exact .inr rfl
    · exact .inl ⟨_, rfl⟩
    · dsimp only
      split
      · exact .inl ⟨_, rfl⟩
      · cases kind with
        | form =>
          dsimp only
          split
          · exact .inl ⟨_, rfl⟩
          · right
            rw [← translateValues_user separateKeys_credentialPairs selected _ false]
            rcases translateValues L p credentialPairs selected (Values.parse body).1 false with
              e | ⟨user, form, changed⟩ <;> rfl
        | json =>
          dsimp only
          split
          · exact .inr rfl
          · rcases L.decodeObject (L.trimSpace body) with _ | payload
            · exact .inl ⟨_, rfl⟩
            · right
              dsimp only
              rw [Option.map_some, Option.getD_some,
                ← translateFields_user separateKeys_credentialPairs selected payload false]
              rcases translateFields L p credentialPairs selected payload false with
                e | ⟨user, payload, changed⟩ <;> rfl

/-! ## Checking a list of pairs -/

theorem checkPair_eq_ok {selected u : User} {username password : Bytes}
    (h : checkPair L p selected username password = .ok u) :
    authenticateXtreamClient L p username password = some u ∧
      (selected.username = [] ∨ sameClientUser selected u = true) := by
  unfold checkPair at h
  split at h
  · cases h
  · next user hu =>
    unfold selectUser at h
    split at h
    · cases h
    · next hsel =>
      obtain rfl := Except.ok.inj h
      refine ⟨hu, ?_⟩
      rw [not_and_or, not_not] at hsel
      simpa using hsel

/-- The user that is left at the end was authenticated last; without pairs nothing changes. -/
theorem checkAll_eq_ok {prs : List (Bytes × Bytes)} {selected u : User}
    (h : checkAll L p prs selected = .ok u) :
    (prs = [] ∧ u = selected) ∨
      ∃ pr ∈ prs, authenticateXtreamClient L p pr.1 pr.2 = some u := by
  induction prs generalizing selected with
  | nil => exact .inl ⟨rfl, (Except.ok.inj h).symm⟩
  | cons pr prs ih =>
    right
    simp only [checkAll] at h
    split at h
    · cases h
    · next user hpr =>
      rcases ih h with ⟨-, rfl⟩ | ⟨pr', hmem, hauth⟩
      · exact ⟨pr, List.mem_cons_self .., (checkPair_eq_ok hpr).1⟩
      · exact ⟨pr', List.mem_cons_of_mem _ hmem, hauth⟩

/-- If every user has an id, all pairs were authenticated as one user. -/
theorem checkAll_same (hids : ∀ user ∈ p.users, user.id ≠ []) {prs : List (Bytes × Bytes)}
    {selected u : User} (h : checkAll L p prs selected = .ok u) :
    (∀ pr ∈ prs, ∃ w, authenticateXtreamClient L p pr.1 pr.2 = some w ∧ w.id = u.id) ∧
      (selected.username ≠ [] → selected.id ≠ [] → selected.id = u.id) := by
  induction prs generalizing selected with
  | nil =>
    obtain rfl := Except.ok.inj h
    exact ⟨(fun pr hpr => by cases hpr), fun _ _ => rfl⟩
  | cons pr prs ih =>
    simp only [checkAll] at h
    split at h
    · cases h
    · next user hpr =>
      obtain ⟨hauth, hsame⟩ := checkPair_eq_ok hpr
      obtain ⟨hall, hid⟩ := ih h
      have huser : user.id ≠ [] := by
        obtain ⟨v, hv, hvid⟩ := id_mem hauth
        rw [← hvid]
        exact hids v hv
      have hu : user.id = u.id := hid (username_ne_nil hauth) huser
      constructor
      · intro pr' hpr'
        rcases List.mem_cons.mp hpr' with rfl | hmem
        · exact ⟨user, hauth, hu⟩
        · exact hall pr' hmem
      · intro hname hsid
        rcases hsame with hnil | hsame
        · exact absurd hnil hname
        · rw [sameClientUser, if_pos ⟨hsid, huser⟩] at hsame
          exact (of_decide_eq_true hsame).trans hu

/-! ## The translator -/

/-- **The translator checks the recognised pairs**: what it selects is what the checks leave. -/
theorem checkAll_of_build {remaining : Bytes} {r : Request} {t : Translated}
    (h : buildTransparentUpstreamURL L p remaining r = .ok t) :
    checkAll L p (recognised L p remaining r) .zero = .ok t.user ∧ t.user.username ≠ [] := by
  obtain ⟨a⟩ := accepted_of_build h
  have hq := translateValues_user (L := L) (p := p) separateKeys_credentialPairs .zero r.query false
  have hp := translatePath_user (L := L) (p := p) (splitSlash (trimPrefixSlash remaining))
    a.queryUser
  have hb := (translateBody_user (L := L) (p := p) r a.pathUser).resolve_left fun ⟨e, he⟩ => by
    rw [a.hbody] at he
    cases he
  rw [a.hquery] at hq
  rw [a.hpath] at hp
  rw [a.hbody] at hb
  have hcheck : checkAll L p (recognised L p remaining r) .zero = .ok a.bodyUser := by
    rw [recognised, checkAll_append, ← hq]
    dsimp only [Except.map]
    rw [checkAll_append, ← hp]
    exact hb.symm
  refine ⟨?_, a.huser⟩
  have hselect := a.hselect
  split at hselect
  · unfold selectUser at hselect
    split at hselect
    · cases hselect
    · obtain heq := Except.ok.inj hselect
      rw [← heq]
      exact hcheck
  · next hnil =>
    obtain heq := Except.ok.inj hselect
    rw [not_not] at hnil
    rw [hcheck, ← heq]
    rcases checkAll_eq_ok hb.symm with ⟨-, hsame⟩ | ⟨pr, -, hauth⟩
    · exact congrArg _ hsame
    · exact absurd hnil (username_ne_nil hauth)

/-- A pair that authenticates nobody fails the request. -/
theorem checkAll_invalid {prs : List (Bytes × Bytes)} {pr : Bytes × Bytes} (hpr : pr ∈ prs)
    (hnone : authenticateXtreamClient L p pr.1 pr.2 = none) (selected u : User) :
    checkAll L p prs selected ≠ .ok u := by
  induction prs generalizing selected with
  | nil => cases hpr
  | cons pr' prs ih =>
    simp only [checkAll]
    rcases List.mem_cons.mp hpr with rfl | hmem
    · simp [checkPair, hnone]
    · rcases checkPair L p selected pr'.1 pr'.2 with e | user
      · simp
      · exact ih hmem user

theorem exists_error {α : Type} {x : Except Error α} (h : ∀ a, x ≠ .ok a) :
    ∃ e, x = .error e := by
  rcases x with e | a
  · exact ⟨e, rfl⟩
  · exact absurd rfl (h a)

/-- **Authentication soundness.** If every user has an id: an accepted request has a recognised
pair that the stored verifier of the selected, enabled user accepts (as sent or with `+` for
spaces), and all recognised pairs authenticate as this user; a recognised pair that no enabled
user's verifier accepts, and two recognised pairs of different users, fail the request. -/
theorem translator_authenticates (p : Provider) (remaining : Bytes) (r : Request)
    (hids : ∀ user ∈ p.users, user.id ≠ []) :
    (∀ t, buildTransparentUpstreamURL L p remaining r = .ok t →
      (∃ pr ∈ recognised L p remaining r, Verified L p pr.1 pr.2 t.user ∨
        Verified L p (plusForSpaces pr.1) (plusForSpaces pr.2) t.user) ∧
      ∀ pr ∈ recognised L p remaining r, ∃ w,
        authenticateXtreamClient L p pr.1 pr.2 = some w ∧ w.id = t.user.id) ∧
    (∀ pr ∈ recognised L p remaining r,
      (∀ u, ¬ Verified L p pr.1 pr.2 u ∧
        ¬ Verified L p (plusForSpaces pr.1) (plusForSpaces pr.2) u) →
      ∃ e, buildTransparentUpstreamURL L p remaining r = .error e) ∧
    ∀ pr ∈ recognised L p remaining r, ∀ pr' ∈ recognised L p remaining r, ∀ w w',
      authenticateXtreamClient L p pr.1 pr.2 = some w →
      authenticateXtreamClient L p pr'.1 pr'.2 = some w' → w.id ≠ w'.id →
      ∃ e, buildTransparentUpstreamURL L p remaining r = .error e := by
  refine ⟨fun t ht => ?_, fun pr hpr hnone => exists_error fun t ht => ?_,
    fun pr hpr pr' hpr' w w' hw hw' hne => exists_error fun t ht => ?_⟩
  · obtain ⟨hcheck, hname⟩ := checkAll_of_build ht
    refine ⟨?_, (checkAll_same hids hcheck).1⟩
    rcases checkAll_eq_ok hcheck with ⟨-, hzero⟩ | ⟨pr, hpr, hauth⟩
    · rw [hzero] at hname
      exact absurd rfl hname
    · exact ⟨pr, hpr, authenticateXtreamClient_eq_some hauth⟩
  · refine checkAll_invalid hpr ?_ .zero t.user (checkAll_of_build ht).1
    rcases hauth : authenticateXtreamClient L p pr.1 pr.2 with _ | u
    · rfl
    · rcases authenticateXtreamClient_eq_some hauth with hv | hv
      · exact absurd hv (hnone u).1
      · exact absurd hv (hnone u).2
  · obtain ⟨hall, -⟩ := checkAll_same hids (checkAll_of_build ht).1
    obtain ⟨v, hv, hid⟩ := hall pr hpr
    obtain ⟨v', hv', hid'⟩ := hall pr' hpr'
    obtain rfl := Option.some.inj (hw.symm.trans hv)
    obtain rfl := Option.some.inj (hw'.symm.trans hv')
    exact hne (hid.trans hid'.symm)

/-! ## Examples -/

/-- ASCII text only, one provider host, and a verifier that compares with the stored text. -/
def asciiLibrary : Library where
  verifyProviderPassword password encoded := password = encoded
  toLower s := s.map fun c => if 65 ≤ c.val ∧ c.val ≤ 90 then c + 32 else c
  equalFold s t :=
    (s.map fun c => if 65 ≤ c.val ∧ c.val ≤ 90 then c + 32 else c) =
      t.map fun c => if 65 ≤ c.val ∧ c.val ≤ 90 then c + 32 else c
  trimSpace s := s
  parseURL s := if s = ascii "http://upstream" then
    some ⟨ascii "http", ascii "upstream", [], []⟩ else none
  decodeObject _ := none
  marshalObject _ := []

/-- A provider with these users. -/
def sampleProvider (users : List User) : Provider :=
  ⟨ascii "p", ascii "http://upstream", ascii "tv", ascii "UP", ascii "SECRET", users, 1, 6⟩

/-- A user with this id, name and password. -/
def sampleUser (id name password : String) : User := ⟨ascii id, ascii name, ascii password, 1, []⟩

/-- A request without a body. -/
def getRequest (rawQuery : String) : Request := ⟨ascii "GET", ascii rawQuery, [], .absent⟩

/-- Three enabled users called `bob`, the second one without an id. -/
def threeBobs : Provider :=
  sampleProvider [sampleUser "1" "bob" "a", sampleUser "" "bob" "b", sampleUser "2" "bob" "c"]

/-- A request with pairs of three users is accepted as the last one. -/
theorem three_users_pass_as_one :
    ((buildTransparentUpstreamURL asciiLibrary threeBobs (ascii "/live/bob/c/7.ts")
      (getRequest "username=bob&password=a&user=bob&pass=b")).toOption.map fun t => t.user.id) =
        some (ascii "2") ∧
    (ascii "bob", ascii "a") ∈ recognised asciiLibrary threeBobs (ascii "/live/bob/c/7.ts")
      (getRequest "username=bob&password=a&user=bob&pass=b") ∧
    (authenticateXtreamClient asciiLibrary threeBobs (ascii "bob") (ascii "a")).map User.id =
      some (ascii "1") := by
  decide +kernel

/-- One user, with the pair in the query and in the path. -/
theorem translator_authenticates_sample :
    ∃ t, buildTransparentUpstreamURL asciiLibrary (sampleProvider [sampleUser "1" "bob" "a"])
        (ascii "/live/bob/a/7.ts") (getRequest "username=bob&password=a") = .ok t ∧
      ∀ pr ∈ recognised asciiLibrary (sampleProvider [sampleUser "1" "bob" "a"])
          (ascii "/live/bob/a/7.ts") (getRequest "username=bob&password=a"), ∃ w,
        authenticateXtreamClient asciiLibrary (sampleProvider [sampleUser "1" "bob" "a"]) pr.1 pr.2 =
          some w ∧ w.id = t.user.id := by
  obtain ⟨t, ht⟩ : ∃ t, buildTransparentUpstreamURL asciiLibrary
      (sampleProvider [sampleUser "1" "bob" "a"]) (ascii "/live/bob/a/7.ts")
      (getRequest "username=bob&password=a") = .ok t := by
    have hsome : (buildTransparentUpstreamURL asciiLibrary
        (sampleProvider [sampleUser "1" "bob" "a"]) (ascii "/live/bob/a/7.ts")
        (getRequest "username=bob&password=a")).isOk = true := by decide +kernel
    rcases hb : buildTransparentUpstreamURL asciiLibrary
        (sampleProvider [sampleUser "1" "bob" "a"]) (ascii "/live/bob/a/7.ts")
        (getRequest "username=bob&password=a") with e | t
    · rw [hb] at hsome
      cases hsome
    · exact ⟨t, rfl⟩
  refine ⟨t, ht, ((translator_authenticates _ _ _ ?_).1 t ht).2⟩
  intro user hu
  obtain rfl := List.mem_singleton.mp hu
  decide

end IptvProxy.Xtream
