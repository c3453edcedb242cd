import IptvProxy.Media.M3u
import IptvProxy.Media.Transparent

/-!
# What is logged of an upstream URL

`safeURLString` (`internal/proxy/trace.go`) replaces the parameters whose names are sensitive and
the path segments that follow the words of the known routes. The translator puts the provider's
credentials wherever the client's were. `logged_hides_credentials_iff` says for which requests the
logged text does not depend on them: each credential of the path must be one of the segments after
a route word that has not been replaced itself.
-/

namespace IptvProxy.Media

open Xtream Catchup Catalog

variable (L : Library)

/-! ## The redactor -/

/-- What stands for a secret. -/
def redacted : Bytes := ascii "REDACTED"

/-- `sensitiveURLParameter` -/
def sensitiveURLParameter (key : Bytes) : Bool :=
  let lower := L.toLower (trimSpace key)
  if lower ∈ [ascii "username", ascii "user", ascii "password", ascii "pass",
      ascii "authorization", ascii "auth", ascii "apikey", ascii "api_key"] then true
  else decide (ascii "password" <:+: lower) || decide (ascii "token" <:+: lower) ||
    decide (ascii "secret" <:+: lower)

/-- The loop over the names of a query; each name is set on its own. -/
def redactValues (query : Values) : Values :=
  query.names.foldl
    (fun q key => if sensitiveURLParameter L key then q.set key redacted else q) query

/-- How many of the following segments a segment has replaced. -/
def redactedAfter (segment : Bytes) : ℕ :=
  let lower := L.toLower segment
  if lower ∈ [ascii "live", ascii "movie", ascii "series", ascii "timeshift"] then 2
  else if lower = ascii "_hls" then 1
  else 0

/-- The loop of `redactCredentialPath`: `pending` segments have been replaced already. The loop
reads the slice it writes, so of a replaced segment it sees the replacement. -/
def redactSegments : ℕ → List Bytes → List Bytes
  | _, [] => []
  | pending, segment :: segments =>
    let segment := if pending = 0 then segment else redacted
    segment :: redactSegments (max (pending - 1) (redactedAfter L segment)) segments

/-- `redactCredentialPath` -/
def redactCredentialPath (rawPath : Bytes) : Bytes :=
  joinSlash (redactSegments L 0 (splitSlash rawPath))

/-- `safeURLString` -/
def safeURLString (raw : Bytes) : Bytes :=
  match Reference.parse raw with
  | none => ascii "[invalid URL]"
  | some parsed => ({ parsed with
      user := none
      path := redactCredentialPath L parsed.path
      rawPath := []
      rawQuery := (redactValues L (Values.parse parsed.rawQuery).1).encode } : Reference).text

/-! ## Where the credentials stand -/

/-- The provider with another account upstream. -/
def withUpstream (p : Provider) (username password : Bytes) : Provider :=
  { p with upstreamUsername := username, upstreamPassword := password }

/-- What is logged of an accepted request when the upstream account is this one. -/
def logged (base : Reference) (p : Provider) (remaining : Bytes) (r : Xtream.Request)
    (username password : Bytes) : Option Bytes :=
  (buildTransparentUpstreamURL L (withUpstream p username password) remaining r).toOption.map
    fun t => safeURLString L (upstream base t).text

/-- The segments that are sent, without the provider's credentials. -/
def publicSegments (p : Provider) : List Bytes → List (Option Bytes)
  | [] => []
  | [segment] => [some segment]
  | segment :: next :: segments =>
    if providerHasClientUsername p segment then none :: none :: publicSegments p segments
    else some segment :: publicSegments p (next :: segments)

/-- The segments of the upstream path, without the provider's credentials. -/
def publicPath (p : Provider) (base : Reference) (remaining : Bytes) : List (Option Bytes) :=
  (splitSlash (trimSuffixSlash base.path)).map some ++
    publicSegments p (splitSlash (trimPrefixSlash remaining))

/-- Each credential is one of the segments that a route word has replaced. -/
def covered : ℕ → List (Option Bytes) → Bool
  | _, [] => true
  | pending, none :: segments => pending ≠ 0 && covered (pending - 1) segments
  | pending, some segment :: segments =>
    covered (if pending = 0 then redactedAfter L segment else pending - 1) segments

/-- What `normalizeHost` lets through as the host of a provider: an absolute URL of the web without
credentials and without a fragment. -/
structure IsProviderHost (base : Reference) : Prop where
  /-- its scheme -/
  web : isWeb base.scheme = true
  /-- it has a host -/
  host : base.host ≠ []
  /-- no credentials -/
  user : base.user = none
  /-- no fragment -/
  fragment : base.fragment = []

/-- `strings.ToLower` of ASCII text. -/
def LowersAscii : Prop :=
  ∀ s : Bytes, (∀ c ∈ s, c.val < 128) → L.toLower s = s.map lower

variable {L} {p : Provider} {base u : Reference} {remaining username password c s : Bytes}
  {r : Xtream.Request} {pending : ℕ} {segments sent sent' : List Bytes}

/-! ## The path -/

/-- The segments that are no credentials are these. -/
abbrev Shows (known : List (Option Bytes)) (sent : List Bytes) : Prop :=
  List.Forall₂ (fun known s => ∀ x, known = some x → s = x) known sent

theorem redactedAfter_redacted (hlower : LowersAscii L) : redactedAfter L redacted = 0 := by
  rw [redactedAfter, hlower redacted (List.forall_iff_forall_mem.mp (by decide))]
  decide

/-- Covered credentials leave no trace. -/
theorem redactSegments_of_covered (hlower : LowersAscii L) {known : List (Option Bytes)}
    (h : covered L pending known = true) (hsent : Shows known sent) (hsent' : Shows known sent') :
    redactSegments L pending sent = redactSegments L pending sent' := by
  induction known generalizing pending sent sent' with
  | nil =>
    cases hsent
    cases hsent'
    rfl
  | cons first known ih =>
    obtain _ | ⟨hfirst, hrest⟩ := hsent
    obtain _ | ⟨hfirst', hrest'⟩ := hsent'
    rw [redactSegments, redactSegments]
    by_cases hpending : pending = 0
    · cases first with
      | none =>
        rw [covered, hpending] at h
        cases h
      | some x =>
        rw [covered, if_pos hpending] at h
        rw [hfirst x rfl, hfirst' x rfl]
        refine congrArg _ (ih ?_ hrest hrest')
        rw [if_pos hpending, hpending, Nat.zero_sub, Nat.zero_max]
        exact h
    · simp only [if_neg hpending, redactedAfter_redacted hlower, Nat.max_zero]
      refine congrArg _ (ih ?_ hrest hrest')
      cases first with
      | none =>
        rw [covered, Bool.and_eq_true] at h
        exact h.2
      | some x =>
        rw [covered, if_neg hpending] at h
        exact h

/-- A credential that is not covered is printed. -/
theorem redactSegments_of_not_covered (hlower : LowersAscii L) {known : List (Option Bytes)}
    {a b : Bytes} (hab : a ≠ b) (h : covered L pending known = false) :
    redactSegments L pending (known.map (·.getD a)) ≠
      redactSegments L pending (known.map (·.getD b)) := by
  induction known generalizing pending with
  | nil => cases h
  | cons first known ih =>
    rw [List.map_cons, List.map_cons, redactSegments, redactSegments]
    by_cases hpending : pending = 0
    · cases first with
      | none =>
        rw [if_pos hpending, if_pos hpending]
        exact fun heq => hab (List.cons.inj heq).1
      | some x =>
        rw [covered, if_pos hpending] at h
        intro heq
        refine ih ?_ (List.cons.inj heq).2
        rw [if_pos hpending, hpending, Nat.zero_sub, Nat.zero_max]
        exact h
    · simp only [if_neg hpending, redactedAfter_redacted hlower, Nat.max_zero]
      intro heq
      refine ih ?_ (List.cons.inj heq).2
      cases first with
      | none =>
        rw [covered, Bool.and_eq_false_iff] at h
        refine h.resolve_left ?_
        simpa using hpending
      | some x =>
        rw [covered, if_neg hpending] at h
        exact h

/-- No segment gets a slash. -/
theorem slash_not_mem_redactSegments (h : ∀ s ∈ segments, slash ∉ s) :
    ∀ s ∈ redactSegments L pending segments, slash ∉ s := by
  induction segments generalizing pending with
  | nil => exact fun s hs => by cases hs
  | cons segment segments ih =>
    intro s hs
    rw [redactSegments] at hs
    rcases List.mem_cons.mp hs with rfl | hs
    · split
      · exact h segment List.mem_cons_self
      · decide
    · exact ih (fun s hs => h s (List.mem_cons_of_mem _ hs)) s hs

theorem redactSegments_ne_nil (h : segments ≠ []) : redactSegments L pending segments ≠ [] := by
  cases segments with
  | nil => exact absurd rfl h
  | cons => exact List.cons_ne_nil _ _

/-- Paths with other segments stay apart. -/
theorem redactSegments_of_path {path path' : Bytes}
    (h : redactCredentialPath L path = redactCredentialPath L path') :
    redactSegments L 0 (splitSlash path) = redactSegments L 0 (splitSlash path') := by
  have hsplit : ∀ s, splitSlash (redactCredentialPath L s) = redactSegments L 0 (splitSlash s) :=
    fun s => splitSlash_joinSlash (slash_not_mem_redactSegments (slash_not_mem_splitSlash s))
      (redactSegments_ne_nil (splitSlash_ne_nil s))
  rw [← hsplit, ← hsplit, h]

/-- What the translator makes of the path. -/
theorem shows_translatePath {selected user : User} {first : Option ℕ}
    (h : translatePath L p segments selected = .ok (sent, user, first)) :
    Shows (publicSegments p segments) sent ∧ (p.upstreamUsername = p.upstreamPassword →
      sent = (publicSegments p segments).map (·.getD p.upstreamUsername)) := by
  induction segments using recognisedPath.induct p generalizing selected sent user first with
  | case1 =>
    obtain ⟨rfl, -⟩ := Prod.mk.inj (Except.ok.inj h)
    exact ⟨.nil, fun _ => rfl⟩
  | case2 segment =>
    obtain ⟨rfl, -⟩ := Prod.mk.inj (Except.ok.inj h)
    exact ⟨.cons (fun x hx => Option.some.inj hx) .nil, fun _ => rfl⟩
  | case3 segment next segments hknown ih =>
    rw [translatePath, if_pos hknown] at h
    rw [publicSegments, if_pos hknown]
    split at h
    · cases h
    · split at h
      · cases h
      · next rest _ _ hrest =>
        obtain ⟨rfl, -⟩ := Prod.mk.inj (Except.ok.inj h)
        obtain ⟨hshows, hsame⟩ := ih hrest
        refine ⟨.cons (fun x hx => by cases hx) (.cons (fun x hx => by cases hx) hshows), ?_⟩
        intro heq
        rw [List.map_cons, List.map_cons, ← hsame heq, ← heq]
        rfl
  | case4 segment next segments hknown ih =>
    rw [translatePath, if_neg hknown] at h
    rw [publicSegments, if_neg hknown]
    split at h
    · cases h
    · next rest _ _ hrest =>
      obtain ⟨rfl, -⟩ := Prod.mk.inj (Except.ok.inj h)
      obtain ⟨hshows, hsame⟩ := ih hrest
      refine ⟨.cons (fun x hx => Option.some.inj hx) hshows, fun heq => ?_⟩
      rw [List.map_cons, ← hsame heq]
      rfl

/-- The upstream path as segments. -/
theorem splitSlash_upstreamPath (hsent : sent ≠ []) (hslash : ∀ s ∈ sent, slash ∉ s) :
    splitSlash (upstreamPath base sent) = splitSlash (trimSuffixSlash base.path) ++ sent := by
  rw [upstreamPath, splitSlash, List.splitOn_append_cons_self]
  exact congrArg _ (splitSlash_joinSlash hslash hsent)

/-! ## The query -/

theorem values_redactValues (query : Values) (k : Bytes) : (redactValues L query).values k =
    if sensitiveURLParameter L k = true ∧ query.values k ≠ [] then [redacted]
    else query.values k := by
  have hfold : ∀ (names : List Bytes) (q : Values), (names.foldl
      (fun q key => if sensitiveURLParameter L key then q.set key redacted else q) q).values k =
      if sensitiveURLParameter L k = true ∧ k ∈ names then [redacted] else q.values k := by
    intro names
    induction names with
    | nil => exact fun q => (if_neg fun h => by cases h.2).symm
    | cons key names ih =>
      intro q
      rw [List.foldl_cons, ih]
      by_cases hlater : sensitiveURLParameter L k = true ∧ k ∈ names
      · rw [if_pos hlater, if_pos ⟨hlater.1, List.mem_cons_of_mem _ hlater.2⟩]
      · rw [if_neg hlater]
        by_cases hkey : k = key
        · subst hkey
          by_cases hsensitive : sensitiveURLParameter L k = true
          · rw [if_pos hsensitive, if_pos ⟨hsensitive, List.mem_cons_self⟩,
              Values.values_set_self]
          · rw [if_neg hsensitive, if_neg fun h => hsensitive h.1]
        · have hmem : ¬(sensitiveURLParameter L k = true ∧ k ∈ key :: names) := by
            rintro ⟨h, hk⟩
            exact hlater ⟨h, (List.mem_cons.mp hk).resolve_left hkey⟩
          rw [if_neg hmem]
          split
          · exact Values.values_set_ne hkey
          · rfl
  rw [redactValues, hfold]
  simp only [Values.mem_names]

theorem sensitive_credentialPairs (hlower : LowersAscii L) :
    ∀ pair ∈ credentialPairs, sensitiveURLParameter L pair.1 = true ∧
      sensitiveURLParameter L pair.2 = true := by
  have hname : ∀ key ∈ [ascii "username", ascii "user", ascii "password", ascii "pass"],
      ((trimSpace key).Forall fun c => c.val < 128) ∧ (trimSpace key).map lower ∈
        [ascii "username", ascii "user", ascii "password", ascii "pass", ascii "authorization",
          ascii "auth", ascii "apikey", ascii "api_key"] := by decide
  have hall : ∀ key ∈ [ascii "username", ascii "user", ascii "password", ascii "pass"],
      sensitiveURLParameter L key = true := by
    intro key hkey
    obtain ⟨hascii, hmem⟩ := hname key hkey
    rw [sensitiveURLParameter, hlower _ (List.forall_iff_forall_mem.mp hascii)]
    exact if_pos hmem
  intro pair hpair
  rcases List.mem_cons.mp hpair with rfl | hpair
  · exact ⟨hall _ (by simp), hall _ (by simp)⟩
  · rw [List.mem_singleton.mp hpair]
    exact ⟨hall _ (by simp), hall _ (by simp)⟩

/-- No parameter comes or goes, and those that are shown stay. -/
theorem values_sent (hlower : LowersAscii L) {selected user : User} {q form : Values}
    {matched changed : Bool}
    (h : translateValues L p credentialPairs selected q matched = .ok (user, form, changed))
    (k : Bytes) : (form.values k = [] ↔ q.values k = []) ∧
      (sensitiveURLParameter L k = false → form.values k = q.values k) := by
  by_cases hk : k ∈ recognisedNames q
  · obtain ⟨pair, hpair, hk⟩ := List.mem_flatMap.mp hk
    obtain ⟨hpair, hcomplete⟩ := List.mem_filter.mp hpair
    obtain ⟨hname, hpass⟩ := of_decide_eq_true hcomplete
    have hsensitive := sensitive_credentialPairs hlower pair hpair
    have hq : q.values k ≠ [] := by
      intro hnil
      have hget := Values.get_eq_nil_of_values hnil
      rcases List.mem_cons.mp hk with rfl | hk
      · exact hname hget
      · rw [List.mem_singleton.mp hk] at hget
        exact hpass hget
    have hform : form.values k ≠ [] := by
      rw [(translateValues_eq separateKeys_credentialPairs h).1]
      have hvalues := values_replaceValues (p := p) q k
      rw [replaceValues, completePairs] at hvalues
      rw [hvalues]
      split
      · exact List.cons_ne_nil _ _
      · exact hq
    refine ⟨iff_of_false hform hq, fun hfalse => ?_⟩
    rcases List.mem_cons.mp hk with rfl | hk
    · rw [hsensitive.1] at hfalse
      cases hfalse
    · rw [List.mem_singleton.mp hk, hsensitive.2] at hfalse
      cases hfalse
  · rw [values_translated h hk]
    exact ⟨Iff.rfl, fun _ => rfl⟩

theorem encode_eq_nil {q : Values} : q.encode = [] ↔ ∀ k, q.values k = [] := by
  constructor
  · intro h k
    have hparse := Values.parse_encode q
    rw [h] at hparse
    have hsorted : q.sorted = [] := (Prod.mk.inj hparse).1.symm
    rw [← Values.sorted_same k, hsorted]
    rfl
  · intro h
    have hsame : Values.Same q [] := h
    rw [Values.encode_congr hsame]
    rfl

/-- What is logged of the query is the client's. -/
theorem encode_redactValues (hlower : LowersAscii L) {selected user : User} {q form : Values}
    {matched changed : Bool}
    (h : translateValues L p credentialPairs selected q matched = .ok (user, form, changed)) :
    (redactValues L (Values.parse form.encode).1).encode = (redactValues L q).encode ∧
      (form.encode = [] ↔ ∀ k, q.values k = []) := by
  refine ⟨Values.encode_congr fun k => ?_, ?_⟩
  · obtain ⟨hnil, hshown⟩ := values_sent hlower h k
    rw [values_redactValues, values_redactValues, Values.parse_encode, Values.sorted_same k]
    by_cases hsensitive : sensitiveURLParameter L k = true
    · by_cases hvalues : q.values k = []
      · rw [if_neg fun h => h.2 (hnil.mpr hvalues), if_neg fun h => h.2 hvalues, hvalues]
        exact hnil.mpr hvalues
      · rw [if_pos ⟨hsensitive, fun h => hvalues (hnil.mp h)⟩, if_pos ⟨hsensitive, hvalues⟩]
    · rw [if_neg fun h => hsensitive h.1, if_neg fun h => hsensitive h.1]
      exact hshown (Bool.not_eq_true _ ▸ hsensitive)
  · rw [encode_eq_nil]
    exact forall_congr' fun k => (values_sent hlower h k).1

/-! ## Other accounts are accepted too -/

theorem checkAll_withUpstream (pairs : List (Bytes × Bytes)) (selected : User) :
    checkAll L (withUpstream p username password) pairs selected = checkAll L p pairs selected := by
  induction pairs generalizing selected with
  | nil => rfl
  | cons pair pairs ih =>
    rw [checkAll, checkAll]
    have hpair : checkPair L (withUpstream p username password) selected pair.1 pair.2 =
      checkPair L p selected pair.1 pair.2 := rfl
    rw [hpair]
    rcases checkPair L p selected pair.1 pair.2 with e | user
    · rfl
    · exact ih user

theorem known_withUpstream : providerHasClientUsername (withUpstream p username password) =
    providerHasClientUsername p := rfl

theorem recognisedPath_withUpstream (segments : List Bytes) :
    recognisedPath (withUpstream p username password) segments = recognisedPath p segments := by
  induction segments using recognisedPath.induct p with
  | case1 => rfl
  | case2 => rfl
  | case3 segment next segments hknown ih =>
    rw [recognisedPath, recognisedPath, known_withUpstream, if_pos hknown, if_pos hknown, ih]
  | case4 segment next segments hknown ih =>
    rw [recognisedPath, recognisedPath, known_withUpstream, if_neg hknown, if_neg hknown, ih]

theorem publicSegments_withUpstream (segments : List Bytes) :
    publicSegments (withUpstream p username password) segments = publicSegments p segments := by
  induction segments using recognisedPath.induct p with
  | case1 => rfl
  | case2 => rfl
  | case3 segment next segments hknown ih =>
    rw [publicSegments, publicSegments, known_withUpstream, if_pos hknown, if_pos hknown, ih]
  | case4 segment next segments hknown ih =>
    rw [publicSegments, publicSegments, known_withUpstream, if_neg hknown, if_neg hknown, ih]

theorem ok_of_map {α β : Type} {f : α → β} {x : Except Error α} {y : β} (h : x.map f = .ok y) :
    ∃ a, x = .ok a ∧ f a = y := by
  rcases x with e | a
  · cases h
  · exact ⟨a, rfl, Except.ok.inj h⟩

/-- The user that is selected after the body. -/
theorem translateBody_withUpstream (username password : Bytes) (selected : User) :
    (translateXtreamBodyCredentials L (withUpstream p username password) r selected).map (·.1) =
      (translateXtreamBodyCredentials L p r selected).map (·.1) := by
  unfold translateXtreamBodyCredentials
  rcases bodyKind L r with _ | kind
  · rfl
  · rcases r.body with _ | _ | body
    · rfl
    · rfl
    · dsimp only
      split
      · rfl
      · cases kind with
        | form =>
          dsimp only
          split
          · rfl
          · have huser := translateValues_user (L := L) (p := p) separateKeys_credentialPairs
              selected (Values.parse body).1 false
            have huser' := translateValues_user (L := L) (p := withUpstream p username password)
              separateKeys_credentialPairs selected (Values.parse body).1 false
            rw [checkAll_withUpstream, ← huser] at huser'
            rcases hx : translateValues L p credentialPairs selected (Values.parse body).1 false
              with e | ⟨user, form, changed⟩ <;>
              rcases hy : translateValues L (withUpstream p username password) credentialPairs
                selected (Values.parse body).1 false with e' | ⟨user', form', changed'⟩ <;>
              rw [hx, hy] at huser' <;>
              exact huser'
        | json =>
          dsimp only
          split
          · rfl
          · rcases L.decodeObject (L.trimSpace body) with _ | payload
            · rfl
            · dsimp only
              have huser := translateFields_user (L := L) (p := p) separateKeys_credentialPairs
                selected payload false
              have huser' := translateFields_user (L := L)
                (p := withUpstream p username password) separateKeys_credentialPairs selected
                payload false
              rw [checkAll_withUpstream, ← huser] at huser'
              rcases hx : translateFields L p credentialPairs selected payload false with
                e | ⟨user, fields, changed⟩ <;>
                rcases hy : translateFields L (withUpstream p username password) credentialPairs
                  selected payload false with e' | ⟨user', fields', changed'⟩ <;>
                rw [hx, hy] at huser' <;>
                exact huser'

/-- Whether a request is accepted does not depend on the upstream account. -/
theorem accepted_withUpstream {t : Translated}
    (h : buildTransparentUpstreamURL L p remaining r = .ok t) (username password : Bytes) :
    ∃ t', buildTransparentUpstreamURL L (withUpstream p username password) remaining r = .ok t' := by
  obtain ⟨a⟩ := accepted_of_build h
  have hquery := translateValues_user (L := L) (p := withUpstream p username password)
    separateKeys_credentialPairs .zero r.query false
  rw [checkAll_withUpstream, ← translateValues_user separateKeys_credentialPairs .zero r.query
    false, a.hquery] at hquery
  obtain ⟨⟨_, q, m⟩, hquery, rfl⟩ := ok_of_map hquery
  have hpath := translatePath_user (L := L) (p := withUpstream p username password)
    (splitSlash (trimPrefixSlash remaining)) a.queryUser
  rw [checkAll_withUpstream, recognisedPath_withUpstream, ← translatePath_user, a.hpath] at hpath
  obtain ⟨⟨segments, _, first⟩, hpath, rfl⟩ := ok_of_map hpath
  have hbody := translateBody_withUpstream (L := L) (p := p) (r := r) username password a.pathUser
  rw [a.hbody] at hbody
  obtain ⟨⟨_, body⟩, hbody, rfl⟩ := ok_of_map hbody
  exact ⟨_, build_of_accepted (t := ⟨_, _, t.user, body⟩) {
    base := a.base
    queryUser := a.queryUser
    query := q
    matched := m
    pathUser := a.pathUser
    segments := segments
    first := first
    bodyUser := a.bodyUser
    hbase := a.hbase
    hblocked := a.hblocked
    hquery := hquery
    hpath := hpath
    hbody := hbody
    hselect := a.hselect
    huser := a.huser
    hurl := rfl
    hendpoint := rfl }⟩

/-! ## The text is read back -/

/-- The bytes of a text that is no fragment, query or path. -/
def isPart (c : Byte) : Bool :=
  !isControl c && c ≠ number && c ≠ questionMark

theorem isPart_of_unreserved {c : Byte} (h : Values.unreserved c = true) : isPart c = true := by
  obtain ⟨hcontrol, hnumber⟩ := clean_queryByte (isQueryByte_of_unreserved h)
  have hquestion : c ≠ questionMark := ne_of_unreserved h (by decide)
  simp [isPart, hcontrol, hnumber, hquestion]

theorem isPart_host (host : Bytes) : ∀ c ∈ Percent.escape hostMode host,
    isPart c = true ∧ c ≠ slash ∧ c ≠ atSign :=
  of_mem_host (P := fun c => isPart c = true ∧ c ≠ slash ∧ c ≠ atSign)
    (forall_hostMode (fun _ hc => ⟨isPart_of_unreserved hc, ne_of_unreserved hc (by decide),
      ne_of_unreserved hc (by decide)⟩) (by decide))
    (by decide) (by decide) host

theorem isPart_escapedPath (u : Reference) : ∀ c ∈ u.escapedPath, isPart c = true := by
  have hkeep := forall_pathMode (fun _ hc => isPart_of_unreserved hc) (by decide)
  rw [Reference.escapedPath]
  split
  · exact List.forall_iff_forall_mem.mp (by decide)
  · rw [escapedText]
    split
    · next h =>
      intro c hc
      have hvalid := List.all_eq_true.mp h.2.1 c hc
      rw [Bool.or_eq_true, List.contains_iff_mem] at hvalid
      exact hkeep c hvalid
    · exact Percent.escape_forall (fun c hc => hkeep c (.inl hc)) (by decide) (by decide)
        (by decide) u.path

theorem splitScheme_web {scheme rest : Bytes} (h : isWeb scheme = true) :
    splitScheme (scheme ++ colon :: rest) = some (scheme, rest) := by
  rw [isWeb, Bool.or_eq_true, decide_eq_true_eq, decide_eq_true_eq] at h
  rcases h with rfl | rfl
  · rfl
  · rfl

/-- A URL of the web with a rooted path and without credentials and a fragment. -/
structure IsWebPage (u : Reference) : Prop extends IsProviderHost u where
  /-- it is not opaque -/
  hierarchy : u.opaquePart = []
  /-- its path starts with a slash -/
  rooted : u.escapedPath.head? = some slash
  /-- its query -/
  query : ∀ c ∈ u.rawQuery, isQueryByte c = true

/-- What is between the colon and the query. -/
def Reference.front (u : Reference) : Bytes :=
  ascii "//" ++ Percent.escape hostMode u.host ++ u.escapedPath

theorem IsWebPage.scheme_ne_nil (h : IsWebPage u) : u.scheme ≠ [] := by
  intro hnil
  have hweb := h.web
  rw [hnil] at hweb
  exact absurd hweb (by decide)

theorem isPart_front (u : Reference) : ∀ c ∈ u.front, isPart c = true := by
  intro c hc
  rcases List.mem_append.mp hc with hc | hc
  · rcases List.mem_append.mp hc with hc | hc
    · have hmarks : (ascii "//").Forall fun c => isPart c = true := by decide
      exact List.forall_iff_forall_mem.mp hmarks c hc
    · exact (isPart_host u.host c hc).1
  · exact isPart_escapedPath u c hc

theorem IsWebPage.text (h : IsWebPage u) : u.text = u.scheme ++ colon :: (u.front ++
    if u.forceQuery = true ∨ u.rawQuery ≠ [] then questionMark :: u.rawQuery else []) := by
  have hscheme := h.scheme_ne_nil
  have hauthority : u.authority = ascii "//" ++ Percent.escape hostMode u.host := by
    rw [Reference.authority, if_neg fun hnil => hscheme hnil.1, if_neg fun hnil => h.host hnil.2.1,
      if_pos (.inl h.host), h.user]
    exact congrArg (· ++ _) (List.append_nil _)
  have hlead : ¬(u.escapedPath ≠ [] ∧ u.escapedPath.head? ≠ some slash ∧ u.host ≠ []) :=
    fun hnot => hnot.2.1 h.rooted
  have hdot : ¬(u.scheme ++ [colon] = [] ∧ u.authority = [] ∧
      colon ∈ u.escapedPath.takeWhile (· ≠ slash)) := by
    intro hnil
    exact hscheme (List.append_eq_nil_iff.mp hnil.1).1
  rw [Reference.text]
  dsimp only
  rw [if_neg hscheme, if_neg (not_not.mpr h.hierarchy), if_neg hlead, if_neg hdot, hauthority,
    if_neg (not_not.mpr h.fragment), Reference.front]
  simp only [List.append_assoc, List.append_nil, List.nil_append, List.cons_append]

/-- Nothing in the text is a control character or starts a fragment. -/
theorem IsWebPage.text_clean (h : IsWebPage u) : ∀ c ∈ u.text, isControl c = false ∧ c ≠ number := by
  have hpart : ∀ c, isPart c = true → isControl c = false ∧ c ≠ number := by
    intro c hc
    simp only [isPart, Bool.and_eq_true, Bool.not_eq_true', decide_eq_true_eq] at hc
    exact hc.1
  intro c hc
  rw [h.text] at hc
  rcases List.mem_append.mp hc with hc | hc
  · exact clean_scheme h.web c hc
  · rcases List.mem_cons.mp hc with rfl | hc
    · decide
    · rcases List.mem_append.mp hc with hc | hc
      · exact hpart c (isPart_front u c hc)
      · split at hc
        · rcases List.mem_cons.mp hc with rfl | hc
          · decide
          · exact clean_queryByte (h.query c hc)
        · cases hc

/-- The authority ends where the path starts. -/
theorem IsWebPage.cut_front (h : IsWebPage u) :
    (u.front.drop 2).takeWhile (· ≠ slash) = Percent.escape hostMode u.host ∧
      (u.front.drop 2).dropWhile (· ≠ slash) = u.escapedPath := by
  have hhost : ∀ c ∈ Percent.escape hostMode u.host, decide (c ≠ slash) = true :=
    fun c hc => decide_eq_true (isPart_host u.host c hc).2.1
  obtain ⟨tail, htail⟩ := List.head?_eq_some_iff.mp h.rooted
  constructor
  · change (Percent.escape hostMode u.host ++ u.escapedPath).takeWhile (· ≠ slash) = _
    rw [List.takeWhile_append_of_pos hhost, htail, List.takeWhile_cons_of_neg (by decide),
      List.append_nil]
  · change (Percent.escape hostMode u.host ++ u.escapedPath).dropWhile (· ≠ slash) = _
    rw [List.dropWhile_append_of_pos hhost, htail, List.dropWhile_cons_of_neg (by decide)]

/-- The host is read back, if it is accepted. -/
theorem parseUserHost_escape (host : Bytes) : parseUserHost (Percent.escape hostMode host) =
    if acceptsHost (Percent.escape hostMode host) = true then some (none, host) else none := by
  rw [parseUserHost, cutLast, if_neg fun hc => (isPart_host host _ hc).2.2 rfl]
  dsimp only
  have hread : Percent.unescape false (Percent.escape hostMode host) = some host :=
    Percent.unescape_escape (m := hostMode) host
  rw [parseHost, hread]
  split <;> rfl

/-- **What is printed is read back**, if the host is. -/
theorem IsWebPage.parse_text (h : IsWebPage u) : Reference.parse u.text =
    if acceptsHost (Percent.escape hostMode u.host) = true then
      some { Reference.start u.scheme u.rawQuery (u.forceQuery && u.rawQuery = []) with
        host := u.host
        path := u.path
        rawPath := rawText pathMode u.escapedPath u.path }
    else none := by
  have hquestion : questionMark ∉ u.front := fun hc => absurd (isPart_front u _ hc) (by decide)
  have hclean := h.text_clean
  have hnumber : number ∉ u.text := fun hc => (hclean _ hc).2 rfl
  have hcontrol : ¬u.text.any isControl = true := by
    rw [List.any_eq_true]
    rintro ⟨c, hc, hcontrol⟩
    rw [(hclean c hc).1] at hcontrol
    cases hcontrol
  have hcut : Values.cut questionMark (u.front ++
      if u.forceQuery = true ∨ u.rawQuery ≠ [] then questionMark :: u.rawQuery else []) =
      (u.front, u.rawQuery) := by
    have hnil : decide (u.forceQuery = true ∨ u.rawQuery ≠ []) = false → u.rawQuery = [] := by
      intro hfalse
      rw [decide_eq_false_iff_not, not_or, not_not] at hfalse
      exact hfalse.2
    have hcut := cut_query hquestion hnil
    simpa only [decide_eq_true_eq] using hcut
  have hforce : (decide (questionMark ∈ u.front ++
      if u.forceQuery = true ∨ u.rawQuery ≠ [] then questionMark :: u.rawQuery else []) &&
      decide (u.rawQuery = [])) = (u.forceQuery && decide (u.rawQuery = [])) := by
    by_cases hnil : u.rawQuery = []
    · cases hforced : u.forceQuery <;> simp [hnil, hquestion]
    · simp [hnil]
  obtain ⟨htake, hdrop⟩ := h.cut_front
  have hauthority := parseUserHost_escape u.host
  have hscheme := h.scheme_ne_nil
  have hhead : u.front.head? = some slash := rfl
  have hstar : u.text ≠ ascii "*" := by
    intro hstar
    have hcolon : colon ∈ u.text := by
      rw [h.text]
      exact List.mem_append_right _ List.mem_cons_self
    rw [hstar] at hcolon
    exact absurd hcolon (by decide)
  have hslashes : (ascii "//").isPrefixOf u.front = true := by
    rw [List.isPrefixOf_iff_prefix, Reference.front, List.append_assoc]
    exact List.prefix_append _ _
  have hwithout : parseWithoutFragment u.text =
      if acceptsHost (Percent.escape hostMode u.host) = true then
        some { Reference.start u.scheme u.rawQuery (u.forceQuery && u.rawQuery = []) with
          host := u.host
          path := u.path
          rawPath := rawText pathMode u.escapedPath u.path }
      else none := by
    rw [parseWithoutFragment, if_neg hcontrol, if_neg hstar, h.text, splitScheme_web h.web]
    dsimp only
    rw [hcut]
    dsimp only
    rw [hforce, parseHierarchy, if_neg fun hnot => hnot.1 hhead, if_neg fun hnot => hnot.1 hhead,
      if_pos ⟨.inl hscheme, hslashes⟩, htake, hauthority, hdrop]
    split
    · next hsome =>
      split at hsome
      · cases hsome
      · next hno => rw [if_neg hno]
    · next user host hsome =>
      split at hsome
      · next hyes =>
        obtain ⟨rfl, rfl⟩ := Prod.mk.inj (Option.some.inj hsome)
        rw [if_pos hyes, Reference.setPath, unescape_escapedReference]
        rfl
      · cases hsome
  have hnofragment : Values.cut number u.text = (u.text, []) := by
    rw [Values.cut, takeWhile_eq_self hnumber, List.dropWhile_eq_nil_iff.mpr]
    · rfl
    · exact fun c hc => decide_eq_true fun heq => hnumber (heq ▸ hc)
  rw [Reference.parse, hnofragment]
  dsimp only
  rw [hwithout]
  split
  · next hnone => exact hnone.symm
  · next hsome => rw [if_pos rfl, hsome]

/-! ## The upstream URL -/

/-- A path is empty or starts with a slash. -/
def Rooted (u : Reference) : Prop :=
  (u.path = [] ∨ u.path.head? = some slash) ∧ (u.rawPath = [] ∨ u.rawPath.head? = some slash)

theorem rooted_setPath {v : Reference} {t : Bytes} (ht : t = [] ∨ t.head? = some slash)
    (h : u.setPath t = some v) : Rooted v := by
  obtain ⟨x, hx, rfl⟩ := Option.map_eq_some_iff.mp h
  rcases ht with rfl | ht
  · obtain rfl := Option.some.inj hx
    exact ⟨.inl rfl, .inl rfl⟩
  · obtain ⟨tail, rfl⟩ := List.head?_eq_some_iff.mp ht
    rw [Percent.unescape_cons (by decide)] at hx
    obtain ⟨rest, -, rfl⟩ := Option.map_eq_some_iff.mp hx
    have hraw : ∀ plain, rawText pathMode (slash :: tail) plain = [] ∨
        (rawText pathMode (slash :: tail) plain).head? = some slash := by
      intro plain
      rw [rawText]
      split
      · exact .inl rfl
      · exact .inr rfl
    exact ⟨.inr rfl, hraw _⟩

theorem dropWhile_slash (t : Bytes) :
    t.dropWhile (· ≠ slash) = [] ∨ (t.dropWhile (· ≠ slash)).head? = some slash := by
  induction t with
  | nil => exact .inl rfl
  | cons c t ih =>
    by_cases hc : c = slash
    · rw [List.dropWhile_cons_of_neg (by simpa using hc), hc]
      exact .inr rfl
    · rw [List.dropWhile_cons_of_pos (by simpa using hc)]
      exact ih

theorem rooted_parse (h : Reference.parse s = some u) (hhost : u.host ≠ []) : Rooted u := by
  have hplain : ∀ {s u}, parseWithoutFragment s = some u → u.host ≠ [] → Rooted u := by
    intro s u h hhost
    rw [parseWithoutFragment] at h
    split at h
    · cases h
    · split at h
      · obtain rfl := Option.some.inj h
        exact absurd rfl hhost
      · split at h
        · cases h
        · dsimp only at h
          rw [parseHierarchy] at h
          split at h
          · obtain rfl := Option.some.inj h
            exact absurd rfl hhost
          · split at h
            · cases h
            · split at h
              · split at h
                · cases h
                · exact rooted_setPath (dropWhile_slash _) h
              · obtain ⟨x, -, rfl⟩ := Option.map_eq_some_iff.mp h
                exact absurd rfl hhost
  rw [Reference.parse] at h
  dsimp only at h
  split at h
  · cases h
  · next v hv =>
    split at h
    · obtain rfl := Option.some.inj h
      exact hplain hv hhost
    · obtain ⟨f, -, rfl⟩ := Option.map_eq_some_iff.mp h
      have hroot : Rooted v := hplain hv hhost
      exact hroot

theorem head_append {a b : Bytes} {c : Byte} (ha : a = [] ∨ a.head? = some c)
    (hb : b.head? = some c) : (a ++ b).head? = some c := by
  rcases ha with rfl | ha
  · exact hb
  · rw [List.head?_append, ha]
    rfl

theorem head_escape {t : Bytes} (h : t.head? = some slash) :
    (Percent.escape pathMode t).head? = some slash := by
  obtain ⟨tail, rfl⟩ := List.head?_eq_some_iff.mp h
  rw [Percent.escape, List.flatMap_cons, escapeByte_slash]
  rfl

theorem head_trimSuffixSlash {t : Bytes} (h : t = [] ∨ t.head? = some slash) :
    trimSuffixSlash t = [] ∨ (trimSuffixSlash t).head? = some slash := by
  rcases trimSuffixSlash_cases t with hend | ⟨hsame, -⟩
  · by_cases hnil : trimSuffixSlash t = []
    · exact .inl hnil
    · refine .inr ?_
      rcases h with rfl | h
      · exact absurd rfl hnil
      · rw [hend, List.head?_append_of_ne_nil _ hnil] at h
        exact h
  · rw [hsame]
    exact h

/-- The path at the provider starts with a slash. -/
theorem head_upstreamPath (hroot : Rooted base) (sent : List Bytes) :
    (upstreamPath base sent).head? = some slash :=
  head_append (head_trimSuffixSlash hroot.1) rfl

theorem isQueryByte_encode (q : Values) : ∀ c ∈ q.encode, isQueryByte c = true := by
  refine encode_forall (P := fun c => isQueryByte c = true) (fun s c hc => ?_) (by decide)
    (by decide) q
  exact Percent.escape_forall (P := fun c => isQueryByte c = true)
    (fun _ hkeep => isQueryByte_of_unreserved hkeep) (by decide) (by decide) (by decide) s c hc

theorem isWebPage_upstream (hparsed : Reference.parse s = some base) (h : IsProviderHost base)
    {t : Translated} {q : Values} (hpath : t.url.path = upstreamPath base sent)
    (hquery : t.url.rawQuery = q.encode) : IsWebPage (upstream base t) where
  web := h.web
  host := h.host
  user := h.user
  fragment := h.fragment
  hierarchy := (M3u.parsed_of_parse hparsed).hierarchy h.host
  rooted := by
    have hroot := rooted_parse hparsed h.host
    have hslash : slash ∈ (upstream base t).path := by
      change slash ∈ t.url.path
      rw [hpath, upstreamPath]
      exact List.mem_append_right _ List.mem_cons_self
    rcases escapedPath_cases hslash with hprinted | ⟨hne, -, hprinted⟩
    · rw [hprinted]
      refine head_escape ?_
      change t.url.path.head? = some slash
      rw [hpath]
      exact head_upstreamPath hroot sent
    · rw [hprinted]
      exact hroot.2.resolve_left hne
  query := by
    change ∀ c ∈ t.url.rawQuery, isQueryByte c = true
    rw [hquery]
    exact isQueryByte_encode q

/-! ## What is logged -/

variable (L) in
/-- What is logged of an upstream URL that is read back. -/
def shown (base : Reference) (path : Bytes) (r : Xtream.Request) : Reference :=
  { Reference.start base.scheme (redactValues L r.query).encode
      (base.forceQuery && r.query.encode = []) with
    host := base.host
    path := redactCredentialPath L path }

theorem safeURLString_upstream (hlower : LowersAscii L) (hparsed : Reference.parse s = some base)
    (h : IsProviderHost base) {t : Translated} {selected user : User} {q : Values}
    {matched changed : Bool}
    (htranslate : translateValues L p credentialPairs selected r.query matched =
      .ok (user, q, changed))
    (hpath : t.url.path = upstreamPath base sent) (hquery : t.url.rawQuery = q.encode) :
    safeURLString L (upstream base t).text =
      if acceptsHost (Percent.escape hostMode base.host) = true then
        (shown L base (upstreamPath base sent) r).text
      else ascii "[invalid URL]" := by
  obtain ⟨hlogged, hnil⟩ := encode_redactValues hlower htranslate
  have hempty : decide (q.encode = []) = decide (r.query.encode = []) :=
    decide_eq_decide.mpr (hnil.trans encode_eq_nil.symm)
  rw [safeURLString, (isWebPage_upstream hparsed h hpath hquery).parse_text]
  have hhost : (upstream base t).host = base.host := rfl
  rw [hhost]
  split
  · next hnone =>
    split at hnone
    · cases hnone
    · next hno => rw [if_neg hno]
  · next parsed hsome =>
    split at hsome
    · next hyes =>
      obtain rfl := Option.some.inj hsome
      rw [if_pos hyes, shown, ← hlogged, ← hempty, ← hquery, ← hpath]
      rfl
    · cases hsome

theorem head_redactCredentialPath {path : Bytes} (h : path.head? = some slash) :
    (redactCredentialPath L path).head? = some slash := by
  obtain ⟨tail, rfl⟩ := List.head?_eq_some_iff.mp h
  have hsplit : splitSlash (slash :: tail) = [] :: splitSlash tail :=
    splitSlash_append (List.not_mem_nil (a := slash))
  rw [redactCredentialPath, hsplit, redactSegments, if_pos rfl, joinSlash_cons,
    if_neg (redactSegments_ne_nil (splitSlash_ne_nil tail))]
  rfl

theorem isWebPage_shown (h : IsProviderHost base) {path : Bytes}
    (hpath : path.head? = some slash) : IsWebPage (shown L base path r) where
  web := h.web
  host := h.host
  user := rfl
  fragment := rfl
  hierarchy := rfl
  rooted := by
    have hhead : (redactCredentialPath L path).head? = some slash :=
      head_redactCredentialPath hpath
    rcases escapedPath_cases (u := shown L base path r) (List.mem_of_mem_head? hhead) with
      hprinted | ⟨hne, -⟩
    · rw [hprinted]
      exact head_escape hhead
    · exact absurd rfl hne
  query := isQueryByte_encode _

/-- Other paths are logged as other texts. -/
theorem path_of_shown (h : IsProviderHost base) {path path' : Bytes}
    (hpath : path.head? = some slash) (hpath' : path'.head? = some slash)
    (htext : (shown L base path r).text = (shown L base path' r).text) :
    redactCredentialPath L path = redactCredentialPath L path' := by
  rw [(isWebPage_shown h hpath).text, (isWebPage_shown h hpath').text] at htext
  have hfront := List.append_cancel_right (List.cons.inj (List.append_cancel_left htext)).2
  have hescaped : (shown L base path r).escapedPath = (shown L base path' r).escapedPath :=
    List.append_cancel_left hfront
  have hread := unescape_escapedReference (shown L base path r)
  rw [hescaped, unescape_escapedReference] at hread
  exact (Option.some.inj hread).symm

/-- What is logged of an accepted request. -/
theorem logged_spec (hL : ∀ s, L.parseURL s = (Reference.parse s).map Reference.url)
    (hlower : LowersAscii L) (hbase : Reference.parse (trimSuffixSlash p.host) = some base)
    (h : IsProviderHost base) {t : Translated}
    (haccepted : buildTransparentUpstreamURL L p remaining r = .ok t)
    (username password : Bytes) :
    ∃ sent, Shows (publicSegments p (splitSlash (trimPrefixSlash remaining))) sent ∧
      (username = password → sent = (publicSegments p (splitSlash (trimPrefixSlash remaining))).map
        (·.getD username)) ∧
      sent ≠ [] ∧ (slash ∉ username → slash ∉ password → ∀ s ∈ sent, slash ∉ s) ∧
      logged L base p remaining r username password = some
        (if acceptsHost (Percent.escape hostMode base.host) = true then
          (shown L base (upstreamPath base sent) r).text
        else ascii "[invalid URL]") := by
  obtain ⟨t', ht'⟩ := accepted_withUpstream haccepted username password
  obtain ⟨a⟩ := accepted_of_build ht'
  have hparsed : base.url = a.base := by
    have hparsed := a.hbase
    rw [hL] at hparsed
    have hsame : Reference.parse (trimSuffixSlash (withUpstream p username password).host) =
      some base := hbase
    rw [hsame] at hparsed
    exact Option.some.inj hparsed
  obtain ⟨hshows, hsame⟩ := shows_translatePath a.hpath
  rw [publicSegments_withUpstream] at hshows hsame
  obtain ⟨hlength, -, hmem, -⟩ := translatePath_spec a.hpath
  have hne : a.segments ≠ [] := List.ne_nil_of_length_pos
    (by rw [hlength]; exact List.length_pos_of_ne_nil (splitSlash_ne_nil _))
  have hslash : slash ∉ username → slash ∉ password → ∀ s ∈ a.segments, slash ∉ s := by
    intro hname hpass s hs
    rcases hmem s hs with hs | ⟨-, rfl | rfl⟩
    · exact slash_not_mem_splitSlash _ s hs
    · exact hname
    · exact hpass
  refine ⟨a.segments, hshows, hsame, hne, hslash, ?_⟩
  rw [logged, ht']
  refine congrArg some (safeURLString_upstream hlower hbase h a.hquery ?_ ?_)
  · rw [congrArg URL.path a.hurl, ← hparsed]
    rfl
  · exact congrArg URL.rawQuery a.hurl

theorem shows_self (l : List Bytes) : Shows (l.map some) l := by
  rw [Shows, List.forall₂_map_left_iff]
  exact List.forall₂_same.mpr fun s _ x hx => Option.some.inj hx

/-- **The log hides the upstream account** exactly where each credential of the path follows a
route word: for two accounts without slashes the logged texts are the same, whatever else the
request is, if and only if the credentials are covered or the host is not read back. -/
theorem logged_hides_credentials_iff
    (hL : ∀ s, L.parseURL s = (Reference.parse s).map Reference.url) (hlower : LowersAscii L)
    (hbase : Reference.parse (trimSuffixSlash p.host) = some base) (hhost : IsProviderHost base)
    {t : Translated} (haccepted : buildTransparentUpstreamURL L p remaining r = .ok t) :
    (∀ username password username' password' : Bytes, slash ∉ username → slash ∉ password →
      slash ∉ username' → slash ∉ password' →
      logged L base p remaining r username password =
        logged L base p remaining r username' password') ↔
      (covered L 0 (publicPath p base remaining) = true ∨
        acceptsHost (Percent.escape hostMode base.host) = false) := by
  have hspec := logged_spec hL hlower hbase hhost haccepted
  constructor
  · intro h
    by_contra hnot
    obtain ⟨hcovered, hread⟩ := not_or.mp hnot
    -- two accounts whose user name is the password
    have ha : slash ∉ ascii "a" := by decide
    have hb : slash ∉ ascii "b" := by decide
    have hsame := h (ascii "a") (ascii "a") (ascii "b") (ascii "b") ha ha hb hb
    obtain ⟨sent, -, hsent, hne, hslash, hlogged⟩ := hspec (ascii "a") (ascii "a")
    obtain ⟨sent', -, hsent', hne', hslash', hlogged'⟩ := hspec (ascii "b") (ascii "b")
    rw [hlogged, hlogged', if_pos (Bool.not_eq_false _ ▸ hread),
      if_pos (Bool.not_eq_false _ ▸ hread)] at hsame
    have hroot := rooted_parse hbase hhost.host
    have hpath := redactSegments_of_path (path_of_shown hhost (head_upstreamPath hroot sent)
      (head_upstreamPath hroot sent') (Option.some.inj hsame))
    rw [splitSlash_upstreamPath hne (hslash ha ha), splitSlash_upstreamPath hne' (hslash' hb hb),
      hsent rfl, hsent' rfl] at hpath
    have hab : ascii "a" ≠ ascii "b" := by decide
    refine redactSegments_of_not_covered hlower hab (Bool.not_eq_true _ ▸ hcovered) ?_
    rw [publicPath, List.map_append, List.map_append, List.map_map, List.map_map]
    have hknown : ∀ c : Bytes, ((splitSlash (trimSuffixSlash base.path)).map
        ((·.getD c) ∘ some)) = splitSlash (trimSuffixSlash base.path) := fun c => List.map_id _
    rw [hknown, hknown]
    exact hpath
  · intro h username password username' password' hname hpass hname' hpass'
    obtain ⟨sent, hsent, -, hne, hslash, hlogged⟩ := hspec username password
    obtain ⟨sent', hsent', -, hne', hslash', hlogged'⟩ := hspec username' password'
    rw [hlogged, hlogged']
    rcases h with hcovered | hread
    · have hpath : redactCredentialPath L (upstreamPath base sent) =
          redactCredentialPath L (upstreamPath base sent') := by
        rw [redactCredentialPath, redactCredentialPath,
          splitSlash_upstreamPath hne (hslash hname hpass),
          splitSlash_upstreamPath hne' (hslash' hname' hpass')]
        exact congrArg joinSlash (redactSegments_of_covered hlower hcovered
          (List.rel_append (shows_self _) hsent) (List.rel_append (shows_self _) hsent'))
      rw [shown, shown, hpath]
    · rw [if_neg (by rw [hread]; decide), if_neg (by rw [hread]; decide)]

theorem lowersAscii_parsingLibrary : LowersAscii parsingLibrary := fun _ _ => rfl

theorem isProviderHost_upstreamHost : IsProviderHost upstreamHost :=
  ⟨by decide +kernel, by decide +kernel, rfl, rfl⟩

/-- A stream on its route is logged without credentials. -/
theorem logged_live_route :
    logged parsingLibrary upstreamHost oneClient (ascii "/live/bob/a/7.ts") (getRequest "")
        (ascii "UP") (ascii "SECRET") =
      logged parsingLibrary upstreamHost oneClient (ascii "/live/bob/a/7.ts") (getRequest "")
        (ascii "NEXT") (ascii "OTHER") := by
  obtain ⟨t, ht⟩ := translated_of_isOk "/live/bob/a/7.ts" "" (by decide +kernel)
  exact (logged_hides_credentials_iff (fun _ => rfl) lowersAscii_parsingLibrary
    (parse_oneClient "/live/bob/a/7.ts") isProviderHost_upstreamHost ht).mpr
    (.inl (by decide +kernel)) _ _ _ _ (by decide +kernel) (by decide +kernel) (by decide +kernel)
    (by decide +kernel)

/-- The bare route is logged with the account. -/
theorem bare_route_logs_credentials :
    logged parsingLibrary upstreamHost oneClient (ascii "/bob/a/7") (getRequest "")
        (ascii "UP") (ascii "SECRET") = some (ascii "http://upstream/UP/SECRET/7") ∧
      logged parsingLibrary upstreamHost oneClient (ascii "/bob/a/7") (getRequest "")
        (ascii "NEXT") (ascii "OTHER") ≠
      logged parsingLibrary upstreamHost oneClient (ascii "/bob/a/7") (getRequest "")
        (ascii "UP") (ascii "SECRET") := by
  decide +kernel

end IptvProxy.Media
