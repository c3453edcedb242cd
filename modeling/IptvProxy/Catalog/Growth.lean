import Mathlib.Data.Set.Finite.Basic
import IptvProxy.Catalog.Request

/-!
# How many cache entries clients can make

An entry of the persistent cache is admitted by the names of the parameters (`isCacheable`), and its
key contains their values. Nothing bounds the values of `type` and `output` of `get.php`: a client
makes a new entry with each value it thinks of (`playlistKey_injective`). So the keys of a provider
are a finite set only if none of its clients can make a request (`keys_bounded_iff`).
-/

namespace IptvProxy.Catalog

open Xtream

variable (L : Library) (p : Provider)

/-- The keys of the entries that clients of the provider can make. -/
def clientKeys : Set Bytes :=
  {key | ∃ (remaining : Bytes) (r : Request) (t : Translated) (target : URL) (headers : Values),
    buildTransparentUpstreamURL L p remaining r = .ok t ∧
    cacheTargetForRequest L (afterTranslation r t) p t.endpoint t.url = some target ∧
    key = (cacheDescriptor L p.id t.endpoint target headers).cacheKey}

/-- One finite set of keys is enough for all requests. -/
def KeysBounded : Prop := ∃ keys : Set Bytes, keys.Finite ∧ clientKeys L p ⊆ keys

/-- `get.php` -/
def getPHP : Bytes := ascii "get.php"

/-- A request for the playlist, with this value as its type. -/
def playlistRequest (username password type : Bytes) : Request :=
  ⟨ascii "GET", Values.encode [(ascii "username", username), (ascii "password", password),
    (ascii "type", type)], [], .absent⟩

/-- The descriptor of the playlist with this type. -/
def playlistDescriptor (type : Bytes) : Descriptor :=
  ⟨p.id, getPHP, Values.encode [(ascii "type", type)], metadataHeaders L []⟩

variable {L p} {username password type : Bytes} {u : User}

theorem plusForSpaces_nil_iff {s : Bytes} : plusForSpaces s = [] ↔ s = [] := List.map_eq_nil_iff

/-- Empty credentials are not accepted. -/
theorem credentials_ne_nil (h : authenticateXtreamClient L p username password = some u) :
    username ≠ [] ∧ password ≠ [] := by
  have hnonempty : ∀ {username password : Bytes}, p.authenticate L username password = some u →
      username ≠ [] ∧ password ≠ [] := by
    intro username password h
    rw [Provider.authenticate] at h
    split at h
    · cases h
    · next hne => exact not_or.mp hne
  rw [authenticateXtreamClient] at h
  split at h
  · next hu =>
    obtain rfl := Option.some.inj h
    exact hnonempty hu
  · dsimp only at h
    split at h
    · obtain ⟨hname, hpass⟩ := hnonempty h
      exact ⟨fun hnil => hname (plusForSpaces_nil_iff.mpr hnil),
        fun hnil => hpass (plusForSpaces_nil_iff.mpr hnil)⟩
    · cases h

theorem values_playlistRequest (k : Bytes) :
    (playlistRequest username password type).query.values k =
      Values.values [(ascii "username", username), (ascii "password", password),
        (ascii "type", type)] k := by
  rw [Request.query, playlistRequest, Values.parse_encode]
  exact Values.sorted_same k

theorem get_playlistRequest :
    (playlistRequest username password type).query.get (ascii "username") = username ∧
      (playlistRequest username password type).query.get (ascii "password") = password ∧
      (playlistRequest username password type).query.get (ascii "user") = [] := by
  have hname : ascii "password" ≠ ascii "username" ∧ ascii "type" ≠ ascii "username" := by
    decide
  have hpass : ascii "username" ≠ ascii "password" ∧ ascii "type" ≠ ascii "password" := by
    decide
  have huser : ascii "username" ≠ ascii "user" ∧ ascii "password" ≠ ascii "user" ∧
      ascii "type" ≠ ascii "user" := by
    decide
  rw [Values.get, Values.get, Values.get, values_playlistRequest, values_playlistRequest,
    values_playlistRequest]
  simp only [Values.values, List.filter_cons, hname.1, hname.2, hpass.1, hpass.2, huser.1,
    huser.2.1, huser.2.2, decide_true, decide_false, if_true, Bool.false_eq_true, if_false,
    List.filter_nil, List.map_cons, List.map_nil, List.headD_cons, List.headD_nil, and_self]

/-- The playlist request of a client is translated, with the credentials of the provider in its
query. -/
theorem playlist_accepted (hlower : L.toLower getPHP = getPHP) {base : URL}
    (hbase : L.parseURL (trimSuffixSlash p.host) = some base)
    (hu : authenticateXtreamClient L p username password = some u) (type : Bytes) :
    ∃ t, buildTransparentUpstreamURL L p (slash :: getPHP)
        (playlistRequest username password type) = .ok t ∧ t.endpoint = getPHP ∧
      t.url.rawQuery = Values.encode (((playlistRequest username password type).query.set
        (ascii "username") p.upstreamUsername).set (ascii "password") p.upstreamPassword) := by
  obtain ⟨hname, hpass⟩ := credentials_ne_nil hu
  set q := (playlistRequest username password type).query with hq
  obtain ⟨hgetName, hgetPass, hget⟩ : q.get (ascii "username") = username ∧
      q.get (ascii "password") = password ∧ q.get (ascii "user") = [] := get_playlistRequest
  have hgetUser : ((q.set (ascii "username") p.upstreamUsername).set (ascii "password")
      p.upstreamPassword).get (ascii "user") = [] := by
    rw [Values.get_set_ne (by decide), Values.get_set_ne (by decide)]
    exact hget
  have hquery : translateValues L p credentialPairs .zero q false = .ok (u,
      (q.set (ascii "username") p.upstreamUsername).set (ascii "password") p.upstreamPassword,
      true) := by
    have hselect : selectUser .zero u = .ok u := if_neg fun h => h.1 rfl
    have hcheck : checkPair L p .zero username password = .ok u := by
      rw [checkPair, hu]
      exact hselect
    simp only [credentialPairs, translateValues, hgetName, hgetPass, hgetUser, hname, hpass,
      or_self, if_false, hcheck, true_or, if_true]
  have hblocked : isBlockedXtreamRoute L (slash :: getPHP) = false := by
    have hsplit : splitSlash (trimSlashes (slash :: getPHP)) = [getPHP] := by decide
    rw [isBlockedXtreamRoute, hsplit]
    simp only [hlower]
    decide
  have hsegments : splitSlash (trimPrefixSlash (slash :: getPHP)) = [getPHP] := by decide
  have hbody : translateXtreamBodyCredentials L p (playlistRequest username password type) u =
      .ok (u, .absent) := by
    rw [translateXtreamBodyCredentials, bodyKind, if_pos (.inl rfl)]
    rfl
  have hsame : sameClientUser u u = true := by
    have hun := username_ne_nil hu
    rw [sameClientUser]
    split
    · exact decide_eq_true rfl
    · exact decide_eq_true ⟨hun, rfl⟩
  have hselect : selectUser u u = .ok u :=
    if_neg fun h => by rw [hsame] at h; cases h.2
  have hendpoint : endpointOf L [getPHP] none = getPHP := by
    rw [endpointOf, if_neg fun h => by cases h.1]
    exact hlower
  refine ⟨⟨{ base with
      path := trimSuffixSlash base.path ++ slash :: joinSlash [getPHP]
      rawQuery := Values.encode ((q.set (ascii "username") p.upstreamUsername).set
        (ascii "password") p.upstreamPassword) }, getPHP, u, .absent⟩, ?_, rfl, by dsimp only⟩
  rw [buildTransparentUpstreamURL, hbase]
  simp only [hblocked, hsegments, ← hq, hquery, translatePath, hbody, username_ne_nil hu,
    hselect, hendpoint, Bool.false_eq_true, if_false, ne_eq, not_false_eq_true, if_true]

/-- The values of the target are the type and the credentials of the provider. -/
theorem playlist_target {t : Translated} (hendpoint : t.endpoint = getPHP)
    (hurl : t.url.rawQuery = Values.encode (((playlistRequest username password type).query.set
      (ascii "username") p.upstreamUsername).set (ascii "password") p.upstreamPassword)) :
    ∃ target, cacheTargetForRequest L (afterTranslation (playlistRequest username password type) t)
        p t.endpoint t.url = some target ∧
      (cacheDescriptor L p.id t.endpoint target []) = playlistDescriptor L p type := by
  set q := targetValues p t.url none with hqdef
  have hvalues : ∀ k, k ∉ credentialKeys → q.values k = Values.values [(ascii "type", type)] k := by
    intro k hk
    have hk' := hk
    rw [mem_credentialKeys, not_or] at hk'
    rw [hqdef, withoutCredentials_targetValues none hk]
    simp only [hurl, Values.parse_encode]
    rw [Values.sorted_same k, Values.values_set_ne hk'.2, Values.values_set_ne hk'.1,
      values_playlistRequest]
    simp [Values.values, List.filter_cons, Ne.symm hk'.1, Ne.symm hk'.2]
  have hcacheable : isCacheable getPHP q = true := by
    rw [isCacheable, if_neg (by decide),
      if_pos (show getPHP = ascii "get.php" from rfl), hasOnlyQueryKeys_iff]
    intro k hk
    by_contra hnot
    rw [List.mem_append, not_or] at hnot
    apply hk
    rw [hvalues k hnot.1]
    have htype : ascii "type" ≠ k := fun heq => hnot.2 (by rw [← heq]; decide)
    simp [Values.values, htype]
  refine ⟨{ t.url with rawQuery := q.encode }, ?_, ?_⟩
  · rw [cacheTargetForRequest, if_neg (by change ascii "GET" ≠ ascii "POST"; decide),
      hendpoint]
    exact if_pos hcacheable
  · have hquery : Values.encode (withoutCredentials (Values.parse q.encode).1) =
        Values.encode [(ascii "type", type)] := by
      apply Values.encode_congr
      intro k
      rw [values_withoutCredentials, Values.parse_encode]
      split
      · next hk =>
        rw [mem_credentialKeys] at hk
        rcases hk with rfl | rfl
        · rfl
        · rfl
      · next hk => rw [Values.sorted_same k, hvalues k hk]
    rw [cacheDescriptor, hendpoint, hquery]
    rfl

theorem values_type (type : Bytes) :
    Values.values [(ascii "type", type)] (ascii "type") = [type] := by
  simp [Values.values]

/-- Each type has a key of its own. -/
theorem playlistKey_injective :
    Function.Injective fun type => (playlistDescriptor L p type).cacheKey := by
  intro type type' h
  have hne : ∀ type, Values.encode [(ascii "type", type)] ≠ [] := by
    intro type hnil
    have hsame := same_of_encode (v := [(ascii "type", type)]) (w := []) (hnil.trans rfl)
      (ascii "type")
    rw [values_type] at hsame
    cases hsame
  simp only [Descriptor.cacheKey, playlistDescriptor, hne, if_false, List.append_assoc,
    List.append_cancel_left_eq, List.cons_append, List.cons.injEq, true_and] at h
  have hsame := same_of_encode h (ascii "type")
  rw [values_type, values_type] at hsame
  exact List.cons.inj hsame |>.1

/-- A client that authenticates makes infinitely many entries. -/
theorem not_keysBounded (hlower : L.toLower getPHP = getPHP)
    (hbase : L.parseURL (trimSuffixSlash p.host) ≠ none)
    (hu : authenticateXtreamClient L p username password ≠ none) : ¬ KeysBounded L p := by
  rintro ⟨keys, hfinite, hkeys⟩
  obtain ⟨base, hbase⟩ := Option.ne_none_iff_exists'.mp hbase
  obtain ⟨u, hu⟩ := Option.ne_none_iff_exists'.mp hu
  refine Set.infinite_of_injective_forall_mem (playlistKey_injective (L := L) (p := p))
    (fun type => ?_) hfinite
  obtain ⟨t, haccepted, hendpoint, hurl⟩ := playlist_accepted hlower hbase hu type
  obtain ⟨target, htarget, hdescriptor⟩ := playlist_target (L := L) hendpoint hurl
  exact hkeys ⟨_, _, t, target, [], haccepted, htarget, congrArg _ hdescriptor.symm⟩

/-- **The keys of a provider**: they are finitely many if and only if no client of it can make a
request. -/
theorem keys_bounded_iff (hlower : L.toLower getPHP = getPHP) :
    KeysBounded L p ↔ L.parseURL (trimSuffixSlash p.host) = none ∨
      ∀ username password, authenticateXtreamClient L p username password = none := by
  constructor
  · intro h
    by_contra hnot
    rw [not_or, not_forall] at hnot
    obtain ⟨hbase, username, hname⟩ := hnot
    obtain ⟨password, hpass⟩ := not_forall.mp hname
    exact not_keysBounded hlower hbase hpass h
  · intro h
    refine ⟨∅, Set.finite_empty, ?_⟩
    rintro key ⟨remaining, r, t, -, -, hbuild, -⟩
    rcases h with hnone | hnone
    · obtain ⟨a⟩ := accepted_of_build hbuild
      rw [a.hbase] at hnone
      cases hnone
    · obtain ⟨hall, hne⟩ := checkAll_of_build hbuild
      rcases checkAll_eq_ok hall with ⟨-, hzero⟩ | ⟨pr, -, hpr⟩
      · rw [hzero] at hne
        exact absurd rfl hne
      · rw [hnone] at hpr
        cases hpr

/-- The client `bob` makes infinitely many entries. -/
theorem bob_keys_unbounded : ¬ KeysBounded asciiLibrary catalogProvider := by
  have hbob : authenticateXtreamClient asciiLibrary catalogProvider (ascii "bob") (ascii "a") ≠
      none := by decide
  exact not_keysBounded (by decide) (by decide) hbob

/-- Without users there is no entry. -/
theorem keys_bounded_without_users : KeysBounded asciiLibrary (sampleProvider []) := by
  refine (keys_bounded_iff (by decide)).mpr (.inr fun username password => ?_)
  have hnone : ∀ username password,
      (sampleProvider []).authenticate asciiLibrary username password = none := by
    intro username password
    rw [Provider.authenticate]
    exact ite_self none
  rw [authenticateXtreamClient, hnone]
  dsimp only
  rw [hnone]
  exact ite_self none

end IptvProxy.Catalog
