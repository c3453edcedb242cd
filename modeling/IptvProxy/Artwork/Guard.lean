import IptvProxy.Lib.Address
import IptvProxy.Lib.Unicode

/-!
# Where artwork is fetched from

`serveArtworkToken`, `serveArtwork` and `artworkProviderFallback` of `internal/proxy/artwork.go`
with the HTTP client of `artwork_client.go`: which URLs are contacted, for every chain of redirects.
`safeArtworkURL` is asked about each of them. It compares the host as it is spelled, so a local name
or address passes that ends in a dot, and so does an address with a zone
(`localhost_dot_contacted`). These are the only local hosts that are contacted
(`contacted_clean_iff`).

A URL is its parsed form; to print it and to parse it again changes nothing. Of a response it is
modelled whether it redirects and whether it is an image.
-/

namespace IptvProxy.Artwork

open Address GoText Js

/-- `url.URL` -/
structure URL where
  /-- `Scheme` -/
  scheme : Text
  /-- `Host` -/
  host : Text
  /-- `Path` -/
  path : Text
  /-- `RawPath` -/
  rawPath : Text
  /-- the keys of `Query()` -/
  queryKeys : List Text
  deriving DecidableEq

/-- `validOptionalPort` -/
def validOptionalPort : Text → Bool
  | [] => true
  | c :: s => c = ':' && s.all fun c => 48 ≤ c.toNat && c.toNat ≤ 57

/-- The text before the last colon, and the rest from there on. -/
def lastColon (s : Text) : Text × Text :=
  let tail := s.reverse.takeWhile (· ≠ ':')
  if tail.length = s.length then (s, [])
  else (s.take (s.length - tail.length - 1), s.drop (s.length - tail.length - 1))

/-- Without its brackets. -/
def unbracket (s : Text) : Text :=
  if s.head? = some '[' ∧ s.getLast? = some ']' then (s.drop 1).dropLast else s

/-- `URL.Hostname` -/
def URL.hostname (u : URL) : Text :=
  unbracket (if validOptionalPort (lastColon u.host).2 then (lastColon u.host).1 else u.host)

variable (U : Unicode)

/-- `.localhost` -/
def localSuffix : Text := ".localhost".toList

/-- `safeArtworkURL` -/
def safeArtworkURL (target : URL) : Bool :=
  if target.hostname = [] then false
  else if U.equalFold target.scheme "http".toList = false ∧
      U.equalFold target.scheme "https".toList = false then false
  else
    let host := trimSpace (U.goLower target.hostname)
    if host = "localhost".toList ∨ localSuffix.isSuffixOf host = true then false
    else match parseIP host with
      | some parsed => !isLocal parsed
      | none => true

/-- `strings.TrimSuffix(s, "/")` -/
def trimSuffixSlash (s : Text) : Text := (trimPrefix s.reverse).reverse

/-- `artworkProviderFallback`; `providerBase` is what `url.Parse` makes of the provider's host. -/
def artworkProviderFallback (providerBase : Option URL) (target : URL) : Option URL :=
  match parseIP target.hostname, providerBase with
  | some _, some base =>
    if target.queryKeys ≠ [] ∨ base.scheme = [] ∨ base.host = [] ∨
        U.equalFold base.host target.host = true then none
    else
      let basePath := trimSuffixSlash base.path
      let fallback : URL := { target with
        scheme := base.scheme
        host := base.host
        rawPath := []
        path := if basePath = [] then target.path else basePath ++ '/' :: trimPrefix target.path }
      if safeArtworkURL U fallback then some fallback else none
  | _, _ => none

/-- What comes back from a URL. -/
inductive Reply where
  /-- a redirect to this URL -/
  | redirect (location : URL)
  /-- an error, another status, or no image -/
  | unusable
  /-- an image -/
  | image
  deriving DecidableEq

/-- `artworkMaxRedirects` -/
def artworkMaxRedirects : ℕ := 5

/-- `CheckRedirect`, after `via` requests -/
def checkRedirect (via : ℕ) (location : URL) : Bool :=
  via < artworkMaxRedirects && safeArtworkURL U location

/-- `artworkHTTPClient.Do`, after `via` requests: the URLs that are contacted, and whether there is
an image in the end. Without a reply the request fails. -/
def follow (via : ℕ) (u : URL) : List Reply → List URL × Bool
  | .redirect location :: replies =>
    if checkRedirect U (via + 1) location then
      let rest := follow (via + 1) location replies
      (u :: rest.1, rest.2)
    else ([u], false)
  | .image :: _ => ([u], true)
  | .unusable :: _ => ([u], false)
  | [] => ([u], false)

/-- What `artwork:` has stored for a token: the provider, and what `url.Parse` makes of the URL. -/
structure Stored where
  /-- `ProviderID` -/
  providerId : Text
  /-- `URL` -/
  url : Option URL

/-- What a request for artwork depends on. -/
structure Request where
  /-- the ID of the provider that the request is for -/
  providerId : Text
  /-- its host -/
  providerBase : Option URL
  /-- the replies to the first candidate -/
  replies : List Reply
  /-- the replies to the second one -/
  fallbackReplies : List Reply

/-- `serveArtwork`: the URLs that are contacted -/
def serveArtwork (r : Request) (target : URL) : List URL :=
  let first := follow U 0 target r.replies
  if first.2 then first.1
  else match artworkProviderFallback U r.providerBase target with
    | some fallback => first.1 ++ (follow U 0 fallback r.fallbackReplies).1
    | none => first.1

/-- `serveArtworkToken`, with what is stored for the token: the URLs that are contacted -/
def serveArtworkToken (r : Request) (stored : Option Stored) : List URL :=
  match stored with
  | none => []
  | some target =>
    if target.providerId ≠ r.providerId then []
    else match target.url with
      | none => []
      | some parsed => if safeArtworkURL U parsed then serveArtwork U r parsed else []

/-! ## Local hosts -/

/-- A host without the dot at its end and without its zone. -/
def bare (host : Text) : Text :=
  let host := host.takeWhile (· ≠ '%')
  if host.getLast? = some '.' then host.dropLast else host

/-- `localhost`, a name below it, or a local address. -/
def LocalHost (host : Text) : Prop :=
  host = "localhost".toList ∨ localSuffix.isSuffixOf host = true ∨
    ∃ ip, parseIP host = some ip ∧ isLocal ip = true

/-- The host of a URL, in lower case, leads away. -/
def URL.Clean (u : URL) : Prop := ¬LocalHost (bare (U.goLower u.hostname))

/-- A dot or a zone makes another spelling of a local host. -/
def URL.Disguised (u : URL) : Prop :=
  bare (U.goLower u.hostname) ≠ U.goLower u.hostname ∧ LocalHost (bare (U.goLower u.hostname))

/-- The URLs that a chain of redirects leads to, as far as `CheckRedirect` lets them pass. -/
def passed (via : ℕ) : List Reply → List URL
  | .redirect location :: replies =>
    if checkRedirect U (via + 1) location then location :: passed (via + 1) replies else []
  | _ => []

/-- Whether they lead to an image. -/
def gotImage (via : ℕ) : List Reply → Bool
  | .redirect location :: replies =>
    if checkRedirect U (via + 1) location then gotImage (via + 1) replies else false
  | .image :: _ => true
  | _ => false

/-- The candidates and the redirects that pass the check. -/
def candidates (r : Request) (target : URL) : List URL :=
  (target :: passed U 0 r.replies) ++
    if gotImage U 0 r.replies then []
    else match artworkProviderFallback U r.providerBase target with
      | some fallback => fallback :: passed U 0 r.fallbackReplies
      | none => []

variable {U} {u target : URL} {host : Text} {r : Request} {stored : Option Stored} {via : ℕ}
  {replies : List Reply}

/-! ## What is contacted -/

theorem follow_fst : (follow U via u replies).1 = u :: passed U via replies := by
  induction replies generalizing via u with
  | nil => rfl
  | cons reply replies ih =>
    cases reply with
    | redirect location =>
      rw [follow, passed]
      split
      · exact congrArg (u :: ·) ih
      · rfl
    | unusable => rfl
    | image => rfl

theorem follow_snd : (follow U via u replies).2 = gotImage U via replies := by
  induction replies generalizing via u with
  | nil => rfl
  | cons reply replies ih =>
    cases reply with
    | redirect location =>
      rw [follow, gotImage]
      split
      · exact ih
      · rfl
    | unusable => rfl
    | image => rfl

theorem safe_of_passed (h : u ∈ passed U via replies) : safeArtworkURL U u = true := by
  induction replies generalizing via with
  | nil => cases h
  | cons reply replies ih =>
    cases reply with
    | redirect location =>
      rw [passed] at h
      split at h
      · next hcheck =>
        rcases List.mem_cons.mp h with rfl | h
        · exact (Bool.and_eq_true_iff.mp hcheck).2
        · exact ih h
      · cases h
    | unusable => cases h
    | image => cases h

theorem safe_of_fallback {base : Option URL} (h : artworkProviderFallback U base target = some u) :
    safeArtworkURL U u = true := by
  cases hip : parseIP target.hostname with
  | none => simp [artworkProviderFallback, hip] at h
  | some ip =>
    cases base with
    | none => simp [artworkProviderFallback, hip] at h
    | some base =>
      simp only [artworkProviderFallback, hip, Option.ite_none_left_eq_some,
        Option.ite_none_right_eq_some, Option.some.injEq] at h
      obtain ⟨-, hsafe, rfl⟩ := h
      exact hsafe

theorem serveArtwork_eq : serveArtwork U r target = candidates U r target := by
  simp only [serveArtwork, candidates, follow_fst, follow_snd]
  split
  · rw [List.append_nil]
  · split
    · rfl
    · rw [List.append_nil]

/-- Every URL that is contacted has passed the check. -/
theorem safe_of_candidate (htarget : safeArtworkURL U target = true)
    (h : u ∈ candidates U r target) : safeArtworkURL U u = true := by
  rw [candidates, List.mem_append, List.mem_cons] at h
  rcases h with (rfl | h) | h
  · exact htarget
  · exact safe_of_passed h
  · split at h
    · cases h
    · split at h
      · next fallback hfallback =>
        rcases List.mem_cons.mp h with rfl | h
        · exact safe_of_fallback hfallback
        · exact safe_of_passed h
      · cases h

/-! ## What passes the check -/

theorem isSpaceGo_of_isAddressChar {c : Char} (h : isAddressChar c = true) :
    isSpaceGo c = false := by
  have hlt : c.toNat < 128 := by
    simp only [isAddressChar, Bool.or_eq_true, Bool.and_eq_true, decide_eq_true_eq] at h
    rcases h with (((h | h) | h) | rfl) | rfl
    · omega
    · omega
    · omega
    · decide
    · decide
  exact @forall_ascii c (fun c => isAddressChar c = true → isSpaceGo c = false) (by decide)
    hlt h

theorem trimSpace_of_forall (h : ∀ c ∈ host, isSpaceGo c = false) : trimSpace host = host := by
  rw [trimSpace, dropWhile_of_forall h, dropWhile_of_forall fun c hc => h c (List.mem_reverse.mp hc),
    List.reverse_reverse]

/-- White space in front of a name is not part of its end. -/
theorem suffix_trimSpace (h : localSuffix <:+ host) : localSuffix <:+ trimSpace host := by
  obtain ⟨front, rfl⟩ := h
  have hstart : (front ++ localSuffix).dropWhile isSpaceGo =
      front.dropWhile isSpaceGo ++ localSuffix := by
    rw [List.dropWhile_append]
    split
    · next hnil =>
      rw [List.isEmpty_iff.mp hnil]
      decide
    · rfl
  have hend : (front.dropWhile isSpaceGo ++ localSuffix).reverse.dropWhile isSpaceGo =
      (front.dropWhile isSpaceGo ++ localSuffix).reverse := by
    apply dropWhile_of_head
    intro c hc
    rw [List.reverse_append, List.head?_append_of_ne_nil _ (by decide)] at hc
    obtain rfl := Option.some.inj hc.symm
    decide
  rw [trimSpace, hstart, hend, List.reverse_reverse]
  exact ⟨_, rfl⟩

/-- A host that is local as it is spelled does not pass. -/
theorem unsafe_of_local (h : LocalHost (U.goLower u.hostname)) : safeArtworkURL U u = false := by
  rw [safeArtworkURL]
  split
  · rfl
  · split
    · rfl
    · rcases h with h | h | ⟨ip, hip, hlocal⟩
      · have htrim : trimSpace (U.goLower u.hostname) = "localhost".toList := by
          rw [h]
          decide
        exact if_pos (.inl htrim)
      · have hsuffix := suffix_trimSpace (List.isSuffixOf_iff_suffix.mp h)
        exact if_pos (.inr (List.isSuffixOf_iff_suffix.mpr hsuffix))
      · have htrim : trimSpace (U.goLower u.hostname) = U.goLower u.hostname :=
          trimSpace_of_forall fun c hc => isSpaceGo_of_isAddressChar (isAddressChar_of_parseIP hip c hc)
        simp only [htrim]
        split
        · rfl
        · rw [hip]
          simp only [hlocal, Bool.not_true]

/-- A host that passes is local if it is disguised, and only then. -/
theorem clean_iff (h : safeArtworkURL U u = true) : u.Clean U ↔ ¬u.Disguised U := by
  constructor
  · exact fun hclean hdisguised => hclean hdisguised.2
  · intro hnot hlocal
    by_cases hbare : bare (U.goLower u.hostname) = U.goLower u.hostname
    · rw [hbare] at hlocal
      rw [unsafe_of_local hlocal] at h
      cases h
    · exact hnot ⟨hbare, hlocal⟩

/-- No local host is contacted if and only if none of the candidates, and of the redirects that the
check lets pass, is a local host with a dot at its end or with a zone. -/
theorem contacted_clean_iff (r : Request) (stored : Option Stored) :
    (∀ u ∈ serveArtworkToken U r stored, u.Clean U) ↔
      ∀ target, stored = some ⟨r.providerId, some target⟩ → safeArtworkURL U target = true →
        ∀ u ∈ candidates U r target, ¬u.Disguised U := by
  constructor
  · rintro h target rfl htarget u hu
    refine (clean_iff (safe_of_candidate htarget hu)).mp (h u ?_)
    simp only [serveArtworkToken, htarget, if_true, serveArtwork_eq, ne_eq, not_true_eq_false,
      if_false]
    exact hu
  · intro h u hu
    unfold serveArtworkToken at hu
    split at hu
    · cases hu
    next target =>
    obtain ⟨providerId, url⟩ := target
    split at hu
    · cases hu
    next hprovider =>
    obtain rfl := not_not.mp hprovider
    split at hu
    · cases hu
    next parsed hurl =>
    split at hu
    · next htarget =>
      obtain rfl : url = some parsed := hurl
      rw [serveArtwork_eq] at hu
      exact (clean_iff (safe_of_candidate htarget hu)).mpr (h parsed rfl htarget u hu)
    · cases hu

/-! ### A dot -/

/-- `http://` and a host -/
def urlOf (host : String) : URL := ⟨"http".toList, host.toList, "/logo.png".toList, [], []⟩

/-- A request for a stored logo. -/
def logo (replies : List Reply) : Request := ⟨"1".toList, none, replies, []⟩

/-- The stored target leads to the host, so does a redirect. -/
theorem localhost_dot_contacted :
    serveArtworkToken asciiOnly (logo [.image])
      (some ⟨"1".toList, some (urlOf "localhost.:6379")⟩) = [urlOf "localhost.:6379"] ∧
    serveArtworkToken asciiOnly (logo [.redirect (urlOf "127.0.0.1.:6379"), .image])
      (some ⟨"1".toList, some (urlOf "cdn.example")⟩) =
      [urlOf "cdn.example", urlOf "127.0.0.1.:6379"] ∧
    serveArtworkToken asciiOnly (logo [.image])
      (some ⟨"1".toList, some (urlOf "[fe80::1%eth0]")⟩) = [urlOf "[fe80::1%eth0]"] ∧
    ∀ host ∈ ["localhost.:6379", "127.0.0.1.:6379", "[fe80::1%eth0]"],
      ¬(urlOf host).Clean asciiOnly := by
  refine ⟨by decide, by decide, by decide, ?_⟩
  simp only [List.forall_mem_cons]
  refine ⟨fun h => h (.inl (by decide)), fun h => h ?_, fun h => h ?_, nofun⟩
  · exact .inr (.inr ⟨[0, 0, 0, 0, 0, 0xffff, 127 * 256, 1], by decide, by decide⟩)
  · exact .inr (.inr ⟨[0xfe80, 0, 0, 0, 0, 0, 0, 1], by decide, by decide⟩)

end IptvProxy.Artwork
