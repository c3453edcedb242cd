import IptvProxy.Media.M3u
import IptvProxy.Metadata.Artwork
import IptvProxy.Metadata.Shape
import IptvProxy.Xtream.Leaks

/-!
# What is cached of a document

`fetchCacheable` of `internal/proxy/cache_proxy.go` rewrites a JSON body in three passes: artwork
and direct sources, URLs of the provider, and media elsewhere (`rewriteOpaqueMediaJSON` of
`media_token.go`). Each pass reads the document, changes strings and writes it again.

A body is validated and counted without the white space around it, but the passes read it as it is.
White space that JSON does not know stops them, and the body goes out unchanged.

`pipeline_keeps_document`: the document that comes out has the shape of the one that went in, and a
string that differs is an emptied direct source or a URL of the proxy.
-/

namespace IptvProxy.Metadata

open Xtream

/-- Functions from outside. -/
structure PipelineLibrary (Ref : Type) extends ArtworkLibrary Ref where
  /-- `json.Unmarshal` into an `any` succeeds -/
  unmarshals : Bytes → Bool
  /-- `json.Unmarshal` into a `[]json.RawMessage` -/
  unmarshalList : Bytes → Option (List Bytes)
  /-- `utf8.ValidString` -/
  validString : Bytes → Bool

/-- What Redis answers when a media token is stored for the string at a place. -/
structure MediaStore where
  /-- there is a client of Redis -/
  connected : Bool
  /-- the command succeeds -/
  set : List ℕ → Bool

variable {Ref : Type} (L : PipelineLibrary Ref) (p : Provider) (appURL : Bytes)

/-! ## Direct sources -/

/-- `direct_source` -/
def directSource : Bytes := ascii "direct_source"

mutual

/-- `sanitizeXtreamDirectSources` -/
def sanitizeXtreamDirectSources : Json → Json × Bool
  | .object fields => (.object (sanitizeFields fields).1, (sanitizeFields fields).2)
  | .array xs => (.array (sanitizeItems xs).1, (sanitizeItems xs).2)
  | .string s => (.string s, false)
  | .null => (.null, false)
  | .bool b => (.bool b, false)
  | .number text => (.number text, false)

/-- The body of the loop over a map. -/
def sanitizeChild (key : Bytes) : Json → Json × Bool
  | .string raw =>
    if L.equalFold key directSource = true ∧ raw ≠ [] then (.string [], true)
    else (.string raw, false)
  | .object fields => (.object (sanitizeFields fields).1, (sanitizeFields fields).2)
  | .array xs => (.array (sanitizeItems xs).1, (sanitizeItems xs).2)
  | .null => (.null, false)
  | .bool b => (.bool b, false)
  | .number text => (.number text, false)

/-- The loop over a map. -/
def sanitizeFields : List (Bytes × Json) → List (Bytes × Json) × Bool
  | [] => ([], false)
  | (key, child) :: fields =>
    ((key, (sanitizeChild key child).1) :: (sanitizeFields fields).1,
      (sanitizeChild key child).2 || (sanitizeFields fields).2)

/-- The loop over a slice. -/
def sanitizeItems : List Json → List Json × Bool
  | [] => ([], false)
  | child :: items =>
    ((sanitizeXtreamDirectSources child).1 :: (sanitizeItems items).1,
      (sanitizeXtreamDirectSources child).2 || (sanitizeItems items).2)

end

/-- `rewriteJSONArtwork` -/
def rewriteJSONArtwork (S : ArtworkStore) (body : Bytes) : Bytes :=
  match L.decode body with
  | none => body
  | some value =>
    let rewrites := storeArtworkTargets L.toArtworkLibrary p appURL S
      (collectJSONArtwork L.toArtworkLibrary [] value)
    let (sanitized, changed) :=
      sanitizeXtreamDirectSources L (replacedArtwork L.toArtworkLibrary p appURL S value)
    if rewrites ≠ [] ∨ changed = true then L.marshal sanitized else body

/-! ## Media elsewhere -/

/-- `isLocalProxyURL` -/
def isLocalProxyURL (raw : Bytes) : Bool :=
  match L.parseURL (L.trimSpace raw), L.parseURL (trimSuffixSlash appURL) with
  | some target, some loc => target.host ≠ [] && loc.host ≠ [] && L.equalFold target.host loc.host
  | _, _ => false

/-- `opaqueMediaExtensions` -/
def opaqueMediaExtensions : List Bytes :=
  [ascii ".ts", ascii ".m3u8", ascii ".mp4", ascii ".mkv", ascii ".avi", ascii ".mov",
    ascii ".webm", ascii ".mpg", ascii ".mpeg", ascii ".m4v", ascii ".mp3", ascii ".aac",
    ascii ".m4a", ascii ".flac", ascii ".ogg", ascii ".wav", ascii ".srt", ascii ".vtt",
    ascii ".ass", ascii ".ssa", ascii ".ttml"]

/-- `artworkExtensions` -/
def artworkExtensions : List Bytes :=
  [ascii ".jpg", ascii ".jpeg", ascii ".png", ascii ".gif", ascii ".webp", ascii ".bmp",
    ascii ".ico", ascii ".svg"]

/-- `signedMediaQueryKeys` -/
def signedMediaQueryKeys : List Bytes :=
  [ascii "token", ascii "signature", ascii "sig", ascii "expires", ascii "expiry", ascii "exp",
    ascii "auth", ascii "key", ascii "hdnea", ascii "policy", ascii "credential",
    ascii "x-amz-signature", ascii "x-amz-credential", ascii "x-amz-expires",
    ascii "x-goog-signature", ascii "x-goog-credential"]

/-- `path.Ext` -/
def pathExt (path : Bytes) : Bytes :=
  let name := (path.reverse.takeWhile (· ≠ slash)).reverse
  match Media.cutLast 46 name with
  | some (_, after) => 46 :: after.drop 1
  | none => []

/-- An absolute URL of the web. -/
def isWebURL (target : URL) : Bool :=
  target.host ≠ [] && (target.scheme = ascii "http" || target.scheme = ascii "https")

/-- `isLikelyOpaqueMediaURL` -/
def isLikelyOpaqueMediaURL (target : URL) : Bool :=
  let ext := L.toLower (pathExt target.path)
  if isWebURL target = false then false
  else if ext ∈ artworkExtensions then false
  else if ext ∈ opaqueMediaExtensions then true
  else (Values.parse target.rawQuery).1.any fun pair => L.toLower pair.1 ∈ signedMediaQueryKeys

/-- `mediaPublicURL` -/
def mediaPublicURL (token : Bytes) : Bytes :=
  xtreamProviderPublicBase appURL p ++ ascii "/_media/" ++ token

variable (M : MediaStore)

/-- `storeMediaTarget` for the string at a place; `raw` is the URL as text. -/
def storeMediaTarget (path : List ℕ) (target : URL) (raw : Bytes) : Option Bytes :=
  if M.connected = false ∨ isWebURL target = false then none
  else if M.set path = false then none
  else some (mediaPublicURL p appURL (Media.deterministicMediaToken L.sum256 p.id raw))

/-- `rewriteOpaqueMediaURL` -/
def rewriteOpaqueMediaURL (path : List ℕ) (raw : Bytes) : Option Bytes :=
  if isLocalProxyURL L appURL raw = true then none
  else match L.parseURL (L.trimSpace raw) with
    | none => none
    | some target =>
      if isLikelyOpaqueMediaURL L target = false then none
      else storeMediaTarget L p appURL M path target
        (L.urlString target (L.fragment (L.trimSpace raw)))

mutual

/-- `rewriteOpaqueMediaJSONValue` -/
def rewriteOpaqueMediaJSONValue (path : List ℕ) : Json → Json × Bool
  | .object fields => (.object (opaqueFields path 0 fields).1, (opaqueFields path 0 fields).2)
  | .array xs => (.array (opaqueItems path 0 xs).1, (opaqueItems path 0 xs).2)
  | .string s => (.string s, false)
  | .null => (.null, false)
  | .bool b => (.bool b, false)
  | .number text => (.number text, false)

/-- The body of both loops. -/
def opaqueChild (path : List ℕ) : Json → Json × Bool
  | .string raw =>
    match rewriteOpaqueMediaURL L p appURL M path raw with
    | some text => (.string text, true)
    | none => (.string raw, false)
  | .object fields => (.object (opaqueFields path 0 fields).1, (opaqueFields path 0 fields).2)
  | .array xs => (.array (opaqueItems path 0 xs).1, (opaqueItems path 0 xs).2)
  | .null => (.null, false)
  | .bool b => (.bool b, false)
  | .number text => (.number text, false)

/-- The loop over a map. -/
def opaqueFields (path : List ℕ) (n : ℕ) : List (Bytes × Json) → List (Bytes × Json) × Bool
  | [] => ([], false)
  | (key, child) :: fields =>
    ((key, (opaqueChild (path ++ [n]) child).1) :: (opaqueFields path (n + 1) fields).1,
      (opaqueChild (path ++ [n]) child).2 || (opaqueFields path (n + 1) fields).2)

/-- The loop over a slice. -/
def opaqueItems (path : List ℕ) (n : ℕ) : List Json → List Json × Bool
  | [] => ([], false)
  | child :: items =>
    ((opaqueChild (path ++ [n]) child).1 :: (opaqueItems path (n + 1) items).1,
      (opaqueChild (path ++ [n]) child).2 || (opaqueItems path (n + 1) items).2)

end

/-- `rewriteOpaqueMediaJSON` -/
def rewriteOpaqueMediaJSON (body : Bytes) : Bytes :=
  match L.decode body with
  | none => body
  | some value =>
    if (rewriteOpaqueMediaJSONValue L p appURL M [] value).2 = false then body
    else L.marshal (rewriteOpaqueMediaJSONValue L p appURL M [] value).1

/-! ## The passes -/

/-- `validateCacheBody` -/
def validateCacheBody (endpoint body : Bytes) : Except String Unit :=
  let trimmed := L.trimSpace body
  if trimmed = [] then .error "provider returned an empty response"
  else if endpoint = ascii "player_api.php" ∨ endpoint = ascii "panel_api.php" then
    if L.unmarshals trimmed = false then .error "provider returned invalid JSON" else .ok ()
  else if endpoint = ascii "get.php" then
    if (ascii "#EXTM3U").isPrefixOf trimmed = false then
      .error "provider returned an invalid M3U playlist"
    else .ok ()
  else if endpoint = ascii "xmltv.php" then
    if ascii "<tv" <:+: L.toLower trimmed then .ok ()
    else .error "provider returned invalid XMLTV data"
  else .ok ()

/-- `jsonItemCount` -/
def jsonItemCount (endpoint body : Bytes) : ℕ × Bool :=
  if endpoint ≠ ascii "player_api.php" ∧ endpoint ≠ ascii "panel_api.php" then (0, false)
  else match L.unmarshalList (L.trimSpace body) with
    | some list => (list.length, true)
    | none => (0, false)

/-- `canonicalCacheCredentials` -/
def canonicalCacheCredentials : RewriteCredentials :=
  ⟨ascii "__IPTV_PATH_USER_V1__", ascii "__IPTV_PATH_PASS_V1__", ascii "__IPTV_QUERY_USER_V1__",
    ascii "__IPTV_QUERY_PASS_V1__"⟩

/-- The three passes of `fetchCacheable` over a JSON body. -/
def canonicalJSON (S : ArtworkStore) (body : Bytes) : Bytes :=
  rewriteOpaqueMediaJSON L p appURL M
    (rewriteXtreamJSONURLsWithCredentials L.toJSONLibrary p canonicalCacheCredentials
      (xtreamProviderPublicBase appURL p) (rewriteJSONArtwork L p appURL S body))

/-! ## What each pass keeps -/

/-- The elements of a list; `null` has none. -/
def elements : Json → Option ℕ
  | .array xs => some xs.length
  | .null => some 0
  | _ => none

/-- The body is this document, with white space around it. -/
def IsDocument (body : Bytes) (v : Json) : Prop :=
  L.decode (L.trimSpace body) = some v ∧
    (L.unmarshalList (L.trimSpace body)).map List.length = elements v

/-- What `encoding/json`, `net/url`, `strings` and `unicode/utf8` are relied on for. A map is the
list of its fields in the order of the keys. -/
structure PipelineLibrary.Documented : Prop where
  /-- a text that is one JSON value is read -/
  decode_of_unmarshals : ∀ body, L.unmarshals (L.trimSpace body) = true → ∃ v, IsDocument L body v
  /-- white space before a document is skipped, or not known to JSON -/
  decode_untrimmed : ∀ body v, IsDocument L body v →
    L.decode body = none ∨ L.decode body = some v
  /-- a document that was read is written and read again, also when its strings are others that are
  valid -/
  decode_marshal : ∀ body v w, IsDocument L body v →
    Related (fun _ s t => s = t ∨ L.validString t = true) none v w → IsDocument L (L.marshal w) w
  /-- a text is equal to itself -/
  equalFold_refl : ∀ s, L.equalFold s s = true
  /-- the empty string is valid -/
  valid_nil : L.validString [] = true
  /-- a valid string stays one if ASCII is appended -/
  valid_append : ∀ s t, L.validString s = true → (∀ c ∈ t, c.val < 128) →
    L.validString (s ++ t) = true
  /-- a path below a URL without query and fragment is on its host -/
  parse_below : ∀ s u t, L.parseURL s = some u → u.host ≠ [] → questionMark ∉ s →
    Media.number ∉ s → (∀ c ∈ t, Values.unreserved c = true ∨ c = slash) →
    ∃ v, L.parseURL (L.trimSpace (s ++ slash :: t)) = some v ∧ v.host = u.host
  /-- a URL with the scheme and the host of one that was read is printed as valid text and read
  again -/
  parse_urlString : ∀ s loc (u : URL) q f, L.parseURL s = some loc → loc.host ≠ [] →
    u.scheme = loc.scheme → u.host = loc.host →
    L.validString (L.urlString { u with rawQuery := Values.encode q } f) = true ∧
      ∃ v, L.parseURL (L.trimSpace (L.urlString { u with rawQuery := Values.encode q } f)) =
        some v ∧ v.host = loc.host

/-- The address of the proxy is an absolute URL, and so is the base path of the provider on it. -/
structure ProxyAddress (loc : URL) : Prop where
  /-- the address -/
  parsed : L.parseURL (trimSuffixSlash appURL) = some loc
  /-- it has a host -/
  host : loc.host ≠ []
  /-- the route of the provider is a path on this host -/
  base : ∃ u, L.parseURL (xtreamProviderPublicBase appURL p) = some u ∧ u.host = loc.host
  /-- also without a slash at its end -/
  trimmed : ∃ u, L.parseURL (trimSuffixSlash (xtreamProviderPublicBase appURL p)) = some u ∧
    u.host = loc.host
  /-- there is no query and no fragment -/
  plain : questionMark ∉ xtreamProviderPublicBase appURL p ∧
    Media.number ∉ xtreamProviderPublicBase appURL p
  /-- it is valid text -/
  valid : L.validString (xtreamProviderPublicBase appURL p) = true

/-- How a string may change: an emptied direct source, or a URL of the proxy. -/
def Changed (key : Option Bytes) (s t : Bytes) : Prop :=
  s = t ∨ (t = [] ∧ ∃ k, key = some k ∧ L.equalFold k directSource = true) ∨
    isLocalProxyURL L appURL t = true

/-- It changes in this way, and into valid text. -/
def Rewritten (key : Option Bytes) (s t : Bytes) : Prop :=
  s = t ∨ ((t = [] ∧ ∃ k, key = some k ∧ L.equalFold k directSource = true) ∨
    isLocalProxyURL L appURL t = true) ∧ L.validString t = true

/-- The playlists' `isLocalProxyURL` is the same. -/
theorem isLocalProxyURL_eq (htrim : ∀ s, L.trimSpace s = Catchup.trimSpace s)
    (hparse : ∀ s, L.parseURL s = (Media.Reference.parse s).map Media.Reference.url)
    (raw : Bytes) :
    isLocalProxyURL L appURL raw = Media.M3u.isLocalProxyURL L.toLibrary appURL raw := by
  rw [isLocalProxyURL, Media.M3u.isLocalProxyURL, htrim, hparse, hparse]
  rcases Media.Reference.parse (Catchup.trimSpace raw) with _ | target
  · rfl
  rcases Media.Reference.parse (trimSuffixSlash appURL) with _ | loc
  · rfl
  · rfl

variable {L p appURL M} {S : ArtworkStore} {loc : URL} {body : Bytes} {v w : Json}

theorem rewritten_refl (key : Option Bytes) (s : Bytes) : Rewritten L appURL key s s := .inl rfl

theorem rewritten_trans (key : Option Bytes) (s t u : Bytes) (hs : Rewritten L appURL key s t)
    (ht : Rewritten L appURL key t u) : Rewritten L appURL key s u := by
  rcases ht with rfl | ht
  · exact hs
  · exact .inr ht

theorem IsDocument.marshal (hL : L.Documented) (hbody : IsDocument L body v)
    (h : Related (Rewritten L appURL) none v w) : IsDocument L (L.marshal w) w :=
  hL.decode_marshal body v w hbody (h.mono fun _ _ _ h => h.imp_right And.right)

/-- A path below the base path of the provider is a valid URL of the proxy. -/
theorem rewritten_below (hL : L.Documented) (hA : ProxyAddress L p appURL loc) {t : Bytes}
    (ht : ∀ c ∈ t, Values.unreserved c = true ∨ c = slash) (key : Option Bytes) (s : Bytes) :
    Rewritten L appURL key s (xtreamProviderPublicBase appURL p ++ slash :: t) := by
  obtain ⟨u, hu, hhost⟩ := hA.base
  refine .inr ⟨.inr ?_, hL.valid_append _ _ hA.valid ?_⟩
  · obtain ⟨v, hv, hvhost⟩ := hL.parse_below _ u t hu (by rw [hhost]; exact hA.host) hA.plain.1
      hA.plain.2 ht
    rw [isLocalProxyURL, hv, hA.parsed]
    simp only [hvhost, hhost, hA.host, hL.equalFold_refl, ne_eq, not_false_eq_true, decide_true,
      Bool.and_self]
  · have hascii : ∀ c : Byte, Values.unreserved c = true ∨ c = slash → c.val < 128 := by
      rintro c (hc | rfl)
      · simp only [Values.unreserved, Bool.or_eq_true, Bool.and_eq_true, decide_eq_true_eq] at hc
        omega
      · decide
    intro c hc
    rcases List.mem_cons.mp hc with rfl | hc
    · decide
    · exact hascii c (ht c hc)

/-- A token consists of unreserved bytes. -/
theorem token_unreserved (sum256 : Bytes → Bytes) (id raw : Bytes) :
    ∀ c ∈ Media.deterministicMediaToken sum256 id raw, Values.unreserved c = true := by
  intro c hc
  obtain ⟨ch, hch, rfl⟩ := List.mem_map.mp hc
  rw [String.toList_ofList] at hch
  have hall : (Base64.alphabet.all fun ch => Values.unreserved (Fin.ofNat 256 ch.toNat)) = true := by
    decide
  exact List.all_eq_true.mp hall ch (Base64.mem_encode hch)

theorem dir_token (dir : Bytes) (hdir : ∀ c ∈ dir, Values.unreserved c = true ∨ c = slash)
    (sum256 : Bytes → Bytes) (id raw : Bytes) :
    ∀ c ∈ dir ++ Media.deterministicMediaToken sum256 id raw,
      Values.unreserved c = true ∨ c = slash := by
  intro c hc
  rcases List.mem_append.mp hc with hc | hc
  · exact hdir c hc
  · exact .inl (token_unreserved sum256 id raw c hc)

theorem mem_of_rewriteOf {rewrites : List (Bytes × Bytes)} {raw : Bytes}
    (h : rewriteOf rewrites raw ≠ []) : (raw, rewriteOf rewrites raw) ∈ rewrites := by
  rw [rewriteOf] at h ⊢
  cases hlookup : rewrites.lookup raw with
  | none =>
    rw [hlookup] at h
    exact absurd rfl h
  | some url =>
    obtain ⟨before, after, rfl, -⟩ := List.lookup_eq_some_iff.mp hlookup
    exact List.mem_append_right _ List.mem_cons_self

theorem mem_uniqueArtwork {L : ArtworkLibrary Ref} {raws : List Bytes} {item : PreparedArtwork} :
    ∀ {unique}, item ∈ uniqueArtwork L p appURL unique raws →
      item ∈ unique ∨ ∃ raw, prepareArtwork L p appURL raw = some item := by
  induction raws with
  | nil => exact fun h => .inl h
  | cons raw raws ih =>
    intro unique h
    rw [uniqueArtwork] at h
    split at h
    · exact ih h
    · split at h
      · exact ih h
      · next item' hitem =>
        rcases ih h with h | h
        · rcases List.mem_append.mp h with h | h
          · exact .inl h
          · obtain rfl := List.mem_singleton.mp h
            exact .inr ⟨raw, hitem⟩
        · exact .inr h

theorem prepared_of_stored {L : ArtworkLibrary Ref} {raws : List Bytes} {pair : Bytes × Bytes}
    (h : pair ∈ storeArtworkTargets L p appURL S raws) :
    ∃ raw item, prepareArtwork L p appURL raw = some item ∧ pair = (item.raw, item.publicURL) := by
  rw [storeArtworkTargets] at h
  split at h
  · cases h
  · obtain ⟨n, -, h⟩ := List.mem_flatMap.mp h
    dsimp only at h
    split at h
    · obtain ⟨item, hitem, rfl⟩ := List.mem_map.mp h
      have hunique := (S.order_perm _).subset (List.mem_of_mem_drop (List.mem_of_mem_take hitem))
      rcases mem_uniqueArtwork hunique with h | ⟨raw, hraw⟩
      · cases h
      · exact ⟨raw, item, hraw, rfl⟩
    · cases h

/-- Every URL that was stored is an artwork URL of the proxy. -/
theorem url_of_stored {L : ArtworkLibrary Ref} {raws : List Bytes} {pair : Bytes × Bytes}
    (h : pair ∈ storeArtworkTargets L p appURL S raws) :
    ∃ text, pair.2 =
      artworkPublicURL p appURL (Media.deterministicMediaToken L.sum256 p.id text) := by
  obtain ⟨raw, item, hitem, rfl⟩ := prepared_of_stored h
  obtain ⟨target, -, rfl⟩ := Option.map_eq_some_iff.mp hitem
  exact ⟨L.refString target, rfl⟩

/-- What is left of a target is the target, and it is safe. -/
theorem safe_of_kept {L : ArtworkLibrary Ref} {resolved target : Ref}
    (h : (if L.safeArtworkURL resolved = false then none else some resolved) = some target) :
    L.safeArtworkURL target = true := by
  split at h
  · cases h
  · next hsafe =>
    obtain rfl := Option.some.inj h
    exact Bool.of_not_eq_false hsafe

theorem safeArtworkURL_of_resolved {L : ArtworkLibrary Ref} {raw : Bytes} {target : Ref}
    (h : resolveArtworkTarget L p raw = some target) : L.safeArtworkURL target = true := by
  rw [resolveArtworkTarget] at h
  dsimp only at h
  split at h
  · cases h
  · obtain ⟨parsed, -, h⟩ := Option.bind_eq_some_iff.mp h
    split at h
    · obtain ⟨resolved, -, h⟩ := Option.bind_eq_some_iff.mp h
      exact safe_of_kept h
    · exact safe_of_kept h

/-- Every URL that was stored is one that `serveArtworkToken` follows. -/
theorem stored_is_followed {L : ArtworkLibrary Ref} {raws : List Bytes} {pair : Bytes × Bytes}
    (h : pair ∈ storeArtworkTargets L p appURL S raws) :
    ∃ target, pair.2 = artworkPublicURL p appURL
        (Media.deterministicMediaToken L.sum256 p.id (L.refString target)) ∧
      ∀ r, Artwork.serveArtworkToken L.unicode r (some ⟨r.providerId, some (L.fields target)⟩) =
        Artwork.serveArtwork L.unicode r (L.fields target) := by
  obtain ⟨raw, item, hitem, rfl⟩ := prepared_of_stored h
  obtain ⟨target, htarget, rfl⟩ := Option.map_eq_some_iff.mp hitem
  refine ⟨target, rfl, fun r => ?_⟩
  rw [Artwork.serveArtworkToken]
  simp only [ne_eq, not_true_eq_false, if_false]
  exact if_pos (safeArtworkURL_of_resolved htarget)

section

variable {R : Option Bytes → Bytes → Bytes → Prop} {rewrites : List (Bytes × Bytes)}
  {A : ArtworkLibrary Ref}

theorem relatedItems_replaceStrings (hrefl : ∀ key s, R key s s)
    (hrewrite : ∀ key s, rewriteOf rewrites s ≠ [] → R key s (rewriteOf rewrites s)) (key : Bytes)
    (items : List Json) : RelatedItems R items (replaceStrings rewrites key items) := by
  rw [replaceStrings]
  split
  · induction items with
    | nil => exact .nil
    | cons child items ih =>
      refine .cons ?_ ih
      cases child with
      | string s =>
        rw [replaceString]
        split
        · next h => exact .string (hrewrite none s h)
        · exact .string (hrefl none s)
      | object fields => exact Related.refl hrefl none _
      | array xs => exact Related.refl hrefl none _
      | null => exact .null
      | bool b => exact .bool b
      | number text => exact .number text
  · exact relatedItems_refl hrefl items

mutual

theorem related_replaceJSONArtwork (hrefl : ∀ key s, R key s s)
    (htrans : ∀ key s t u, R key s t → R key t u → R key s u)
    (hrewrite : ∀ key s, rewriteOf rewrites s ≠ [] → R key s (rewriteOf rewrites s))
    (key : Option Bytes) (lowerKey : Bytes) (v : Json) :
    Related R key v (replaceJSONArtwork A rewrites lowerKey v) := by
  cases v with
  | object fields => exact .object (related_replaceFields hrefl htrans hrewrite fields)
  | array xs => exact .array (related_replaceItems hrefl htrans hrewrite lowerKey xs)
  | string s => exact .string (hrefl key s)
  | null => exact .null
  | bool b => exact .bool b
  | number text => exact .number text

theorem related_replaceFields (hrefl : ∀ key s, R key s s)
    (htrans : ∀ key s t u, R key s t → R key t u → R key s u)
    (hrewrite : ∀ key s, rewriteOf rewrites s ≠ [] → R key s (rewriteOf rewrites s))
    (fields : List (Bytes × Json)) : RelatedFields R fields (replaceFields A rewrites fields) := by
  cases fields with
  | nil => exact .nil
  | cons field fields =>
    obtain ⟨key, child⟩ := field
    exact .cons (related_replaceChild hrefl htrans hrewrite (some key) (A.toLower key) child)
      (related_replaceFields hrefl htrans hrewrite fields)

theorem related_replaceChild (hrefl : ∀ key s, R key s s)
    (htrans : ∀ key s t u, R key s t → R key t u → R key s u)
    (hrewrite : ∀ key s, rewriteOf rewrites s ≠ [] → R key s (rewriteOf rewrites s))
    (key : Option Bytes) (lowerKey : Bytes) (v : Json) :
    Related R key v (replaceChild A rewrites lowerKey v) := by
  cases v with
  | object fields => exact .object (related_replaceFields hrefl htrans hrewrite fields)
  | array xs =>
    exact .array (relatedItems_trans htrans
      (related_replaceItems hrefl htrans hrewrite lowerKey xs)
      (relatedItems_replaceStrings hrefl hrewrite lowerKey _))
  | string s =>
    rw [replaceChild]
    split
    · next h => exact .string (hrewrite key s h.2)
    · exact .string (hrefl key s)
  | null => exact .null
  | bool b => exact .bool b
  | number text => exact .number text

theorem related_replaceItems (hrefl : ∀ key s, R key s s)
    (htrans : ∀ key s t u, R key s t → R key t u → R key s u)
    (hrewrite : ∀ key s, rewriteOf rewrites s ≠ [] → R key s (rewriteOf rewrites s))
    (lowerKey : Bytes) (items : List Json) :
    RelatedItems R items (replaceItems A rewrites lowerKey items) := by
  cases items with
  | nil => exact .nil
  | cons child items =>
    exact .cons (related_replaceJSONArtwork hrefl htrans hrewrite none lowerKey child)
      (related_replaceItems hrefl htrans hrewrite lowerKey items)

end

end

mutual

/-- Direct sources are emptied, and the flag tells whether one was. -/
theorem related_sanitize (hL : L.Documented) (key : Option Bytes) (v : Json) :
    Related (Rewritten L appURL) key v (sanitizeXtreamDirectSources L v).1 ∧
      ((sanitizeXtreamDirectSources L v).2 = false → (sanitizeXtreamDirectSources L v).1 = v) := by
  cases v with
  | object fields =>
    obtain ⟨hrelated, hsame⟩ := related_sanitizeFields hL fields
    refine ⟨.object hrelated, fun h => ?_⟩
    rw [sanitizeXtreamDirectSources, hsame h]
  | array xs =>
    obtain ⟨hrelated, hsame⟩ := related_sanitizeItems hL xs
    refine ⟨.array hrelated, fun h => ?_⟩
    rw [sanitizeXtreamDirectSources, hsame h]
  | string s => exact ⟨.string (rewritten_refl key s), fun _ => rfl⟩
  | null => exact ⟨.null, fun _ => rfl⟩
  | bool b => exact ⟨.bool b, fun _ => rfl⟩
  | number text => exact ⟨.number text, fun _ => rfl⟩

theorem related_sanitizeChild (hL : L.Documented) (key : Bytes) (v : Json) :
    Related (Rewritten L appURL) (some key) v (sanitizeChild L key v).1 ∧
      ((sanitizeChild L key v).2 = false → (sanitizeChild L key v).1 = v) := by
  cases v with
  | object fields =>
    obtain ⟨hrelated, hsame⟩ := related_sanitizeFields hL fields
    refine ⟨.object hrelated, fun h => ?_⟩
    rw [sanitizeChild, hsame h]
  | array xs =>
    obtain ⟨hrelated, hsame⟩ := related_sanitizeItems hL xs
    refine ⟨.array hrelated, fun h => ?_⟩
    rw [sanitizeChild, hsame h]
  | string s =>
    rw [sanitizeChild]
    split
    · next h =>
      exact ⟨.string (.inr ⟨.inl ⟨rfl, key, rfl, h.1⟩, hL.valid_nil⟩), fun h => by cases h⟩
    · exact ⟨.string (rewritten_refl _ s), fun _ => rfl⟩
  | null => exact ⟨.null, fun _ => rfl⟩
  | bool b => exact ⟨.bool b, fun _ => rfl⟩
  | number text => exact ⟨.number text, fun _ => rfl⟩

theorem related_sanitizeFields (hL : L.Documented) (fields : List (Bytes × Json)) :
    RelatedFields (Rewritten L appURL) fields (sanitizeFields L fields).1 ∧
      ((sanitizeFields L fields).2 = false → (sanitizeFields L fields).1 = fields) := by
  cases fields with
  | nil => exact ⟨.nil, fun _ => rfl⟩
  | cons field fields =>
    obtain ⟨key, child⟩ := field
    obtain ⟨hchild, hsame⟩ := related_sanitizeChild hL key child
    obtain ⟨hrest, hsame'⟩ := related_sanitizeFields hL fields
    refine ⟨.cons hchild hrest, fun h => ?_⟩
    obtain ⟨h, h'⟩ := Bool.or_eq_false_iff.mp h
    rw [sanitizeFields, hsame h, hsame' h']

theorem related_sanitizeItems (hL : L.Documented) (items : List Json) :
    RelatedItems (Rewritten L appURL) items (sanitizeItems L items).1 ∧
      ((sanitizeItems L items).2 = false → (sanitizeItems L items).1 = items) := by
  cases items with
  | nil => exact ⟨.nil, fun _ => rfl⟩
  | cons child items =>
    obtain ⟨hchild, hsame⟩ := related_sanitize hL none child
    obtain ⟨hrest, hsame'⟩ := related_sanitizeItems hL items
    refine ⟨.cons hchild hrest, fun h => ?_⟩
    obtain ⟨h, h'⟩ := Bool.or_eq_false_iff.mp h
    rw [sanitizeItems, hsame h, hsame' h']

end

/-! ## The three passes -/

/-- The artwork pass. -/
theorem document_rewriteJSONArtwork (hL : L.Documented) (hA : ProxyAddress L p appURL loc)
    (S : ArtworkStore) (hbody : IsDocument L body v) :
    ∃ w, IsDocument L (rewriteJSONArtwork L p appURL S body) w ∧
      Related (Rewritten L appURL) none v w := by
  set A := L.toArtworkLibrary with hAdef
  set stored := storeArtworkTargets A p appURL S (collectJSONArtwork A [] v) with hstored
  have hrewrite : ∀ key s, rewriteOf stored s ≠ [] →
      Rewritten L appURL key s (rewriteOf stored s) := by
    intro key s hne
    obtain ⟨text, htext⟩ := url_of_stored (mem_of_rewriteOf hne)
    dsimp only at htext
    rw [htext, artworkPublicURL, List.append_assoc]
    exact rewritten_below hL hA (dir_token (ascii "_artwork/")
      (List.forall_iff_forall_mem.mp (by decide)) _ _ _)
      key s
  have hreplaced : Related (Rewritten L appURL) none v (replacedArtwork A p appURL S v) := by
    rw [replacedArtwork_eq]
    exact related_replaceJSONArtwork rewritten_refl rewritten_trans hrewrite none [] v
  obtain ⟨hsanitized, hsame⟩ : Related (Rewritten L appURL) none
      (replacedArtwork A p appURL S v) _ ∧ _ := related_sanitize hL none _
  have hrelated := hreplaced.trans rewritten_trans hsanitized
  rw [rewriteJSONArtwork]
  rcases hL.decode_untrimmed body v hbody with hdecode | hdecode <;> rw [hdecode] <;> dsimp only
  · exact ⟨v, hbody, Related.refl rewritten_refl none v⟩
  split
  · exact ⟨_, hbody.marshal hL hrelated, hrelated⟩
  · next hunchanged =>
    rw [not_or, not_not, Bool.not_eq_true] at hunchanged
    refine ⟨v, hbody, Related.refl rewritten_refl none v⟩

/-- The pass over the URLs of the provider. -/
theorem document_rewriteXtream (hL : L.Documented) (hA : ProxyAddress L p appURL loc)
    (c : RewriteCredentials) (hbody : IsDocument L body v) :
    ∃ w, IsDocument L (rewriteXtreamJSONURLsWithCredentials L.toJSONLibrary p c
        (xtreamProviderPublicBase appURL p) body) w ∧ Related (Rewritten L appURL) none v w := by
  set base := xtreamProviderPublicBase appURL p with hbase
  have hrewrite : ∀ key s, Rewritten L appURL key s (replaced L.toJSONLibrary p c base s) := by
    intro key s
    rw [replaced]
    cases hreplacement : replacement L.toJSONLibrary p c base s with
    | none => exact .inl rfl
    | some text =>
      obtain ⟨y, hy, rfl⟩ := Option.map_eq_some_iff.mp hreplacement
      obtain ⟨loc', path, q, hloc', hhost', rfl⟩ := rewrite_local hy
      obtain ⟨b, hb, hbhost⟩ := hA.trimmed
      obtain rfl := Option.some.inj (hb.symm.trans hloc')
      obtain ⟨hvalid, target, htarget, hhost⟩ := hL.parse_urlString _ b { b with path := path } q
        (L.fragment (L.trimSpace s)) hb hhost' rfl rfl
      refine .inr ⟨.inr ?_, hvalid⟩
      rw [Option.getD_some, isLocalProxyURL, htarget, hA.parsed]
      simp only [hhost, hbhost, hA.host, hL.equalFold_refl, ne_eq, not_false_eq_true, decide_true,
        Bool.and_self]
  rw [rewriteXtreamJSONURLsWithCredentials]
  rcases hL.decode_untrimmed body v hbody with hdecode | hdecode <;> rw [hdecode] <;> dsimp only
  · exact ⟨v, hbody, Related.refl rewritten_refl none v⟩
  split
  · exact ⟨v, hbody, Related.refl rewritten_refl none v⟩
  · next hchanged =>
    have hcontainer : v.isContainer = true := by
      cases v with
      | object fields => rfl
      | array xs => rfl
      | null => exact absurd rfl hchanged
      | bool b => exact absurd rfl hchanged
      | number text => exact absurd rfl hchanged
      | string s => exact absurd rfl hchanged
    have hrelated : Related (Rewritten L appURL) none v
        (rewriteXtreamJSONValue L.toJSONLibrary p c base v).1 := by
      rw [rewriteXtreamJSONValue_eq hcontainer]
      exact related_mapLeaves hrewrite none v
    exact ⟨_, hbody.marshal hL hrelated, hrelated⟩

/-- Media elsewhere becomes a URL of the proxy. -/
theorem rewritten_media (hL : L.Documented) (hA : ProxyAddress L p appURL loc) {path : List ℕ}
    {raw text : Bytes} (h : rewriteOpaqueMediaURL L p appURL M path raw = some text)
    (key : Option Bytes) : Rewritten L appURL key raw text := by
  rw [rewriteOpaqueMediaURL] at h
  split at h
  · cases h
  split at h
  · cases h
  split at h
  · cases h
  rw [storeMediaTarget] at h
  split at h
  · cases h
  split at h
  · cases h
  obtain rfl := Option.some.inj h
  rw [mediaPublicURL, List.append_assoc]
  exact rewritten_below hL hA (dir_token (ascii "_media/")
    (List.forall_iff_forall_mem.mp (by decide)) _ _ _) key raw

mutual

theorem related_opaqueChild (hL : L.Documented) (hA : ProxyAddress L p appURL loc)
    (key : Option Bytes) (path : List ℕ) (v : Json) :
    Related (Rewritten L appURL) key v (opaqueChild L p appURL M path v).1 := by
  cases v with
  | object fields => exact .object (related_opaqueFields hL hA path 0 fields)
  | array xs => exact .array (related_opaqueItems hL hA path 0 xs)
  | string raw =>
    rw [opaqueChild]
    split
    · next text h => exact .string (rewritten_media hL hA h key)
    · exact .string (rewritten_refl key raw)
  | null => exact .null
  | bool b => exact .bool b
  | number text => exact .number text

theorem related_opaqueFields (hL : L.Documented) (hA : ProxyAddress L p appURL loc)
    (path : List ℕ) (n : ℕ) (fields : List (Bytes × Json)) :
    RelatedFields (Rewritten L appURL) fields (opaqueFields L p appURL M path n fields).1 := by
  cases fields with
  | nil => exact .nil
  | cons field fields =>
    obtain ⟨key, child⟩ := field
    exact .cons (related_opaqueChild hL hA (some key) (path ++ [n]) child)
      (related_opaqueFields hL hA path (n + 1) fields)

theorem related_opaqueItems (hL : L.Documented) (hA : ProxyAddress L p appURL loc)
    (path : List ℕ) (n : ℕ) (items : List Json) :
    RelatedItems (Rewritten L appURL) items (opaqueItems L p appURL M path n items).1 := by
  cases items with
  | nil => exact .nil
  | cons child items =>
    exact .cons (related_opaqueChild hL hA none (path ++ [n]) child)
      (related_opaqueItems hL hA path (n + 1) items)

end

/-- The pass over media elsewhere. -/
theorem document_rewriteOpaqueMediaJSON (hL : L.Documented) (hA : ProxyAddress L p appURL loc)
    (M : MediaStore) (hbody : IsDocument L body v) :
    ∃ w, IsDocument L (rewriteOpaqueMediaJSON L p appURL M body) w ∧
      Related (Rewritten L appURL) none v w := by
  have hrelated : Related (Rewritten L appURL) none v
      (rewriteOpaqueMediaJSONValue L p appURL M [] v).1 := by
    cases v with
    | object fields => exact .object (related_opaqueFields hL hA [] 0 fields)
    | array xs => exact .array (related_opaqueItems hL hA [] 0 xs)
    | string s => exact .string (rewritten_refl none s)
    | null => exact .null
    | bool b => exact .bool b
    | number text => exact .number text
  rw [rewriteOpaqueMediaJSON]
  rcases hL.decode_untrimmed body v hbody with hdecode | hdecode <;> rw [hdecode] <;> dsimp only
  · exact ⟨v, hbody, Related.refl rewritten_refl none v⟩
  split
  · exact ⟨v, hbody, Related.refl rewritten_refl none v⟩
  · exact ⟨_, hbody.marshal hL hrelated, hrelated⟩

theorem Related.elements {R : Option Bytes → Bytes → Bytes → Prop} {key : Option Bytes}
    (h : Related R key v w) : elements v = elements w := by
  cases h with
  | array h => exact congrArg some h.length
  | string h => rfl
  | object h => rfl
  | null => rfl
  | bool b => rfl
  | number text => rfl

theorem IsDocument.jsonItemCount_eq {body' : Bytes} {endpoint : Bytes} (h : IsDocument L body v)
    (h' : IsDocument L body' w) (hsame : elements v = elements w) :
    jsonItemCount L endpoint body = jsonItemCount L endpoint body' := by
  have hlength : (L.unmarshalList (L.trimSpace body)).map List.length =
      (L.unmarshalList (L.trimSpace body')).map List.length := by
    rw [h.2, h'.2, hsame]
  rw [jsonItemCount, jsonItemCount]
  split
  · rfl
  · cases hlist : L.unmarshalList (L.trimSpace body) with
    | none =>
      rw [hlist, Option.map_none, eq_comm, Option.map_eq_none_iff] at hlength
      rw [hlength]
    | some list =>
      rw [hlist, Option.map_some, eq_comm, Option.map_eq_some_iff] at hlength
      obtain ⟨list', hlist', hlen⟩ := hlength
      rw [hlist']
      simp only [hlen]

/-- **The pipeline keeps the document**: the same keys, lists of the same length, the same numbers,
truth values and nulls and the same number of items; a string that differs is an emptied direct
source or a URL of the proxy. -/
theorem pipeline_keeps_document (hL : L.Documented) (hA : ProxyAddress L p appURL loc)
    (S : ArtworkStore) (M : MediaStore) {endpoint : Bytes}
    (hendpoint : endpoint = ascii "player_api.php" ∨ endpoint = ascii "panel_api.php")
    (hvalid : validateCacheBody L endpoint body = .ok ()) :
    ∃ v w, L.decode (L.trimSpace body) = some v ∧
      L.decode (L.trimSpace (canonicalJSON L p appURL M S body)) = some w ∧
      Related (Changed L appURL) none v w ∧
      jsonItemCount L endpoint body =
        jsonItemCount L endpoint (canonicalJSON L p appURL M S body) := by
  have hunmarshals : L.unmarshals (L.trimSpace body) = true := by
    by_contra h
    rw [validateCacheBody] at hvalid
    simp only [if_pos hendpoint, if_pos (Bool.not_eq_true _ ▸ h)] at hvalid
    split at hvalid
    · cases hvalid
    · cases hvalid
  obtain ⟨v, hv⟩ := hL.decode_of_unmarshals body hunmarshals
  obtain ⟨v₁, hv₁, h₁⟩ := document_rewriteJSONArtwork hL hA S hv
  obtain ⟨v₂, hv₂, h₂⟩ := document_rewriteXtream hL hA canonicalCacheCredentials hv₁
  obtain ⟨w, hw, h₃⟩ := document_rewriteOpaqueMediaJSON hL hA M hv₂
  have hrelated := (h₁.trans rewritten_trans h₂).trans rewritten_trans h₃
  refine ⟨v, w, hv.1, hw.1, hrelated.mono fun key s t h => h.imp_right And.left, ?_⟩
  exact hv.jsonItemCount_eq hw hrelated.elements

/-! ## A document with one string -/

/-- A library for documents with one string and URLs with `http`. -/
def samplePipeline : PipelineLibrary Bytes :=
  { sampleJSON with
    unescapeString := id
    parseRef := some
    isAbs := fun _ => true
    resolve := fun _ ref => ref
    fields := fun _ => Artwork.urlOf "cdn"
    unicode := GoText.asciiOnly
    refString := id
    sum256 := id
    unmarshals := fun body => (stringOf body).isSome
    unmarshalList := fun _ => none
    validString := fun _ => true }

theorem parseHTTP_below {s : Bytes} {u : URL} (h : parseHTTP s = some u) (t : Bytes) :
    ∃ v, parseHTTP (s ++ slash :: t) = some v ∧ v.host = u.host := by
  rw [parseHTTP] at h
  split at h
  · next hprefix =>
    obtain ⟨rest, rfl⟩ := List.isPrefixOf_iff_prefix.mp hprefix
    obtain rfl := Option.some.inj h
    have hprefix' : (ascii "http://").isPrefixOf (ascii "http://" ++ rest ++ slash :: t) = true :=
      List.isPrefixOf_iff_prefix.mpr ⟨rest ++ slash :: t, (List.append_assoc _ _ _).symm⟩
    refine ⟨_, by rw [parseHTTP, if_pos hprefix'], ?_⟩
    change (rest ++ slash :: t).takeWhile (· ≠ slash) = rest.takeWhile (· ≠ slash)
    by_cases hslash : slash ∈ rest
    · obtain ⟨before, after, rfl⟩ := List.append_of_mem hslash
      rw [List.append_assoc, List.cons_append]
      simp [List.takeWhile_append]
    · rw [Catchup.takeWhile_eq_self hslash]
      exact congrArg Prod.fst (Values.cut_append hslash)
  · cases h

theorem samplePipeline_documented : samplePipeline.Documented where
  decode_of_unmarshals body h := by
    obtain ⟨s, hs⟩ := Option.isSome_iff_exists.mp h
    refine ⟨oneString s, ?_, rfl⟩
    change (stringOf body).map oneString = _
    exact congrArg (Option.map oneString) hs
  decode_untrimmed _ _ hbody := .inr hbody.1
  decode_marshal body v w hbody h := by
    obtain ⟨s, -, rfl⟩ := Option.map_eq_some_iff.mp hbody.1
    cases h with
    | object h =>
      cases h with
      | cons h hrest =>
        cases hrest
        cases h with
        | @string _ _ t _ =>
          refine ⟨?_, rfl⟩
          change (stringOf (jsonText t)).map oneString = some (oneString t)
          rw [stringOf_jsonText]
          rfl
  equalFold_refl s := decide_eq_true rfl
  valid_nil := rfl
  valid_append _ _ _ _ := rfl
  parse_below s u t hu _ _ _ _ := parseHTTP_below hu t
  parse_urlString s loc u q f hloc _ hscheme hhost := by
    obtain ⟨hhttp, hslash⟩ := parseHTTP_eq_some hloc
    refine ⟨rfl, ?_⟩
    change ∃ v, parseHTTP (u.scheme ++ ascii "://" ++ u.host ++ slash :: _) = some v ∧ _
    rw [hscheme, hhost, hhttp]
    refine ⟨_, by rw [parseHTTP, if_pos (by rfl)], ?_⟩
    exact congrArg Prod.fst (Values.cut_append hslash)

/-- The address of the proxy, as a URL. -/
def sampleProxyURL : URL := ⟨ascii "http", ascii "proxy", [], []⟩

theorem sample_address :
    ProxyAddress samplePipeline (sampleProvider []) (ascii "http://proxy") sampleProxyURL where
  parsed := by decide
  host := by decide
  base := ⟨⟨ascii "http", ascii "proxy", ascii "/tv", []⟩, by decide, rfl⟩
  trimmed := ⟨⟨ascii "http", ascii "proxy", ascii "/tv", []⟩, by decide, rfl⟩
  plain := by decide
  valid := rfl

/-- A stream on another host. -/
def streamText : Bytes := jsonText (ascii "http://cdn/a.mp4")

theorem pipeline_keeps_stream :
    ∃ v w, samplePipeline.decode (samplePipeline.trimSpace streamText) = some v ∧
      samplePipeline.decode (samplePipeline.trimSpace (canonicalJSON samplePipeline
        (sampleProvider []) (ascii "http://proxy") ⟨true, fun _ => true⟩ sampleStore streamText)) =
          some w ∧
      Related (Changed samplePipeline (ascii "http://proxy")) none v w ∧
      jsonItemCount samplePipeline (ascii "player_api.php") streamText =
        jsonItemCount samplePipeline (ascii "player_api.php") (canonicalJSON samplePipeline
          (sampleProvider []) (ascii "http://proxy") ⟨true, fun _ => true⟩ sampleStore
          streamText) :=
  pipeline_keeps_document samplePipeline_documented sample_address sampleStore
    ⟨true, fun _ => true⟩ (.inl rfl) rfl

end IptvProxy.Metadata
