import IptvProxy.Catchup.Text
import IptvProxy.Lib.Base64

/-!
# Tokens for opaque URLs

`storeMediaTarget` and `storeHLSTarget` put the text of a URL under a token, and `serveMediaToken`
and `serveHLSToken` parse it again (`internal/proxy/media_token.go`, `internal/proxy/hls.go`). A
URL has no user information and no fragment here; of a text that has one, nothing is parsed.

`parseURL_text` is the round trip: whatever URL is printed, the URL that is parsed from the text has
its scheme, host, escaped path and query.
-/

namespace IptvProxy.Media

open Xtream Catchup

/-- `:` -/
def colon : Byte := 58
/-- `#` -/
def number : Byte := 35
/-- `@` -/
def atSign : Byte := 64

/-! ## Printing -/

/-- How `URL.String` writes a host. -/
def hostMode : Percent.Mode where
  keep c := Values.unreserved c || c ∈ ascii "!$&'()*+,;=:[]<>\""
  plusForSpace := false
  percent_escaped := by decide
  plus_escaped h := by cases h

/-- `URL.String`, where a host may have any bytes. -/
def text (u : TargetURL) : Bytes :=
  (u.scheme ++ ascii "://" ++ Percent.escape hostMode u.host) ++ (u.lead ++ u.escapedPath ++
    if u.forceQuery = true ∨ u.rawQuery ≠ [] then questionMark :: u.rawQuery else [])

/-! ## Parsing -/

/-- `stringContainsCTLByte` -/
def isControl (c : Byte) : Bool := c.val < 32 || c.val = 127

/-- `validOptionalPort` -/
def validOptionalPort : Bytes → Bool
  | [] => true
  | c :: s => c = colon && s.all fun c => 48 ≤ c.val && c.val ≤ 57

/-- What `unescape` lets through in a host; in a zone, `zone` are the bytes that may be escaped. -/
def hostBytes (zone : Bool) : Bytes → Bool
  | [] => true
  | c :: s =>
    if c = Percent.percent then
      match s with
      | d :: e :: rest =>
        match Percent.unhex d, Percent.unhex e with
        | some hi, some lo =>
          let v := Fin.ofNat 256 (16 * hi + lo)
          (v = Percent.percent ||
            if zone then v = Percent.space || hostMode.keep v else 128 ≤ v.val) &&
              hostBytes zone rest
        | _, _ => false
      | _ => false
    else (128 ≤ c.val || hostMode.keep c) && hostBytes zone s

/-- The last place of a byte, and what comes before it. -/
def cutLast (c : Byte) (s : Bytes) : Option (Bytes × Bytes) :=
  if c ∈ s then
    let after := s.reverse.takeWhile (· ≠ c)
    some (s.take (s.length - after.length - 1), s.drop (s.length - after.length - 1))
  else none

/-- Where a zone starts. -/
def cutZone (s : Bytes) : Bytes × Bytes :=
  match s.tails.find? fun t => (ascii "%25").isPrefixOf t with
  | some zone => (s.take (s.length - zone.length), zone)
  | none => (s, [])

/-- The hosts that `parseHost` lets through. -/
def acceptsHost (host : Bytes) : Bool :=
  if host.head? = some 91 then
    match cutLast 93 host with
    | none => false
    | some (before, after) =>
      let (address, zone) := cutZone before
      validOptionalPort (after.drop 1) && hostBytes false address && hostBytes true zone &&
        hostBytes false after
  else
    (match cutLast colon host with
      | none => true
      | some (_, port) => validOptionalPort port) && hostBytes false host

/-- `parseHost` -/
def parseHost (host : Bytes) : Option Bytes :=
  if acceptsHost host then Percent.unescape false host else none

/-- The letters of a scheme. -/
def isSchemeByte (c : Byte) : Bool :=
  (97 ≤ (lower c).val && (lower c).val ≤ 122) || (48 ≤ c.val && c.val ≤ 57) || c ∈ ascii "+-."

/-- `getScheme`, in lower case -/
def getScheme (s : Bytes) : Option (Bytes × Bytes) :=
  let (scheme, rest) := Values.cut colon s
  match scheme with
  | [] => none
  | c :: letters =>
    if 97 ≤ (lower c).val ∧ (lower c).val ≤ 122 ∧ letters.all isSchemeByte = true then
      some ((c :: letters).map lower, rest)
    else none

/-- `setPath` -/
def setPath (u : TargetURL) (p : Bytes) : Option TargetURL :=
  (Percent.unescape false p).map fun path =>
    { u with path := path, rawPath := if Percent.escape pathMode path = p then [] else p }

/-- The part of `parse` after the query has been cut off. -/
def parseAuthority (scheme hier query : Bytes) (force : Bool) : Option TargetURL :=
  if (ascii "//").isPrefixOf hier = false then none
  else
    let authority := (hier.drop 2).takeWhile (· ≠ slash)
    if atSign ∈ authority then none
    else
      match parseHost authority with
      | none => none
      | some host =>
        if h : scheme ≠ [] ∧ host ≠ [] then
          setPath ⟨⟨scheme, host, [], query⟩, [], force, h.1, h.2⟩
            ((hier.drop 2).dropWhile (· ≠ slash))
        else none

/-- `url.Parse` of an absolute URL. -/
def parseURL (s : Bytes) : Option TargetURL :=
  if s.any isControl = true ∨ number ∈ s then none
  else
    match getScheme s with
    | none => none
    | some (scheme, rest) =>
      let (hier, query) := Values.cut questionMark rest
      parseAuthority scheme hier query (questionMark ∈ rest && query = [])

/-! ## Resolving -/

/-- A segment of the path in `resolvePath`: what has been written, and whether it is the first. -/
def resolveStep (state : Bytes × Bool) (elem : Bytes) : Bytes × Bool :=
  if elem = ascii "." then (state.1, false)
  else if elem = ascii ".." then
    match cutLast slash (state.1.drop 1) with
    | none => ([slash], true)
    | some (before, _) => (slash :: before, state.2)
  else ((if state.2 then state.1 else state.1 ++ [slash]) ++ elem, false)

/-- `resolvePath(full, "")` -/
def resolvePath (full : Bytes) : Bytes :=
  if full = [] then []
  else
    let written := ((splitSlash full).foldl resolveStep ([slash], true)).1
    let last := (splitSlash full).getLast?
    let r := if last = some (ascii ".") ∨ last = some (ascii "..") then written ++ [slash]
      else written
    if [slash, slash].isPrefixOf r then r.drop 1 else r

/-- `URL.ResolveReference` of an absolute URL, which does not look at the base. -/
def resolveReference (ref : TargetURL) : Option TargetURL :=
  setPath ref (resolvePath ref.escapedPath)

/-! ## What is stored -/

/-- `mediaTarget` and `hlsTarget`. Their JSON carries both texts as they are. -/
structure Target where
  /-- `ProviderID` -/
  providerID : Bytes
  /-- `URL` -/
  url : Bytes
  deriving DecidableEq

/-- `http` or `https` -/
def isWeb (scheme : Bytes) : Bool := scheme = ascii "http" || scheme = ascii "https"

/-- `deterministicMediaToken` -/
def deterministicMediaToken (sum256 : Bytes → Bytes) (providerID raw : Bytes) : Bytes :=
  ascii (String.ofList (Base64.encode ((sum256 (providerID ++ 0 :: raw)).take 18)))

/-- `mediaTokenKey` -/
def mediaTokenKey (token : Bytes) : Bytes := ascii "media:" ++ token

/-- The key of a playlist's child. -/
def hlsTokenKey (token : Bytes) : Bytes := ascii "hls:" ++ token

/-- `storeMediaTarget`: the token, and what is stored for it -/
def storeMediaTarget (sum256 : Bytes → Bytes) (providerID : Bytes) (target : TargetURL) :
    Option (Bytes × Target) :=
  if isWeb target.scheme = false then none
  else some (deterministicMediaToken sum256 providerID (text target), ⟨providerID, text target⟩)

/-- `storeHLSTarget` of an absolute URL: what is stored for the random token -/
def storeHLSTarget (providerID raw : Bytes) : Option Target :=
  match (parseURL raw).bind resolveReference with
  | none => none
  | some target => if isWeb target.scheme = false then none else some ⟨providerID, text target⟩

/-! ## The round trip -/

/-- The bytes of a query. -/
def isQueryByte (c : Byte) : Bool := 33 ≤ c.val && c.val ≤ 126 && c ≠ number

/-- A syntactically valid absolute URL of the web, without dot segments. -/
structure Valid (u : TargetURL) : Prop where
  /-- its scheme -/
  web : isWeb u.scheme = true
  /-- its host is read back -/
  host : acceptsHost (Percent.escape hostMode u.host) = true
  /-- its path starts with a slash, if there is one -/
  rooted : u.escapedPath ≠ [] → u.escapedPath.head? = some slash
  /-- no dot segments -/
  plain : ∀ s ∈ splitSlash u.escapedPath, s ≠ ascii "." ∧ s ≠ ascii ".."
  /-- its query -/
  query : ∀ c ∈ u.rawQuery, isQueryByte c = true

/-- The same scheme, host, escaped path and query. -/
structure Exact (u v : TargetURL) : Prop where
  /-- the scheme -/
  scheme : v.scheme = u.scheme
  /-- the host -/
  host : v.host = u.host
  /-- the escaped path -/
  escapedPath : v.escapedPath = u.escapedPath
  /-- the query -/
  rawQuery : v.rawQuery = u.rawQuery

variable {u v w : TargetURL}

theorem Exact.refl (u : TargetURL) : Exact u u := ⟨rfl, rfl, rfl, rfl⟩

theorem Exact.trans (h : Exact u v) (h' : Exact v w) : Exact u w where
  scheme := h'.scheme.trans h.scheme
  host := h'.host.trans h.host
  escapedPath := h'.escapedPath.trans h.escapedPath
  rawQuery := h'.rawQuery.trans h.rawQuery

theorem Exact.valid (h : Exact u v) (hu : Valid u) : Valid v where
  web := by rw [h.scheme]; exact hu.web
  host := by rw [h.host]; exact hu.host
  rooted := by rw [h.escapedPath]; exact hu.rooted
  plain := by rw [h.escapedPath]; exact hu.plain
  query := by rw [h.rawQuery]; exact hu.query

theorem Exact.path (h : Exact u v) : v.path = u.path := by
  have hu := u.unescape_escapedPath
  rw [← h.escapedPath, v.unescape_escapedPath] at hu
  exact Option.some.inj hu

theorem Exact.segments (h : Exact u v) : v.segments = u.segments := by
  rw [TargetURL.segments, TargetURL.segments, h.path]

theorem escapedPath_of_raw (h : u.rawPath ≠ [] ∧ validEncoded u.rawPath = true ∧
    Percent.unescape false u.rawPath = some u.path) : u.escapedPath = u.rawPath := if_pos h

theorem escapedPath_of_path (hraw : u.rawPath = []) (hstar : u.path ≠ ascii "*") :
    u.escapedPath = Percent.escape pathMode u.path := by
  rw [TargetURL.escapedPath, if_neg fun h => h.1 hraw, if_neg hstar]

/-- To set the path that is printed changes nothing. -/
theorem exact_setPath (hv : v.scheme = u.scheme ∧ v.host = u.host ∧ v.rawQuery = u.rawQuery)
    (hu : u.escapedPath ≠ [] → u.escapedPath.head? = some slash) :
    ∃ w, setPath v u.escapedPath = some w ∧ Exact u w := by
  have hpath := u.unescape_escapedPath
  set w : TargetURL := { v with
    path := u.path
    rawPath := if Percent.escape pathMode u.path = u.escapedPath then [] else u.escapedPath }
    with hw
  have hset : setPath v u.escapedPath = some w := by
    rw [setPath, hpath]
    rfl
  refine ⟨w, hset, hv.1, hv.2.1, ?_, hv.2.2⟩
  have hnostar : u.escapedPath ≠ ascii "*" := by
    intro hstar
    have hhead := hu (by rw [hstar]; decide)
    rw [hstar] at hhead
    exact absurd hhead (by decide)
  by_cases hescape : Percent.escape pathMode u.path = u.escapedPath
  · have hstar : u.path ≠ ascii "*" := by
      intro hstar
      rw [hstar] at hescape
      have hhead := hu (by rw [← hescape]; decide)
      rw [← hescape] at hhead
      exact absurd hhead (by decide)
    rw [escapedPath_of_path (u := w) (if_pos hescape) hstar]
    exact hescape
  · -- the text comes from the raw path
    have hraw : u.rawPath ≠ [] ∧ validEncoded u.rawPath = true ∧
        Percent.unescape false u.rawPath = some u.path := by
      by_contra hnot
      rw [TargetURL.escapedPath, if_neg hnot] at hescape hnostar
      split at hescape
      · next hstar => exact hnostar (if_pos hstar)
      · exact hescape rfl
    have hprinted := escapedPath_of_raw hraw
    have hwraw : w.rawPath = u.rawPath := (if_neg hescape).trans hprinted
    rw [hprinted, ← hwraw]
    apply escapedPath_of_raw
    rw [hwraw]
    exact hraw

/-- The bytes of a printed host. -/
theorem of_mem_host {P : Byte → Prop} (hkeep : ∀ c, hostMode.keep c = true → P c)
    (hpercent : P Percent.percent) (hdigit : ∀ n < 16, P (Percent.hexDigit n)) (host : Bytes) :
    ∀ c ∈ Percent.escape hostMode host, P c := by
  intro c hc
  refine Percent.escape_forall hkeep ?_ hpercent hdigit host c hc
  exact hkeep _ (by decide)

/-- The bytes of a printed path. -/
theorem of_mem_escapedPath {P : Byte → Prop}
    (hkeep : ∀ c, pathMode.keep c = true ∨ c ∈ ascii "!'()*[]%" → P c)
    (hdigit : ∀ n < 16, P (Percent.hexDigit n)) (u : TargetURL) : ∀ c ∈ u.escapedPath, P c := by
  rw [TargetURL.escapedPath]
  split
  · next h =>
    intro c hc
    have hvalid := List.all_eq_true.mp h.2.1 c hc
    rw [Bool.or_eq_true, List.contains_iff_mem] at hvalid
    exact hkeep c hvalid
  · split
    · intro c hc
      refine hkeep c (.inr ?_)
      obtain rfl := List.mem_singleton.mp hc
      decide
    · exact Percent.escape_forall (fun c hc => hkeep c (.inl hc)) (hkeep _ (.inl (by decide)))
        (hkeep _ (.inr (by decide))) hdigit u.path

/-! Letters and digits are in no class of other bytes. -/

theorem ne_of_unreserved {c d : Byte} (h : Values.unreserved c = true)
    (hd : Values.unreserved d = false) : c ≠ d := by
  rintro rfl
  rw [h] at hd
  cases hd

theorem isQueryByte_of_unreserved {c : Byte} (h : Values.unreserved c = true) :
    isQueryByte c = true := by
  have hnumber : c ≠ number := ne_of_unreserved h (by decide)
  simp only [Values.unreserved, Bool.or_eq_true, Bool.and_eq_true, decide_eq_true_eq] at h
  simp only [isQueryByte, Bool.and_eq_true, decide_eq_true_eq]
  exact ⟨by omega, hnumber⟩

theorem forall_hostMode {P : Byte → Prop} (hunreserved : ∀ c, Values.unreserved c = true → P c)
    (hmarks : (ascii "!$&'()*+,;=:[]<>\"").Forall P) : ∀ c, hostMode.keep c = true → P c := by
  intro c hc
  rcases Bool.or_eq_true_iff.mp hc with hc | hc
  · exact hunreserved c hc
  · exact List.forall_iff_forall_mem.mp hmarks c (of_decide_eq_true hc)

theorem forall_pathMode {P : Byte → Prop} (hunreserved : ∀ c, Values.unreserved c = true → P c)
    (hmarks : (ascii "$&+,/:;=@" ++ ascii "!'()*[]%").Forall P) :
    ∀ c, pathMode.keep c = true ∨ c ∈ ascii "!'()*[]%" → P c := by
  have hall := List.forall_iff_forall_mem.mp hmarks
  rintro c (hc | hc)
  · rcases Bool.or_eq_true_iff.mp hc with hc | hc
    · exact hunreserved c hc
    · exact hall c (List.mem_append_left _ (of_decide_eq_true hc))
  · exact hall c (List.mem_append_right _ hc)

theorem clean_scheme {scheme : Bytes} (h : isWeb scheme = true) :
    ∀ c ∈ scheme, isControl c = false ∧ c ≠ number := by
  rw [isWeb, Bool.or_eq_true, decide_eq_true_eq, decide_eq_true_eq] at h
  rw [← List.forall_iff_forall_mem]
  rcases h with rfl | rfl
  · decide
  · decide

theorem clean_queryByte {c : Byte} (h : isQueryByte c = true) :
    isControl c = false ∧ c ≠ number := by
  simp only [isQueryByte, Bool.and_eq_true, decide_eq_true_eq] at h
  refine ⟨?_, h.2⟩
  rw [isControl, Bool.or_eq_false_iff, decide_eq_false_iff_not, decide_eq_false_iff_not]
  omega

/-- No byte of a printed URL is a control character, and none starts a fragment. -/
theorem text_clean (hu : Valid u) : ∀ c ∈ text u, isControl c = false ∧ c ≠ number := by
  have hunreserved : ∀ c, Values.unreserved c = true → isControl c = false ∧ c ≠ number :=
    fun c hc => clean_queryByte (isQueryByte_of_unreserved hc)
  have hpath := of_mem_escapedPath (P := fun c => isControl c = false ∧ c ≠ number)
    (forall_pathMode hunreserved (by decide)) (by decide) u
  have hhost := of_mem_host (P := fun c => isControl c = false ∧ c ≠ number)
    (forall_hostMode hunreserved (by decide)) (by decide) (by decide) u.host
  intro c hc
  simp only [text, List.mem_append] at hc
  rcases hc with ((hc | hc) | hc) | (hc | hc) | hc
  · exact clean_scheme hu.web c hc
  · have hmarks : (ascii "://").Forall fun c => isControl c = false ∧ c ≠ number := by decide
    exact List.forall_iff_forall_mem.mp hmarks c hc
  · exact hhost c hc
  · rw [TargetURL.lead] at hc
    split at hc
    · obtain rfl := List.mem_singleton.mp hc
      decide
    · cases hc
  · exact hpath c hc
  · split at hc
    · rcases List.mem_cons.mp hc with rfl | hc
      · decide
      · exact clean_queryByte (hu.query c hc)
    · cases hc

theorem getScheme_web {scheme rest : Bytes} (h : isWeb scheme = true) :
    getScheme (scheme ++ colon :: rest) = some (scheme, rest) := by
  rw [isWeb, Bool.or_eq_true, decide_eq_true_eq, decide_eq_true_eq] at h
  rcases h with rfl | rfl
  · rw [getScheme, Values.cut_append (by decide)]
    rfl
  · rw [getScheme, Values.cut_append (by decide)]
    rfl

/-- The query is cut off where it starts. -/
theorem cut_query {front query : Bytes} {b : Bool} (h : questionMark ∉ front)
    (hb : b = false → query = []) :
    Values.cut questionMark (front ++ if b = true then questionMark :: query else []) =
      (front, query) := by
  cases b with
  | true => exact Values.cut_append h
  | false =>
    rw [hb rfl, if_neg (by decide), List.append_nil, Values.cut, takeWhile_eq_self h,
      List.dropWhile_eq_nil_iff.mpr]
    · rfl
    · exact fun c hc => decide_eq_true fun heq => h (heq ▸ hc)

/-- **The round trip**: a printed URL is parsed into a URL that is printed in the same way. -/
theorem parseURL_text (hu : Valid u) : ∃ v, parseURL (text u) = some v ∧ Exact u v := by
  have hlead : u.lead = [] := by
    rw [TargetURL.lead, if_neg]
    exact fun h => h.2 (hu.rooted h.1)
  have hslash := of_mem_host (P := fun c => c ≠ slash ∧ c ≠ atSign ∧ c ≠ questionMark)
    (forall_hostMode (fun c hc => ⟨ne_of_unreserved hc (by decide),
      ne_of_unreserved hc (by decide), ne_of_unreserved hc (by decide)⟩) (by decide))
    (by decide) (by decide) u.host
  set front := ascii "//" ++ Percent.escape hostMode u.host ++ u.escapedPath with hfront
  set force : Bool := decide (u.forceQuery = true ∨ u.rawQuery ≠ []) with hforce
  have htext : text u = u.scheme ++ colon :: (front ++
      if force = true then questionMark :: u.rawQuery else []) := by
    rw [text, hlead, hforce, hfront]
    simp only [decide_eq_true_eq, List.append_assoc, List.nil_append]
    rfl
  have hquestion : questionMark ∉ front := by
    rw [hfront, List.mem_append, List.mem_append, not_or, not_or]
    exact ⟨⟨by decide, fun h => (hslash _ h).2.2 rfl⟩, u.questionMark_not_mem⟩
  have hcut : Values.cut questionMark (front ++
      if force = true then questionMark :: u.rawQuery else []) = (front, u.rawQuery) := by
    apply cut_query hquestion
    intro h
    rw [hforce, decide_eq_false_iff_not, not_or, not_not] at h
    exact h.2
  -- the authority ends where the path starts
  have hpath : ∀ c ∈ u.escapedPath.head?, decide (c ≠ slash) = false := by
    intro c hc
    have hne : u.escapedPath ≠ [] := by
      intro hnil
      rw [hnil] at hc
      cases hc
    rw [hu.rooted hne] at hc
    obtain rfl := Option.some.inj hc
    rfl
  have hall : ∀ c ∈ Percent.escape hostMode u.host, decide (c ≠ slash) = true :=
    fun c hc => decide_eq_true (hslash c hc).1
  have htake : (front.drop 2).takeWhile (· ≠ slash) = Percent.escape hostMode u.host := by
    change (Percent.escape hostMode u.host ++ u.escapedPath).takeWhile (· ≠ slash) = _
    rw [List.takeWhile_append_of_pos hall]
    cases hp : u.escapedPath with
    | nil => exact List.append_nil _
    | cons c p =>
      rw [List.takeWhile_cons_of_neg, List.append_nil]
      rw [hpath c (by rw [hp]; rfl)]
      decide
  have hdrop : (front.drop 2).dropWhile (· ≠ slash) = u.escapedPath := by
    change (Percent.escape hostMode u.host ++ u.escapedPath).dropWhile (· ≠ slash) = _
    rw [List.dropWhile_append_of_pos hall]
    cases hp : u.escapedPath with
    | nil => rfl
    | cons c p =>
      rw [List.dropWhile_cons_of_neg]
      rw [hpath c (by rw [hp]; rfl)]
      decide
  have hhost : parseHost (Percent.escape hostMode u.host) = some u.host := by
    rw [parseHost, if_pos hu.host]
    exact Percent.unescape_escape (m := hostMode) u.host
  obtain ⟨v, hv, hexact⟩ := exact_setPath (u := u)
    (v := ⟨⟨u.scheme, u.host, [], u.rawQuery⟩, [],
      questionMark ∈ (front ++ if force = true then questionMark :: u.rawQuery else []) &&
        u.rawQuery = [], u.hasScheme, u.hasHost⟩) ⟨rfl, rfl, rfl⟩ hu.rooted
  refine ⟨v, ?_, hexact⟩
  have hclean : ¬((text u).any isControl = true ∨ number ∈ text u) := by
    rw [not_or, List.any_eq_true]
    constructor
    · rintro ⟨c, hc, hcontrol⟩
      rw [(text_clean hu c hc).1] at hcontrol
      cases hcontrol
    · exact fun h => (text_clean hu _ h).2 rfl
  rw [parseURL, if_neg hclean, htext, getScheme_web hu.web]
  simp only [hcut]
  rw [parseAuthority, if_neg (by rw [hfront]; simp [ascii]), htake, hdrop,
    if_neg fun h => (hslash _ h).2.1 rfl, hhost]
  simp only
  rw [dif_pos ⟨u.hasScheme, u.hasHost⟩]
  exact hv

/-- Nothing is resolved in a path without dot segments. -/
theorem resolvePath_of_plain {p : Bytes} (hrooted : p ≠ [] → p.head? = some slash)
    (hplain : ∀ s ∈ splitSlash p, s ≠ ascii "." ∧ s ≠ ascii "..") : resolvePath p = p := by
  have hfold : ∀ (elems : List Bytes) (written : Bytes),
      (∀ s ∈ elems, s ≠ ascii "." ∧ s ≠ ascii "..") →
      (elems.foldl resolveStep (written, false)).1 =
        written ++ (elems.map (slash :: ·)).flatten := by
    intro elems
    induction elems with
    | nil => intro written _; simp
    | cons e elems ih =>
      intro written h
      obtain ⟨hdot, hdots⟩ := h e List.mem_cons_self
      rw [List.foldl_cons, resolveStep, if_neg hdot, if_neg hdots]
      simp only [Bool.false_eq_true, if_false]
      rw [ih _ fun s hs => h s (List.mem_cons_of_mem _ hs)]
      simp
  rw [resolvePath]
  split
  · next h => exact h.symm
  · next hne =>
    obtain ⟨t, rfl⟩ := List.head?_eq_some_iff.mp (hrooted hne)
    have hsplit : splitSlash (slash :: t) = [] :: splitSlash t := by
      rw [splitSlash, List.splitOn_cons_eq_if_modifyHead, if_pos (by simp)]
      rfl
    have hjoin : ∀ elems : List Bytes, elems ≠ [] →
        (elems.map (slash :: ·)).flatten = slash :: joinSlash elems := by
      intro elems
      induction elems with
      | nil => exact fun h => absurd rfl h
      | cons e elems ih =>
        intro _
        rcases elems with _ | ⟨e', elems⟩
        · simp [joinSlash]
        · rw [List.map_cons, List.flatten_cons, ih (by simp)]
          simp [joinSlash, List.intercalate_cons_cons]
    have hwritten : ((splitSlash (slash :: t)).foldl resolveStep ([slash], true)).1 =
        slash :: slash :: t := by
      rw [hsplit, List.foldl_cons, resolveStep, if_neg (by decide), if_neg (by decide)]
      simp only [if_true, List.append_nil]
      rw [hfold _ _ fun s hs => hplain s (by rw [hsplit]; exact List.mem_cons_of_mem _ hs),
        hjoin (splitSlash t) (List.splitOn_ne_nil _ _), joinSlash, splitSlash,
        List.intercalate_splitOn]
      rfl
    have hlast : ¬((splitSlash (slash :: t)).getLast? = some (ascii ".") ∨
        (splitSlash (slash :: t)).getLast? = some (ascii "..")) := by
      rintro (h | h)
      · exact (hplain _ (List.mem_of_getLast? h)).1 rfl
      · exact (hplain _ (List.mem_of_getLast? h)).2 rfl
    simp only [hwritten, if_neg hlast]
    rfl

/-- **What is stored for a URL**: a text that is parsed into a URL that is printed in the same
way, for both kinds of tokens. -/
theorem parseURL_of_media (sum256 : Bytes → Bytes) (providerID : Bytes) {token : Bytes}
    {target : Target} (hu : Valid u) (h : storeMediaTarget sum256 providerID u = some (token, target)) :
    target.providerID = providerID ∧ ∃ v, parseURL target.url = some v ∧ Exact u v := by
  rw [storeMediaTarget, if_neg (by rw [hu.web]; decide)] at h
  obtain ⟨-, rfl⟩ := Prod.mk.inj (Option.some.inj h)
  exact ⟨rfl, parseURL_text hu⟩

theorem parseURL_of_hls {providerID raw : Bytes} {target : Target} (hu : Valid u)
    (hraw : parseURL raw = some u) (h : storeHLSTarget providerID raw = some target) :
    target.providerID = providerID ∧ ∃ v, parseURL target.url = some v ∧ Exact u v := by
  obtain ⟨w, hw, hexact⟩ := exact_setPath (v := u) ⟨rfl, rfl, rfl⟩ hu.rooted
  have hresolved : (parseURL raw).bind resolveReference = some w := by
    rw [hraw, Option.bind_some, resolveReference, resolvePath_of_plain hu.rooted hu.plain, hw]
  have hweb : isWeb w.scheme = true := by
    rw [hexact.scheme]
    exact hu.web
  simp only [storeHLSTarget, hresolved, hweb, Bool.true_eq_false, if_false] at h
  obtain rfl := Option.some.inj h
  obtain ⟨v, hv, hv'⟩ := parseURL_text (hexact.valid hu)
  exact ⟨rfl, v, hv, hexact.trans hv'⟩

end IptvProxy.Media
