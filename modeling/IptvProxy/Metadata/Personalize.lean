import IptvProxy.Lib.Rfc3986
import IptvProxy.Lib.Substitution
import IptvProxy.Metadata.Pipeline
import IptvProxy.Xtream.Emitted

/-!
# Cached links for a client

A cached document holds links with markers in the place of the credentials
(`canonicalCacheCredentials`), and `personalizeCanonicalCache` of `internal/proxy/cache_template.go`
puts the credentials of a client in, by replacing bytes. A document that is not cached is rewritten
with the credentials of the client at once. Both links send the same request
(`cached_link_requests_the_same`).

The markers consist of bytes that are never escaped, and what stands around them in a link cannot be
a part of one. So a link is personalized piece by piece: a piece is a marker, or it has none.
-/

namespace IptvProxy.Metadata

open Xtream Substitution

/-! ## The template -/

/-- `cacheTemplateContentTypePrefix` -/
def cacheTemplateContentTypePrefix : Bytes := ascii "x-iptv-cache-template-v1|"

/-- `markCanonicalCacheContentType` -/
def markCanonicalCacheContentType (contentType : Bytes) : Bytes :=
  cacheTemplateContentTypePrefix ++ contentType

/-- `canonicalCacheContentType` -/
def canonicalCacheContentType (contentType : Bytes) : Bytes × Bool :=
  if cacheTemplateContentTypePrefix.isPrefixOf contentType = false then (contentType, false)
  else (contentType.drop cacheTemplateContentTypePrefix.length, true)

/-- `url.PathEscape` -/
def segmentMode : Percent.Mode where
  keep c := Values.unreserved c || c ∈ ascii "$&+:=@"
  plusForSpace := false
  percent_escaped := by decide
  plus_escaped h := nomatch h

/-- `cachePathUserPlaceholder` -/
def pathUser : Bytes := canonicalCacheCredentials.pathUsername
/-- `cachePathPassPlaceholder` -/
def pathPass : Bytes := canonicalCacheCredentials.pathPassword
/-- `cacheQueryUserPlaceholder` -/
def queryUser : Bytes := canonicalCacheCredentials.queryUsername
/-- `cacheQueryPassPlaceholder` -/
def queryPass : Bytes := canonicalCacheCredentials.queryPassword

/-- `replacements` -/
def replacements (user : User) : List (Bytes × Bytes) :=
  [(pathUser, Percent.escape segmentMode user.username),
    (pathPass, Percent.escape segmentMode user.clientPassword),
    (queryUser, Percent.escape Values.queryMode user.username),
    (queryPass, Percent.escape Values.queryMode user.clientPassword)]

/-- `personalizeCanonicalCache` -/
def personalizeCanonicalCache (body : Bytes) (user : User) : Bytes :=
  if body = [] ∨ user.username = [] ∨ user.clientPassword = [] then body
  else personalize (replacements user) body

/-! ## Markers -/

/-- The four markers. -/
def markers : List Bytes := [pathUser, pathPass, queryUser, queryPass]

/-- No marker occurs in the text. -/
def Unmarked (s : Bytes) : Prop := ∀ m ∈ markers, ¬m <:+: s

instance (s : Bytes) : Decidable (Unmarked s) := inferInstanceAs (Decidable (∀ m ∈ markers, ¬_))

/-- A byte of a marker: a capital letter, an underscore or the digit 1. -/
def isMarkerByte (c : Byte) : Bool := (65 ≤ c.val && c.val ≤ 90) || c.val = 95 || c.val = 49

/-- What the markers are. -/
theorem marker_spec : ∀ m ∈ markers, m.head? = some 95 ∧ ∀ c ∈ m, isMarkerByte c = true := by
  decide +kernel

/-- No marker is in another one. -/
theorem markers_apart : ∀ m ∈ markers, ∀ m' ∈ markers, m' <:+: m → m' = m := by decide +kernel

variable {user : User} {s a b : Bytes} {c d : Byte} {mode : Percent.Mode}

theorem Unmarked.within (h : Unmarked s) (ha : a <:+: s) : Unmarked a :=
  fun m hm hin => h m hm (hin.trans ha)

theorem replacements_fst (user : User) : (replacements user).map Prod.fst = markers := rfl

theorem mem_markers {r : Bytes × Bytes} (h : r ∈ replacements user) : r.1 ∈ markers := by
  rw [← replacements_fst user]
  exact List.mem_map_of_mem h

theorem Unmarked.plain (user : User) (h : Unmarked s) {rs : List (Bytes × Bytes)}
    (hrs : ∀ r ∈ rs, r ∈ replacements user) : Plain rs s :=
  fun r hr => h r.1 (mem_markers (hrs r hr))

/-- A byte that is in no marker separates. -/
theorem separates (h : isMarkerByte d = false) : Separates (replacements user) d := by
  intro r hr
  obtain ⟨hhead, hbytes⟩ := marker_spec r.1 (mem_markers hr)
  refine ⟨fun hnil => ?_, fun hd => ?_⟩
  · rw [hnil] at hhead
    cases hhead
  · rw [hbytes d hd] at h
    cases h

/-! ### Markers and escapes -/

/-- How names and segments are escaped: the bytes of a marker stay. -/
def KeepsMarkers (mode : Percent.Mode) : Prop := ∀ c, isMarkerByte c = true → mode.keep c = true

theorem keepsMarkers_of_unreserved (h : ∀ c, Values.unreserved c = true → mode.keep c = true) :
    KeepsMarkers mode := by
  intro c hc
  refine h c ?_
  simp only [isMarkerByte, Bool.or_eq_true, Bool.and_eq_true, decide_eq_true_eq] at hc
  simp only [Values.unreserved, Bool.or_eq_true, Bool.and_eq_true, decide_eq_true_eq]
  omega

theorem keepsMarkers_path : KeepsMarkers pathMode :=
  keepsMarkers_of_unreserved fun c hc => by simp [pathMode, hc]

theorem keepsMarkers_query : KeepsMarkers Values.queryMode :=
  keepsMarkers_of_unreserved fun _ hc => hc

theorem escapeByte_of_keep (h : mode.keep c = true) (hc : c ≠ Percent.space) :
    Percent.escapeByte mode c = [c] := by
  rw [Percent.escapeByte, if_neg (by simp [hc]), if_pos h]

/-- An escaped byte is the byte itself, a plus, or an escape. -/
theorem escapeByte_cases (mode : Percent.Mode) (c : Byte) :
    Percent.escapeByte mode c = [c] ∨ Percent.escapeByte mode c = [Percent.plus] ∨
      ∃ m < 16, ∃ n < 16,
        Percent.escapeByte mode c = [Percent.percent, Percent.hexDigit m, Percent.hexDigit n] := by
  unfold Percent.escapeByte
  split
  · exact .inr (.inl rfl)
  · split
    · exact .inl rfl
    · have hlt := c.isLt
      exact .inr (.inr ⟨_, by omega, _, by omega, rfl⟩)

theorem isPrefix_of_escape {m : Bytes} (hm : ∀ c ∈ m, isMarkerByte c = true)
    (h : m <+: Percent.escape mode s) : m <+: s := by
  induction m generalizing s with
  | nil => exact List.nil_prefix
  | cons d m ih =>
    have hd := hm d List.mem_cons_self
    cases s with
    | nil => exact absurd (List.prefix_nil.mp h) (List.cons_ne_nil _ _)
    | cons c s =>
      rw [Percent.escape, List.flatMap_cons] at h
      obtain hc | hc | ⟨x, -, y, -, hc⟩ := escapeByte_cases mode c
      · rw [hc, List.singleton_append, List.cons_prefix_cons] at h
        obtain ⟨rfl, h⟩ := h
        exact List.cons_prefix_cons.mpr ⟨rfl, ih (fun e he => hm e (List.mem_cons_of_mem _ he)) h⟩
      · rw [hc, List.singleton_append, List.cons_prefix_cons] at h
        rw [h.1] at hd
        exact absurd hd (by decide)
      · rw [hc, List.cons_append, List.cons_prefix_cons] at h
        rw [h.1] at hd
        exact absurd hd (by decide)

/-- A marker in an escaped text is in the text. -/
theorem isInfix_of_escape {m : Bytes} (hm : m ∈ markers) (h : m <:+: Percent.escape mode s) :
    m <:+: s := by
  obtain ⟨hhead, hbytes⟩ := marker_spec m hm
  obtain ⟨rest, rfl⟩ : ∃ rest, m = 95 :: rest := by
    cases m with
    | nil => cases hhead
    | cons e rest => exact ⟨rest, by rw [Option.some.inj hhead]⟩
  have hdigit : ∀ n < 16, Percent.hexDigit n ≠ 95 := by decide
  induction s with
  | nil => exact absurd (List.infix_nil.mp h) (List.cons_ne_nil _ _)
  | cons c s ih =>
    rw [Percent.escape, List.flatMap_cons] at h
    have hskip : ∀ {d : Byte} {t : Bytes}, d ≠ 95 → 95 :: rest <:+: d :: t → 95 :: rest <:+: t := by
      intro d t hd hin
      rcases List.infix_cons_iff.mp hin with hpre | hin
      · exact absurd (List.cons_prefix_cons.mp hpre).1.symm hd
      · exact hin
    obtain hc | hc | ⟨x, hx, y, hy, hc⟩ := escapeByte_cases mode c
    · rw [hc, List.singleton_append] at h
      rcases List.infix_cons_iff.mp h with hpre | hin
      · obtain ⟨hd, htail⟩ := List.cons_prefix_cons.mp hpre
        have hrest : rest <+: s :=
          isPrefix_of_escape (fun e he => hbytes e (List.mem_cons_of_mem _ he)) htail
        exact (List.cons_prefix_cons.mpr ⟨hd, hrest⟩).isInfix
      · exact List.infix_cons (ih hin)
    · rw [hc, List.singleton_append] at h
      exact List.infix_cons (ih (hskip (by decide) h))
    · rw [hc] at h
      exact List.infix_cons (ih (hskip (hdigit y hy) (hskip (hdigit x hx) (hskip (by decide) h))))

theorem Unmarked.escape (h : Unmarked s) : Unmarked (Percent.escape mode s) :=
  fun m hm hin => h m hm (isInfix_of_escape hm hin)

/-- A marker is written as it is. -/
theorem escape_marker (hmode : KeepsMarkers mode) {m : Bytes} (hm : m ∈ markers) :
    Percent.escape mode m = m := by
  have hall := (marker_spec m hm).2
  clear hm
  induction m with
  | nil => rfl
  | cons c m ih =>
    have hc := hall c List.mem_cons_self
    have hspace : c ≠ Percent.space := by
      rintro rfl
      revert hc
      decide
    rw [Percent.escape, List.flatMap_cons, escapeByte_of_keep (hmode c hc) hspace]
    exact congrArg (c :: ·) (ih fun e he => hall e (List.mem_cons_of_mem _ he))

/-! ### Pieces -/

/-- Neither the name nor the password of the client holds a marker. -/
def CredentialsUnmarked (user : User) : Prop :=
  Unmarked user.username ∧ Unmarked user.clientPassword

theorem personalize_escape (h : Unmarked s) :
    personalize (replacements user) (Percent.escape mode s) = Percent.escape mode s :=
  personalize_of_plain (h.escape.plain user fun _ => id)

/-- A marker is replaced by the escaped credential. -/
theorem personalize_at {m v : Bytes} (huser : CredentialsUnmarked user)
    (h : (m, v) ∈ replacements user) : personalize (replacements user) m = v := by
  have hmarker : m ∈ markers := mem_markers h
  have hvalue : Unmarked v := by
    simp only [replacements, List.mem_cons, Prod.mk.injEq, List.not_mem_nil, or_false] at h
    rcases h with ⟨-, rfl⟩ | ⟨-, rfl⟩ | ⟨-, rfl⟩ | ⟨-, rfl⟩
    · exact huser.1.escape
    · exact huser.2.escape
    · exact huser.1.escape
    · exact huser.2.escape
  obtain ⟨before, after, hsplit⟩ := List.append_of_mem h
  have hnodup : ((replacements user).map Prod.fst).Nodup := by
    rw [replacements_fst]
    decide +kernel
  have hbefore : Plain before m := by
    intro r hr hin
    have hr' : r ∈ replacements user := by
      rw [hsplit]
      exact List.mem_append_left _ hr
    have hsame : r.1 = m := markers_apart m hmarker r.1 (mem_markers hr') hin
    rw [hsplit, List.map_append, List.nodup_append] at hnodup
    exact hnodup.2.2 r.1 (List.mem_map_of_mem hr) m (by simp) hsame
  rw [hsplit]
  refine personalize_marker ?_ hbefore (hvalue.plain user fun r hr => ?_)
  · rintro rfl
    cases (marker_spec [] hmarker).1
  · rw [hsplit]
    exact List.mem_append_right _ (List.mem_cons_of_mem _ hr)

/-- So is a marker that has been escaped. -/
theorem personalize_escape_marker (hmode : KeepsMarkers mode) {m v : Bytes}
    (huser : CredentialsUnmarked user) (h : (m, v) ∈ replacements user) :
    personalize (replacements user) (Percent.escape mode m) = v := by
  rw [escape_marker hmode (mem_markers h), personalize_at huser h]

theorem mem_pathUser (user : User) :
    (pathUser, Percent.escape segmentMode user.username) ∈ replacements user :=
  List.mem_cons_self

theorem mem_pathPass (user : User) :
    (pathPass, Percent.escape segmentMode user.clientPassword) ∈ replacements user :=
  List.mem_cons_of_mem _ List.mem_cons_self

theorem mem_queryUser (user : User) :
    (queryUser, Percent.escape Values.queryMode user.username) ∈ replacements user :=
  List.mem_cons_of_mem _ (List.mem_cons_of_mem _ List.mem_cons_self)

theorem mem_queryPass (user : User) :
    (queryPass, Percent.escape Values.queryMode user.clientPassword) ∈ replacements user :=
  List.mem_cons_of_mem _ (List.mem_cons_of_mem _ (List.mem_cons_of_mem _ List.mem_cons_self))

/-! ## Paths -/

/-- A text that is sent and what is read of it. -/
def Reads (text value : Bytes) : Prop :=
  Percent.unescape false text = some value ∧ questionMark ∉ text

theorem reads_escape (hmode : mode.plusForSpace = false) (hkeep : mode.keep questionMark = false)
    (s : Bytes) : Reads (Percent.escape mode s) s := by
  have hread := Percent.unescape_escape (m := mode) s
  rw [hmode] at hread
  refine ⟨hread, fun h => ?_⟩
  refine Percent.escape_forall (m := mode) (P := fun c => c ≠ questionMark) ?_ (by decide)
    (by decide) (by decide) s questionMark h rfl
  rintro c hc rfl
  rw [hkeep] at hc
  cases hc

theorem reads_path (s : Bytes) : Reads (Percent.escape pathMode s) s :=
  reads_escape rfl (by decide) s

theorem reads_segment (s : Bytes) : Reads (Percent.escape segmentMode s) s :=
  reads_escape rfl (by decide) s

theorem Reads.append_slash {text text' value value' : Bytes} (h : Reads text value)
    (h' : Reads text' value') : Reads (text ++ slash :: text') (value ++ slash :: value') := by
  refine ⟨?_, ?_⟩
  · rw [Rfc3986.unescape_append h.1, Percent.unescape_cons (by decide), h'.1]
    rfl
  · rw [List.mem_append, List.mem_cons, not_or, not_or]
    exact ⟨h.2, by decide, h'.2⟩

theorem Reads.joinSlash {texts values : List Bytes} (h : List.Forall₂ Reads texts values) :
    Reads (joinSlash texts) (joinSlash values) := by
  have hcons : ∀ (x y : Bytes) (ys : List Bytes),
      Xtream.joinSlash (x :: y :: ys) = x ++ slash :: Xtream.joinSlash (y :: ys) :=
    fun _ _ _ => rfl
  induction h with
  | nil => exact ⟨rfl, List.not_mem_nil⟩
  | cons hfirst hrest ih =>
    cases hrest with
    | nil => simpa [Xtream.joinSlash, List.intercalate] using hfirst
    | cons hsecond hrest =>
      rw [hcons, hcons]
      exact hfirst.append_slash ih

theorem escape_append_slash (a b : Bytes) : Percent.escape pathMode (a ++ slash :: b) =
    Percent.escape pathMode a ++ slash :: Percent.escape pathMode b := by
  rw [Percent.escape, List.flatMap_append]
  rfl

theorem escape_joinSlash (ws : List Bytes) : Percent.escape pathMode (joinSlash ws) =
    joinSlash (ws.map (Percent.escape pathMode)) := by
  induction ws with
  | nil => rfl
  | cons w ws ih =>
    cases ws with
    | nil => simp [joinSlash, List.intercalate]
    | cons w' ws =>
      have hcons : ∀ (x y : Bytes) (ys : List Bytes),
          joinSlash (x :: y :: ys) = x ++ slash :: joinSlash (y :: ys) := fun _ _ _ => rfl
      rw [hcons, escape_append_slash, ih]
      rfl

/-- **A path of the template is personalized to a text that is read as the path of the client.** -/
theorem reads_personalized (huser : CredentialsUnmarked user) {base first : Bytes}
    {segments : List Bytes} (hbase : Unmarked base) (hfirst : Unmarked first)
    (hsegments : ∀ segment ∈ segments, Unmarked segment) :
    Reads
      (personalize (replacements user) (Percent.escape pathMode
        (base ++ slash :: joinSlash (first :: pathUser :: pathPass :: segments))))
      (base ++ slash :: joinSlash (first :: user.username :: user.clientPassword :: segments)) := by
  have hpiece : ∀ {s : Bytes}, Unmarked s →
      Reads (personalize (replacements user) (Percent.escape pathMode s)) s := by
    intro s hs
    rw [personalize_escape hs]
    exact reads_path s
  rw [escape_append_slash, personalize_append_cons (separates (by decide)), escape_joinSlash,
    joinSlash, personalize_intercalate (separates (by decide))]
  refine (hpiece hbase).append_slash (Reads.joinSlash ?_)
  rw [List.forall₂_map_left_iff, List.forall₂_map_left_iff]
  refine .cons (hpiece hfirst) (.cons ?_ (.cons ?_ ?_))
  · rw [personalize_escape_marker keepsMarkers_path huser (mem_pathUser user)]
    exact reads_segment _
  · rw [personalize_escape_marker keepsMarkers_path huser (mem_pathPass user)]
    exact reads_segment _
  · rw [List.forall₂_same]
    exact fun segment hsegment => hpiece (hsegments segment hsegment)

/-! ## Queries -/

section Queries

variable {q : Values}

/-- No marker occurs in a name or a value. -/
def QueryUnmarked (q : Values) : Prop := ∀ pair ∈ q, Unmarked pair.1 ∧ Unmarked pair.2

theorem values_map (w : Bytes → Bytes) (q : Values) (k : Bytes) :
    Values.values (q.map fun pair => (pair.1, w pair.2)) k = (q.values k).map w := by
  simp [Values.values, List.filter_map, Function.comp_def]

theorem names_map (w : Bytes → Bytes) (q : Values) :
    Values.names (q.map fun pair => (pair.1, w pair.2)) = q.names := by
  simp [Values.names, Function.comp_def]

/-- The order of a query does not depend on its values. -/
theorem sorted_map (w : Bytes → Bytes) (q : Values) :
    Values.sorted (q.map fun pair => (pair.1, w pair.2)) =
      q.sorted.map fun pair => (pair.1, w pair.2) := by
  rw [Values.sorted, Values.sorted, names_map, List.map_flatMap]
  refine List.flatMap_congr fun k _ => ?_
  rw [values_map, List.map_map, List.map_map]
  rfl

theorem mem_sorted {pair : Bytes × Bytes} (h : pair ∈ q.sorted) : pair ∈ q := by
  obtain ⟨k, -, hk⟩ := List.mem_flatMap.mp h
  obtain ⟨x, hx, rfl⟩ := List.mem_map.mp hk
  obtain ⟨other, hother, rfl⟩ := List.mem_map.mp hx
  obtain ⟨hmem, hname⟩ := List.mem_filter.mp hother
  rw [← of_decide_eq_true hname]
  exact hmem

/-- A pair is personalized in its value. -/
theorem personalize_encodePair {name value written : Bytes} (hname : Unmarked name)
    (hvalue : personalize (replacements user) (Percent.escape Values.queryMode value) =
      Percent.escape Values.queryMode written) :
    personalize (replacements user) (Values.encodePair (name, value)) =
      Values.encodePair (name, written) := by
  rw [Values.encodePair, personalize_append_cons (separates (by decide)), hvalue,
    personalize_escape hname]
  rfl

/-- The value that is meant by a value of the template. -/
def meant (user : User) (value : Bytes) : Bytes :=
  if value = queryUser then user.username
  else if value = queryPass then user.clientPassword
  else value

@[simp] theorem meant_queryUser : meant user queryUser = user.username := if_pos rfl

@[simp] theorem meant_queryPass : meant user queryPass = user.clientPassword := by
  rw [meant, if_neg (by decide), if_pos rfl]

theorem meant_of_unmarked {value : Bytes} (h : Unmarked value) : meant user value = value := by
  have hself : ∀ m ∈ markers, value ≠ m := fun m hm heq => h m hm (heq ▸ List.infix_refl _)
  rw [meant, if_neg (hself _ (mem_markers (mem_queryUser User.zero))),
    if_neg (hself _ (mem_markers (mem_queryPass User.zero)))]

/-- The query of the client is the query of the template with the values that are meant. -/
theorem setQuery_client (h : QueryUnmarked q) :
    (clientXtreamCredentials user).setQuery q =
      (canonicalCacheCredentials.setQuery q).map fun pair => (pair.1, meant user pair.2) := by
  have hset : ∀ c : RewriteCredentials, c.setQuery q =
      (ascii "password", c.queryPassword) :: (ascii "username", c.queryUsername) ::
        (q.del (ascii "username")).del (ascii "password") := by
    intro c
    have hne : ascii "username" ≠ ascii "password" := by decide
    simp [RewriteCredentials.setQuery, Values.set, Values.replace, Values.del, hne]
  have hdel : ((q.del (ascii "username")).del (ascii "password")).map
      (fun pair => (pair.1, meant user pair.2)) =
        (q.del (ascii "username")).del (ascii "password") := by
    refine (List.map_congr_left fun pair hpair => ?_).trans (List.map_id _)
    rw [meant_of_unmarked
      (h pair (List.mem_of_mem_filter (List.mem_of_mem_filter hpair))).2]
    rfl
  rw [hset, hset, List.map_cons, List.map_cons, hdel]
  change _ = (_, meant user queryPass) :: (_, meant user queryUser) :: _
  rw [meant_queryPass, meant_queryUser]
  rfl

/-- **A query of the template is personalized to the query of the client.** -/
theorem personalize_encode (huser : CredentialsUnmarked user) {template : Values}
    (hnames : ∀ pair ∈ template, Unmarked pair.1)
    (hvalues : ∀ pair ∈ template, Unmarked pair.2 ∨ pair.2 = queryUser ∨ pair.2 = queryPass) :
    personalize (replacements user) template.encode =
      Values.encode (template.map fun pair => (pair.1, meant user pair.2)) := by
  rw [Values.encode, Values.encode, personalize_intercalate (separates (by decide)), sorted_map,
    List.map_map, List.map_map]
  refine congrArg _ (List.map_congr_left fun pair hpair => ?_)
  obtain ⟨name, value⟩ := pair
  have hmem := mem_sorted hpair
  have hwritten : personalize (replacements user) (Percent.escape Values.queryMode value) =
      Percent.escape Values.queryMode (meant user value) := by
    rcases hvalues _ hmem with hvalue | hvalue | hvalue
    · rw [meant_of_unmarked hvalue, personalize_escape hvalue]
    · obtain rfl : value = queryUser := hvalue
      rw [meant_queryUser]
      exact personalize_escape_marker keepsMarkers_query huser (mem_queryUser user)
    · obtain rfl : value = queryPass := hvalue
      rw [meant_queryPass]
      exact personalize_escape_marker keepsMarkers_query huser (mem_queryPass user)
  rw [Function.comp_apply, Function.comp_apply, personalize_encodePair (hnames _ hmem) hwritten]

end Queries

/-! ## Links -/

/-- A rewritten link whose credentials are left open. -/
inductive Link where
  /-- the credentials are in the query -/
  | inQuery (path : Bytes) (q : Values)
  /-- the credentials are the second and the third segment -/
  | inPath (first : Bytes) (segments : List Bytes) (q : Values)

/-- The path and the query with these credentials. -/
def Link.fill (c : RewriteCredentials) : Link → Bytes × Values
  | inQuery path q => (path, c.setQuery q)
  | inPath first segments q =>
    (slash :: joinSlash (first :: c.pathUsername :: c.pathPassword :: segments), q)

/-- What the link has of others than the client has no markers, below this base path. -/
def Link.Unmarked (base : Bytes) : Link → Prop
  | inQuery path q => Metadata.Unmarked (base ++ path) ∧ QueryUnmarked q
  | inPath first segments q => Metadata.Unmarked base ∧ Metadata.Unmarked first ∧
    (∀ segment ∈ segments, Metadata.Unmarked segment) ∧ QueryUnmarked q

theorem segment_within {segment : Bytes} {path : Bytes}
    (h : segment ∈ splitSlash (trimPrefixSlash path)) : segment <:+: path := by
  have hjoin : ∀ (ws : List Bytes), ∀ w ∈ ws, w <:+: joinSlash ws := by
    intro ws
    induction ws with
    | nil => intro w hw; cases hw
    | cons w ws ih =>
      intro w' hw'
      cases ws with
      | nil =>
        obtain rfl := List.mem_singleton.mp hw'
        exact ⟨[], [], by simp [joinSlash, List.intercalate]⟩
      | cons w₂ ws =>
        have hcons : joinSlash (w :: w₂ :: ws) = w ++ slash :: joinSlash (w₂ :: ws) := rfl
        rw [hcons]
        rcases List.mem_cons.mp hw' with rfl | hw'
        · exact (List.prefix_append _ _).isInfix
        · exact (ih w' hw').trans ((List.suffix_cons _ _).trans (List.suffix_append _ _)).isInfix
  have htrim : trimPrefixSlash path <:+ path := by
    cases path with
    | nil => exact List.suffix_refl _
    | cons c path =>
      rw [trimPrefixSlash]
      split
      · exact List.suffix_cons _ _
      · exact List.suffix_refl _
  have hmem := hjoin _ segment h
  rw [joinSlash, splitSlash, List.intercalate_splitOn] at hmem
  exact hmem.trans htrim.isInfix

variable (L : Library) (p : Provider)

/-- **The switch over the route does not look at the credentials**: it makes a link of the path and
the query, and fills them in. -/
theorem rewriteRoute_link {base path : Bytes} {q : Values} (hpath : Unmarked (base ++ path))
    (hq : QueryUnmarked q) :
    ∃ link : Option Link, (∀ l ∈ link, l.Unmarked base) ∧
      ∀ c, rewriteRoute L p c path q = link.map (Link.fill c) := by
  have hnone : (∀ c, rewriteRoute L p c path q = none) → ∃ link : Option Link,
      (∀ l ∈ link, l.Unmarked base) ∧ ∀ c, rewriteRoute L p c path q = link.map (Link.fill c) :=
    fun h => ⟨none, fun _ hl => (by cases hl), h⟩
  have hsome : ∀ l : Link, l.Unmarked base →
      (∀ c, rewriteRoute L p c path q = some (l.fill c)) →
      ∃ link : Option Link, (∀ l ∈ link, l.Unmarked base) ∧
        ∀ c, rewriteRoute L p c path q = link.map (Link.fill c) := by
    intro l hl h
    refine ⟨some l, fun l' hl' => ?_, h⟩
    obtain rfl := Option.some.inj hl'
    exact hl
  have hsegment : ∀ segment ∈ splitSlash (trimPrefixSlash path), Unmarked segment :=
    fun segment h => hpath.within ((segment_within h).trans (List.suffix_append _ _).isInfix)
  have hbase : Unmarked base := hpath.within (List.prefix_append _ _).isInfix
  rcases hsplit : splitSlash (trimPrefixSlash path) with _ | ⟨first, rest⟩
  · exact hnone fun c => by rw [rewriteRoute, hsplit]
  · rw [hsplit] at hsegment
    have hfirst := hsegment first List.mem_cons_self
    by_cases hempty : first = []
    · exact hnone fun c => by rw [rewriteRoute, hsplit]; exact if_pos hempty
    by_cases hquery : L.toLower first ∈ xtreamQueryRoutes
    · refine hsome (.inQuery path q) ⟨hpath, hq⟩ fun c => ?_
      simp [rewriteRoute, hsplit, hempty, hquery, Link.fill]
    by_cases hroute : L.toLower first ∈ xtreamPathRoutes
    · rcases rest with _ | ⟨username, _ | ⟨password, _ | ⟨segment, segments⟩⟩⟩
      · exact hnone fun c => by simp [rewriteRoute, hsplit, hempty, hquery, hroute]
      · exact hnone fun c => by simp [rewriteRoute, hsplit, hempty, hquery, hroute]
      · exact hnone fun c => by simp [rewriteRoute, hsplit, hempty, hquery, hroute]
      · by_cases hcreds : username = p.upstreamUsername ∧ password = p.upstreamPassword
        · refine hsome (.inPath first (segment :: segments) q) ⟨hbase, hfirst, ?_, hq⟩ fun c => ?_
          · intro s hs
            exact hsegment s (by simp only [List.mem_cons] at hs ⊢; tauto)
          · simp [rewriteRoute, hsplit, hempty, hquery, hroute, hcreds, Link.fill]
        · exact hnone fun c => by simp [rewriteRoute, hsplit, hempty, hquery, hroute, hcreds]
    by_cases hstreaming : L.toLower first = ascii "streaming"
    · rw [hstreaming] at hquery hroute
      rcases rest with _ | ⟨next, rest⟩
      · exact hnone fun c => by simp [rewriteRoute, hsplit, hempty, hquery, hroute, hstreaming]
      · by_cases hcreds : L.equalFold next (ascii "timeshift.php") = true ∧
            q.get (ascii "username") = p.upstreamUsername ∧
            q.get (ascii "password") = p.upstreamPassword
        · refine hsome (.inQuery path q) ⟨hpath, hq⟩ fun c => ?_
          simp [rewriteRoute, hsplit, hempty, hquery, hroute, hstreaming, hcreds, Link.fill]
        · exact hnone fun c => by
            simp [rewriteRoute, hsplit, hempty, hquery, hroute, hstreaming, hcreds]
    · rcases rest with _ | ⟨password, _ | ⟨segment, segments⟩⟩
      · exact hnone fun c => by simp [rewriteRoute, hsplit, hempty, hquery, hroute, hstreaming]
      · exact hnone fun c => by simp [rewriteRoute, hsplit, hempty, hquery, hroute, hstreaming]
      · by_cases hcreds : first = p.upstreamUsername ∧ password = p.upstreamPassword
        · refine hsome (.inPath (ascii "live") (segment :: segments) q)
            ⟨hbase, by decide +kernel, ?_, hq⟩ fun c => ?_
          · intro s hs
            exact hsegment s (by simp only [List.mem_cons] at hs ⊢; tauto)
          · obtain ⟨rfl, rfl⟩ := hcreds
            simp [rewriteRoute, hsplit, hempty, hquery, hroute, hstreaming, Link.fill]
        · exact hnone fun c => by
            simp [rewriteRoute, hsplit, hempty, hquery, hroute, hstreaming, hcreds]

/-- A body is personalized for a client that has credentials. -/
theorem personalizeCanonicalCache_eq (huser : user.username ≠ [] ∧ user.clientPassword ≠ [])
    (body : Bytes) :
    personalizeCanonicalCache body user = personalize (replacements user) body := by
  have hnil : Unmarked [] := by decide
  rw [personalizeCanonicalCache]
  split
  · next h =>
    rcases h with rfl | h | h
    · exact (personalize_of_plain (hnil.plain user fun _ => id)).symm
    · exact absurd h huser.1
    · exact absurd h huser.2
  · rfl

/-- The URL that a client asks for whose link has this path and query as text. -/
def askedFor (link : URL) (target : Bytes) : Option URL :=
  (parseRequestTarget target).map fun t => { link with path := t.1, rawQuery := t.2 }

theorem requestTarget_eq (u : URL) : u.requestTarget =
    Percent.escape pathMode u.path ++
      if u.rawQuery = [] then [] else questionMark :: u.rawQuery := rfl

/-- A text is read as a path and a query, also with an empty query. -/
theorem askedFor_reads {text path : Bytes} (h : Reads text path) (u : URL) (q : Bytes) :
    askedFor u (text ++ questionMark :: q) = some { u with path := path, rawQuery := q } ∧
      askedFor u text = some { u with path := path, rawQuery := [] } := by
  have hcut : Values.cut questionMark text = (text, []) := by
    have hall : ∀ c ∈ text, decide (c ≠ questionMark) = true :=
      fun c hc => decide_eq_true fun heq => h.2 (heq ▸ hc)
    rw [Values.cut, List.takeWhile_eq_self_iff.mpr hall, List.dropWhile_eq_nil_iff.mpr hall]
    rfl
  constructor
  · rw [askedFor, parseRequestTarget, Values.cut_append h.2, h.1]
    rfl
  · rw [askedFor, parseRequestTarget, hcut, h.1]
    rfl

/-- A link of the template, personalized, is read as a link of the client. -/
theorem askedFor_personalized {u v : URL} {path : Bytes}
    (hpath : Reads (personalize (replacements user) (Percent.escape pathMode u.path)) path)
    (hquery : personalize (replacements user) u.rawQuery = v.rawQuery)
    (hv : { u with path := path, rawQuery := v.rawQuery } = v) :
    askedFor u (personalize (replacements user) u.requestTarget) = some v := by
  rw [requestTarget_eq]
  split
  · next hempty =>
    have hnil : v.rawQuery = [] := by
      rw [← hquery, hempty]
      exact personalize_of_plain (Unmarked.plain user (by decide) fun _ => id)
    rw [List.append_nil, (askedFor_reads hpath u []).2, ← hnil, hv]
  · rw [personalize_append_cons (separates (by decide)), hquery,
      (askedFor_reads hpath u v.rawQuery).1, hv]

/-- The path of a link. -/
theorem reads_link (huser : CredentialsUnmarked user) {base : Bytes} {link : Link}
    (hlink : link.Unmarked base) :
    Reads (personalize (replacements user)
        (Percent.escape pathMode (base ++ (link.fill canonicalCacheCredentials).1)))
      (base ++ (link.fill (clientXtreamCredentials user)).1) := by
  cases link with
  | inQuery path q =>
    rw [Link.fill, Link.fill, personalize_escape hlink.1]
    exact reads_path _
  | inPath first segments q =>
    obtain ⟨hbase, hfirst, hsegments, -⟩ := hlink
    exact reads_personalized huser hbase hfirst hsegments

/-- The query of a link. -/
theorem personalize_link (huser : CredentialsUnmarked user) {base : Bytes} {link : Link}
    (hlink : link.Unmarked base) :
    personalize (replacements user) (link.fill canonicalCacheCredentials).2.encode =
      (link.fill (clientXtreamCredentials user)).2.encode := by
  cases link with
  | inQuery path q =>
    obtain ⟨-, hq⟩ := hlink
    rw [Link.fill, Link.fill, setQuery_client hq]
    have hmem : ∀ pair ∈ canonicalCacheCredentials.setQuery q,
        pair = (ascii "password", queryPass) ∨ pair = (ascii "username", queryUser) ∨
          pair ∈ q := by
      intro pair hpair
      simp only [RewriteCredentials.setQuery, Values.set, Values.replace, Values.del,
        List.map_cons, List.map_nil, List.singleton_append, List.mem_cons, List.mem_filter] at hpair
      rcases hpair with rfl | ⟨rfl | ⟨hpair, -⟩, -⟩
      · exact .inl rfl
      · exact .inr (.inl rfl)
      · exact .inr (.inr hpair)
    refine personalize_encode huser (fun pair hpair => ?_) fun pair hpair => ?_
    · rcases hmem pair hpair with rfl | rfl | hpair
      · decide +kernel
      · decide +kernel
      · exact (hq pair hpair).1
    · rcases hmem pair hpair with rfl | rfl | hpair
      · exact .inr (.inr rfl)
      · exact .inr (.inl rfl)
      · exact .inl (hq pair hpair).2
  | inPath first segments q =>
    obtain ⟨-, -, -, hq⟩ := hlink
    rw [Link.fill, Link.fill, personalize_encode huser (fun pair hpair => (hq pair hpair).1)
      fun pair hpair => .inl (hq pair hpair).2]
    congr 1
    refine (List.map_congr_left fun pair hpair => ?_).trans (List.map_id _)
    rw [meant_of_unmarked (hq pair hpair).2]
    rfl

/-- The provider's link has no markers where it is put below the public base. -/
structure LinkUnmarked (publicBase raw : Bytes) : Prop where
  /-- not in the path -/
  path : ∀ target providerBase localBase, L.parseURL (L.trimSpace raw) = some target →
    L.parseURL (trimSuffixSlash p.host) = some providerBase →
    L.parseURL (trimSuffixSlash publicBase) = some localBase →
    Unmarked (trimSuffixSlash localBase.path ++
      streamPath (trimSuffixSlash providerBase.path) target.path)
  /-- not in the query -/
  query : ∀ target, L.parseURL (L.trimSpace raw) = some target →
    QueryUnmarked (Values.parse target.rawQuery).1

/-- **A cached link requests the same.** A link is cached with markers and personalized for a
client, or it is rewritten for the client at once: the client asks for the same URL, or neither
rewrites the link. -/
theorem cached_link_requests_the_same {publicBase raw : Bytes}
    (hclient : user.username ≠ [] ∧ user.clientPassword ≠ []) (huser : CredentialsUnmarked user)
    (hraw : LinkUnmarked L p publicBase raw) :
    (rewriteXtreamAbsoluteURLWithCredentials L p canonicalCacheCredentials publicBase raw).bind
        (fun link => askedFor link (personalizeCanonicalCache link.requestTarget user)) =
      rewriteXtreamAbsoluteURL L p user publicBase raw := by
  have hcanonical : canonicalCacheCredentials.pathUsername ≠ [] ∧
      canonicalCacheCredentials.pathPassword ≠ [] ∧
      canonicalCacheCredentials.queryUsername ≠ [] ∧
      canonicalCacheCredentials.queryPassword ≠ [] := by decide
  rw [rewriteXtreamAbsoluteURL, rewriteXtreamAbsoluteURLWithCredentials,
    rewriteXtreamAbsoluteURLWithCredentials]
  by_cases hempty : L.trimSpace raw = []
  · rw [if_pos (by simp [hempty]), if_pos (by simp [hempty])]
    rfl
  rw [if_neg (by simp [hempty, hcanonical]),
    if_neg (by simp [hempty, clientXtreamCredentials, hclient])]
  rcases htarget : L.parseURL (L.trimSpace raw) with _ | target
  · rfl
  rcases hprovider : L.parseURL (trimSuffixSlash p.host) with _ | providerBase
  · rfl
  rcases hlocal : L.parseURL (trimSuffixSlash publicBase) with _ | localBase
  · rfl
  obtain ⟨link, hlink, hroute⟩ := rewriteRoute_link L p
    (hraw.path target providerBase localBase htarget hprovider hlocal) (hraw.query target htarget)
  simp only [Option.bind_eq_bind, Option.bind_some, hroute]
  split
  · rfl
  cases link with
  | none => rfl
  | some link =>
    have hmarked := hlink link rfl
    simp only [Option.map_some, Option.bind_some]
    split
    · rfl
    · rw [Option.bind_some, personalizeCanonicalCache_eq hclient]
      exact askedFor_personalized (reads_link huser hmarked) (personalize_link huser hmarked) rfl

/-- A client whose password has to be escaped, in a path and in a query differently. -/
def sampleClient : User := { emittedUser "bob" with clientPassword := ascii "a b%" }

/-- The provider's link to a stream, cached and personalized, asks for the stream of the client. -/
theorem cached_link_of_bob :
    (rewriteXtreamAbsoluteURLWithCredentials emittedLibrary (emittedProvider "bob")
        canonicalCacheCredentials (ascii "http://proxy/tv")
        (ascii "http://upstream/live/UP/SECRET/7.ts")).bind
        (fun link => askedFor link (personalizeCanonicalCache link.requestTarget sampleClient)) =
      rewriteXtreamAbsoluteURL emittedLibrary (emittedProvider "bob") sampleClient
        (ascii "http://proxy/tv") (ascii "http://upstream/live/UP/SECRET/7.ts") ∧
    rewriteXtreamAbsoluteURL emittedLibrary (emittedProvider "bob") sampleClient
        (ascii "http://proxy/tv") (ascii "http://upstream/live/UP/SECRET/7.ts") =
      some (plainURL "proxy" "/tv/live/bob/a b%/7.ts") := by
  have htarget : emittedLibrary.parseURL (emittedLibrary.trimSpace
      (ascii "http://upstream/live/UP/SECRET/7.ts")) =
        some (plainURL "upstream" "/live/UP/SECRET/7.ts") := by decide +kernel
  have hprovider : emittedLibrary.parseURL (trimSuffixSlash (emittedProvider "bob").host) =
      some (plainURL "upstream" "") := by decide +kernel
  have hlocal : emittedLibrary.parseURL (trimSuffixSlash (ascii "http://proxy/tv")) =
      some (plainURL "proxy" "/tv") := by decide +kernel
  refine ⟨cached_link_requests_the_same emittedLibrary (emittedProvider "bob") (by decide)
    ⟨by decide +kernel, by decide +kernel⟩ ⟨?_, ?_⟩, by decide +kernel⟩
  · intro target providerBase localBase ht hp hl
    rw [htarget] at ht
    rw [hprovider] at hp
    rw [hlocal] at hl
    obtain rfl := Option.some.inj ht
    obtain rfl := Option.some.inj hp
    obtain rfl := Option.some.inj hl
    decide +kernel
  · intro target ht
    rw [htarget] at ht
    obtain rfl := Option.some.inj ht
    intro pair hpair
    cases hpair

end IptvProxy.Metadata
