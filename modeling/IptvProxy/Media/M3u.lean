import IptvProxy.Lib.Lines
import IptvProxy.Media.Transparent

/-!
# M3U playlists

`internal/proxy/m3u.go` first turns the Xtream URLs of a playlist into URLs of the proxy, and then
`rewriteOpaqueMediaM3U` of `media_token.go` puts token URLs in the place of those that are left.

Both passes resolve an entry with `resolveProviderReference`, which takes no reference that has a
host and no scheme. `playlist_stays_inside_iff`: these are the only entries that can leave the
proxy.
-/

namespace IptvProxy.Media.M3u

open Xtream Catchup

/-- `|` -/
def pipe : Byte := 124
/-- `,` -/
def comma : Byte := 44
/-- `\n` -/
def lineFeed : Byte := 10

variable (L : Library) (p : Provider) (c : RewriteCredentials) (appURL : Bytes)

/-! ## Entries -/

/-- `splitM3UPipeOptions` -/
def splitM3UPipeOptions (raw : Bytes) : Bytes × Bytes :=
  (raw.takeWhile (· ≠ pipe), raw.dropWhile (· ≠ pipe))

/-- `resolveProviderReference` -/
def resolveProviderReference (raw : Bytes) : Option Reference :=
  match Reference.parse (trimSpace raw), Reference.parse (trimSuffixSlash p.host ++ [slash]) with
  | some target, some providerBase =>
    if providerBase.scheme = [] ∨ providerBase.host = [] then none
    else
      let target :=
        if target.scheme = [] ∧ target.host = [] then providerBase.resolve target else target
      if target.scheme = [] ∨ target.host = [] then none else some target
  | _, _ => none

/-- `m3uXtreamMediaTarget` -/
def m3uXtreamMediaTarget (target : Reference) : Bool :=
  match Reference.parse (trimSuffixSlash p.host) with
  | none => false
  | some providerBase =>
    let basePath := trimSuffixSlash providerBase.path
    if providerBase.host = [] ∨ L.equalFold target.host providerBase.host = false then false
    else if basePath ≠ [] ∧ target.path = basePath then false
    else
      match splitSlash (trimPrefixSlash (streamPath basePath target.path)) with
      | [] => false
      | first :: rest =>
        if first = [] then false
        else if L.toLower first ∈ [ascii "live", ascii "movie", ascii "series",
            ascii "timeshift"] then 4 ≤ rest.length + 1
        else if L.toLower first = ascii "hls" then 5 ≤ rest.length + 1
        else if L.toLower first = ascii "streaming" then
          rest.head?.any fun next => L.equalFold next (ascii "timeshift.php")
        else 3 ≤ rest.length + 1 && first = p.upstreamUsername &&
          rest.head? = some p.upstreamPassword

/-- `rewriteXtreamAbsoluteURLWithCredentials`, as text -/
def rewriteXtreamAbsoluteURLWithCredentials (publicBase raw : Bytes) : Option Bytes :=
  if c.pathUsername = [] ∨ c.pathPassword = [] ∨ c.queryUsername = [] ∨ c.queryPassword = [] ∨
      trimSpace raw = [] then none
  else do
    let target ← Reference.parse (trimSpace raw)
    let providerBase ← Reference.parse (trimSuffixSlash p.host)
    let localBase ← Reference.parse (trimSuffixSlash publicBase)
    if target.scheme = [] ∨ target.host = [] ∨ providerBase.host = [] ∨
        L.equalFold target.host providerBase.host = false then none
    else
      let path := streamPath (trimSuffixSlash providerBase.path) target.path
      let (path, q) ← rewriteRoute L p c path (Values.parse target.rawQuery).1
      if localBase.scheme = [] ∨ localBase.host = [] then none
      else some (Reference.text { localBase with
        path := trimSuffixSlash localBase.path ++ path
        rawQuery := q.encode
        fragment := target.fragment })

/-- `rewriteM3UTargetWithCredentials` -/
def rewriteM3UTargetWithCredentials (raw : Bytes) : Option Bytes :=
  if c.pathUsername = [] ∨ c.pathPassword = [] ∨ c.queryUsername = [] ∨ c.queryPassword = [] then
    none
  else
    let (urlPart, pipeOptions) := splitM3UPipeOptions raw
    match resolveProviderReference p urlPart with
    | none => none
    | some target =>
      if m3uXtreamMediaTarget L p target = false then none
      else
        (rewriteXtreamAbsoluteURLWithCredentials L p c (xtreamProviderPublicBase appURL p)
          target.text).map (· ++ pipeOptions)

/-! ## Headers -/

/-- A blank or a tab. -/
def isBlank (c : Byte) : Bool := c = 32 || c = 9

/-- The blanks and tabs in front. -/
def leading (s : Bytes) : Bytes := s.takeWhile isBlank

/-- The blanks and tabs at the end. -/
def trailing (s : Bytes) : Bytes := (s.reverse.takeWhile isBlank).reverse

/-- `rewriteM3UURLListWithCredentials` -/
def rewriteM3UURLListWithCredentials (raw : Bytes) : Bytes :=
  [comma].intercalate ((raw.splitOn comma).map fun part =>
    match (resolveProviderReference p (trimSpace part)).bind fun target =>
        rewriteXtreamAbsoluteURLWithCredentials L p c (xtreamProviderPublicBase appURL p)
          target.text with
    | some replacement => leading part ++ replacement ++ trailing part
    | none => part)

/-- `\s` -/
def isRegexpSpace (c : Byte) : Bool := c ∈ ([9, 10, 12, 13, 32] : Bytes)

/-- `\w` -/
def isWordByte (c : Byte) : Bool :=
  (97 ≤ (lower c).val && (lower c).val ≤ 122) || (48 ≤ c.val && c.val ≤ 57) || c = 95

/-- The length of `x-tvg-url` or `url-tvg` in front, in any case. -/
def epgName (s : Bytes) : Option ℕ :=
  if (s.take 9).map lower = ascii "x-tvg-url" then some 9
  else if (s.take 7).map lower = ascii "url-tvg" then some 7
  else none

/-- What follows an equals sign and an opening quote. -/
def afterQuote (q : Byte) (s : Bytes) : Option Bytes :=
  match s.dropWhile isRegexpSpace with
  | [] => none
  | e :: rest =>
    if e ≠ Values.equals then none
    else
      match rest.dropWhile isRegexpSpace with
      | [] => none
      | o :: value => if o = q then some value else none

/-- `m3uEPGDouble` and `m3uEPGSingle` in front, from the word boundary: the text up to the value,
and the value. -/
def epgAttribute (q : Byte) (s : Bytes) : Option (Bytes × Bytes) :=
  match epgName s with
  | none => none
  | some n =>
    match afterQuote q (s.drop n) with
    | none => none
    | some rest =>
      if q ∈ rest then some (s.take (s.length - rest.length), rest.takeWhile (· ≠ q)) else none

/-- Replaces the values of the attributes; `word` says whether a word goes on here. -/
def replaceAttributes (f : Bytes → Bytes) (q : Byte) : ℕ → Bool → Bytes → Bytes
  | 0, _, s => s
  | _, _, [] => []
  | n + 1, word, b :: s =>
    match if word then none else epgAttribute q (b :: s) with
    | some (front, value) =>
      front ++ f value ++
        q :: replaceAttributes f q n false ((b :: s).drop (front.length + value.length + 1))
    | none => b :: replaceAttributes f q n (isWordByte b) s

/-- `rewriteM3UEPGAttributesWithCredentials` -/
def rewriteM3UEPGAttributesWithCredentials (line : Bytes) : Bytes :=
  let f := rewriteM3UURLListWithCredentials L p c appURL
  let out := replaceAttributes f 34 line.length false line
  replaceAttributes f 39 out.length false out

/-- `strings.HasPrefix(strings.ToUpper(trimmed), "#EXTM3U")` -/
def isHeader (trimmed : Bytes) : Bool := (trimmed.take 7).map lower = ascii "#extm3u"

/-! ## The two passes -/

/-- An entry is no blank line and no comment. -/
def isEntry (trimmed : Bytes) : Bool := trimmed ≠ [] && trimmed.head? ≠ some number

/-- A line of `rewriteM3UPlaylistWithCredentials` -/
def rewriteM3ULine (line : Bytes) : Bytes :=
  let trimmed := trimSpace line
  if isHeader trimmed then rewriteM3UEPGAttributesWithCredentials L p c appURL line
  else if isEntry trimmed then (rewriteM3UTargetWithCredentials L p c appURL trimmed).getD line
  else line

/-- `rewriteM3UPlaylistWithCredentials` -/
def rewriteM3UPlaylistWithCredentials (body : Bytes) : Bytes :=
  [lineFeed].intercalate ((body.splitOn lineFeed).map (rewriteM3ULine L p c appURL))

/-- `isLocalProxyURL` -/
def isLocalProxyURL (raw : Bytes) : Bool :=
  match Reference.parse (trimSpace raw), Reference.parse (trimSuffixSlash appURL) with
  | some target, some loc => target.host ≠ [] && loc.host ≠ [] && L.equalFold target.host loc.host
  | _, _ => false

/-- The token store. -/
structure TokenStore where
  /-- `h.redis != nil` -/
  connected : Bool
  /-- Redis takes the token of this URL -/
  set : Bytes → Bool

variable (sum256 : Bytes → Bytes) (S : TokenStore)

/-- `mediaPublicURL` -/
def mediaPublicURL (token : Bytes) : Bytes :=
  xtreamProviderPublicBase appURL p ++ ascii "/_media/" ++ token

/-- `storeMediaTarget` -/
def storeMediaTarget (target : Reference) : Option Bytes :=
  if S.connected = false ∨ target.host = [] ∨ isWeb target.scheme = false then none
  else if S.set target.text = false then none
  else some (mediaPublicURL p appURL (deterministicMediaToken sum256 p.id target.text))

/-- A line of `rewriteOpaqueMediaM3U` -/
def rewriteOpaqueLine (line : Bytes) : Bytes :=
  let trimmed := trimSpace line
  if isEntry trimmed = false then line
  else
    let (urlPart, pipeOptions) := splitM3UPipeOptions trimmed
    match resolveProviderReference p urlPart with
    | none => line
    | some target =>
      if isLocalProxyURL L appURL target.text then line
      else
        match storeMediaTarget p appURL sum256 S target with
        | none => line
        | some replacement => leading line ++ replacement ++ pipeOptions ++ trailing line

/-- `rewriteOpaqueMediaM3U` -/
def rewriteOpaqueMediaM3U (body : Bytes) : Bytes :=
  [lineFeed].intercalate ((body.splitOn lineFeed).map (rewriteOpaqueLine L p appURL sum256 S))

/-! ## What stays inside -/

/-- The resolution against the host of the provider. -/
def resolved (raw : Bytes) : Option Reference :=
  match Reference.parse (trimSpace raw), Reference.parse (trimSuffixSlash p.host ++ [slash]) with
  | some target, some providerBase =>
    if providerBase.scheme = [] ∨ providerBase.host = [] then none
    else some (providerBase.resolve target)
  | _, _ => none

/-- A URL of the web. -/
def OnWeb (target : Reference) : Prop := isWeb target.scheme = true ∧ target.host ≠ []

/-- The URL of an entry, without the pipe options. -/
def urlPart (line : Bytes) : Bytes := (splitM3UPipeOptions (trimSpace line)).1

/-- The pipe options of an entry. -/
def pipeOptions (line : Bytes) : Bytes := (splitM3UPipeOptions (trimSpace line)).2

/-- A letter. -/
def isLetter (d : Byte) : Bool := 97 ≤ (lower d).val && (lower d).val ≤ 122

/-- A URL on the host of the proxy: a path below the application URL, a printed URL with that host
and a scheme, or a text that resolves to it. -/
def OnProxy (raw : Bytes) : Prop :=
  (∃ rest, raw = trimSuffixSlash appURL ++ slash :: rest) ∨
  (∃ v loc : Reference, raw = v.text ∧ (∃ d k, v.scheme = d :: k ∧ isLetter d = true) ∧
    Reference.parse (trimSuffixSlash appURL) = some loc ∧ loc.host ≠ [] ∧ v.host = loc.host) ∨
  ∃ target, (resolveProviderReference p raw = some target ∨ resolved p raw = some target) ∧
    isLocalProxyURL L appURL target.text = true

/-- What should become of a line. -/
structure LineInside (line out : Bytes) : Prop where
  /-- a comment stays as it is -/
  comment : (trimSpace line).head? = some number → isHeader (trimSpace line) = false → out = line
  /-- an entry on the web becomes a URL of the proxy, with its options -/
  entry : isEntry (trimSpace line) = true → ∀ target, resolved p (urlPart line) = some target →
    OnWeb target → ∃ raw, trimSpace out = raw ++ pipeOptions line ∧ OnProxy L p appURL raw

/-- As many lines, and each as it should be. -/
def StaysInside (body out : Bytes) : Prop :=
  List.Forall₂ (LineInside L p appURL) (body.splitOn lineFeed) (out.splitOn lineFeed)

/-- A reference with a host and without a scheme. -/
def NetworkPath (raw : Bytes) : Prop :=
  ∃ target, Reference.parse (trimSpace raw) = some target ∧ target.scheme = [] ∧ target.host ≠ []

/-- An absolute URL, on one line. -/
structure Absolute : Prop where
  /-- it is a URL with a scheme and a host -/
  parsed : ∃ loc, Reference.parse (trimSuffixSlash appURL) = some loc ∧ loc.scheme ≠ [] ∧
    loc.host ≠ []
  /-- on one line -/
  oneLine : lineFeed ∉ appURL

/-- Redis takes every token. -/
structure TokenStore.Working : Prop where
  /-- there is a connection -/
  connected : S.connected = true
  /-- every token is taken -/
  set : ∀ raw, S.set raw = true

variable {L p c appURL sum256 S} {s t raw : Bytes} {u v : Reference}

/-! ## Trimmed texts -/

/-- None of these texts is in front. -/
def Clean (texts : List Bytes) (s : Bytes) : Prop := ∀ t ∈ texts, t.isPrefixOf s = false

/-- The spaces, read backwards. -/
def spacesBack : List Bytes := spaces.map List.reverse

theorem Clean.part {texts : List Bytes} (h : Clean texts s) (ht : t <+: s) :
    Clean texts t := by
  intro w hw
  have hs := h w hw
  rw [Bool.eq_false_iff, ne_eq, List.isPrefixOf_iff_prefix] at hs ⊢
  exact fun hwt => hs (hwt.trans ht)

theorem dropTexts_of_clean {texts : List Bytes} (h : Clean texts s) (n : ℕ) :
    dropTexts texts n s = s := by
  have hnone : (texts.find? fun t => t.isPrefixOf s) = none := by
    rw [List.find?_eq_none]
    intro t ht
    rw [h t ht]
    decide
  rcases n with _ | n
  · rfl
  · rw [dropTexts, hnone]

theorem clean_dropTexts {texts : List Bytes} (hne : ∀ t ∈ texts, t ≠ []) {n : ℕ}
    (hn : s.length ≤ n) : Clean texts (dropTexts texts n s) := by
  induction n generalizing s with
  | zero =>
    obtain rfl := List.length_eq_zero_iff.mp (Nat.le_zero.mp hn)
    intro t ht
    rcases t with _ | ⟨c, t⟩
    · exact absurd rfl (hne _ ht)
    · rfl
  | succ n ih =>
    rcases hfind : texts.find? fun t => t.isPrefixOf s with _ | t
    · rw [dropTexts, hfind]
      intro t ht
      have h := List.find?_eq_none.mp hfind t ht
      rwa [Bool.not_eq_true] at h
    · have hmem := List.mem_of_find?_eq_some hfind
      have hprefix := List.find?_some hfind
      rw [List.isPrefixOf_iff_prefix] at hprefix
      have hle := hprefix.length_le
      have hpos := List.length_pos_of_ne_nil (hne t hmem)
      rw [dropTexts, hfind]
      refine ih ?_
      rw [List.length_drop]
      omega

theorem dropTexts_suffix (texts : List Bytes) (n : ℕ) (s : Bytes) :
    dropTexts texts n s <:+ s := by
  induction n generalizing s with
  | zero => exact List.suffix_rfl
  | succ n ih =>
    rw [dropTexts]
    split
    · exact (ih _).trans (List.drop_suffix _ _)
    · exact List.suffix_rfl

/-- Blanks are dropped one by one. -/
theorem dropTexts_blanks {texts : List Bytes}
    (hblank : ∀ c, isBlank c = true → ∀ s : Bytes,
      (texts.find? fun t => t.isPrefixOf (c :: s)) = some [c])
    {blanks : Bytes} (hblanks : ∀ c ∈ blanks, isBlank c = true) (hs : Clean texts s) {n : ℕ}
    (hn : blanks.length ≤ n) : dropTexts texts n (blanks ++ s) = s := by
  induction blanks generalizing n with
  | nil => exact dropTexts_of_clean hs n
  | cons c blanks ih =>
    rcases n with _ | n
    · cases hn
    · rw [List.cons_append, dropTexts, hblank c (hblanks c List.mem_cons_self)]
      exact ih (fun c hc => hblanks c (List.mem_cons_of_mem _ hc)) (Nat.le_of_succ_le_succ hn)

theorem find_blank : ∀ c, isBlank c = true → ∀ s : Bytes,
    (spaces.find? fun t => t.isPrefixOf (c :: s)) = some [c] ∧
      (spacesBack.find? fun t => t.isPrefixOf (c :: s)) = some [c] := by
  intro c hc s
  rw [isBlank, Bool.or_eq_true, decide_eq_true_eq, decide_eq_true_eq] at hc
  rcases hc with rfl | rfl
  · exact ⟨rfl, rfl⟩
  · exact ⟨rfl, rfl⟩

/-- No space in front and none at the end. -/
structure Trimmed (s : Bytes) : Prop where
  /-- none in front -/
  front : Clean spaces s
  /-- none at the end -/
  back : Clean spacesBack s.reverse

theorem spaces_ne_nil : (∀ t ∈ spaces, t ≠ []) ∧ ∀ t ∈ spacesBack, t ≠ [] := by decide

theorem trimmed_trimSpace (s : Bytes) : Trimmed (trimSpace s) := by
  constructor
  · refine (clean_dropTexts spaces_ne_nil.1 (le_refl s.length)).part ?_
    have hsuffix := dropTexts_suffix spacesBack (trimTexts spaces s).reverse.length
      (trimTexts spaces s).reverse
    have hprefix := List.reverse_prefix.mpr hsuffix
    rwa [List.reverse_reverse] at hprefix
  · rw [trimSpace, List.reverse_reverse]
    exact clean_dropTexts spaces_ne_nil.2 le_rfl

/-- Blanks around a text are trimmed. -/
theorem trimSpace_blanks (front back : Bytes) {d : Byte} (hfront : ∀ c ∈ front, isBlank c = true)
    (hback : ∀ c ∈ back, isBlank c = true) (hd : solid d = true) (hs : s.head? = some d)
    (hclean : Clean spacesBack s.reverse) : trimSpace (front ++ s ++ back) = s := by
  obtain ⟨t, rfl⟩ := List.head?_eq_some_iff.mp hs
  have hstart : Clean spaces (d :: t ++ back) := by
    intro w hw
    have h := List.all_eq_true.mp hd w hw
    rcases w with _ | ⟨e, w⟩
    · exact absurd rfl (spaces_ne_nil.1 _ hw)
    · rw [List.cons_append, List.isPrefixOf_cons_cons, Bool.and_eq_false_iff, beq_eq_false_iff_ne]
      left
      rintro rfl
      simp at h
  have hleft : trimTexts spaces (front ++ (d :: t) ++ back) = d :: t ++ back := by
    rw [trimTexts, List.append_assoc]
    refine dropTexts_blanks (fun c hc s => (find_blank c hc s).1) hfront hstart ?_
    rw [List.length_append]
    omega
  have hright : trimTexts spacesBack (d :: t ++ back).reverse = (d :: t).reverse := by
    rw [trimTexts, List.reverse_append]
    refine dropTexts_blanks (fun c hc s => (find_blank c hc s).2)
      (fun c hc => hback c (List.mem_reverse.mp hc)) hclean ?_
    rw [List.length_append]
    omega
  rw [trimSpace, hleft]
  exact (congrArg List.reverse hright).trans (List.reverse_reverse _)

theorem prefix_of_append_cons {a b : Bytes} {d : Byte} (h : t <+: a ++ d :: b) (hd : d ∉ t) :
    t <+: a := by
  rcases List.prefix_or_prefix_of_prefix h (List.prefix_append a (d :: b)) with ht | ⟨z, rfl⟩
  · exact ht
  · rcases z with _ | ⟨e, z⟩
    · rw [List.append_nil]
    · obtain ⟨y, hy⟩ := h
      rw [List.append_assoc, List.cons_append, List.append_cancel_left_eq] at hy
      obtain rfl := (List.cons.inj hy).1
      exact absurd (List.mem_append_right _ List.mem_cons_self) hd

theorem pipe_not_mem_spacesBack : ∀ t ∈ spacesBack, pipe ∉ t := by decide

/-- The end of an entry stays clean when another URL is put in front of its options. -/
theorem clean_options {a b options : Bytes} {d : Byte} (hd : solid d = true)
    (hlast : b.getLast? = some d) (hoptions : options = [] ∨ options.head? = some pipe)
    (h : Clean spacesBack (a ++ options).reverse) : Clean spacesBack (b ++ options).reverse := by
  rcases hoptions with rfl | hpipe
  · rw [List.append_nil]
    obtain ⟨z, rfl⟩ := List.getLast?_eq_some_iff.mp hlast
    rw [List.reverse_append, List.reverse_singleton, List.singleton_append]
    intro w hw
    obtain ⟨x, hx, rfl⟩ := List.mem_map.mp hw
    have hsolid := List.all_eq_true.mp hd x hx
    rcases hrev : x.reverse with _ | ⟨e, y⟩
    · exact absurd hrev (by simpa using spaces_ne_nil.1 x hx)
    · rw [List.isPrefixOf_cons_cons, Bool.and_eq_false_iff, beq_eq_false_iff_ne]
      left
      rintro rfl
      have hend : x.getLast? = some e := by rw [← List.head?_reverse, hrev]; rfl
      rw [hend] at hsolid
      simp at hsolid
  · obtain ⟨z, rfl⟩ := List.head?_eq_some_iff.mp hpipe
    have hrev : ∀ a : Bytes, (a ++ pipe :: z).reverse = z.reverse ++ pipe :: a.reverse := by
      intro a
      rw [List.reverse_append, List.reverse_cons, List.append_assoc]
      rfl
    rw [hrev] at h ⊢
    intro w hw
    rw [Bool.eq_false_iff, ne_eq, List.isPrefixOf_iff_prefix]
    intro hprefix
    have hz := prefix_of_append_cons hprefix (pipe_not_mem_spacesBack w hw)
    have hfalse := h w hw
    rw [Bool.eq_false_iff, ne_eq, List.isPrefixOf_iff_prefix] at hfalse
    exact hfalse (hz.trans (List.prefix_append _ _))

/-! ## Parsed texts -/

/-- Printable, and no pipe. -/
def isPlain (d : Byte) : Bool := 33 ≤ d.val && d.val ≤ 126 && d ≠ pipe

theorem isPlain_iff {d : Byte} : isPlain d = true ↔ (33 ≤ d.val ∧ d.val ≤ 126) ∧ d ≠ pipe := by
  rw [isPlain, Bool.and_eq_true, Bool.and_eq_true, decide_eq_true_eq, decide_eq_true_eq,
    decide_eq_true_eq]

/-- No space starts or ends with a printable byte. -/
theorem solid_of_plain {d : Byte} (h : isPlain d = true) : solid d = true := by
  have hspaces : (spaces.all fun t => (t.head?.all fun e => e.val < 33 || 126 < e.val) &&
      t.getLast?.all fun e => e.val < 33 || 126 < e.val) = true := by decide
  have hne : ∀ o : Option Byte, (o.all fun e => e.val < 33 || 126 < e.val) = true →
      o ≠ some d := by
    rintro o ho rfl
    rw [Option.all_some, Bool.or_eq_true, decide_eq_true_eq, decide_eq_true_eq] at ho
    have := (isPlain_iff.mp h).1
    omega
  rw [solid, List.all_eq_true]
  intro t ht
  have hends := List.all_eq_true.mp hspaces t ht
  rw [Bool.and_eq_true] at hends ⊢
  exact ⟨decide_eq_true (hne _ hends.1), decide_eq_true (hne _ hends.2)⟩

theorem plain_spec (d : Byte) (h : isPlain d = true) :
    solid d = true ∧ d ≠ pipe ∧ d ≠ lineFeed := by
  refine ⟨solid_of_plain h, (isPlain_iff.mp h).2, ?_⟩
  rintro rfl
  exact absurd (isPlain_iff.mp h).1 (by decide)

/-- A letter, and its lower case. -/
theorem letter_cases {d : Byte} (h : isLetter d = true) :
    (65 ≤ d.val ∧ d.val ≤ 122) ∧ 97 ≤ (lower d).val ∧ (lower d).val ≤ 122 := by
  rw [isLetter, Bool.and_eq_true, decide_eq_true_eq, decide_eq_true_eq] at h
  refine ⟨?_, h⟩
  rw [lower] at h
  split at h
  · next hupper => omega
  · omega

theorem letter_spec (d : Byte) (h : isLetter d = true) :
    solid d = true ∧ d ≠ slash ∧ d ≠ number ∧ isLetter (lower d) = true := by
  obtain ⟨hd, hlower⟩ := letter_cases h
  have hplain : isPlain d = true := by
    refine isPlain_iff.mpr ⟨by omega, ?_⟩
    rintro rfl
    exact absurd hd.2 (by decide)
  refine ⟨solid_of_plain hplain, ?_, ?_, ?_⟩
  · rintro rfl
    exact absurd hd.1 (by decide)
  · rintro rfl
    exact absurd hd.1 (by decide)
  · have hsame : lower (lower d) = lower d := by
      rw [lower, if_neg]
      omega
    rw [isLetter, hsame, Bool.and_eq_true, decide_eq_true_eq, decide_eq_true_eq]
    exact hlower

theorem plain_lower (d : Byte) (h : isSchemeByte d = true) :
    isPlain (lower d) = true ∧ d ≠ colon := by
  have hmarks : ((ascii "+-.").all fun d => isPlain (lower d) && d ≠ colon) = true := rfl
  rw [isSchemeByte, Bool.or_eq_true, Bool.or_eq_true, decide_eq_true_eq] at h
  rcases h with (h | h) | h
  · obtain ⟨hd, hlower⟩ := letter_cases h
    refine ⟨isPlain_iff.mpr ⟨by omega, ?_⟩, ?_⟩
    · intro hpipe
      rw [hpipe] at hlower
      exact absurd hlower (by decide)
    · rintro rfl
      exact absurd hd (by decide)
  · rw [Bool.and_eq_true, decide_eq_true_eq, decide_eq_true_eq] at h
    have hsame : lower d = d := by
      rw [lower, if_neg]
      omega
    rw [hsame]
    refine ⟨isPlain_iff.mpr ⟨by omega, ?_⟩, ?_⟩
    · rintro rfl
      exact absurd h (by decide)
    · rintro rfl
      exact absurd h (by decide)
  · have hmark := List.all_eq_true.mp hmarks d h
    rwa [Bool.and_eq_true, decide_eq_true_eq] at hmark

/-- What the parser reads of the scheme and the host. -/
structure Parsed (s : Bytes) (u : Reference) : Prop where
  /-- the bytes of a scheme -/
  plain : ∀ d ∈ u.scheme, isPlain d = true
  /-- a scheme starts with a letter -/
  letter : u.scheme ≠ [] → (∃ d t, s = d :: t ∧ isLetter d = true) ∧
    ∃ d t, u.scheme = d :: t ∧ isLetter d = true
  /-- a host excludes an opaque part -/
  hierarchy : u.host ≠ [] → u.opaquePart = []
  /-- a host without a scheme follows slashes -/
  network : u.scheme = [] → u.host ≠ [] → s.head? = some slash
  /-- the text of the host -/
  authority : u.scheme ≠ [] → u.host ≠ [] → ∃ k r user, s = k ++ colon :: slash :: slash :: r ∧
    colon ∉ k ∧
    parseUserHost ((r.takeWhile (· ≠ questionMark)).takeWhile (· ≠ slash)) = some (user, u.host)

theorem parse_front (h : Reference.parse s = some u) :
    ∃ w, parseWithoutFragment (s.takeWhile (· ≠ number)) = some w ∧ u.scheme = w.scheme ∧
      u.host = w.host ∧ u.opaquePart = w.opaquePart := by
  rw [Reference.parse] at h
  dsimp only at h
  split at h
  · cases h
  · next w hw =>
    split at h
    · obtain rfl := Option.some.inj h
      exact ⟨w, hw, rfl, rfl, rfl⟩
    · obtain ⟨f, -, rfl⟩ := Option.map_eq_some_iff.mp h
      exact ⟨w, hw, rfl, rfl, rfl⟩

theorem splitScheme_cases {scheme rest : Bytes} (h : splitScheme s = some (scheme, rest)) :
    (scheme = [] ∧ rest = s) ∨ ∃ d k, isLetter d = true ∧
      (∀ e ∈ d :: k, isSchemeByte e = true) ∧ s = d :: k ++ colon :: rest ∧
      scheme = (d :: k).map lower := by
  rw [splitScheme] at h
  split at h
  · split at h
    · cases h
    · obtain ⟨rfl, rfl⟩ := Prod.mk.inj (Option.some.inj h)
      exact .inl ⟨rfl, rfl⟩
  · next d k hk =>
    have hsplit := List.take_append_drop (s.takeWhile isSchemeByte).length s
    rw [← List.prefix_iff_eq_take.mp (List.takeWhile_prefix isSchemeByte)] at hsplit
    split at h
    · next hletter =>
      obtain ⟨rfl, rfl⟩ := Prod.mk.inj (Option.some.inj h)
      obtain ⟨t, ht⟩ := List.head?_eq_some_iff.mp hletter.2.2
      refine .inr ⟨d, k, ?_, ?_, ?_, by rw [hk]⟩
      · rw [isLetter, Bool.and_eq_true, decide_eq_true_eq, decide_eq_true_eq]
        exact ⟨hletter.1, hletter.2.1⟩
      · intro e he
        rw [← hk] at he
        exact List.mem_takeWhile_imp he
      · rw [ht, hk] at hsplit
        rw [hk] at ht ⊢
        rw [ht]
        exact hsplit.symm
    · obtain ⟨rfl, rfl⟩ := Prod.mk.inj (Option.some.inj h)
      exact .inl ⟨rfl, rfl⟩

theorem parseHierarchy_cases {rest : Bytes} (h : parseHierarchy v rest = some u)
    (hhost : v.host = []) (hhierarchy : v.opaquePart = []) :
    u.scheme = v.scheme ∧ (u.host ≠ [] → u.opaquePart = [] ∧ ∃ r user,
      rest = slash :: slash :: r ∧
        parseUserHost (r.takeWhile (· ≠ slash)) = some (user, u.host)) := by
  rw [parseHierarchy] at h
  split at h
  · obtain rfl := Option.some.inj h
    exact ⟨rfl, fun hne => absurd hhost hne⟩
  · split at h
    · cases h
    · split at h
      · next hslashes =>
        obtain ⟨r, hr⟩ := List.isPrefixOf_iff_prefix.mp hslashes.2
        split at h
        · cases h
        · next user host hparse =>
          obtain ⟨x, -, rfl⟩ := Option.map_eq_some_iff.mp h
          refine ⟨rfl, fun _ => ⟨hhierarchy, r, user, hr.symm, ?_⟩⟩
          rw [← hr] at hparse
          exact hparse
      · obtain ⟨x, -, rfl⟩ := Option.map_eq_some_iff.mp h
        exact ⟨rfl, fun hne => absurd hhost hne⟩

theorem parsed_of_parse (h : Reference.parse s = some u) :
    Parsed (s.takeWhile (· ≠ number)) u := by
  obtain ⟨w, hw, hscheme, hhost, hhierarchy⟩ := parse_front h
  rw [parseWithoutFragment] at hw
  split at hw
  · cases hw
  · split at hw
    · obtain rfl := Option.some.inj hw
      have hnil : u.scheme = [] := hscheme
      have hnohost : u.host = [] := hhost
      constructor
      · rw [hnil]
        exact fun d hd => by cases hd
      · exact fun hne => absurd hnil hne
      · exact fun hne => absurd hnohost hne
      · exact fun _ hne => absurd hnohost hne
      · exact fun hne => absurd hnil hne
    · split at hw
      · cases hw
      · next scheme rest hsplit =>
        obtain ⟨hsame, hauthority⟩ := parseHierarchy_cases hw rfl rfl
        have hschemes : u.scheme = scheme := hscheme.trans hsame
        rw [← hhost, ← hhierarchy] at hauthority
        rcases splitScheme_cases hsplit with ⟨rfl, rfl⟩ | ⟨d, k, hd, hk, htext, hlower⟩
        · constructor
          · rw [hschemes]
            exact fun d hd => by cases hd
          · exact fun hne => absurd hschemes hne
          · exact fun hne => (hauthority hne).1
          · intro _ hne
            obtain ⟨-, r, user, hr, -⟩ := hauthority hne
            have hcut := List.takeWhile_prefix (p := fun c => decide (c ≠ questionMark))
              (l := s.takeWhile (· ≠ number))
            obtain ⟨z, hz⟩ := hcut
            rw [← hz]
            have hr' : (s.takeWhile (· ≠ number)).takeWhile (· ≠ questionMark) =
              slash :: slash :: r := hr
            rw [hr']
            rfl
          · exact fun hne => absurd hschemes hne
        · constructor
          · rw [hschemes, hlower]
            intro e he
            obtain ⟨e', he', rfl⟩ := List.mem_map.mp he
            exact (plain_lower e' (hk e' he')).1
          · intro _
            refine ⟨⟨d, k ++ colon :: rest, htext, hd⟩, lower d, k.map lower, ?_, ?_⟩
            · rw [hschemes, hlower]
              rfl
            · exact (letter_spec d hd).2.2.2
          · exact fun hne => (hauthority hne).1
          · intro hnil
            rw [hschemes, hlower] at hnil
            cases hnil
          · intro _ hne
            obtain ⟨-, r, user, hr, hparse⟩ := hauthority hne
            have hr' : rest.takeWhile (· ≠ questionMark) = slash :: slash :: r := hr
            obtain ⟨z, hz⟩ := List.takeWhile_prefix (p := fun c => decide (c ≠ questionMark))
              (l := rest)
            rw [hr'] at hz
            refine ⟨d :: k, r ++ z, user, ?_, ?_, ?_⟩
            · rw [htext, ← hz]
              rfl
            · exact fun hcolon => (plain_lower _ (hk _ hcolon)).2 rfl
            · have hcut : (r ++ z).takeWhile (· ≠ questionMark) = r := by
                have hrest := hr'
                rw [← hz] at hrest
                rw [List.cons_append, List.cons_append, List.takeWhile_cons_of_pos (by decide),
                  List.takeWhile_cons_of_pos (by decide)] at hrest
                exact (List.cons.inj (List.cons.inj hrest).2).2
              rw [hcut]
              exact hparse

theorem takeWhile_slash (r y : Bytes) :
    ((r ++ slash :: y).takeWhile (· ≠ questionMark)).takeWhile (· ≠ slash) =
      (r.takeWhile (· ≠ questionMark)).takeWhile (· ≠ slash) := by
  induction r with
  | nil => rfl
  | cons d r ih =>
    rw [List.cons_append]
    by_cases hquestion : d = questionMark
    · simp [hquestion]
    · by_cases hslash : d = slash
      · simp [hslash, show slash ≠ questionMark by decide]
      · simpa [hquestion, hslash] using ih

/-- What follows a slash after the host does not change the host. -/
theorem host_append_slash (hu : Reference.parse s = some u)
    (hv : Reference.parse (s ++ slash :: t) = some v) (hscheme : u.scheme ≠ [])
    (hhost : u.host ≠ []) (hscheme' : v.scheme ≠ []) (hhost' : v.host ≠ []) : v.host = u.host := by
  obtain ⟨k, r, user, hs, hk, hparse⟩ := (parsed_of_parse hu).authority hscheme hhost
  obtain ⟨k', r', user', hs', hk', hparse'⟩ := (parsed_of_parse hv).authority hscheme' hhost'
  obtain ⟨y, hy⟩ : ∃ y, (s ++ slash :: t).takeWhile (· ≠ number) =
      s.takeWhile (· ≠ number) ∨ (s ++ slash :: t).takeWhile (· ≠ number) =
        s.takeWhile (· ≠ number) ++ slash :: y := by
    by_cases hnumber : number ∈ s
    · refine ⟨[], .inl ?_⟩
      rw [List.takeWhile_append, if_neg]
      intro hlength
      have hself := (List.takeWhile_prefix _).eq_of_length hlength
      exact absurd (List.takeWhile_eq_self_iff.mp hself number hnumber) (by decide)
    · refine ⟨t.takeWhile (· ≠ number), .inr ?_⟩
      have hall : ∀ c ∈ s, decide (c ≠ number) = true :=
        fun c hc => decide_eq_true fun heq => hnumber (heq ▸ hc)
      rw [List.takeWhile_append_of_pos hall, List.takeWhile_cons_of_pos (by decide),
        List.takeWhile_eq_self_iff.mpr hall]
  have hunique : ∀ {a b a' b' : Bytes}, colon ∉ a → colon ∉ a' →
      a ++ colon :: b = a' ++ colon :: b' → b = b' := by
    intro a b a' b' ha ha' heq
    have hcut := congrArg (Values.cut colon) heq
    rw [Values.cut_append ha, Values.cut_append ha'] at hcut
    exact (Prod.mk.inj hcut).2
  have hsame : (r'.takeWhile (· ≠ questionMark)).takeWhile (· ≠ slash) =
      (r.takeWhile (· ≠ questionMark)).takeWhile (· ≠ slash) := by
    rcases hy with hy | hy
    · rw [hs, hs'] at hy
      have hr := hunique hk' hk hy
      rw [(List.cons.inj (List.cons.inj hr).2).2]
    · rw [hs, hs', List.append_assoc] at hy
      have hr := hunique hk' hk hy
      have htail := (List.cons.inj (List.cons.inj hr).2).2
      rw [htail]
      exact takeWhile_slash r y
  rw [hsame, hparse] at hparse'
  exact (Prod.mk.inj (Option.some.inj hparse')).2.symm

/-! ## URLs of the proxy -/

theorem plain_escape {m : Percent.Mode} (hm : ∀ d, m.keep d = true → isPlain d = true) (s : Bytes) :
    ∀ d ∈ Percent.escape m s, isPlain d = true :=
  Percent.escape_forall (P := fun d => isPlain d = true) hm (by decide) (by decide) (by decide) s

theorem plain_escapedText {m : Percent.Mode} {valid raw plain : Bytes}
    (hm : ∀ d, m.keep d = true → isPlain d = true) (hvalid : (valid.all isPlain) = true) :
    ∀ d ∈ escapedText m valid raw plain, isPlain d = true := by
  rw [escapedText]
  split
  · next h =>
    intro d hd
    have hkept := List.all_eq_true.mp h.2.1 d hd
    rw [Bool.or_eq_true, List.contains_iff_mem] at hkept
    rcases hkept with hkept | hkept
    · exact hm d hkept
    · exact List.all_eq_true.mp hvalid d hkept
  · exact plain_escape hm plain

theorem plain_unreserved (d : Byte) (h : Values.unreserved d = true) : isPlain d = true := by
  simp only [Values.unreserved, Bool.or_eq_true, Bool.and_eq_true, decide_eq_true_eq] at h
  refine isPlain_iff.mpr ⟨by omega, ?_⟩
  rintro rfl
  exact absurd h (by decide)

/-- A mode that keeps unreserved bytes and these. -/
theorem plain_kept {marks : Bytes} (hmarks : (marks.all isPlain) = true) (d : Byte)
    (h : (Values.unreserved d || decide (d ∈ marks)) = true) : isPlain d = true := by
  rw [Bool.or_eq_true, decide_eq_true_eq] at h
  rcases h with h | h
  · exact plain_unreserved d h
  · exact List.all_eq_true.mp hmarks d h

theorem plain_pathMode (d : Byte) : pathMode.keep d = true → isPlain d = true :=
  plain_kept rfl d

theorem plain_fragmentMode (d : Byte) : fragmentMode.keep d = true → isPlain d = true :=
  plain_kept rfl d

theorem plain_userMode (d : Byte) : userMode.keep d = true → isPlain d = true :=
  plain_kept rfl d

theorem plain_hostMode (d : Byte) : hostMode.keep d = true → isPlain d = true :=
  plain_kept rfl d

theorem plain_encode (q : Values) : ∀ d ∈ q.encode, isPlain d = true :=
  Catalog.encode_forall (P := fun d => isPlain d = true)
    (plain_escape (m := Values.queryMode) plain_unreserved) (by decide) (by decide) q

theorem plain_userinfo (w : Userinfo) : ∀ d ∈ w.text, isPlain d = true := by
  intro d hd
  rw [Userinfo.text] at hd
  split at hd
  · cases hd
  · rcases List.mem_append.mp hd with hd | hd
    · exact plain_escape plain_userMode _ d hd
    · rcases hp : w.password with _ | password
      · rw [hp] at hd
        cases hd
      · rw [hp] at hd
        rcases List.mem_cons.mp hd with rfl | hd
        · decide
        · exact plain_escape plain_userMode _ d hd

theorem plain_authority (v : Reference) : ∀ d ∈ v.authority, isPlain d = true := by
  have hslashes : ∀ d ∈ ascii "//", isPlain d = true := List.all_eq_true.mp rfl
  intro d hd
  rw [Reference.authority] at hd
  split at hd
  · cases hd
  · split at hd
    · cases hd
    · rcases List.mem_append.mp hd with hd | hd
      · rcases List.mem_append.mp hd with hd | hd
        · split at hd
          · exact hslashes d hd
          · cases hd
        · rcases hu : v.user with _ | w
          · rw [hu] at hd
            cases hd
          · rw [hu] at hd
            rcases List.mem_append.mp hd with hd | hd
            · exact plain_userinfo w d hd
            · rw [List.mem_singleton.mp hd]
              decide
      · exact plain_escape plain_hostMode _ d hd

theorem plain_ite {P : Prop} [Decidable P] (h : ∀ d ∈ s, isPlain d = true) :
    ∀ d ∈ if P then s else [], isPlain d = true := by
  split
  · exact h
  · exact fun d hd => by cases hd

/-- A printed URL is printable. -/
theorem plain_text (hhierarchy : v.opaquePart = []) (hscheme : ∀ d ∈ v.scheme, isPlain d = true)
    (hquery : ∀ d ∈ v.rawQuery, isPlain d = true) : ∀ d ∈ v.text, isPlain d = true := by
  have hpath : ∀ d ∈ v.escapedPath, isPlain d = true := by
    rw [Reference.escapedPath]
    split
    · exact List.all_eq_true.mp rfl
    · exact plain_escapedText plain_pathMode rfl
  have hdot : ∀ d ∈ ascii "./", isPlain d = true := List.all_eq_true.mp rfl
  have hhierarchy' : ¬ v.opaquePart ≠ [] := fun h => h hhierarchy
  intro d hd
  rw [Reference.text] at hd
  dsimp only at hd
  rw [if_neg hhierarchy'] at hd
  rcases List.mem_append.mp hd with hd | hd
  · rcases List.mem_append.mp hd with hd | hd
    · rcases List.mem_append.mp hd with hd | hd
      · split at hd
        · cases hd
        · rcases List.mem_append.mp hd with hd | hd
          · exact hscheme d hd
          · rw [List.mem_singleton.mp hd]
            decide
      · rcases List.mem_append.mp hd with hd | hd
        · rcases List.mem_append.mp hd with hd | hd
          · rcases List.mem_append.mp hd with hd | hd
            · exact plain_authority v d hd
            · exact plain_ite (List.all_eq_true.mp (by decide)) d hd
          · exact plain_ite hdot d hd
        · exact hpath d hd
    · split at hd
      · rcases List.mem_cons.mp hd with rfl | hd
        · decide
        · exact hquery d hd
      · cases hd
  · split at hd
    · rcases List.mem_cons.mp hd with rfl | hd
      · decide
      · exact plain_escapedText plain_fragmentMode rfl d hd
    · cases hd

theorem text_head {d : Byte} {k : Bytes} (h : v.scheme = d :: k) : ∃ t, v.text = d :: t := by
  rw [Reference.text, h]
  exact ⟨_, rfl⟩

/-- The host of the public base. -/
theorem host_publicBase {w loc : Reference}
    (hw : Reference.parse (trimSuffixSlash (xtreamProviderPublicBase appURL p)) = some w)
    (hloc : Reference.parse (trimSuffixSlash appURL) = some loc) (hscheme : w.scheme ≠ [])
    (hhost : w.host ≠ []) (hlocscheme : loc.scheme ≠ []) (hlochost : loc.host ≠ []) :
    w.host = loc.host := by
  rw [xtreamProviderPublicBase] at hw
  split at hw
  · rcases trimSuffixSlash_cases (trimSuffixSlash appURL) with h | ⟨h, -⟩
    · rw [h] at hloc
      exact (host_append_slash hw hloc hscheme hhost hlocscheme hlochost).symm
    · rw [h, hloc] at hw
      rw [Option.some.inj hw]
  · next hroute =>
    rcases trimSuffixSlash_cases (trimSuffixSlash appURL ++ slash :: trimSlashes p.route) with
      h | ⟨h, -⟩
    · obtain ⟨t, d, ht⟩ := (List.eq_nil_or_concat' (trimSlashes p.route)).resolve_left hroute
      rw [ht, ← List.cons_append, ← List.append_assoc] at h hw
      rw [(List.append_inj' h rfl).1.symm] at hw
      exact host_append_slash hloc hw hlocscheme hlochost hscheme hhost
    · rw [h] at hw
      exact host_append_slash hloc hw hlocscheme hlochost hscheme hhost

/-- The playlist has the texts of the URLs of the translator's `rewriteXtreamAbsoluteURL`, which
reads only the parts that `Reference.url` keeps. -/
theorem rewriteXtreamAbsoluteURLWithCredentials_eq (htrim : ∀ s, L.trimSpace s = trimSpace s)
    (hparse : ∀ s, L.parseURL s = (Reference.parse s).map Reference.url) (publicBase : Bytes) :
    ∃ rewritten : Option Reference,
      rewriteXtreamAbsoluteURLWithCredentials L p c publicBase raw =
        rewritten.map Reference.text ∧
      Xtream.rewriteXtreamAbsoluteURLWithCredentials L p c publicBase raw =
        rewritten.map Reference.url := by
  rw [rewriteXtreamAbsoluteURLWithCredentials, Xtream.rewriteXtreamAbsoluteURLWithCredentials,
    htrim, hparse, hparse, hparse]
  split
  · exact ⟨none, rfl, rfl⟩
  · rcases Reference.parse (trimSpace raw) with _ | target
    · exact ⟨none, rfl, rfl⟩
    rcases Reference.parse (trimSuffixSlash p.host) with _ | providerBase
    · exact ⟨none, rfl, rfl⟩
    rcases Reference.parse (trimSuffixSlash publicBase) with _ | localBase
    · exact ⟨none, rfl, rfl⟩
    simp only [Option.map_some, Option.bind_eq_bind, Option.bind_some, Reference.url]
    split
    · exact ⟨none, rfl, rfl⟩
    · rcases rewriteRoute L p c (streamPath (trimSuffixSlash providerBase.path) target.path)
          (Values.parse target.rawQuery).1 with _ | ⟨path, q⟩
      · exact ⟨none, rfl, rfl⟩
      · simp only [Option.bind_some]
        split
        · exact ⟨none, rfl, rfl⟩
        · exact ⟨some _, rfl, rfl⟩

/-- What the first pass writes. -/
theorem rewritten_spec (happ : Absolute appURL)
    (h : rewriteXtreamAbsoluteURLWithCredentials L p c (xtreamProviderPublicBase appURL p) raw =
      some s) :
    (∀ d ∈ s, isPlain d = true) ∧ (∃ d t, s = d :: t ∧ isLetter d = true) ∧
      ∃ v loc : Reference, s = v.text ∧ (∃ d k, v.scheme = d :: k ∧ isLetter d = true) ∧
        Reference.parse (trimSuffixSlash appURL) = some loc ∧ loc.host ≠ [] ∧
          v.host = loc.host := by
  obtain ⟨loc, hloc, hlocscheme, hlochost⟩ := happ.parsed
  rw [rewriteXtreamAbsoluteURLWithCredentials] at h
  split at h
  · cases h
  · obtain ⟨target, -, h⟩ := Option.bind_eq_some_iff.mp h
    obtain ⟨providerBase, -, h⟩ := Option.bind_eq_some_iff.mp h
    obtain ⟨localBase, hlocal, h⟩ := Option.bind_eq_some_iff.mp h
    split at h
    · cases h
    · obtain ⟨⟨path, q⟩, -, h⟩ := Option.bind_eq_some_iff.mp h
      dsimp only at h
      split at h
      · cases h
      · next hbase =>
        rw [not_or] at hbase
        obtain rfl := Option.some.inj h
        have hparsed := parsed_of_parse hlocal
        obtain ⟨-, d, k, hk, hd⟩ := hparsed.letter hbase.1
        refine ⟨plain_text (hparsed.hierarchy hbase.2) hparsed.plain (plain_encode q), ?_, ?_⟩
        · obtain ⟨t, ht⟩ := text_head (v := { localBase with
            path := trimSuffixSlash localBase.path ++ path
            rawQuery := q.encode
            fragment := target.fragment }) hk
          exact ⟨d, t, ht, hd⟩
        · have hsame := host_publicBase hlocal hloc hbase.1 hbase.2 hlocscheme hlochost
          exact ⟨_, loc, rfl, ⟨d, k, hk, hd⟩, hloc, hlochost, hsame⟩

/-! ## Entries -/

theorem split_eq (s : Bytes) :
    s = (splitM3UPipeOptions s).1 ++ (splitM3UPipeOptions s).2 :=
  (List.takeWhile_append_dropWhile (p := (· ≠ pipe))).symm

theorem options_cases (s : Bytes) :
    (splitM3UPipeOptions s).2 = [] ∨ (splitM3UPipeOptions s).2.head? = some pipe := by
  induction s with
  | nil => exact .inl rfl
  | cons d s ih =>
    by_cases hd : d = pipe
    · right
      rw [splitM3UPipeOptions, hd]
      rfl
    · rw [splitM3UPipeOptions, List.dropWhile_cons_of_pos (by simpa using hd)]
      exact ih

theorem pipe_not_mem_split (s : Bytes) : pipe ∉ (splitM3UPipeOptions s).1 := by
  intro h
  simpa using List.mem_takeWhile_imp h

theorem split_append {a options : Bytes} (ha : pipe ∉ a)
    (hoptions : options = [] ∨ options.head? = some pipe) :
    splitM3UPipeOptions (a ++ options) = (a, options) := by
  have hall : ∀ d ∈ a, decide (d ≠ pipe) = true := fun d hd => decide_eq_true fun h => ha (h ▸ hd)
  rw [splitM3UPipeOptions, List.takeWhile_append_of_pos hall, List.dropWhile_append_of_pos hall]
  rcases hoptions with rfl | hpipe
  · exact Prod.ext (List.append_nil a) rfl
  · obtain ⟨t, rfl⟩ := List.head?_eq_some_iff.mp hpipe
    exact Prod.ext (List.append_nil a) rfl

theorem head_of_isHeader (h : isHeader s = true) : s.head? = some number := by
  rw [isHeader, decide_eq_true_eq] at h
  rcases s with _ | ⟨d, s⟩
  · exact absurd h (by decide)
  · have hd : lower d = number := (List.cons.inj h).1
    have hnumber : d = number := by
      rw [lower] at hd
      split at hd
      · next hupper =>
        have hval := congrArg Fin.val hd
        have hnumber : number.val = 35 := rfl
        omega
      · exact hd
    rw [hnumber]
    rfl

theorem rewriteM3ULine_entry {line : Bytes} (h : isEntry (trimSpace line) = true) :
    rewriteM3ULine L p c appURL line =
      (rewriteM3UTargetWithCredentials L p c appURL (trimSpace line)).getD line := by
  have hheader : ¬ isHeader (trimSpace line) = true := by
    intro hheader
    rw [isEntry, head_of_isHeader hheader] at h
    simp at h
  rw [rewriteM3ULine, if_neg hheader, if_pos h]

theorem lines_of_comment {line : Bytes} (h : isEntry (trimSpace line) = false)
    (hheader : isHeader (trimSpace line) = false) :
    rewriteOpaqueLine L p appURL sum256 S (rewriteM3ULine L p c appURL line) = line := by
  have hfirst : rewriteM3ULine L p c appURL line = line := by
    rw [rewriteM3ULine, hheader, h]
    rfl
  rw [hfirst, rewriteOpaqueLine, if_pos h]

/-- The application URL starts with a letter. -/
theorem Absolute.letter (happ : Absolute appURL) :
    ∃ d t, trimSuffixSlash appURL = d :: t ∧ isLetter d = true := by
  obtain ⟨loc, hloc, hscheme, -⟩ := happ.parsed
  obtain ⟨⟨d, t, ht, hd⟩, -⟩ := (parsed_of_parse hloc).letter hscheme
  rcases hs : trimSuffixSlash appURL with _ | ⟨e, s⟩
  · rw [hs] at ht
    cases ht
  · have hprefix := List.takeWhile_prefix (p := fun c => decide (c ≠ number))
      (l := trimSuffixSlash appURL)
    rw [ht, hs] at hprefix
    obtain ⟨z, hz⟩ := hprefix
    obtain rfl := (List.cons.inj hz).1
    exact ⟨d, s, rfl, hd⟩

theorem plain_token (sum256 : Bytes → Bytes) (providerID raw : Bytes) :
    ∀ d ∈ deterministicMediaToken sum256 providerID raw, isPlain d = true := by
  have hall : (Base64.alphabet.all fun e => isPlain (Fin.ofNat 256 e.toNat)) = true := by
    decide +kernel
  intro d hd
  rw [deterministicMediaToken, ascii, String.toList_ofList] at hd
  obtain ⟨e, he, rfl⟩ := List.mem_map.mp hd
  exact List.all_eq_true.mp hall e (Base64.mem_encode he)

/-- A token URL is below the application URL, and ends in a printable byte. -/
theorem mediaPublicURL_spec (p : Provider) (appURL : Bytes) {token : Bytes}
    (htoken : ∀ d ∈ token, isPlain d = true) :
    (∃ rest, mediaPublicURL p appURL token = trimSuffixSlash appURL ++ slash :: rest) ∧
      ∃ d, (mediaPublicURL p appURL token).getLast? = some d ∧ isPlain d = true := by
  have hmedia : ∀ d ∈ ascii "/_media/", isPlain d = true := List.all_eq_true.mp rfl
  have hne : ascii "/_media/" ++ token ≠ [] :=
    List.append_ne_nil_of_left_ne_nil (by decide) _
  constructor
  · have hslash : ascii "/_media/" = slash :: ascii "_media/" := rfl
    rw [mediaPublicURL, xtreamProviderPublicBase]
    split
    · exact ⟨ascii "_media/" ++ token, by rw [hslash, List.append_assoc, List.cons_append]⟩
    · refine ⟨trimSlashes p.route ++ (ascii "/_media/" ++ token), ?_⟩
      rw [List.append_assoc, List.append_assoc, List.cons_append]
  · obtain ⟨t, d, ht⟩ := (List.eq_nil_or_concat' (ascii "/_media/" ++ token)).resolve_left hne
    refine ⟨d, ?_, ?_⟩
    · rw [mediaPublicURL, List.append_assoc, ht, ← List.append_assoc]
      exact List.getLast?_concat
    · have hd : d ∈ ascii "/_media/" ++ token := by
        rw [ht]
        exact List.mem_append_right _ (List.mem_singleton_self d)
      rcases List.mem_append.mp hd with hd | hd
      · exact hmedia d hd
      · exact htoken d hd

theorem leading_blank (s : Bytes) : ∀ d ∈ leading s, isBlank d = true :=
  fun _ hd => List.mem_takeWhile_imp hd

theorem trailing_blank (s : Bytes) : ∀ d ∈ trailing s, isBlank d = true :=
  fun _ hd => List.mem_takeWhile_imp (List.mem_reverse.mp hd)

theorem store_onWeb (hstore : S.Working) (h : OnWeb u) : storeMediaTarget p appURL sum256 S u =
    some (mediaPublicURL p appURL (deterministicMediaToken sum256 p.id u.text)) := by
  have hrefused : ¬(S.connected = false ∨ u.host = [] ∨ isWeb u.scheme = false) := by
    rw [hstore.connected, h.1]
    rintro (h' | h' | h')
    · cases h'
    · exact h.2 h'
    · cases h'
  rw [storeMediaTarget, if_neg hrefused, if_neg (by rw [hstore.set]; decide)]

theorem store_not_onWeb (h : ¬ OnWeb u) : storeMediaTarget p appURL sum256 S u = none := by
  rw [storeMediaTarget, if_pos]
  by_contra hrefused
  rw [not_or, not_or] at hrefused
  exact h ⟨Bool.eq_true_of_not_eq_false hrefused.2.2, hrefused.2.1⟩

/-- A token URL in the place of the URL of an entry. -/
theorem trimSpace_replaced (happ : Absolute appURL) {line a options token : Bytes}
    (htrim : trimSpace line = a ++ options) (hoptions : options = [] ∨ options.head? = some pipe)
    (htoken : ∀ d ∈ token, isPlain d = true) :
    trimSpace (leading line ++ mediaPublicURL p appURL token ++ options ++ trailing line) =
      mediaPublicURL p appURL token ++ options := by
  obtain ⟨⟨rest, hrest⟩, e, hlast, he⟩ := mediaPublicURL_spec p appURL htoken
  obtain ⟨d, t, ht, hd⟩ := happ.letter
  have hclean : Clean spacesBack (mediaPublicURL p appURL token ++ options).reverse := by
    have hback := (trimmed_trimSpace line).back
    rw [htrim] at hback
    exact clean_options (plain_spec e he).1 hlast hoptions hback
  have hhead : (mediaPublicURL p appURL token ++ options).head? = some d := by
    rw [hrest, ht]
    rfl
  have h := trimSpace_blanks _ _ (leading_blank line) (trailing_blank line) (letter_spec d hd).1
    hhead hclean
  rw [← List.append_assoc] at h
  exact h

/-- What the second pass makes of an entry. -/
theorem second_spec (L : Library) (p : Provider) (sum256 : Bytes → Bytes)
    (happ : Absolute appURL) (hstore : S.Working) {line a options : Bytes}
    (htrim : trimSpace line = a ++ options) (ha : pipe ∉ a)
    (hoptions : options = [] ∨ options.head? = some pipe) (hentry : isEntry (a ++ options) = true) :
    (rewriteOpaqueLine L p appURL sum256 S line = line ∧
      ∀ target, resolveProviderReference p a = some target → OnWeb target →
        isLocalProxyURL L appURL target.text = true) ∨
    ((∃ rest, trimSpace (rewriteOpaqueLine L p appURL sum256 S line) =
      trimSuffixSlash appURL ++ slash :: rest ++ options) ∧
        resolveProviderReference p a ≠ none) := by
  have hnot : ¬ isEntry (a ++ options) = false := by
    rw [hentry]
    decide
  rw [rewriteOpaqueLine, htrim, if_neg hnot, split_append ha hoptions]
  dsimp only
  rcases hresolve : resolveProviderReference p a with _ | target
  · exact .inl ⟨rfl, fun target h => by cases h⟩
  · dsimp only
    split
    · next hlocal =>
      refine .inl ⟨rfl, fun target' h _ => ?_⟩
      rw [← Option.some.inj h]
      exact hlocal
    · by_cases hweb : OnWeb target
      · right
        rw [store_onWeb hstore hweb]
        have htoken := plain_token sum256 p.id target.text
        obtain ⟨⟨rest, hrest⟩, -⟩ := mediaPublicURL_spec p appURL htoken
        refine ⟨⟨rest, ?_⟩, Option.some_ne_none _⟩
        dsimp only
        rw [trimSpace_replaced happ htrim hoptions htoken, hrest]
      · left
        rw [store_not_onWeb hweb]
        refine ⟨rfl, fun target' h hweb' => ?_⟩
        rw [Option.some.inj h] at hweb
        exact absurd hweb' hweb

/-! ## References to other hosts -/

theorem resolve_scheme (base : Reference) (h : u.scheme ≠ []) :
    (base.resolve u).scheme = u.scheme ∧ (base.resolve u).host = u.host := by
  rw [Reference.resolve]
  dsimp only
  rw [if_neg h, if_pos (.inl h)]
  rcases hset : u.setPath (resolvePath u.escapedPath) with _ | w
  · exact ⟨rfl, rfl⟩
  · obtain ⟨x, -, rfl⟩ := Option.map_eq_some_iff.mp hset
    exact ⟨rfl, rfl⟩

/-- A reference with a host and no scheme is not resolved by the code. -/
theorem resolve_networkPath (h : NetworkPath raw) : resolveProviderReference p raw = none := by
  obtain ⟨target, htarget, hscheme, hhost⟩ := h
  rw [resolveProviderReference, htarget]
  rcases Reference.parse (trimSuffixSlash p.host ++ [slash]) with _ | providerBase
  · rfl
  · dsimp only
    split
    · rfl
    · have hpick : (if target.scheme = [] ∧ target.host = [] then providerBase.resolve target
          else target) = target := if_neg fun h => hhost h.2
      rw [hpick, if_pos (.inl hscheme)]

/-- Any other is. -/
theorem resolve_of_resolved (h : resolved p raw = some u) (hweb : OnWeb u)
    (hnot : ¬ NetworkPath raw) : ∃ target, resolveProviderReference p raw = some target ∧
      OnWeb target := by
  rw [resolved] at h
  rw [resolveProviderReference]
  rcases htarget : Reference.parse (trimSpace raw) with _ | target
  · rw [htarget] at h
    cases h
  · rw [htarget] at h
    rcases hbase : Reference.parse (trimSuffixSlash p.host ++ [slash]) with _ | providerBase
    · rw [hbase] at h
      cases h
    · rw [hbase] at h
      dsimp only at h ⊢
      split at h
      · cases h
      · next hbase' =>
        rw [if_neg hbase']
        have hresolved := Option.some.inj h
        have hscheme : u.scheme ≠ [] := by
          intro hnil
          have hisweb := hweb.1
          rw [hnil] at hisweb
          exact absurd hisweb (by decide)
        by_cases hscheme' : target.scheme = []
        · have hhost : target.host = [] := by
            by_contra hne
            exact hnot ⟨target, htarget, hscheme', hne⟩
          have hpick : (if target.scheme = [] ∧ target.host = [] then providerBase.resolve target
              else target) = u := (if_pos ⟨hscheme', hhost⟩).trans hresolved
          rw [hpick, if_neg (not_or.mpr ⟨hscheme, hweb.2⟩)]
          exact ⟨u, rfl, hweb⟩
        · obtain ⟨hs, hh⟩ := resolve_scheme providerBase hscheme'
          rw [hresolved] at hs hh
          have hweb' : OnWeb target := by
            rw [OnWeb, ← hs, ← hh]
            exact hweb
          have hpick : (if target.scheme = [] ∧ target.host = [] then providerBase.resolve target
              else target) = target := if_neg fun h => hscheme' h.1
          rw [hpick, if_neg (not_or.mpr ⟨hscheme', hweb'.2⟩)]
          exact ⟨target, rfl, hweb'⟩

theorem head_trimSpace {d : Byte} (hclean : Clean spaces s) (h : (trimSpace s).head? = some d) :
    s.head? = some d := by
  have hfront : trimTexts spaces s = s := dropTexts_of_clean hclean _
  have hprefix : trimSpace s <+: s := by
    have hsuffix := dropTexts_suffix spacesBack s.reverse.length s.reverse
    have hreverse := List.reverse_prefix.mpr hsuffix
    rw [List.reverse_reverse] at hreverse
    rw [trimSpace, hfront]
    exact hreverse
  obtain ⟨t, ht⟩ := List.head?_eq_some_iff.mp h
  obtain ⟨z, hz⟩ := hprefix
  rw [← hz, ht]
  rfl

theorem head_networkPath (hclean : Clean spaces raw) (h : NetworkPath raw) :
    raw.head? = some slash := by
  obtain ⟨target, htarget, hscheme, hhost⟩ := h
  have hhead := (parsed_of_parse htarget).network hscheme hhost
  obtain ⟨z, hz⟩ := List.takeWhile_prefix (p := fun c => decide (c ≠ number)) (l := trimSpace raw)
  obtain ⟨t, ht⟩ := List.head?_eq_some_iff.mp hhead
  refine head_trimSpace hclean ?_
  rw [← hz, ht]
  rfl

/-! ## Lines -/

/-- An entry on another host without a scheme stays. -/
theorem networkPath_stays (L : Library) (p : Provider) (c : RewriteCredentials)
    (sum256 : Bytes → Bytes) {line : Bytes} (happ : Absolute appURL) (hstore : S.Working)
    (hentry : isEntry (trimSpace line) = true) (h : NetworkPath (urlPart line)) :
    rewriteOpaqueLine L p appURL sum256 S (rewriteM3ULine L p c appURL line) = line := by
  have hnone : resolveProviderReference p (splitM3UPipeOptions (trimSpace line)).1 = none :=
    resolve_networkPath h
  have hfirst : rewriteM3ULine L p c appURL line = line := by
    rw [rewriteM3ULine_entry hentry, rewriteM3UTargetWithCredentials]
    split
    · rfl
    · dsimp only
      rw [hnone]
      rfl
  rw [hfirst]
  rw [split_eq (trimSpace line)] at hentry
  rcases second_spec L p sum256 happ hstore (split_eq (trimSpace line))
    (pipe_not_mem_split _) (options_cases _) hentry with ⟨hsame, -⟩ | ⟨-, hsome⟩
  · exact hsame
  · exact absurd hnone hsome

/-- What the first pass writes for an entry. -/
theorem first_spec {line out : Bytes} (happ : Absolute appURL)
    (h : rewriteM3UTargetWithCredentials L p c appURL (trimSpace line) = some out) :
    ∃ y, out = y ++ pipeOptions line ∧ trimSpace out = out ∧ isEntry out = true ∧ pipe ∉ y ∧
      ∃ v loc : Reference, y = v.text ∧ (∃ d k, v.scheme = d :: k ∧ isLetter d = true) ∧
        Reference.parse (trimSuffixSlash appURL) = some loc ∧ loc.host ≠ [] ∧
          v.host = loc.host := by
  rw [rewriteM3UTargetWithCredentials] at h
  split at h
  · cases h
  · dsimp only at h
    split at h
    · cases h
    · split at h
      · cases h
      · obtain ⟨y, hy, rfl⟩ := Option.map_eq_some_iff.mp h
        obtain ⟨hplain, ⟨d, t, hd, hletter⟩, hprinted⟩ := rewritten_spec happ hy
        have hspec := letter_spec d hletter
        have hne : y ≠ [] := by
          rw [hd]
          exact List.cons_ne_nil _ _
        obtain ⟨t', e, he⟩ := (List.eq_nil_or_concat' y).resolve_left hne
        have hback : Clean spacesBack (y ++ (splitM3UPipeOptions (trimSpace line)).2).reverse := by
          have hback := (trimmed_trimSpace line).back
          rw [split_eq (trimSpace line)] at hback
          refine clean_options (plain_spec e (hplain e ?_)).1 ?_ (options_cases _) hback
          · rw [he]
            exact List.mem_append_right _ (List.mem_singleton_self e)
          · rw [he]
            exact List.getLast?_concat
        refine ⟨y, rfl, ?_, ?_, ?_, hprinted⟩
        · have hhead : (y ++ (splitM3UPipeOptions (trimSpace line)).2).head? = some d := by
            rw [hd]
            rfl
          have htrim := trimSpace_blanks [] [] (fun c hc => by cases hc)
            (fun c hc => by cases hc) hspec.1 hhead hback
          rwa [List.nil_append, List.append_nil] at htrim
        · rw [hd, List.cons_append, isEntry]
          simpa using hspec.2.2.1
        · exact fun hpipe => (plain_spec pipe (hplain pipe hpipe)).2.1 rfl

/-- **A line is as it should be** exactly if it is no entry on another host without a scheme. -/
theorem line_inside_iff (happ : Absolute appURL) (hstore : S.Working) (line : Bytes) :
    LineInside L p appURL line
        (rewriteOpaqueLine L p appURL sum256 S (rewriteM3ULine L p c appURL line)) ↔
      (isEntry (trimSpace line) = true → ∀ target, resolved p (urlPart line) = some target →
        OnWeb target → NetworkPath (urlPart line) →
          isLocalProxyURL L appURL target.text = true) := by
  have htrim : trimSpace line = urlPart line ++ pipeOptions line := split_eq _
  constructor
  · intro h hentry target htarget hweb hnetwork
    have hout := networkPath_stays L p c sum256 happ hstore hentry hnetwork
    obtain ⟨raw, hraw, hproxy⟩ := h.entry hentry target htarget hweb
    rw [hout, htrim, List.append_cancel_right_eq] at hraw
    subst hraw
    have hslash : (urlPart line).head? = some slash := by
      refine head_networkPath ((trimmed_trimSpace line).front.part ?_) hnetwork
      rw [htrim]
      exact List.prefix_append _ _
    rcases hproxy with ⟨rest, hrest⟩ | ⟨v, loc, htext, ⟨d, k, hk, hd⟩, -⟩ |
      ⟨target', hresolve | hresolve, hlocal⟩
    · obtain ⟨d, t, ht, hd⟩ := happ.letter
      rw [hrest, ht] at hslash
      exact absurd (Option.some.inj hslash) (letter_spec d hd).2.1
    · obtain ⟨t, ht⟩ := text_head hk
      rw [htext, ht] at hslash
      exact absurd (Option.some.inj hslash) (letter_spec d hd).2.1
    · rw [resolve_networkPath hnetwork] at hresolve
      cases hresolve
    · rw [htarget] at hresolve
      rw [Option.some.inj hresolve]
      exact hlocal
  · intro h
    constructor
    · intro hcomment hheader
      refine lines_of_comment ?_ hheader
      rw [isEntry, hcomment]
      simp
    · intro hentry target htarget hweb
      by_cases hnetwork : NetworkPath (urlPart line)
      · rw [networkPath_stays L p c sum256 happ hstore hentry hnetwork]
        exact ⟨urlPart line, htrim, .inr (.inr ⟨target, .inr htarget,
          h hentry target htarget hweb hnetwork⟩)⟩
      · obtain ⟨target', htarget', hweb'⟩ := resolve_of_resolved htarget hweb hnetwork
        rw [rewriteM3ULine_entry hentry]
        rcases hfirst : rewriteM3UTargetWithCredentials L p c appURL (trimSpace line) with _ | out
        · have hentry' := hentry
          rw [htrim] at hentry'
          rw [Option.getD_none]
          rcases second_spec L p sum256 happ hstore htrim (pipe_not_mem_split _) (options_cases _)
            hentry' with ⟨hsame, hlocal⟩ | ⟨⟨rest, hrest⟩, -⟩
          · rw [hsame]
            exact ⟨urlPart line, htrim, .inr (.inr ⟨target', .inl htarget',
              hlocal target' htarget' hweb'⟩)⟩
          · exact ⟨_, hrest, .inl ⟨rest, rfl⟩⟩
        · obtain ⟨y, rfl, htrimmed, hentry', hpipe, hprinted⟩ := first_spec happ hfirst
          rw [Option.getD_some]
          rcases second_spec L p sum256 happ hstore htrimmed hpipe
            (options_cases _) hentry' with ⟨hsame, -⟩ | ⟨⟨rest, hrest⟩, -⟩
          · rw [hsame]
            exact ⟨y, htrimmed, .inr (.inl hprinted)⟩
          · exact ⟨_, hrest, .inl ⟨rest, rfl⟩⟩

/-! ## Line feeds -/

theorem mem_intercalate {sep : Bytes} {l : List Bytes} {d : Byte} (h : d ∈ sep.intercalate l) :
    d ∈ sep ∨ ∃ part ∈ l, d ∈ part := by
  induction l with
  | nil => cases h
  | cons part l ih =>
    by_cases hl : l = []
    · rw [hl, List.intercalate_singleton] at h
      exact .inr ⟨part, List.mem_cons_self, h⟩
    · rw [List.intercalate_cons_of_ne_nil hl, List.mem_append, List.mem_append] at h
      rcases h with (h | h) | h
      · exact .inr ⟨part, List.mem_cons_self, h⟩
      · exact .inl h
      · rcases ih h with h | ⟨part, hpart, h⟩
        · exact .inl h
        · exact .inr ⟨part, List.mem_cons_of_mem _ hpart, h⟩

theorem mem_intercalate_of_mem {sep part : Bytes} {l : List Bytes} {d : Byte} (hpart : part ∈ l)
    (h : d ∈ part) : d ∈ sep.intercalate l := by
  induction l with
  | nil => cases hpart
  | cons first l ih =>
    by_cases hl : l = []
    · rw [hl] at hpart ⊢
      rw [List.intercalate_singleton, ← List.mem_singleton.mp hpart]
      exact h
    · rw [List.intercalate_cons_of_ne_nil hl, List.mem_append]
      rcases List.mem_cons.mp hpart with rfl | hpart
      · exact .inl (List.mem_append_left _ h)
      · exact .inr (ih hpart)

theorem mem_of_mem_splitOn {sep d : Byte} {part : Bytes} (hpart : part ∈ s.splitOn sep)
    (h : d ∈ part) : d ∈ s := by
  have hjoin : d ∈ [sep].intercalate (s.splitOn sep) := mem_intercalate_of_mem hpart h
  rwa [List.intercalate_splitOn] at hjoin

theorem mem_of_mem_trimSpace {d : Byte} (h : d ∈ trimSpace s) : d ∈ s := by
  rw [trimSpace, List.mem_reverse] at h
  have hback := (dropTexts_suffix _ _ _).subset h
  exact (dropTexts_suffix _ _ _).subset (List.mem_reverse.mp hback)

theorem mem_of_mem_trailing {d : Byte} (h : d ∈ trailing s) : d ∈ s :=
  List.mem_reverse.mp ((List.takeWhile_prefix _).subset (List.mem_reverse.mp h))

theorem publicBase_oneLine (happ : Absolute appURL) (hroute : lineFeed ∉ p.route) :
    lineFeed ∉ xtreamProviderPublicBase appURL p := by
  have hbase : lineFeed ∉ trimSuffixSlash appURL := by
    intro h
    refine happ.oneLine ?_
    rcases trimSuffixSlash_cases appURL with hs | ⟨hs, -⟩
    · rw [hs]
      exact List.mem_append_left _ h
    · rwa [hs] at h
  have htrim : lineFeed ∉ trimSlashes p.route := by
    intro h
    rw [trimSlashes, List.mem_reverse] at h
    have hback := (List.dropWhile_suffix _).subset h
    exact hroute ((List.dropWhile_suffix _).subset (List.mem_reverse.mp hback))
  rw [xtreamProviderPublicBase]
  split
  · exact hbase
  · rw [List.mem_append, List.mem_cons, not_or, not_or]
    exact ⟨hbase, by decide, htrim⟩

theorem urlList_oneLine (happ : Absolute appURL) (h : lineFeed ∉ raw) :
    lineFeed ∉ rewriteM3UURLListWithCredentials L p c appURL raw := by
  intro hmem
  rcases mem_intercalate hmem with hcomma | ⟨part', hpart', hmem⟩
  · exact absurd (List.mem_singleton.mp hcomma) (by decide)
  · obtain ⟨part, hpart, rfl⟩ := List.mem_map.mp hpart'
    have hnot : lineFeed ∉ part := fun hd => h (mem_of_mem_splitOn hpart hd)
    split at hmem
    · next replacement hreplacement =>
      obtain ⟨target, -, hrewritten⟩ := Option.bind_eq_some_iff.mp hreplacement
      rw [List.mem_append, List.mem_append] at hmem
      rcases hmem with (hmem | hmem) | hmem
      · exact hnot ((List.takeWhile_prefix _).subset hmem)
      · exact (plain_spec _ ((rewritten_spec happ hrewritten).1 _ hmem)).2.2 rfl
      · exact hnot (mem_of_mem_trailing hmem)
    · exact hnot hmem

theorem afterQuote_suffix {q : Byte} {rest : Bytes} (h : afterQuote q s = some rest) :
    rest <:+ s := by
  rw [afterQuote] at h
  split at h
  · cases h
  · next e afterName hname =>
    split at h
    · cases h
    · split at h
      · cases h
      · next o value hvalue =>
        split at h
        · obtain rfl := Option.some.inj h
          have hinner : value <:+ afterName :=
            (List.suffix_cons o value).trans (hvalue ▸ List.dropWhile_suffix _)
          have houter : afterName <:+ s :=
            (List.suffix_cons e afterName).trans (hname ▸ List.dropWhile_suffix _)
          exact hinner.trans houter
        · cases h

theorem epgAttribute_subset {q : Byte} {front value : Bytes}
    (h : epgAttribute q s = some (front, value)) : front ⊆ s ∧ value ⊆ s := by
  rw [epgAttribute] at h
  split at h
  · cases h
  · split at h
    · cases h
    · next rest hrest =>
      split at h
      · obtain ⟨rfl, rfl⟩ := Prod.mk.inj (Option.some.inj h)
        refine ⟨List.take_subset _ _, fun d hd => ?_⟩
        have hsuffix := (afterQuote_suffix hrest).trans (List.drop_suffix _ _)
        exact hsuffix.subset ((List.takeWhile_prefix _).subset hd)
      · cases h

theorem replaceAttributes_oneLine {f : Bytes → Bytes} {q : Byte} (hq : q ≠ lineFeed)
    (hf : ∀ value, lineFeed ∉ value → lineFeed ∉ f value) (n : ℕ) (word : Bool)
    (h : lineFeed ∉ s) : lineFeed ∉ replaceAttributes f q n word s := by
  induction n generalizing word s with
  | zero =>
    rcases s with _ | ⟨b, s⟩
    · exact h
    · exact h
  | succ n ih =>
    rcases s with _ | ⟨b, s⟩
    · exact h
    · rw [replaceAttributes]
      split
      · next front value hmatch =>
        have hattribute : epgAttribute q (b :: s) = some (front, value) := by
          split at hmatch
          · cases hmatch
          · exact hmatch
        obtain ⟨hfront, hvalue⟩ := epgAttribute_subset hattribute
        rw [List.mem_append, List.mem_append, List.mem_cons, not_or, not_or, not_or]
        refine ⟨⟨fun hd => h (hfront hd), hf value fun hd => h (hvalue hd)⟩, hq.symm, ?_⟩
        exact ih false fun hd => h ((List.drop_suffix _ _).subset hd)
      · rw [List.mem_cons, not_or] at h ⊢
        exact ⟨h.1, ih _ h.2⟩

theorem rewriteM3ULine_oneLine (happ : Absolute appURL) {line : Bytes} (h : lineFeed ∉ line) :
    lineFeed ∉ rewriteM3ULine L p c appURL line := by
  by_cases hentry : isEntry (trimSpace line) = true
  · rw [rewriteM3ULine_entry hentry]
    rcases hfirst : rewriteM3UTargetWithCredentials L p c appURL (trimSpace line) with _ | out
    · exact h
    · rw [rewriteM3UTargetWithCredentials] at hfirst
      split at hfirst
      · cases hfirst
      · dsimp only at hfirst
        split at hfirst
        · cases hfirst
        · split at hfirst
          · cases hfirst
          · obtain ⟨y, hy, rfl⟩ := Option.map_eq_some_iff.mp hfirst
            rw [Option.getD_some, List.mem_append, not_or]
            have hplain := (rewritten_spec happ hy).1
            refine ⟨fun hd => (plain_spec _ (hplain _ hd)).2.2 rfl, fun hd => ?_⟩
            exact h (mem_of_mem_trimSpace ((List.dropWhile_suffix _).subset hd))
  · rw [rewriteM3ULine, if_neg hentry]
    split
    · rw [rewriteM3UEPGAttributesWithCredentials]
      have hlist : ∀ value, lineFeed ∉ value →
          lineFeed ∉ rewriteM3UURLListWithCredentials L p c appURL value :=
        fun value hvalue => urlList_oneLine happ hvalue
      exact replaceAttributes_oneLine (by decide) hlist _ _
        (replaceAttributes_oneLine (by decide) hlist _ _ h)
    · exact h

theorem rewriteOpaqueLine_oneLine (happ : Absolute appURL) (hroute : lineFeed ∉ p.route)
    {line : Bytes} (h : lineFeed ∉ line) :
    lineFeed ∉ rewriteOpaqueLine L p appURL sum256 S line := by
  rw [rewriteOpaqueLine]
  split
  · exact h
  · dsimp only
    split
    · exact h
    · next target _ =>
      split
      · exact h
      · split
        · exact h
        · next replacement hreplacement =>
          rw [storeMediaTarget] at hreplacement
          split at hreplacement
          · cases hreplacement
          · split at hreplacement
            · cases hreplacement
            · obtain rfl := Option.some.inj hreplacement
              have hmedia : lineFeed ∉ ascii "/_media/" := by decide
              rw [List.mem_append, List.mem_append, List.mem_append, not_or, not_or, not_or,
                mediaPublicURL, List.mem_append, List.mem_append, not_or, not_or]
              refine ⟨⟨⟨fun hd => h ((List.takeWhile_prefix _).subset hd),
                ⟨publicBase_oneLine happ hroute, hmedia⟩, fun hd => ?_⟩, fun hd => ?_⟩,
                fun hd => h (mem_of_mem_trailing hd)⟩
              · exact (plain_spec _ (plain_token sum256 p.id target.text _ hd)).2.2 rfl
              · exact h (mem_of_mem_trimSpace ((List.dropWhile_suffix _).subset hd))

/-! ## Playlists -/

/-- The lines after both passes. -/
theorem splitOn_rewritten (happ : Absolute appURL) (hroute : lineFeed ∉ p.route) (body : Bytes) :
    (rewriteOpaqueMediaM3U L p appURL sum256 S
        (rewriteM3UPlaylistWithCredentials L p c appURL body)).splitOn lineFeed =
      (body.splitOn lineFeed).map fun line =>
        rewriteOpaqueLine L p appURL sum256 S (rewriteM3ULine L p c appURL line) := by
  have hne : ∀ f : Bytes → Bytes, (body.splitOn lineFeed).map f ≠ [] :=
    fun f => mt List.map_eq_nil_iff.mp (List.splitOn_ne_nil _ _)
  have hlines : ∀ line ∈ body.splitOn lineFeed, lineFeed ∉ line :=
    Lines.sep_not_mem_splitOn body
  have hfirst : (rewriteM3UPlaylistWithCredentials L p c appURL body).splitOn lineFeed =
      (body.splitOn lineFeed).map (rewriteM3ULine L p c appURL) := by
    rw [rewriteM3UPlaylistWithCredentials, List.splitOn_intercalate _ _ (hne _)]
    intro line hline
    obtain ⟨line', hline', rfl⟩ := List.mem_map.mp hline
    exact rewriteM3ULine_oneLine happ (hlines line' hline')
  rw [rewriteOpaqueMediaM3U, hfirst, List.map_map, Function.comp_def,
    List.splitOn_intercalate _ _ (hne _)]
  intro line hline
  obtain ⟨line', hline', rfl⟩ := List.mem_map.mp hline
  have hfirst' := rewriteM3ULine_oneLine (L := L) (p := p) (c := c) happ (hlines line' hline')
  exact rewriteOpaqueLine_oneLine happ hroute hfirst'

/-- **A playlist stays inside the proxy** if and only if no entry on the web names its host without
a scheme, unless that is the host of the proxy. -/
theorem playlist_stays_inside_iff (L : Library) (p : Provider) (c : RewriteCredentials)
    (sum256 : Bytes → Bytes) (happ : Absolute appURL) (hroute : lineFeed ∉ p.route)
    (hstore : S.Working) (body : Bytes) :
    StaysInside L p appURL body (rewriteOpaqueMediaM3U L p appURL sum256 S
        (rewriteM3UPlaylistWithCredentials L p c appURL body)) ↔
      ∀ line ∈ body.splitOn lineFeed, isEntry (trimSpace line) = true →
        ∀ target, resolved p (urlPart line) = some target → OnWeb target →
          NetworkPath (urlPart line) → isLocalProxyURL L appURL target.text = true := by
  rw [StaysInside, splitOn_rewritten happ hroute, List.forall₂_map_right_iff, List.forall₂_same]
  exact forall₂_congr fun line _ => line_inside_iff happ hstore line

/-! ## Samples -/

/-- The address of the proxy. -/
def sampleApp : Bytes := ascii "http://app"

/-- Credentials of a client. -/
def sampleCredentials : RewriteCredentials := ⟨ascii "bob", ascii "a", ascii "bob", ascii "a"⟩

/-- A connection to Redis that takes every token. -/
def sampleStore : TokenStore := ⟨true, fun _ => true⟩

/-- Both passes. -/
def sampleRewrite (body : Bytes) : Bytes :=
  rewriteOpaqueMediaM3U asciiLibrary (sampleProvider []) sampleApp id sampleStore
    (rewriteM3UPlaylistWithCredentials asciiLibrary (sampleProvider []) sampleCredentials sampleApp
      body)

theorem absolute_sampleApp : Absolute sampleApp where
  parsed := by
    have hparse : Reference.parse (trimSuffixSlash sampleApp) =
        some ⟨ascii "http", [], none, ascii "app", [], [], false, false, [], [], []⟩ := by
      decide +kernel
    exact ⟨_, hparse, by decide, by decide⟩
  oneLine := by decide

theorem working_sampleStore : sampleStore.Working := ⟨rfl, fun _ => rfl⟩

theorem route_oneLine : lineFeed ∉ (sampleProvider []).route := by decide

/-- An entry on another host. -/
def otherHost : Bytes := ascii "//cdn/x.ts"

/-- It without a scheme. -/
def otherTarget : Reference :=
  ⟨[], [], none, ascii "cdn", ascii "/x.ts", [], false, false, [], [], []⟩

theorem networkPath_otherHost : NetworkPath (urlPart otherHost) :=
  ⟨otherTarget, by decide +kernel, rfl, by decide +kernel⟩

/-- The reference without a scheme is neither rewritten nor wrapped. -/
theorem other_host_stays : sampleRewrite otherHost = otherHost ∧
    ¬ StaysInside asciiLibrary (sampleProvider []) sampleApp otherHost
      (sampleRewrite otherHost) := by
  have hentry : isEntry (trimSpace otherHost) = true := by decide +kernel
  have hlines : otherHost.splitOn lineFeed = [otherHost] := by decide +kernel
  have hout : (sampleRewrite otherHost).splitOn lineFeed = [otherHost] := by
    rw [sampleRewrite, splitOn_rewritten absolute_sampleApp route_oneLine, hlines,
      List.map_singleton, networkPath_stays _ _ _ _ absolute_sampleApp working_sampleStore hentry
        networkPath_otherHost]
  constructor
  · have hjoin : [lineFeed].intercalate ((sampleRewrite otherHost).splitOn lineFeed) =
        sampleRewrite otherHost := List.intercalate_splitOn lineFeed
    rw [hout, List.intercalate_singleton] at hjoin
    exact hjoin.symm
  · intro h
    rw [StaysInside, hlines, hout] at h
    rcases h with _ | ⟨hline, -⟩
    have hstays := networkPath_stays asciiLibrary (sampleProvider []) sampleCredentials id
      absolute_sampleApp working_sampleStore hentry networkPath_otherHost
    have hinside : LineInside asciiLibrary (sampleProvider []) sampleApp otherHost
        (rewriteOpaqueLine asciiLibrary (sampleProvider []) sampleApp id sampleStore
          (rewriteM3ULine asciiLibrary (sampleProvider []) sampleCredentials sampleApp
            otherHost)) := by
      rw [hstays]
      exact hline
    have hresolved : resolved (sampleProvider []) (urlPart otherHost) =
        some { otherTarget with scheme := ascii "http" } := by decide +kernel
    have hlocal := (line_inside_iff absolute_sampleApp working_sampleStore otherHost).mp hinside
      hentry _ hresolved ⟨by decide +kernel, by decide +kernel⟩ networkPath_otherHost
    exact absurd hlocal (by decide +kernel)

/-- A stream elsewhere, with options. -/
def sampleEntry : Bytes := ascii "http://cdn/x.ts|k"

/-- It is wrapped. -/
theorem playlist_stays_inside_sample :
    StaysInside asciiLibrary (sampleProvider []) sampleApp sampleEntry
      (sampleRewrite sampleEntry) := by
  refine (playlist_stays_inside_iff asciiLibrary (sampleProvider []) sampleCredentials id
    absolute_sampleApp route_oneLine working_sampleStore sampleEntry).mpr ?_
  have hlines : sampleEntry.splitOn lineFeed = [sampleEntry] := by decide +kernel
  intro line hline _ target _ _ hnetwork
  rw [hlines, List.mem_singleton] at hline
  subst hline
  obtain ⟨target', htarget, hscheme, -⟩ := hnetwork
  have hparse : Reference.parse (trimSpace (urlPart sampleEntry)) =
      some ⟨ascii "http", [], none, ascii "cdn", ascii "/x.ts", [], false, false, [], [], []⟩ := by
    decide +kernel
  rw [hparse] at htarget
  rw [← Option.some.inj htarget] at hscheme
  exact absurd hscheme (by decide +kernel)

end IptvProxy.Media.M3u
