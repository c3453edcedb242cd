import IptvProxy.Catalog.Body
import IptvProxy.Lib.Rfc3986
import IptvProxy.Media.Reference
import IptvProxy.Xtream.Emitted

/-!
# What the translation leaves alone

`buildTransparentUpstreamURL` works on the decoded path, which it splits and puts together again,
and on the parameters that `url.ParseQuery` reads, which it encodes again. `translation_keeps_iff`
says which requests keep everything but their credentials: no part of the path may hold an encoded
slash, the path of the provider's host is written as Go writes it, and the parameters survive
(`Rfc3986.Survives`).
-/

namespace IptvProxy.Media

open Xtream Catchup Catalog
open Percent (percent space)

/-! ## The upstream URL -/

/-- The parts of a URL that the translator reads. -/
def Reference.url (u : Reference) : URL := ⟨u.scheme, u.host, u.path, u.rawQuery⟩

/-- The URL that `buildTransparentUpstreamURL` returns: the parsed host with another `Path` and
`RawQuery`. -/
def upstream (base : Reference) (t : Translated) : Reference :=
  { base with path := t.url.path, rawQuery := t.url.rawQuery }

/-! ## What should stay -/

/-- The segments of a request path that are left after the route; an empty rest is the root. -/
def afterRoute (matched : MatchType) (segments : List Bytes) : List Bytes :=
  match matched with
  | .route => if segments.tail = [] then [[]] else segments.tail
  | .default => segments

/-- The segments of the client's escaped path after the route. -/
def clientSegments (matched : MatchType) (escaped : Bytes) : List Bytes :=
  afterRoute matched (splitSlash (trimPrefixSlash escaped))

/-- The segments that the translator works on. -/
def pathSegments (resolved : Resolved) : List Bytes :=
  splitSlash (trimPrefixSlash resolved.remainingPath)

/-- The places of the recognised pairs. -/
def credentialMask (p : Provider) : List Bytes → List Bool
  | [] => []
  | [_] => [false]
  | segment :: next :: segments =>
    if providerHasClientUsername p segment then true :: true :: credentialMask p segments
    else false :: credentialMask p (next :: segments)

/-- The provider's base path. -/
def basePath (base : Reference) : Bytes := trimSuffixSlash base.escapedPath

/-- The escaped path is the base path and as many segments as the client has sent, and those that
are no credentials are decoded to the same texts. -/
def PathKept (p : Provider) (base : Reference) (client segments : List Bytes) (escaped : Bytes) :
    Prop :=
  ∃ sent : List Bytes, (∀ s ∈ sent, slash ∉ s) ∧
    escaped = basePath base ++ sent.flatMap (slash :: ·) ∧ sent.length = client.length ∧
    ∀ i, (credentialMask p segments).getD i false = false →
      (sent[i]?).bind (Percent.unescape false) = (client[i]?).bind (Percent.unescape false)

/-- The names of the recognised credentials of a query. -/
def recognisedNames (q : Values) : List Bytes :=
  (completePairs q.get).flatMap fun k => [k.1, k.2]

/-- The parameters other than the recognised credentials are the same, as RFC 3986 reads them. -/
def QueryKept (r : Xtream.Request) (rawQuery : Bytes) : Prop :=
  ∀ k ∉ recognisedNames r.query, (Rfc3986.read rawQuery).values k =
    (Rfc3986.read r.rawQuery).values k

/-- The path can be kept. -/
structure PathPlain (p : Provider) (base : Reference) (client segments : List Bytes) : Prop where
  /-- the base path is written as Go writes it, or all of it is kept because nothing follows -/
  base : Percent.escape pathMode (trimSuffixSlash base.path) = basePath base ∨
    (base.path = trimSuffixSlash base.path ++ [slash] ∧ segments = [[]] ∧
      base.escapedPath = basePath base ++ [slash])
  /-- the segments are those of the decoded path: no slash is encoded -/
  decoded : client.map (Percent.unescape false) = segments.map some
  /-- the provider's credentials are segments -/
  slashes : recognisedPath p segments ≠ [] →
    slash ∉ p.upstreamUsername ∧ slash ∉ p.upstreamPassword

variable {L : Library} {p : Provider} {base : Reference} {u : Reference} {s x escaped path : Bytes}

/-! ## Paths as texts -/

theorem trimSuffixSlash_concat (s : Bytes) : trimSuffixSlash (s ++ [slash]) = s := by
  rw [trimSuffixSlash, List.reverse_append]
  exact List.reverse_reverse s

theorem trimSuffixSlash_cases (s : Bytes) :
    s = trimSuffixSlash s ++ [slash] ∨ (trimSuffixSlash s = s ∧ ∀ t, s ≠ t ++ [slash]) := by
  rcases List.eq_nil_or_concat' s with rfl | ⟨t, c, rfl⟩
  · exact .inr ⟨rfl, fun t h => by simp at h⟩
  · by_cases hc : c = slash
    · subst hc
      rw [trimSuffixSlash_concat]
      exact .inl rfl
    · refine .inr ⟨?_, fun t' h => hc (by simpa using (List.append_inj' h rfl).2)⟩
      rw [trimSuffixSlash, List.reverse_append]
      simp [trimPrefixSlash, hc]

/-- What is printed of the path of a parsed URL is read back. -/
theorem unescape_escapedReference (u : Reference) :
    Percent.unescape false u.escapedPath = some u.path := by
  rw [Reference.escapedPath]
  split
  · next h =>
    rw [h.2]
    decide
  · rw [escapedText]
    split
    · next h => exact h.2.2
    · exact Percent.unescape_escape (m := pathMode) u.path

/-- The raw path of a parsed URL means its path. -/
def RawMeant (u : Reference) : Prop := u.rawPath ≠ [] → Percent.unescape false u.rawPath = some u.path

theorem rawMeant_setPath {v : Reference} (h : u.setPath s = some v) : RawMeant v := by
  obtain ⟨x, hx, rfl⟩ := Option.map_eq_some_iff.mp h
  intro hne
  dsimp only [rawText] at hne ⊢
  split at hne
  · exact absurd rfl hne
  · next hraw =>
    rw [if_neg hraw]
    exact hx

theorem rawMeant_parseHierarchy {v : Reference} (hraw : u.rawPath = [])
    (h : parseHierarchy u s = some v) : RawMeant v := by
  rw [parseHierarchy] at h
  split at h
  · obtain rfl := Option.some.inj h
    exact fun hne => absurd hraw hne
  · split at h
    · cases h
    · split at h
      · split at h
        · cases h
        · exact rawMeant_setPath h
      · exact rawMeant_setPath h

theorem rawMeant_parse (h : Reference.parse s = some u) : RawMeant u := by
  have hplain : ∀ {s u}, parseWithoutFragment s = some u → RawMeant u := by
    intro s u h
    rw [parseWithoutFragment] at h
    split at h
    · cases h
    · split at h
      · obtain rfl := Option.some.inj h
        exact fun hne => absurd rfl hne
      · split at h
        · cases h
        · exact rawMeant_parseHierarchy rfl h
  rw [Reference.parse] at h
  dsimp only at h
  split at h
  · cases h
  · next v hv =>
    split at h
    · obtain rfl := Option.some.inj h
      exact hplain hv
    · obtain ⟨f, -, rfl⟩ := Option.map_eq_some_iff.mp h
      have hmeant : RawMeant v := hplain hv
      exact hmeant

/-! ## Segments -/

theorem escapeByte_slash : Percent.escapeByte pathMode slash = [slash] := by decide

theorem slash_not_mem_escapeByte : ∀ c : Byte, c ≠ slash →
    slash ∉ Percent.escapeByte pathMode c := by decide +kernel

theorem splitSlash_escape (s : Bytes) : splitSlash (Percent.escape pathMode s) =
    (splitSlash s).map (Percent.escape pathMode) :=
  Rfc3986.splitOn_escape escapeByte_slash slash_not_mem_escapeByte s

theorem slash_not_mem_escape (h : slash ∉ s) : slash ∉ Percent.escape pathMode s := by
  intro hmem
  obtain ⟨c, hc, hcmem⟩ := List.mem_flatMap.mp hmem
  refine slash_not_mem_escapeByte c ?_ hcmem
  rintro rfl
  exact h hc

theorem splitSlash_unescape (h : Percent.unescape false s = some x) :
    (∀ l ∈ splitSlash s, ∃ y, Percent.unescape false l = some y) ∧
      splitSlash x = (splitSlash s).flatMap fun l =>
        splitSlash ((Percent.unescape false l).getD []) :=
  Rfc3986.splitOn_unescape (by decide) (by decide) h

theorem splitSlash_ne_nil (s : Bytes) : splitSlash s ≠ [] := List.splitOn_ne_nil _ _

theorem one_le_length_splitSlash (s : Bytes) : 1 ≤ (splitSlash s).length :=
  List.length_pos_of_ne_nil (splitSlash_ne_nil s)

/-- One part has no slash. -/
theorem splitSlash_of_length (h : (splitSlash s).length = 1) : splitSlash s = [s] ∧ slash ∉ s := by
  obtain ⟨t, ht⟩ := List.length_eq_one_iff.mp h
  have hs : s = t := by
    have hjoin := joinSlash_splitSlash s
    rw [ht] at hjoin
    simpa [joinSlash] using hjoin.symm
  refine ⟨by rw [ht, hs], ?_⟩
  have hmem := slash_not_mem_splitSlash s t (by rw [ht]; exact List.mem_singleton_self t)
  rw [hs]
  exact hmem

theorem flatMap_slash {segments : List Bytes} (h : segments ≠ []) :
    segments.flatMap (slash :: ·) = slash :: joinSlash segments := by
  induction segments with
  | nil => exact absurd rfl h
  | cons s segments ih =>
    rw [List.flatMap_cons, joinSlash_cons]
    by_cases hnil : segments = []
    · rw [hnil, if_pos rfl]
      simp
    · rw [if_neg hnil, ih hnil]
      rfl

/-- Parts of parts are more, or the same. -/
theorem length_flatMap_splitSlash {α : Type} (f : α → Bytes) (l : List α) :
    l.length ≤ (l.flatMap fun a => splitSlash (f a)).length ∧
      ((l.flatMap fun a => splitSlash (f a)).length = l.length →
        (l.flatMap fun a => splitSlash (f a)) = l.map f ∧ ∀ a ∈ l, slash ∉ f a) := by
  induction l with
  | nil => exact ⟨le_rfl, fun _ => ⟨rfl, fun a ha => by cases ha⟩⟩
  | cons a l ih =>
    obtain ⟨hle, heq⟩ := ih
    have hone := one_le_length_splitSlash (f a)
    rw [List.flatMap_cons, List.length_append, List.length_cons]
    refine ⟨by omega, fun h => ?_⟩
    obtain ⟨hfirst, hslash⟩ := splitSlash_of_length (s := f a) (by omega)
    obtain ⟨hrest, hall⟩ := heq (by omega)
    rw [hfirst, hrest]
    refine ⟨rfl, fun b hb => ?_⟩
    rcases List.mem_cons.mp hb with rfl | hb
    · exact hslash
    · exact hall b hb

/-! ## The segments of a translated path -/

/-- The translation changes recognised pairs only. -/
theorem translatePath_spec {segments sent : List Bytes} {selected user : User} {first : Option ℕ}
    (h : translatePath L p segments selected = .ok (sent, user, first)) :
    sent.length = segments.length ∧
      (∀ i, (credentialMask p segments).getD i false = false → sent[i]? = segments[i]?) ∧
      (∀ s ∈ sent, s ∈ segments ∨ (recognisedPath p segments ≠ [] ∧
        (s = p.upstreamUsername ∨ s = p.upstreamPassword))) ∧
      (recognisedPath p segments ≠ [] → p.upstreamUsername ∈ sent ∧ p.upstreamPassword ∈ sent) := by
  induction segments using recognisedPath.induct p generalizing selected sent user first with
  | case1 =>
    obtain ⟨rfl, -⟩ := Prod.mk.inj (Except.ok.inj h)
    exact ⟨rfl, fun _ _ => rfl, fun s hs => .inl hs, fun h => absurd rfl h⟩
  | case2 segment =>
    obtain ⟨rfl, -⟩ := Prod.mk.inj (Except.ok.inj h)
    exact ⟨rfl, fun _ _ => rfl, fun s hs => .inl hs, fun h => absurd rfl h⟩
  | case3 segment next segments hknown ih =>
    rw [translatePath, if_pos hknown] at h
    rw [credentialMask, if_pos hknown, recognisedPath, if_pos hknown]
    split at h
    · cases h
    · split at h
      · cases h
      · next rest _ _ hrest =>
        obtain ⟨rfl, -⟩ := Prod.mk.inj (Except.ok.inj h)
        obtain ⟨hlength, hmask, hmem, -⟩ := ih hrest
        refine ⟨by rw [List.length_cons, List.length_cons, hlength]; rfl, ?_, ?_, ?_⟩
        · intro i hi
          rcases i with _ | _ | i
          · cases hi
          · cases hi
          · exact hmask i hi
        · intro s hs
          rcases List.mem_cons.mp hs with rfl | hs
          · exact .inr ⟨List.cons_ne_nil _ _, .inl rfl⟩
          · rcases List.mem_cons.mp hs with rfl | hs
            · exact .inr ⟨List.cons_ne_nil _ _, .inr rfl⟩
            · rcases hmem s hs with hs | ⟨-, hs⟩
              · exact .inl (List.mem_cons_of_mem _ (List.mem_cons_of_mem _ hs))
              · exact .inr ⟨List.cons_ne_nil _ _, hs⟩
        · intro _
          exact ⟨List.mem_cons_self, List.mem_cons_of_mem _ List.mem_cons_self⟩
  | case4 segment next segments hknown ih =>
    rw [translatePath, if_neg hknown] at h
    rw [credentialMask, if_neg hknown, recognisedPath, if_neg hknown]
    split at h
    · cases h
    · next rest _ _ hrest =>
      obtain ⟨rfl, -⟩ := Prod.mk.inj (Except.ok.inj h)
      obtain ⟨hlength, hmask, hmem, hcredentials⟩ := ih hrest
      refine ⟨by rw [List.length_cons, List.length_cons, hlength], ?_, ?_, ?_⟩
      · intro i hi
        rcases i with _ | i
        · rfl
        · exact hmask i hi
      · intro s hs
        rcases List.mem_cons.mp hs with rfl | hs
        · exact .inl List.mem_cons_self
        · exact (hmem s hs).imp_left (List.mem_cons_of_mem _)
      · intro hne
        obtain ⟨hname, hpass⟩ := hcredentials hne
        exact ⟨List.mem_cons_of_mem _ hname, List.mem_cons_of_mem _ hpass⟩

/-! ## The upstream path -/

/-- The path of an accepted request at the provider. -/
def upstreamPath (base : Reference) (sent : List Bytes) : Bytes :=
  trimSuffixSlash base.path ++ slash :: joinSlash sent

/-- A path with a slash is printed from its text, or its raw text means it. -/
theorem escapedPath_cases (hslash : slash ∈ u.path) :
    u.escapedPath = Percent.escape pathMode u.path ∨
      (u.rawPath ≠ [] ∧ Percent.unescape false u.rawPath = some u.path ∧
        u.escapedPath = u.rawPath) := by
  rw [Reference.escapedPath, if_neg, escapedText]
  · split
    · next h => exact .inr ⟨h.1, h.2.2, rfl⟩
    · exact .inl rfl
  · rintro ⟨-, hstar⟩
    rw [hstar] at hslash
    exact absurd hslash (by decide)

/-- The upstream path is printed from its text, or it is the path of the host. -/
theorem escapedPath_upstream (hraw : RawMeant base) {t : Translated} {sent : List Bytes}
    (hpath : t.url.path = upstreamPath base sent) :
    (upstream base t).escapedPath = Percent.escape pathMode (upstreamPath base sent) ∨
      upstreamPath base sent = base.path := by
  have hslash : slash ∈ (upstream base t).path := by
    change slash ∈ t.url.path
    rw [hpath, upstreamPath]
    exact List.mem_append_right _ List.mem_cons_self
  rcases escapedPath_cases hslash with h | ⟨hne, hmeans, -⟩
  · left
    rw [h]
    exact congrArg _ hpath
  · right
    have hbase := hraw hne
    rw [← hpath]
    exact Option.some.inj (hmeans.symm.trans hbase)

/-- Then it ends in a slash, and nothing follows. -/
theorem nothing_follows {sent : List Bytes} (h : upstreamPath base sent = base.path) :
    base.path = trimSuffixSlash base.path ++ [slash] ∧ joinSlash sent = [] := by
  rcases trimSuffixSlash_cases base.path with hend | ⟨hsame, -⟩
  · refine ⟨hend, ?_⟩
    rw [upstreamPath] at h
    have htail := List.append_cancel_left (h.trans hend)
    exact (List.cons.inj htail).2
  · have hlength := congrArg List.length h
    rw [upstreamPath, hsame, List.length_append, List.length_cons] at hlength
    omega

theorem escape_upstreamPath (base : Reference) (sent : List Bytes) :
    Percent.escape pathMode (upstreamPath base sent) =
      Percent.escape pathMode (trimSuffixSlash base.path) ++
        slash :: Percent.escape pathMode (joinSlash sent) := by
  rw [upstreamPath, Percent.escape, List.flatMap_append, List.flatMap_cons, escapeByte_slash]
  rfl

/-- What the base path means: the path of the host without a slash at its end, unless that slash is
encoded. -/
theorem unescape_basePath (base : Reference) :
    Percent.unescape false (basePath base) = some (trimSuffixSlash base.path) ∨
      (Percent.unescape false (basePath base) = some (trimSuffixSlash base.path ++ [slash]) ∧
        ∀ t, basePath base ≠ t ++ [slash]) := by
  have hread := unescape_escapedReference base
  rcases trimSuffixSlash_cases base.escapedPath with hend | ⟨hsame, hnot⟩
  · rw [hend] at hread
    obtain ⟨y, z, hy, hz, hpath⟩ := Rfc3986.unescape_separator (by decide) (by decide) hread
    obtain rfl := Option.some.inj hz
    left
    rw [hpath, trimSuffixSlash_concat]
    exact hy
  · rw [basePath, hsame]
    rcases trimSuffixSlash_cases base.path with hend | ⟨hpath, -⟩
    · right
      rw [← hend]
      exact ⟨hread, hnot⟩
    · left
      rw [hpath]
      exact hread

/-- Two texts before a slash that mean the same are the same. -/
theorem eq_basePath {a b : Bytes} (h : Percent.escape pathMode (trimSuffixSlash base.path) ++
    slash :: a = basePath base ++ slash :: b) :
    Percent.escape pathMode (trimSuffixSlash base.path) = basePath base := by
  have hescape : Percent.unescape false (Percent.escape pathMode (trimSuffixSlash base.path)) =
      some (trimSuffixSlash base.path) := Percent.unescape_escape (m := pathMode) _
  have hbase := unescape_basePath base
  rcases List.append_eq_append_iff.mp h with ⟨z, hz, hrest⟩ | ⟨z, hz, hrest⟩
  · -- the base path is longer
    rw [hz, Rfc3986.unescape_append hescape] at hbase
    rcases hbase with hbase | ⟨hbase, hnot⟩
    · obtain ⟨y, hy, hnil⟩ := Option.map_eq_some_iff.mp hbase
      rw [List.append_right_eq_self] at hnil
      subst hnil
      rw [hz, Rfc3986.unescape_eq_nil hy, List.append_nil]
    · obtain ⟨y, hy, hslash⟩ := Option.map_eq_some_iff.mp hbase
      obtain rfl := List.append_cancel_left hslash
      rcases z with _ | ⟨c, z⟩
      · cases hy
      · obtain rfl := (List.cons.inj hrest).1
        rw [Percent.unescape_cons (by decide)] at hy
        obtain ⟨w, hw, hcons⟩ := Option.map_eq_some_iff.mp hy
        obtain rfl := (List.cons.inj hcons).2
        rw [Rfc3986.unescape_eq_nil hw] at hnot
        exact absurd rfl (hnot _)
  · -- the base path is shorter
    rw [hz] at hescape
    have hlong : ∀ x, Percent.unescape false (basePath base) = some x →
        ∃ y, Percent.unescape false z = some y ∧ x ++ y = trimSuffixSlash base.path := by
      intro x hx
      rw [Rfc3986.unescape_append hx] at hescape
      exact Option.map_eq_some_iff.mp hescape
    rcases hbase with hbase | ⟨hbase, -⟩
    · obtain ⟨y, hy, hnil⟩ := hlong _ hbase
      rw [List.append_right_eq_self] at hnil
      subst hnil
      rw [hz, Rfc3986.unescape_eq_nil hy, List.append_nil]
    · obtain ⟨y, -, hlength⟩ := hlong _ hbase
      have := congrArg List.length hlength
      simp only [List.length_append, List.length_cons, List.length_nil] at this
      omega

/-! ## Client segments -/

/-- The text of a part that can be decoded. -/
def decoded (s : Bytes) : Bytes := (Percent.unescape false s).getD []

theorem map_unescape {segments : List Bytes}
    (h : ∀ s ∈ segments, ∃ y, Percent.unescape false s = some y) :
    segments.map (Percent.unescape false) = (segments.map decoded).map some := by
  rw [List.map_map]
  refine List.map_congr_left fun s hs => ?_
  obtain ⟨y, hy⟩ := h s hs
  rw [Function.comp_apply, decoded, hy]
  rfl

theorem afterRoute_ne_nil (matched : MatchType) {segments : List Bytes} (h : segments ≠ []) :
    afterRoute matched segments ≠ [] := by
  cases matched with
  | default => exact h
  | route =>
    rw [afterRoute]
    split
    · exact List.cons_ne_nil _ _
    · next hne => exact hne

theorem afterRoute_cons (s : Bytes) (segments : List Bytes) :
    afterRoute .route (s :: segments) = if segments = [] then [[]] else segments := rfl

/-- Decoding makes more segments, or the same; only a rest that is empty may come from a route with
an encoded slash. -/
def Decoded (client segments : List Bytes) : Prop :=
  client.length ≤ segments.length ∧ (segments.length = client.length →
    client.map (Percent.unescape false) = segments.map some ∨
      (client = [[]] ∧ segments.length = 1))

theorem afterRoute_decoded (matched : MatchType) {parts : List Bytes} (hne : parts ≠ [])
    (hparts : ∀ s ∈ parts, ∃ y, Percent.unescape false s = some y) :
    Decoded (afterRoute matched parts)
      (afterRoute matched (parts.flatMap fun s => splitSlash (decoded s))) := by
  cases matched with
  | default =>
    obtain ⟨hle, heq⟩ := length_flatMap_splitSlash decoded parts
    refine ⟨hle, fun h => .inl ?_⟩
    rw [afterRoute, afterRoute, (heq h).1, map_unescape hparts]
  | route =>
    obtain ⟨first, rest, rfl⟩ := List.exists_cons_of_ne_nil hne
    obtain ⟨x, xs, hx⟩ := List.exists_cons_of_ne_nil (splitSlash_ne_nil (decoded first))
    obtain ⟨hle, heq⟩ := length_flatMap_splitSlash decoded rest
    rw [List.flatMap_cons, hx, List.cons_append, afterRoute_cons, afterRoute_cons]
    by_cases hrest : rest = []
    · rw [if_pos hrest, hrest, List.flatMap_nil, List.append_nil]
      refine ⟨?_, fun h => .inr ⟨rfl, h⟩⟩
      split
      · exact le_rfl
      · next hxs => exact List.length_pos_of_ne_nil hxs
    · have hsegments : xs ++ rest.flatMap (fun s => splitSlash (decoded s)) ≠ [] := by
        intro hnil
        have hlength := congrArg List.length hnil
        rw [List.length_append, List.length_nil] at hlength
        have := List.length_pos_of_ne_nil hrest
        omega
      rw [if_neg hrest, if_neg hsegments, Decoded, List.length_append]
      refine ⟨by omega, fun h => .inl ?_⟩
      have hxs : xs = [] := List.length_eq_zero_iff.mp (by omega)
      rw [hxs, List.nil_append, (heq (by rw [hxs, List.length_nil] at h; omega)).1]
      exact map_unescape fun s hs => hparts s (List.mem_cons_of_mem _ hs)

/-- The segments that the translator works on are those of the decoded path. -/
theorem pathSegments_eq {providers : List Provider} {resolved : Resolved}
    (h : Resolver.resolve L providers path = .ok resolved) :
    pathSegments resolved = afterRoute resolved.matchedBy (splitSlash (trimPrefixSlash path)) := by
  have htrim : ∀ s, trimPrefixSlash (slash :: s) = s := fun s => by
    rw [trimPrefixSlash, if_pos rfl]
  rw [Resolver.resolve] at h
  split at h
  · cases h
  · split at h
    · obtain rfl := Except.ok.inj h
      rw [pathSegments, htrim, afterRoute]
      split
      · next hnil =>
        rw [hnil]
        rfl
      · next hne =>
        refine splitSlash_joinSlash (fun s hs => ?_) hne
        exact slash_not_mem_splitSlash _ s (List.mem_of_mem_tail hs)
    · split at h
      · obtain rfl := Except.ok.inj h
        rw [pathSegments, afterRoute]
        split
        · next hnil =>
          rw [hnil]
          rfl
        · rfl
      · cases h

/-- The slash at the start of a path stands for itself. -/
theorem unescape_trimPrefixSlash (hstart : escaped.head? ≠ some percent)
    (h : Percent.unescape false escaped = some path) :
    Percent.unescape false (trimPrefixSlash escaped) = some (trimPrefixSlash path) := by
  rcases escaped with _ | ⟨c, rest⟩
  · obtain rfl := Option.some.inj h
    rfl
  · have hc : c ≠ percent := fun hc => hstart (congrArg some hc)
    rw [Percent.unescape_cons hc] at h
    obtain ⟨y, hy, rfl⟩ := Option.map_eq_some_iff.mp h
    rw [trimPrefixSlash, trimPrefixSlash]
    simp only [Bool.false_and, Bool.false_eq_true, if_false]
    split
    · exact hy
    · rw [Percent.unescape_cons hc, hy]
      rfl

/-- The client's segments and the translator's. -/
theorem decoded_clientSegments {providers : List Provider} {resolved : Resolved}
    (hstart : escaped.head? ≠ some percent) (hpath : Percent.unescape false escaped = some path)
    (hresolve : Resolver.resolve L providers path = .ok resolved) :
    Decoded (clientSegments resolved.matchedBy escaped) (pathSegments resolved) := by
  obtain ⟨hparts, hsplit⟩ := splitSlash_unescape (unescape_trimPrefixSlash hstart hpath)
  rw [pathSegments_eq hresolve, hsplit]
  exact afterRoute_decoded _ (splitSlash_ne_nil _) hparts

theorem splitSlash_joinSlash_flatMap {segments : List Bytes} (h : segments ≠ []) :
    splitSlash (joinSlash segments) = segments.flatMap splitSlash := by
  induction segments with
  | nil => exact absurd rfl h
  | cons s segments ih =>
    rw [joinSlash_cons, List.flatMap_cons]
    by_cases hnil : segments = []
    · rw [hnil, if_pos rfl, List.append_nil, List.flatMap_nil, List.append_nil]
    · rw [if_neg hnil, ← ih hnil]
      exact List.splitOn_append_cons_self s (joinSlash segments)

theorem eq_singleton_of_joinSlash {segments : List Bytes} (hne : segments ≠ [])
    (h : joinSlash segments = []) : segments = [[]] := by
  obtain ⟨s, rest, rfl⟩ := List.exists_cons_of_ne_nil hne
  rw [joinSlash_cons] at h
  obtain ⟨rfl, hrest⟩ := List.append_eq_nil_iff.mp h
  by_cases hnil : rest = []
  · rw [hnil]
  · rw [if_neg hnil] at hrest
    cases hrest

/-- What is sent for the segments, decoded. -/
theorem unescape_escaped_segment (sent : List Bytes) (i : ℕ) :
    ((sent.map (Percent.escape pathMode))[i]?).bind (Percent.unescape false) = sent[i]? := by
  rw [List.getElem?_map]
  rcases sent[i]? with _ | s
  · rfl
  · exact Percent.unescape_escape (m := pathMode) s

/-! ## Kept paths -/

section

variable {client segments sent : List Bytes} {selected user : User} {first : Option ℕ}
  {t : Translated}

/-- A single segment is not a pair. -/
theorem credentialMask_single (s : Bytes) (i : ℕ) :
    (credentialMask p [s]).getD i false = false := by
  rcases i with _ | i
  · rfl
  · rfl

/-- One segment is sent as it is. -/
theorem sent_single (htranslate : translatePath L p segments selected = .ok (sent, user, first))
    (h : segments.length = 1) : sent = segments := by
  obtain ⟨s, rfl⟩ := List.length_eq_one_iff.mp h
  obtain ⟨rfl, -⟩ := Prod.mk.inj (Except.ok.inj htranslate)
  rfl

theorem upstream_escapedPath_of_eq (h : t.url.path = base.path) :
    (upstream base t).escapedPath = base.escapedPath := by
  have hsame : (upstream base t).path = base.path := h
  rw [Reference.escapedPath, Reference.escapedPath, hsame]
  rfl

/-- A path that can be kept is kept. -/
theorem pathKept_of_plain (hraw : RawMeant base)
    (htranslate : translatePath L p segments selected = .ok (sent, user, first))
    (hslash : ∀ s ∈ segments, slash ∉ s) (hne : segments ≠ [])
    (hpath : t.url.path = upstreamPath base sent) (h : PathPlain p base client segments) :
    PathKept p base client segments (upstream base t).escapedPath := by
  obtain ⟨hlength, hmask, hmem, -⟩ := translatePath_spec htranslate
  have hsent : ∀ s ∈ sent, slash ∉ s := by
    intro s hs
    rcases hmem s hs with hs | ⟨hpairs, rfl | rfl⟩
    · exact hslash s hs
    · exact (h.slashes hpairs).1
    · exact (h.slashes hpairs).2
  have hsentne : sent ≠ [] := List.ne_nil_of_length_pos
    (by rw [hlength]; exact List.length_pos_of_ne_nil hne)
  have hclient : client.length = segments.length := by
    have := congrArg List.length h.decoded
    rwa [List.length_map, List.length_map] at this
  refine ⟨sent.map (Percent.escape pathMode), ?_, ?_, ?_, ?_⟩
  · intro s hs
    obtain ⟨s', hs', rfl⟩ := List.mem_map.mp hs
    exact slash_not_mem_escape (hsent s' hs')
  · have hescaped : Percent.escape pathMode (upstreamPath base sent) =
        Percent.escape pathMode (trimSuffixSlash base.path) ++
          (sent.map (Percent.escape pathMode)).flatMap (slash :: ·) := by
      rw [escape_upstreamPath, flatMap_slash (by simpa using hsentne)]
      congr 2
      have hsplit := splitSlash_escape (joinSlash sent)
      rw [splitSlash_joinSlash hsent hsentne] at hsplit
      rw [← hsplit, joinSlash_splitSlash]
    rcases h.base with hbase | ⟨hslashend, hsegments, hend⟩
    · rcases escapedPath_upstream hraw hpath with h | hnothing
      · rw [h, hescaped, hbase]
      · -- the path of the host, which is written in the same way
        obtain ⟨hslashend, hjoin⟩ := nothing_follows hnothing
        rw [upstream_escapedPath_of_eq (hpath.trans hnothing),
          eq_singleton_of_joinSlash hsentne hjoin]
        rcases trimSuffixSlash_cases base.escapedPath with hend | ⟨hkept, -⟩
        · exact hend
        · have hread := unescape_escapedReference base
          rw [← hkept, ← basePath, ← hbase] at hread
          have hescape := Percent.unescape_escape (m := pathMode) (trimSuffixSlash base.path)
          have heq := Option.some.inj (hescape.symm.trans hread)
          rw [hslashend, trimSuffixSlash_concat] at heq
          have := congrArg List.length heq
          rw [List.length_append, List.length_singleton] at this
          omega
    · subst hsegments
      obtain rfl := sent_single htranslate rfl
      have hnothing : upstreamPath base [[]] = base.path := hslashend.symm
      rw [upstream_escapedPath_of_eq (hpath.trans hnothing)]
      exact hend
  · rw [List.length_map, hlength, hclient]
  · intro i hi
    rw [unescape_escaped_segment, hmask i hi]
    have hdecoded := congrArg (fun l => l[i]?) h.decoded
    simp only [List.getElem?_map] at hdecoded
    rcases hc : client[i]? with _ | c
    · rw [hc] at hdecoded
      rcases hs : segments[i]? with _ | s
      · rfl
      · rw [hs] at hdecoded
        cases hdecoded
    · rw [hc] at hdecoded
      rcases hs : segments[i]? with _ | s
      · rw [hs] at hdecoded
        cases hdecoded
      · rw [hs] at hdecoded
        exact (Option.some.inj hdecoded).symm

/-- An empty segment after a route with an encoded slash is no loss when it is kept. -/
theorem decoded_of_nil (hdecoded : Decoded client segments) (hclient : client ≠ [])
    (h : segments = [[]]) : client.map (Percent.unescape false) = segments.map some := by
  subst h
  have hone : client.length = 1 := le_antisymm hdecoded.1 (List.length_pos_of_ne_nil hclient)
  rcases hdecoded.2 hone.symm with h | ⟨rfl, -⟩
  · exact h
  · rfl

/-- A path that is kept when nothing follows the path of the host. -/
theorem plain_of_nothing
    (htranslate : translatePath L p segments selected = .ok (sent, user, first))
    (hne : segments ≠ []) (hclientne : client ≠ []) (hdecoded : Decoded client segments)
    (hpath : t.url.path = upstreamPath base sent) (hnothing : upstreamPath base sent = base.path)
    (h : PathKept p base client segments (upstream base t).escapedPath) :
    PathPlain p base client segments := by
  obtain ⟨hslashend, hjoin⟩ := nothing_follows hnothing
  have hlength := (translatePath_spec htranslate).1
  have hsent : sent = [[]] := eq_singleton_of_joinSlash (List.ne_nil_of_length_pos
    (by rw [hlength]; exact List.length_pos_of_ne_nil hne)) hjoin
  have hsegments : segments = [[]] := by
    rw [← sent_single htranslate (by rw [← hlength, hsent]; rfl), hsent]
  have hclient := decoded_of_nil hdecoded hclientne hsegments
  refine ⟨.inr ⟨hslashend, hsegments, ?_⟩, hclient, fun hpairs => ?_⟩
  · obtain ⟨kept, -, hescaped, hcount, hmask⟩ := h
    rw [upstream_escapedPath_of_eq (hpath.trans hnothing)] at hescaped
    have hone : kept.length = 1 := by
      rw [hcount, ← List.length_map (f := Percent.unescape false), hclient, hsegments]
      rfl
    obtain ⟨s, rfl⟩ := List.length_eq_one_iff.mp hone
    have hread : Percent.unescape false s = some [] := by
      have hfirst := hmask 0 (by rw [hsegments]; rfl)
      have hnil := congrArg (fun l => l[0]?) hclient
      rw [hsegments] at hnil
      simp only [List.getElem?_map] at hnil
      rcases hc : client[0]? with _ | c
      · rw [hc] at hnil
        cases hnil
      · rw [hc] at hnil hfirst
        exact hfirst.trans (Option.some.inj hnil)
    rw [hescaped, Rfc3986.unescape_eq_nil hread]
    rfl
  · rw [hsegments] at hpairs
    exact absurd rfl hpairs

/-- A path that is kept can be kept. -/
theorem plain_of_pathKept (hraw : RawMeant base)
    (htranslate : translatePath L p segments selected = .ok (sent, user, first))
    (hne : segments ≠ []) (hclientne : client ≠ []) (hdecoded : Decoded client segments)
    (hpath : t.url.path = upstreamPath base sent)
    (h : PathKept p base client segments (upstream base t).escapedPath) :
    PathPlain p base client segments := by
  rcases escapedPath_upstream hraw hpath with hprinted | hnothing
  swap
  · exact plain_of_nothing htranslate hne hclientne hdecoded hpath hnothing h
  obtain ⟨hlength, -, -, hcredentials⟩ := translatePath_spec htranslate
  have hsentne : sent ≠ [] := List.ne_nil_of_length_pos
    (by rw [hlength]; exact List.length_pos_of_ne_nil hne)
  obtain ⟨kept, hkept, hescaped, hcount, hmask⟩ := h
  have hkeptne : kept ≠ [] := List.ne_nil_of_length_pos
    (by rw [hcount]; exact List.length_pos_of_ne_nil hclientne)
  rw [hprinted, escape_upstreamPath, flatMap_slash hkeptne] at hescaped
  have hbase := eq_basePath hescaped
  rw [hbase] at hescaped
  have hjoin := (List.cons.inj (List.append_cancel_left hescaped)).2
  -- what is kept are the parts of what was sent, so no part of it has a slash
  have hparts : kept = (sent.flatMap splitSlash).map (Percent.escape pathMode) := by
    rw [← splitSlash_joinSlash hkept hkeptne, ← hjoin, splitSlash_escape,
      splitSlash_joinSlash_flatMap hsentne]
  obtain ⟨hle, heq⟩ := length_flatMap_splitSlash id sent
  have hkeptlength : kept.length = (sent.flatMap splitSlash).length := by
    rw [hparts, List.length_map]
  have hle' : sent.length ≤ (sent.flatMap splitSlash).length := hle
  have hsame : (sent.flatMap splitSlash).length = sent.length := by
    have := hdecoded.1
    omega
  obtain ⟨hflat, hslash⟩ := heq hsame
  have hflat' : sent.flatMap splitSlash = sent := hflat.trans (List.map_id sent)
  refine ⟨.inl hbase, ?_, fun hpairs => ?_⟩
  · rcases hdecoded.2 (by omega) with hclient | ⟨hclient, hone⟩
    · exact hclient
    · refine decoded_of_nil hdecoded hclientne ?_
      obtain rfl := sent_single htranslate hone
      obtain ⟨s, rfl⟩ := List.length_eq_one_iff.mp hone
      have hfirst := hmask 0 (credentialMask_single s 0)
      rw [hparts, hflat', unescape_escaped_segment, hclient] at hfirst
      rw [Option.some.inj hfirst]
  · obtain ⟨hname, hpass⟩ := hcredentials hpairs
    exact ⟨hslash _ hname, hslash _ hpass⟩

end

/-! ## The query -/

theorem space_not_mem_recognisedNames (q : Values) : ∀ n ∈ recognisedNames q, space ∉ n := by
  intro n hn
  obtain ⟨k, hk, hn⟩ := List.mem_flatMap.mp hn
  have hall : ∀ k ∈ credentialPairs, ∀ n ∈ [k.1, k.2], space ∉ n := by decide
  exact hall k (List.mem_filter.mp hk).1 n hn

/-- The other parameters are those of the client. -/
theorem values_translated {selected user : User} {q form : Values} {matched changed : Bool}
    (h : translateValues L p credentialPairs selected q matched = .ok (user, form, changed))
    {k : Bytes} (hk : k ∉ recognisedNames q) : form.values k = q.values k := by
  obtain ⟨hform, -⟩ := translateValues_eq separateKeys_credentialPairs h
  have hvalues := values_replaceValues (p := p) q k
  have hnone : (replacements p (completePairs q.get)).lookup k = none := by
    rw [List.lookup_eq_none_iff]
    intro change hchange
    obtain ⟨key, hkey, hchange⟩ := List.mem_flatMap.mp hchange
    rw [bne_iff_ne]
    rintro rfl
    refine hk (List.mem_flatMap.mpr ⟨key, hkey, ?_⟩)
    rcases List.mem_cons.mp hchange with rfl | hchange
    · exact List.mem_cons_self
    · rw [List.mem_singleton.mp hchange]
      exact List.mem_cons_of_mem _ List.mem_cons_self
  rw [hnone] at hvalues
  rw [hform]
  exact hvalues

/-! ## What is kept -/

/-- **The translation changes only credentials** exactly for the requests whose path and query are
plain: routing and translating a request keeps the segments after the route and the parameters, but
for the recognised credentials, if and only if the path is plain and the parameters survive. -/
theorem translation_keeps_iff (hL : ∀ s, L.parseURL s = (Reference.parse s).map Reference.url)
    {providers : List Provider} {resolved : Resolved} {r : Xtream.Request} {t : Translated}
    (hbase : Reference.parse (trimSuffixSlash resolved.provider.host) = some base)
    (hstart : escaped.head? ≠ some percent) (hpath : Percent.unescape false escaped = some path)
    (hresolve : Resolver.resolve L providers path = .ok resolved)
    (haccepted : buildTransparentUpstreamURL L resolved.provider resolved.remainingPath r = .ok t) :
    (PathKept resolved.provider base (clientSegments resolved.matchedBy escaped)
        (pathSegments resolved) (upstream base t).escapedPath ∧ QueryKept r t.url.rawQuery) ↔
      (PathPlain resolved.provider base (clientSegments resolved.matchedBy escaped)
        (pathSegments resolved) ∧ Rfc3986.Survives (recognisedNames r.query) r.rawQuery) := by
  obtain ⟨a⟩ := accepted_of_build haccepted
  have hparsed : base.url = a.base := by
    have hparsed := a.hbase
    rw [hL, hbase] at hparsed
    exact Option.some.inj hparsed
  have hdecoded := decoded_clientSegments hstart hpath hresolve
  have hne : pathSegments resolved ≠ [] := splitSlash_ne_nil _
  have hclientne : clientSegments resolved.matchedBy escaped ≠ [] :=
    afterRoute_ne_nil _ (splitSlash_ne_nil _)
  have hsent : t.url.path = upstreamPath base a.segments := by
    rw [congrArg URL.path a.hurl, ← hparsed]
    rfl
  refine and_congr ⟨?_, ?_⟩ ?_
  · exact plain_of_pathKept (rawMeant_parse hbase) a.hpath hne hclientne hdecoded hsent
  · exact pathKept_of_plain (rawMeant_parse hbase) a.hpath (slash_not_mem_splitSlash _) hne hsent
  · rw [congrArg URL.rawQuery a.hurl]
    exact Rfc3986.read_encode_iff (space_not_mem_recognisedNames _)
      fun k hk => values_translated a.hquery hk

/-- A library that parses URLs. -/
def parsingLibrary : Library :=
  { asciiLibrary with parseURL := fun s => (Reference.parse s).map Reference.url }

/-- A provider with one client. -/
def oneClient : Provider := sampleProvider [sampleUser "1" "bob" "a"]

/-- What routing makes of a path without a route. -/
def unrouted (path : String) : Resolved := ⟨oneClient, .default, ascii path⟩

/-- Its host. -/
def upstreamHost : Reference :=
  ⟨ascii "http", [], none, ascii "upstream", [], [], false, false, [], [], []⟩

theorem parse_oneClient (path : String) :
    Reference.parse (trimSuffixSlash (unrouted path).provider.host) = some upstreamHost := by
  have hhost : Reference.parse (trimSuffixSlash oneClient.host) = some upstreamHost := by
    decide +kernel
  exact hhost

/-- The translation of an unrouted path. -/
def translateUnrouted (path rawQuery : String) : Except Error Translated :=
  buildTransparentUpstreamURL parsingLibrary (unrouted path).provider (unrouted path).remainingPath
    (getRequest rawQuery)

theorem translated_of_isOk (path rawQuery : String) (h : (translateUnrouted path rawQuery).isOk) :
    ∃ t, translateUnrouted path rawQuery = .ok t := by
  rcases hb : translateUnrouted path rawQuery with e | t
  · rw [hb] at h
    cases h
  · exact ⟨t, rfl⟩

/-- The name of a stream with an encoded slash becomes two segments. -/
theorem encoded_slash_sent_decoded :
    Resolver.resolve parsingLibrary [oneClient] (ascii "/live/bob/a/x/y.ts") =
      .ok (unrouted "/live/bob/a/x/y.ts") ∧
    Percent.unescape false (ascii "/live/bob/a/x%2Fy.ts") = some (ascii "/live/bob/a/x/y.ts") ∧
    ∃ t, translateUnrouted "/live/bob/a/x/y.ts" "" = .ok t ∧
      (upstream upstreamHost t).escapedPath = ascii "/live/UP/SECRET/x/y.ts" ∧
      ¬ PathKept oneClient upstreamHost (clientSegments .default (ascii "/live/bob/a/x%2Fy.ts"))
        (pathSegments (unrouted "/live/bob/a/x/y.ts")) (upstream upstreamHost t).escapedPath := by
  refine ⟨by decide +kernel, by decide +kernel, ?_⟩
  obtain ⟨t, ht⟩ := translated_of_isOk "/live/bob/a/x/y.ts" ""
    (by decide +kernel)
  have hpath : (translateUnrouted "/live/bob/a/x/y.ts" "").toOption.map
      (fun t => (upstream upstreamHost t).escapedPath) = some (ascii "/live/UP/SECRET/x/y.ts") := by
    decide +kernel
  rw [ht] at hpath
  have hsent : (upstream upstreamHost t).escapedPath = ascii "/live/UP/SECRET/x/y.ts" :=
    Option.some.inj hpath
  refine ⟨t, ht, hsent, ?_⟩
  rintro ⟨kept, hkept, hescaped, hlength, -⟩
  have hcount : kept.length = 4 := hlength.trans (by decide +kernel)
  have hne : kept ≠ [] := by
    rintro rfl
    cases hcount
  have hbase : basePath upstreamHost = [] := by decide +kernel
  have htext : ascii "/live/UP/SECRET/x/y.ts" = slash :: ascii "live/UP/SECRET/x/y.ts" := by
    decide +kernel
  rw [hsent, hbase, List.nil_append, flatMap_slash hne, htext] at hescaped
  have hparts := splitSlash_joinSlash hkept hne
  rw [← (List.cons.inj hescaped).2] at hparts
  have hfive : (splitSlash (ascii "live/UP/SECRET/x/y.ts")).length = 5 := by decide +kernel
  rw [hparts, hcount] at hfive
  cases hfive

/-- A stream with a parameter. -/
theorem translation_keeps_sample :
    ∃ t, translateUnrouted "/live/bob/a/7.ts" "tag=x" = .ok t ∧
      PathKept oneClient upstreamHost (clientSegments .default (ascii "/live/bob/a/7.ts"))
        (pathSegments (unrouted "/live/bob/a/7.ts")) (upstream upstreamHost t).escapedPath ∧
      QueryKept (getRequest "tag=x") t.url.rawQuery := by
  obtain ⟨t, ht⟩ := translated_of_isOk "/live/bob/a/7.ts" "tag=x"
    (by decide +kernel)
  have hstart : (ascii "/live/bob/a/7.ts").head? ≠ some percent := by decide +kernel
  have hpath : Percent.unescape false (ascii "/live/bob/a/7.ts") =
      some (ascii "/live/bob/a/7.ts") := by
    decide +kernel
  have hresolve : Resolver.resolve parsingLibrary [oneClient] (ascii "/live/bob/a/7.ts") =
      .ok (unrouted "/live/bob/a/7.ts") := by decide +kernel
  have hplain : PathPlain (unrouted "/live/bob/a/7.ts").provider upstreamHost
      (clientSegments (unrouted "/live/bob/a/7.ts").matchedBy (ascii "/live/bob/a/7.ts"))
      (pathSegments (unrouted "/live/bob/a/7.ts")) :=
    ⟨.inl (by decide +kernel), by decide +kernel, fun _ => by decide +kernel⟩
  have hsurvives : Rfc3986.Survives (recognisedNames (getRequest "tag=x").query)
      (getRequest "tag=x").rawQuery := by
    have hparts : (getRequest "tag=x").rawQuery.splitOn Values.amp = [ascii "tag=x"] := by
      decide +kernel
    have hpart : Rfc3986.part (ascii "tag=x") = some (ascii "tag", ascii "x") := by decide +kernel
    have hsorted : (Values.parse (getRequest "tag=x").rawQuery).1.sorted =
        (Values.parse (getRequest "tag=x").rawQuery).1 := by decide +kernel
    refine ⟨fun s hs q _ _ => ?_, fun s hs q hq _ => ?_, fun k _ => by rw [hsorted]⟩
    · rw [hparts, List.mem_singleton] at hs
      rw [hs]
      decide +kernel
    · rw [hparts, List.mem_singleton] at hs
      rw [hs, hpart] at hq
      obtain rfl := Option.some.inj hq
      decide +kernel
  exact ⟨t, ht, (translation_keeps_iff (fun _ => rfl) (parse_oneClient _) hstart hpath hresolve
    ht).mpr ⟨hplain, hsurvives⟩⟩

end IptvProxy.Media
