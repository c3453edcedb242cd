import IptvProxy.Media.Logged
import IptvProxy.Xtream.Routes

/-!
# What live streams are shared by

`liveStreamKey` (`internal/proxy/handler.go`) names a live stream by its provider, the last segment
of its path and its parameters, and `serveLiveMultiplexed` gives one upstream to all viewers with
the same name. `liveStreamKey_inj` says that the name determines these three. In the request they
are its last segment that is not empty and its parameters (`streamID_eq`, `streamParameters_same`).
The segments before the last one are not among them, so two requests whose paths differ there only
are taken for one stream (`key_separates_iff`).
-/

namespace IptvProxy.Media

open Xtream Catchup Catalog

/-! ## The key -/

/-- `shouldMultiplexLive`, for a request with this method and this header `Range` -/
def shouldMultiplexLive (method range endpoint : Bytes) (target : URL) : Bool :=
  if method ≠ ascii "GET" ∨ endpoint ≠ ascii "live" ∨
      equalFold (ext target.path) (ascii ".m3u8") = true then false
  else if range ≠ [] then false
  else if (Values.parse target.rawQuery).1.get (ascii "token") ≠ [] then false
  else true

/-- The `streamID` of `liveStreamKey` -/
def streamID (target : URL) : Bytes :=
  (splitSlash (trimSlashes target.path)).getLast?.getD (ascii "live")

/-- The parameters in `liveStreamKey` -/
def streamParameters (target : URL) : Values :=
  ((Values.parse target.rawQuery).1.del (ascii "username")).del (ascii "password")

/-- `liveStreamKey` -/
def liveStreamKey (providerID : Bytes) (target : URL) : Bytes :=
  ascii "live:" ++ providerID ++ [colon] ++ streamID target ++ [colon] ++
    (streamParameters target).encode

/-! ## What is streamed -/

/-- The segments of a target without the credential pairs; a bare pair counts as a pair after
`live`. -/
def streamPath {L : Library} {p : Provider} {remaining : Bytes} {r : Xtream.Request}
    {t : Translated} (a : Accepted L p remaining r t) : List Bytes :=
  let segments := splitSlash (trimPrefixSlash remaining)
  splitSlash (trimSuffixSlash a.base.path) ++
    (if a.first = some 0 ∧ segments.length ≥ 3 then [ascii "live"] else []) ++
    ((credentialMask p segments).zip a.segments).filterMap fun s => if s.1 then none else some s.2

/-- The same for the path of the request. -/
def requestedPath (p : Provider) (remaining : Bytes) : List Bytes :=
  let known := publicSegments p (splitSlash (trimPrefixSlash remaining))
  (if known.head? = some none ∧ known.length ≥ 3 then [ascii "live"] else []) ++ known.reduceOption

variable {L : Library} {p : Provider} {remaining remaining' : Bytes} {r r' : Xtream.Request}
  {t t' : Translated} {segments sent : List Bytes}

theorem colon_not_mem_encode (q : Values) : colon ∉ q.encode := by
  intro h
  have hforall := encode_forall (P := fun c => c ≠ colon) (fun s c hc => by
    rintro rfl
    exact Values.not_mem_escape colon (by decide) (by decide) (by decide) s hc) (by decide)
    (by decide) q
  exact hforall colon h rfl

/-- The part after the last colon, and what is before it. -/
theorem append_colon_inj {a a' b b' : Bytes} (hb : colon ∉ b) (hb' : colon ∉ b')
    (h : a ++ [colon] ++ b = a' ++ [colon] ++ b') : a = a' ∧ b = b' := by
  have hreverse : b.reverse ++ colon :: a.reverse = b'.reverse ++ colon :: a'.reverse := by
    simpa using congrArg List.reverse h
  have hcut := congrArg (Values.cut colon) hreverse
  rw [Values.cut_append (by simpa using hb), Values.cut_append (by simpa using hb')] at hcut
  obtain ⟨hfirst, hrest⟩ := Prod.mk.inj hcut
  exact ⟨List.reverse_injective hrest, List.reverse_injective hfirst⟩

/-- **The key names the last segment and the parameters**, and nothing else of the target. -/
theorem liveStreamKey_inj {providerID : Bytes} {target target' : URL} :
    liveStreamKey providerID target = liveStreamKey providerID target' ↔
      streamID target = streamID target' ∧
        (streamParameters target).Same (streamParameters target') := by
  constructor
  · intro h
    rw [liveStreamKey, liveStreamKey] at h
    obtain ⟨hfront, hquery⟩ :=
      append_colon_inj (colon_not_mem_encode _) (colon_not_mem_encode _) h
    exact ⟨List.append_cancel_left hfront, same_of_encode hquery⟩
  · rintro ⟨hid, hsame⟩
    rw [liveStreamKey, liveStreamKey, hid, Values.encode_congr hsame]

/-- The translator keeps the segments that are no credentials. -/
theorem streamPath_translatePath {selected user : User} {first : Option ℕ}
    (h : translatePath L p segments selected = .ok (sent, user, first)) :
    ((credentialMask p segments).zip sent).filterMap (fun s => if s.1 then none else some s.2) =
        (publicSegments p segments).reduceOption ∧
      (first = some 0 ↔ (publicSegments p segments).head? = some none) ∧
      (publicSegments p segments).length = segments.length := by
  induction segments using recognisedPath.induct p generalizing selected sent user first with
  | case1 =>
    obtain ⟨rfl, hrest⟩ := Prod.mk.inj (Except.ok.inj h)
    obtain ⟨-, rfl⟩ := Prod.mk.inj hrest
    exact ⟨rfl, by simp [publicSegments], rfl⟩
  | case2 segment =>
    obtain ⟨rfl, hrest⟩ := Prod.mk.inj (Except.ok.inj h)
    obtain ⟨-, rfl⟩ := Prod.mk.inj hrest
    exact ⟨rfl, by simp [publicSegments], rfl⟩
  | case3 segment next segments hknown ih =>
    rw [translatePath, if_pos hknown] at h
    rw [publicSegments, if_pos hknown, credentialMask, if_pos hknown]
    split at h
    · cases h
    · split at h
      · cases h
      · next rest _ _ hrest =>
        obtain ⟨rfl, hfirst⟩ := Prod.mk.inj (Except.ok.inj h)
        obtain ⟨-, rfl⟩ := Prod.mk.inj hfirst
        obtain ⟨hpath, -, hlength⟩ := ih hrest
        refine ⟨hpath, iff_of_true rfl rfl, ?_⟩
        rw [List.length_cons, List.length_cons, hlength]
        rfl
  | case4 segment next segments hknown ih =>
    rw [translatePath, if_neg hknown] at h
    rw [publicSegments, if_neg hknown, credentialMask, if_neg hknown]
    split at h
    · cases h
    · next rest _ first hrest =>
      obtain ⟨rfl, hfirst⟩ := Prod.mk.inj (Except.ok.inj h)
      obtain ⟨-, rfl⟩ := Prod.mk.inj hfirst
      obtain ⟨hpath, -, hlength⟩ := ih hrest
      refine ⟨?_, ?_, congrArg (· + 1) hlength⟩
      · rw [List.zip_cons_cons, List.filterMap_cons, List.reduceOption_cons_of_some, hpath]
        rfl
      · refine iff_of_false ?_ (by rintro ⟨⟩)
        rcases first with _ | n
        · rintro ⟨⟩
        · rintro ⟨⟩

/-- What is streamed is what was asked for. -/
theorem streamPath_eq (a : Accepted L p remaining r t) :
    streamPath a = splitSlash (trimSuffixSlash a.base.path) ++ requestedPath p remaining := by
  obtain ⟨hpath, hfirst, hlength⟩ := streamPath_translatePath a.hpath
  simp only [streamPath, requestedPath, hpath, hfirst, hlength, List.append_assoc]

/-! ## The last segment and the parameters of a request -/

/-- The last segment that is not empty, of the base path and the segments of a request. -/
def lastSegment (base : Bytes) (segments : List Bytes) : Bytes :=
  (collapse (splitSlash (trimSuffixSlash base) ++ segments)).getLast?.getD []

/-- The parameters of a request apart from `username` and `password`; a complete pair under `user`
and `pass` is the provider's. -/
def requestedParameters (p : Provider) (r : Xtream.Request) : Values :=
  ((replaceValues p r.query).del (ascii "username")).del (ascii "password")

theorem same_del {v w : Values} (h : v.Same w) (k : Bytes) : (v.del k).Same (w.del k) := by
  intro k'
  by_cases hk : k' = k
  · rw [hk, Values.values_del_self, Values.values_del_self]
  · rw [Values.values_del_ne hk, Values.values_del_ne hk, h k']

theorem collapse_append (xs ys : List Bytes) : collapse (xs ++ ys) = collapse xs ++ collapse ys :=
  List.filter_append ..

/-- Slashes in front add empty segments. -/
theorem collapse_dropWhile (s : Bytes) :
    collapse (splitSlash (s.dropWhile (· = slash))) = collapse (splitSlash s) := by
  induction s with
  | nil => rfl
  | cons c s ih =>
    by_cases hc : c = slash
    · rw [List.dropWhile_cons_of_pos (by simpa using hc), ih, hc]
      have hsplit : splitSlash (slash :: s) = [] :: splitSlash s := splitSlash_join [] s
      rw [hsplit]
      rfl
    · rw [List.dropWhile_cons_of_neg (by simpa using hc)]

/-- Slashes at the end add empty segments. -/
theorem collapse_trimEnd (s : Bytes) :
    collapse (splitSlash ((s.reverse.dropWhile (· = slash)).reverse)) = collapse (splitSlash s) := by
  induction s using List.reverseRecOn with
  | nil => rfl
  | append_singleton s c ih =>
    rw [List.reverse_append, List.reverse_singleton, List.singleton_append]
    by_cases hc : c = slash
    · rw [List.dropWhile_cons_of_pos (by simpa using hc), ih, hc, splitSlash_join, collapse_append]
      exact (List.append_nil _).symm
    · rw [List.dropWhile_cons_of_neg (by simpa using hc), List.reverse_cons, List.reverse_reverse]

theorem collapse_trimSlashes (s : Bytes) :
    collapse (splitSlash (trimSlashes s)) = collapse (splitSlash s) := by
  rw [trimSlashes, collapse_trimEnd, collapse_dropWhile]

/-- The last segment of a path that does not end in a slash is not empty. -/
theorem getLast_splitSlash {s : Bytes} {c : Byte} (hc : c ≠ slash) :
    (splitSlash (s ++ [c])).getLast? = (collapse (splitSlash (s ++ [c]))).getLast? := by
  have hname : ∀ name : Bytes, slash ∉ name → splitSlash (name ++ [c]) = [name ++ [c]] := by
    intro name hslash
    refine List.splitOn_eq_singleton fun hmem => ?_
    rcases List.mem_append.mp hmem with hmem | hmem
    · exact hslash hmem
    · exact hc (List.mem_singleton.mp hmem).symm
  have hnamed : ∀ name : Bytes, collapse [name ++ [c]] = [name ++ [c]] :=
    fun name => List.filter_cons_of_pos (by simp)
  by_cases hslash : slash ∈ s
  · obtain ⟨name, front, hsplit, hfirst⟩ :=
      List.eq_append_cons_of_mem (List.mem_reverse.mpr hslash)
    have hs : s ++ [c] = front.reverse ++ slash :: (name.reverse ++ [c]) := by
      have hreverse := congrArg List.reverse hsplit
      rw [List.reverse_reverse] at hreverse
      rw [hreverse]
      simp
    rw [hs, splitSlash_join, hname _ (by simpa using hfirst), collapse_append, hnamed,
      List.getLast?_append, List.getLast?_append]
    rfl
  · rw [hname s hslash, hnamed]

/-- A trimmed path does not end in a slash. -/
theorem trimSlashes_concat {s t : Bytes} {c : Byte} (h : trimSlashes s = t ++ [c]) : c ≠ slash := by
  rintro rfl
  have hreverse := congrArg List.reverse h
  rw [trimSlashes, List.reverse_reverse, List.reverse_append, List.reverse_singleton,
    List.singleton_append] at hreverse
  have hhead := List.head?_dropWhile_not (fun c => decide (c = slash))
    (s.dropWhile (· = slash)).reverse
  rw [hreverse] at hhead
  simp at hhead

/-- **The last segment of the target** is that of the request. -/
theorem streamID_eq (a : Accepted L p remaining r t) :
    streamID t.url = lastSegment a.base.path (requested p remaining) := by
  have hpath : t.url.path = trimSuffixSlash a.base.path ++ slash ::
      joinSlash (substitute p (splitSlash (trimPrefixSlash remaining))) := by
    rw [a.hurl, translatePath_segments a.hpath]
  have hne : substitute p (splitSlash (trimPrefixSlash remaining)) ≠ [] :=
    substitute_ne_nil p (List.splitOn_ne_nil _ _)
  have hsplit : splitSlash t.url.path =
      splitSlash (trimSuffixSlash a.base.path) ++ requested p remaining := by
    rw [hpath, splitSlash_join, splitSlash_flatMap hne]
    rfl
  rw [streamID, lastSegment, ← hsplit, ← collapse_trimSlashes]
  rcases List.eq_nil_or_concat (trimSlashes t.url.path) with hnil | ⟨s, c, hconcat⟩
  · rw [hnil]
    rfl
  · rw [List.concat_eq_append] at hconcat
    rw [hconcat, ← getLast_splitSlash (trimSlashes_concat hconcat)]
    have hne : splitSlash (s ++ [c]) ≠ [] := List.splitOn_ne_nil _ _
    rw [List.getLast?_eq_some_getLast hne]
    rfl

/-- **The parameters of the target** are those of the request. -/
theorem streamParameters_same (a : Accepted L p remaining r t) :
    (streamParameters t.url).Same (requestedParameters p r) := by
  obtain ⟨hquery, -⟩ := translateValues_eq separateKeys_credentialPairs a.hquery
  have hsame : (Values.parse t.url.rawQuery).1.Same (replaceValues p r.query) := by
    rw [a.hurl, hquery]
    dsimp only
    rw [Values.parse_encode]
    exact Values.sorted_same
  exact same_del (same_del hsame _) _

/-! ## Which streams are kept apart -/

/-- **The key separates streams** exactly for requests that ask for different last segments or for
different parameters, or for the same path: two requests with one key have the same path and the
same parameters, without their credentials, if and only if they are not two requests for the same
last segment with the same parameters in different folders. -/
theorem key_separates_iff (a : Accepted L p remaining r t) (a' : Accepted L p remaining' r' t') :
    (liveStreamKey p.id t.url = liveStreamKey p.id t'.url →
      streamPath a = streamPath a' ∧ (streamParameters t.url).Same (streamParameters t'.url)) ↔
    (lastSegment a.base.path (requested p remaining) ≠
        lastSegment a.base.path (requested p remaining') ∨
      ¬(requestedParameters p r).Same (requestedParameters p r') ∨
      requestedPath p remaining = requestedPath p remaining') := by
  have hbase : a.base = a'.base := Option.some.inj (a.hbase.symm.trans a'.hbase)
  have hparameters : (streamParameters t.url).Same (streamParameters t'.url) ↔
      (requestedParameters p r).Same (requestedParameters p r') := by
    have h := streamParameters_same a
    have h' := streamParameters_same a'
    exact ⟨fun hsame k => (h k).symm.trans ((hsame k).trans (h' k)),
      fun hsame k => (h k).trans ((hsame k).trans (h' k).symm)⟩
  have hlast := streamID_eq a'
  rw [← hbase] at hlast
  rw [liveStreamKey_inj, streamPath_eq, streamPath_eq, hbase, List.append_right_inj, ← hbase,
    hparameters, streamID_eq a, hlast]
  tauto

/-- The two forms of one stream have one key and one path. -/
theorem key_separates_forms :
    ∃ (t t' : Translated)
      (a : Accepted parsingLibrary oneClient (ascii "/live/bob/a/7.ts") (getRequest "") t)
      (a' : Accepted parsingLibrary oneClient (ascii "/bob/a/7.ts") (getRequest "") t'),
      liveStreamKey oneClient.id t.url = liveStreamKey oneClient.id t'.url ∧
        streamPath a = streamPath a' ∧ (streamParameters t.url).Same (streamParameters t'.url) := by
  obtain ⟨t, ht⟩ := translated_of_isOk "/live/bob/a/7.ts" "" (by decide +kernel)
  obtain ⟨t', ht'⟩ := translated_of_isOk "/bob/a/7.ts" "" (by decide +kernel)
  obtain ⟨a⟩ := accepted_of_build ht
  obtain ⟨a'⟩ := accepted_of_build ht'
  have hkeys : (translateUnrouted "/live/bob/a/7.ts" "").toOption.map
      (fun t => liveStreamKey oneClient.id t.url) =
      (translateUnrouted "/bob/a/7.ts" "").toOption.map
        fun t => liveStreamKey oneClient.id t.url := by decide +kernel
  rw [ht, ht'] at hkeys
  have hkey : liveStreamKey oneClient.id t.url = liveStreamKey oneClient.id t'.url :=
    Option.some.inj hkeys
  exact ⟨t, t', a, a', hkey,
    (key_separates_iff a a').mpr (.inr (.inr (by decide +kernel))) hkey⟩

/-- A stream in a folder is taken for the one outside. -/
theorem streams_share_key :
    ∃ t t', translateUnrouted "/live/bob/a/7.ts" "" = .ok t ∧
      translateUnrouted "/live/bob/a/hd/7.ts" "" = .ok t' ∧
      shouldMultiplexLive (ascii "GET") [] t.endpoint t.url = true ∧
      shouldMultiplexLive (ascii "GET") [] t'.endpoint t'.url = true ∧
      liveStreamKey oneClient.id t.url = liveStreamKey oneClient.id t'.url ∧
      t.url.path = ascii "/live/UP/SECRET/7.ts" ∧ t'.url.path = ascii "/live/UP/SECRET/hd/7.ts" ∧
      ∀ (a : Accepted parsingLibrary oneClient (ascii "/live/bob/a/7.ts") (getRequest "") t)
        (a' : Accepted parsingLibrary oneClient (ascii "/live/bob/a/hd/7.ts") (getRequest "") t'),
        streamPath a ≠ streamPath a' := by
  obtain ⟨t, ht⟩ := translated_of_isOk "/live/bob/a/7.ts" "" (by decide +kernel)
  obtain ⟨t', ht'⟩ := translated_of_isOk "/live/bob/a/hd/7.ts" "" (by decide +kernel)
  have hfacts : (translateUnrouted "/live/bob/a/7.ts" "").toOption.map
      (fun t => (shouldMultiplexLive (ascii "GET") [] t.endpoint t.url,
        liveStreamKey oneClient.id t.url, t.url.path)) =
      some (true, ascii "live:p:7.ts:", ascii "/live/UP/SECRET/7.ts") := by decide +kernel
  have hfacts' : (translateUnrouted "/live/bob/a/hd/7.ts" "").toOption.map
      (fun t => (shouldMultiplexLive (ascii "GET") [] t.endpoint t.url,
        liveStreamKey oneClient.id t.url, t.url.path)) =
      some (true, ascii "live:p:7.ts:", ascii "/live/UP/SECRET/hd/7.ts") := by decide +kernel
  rw [ht] at hfacts
  rw [ht'] at hfacts'
  obtain ⟨hmultiplex, hrest⟩ := Prod.mk.inj (Option.some.inj hfacts)
  obtain ⟨hkey, hpath⟩ := Prod.mk.inj hrest
  obtain ⟨hmultiplex', hrest'⟩ := Prod.mk.inj (Option.some.inj hfacts')
  obtain ⟨hkey', hpath'⟩ := Prod.mk.inj hrest'
  refine ⟨t, t', ht, ht', hmultiplex, hmultiplex', hkey.trans hkey'.symm, hpath, hpath', ?_⟩
  intro a a' hsame
  have hbase : a.base = a'.base := Option.some.inj (a.hbase.symm.trans a'.hbase)
  rw [streamPath_eq, streamPath_eq, hbase] at hsame
  exact absurd (List.append_cancel_left hsame) (by decide +kernel)

end IptvProxy.Media
