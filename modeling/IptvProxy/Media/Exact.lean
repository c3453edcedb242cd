import IptvProxy.Catchup.SameArchive
import IptvProxy.Catchup.Direct
import IptvProxy.Media.Tokens

/-!
# What is requested for a token

`serveMediaToken` and `serveHLSToken` give the stored URL to `serveDirect` of
`internal/proxy/direct_proxy.go`, which is the handler of all other media: a URL that looks like
catch-up is negotiated, or tried again in the query layout. `served_exactly_iff` says which URLs are
left alone (`Respelt` are the others), and `signed_timeshift_respelt` is a signed URL that is not.
-/

namespace IptvProxy.Media

open Catchup Effect
open Xtream hiding Request

/-! ## The handlers -/

/-- `isTimeshiftPathTarget` -/
def isTimeshiftPathTarget (target : TargetURL) : Bool := (timeshiftPathParts target).isSome

/-- `isXtreamCatchupTarget` -/
def isXtreamCatchupTarget (target : TargetURL) : Bool :=
  isTimeshiftPathTarget target || isStreamingTimeshiftTarget target

/-- `isExplicitCatchupHLS` -/
def isExplicitCatchupHLS (target : TargetURL) : Bool :=
  if equalFold (ext target.path) (ascii ".m3u8") then true
  else [ascii "output", ascii "format", ascii "container", ascii "type"].any fun key =>
    let value := (trimSpace ((Values.parse target.rawQuery).1.get key)).map lower
    value = ascii "m3u8" || value = ascii "hls"

/-- `shouldTryTimeshiftPHPFallback` -/
def shouldTryTimeshiftPHPFallback (resp : Response) (target : TargetURL) : Bool :=
  if isTimeshiftPathTarget target = false then false
  else if resp.status ∈ [400, 404, 405, 415, 422] then true
  else if 200 ≤ resp.status ∧ resp.status < 300 then
    containsFold resp.contentType (ascii "text/html") ||
      containsFold resp.contentType (ascii "application/xhtml+xml")
  else false

/-- `timeshiftPHPAlternate` -/
def timeshiftPHPAlternate (target : TargetURL) : Option TargetURL :=
  match describeCatchupTarget target with
  | some d => if d.layout = .path then buildCatchupCandidateURL d (ascii "query_original") else none
  | none => none

/-- `doDirectUpstream`; the URL is no candidate and has no format. -/
def doDirectUpstream (target : TargetURL) : Op (Except Bytes Response) :=
  perform (.request ⟨target, []⟩)

/-- `looksLikeHLSPlaylistPrefix` -/
def looksLikeHLSPlaylistPrefix (start : Bytes) : Bool :=
  let start := if [0xEF, 0xBB, 0xBF].isPrefixOf start then start.drop 3 else start
  (ascii "#EXTM3U").isPrefixOf (start.dropWhile fun c => c ∈ [32, 9, 13, 10])

/-- `prepareHLSResponse` peeks at 64 bytes: whether it is a playlist, and the bytes. -/
def prepareHLSResponse (resp : Response) (target : TargetURL) : Op (Bool × Bytes) :=
  if isHLSResponse resp target then pure (true, [])
  else do
    match ← perform .readPrefix with
    | .error _ => pure (false, [])
    | .ok start => pure (looksLikeHLSPlaylistPrefix (start.take 64), start)

/-- The end of `serveDirect`, with the response and the URL it is for. -/
def finishDirect (r : Request) (target : TargetURL) (resp : Response) : Op Unit :=
  if r.method ≠ .head ∧ 200 ≤ resp.status ∧ resp.status < 300 then
    if isXtreamCatchupTarget target = false then do
      let sniffed ← prepareHLSResponse resp target
      writeDirectResult r resp sniffed.1 sniffed.2 true
    else writeDirectResult r resp (isHLSResponse resp target) [] true
  else writeDirectResult r resp false [] true

/-- `http.Error` -/
def httpError (message : Bytes) (status : ℕ) : Op Unit := perform (.error message status)

/-- `serveDirect` -/
def serveDirect (h : Handler) (r : Request) (target : TargetURL) : Op Unit :=
  if r.method ≠ .other ∧ isXtreamCatchupTarget target = true ∧ isExplicitCatchupHLS target = false
  then serveCatchupDirect h r target
  else do
    match ← doDirectUpstream target with
    | .error err => httpError err 502
    | .ok resp =>
      if r.method ≠ .other ∧ shouldTryTimeshiftPHPFallback resp target = true then
        match timeshiftPHPAlternate target with
        | some alternate => do
          perform .close
          match ← doDirectUpstream alternate with
          | .error err => httpError err 502
          | .ok resp => finishDirect r alternate resp
        | none => finishDirect r target resp
      else finishDirect r target resp

/-- The part of `serveMediaToken` and `serveHLSToken` with what Redis has for the token. -/
def serveTarget (h : Handler) (r : Request) (invalid : Bytes) (target : Target) : Op Unit :=
  if target.providerID ≠ h.providerID then httpError (ascii "404 page not found") 404
  else
    match parseURL target.url with
    | none => httpError invalid 502
    | some parsed =>
      if isWeb parsed.scheme = false then httpError invalid 502 else serveDirect h r parsed

variable (redis : Bytes → Except Bytes (Option Target))

/-- `serveMediaToken`; `redis` is what a read of a key gives. -/
def serveMediaToken (h : Handler) (r : Request) (token : Bytes) : Op Unit :=
  if r.method = .other then httpError (ascii "method not allowed") 405
  else if token = [] ∨ slash ∈ token ∨ h.redis = false then
    httpError (ascii "404 page not found") 404
  else
    match redis (mediaTokenKey token) with
    | .error _ => httpError (ascii "media token store unavailable") 502
    | .ok none => httpError (ascii "404 page not found") 404
    | .ok (some target) => serveTarget h r (ascii "invalid media target") target

/-- `serveHLSToken` -/
def serveHLSToken (h : Handler) (r : Request) (token : Bytes) : Op Unit :=
  if token = [] ∨ slash ∈ token then httpError (ascii "404 page not found") 404
  else
    match redis (hlsTokenKey token) with
    | .error _ => httpError (ascii "HLS token store unavailable") 502
    | .ok none => httpError (ascii "404 page not found") 404
    | .ok (some target) => serveTarget h r (ascii "invalid HLS target") target

/-! ## Which requests are made -/

/-- `rememberCatchupFormat` stores no other format. -/
def remembered : Option Bytes → Bool
  | some format => !(ascii "_original").isSuffixOf format
  | none => true

/-- Every request is one of these; what is read is a remembered format. -/
def requesting (P : TargetURL → Prop) : Protocol Cmd Cmd.Answer Unit where
  allowed _ c := ∀ candidate, c = .request candidate → P candidate.url
  next _ c x :=
    match c with
    | .get _ => if remembered x then some () else none
    | _ => some ()

/-- Whatever the answers are, program `m` makes only such requests. -/
def Requests (P : TargetURL → Prop) (m : Op Unit) : Prop :=
  Follows (requesting P) m () (fun _ _ => True) fun _ _ => True

/-- A URL that is spelled in other ways when it is requested: a description of catch-up, with a
start that is understood, or in the path layout of a playlist. -/
def Respelt (u : TargetURL) : Prop :=
  ∃ d, describeCatchupTarget u = some d ∧
    if isExplicitCatchupHLS u then d.layout = .path else parseCatchupStart d.start ≠ none

variable {P : TargetURL → Prop} {h : Handler} {r : Request} {u v target : TargetURL}
  {d : Descriptor} {candidates : List Candidate} {o : Outcome} {resp : Response}
  {α : Type} {Q : α → Unit → Prop} {R : Empty → Unit → Prop}

theorem follows_request {c : Candidate} {Q : Except Bytes Response → Unit → Prop} :
    Follows (requesting P) (perform (.request c)) () Q R ↔ P c.url ∧ ∀ x, Q x () := by
  constructor
  · rintro ⟨hc, hQ⟩
    exact ⟨hc c rfl, fun x => hQ x () rfl⟩
  · rintro ⟨hc, hQ⟩
    refine ⟨fun c' heq => ?_, fun x _ _ => hQ x⟩
    obtain rfl := Cmd.request.inj heq
    exact hc

theorem follows_get {key : Bytes} {Q : Option Bytes → Unit → Prop} :
    Follows (requesting P) (perform (.get key)) () Q R ↔ ∀ x, remembered x = true → Q x () := by
  constructor
  · rintro ⟨-, hQ⟩ x hx
    exact hQ x () (if_pos hx)
  · refine fun hQ => ⟨nofun, fun x q hq => ?_⟩
    by_cases hx : remembered x = true
    · exact hQ x hx
    · rw [requesting] at hq
      simp only [if_neg hx] at hq
      cases hq

/-- Every other command is allowed. -/
theorem follows_other {c : Cmd} {Q : c.Answer → Unit → Prop}
    (hc : ∀ candidate, c ≠ .request candidate) (hQ : ∀ x, Q x ()) :
    Follows (requesting P) (perform c) () Q R :=
  ⟨fun candidate heq => absurd heq (hc candidate), fun x _ _ => hQ x⟩

theorem requests_writeDirectResult {detectedHLS length : Bool} {replayed : Bytes} :
    Requests P (writeDirectResult r resp detectedHLS replayed length) := by
  have hclose : ∀ x : Unit, Follows (requesting P) (perform .close) x (fun _ _ => True)
      (fun _ _ => True) := fun _ => follows_other nofun fun _ => trivial
  refine follows_bind.mpr ?_
  refine follows_ite.mpr ⟨fun _ => ?_, fun _ => follows_ite.mpr ⟨fun _ => ?_, fun _ => ?_⟩⟩
  · exact follows_other nofun fun _ => hclose ()
  · refine follows_bind.mpr (follows_other nofun fun x => ?_)
    rcases x with text | _
    · exact follows_other nofun fun _ => hclose ()
    · exact follows_bind.mpr (follows_other nofun fun _ => follows_other nofun fun _ => hclose ())
  · exact follows_bind.mpr (follows_other nofun fun _ => follows_other nofun fun _ => hclose ())

theorem requests_error {text : Bytes} {status : ℕ} : Requests P (perform (.error text status)) :=
  follows_other nofun fun _ => trivial

theorem requests_httpError {message : Bytes} {status : ℕ} :
    Requests P (httpError message status) := requests_error

theorem requests_giveUp : Requests P (giveUp o) := by
  refine follows_ite.mpr ⟨fun _ => requests_error, fun _ => ?_⟩
  refine follows_ite.mpr ⟨fun _ => requests_error, fun _ => ?_⟩
  cases o.lastErr with
  | some text => exact requests_error
  | none => exact requests_error

theorem follows_probe {c : TargetURL} {Q : Probe → Unit → Prop} (hQ : ∀ probe, Q probe ()) :
    Follows (requesting P) (probeCatchupResponse resp c r.range) () Q R := by
  refine follows_ite.mpr ⟨fun _ => ?_, fun _ => hQ _⟩
  exact follows_bind.mpr (follows_other nofun fun _ => hQ _)

/-- The loop requests its candidates, all of them if it gets no answer. -/
theorem requests_negotiate :
    Requests P (negotiate h r candidates o) ↔ ∀ c ∈ candidates, P c.url := by
  induction candidates generalizing o with
  | nil => exact iff_of_true requests_giveUp fun _ => nofun
  | cons c candidates ih =>
    rw [List.forall_mem_cons]
    refine follows_bind.trans (follows_request.trans (and_congr_right fun _ => ?_))
    constructor
    · exact fun hall => ih.mp (hall (.error []))
    · rintro hcandidates (text | resp)
      · exact ih.mpr hcandidates
      · have hnext : ∀ o, Requests P (do perform .close; negotiate h r candidates o) := fun o =>
          follows_bind.mpr (follows_other nofun fun _ => ih.mpr hcandidates)
        refine follows_ite.mpr ⟨fun _ => requests_writeDirectResult, fun _ => ?_⟩
        refine follows_ite.mpr ⟨fun _ => requests_writeDirectResult, fun _ => ?_⟩
        refine follows_ite.mpr ⟨fun _ => ?_, fun _ => hnext _⟩
        refine follows_bind.mpr (follows_probe fun result => ?_)
        refine follows_ite.mpr ⟨fun _ => follows_bind.mpr ?_, fun _ => hnext _⟩
        refine follows_ite.mpr ⟨fun _ => ?_, fun _ => requests_writeDirectResult⟩
        refine follows_ite.mpr ⟨fun _ => requests_writeDirectResult, fun _ => ?_⟩
        exact follows_other nofun fun _ => requests_writeDirectResult

theorem requests_preferred {Q : Bytes → Unit → Prop}
    (hQ : ∀ preferred, (ascii "_original").isSuffixOf preferred = false → Q preferred ()) :
    Follows (requesting P) (preferredCatchupFormat h) () Q R := by
  refine follows_ite.mpr ⟨fun _ => hQ [] (by decide), fun _ => ?_⟩
  refine follows_bind.mpr (follows_get.mpr fun x hx => ?_)
  rcases x with _ | format
  · exact hQ [] (by decide)
  · exact hQ format (by simpa [remembered] using hx)

/-- The candidates are requested, whatever format is remembered. -/
theorem requests_serveCatchupDirect
    (hP : ∀ preferred candidates, (ascii "_original").isSuffixOf preferred = false →
      buildCatchupCandidates target preferred = some candidates → ∀ c ∈ candidates, P c.url) :
    Requests P (serveCatchupDirect h r target) := by
  refine follows_bind.mpr (requests_preferred fun preferred hpreferred => ?_)
  rcases hbuild : buildCatchupCandidates target preferred with _ | _ | ⟨c, candidates⟩
  · exact requests_error
  · exact requests_error
  · exact requests_negotiate.mpr (hP preferred _ hpreferred hbuild)

/-- They are requested if no format is remembered. -/
theorem forall_of_serveCatchupDirect (hm : Requests P (serveCatchupDirect h r target))
    (hbuild : buildCatchupCandidates target [] = some candidates) : ∀ c ∈ candidates, P c.url := by
  have hbind := follows_bind.mp hm
  rw [preferredCatchupFormat] at hbind
  rcases candidates with _ | ⟨c, candidates⟩
  · exact fun _ h => by cases h
  · split at hbind
    · rw [follows_pure, hbuild] at hbind
      exact requests_negotiate.mp hbind
    · have hnone := follows_get.mp (follows_bind.mp hbind) none rfl
      rw [follows_pure, Option.getD_none, hbuild] at hnone
      exact requests_negotiate.mp hnone

/-! ## The candidates of a URL -/

theorem Exact.symm (h : Exact u v) : Exact v u :=
  ⟨h.scheme.symm, h.host.symm, h.escapedPath.symm, h.rawQuery.symm⟩

theorem length_joinSlash (segments : List Bytes) (h : segments ≠ []) :
    segments.length ≤ (splitSlash (joinSlash segments)).length := by
  induction segments with
  | nil => exact absurd rfl h
  | cons s segments ih =>
    have hpos : ∀ t : Bytes, 0 < (splitSlash t).length :=
      fun t => List.length_pos_iff.mpr (List.splitOn_ne_nil _ _)
    rcases segments with _ | ⟨s', segments⟩
    · exact hpos _
    · have hjoin : joinSlash (s :: s' :: segments) = s ++ slash :: joinSlash (s' :: segments) := by
        simp [joinSlash, List.intercalate_cons_cons]
      have hrest := ih (by simp)
      have hs := hpos s
      rw [hjoin, splitSlash, List.splitOn_append_cons_self, List.length_append]
      rw [splitSlash] at hrest hs
      rw [List.length_cons]
      omega

theorem joinSlash_concat (segments : List Bytes) (s : Bytes) :
    ∃ t, joinSlash (segments ++ [s]) = t ++ s := by
  induction segments with
  | nil => exact ⟨[], by simp [joinSlash]⟩
  | cons a segments ih =>
    obtain ⟨t, ht⟩ := ih
    rcases hrest : segments ++ [s] with _ | ⟨b, rest⟩
    · simp at hrest
    · refine ⟨a ++ slash :: t, ?_⟩
      rw [hrest] at ht
      rw [List.cons_append, hrest, joinSlash, List.intercalate_cons_cons, ← joinSlash, ht]
      simp

/-- A path candidate has six segments behind the base path, or more. -/
theorem length_segments_pathURL (start : Bytes) (hd : WellFormed target d) :
    d.baseSegments.length + 6 ≤ (pathURL d start).segments.length := by
  set segments := d.baseSegments ++ [ascii "timeshift", d.username, d.password, d.duration, start,
    d.streamID ++ d.extension] with hsegments
  have hhead : (joinSlash segments).head? ≠ some slash := by
    rcases hbase : d.baseSegments with _ | ⟨b, base⟩
    · rw [hsegments, hbase]
      simp [joinSlash, List.intercalate_cons_cons, ascii, slash]
    · rcases b with _ | ⟨c, b⟩
      · exact absurd (by rw [hbase]; rfl) hd.head
      · have hc : c ≠ slash := by
          rintro rfl
          exact hd.noSlash (slash :: b) (by rw [hbase]; exact List.mem_cons_self) List.mem_cons_self
        rw [hsegments, hbase]
        simpa [joinSlash, List.intercalate_cons_cons] using hc
  have hlast : (joinSlash segments).getLast? ≠ some slash := by
    obtain ⟨tail, htail, -, hslash⟩ := hd.extension
    obtain ⟨t, ht⟩ := joinSlash_concat (d.baseSegments ++ [ascii "timeshift", d.username,
      d.password, d.duration, start]) (d.streamID ++ d.extension)
    rw [List.append_assoc] at ht
    change joinSlash segments = _ at ht
    rw [ht, htail, ← List.append_assoc, List.getLast?_append_of_ne_nil _ (by simp)]
    intro hmem
    rcases List.mem_cons.mp (List.mem_of_getLast? hmem) with hdot | hmem
    · exact absurd hdot (by decide)
    · exact hslash hmem
  rw [TargetURL.segments]
  change _ ≤ (splitSlash (trimSlashes (slash :: joinSlash segments))).length
  rw [trimSlashes_of_ends hhead hlast]
  have hlength := length_joinSlash segments (by rw [hsegments]; simp)
  have hcount : segments.length = d.baseSegments.length + 6 := by simp [hsegments]
  omega

/-- How many segments there are behind the base path. -/
theorem length_segments (hd : describeCatchupTarget target = some d) :
    (d.layout = .path ∧ (timeshiftPathParts target).isSome = true ∧
      d.baseSegments.length + 6 ≤ target.segments.length) ∨
    (d.layout = .query ∧ isStreamingTimeshiftTarget target = true ∧
      target.segments.length = d.baseSegments.length + 2) := by
  rcases describe_cases hd with ⟨index, hindex, hpath⟩ | ⟨hindex, hlength, hquery⟩
  · obtain ⟨-, hlayout, hbase⟩ := describePath_wellFormed hindex hpath
    have hlt := timeshiftIndex_lt hindex
    refine .inl ⟨hlayout, by rw [timeshiftPathParts, hindex]; rfl, ?_⟩
    rw [hbase, List.length_take]
    omega
  · obtain ⟨-, hlayout⟩ := describeQuery_wellFormed hlength hquery
    refine .inr ⟨hlayout, ?_, ?_⟩
    · by_contra hstreaming
      rw [describeCatchupTarget, timeshiftPathParts, hindex] at hd
      simp [hstreaming] at hd
    · simp only [describeQuery] at hquery
      split at hquery
      · cases hquery
      · obtain rfl := Option.some.inj hquery
        rw [List.length_take]
        omega

theorem isXtreamCatchupTarget_of_describe (hd : describeCatchupTarget target = some d) :
    isXtreamCatchupTarget target = true := by
  rw [isXtreamCatchupTarget, isTimeshiftPathTarget, Bool.or_eq_true]
  exact (length_segments hd).imp (fun h => h.2.1) fun h => h.2.1

/-- The URL itself is the only candidate if its start is not understood. -/
theorem url_of_candidate {preferred : Bytes} {c : Candidate}
    (hd : describeCatchupTarget target = some d) (hstart : parseCatchupStart d.start = none)
    (hpreferred : (ascii "_original").isSuffixOf preferred = false)
    (hbuild : buildCatchupCandidates target preferred = some candidates) (hc : c ∈ candidates) :
    c.url = target := by
  rw [candidates_list hd hbuild] at hc
  rcases mem_foldl hc with hnil | hmem
  · cases hnil
  · rcases mem_offers hmem with htarget | ⟨hurl, hformat⟩
    · exact Option.some.inj htarget
    · exfalso
      have horiginal : c.format ≠ ascii "path_original" ∧ c.format ≠ ascii "query_original" := by
        rcases hformat with rfl | hformat
        · constructor
          · intro heq
            rw [heq] at hpreferred
            exact absurd hpreferred (by decide)
          · intro heq
            rw [heq] at hpreferred
            exact absurd hpreferred (by decide)
        · have hall : ∀ f ∈ standard, f ≠ ascii "path_original" ∧ f ≠ ascii "query_original" := by
            decide
          exact hall _ hformat
      rw [buildCatchupCandidateURL, candidateStart, if_pos horiginal, hstart] at hurl
      cases hurl

/-- Otherwise there is one with another path. -/
theorem exists_candidate {t : Timestamps.Time} (hd : describeCatchupTarget target = some d)
    (hstart : parseCatchupStart d.start = some t)
    (hbuild : buildCatchupCandidates target [] = some candidates) :
    ∃ c ∈ candidates, ¬Exact target c.url := by
  have horiginal := (wellFormed_of_describe hd).original
  -- a candidate in either layout
  have hoffered : ∀ format ∈ standard, ∀ w, buildCatchupCandidateURL d format = some w →
      w.scheme = target.scheme → w.host = target.host →
      w.segments ≠ target.segments → ∃ c ∈ candidates, ¬Exact target c.url := by
    intro format hformat w hw hscheme hhost hsegments
    have hmem : (some w, format) ∈ offers d target [] := by
      rw [← hw, offers, List.mem_append, List.mem_cons]
      exact .inr (.inr (List.mem_map_of_mem hformat))
    obtain ⟨c, hc, htext⟩ := exists_mem_foldl [] hmem
    rw [← candidates_list hd hbuild] at hc
    refine ⟨c, hc, fun hexact => hsegments ?_⟩
    rw [← hexact.segments]
    exact (TargetURL.string_inj (hexact.scheme.trans hscheme.symm)
      (hexact.host.trans hhost.symm) htext).1.symm
  rcases length_segments hd with ⟨-, -, hlength⟩ | ⟨-, -, hlength⟩
  · have hbuilt : buildCatchupCandidateURL d (ascii "query_sql") =
        some (queryURL d (Timestamps.format sql t)) := by
      rw [buildCatchupCandidateURL, candidateStart_of_layout hstart (L := sql) rfl (by decide)]
      rfl
    refine hoffered _ (by decide) _ hbuilt ?_ ?_ ?_
    · rw [queryURL, horiginal]
    · rw [queryURL, horiginal]
    · intro heq
      rw [← heq, segments_queryURL (wellFormed_of_describe hd), querySegments,
        List.length_append] at hlength
      simp at hlength
  · have hbuilt : buildCatchupCandidateURL d (ascii "path_colon_dash") =
        some (pathURL d (Timestamps.format colonDash t)) := by
      rw [buildCatchupCandidateURL, candidateStart_of_layout hstart (L := colonDash) rfl (by decide)]
      rfl
    have hlong := length_segments_pathURL (Timestamps.format colonDash t)
      (wellFormed_of_describe hd)
    refine hoffered _ (by decide) _ hbuilt ?_ ?_ ?_
    · rw [pathURL, horiginal]
    · rw [pathURL, horiginal]
    · intro heq
      rw [heq] at hlong
      omega

/-! ## What is served -/

theorem requests_finishDirect : Requests P (finishDirect r target resp) := by
  refine follows_ite.mpr ⟨fun _ => ?_, fun _ => requests_writeDirectResult⟩
  refine follows_ite.mpr ⟨fun _ => follows_bind.mpr ?_, fun _ => requests_writeDirectResult⟩
  refine follows_ite.mpr ⟨fun _ => requests_writeDirectResult, fun _ => ?_⟩
  refine follows_bind.mpr (follows_other nofun fun x => ?_)
  rcases x with err | start
  · exact requests_writeDirectResult
  · exact requests_writeDirectResult

theorem shouldTry_of_path (h : isTimeshiftPathTarget target = true) :
    shouldTryTimeshiftPHPFallback ⟨404, [], -1, .get, []⟩ target = true := by
  rw [shouldTryTimeshiftPHPFallback, h]
  rfl

theorem alternate_of_path (hd : describeCatchupTarget target = some d) (hlayout : d.layout = .path) :
    timeshiftPHPAlternate target = some (queryURL d d.start) := by
  rw [timeshiftPHPAlternate, hd]
  simp only [if_pos hlayout]
  rfl

theorem path_of_shouldTry (h : shouldTryTimeshiftPHPFallback resp target = true) :
    isTimeshiftPathTarget target = true := by
  by_contra hpath
  rw [shouldTryTimeshiftPHPFallback, if_pos (eq_false_of_ne_true hpath)] at h
  cases h

theorem not_respelt_of_requests (hr : r.method ≠ .other)
    (hm : Requests (Exact target) (serveDirect h r target)) : ¬Respelt target := by
  rintro ⟨d, hd, hrespelt⟩
  have hxtream := isXtreamCatchupTarget_of_describe hd
  split at hrespelt
  · next hhls =>
    -- the playlist is not found, and asked for in the query layout
    have hpath : isTimeshiftPathTarget target = true := by
      rcases length_segments hd with ⟨-, hpath, -⟩ | ⟨hlayout, -⟩
      · exact hpath
      · rw [hlayout] at hrespelt
        cases hrespelt
    have hdirect := hm
    rw [serveDirect, if_neg fun hcatchup => by rw [hhls] at hcatchup; cases hcatchup.2.2] at hdirect
    have hanswered := (follows_request.mp (follows_bind.mp hdirect)).2 (.ok ⟨404, [], -1, .get, []⟩)
    simp only [shouldTry_of_path hpath, hr, ne_eq, not_false_eq_true, and_true, if_true,
      alternate_of_path hd hrespelt] at hanswered
    have hclosed := (follows_bind.mp hanswered).2 () () rfl
    have hexact := (follows_request.mp (follows_bind.mp hclosed)).1
    rcases length_segments hd with ⟨-, -, hlength⟩ | ⟨hlayout, -⟩
    · rw [← hexact.segments, segments_queryURL (wellFormed_of_describe hd), querySegments,
        List.length_append] at hlength
      simp at hlength
    · rw [hlayout] at hrespelt
      cases hrespelt
  · next hhls =>
    obtain ⟨t, ht⟩ := Option.ne_none_iff_exists'.mp hrespelt
    rw [serveDirect, if_pos ⟨hr, hxtream, eq_false_of_ne_true hhls⟩] at hm
    obtain ⟨candidates, hbuild⟩ : ∃ candidates,
        buildCatchupCandidates target [] = some candidates := by
      rw [buildCatchupCandidates, hd]
      exact ⟨_, rfl⟩
    obtain ⟨c, hc, hnot⟩ := exists_candidate hd ht hbuild
    exact hnot (forall_of_serveCatchupDirect hm hbuild c hc)

theorem requests_of_not_respelt (hP : P target) (hnot : ¬Respelt target) :
    Requests P (serveDirect h r target) := by
  refine follows_ite.mpr ⟨fun hcatchup => ?_, fun hdirect => ?_⟩
  · apply requests_serveCatchupDirect
    intro preferred candidates hpreferred hbuild c hc
    obtain ⟨d, hd, -⟩ := Option.map_eq_some_iff.mp hbuild
    have hstart : parseCatchupStart d.start = none := by
      by_contra hstart
      exact hnot ⟨d, hd, by rw [hcatchup.2.2]; exact hstart⟩
    rw [url_of_candidate hd hstart hpreferred hbuild hc]
    exact hP
  · refine follows_bind.mpr (follows_request.mpr ⟨hP, fun answer => ?_⟩)
    rcases answer with err | resp
    · exact requests_httpError
    · refine follows_ite.mpr ⟨fun hfallback => ?_, fun _ => requests_finishDirect⟩
      have hpath := path_of_shouldTry hfallback.2
      have hhls : isExplicitCatchupHLS target = true := by
        by_contra hhls
        refine hdirect ⟨hfallback.1, ?_, eq_false_of_ne_true hhls⟩
        rw [isXtreamCatchupTarget, hpath]
        rfl
      have halternate : timeshiftPHPAlternate target = none := by
        rw [timeshiftPHPAlternate]
        cases hd : describeCatchupTarget target with
        | none => rfl
        | some d =>
          refine if_neg fun hlayout => hnot ⟨d, hd, ?_⟩
          rw [if_pos hhls]
          exact hlayout
      rw [halternate]
      exact requests_finishDirect

theorem Requests.mono {P' : TargetURL → Prop} {m : Op Unit} (hm : Requests P m)
    (hP : ∀ u, P u → P' u) : Requests P' m := by
  change Follows (requesting P') m () _ _
  have hgoal : ∀ x : Unit, Follows (requesting P) m x (fun _ _ => True) (fun _ _ => True) →
      Follows (requesting P') m x (fun _ _ => True) (fun _ _ => True) := by
    intro x hx
    clear hm
    induction m generalizing x with
    | pure => trivial
    | throw e => trivial
    | call c k ih => exact ⟨fun c' hc => hP _ (hx.1 c' hc), fun y q hq => ih y q (hx.2 y q hq)⟩
  exact hgoal () hm

theorem Exact.respelt (hexact : Exact u v) (h : Respelt u) : Respelt v := by
  obtain ⟨d, hd, hrespelt⟩ := h
  refine ⟨_, describe_congr hexact.segments.symm hexact.rawQuery.symm hd, ?_⟩
  have hhls : isExplicitCatchupHLS v = isExplicitCatchupHLS u := by
    rw [isExplicitCatchupHLS, isExplicitCatchupHLS, hexact.path, hexact.rawQuery]
  rw [hhls]
  exact hrespelt

/-- What is served for the text of a URL. -/
theorem requests_serveTarget (hu : Valid u) (hr : r.method ≠ .other) {invalid : Bytes}
    {stored : Target} (hprovider : stored.providerID = h.providerID)
    (hparsed : ∃ v, parseURL stored.url = some v ∧ Exact u v) :
    Requests (Exact u) (serveTarget h r invalid stored) ↔ ¬Respelt u := by
  obtain ⟨v, hv, hexact⟩ := hparsed
  have hweb : ¬isWeb v.scheme = false := by
    rw [hexact.scheme, hu.web]
    decide
  rw [serveTarget, if_neg (not_not.mpr hprovider), hv]
  simp only [if_neg hweb]
  constructor
  · intro hm hrespelt
    refine not_respelt_of_requests hr (hm.mono fun w hw => ?_) (hexact.respelt hrespelt)
    exact hexact.symm.trans hw
  · exact fun hnot => requests_of_not_respelt hexact fun hrespelt =>
      hnot (hexact.symm.respelt hrespelt)

/-- Nothing is requested for another provider. -/
theorem not_served {invalid : Bytes} {stored : Target} (hprovider : stored.providerID ≠ h.providerID) :
    Requests P (serveTarget h r invalid stored) := by
  rw [serveTarget, if_pos hprovider]
  exact requests_httpError

theorem mediaToken_plain {sum256 : Bytes → Bytes} (hsum : ∀ s, (sum256 s).length = 32)
    (providerID raw : Bytes) : deterministicMediaToken sum256 providerID raw ≠ [] ∧
      slash ∉ deterministicMediaToken sum256 providerID raw := by
  rw [deterministicMediaToken]
  set code := Base64.encode ((sum256 (providerID ++ 0 :: raw)).take 18) with hcode
  constructor
  · have hlength := hsum (providerID ++ 0 :: raw)
    rcases hs : sum256 (providerID ++ 0 :: raw) with _ | ⟨a, _ | ⟨b, _ | ⟨c, rest⟩⟩⟩
    all_goals rw [hs] at hlength hcode
    · cases hlength
    · cases hlength
    · cases hlength
    · rw [hcode]
      simp [ascii, Base64.encode, Base64.digits]
  · intro hmem
    rw [ascii, String.toList_ofList] at hmem
    obtain ⟨c, hc, heq⟩ := List.mem_map.mp hmem
    have hall : (Base64.alphabet.all fun c => Fin.ofNat 256 c.toNat ≠ slash) = true := by
      decide
    exact of_decide_eq_true (List.all_eq_true.mp hall c (Base64.mem_encode hc)) heq

/-- **What is requested for a token**: exactly the URL that it was issued for, and nothing under
another provider, if and only if the URL is not one that is spelled in other ways. -/
theorem served_exactly_iff (hu : Valid u) (hr : r.method ≠ .other) (hredis : h.redis = true)
    (sum256 : Bytes → Bytes) (hsum : ∀ s, (sum256 s).length = 32)
    {token : Bytes} {stored : Target}
    (hmedia : storeMediaTarget sum256 h.providerID u = some (token, stored))
    {raw : Bytes} (hlsToken : Bytes) {stored' : Target} (htoken : hlsToken ≠ [] ∧ slash ∉ hlsToken)
    (hraw : parseURL raw = some u) (hhls : storeHLSTarget h.providerID raw = some stored')
    (redis : Bytes → Except Bytes (Option Target))
    (hstored : redis (mediaTokenKey token) = .ok (some stored))
    (hstored' : redis (hlsTokenKey hlsToken) = .ok (some stored')) :
    (Requests (Exact u) (serveMediaToken redis h r token) ∧
      Requests (Exact u) (serveHLSToken redis h r hlsToken) ∧
      ∀ h' : Handler, h'.providerID ≠ h.providerID →
        Requests (fun _ => False) (serveMediaToken redis h' r token) ∧
        Requests (fun _ => False) (serveHLSToken redis h' r hlsToken)) ↔ ¬Respelt u := by
  obtain ⟨hprovider, hparsed⟩ := parseURL_of_media _ _ hu hmedia
  obtain ⟨hprovider', hparsed'⟩ := parseURL_of_hls hu hraw hhls
  have hplain : token ≠ [] ∧ slash ∉ token := by
    rw [storeMediaTarget, if_neg (by rw [hu.web]; decide)] at hmedia
    obtain ⟨rfl, -⟩ := Prod.mk.inj (Option.some.inj hmedia)
    exact mediaToken_plain hsum _ _
  have hmediaServed : ∀ h' : Handler, h'.redis = true → serveMediaToken redis h' r token =
      serveTarget h' r (ascii "invalid media target") stored := by
    intro h' hredis'
    rw [serveMediaToken, if_neg hr, if_neg (by simp [hplain, hredis']), hstored]
  have hhlsServed : ∀ h' : Handler, serveHLSToken redis h' r hlsToken =
      serveTarget h' r (ascii "invalid HLS target") stored' := by
    intro h'
    rw [serveHLSToken, if_neg (by simp [htoken]), hstored']
  have hother : ∀ h' : Handler, h'.providerID ≠ h.providerID →
      Requests (fun _ => False) (serveMediaToken redis h' r token) ∧
      Requests (fun _ => False) (serveHLSToken redis h' r hlsToken) := by
    intro h' hne
    constructor
    · cases hredis' : h'.redis with
      | true =>
        rw [hmediaServed h' hredis']
        exact not_served (by rw [hprovider]; exact hne.symm)
      | false =>
        rw [serveMediaToken, if_neg hr, if_pos (.inr (.inr hredis'))]
        exact requests_httpError
    · rw [hhlsServed h']
      exact not_served (by rw [hprovider']; exact hne.symm)
  rw [hmediaServed h hredis, hhlsServed h, requests_serveTarget hu hr hprovider hparsed,
    requests_serveTarget hu hr hprovider' hparsed']
  exact ⟨fun hserved => hserved.1, fun hnot => ⟨hnot, hnot, hother⟩⟩

/-! ### Signed URLs -/

theorem http_ne_nil : ascii "http" ≠ [] := by decide

theorem host_ne_nil : ascii "p" ≠ [] := by decide

/-- `http://p`, a path and a query -/
def signed (path query : String) : TargetURL where
  scheme := ascii "http"
  host := ascii "p"
  path := ascii path
  rawQuery := ascii query
  rawPath := []
  forceQuery := false
  hasScheme := http_ne_nil
  hasHost := host_ne_nil

theorem valid_signed {path query : String}
    (h : (signed path query).escapedPath.head? = some slash ∧
      (∀ s ∈ splitSlash (signed path query).escapedPath, s ≠ ascii "." ∧ s ≠ ascii "..") ∧
      ∀ c ∈ ascii query, isQueryByte c = true) : Valid (signed path query) where
  web := (by decide : isWeb (ascii "http") = true)
  host := (by decide : acceptsHost (Percent.escape hostMode (ascii "p")) = true)
  rooted _ := h.1
  plain := h.2.1
  query := h.2.2

/-- A signed URL of an archive. -/
def archive : TargetURL := signed "/timeshift/u/p/60/2026-08-30:01-30/123.ts" "token=abc"

/-- **The claim fails**: if the provider does not answer, the archive is asked for with other
starts and in the other layout. -/
theorem signed_timeshift_respelt : Valid archive ∧ ∃ token stored,
    storeMediaTarget (fun _ => List.replicate 32 0) (ascii "1") archive = some (token, stored) ∧
    ¬Requests (Exact archive) (serveMediaToken (fun _ => .ok (some stored)) ⟨true, ascii "1"⟩
      ⟨.get, []⟩ token) := by
  have hvalid : Valid archive :=
    valid_signed ⟨by decide, by decide, List.forall_iff_forall_mem.mp (by decide)⟩
  have hdescribed : (describeCatchupTarget archive).map Descriptor.start =
      some (ascii "2026-08-30:01-30") := by decide
  obtain ⟨d, hd, hstart⟩ := Option.map_eq_some_iff.mp hdescribed
  have hrespelt : Respelt archive := by
    refine ⟨d, hd, ?_⟩
    rw [if_neg (by decide), hstart]
    decide
  refine ⟨hvalid, _, _, rfl, fun hm => ?_⟩
  have hserved := parseURL_of_media (fun _ => List.replicate 32 0) (ascii "1") hvalid rfl
  rw [serveMediaToken, if_neg (by decide), if_neg (by decide)] at hm
  exact (requests_serveTarget hvalid (by decide) hserved.1 hserved.2).mp hm hrespelt

/-- A signed URL that is left alone. -/
def movie : TargetURL := signed "/movie/123.mp4" "token=abc"

/-- What is stored for it. -/
def movieTarget : Target := ⟨ascii "1", text movie⟩

theorem served_exactly_iff_movie :
    Requests (Exact movie) (serveMediaToken (fun _ => .ok (some movieTarget)) ⟨true, ascii "1"⟩
      ⟨.get, []⟩ (deterministicMediaToken (fun _ => List.replicate 32 0) (ascii "1") (text movie))) ∧
    Requests (Exact movie) (serveHLSToken (fun _ => .ok (some movieTarget)) ⟨true, ascii "1"⟩
      ⟨.get, []⟩ (ascii "t")) := by
  have hvalid : Valid movie :=
    valid_signed ⟨by decide, by decide, List.forall_iff_forall_mem.mp (by decide)⟩
  have hraw : parseURL (text movie) = some movie := by decide
  have hhls : storeHLSTarget (ascii "1") (text movie) = some movieTarget := by decide
  have hnot : ¬Respelt movie := by
    rintro ⟨d, hd, -⟩
    rw [show describeCatchupTarget movie = none by decide] at hd
    cases hd
  have hserved := (served_exactly_iff (h := ⟨true, ascii "1"⟩) (r := ⟨.get, []⟩) hvalid (by decide)
    rfl (fun _ => List.replicate 32 0) (fun _ => List.length_replicate) rfl (ascii "t") (by decide)
    hraw hhls (fun _ => .ok (some movieTarget)) rfl rfl).mpr hnot
  exact ⟨hserved.1, hserved.2.1⟩

end IptvProxy.Media
