import IptvProxy.Catchup.Text
import IptvProxy.Lib.Timestamps

/-!
# Catch-up targets and candidates

`describeCatchupTarget` and `buildCatchupCandidates` of `internal/proxy/catchup.go`: a catch-up URL
is taken apart, and put together again in both layouts and with every spelling of its start.
-/

namespace IptvProxy.Catchup

open Xtream Timestamps

/-! ## Descriptors -/

/-- `layout` -/
inductive Layout where
  | path
  | query
  deriving DecidableEq

/-- `catchupDescriptor` -/
structure Descriptor where
  /-- `original` -/
  original : TargetURL
  /-- `baseSegments` -/
  baseSegments : List Bytes
  /-- `username` -/
  username : Bytes
  /-- `password` -/
  password : Bytes
  /-- `duration` -/
  duration : Bytes
  /-- `start` -/
  start : Bytes
  /-- `streamID` -/
  streamID : Bytes
  /-- `extension` -/
  extension : Bytes
  /-- `extraQuery` -/
  extraQuery : Values
  /-- `layout` -/
  layout : Layout
  deriving DecidableEq

/-- The search of `timeshiftPathParts`, from the last place where all six segments fit. -/
def timeshiftIndex (segments : List Bytes) : Option ℕ :=
  (List.range (segments.length - 5)).reverse.find? fun index =>
    equalFold (segments.getD index []) (ascii "timeshift")

/-- `timeshiftPathParts` -/
def timeshiftPathParts (target : TargetURL) : Option (List Bytes × ℕ) :=
  (timeshiftIndex target.segments).map fun index => (target.segments, index)

/-- `isStreamingTimeshiftTarget` -/
def isStreamingTimeshiftTarget (target : TargetURL) : Bool :=
  if target.segments.length < 2 then false
  else equalFold (target.segments.getD (target.segments.length - 2) []) (ascii "streaming") &&
    equalFold (target.segments.getD (target.segments.length - 1) []) (ascii "timeshift.php")

/-- The parameters of a catch-up query. -/
def queryKeys : List Bytes :=
  [ascii "username", ascii "password", ascii "duration", ascii "start", ascii "stream"]

/-- The extension of a stream, by default `.ts`. -/
def extensionOf (stream : Bytes) : Bytes := if ext stream = [] then ascii ".ts" else ext stream

/-- The path layout in `describeCatchupTarget`. -/
def describePath (target : TargetURL) (segments : List Bytes) (index : ℕ) : Option Descriptor :=
  let streamFile := segments.getD (index + 5) []
  let streamID := trimSuffix streamFile (ext streamFile)
  if segments.getD (index + 1) [] = [] ∨ segments.getD (index + 2) [] = [] ∨
      segments.getD (index + 3) [] = [] ∨ segments.getD (index + 4) [] = [] ∨ streamID = [] then
    none
  else some {
    original := target
    baseSegments := segments.take index
    username := segments.getD (index + 1) []
    password := segments.getD (index + 2) []
    duration := segments.getD (index + 3) []
    start := segments.getD (index + 4) []
    streamID := streamID
    extension := extensionOf streamFile
    extraQuery := (Values.parse target.rawQuery).1
    layout := .path }

/-- The query layout in `describeCatchupTarget`. -/
def describeQuery (target : TargetURL) (q : Values) : Option Descriptor :=
  let streamValue := q.get (ascii "stream")
  if q.get (ascii "username") = [] ∨ q.get (ascii "password") = [] ∨
      q.get (ascii "duration") = [] ∨ q.get (ascii "start") = [] ∨ streamValue = [] then none
  else some {
    original := target
    baseSegments := target.segments.take (target.segments.length - 2)
    username := q.get (ascii "username")
    password := q.get (ascii "password")
    duration := q.get (ascii "duration")
    start := q.get (ascii "start")
    streamID := trimSuffix streamValue (ext streamValue)
    extension := extensionOf streamValue
    extraQuery := queryKeys.foldl Values.del q
    layout := .query }

/-- `describeCatchupTarget` -/
def describeCatchupTarget (target : TargetURL) : Option Descriptor :=
  match timeshiftPathParts target with
  | some (segments, index) => describePath target segments index
  | none =>
    if isStreamingTimeshiftTarget target = false then none
    else describeQuery target (Values.parse target.rawQuery).1

/-! ## Starts -/

/-- `2006-01-02:15-04` -/
def colonDash : List Chunk :=
  [.year, .lit 45, .month, .lit 45, .day, .lit 58, .hour, .lit 45, .minute]
/-- `2006-01-02_15-04` -/
def underscore : List Chunk :=
  [.year, .lit 45, .month, .lit 45, .day, .lit 95, .hour, .lit 45, .minute]
/-- `20060102-15` -/
def compactHour : List Chunk := [.year, .month, .day, .lit 45, .hour]
/-- `2006-01-02:15:04:05` -/
def colonSeconds : List Chunk :=
  [.year, .lit 45, .month, .lit 45, .day, .lit 58, .hour, .lit 58, .minute, .lit 58, .second]
/-- `2006-01-02:15:04` -/
def colonMinutes : List Chunk :=
  [.year, .lit 45, .month, .lit 45, .day, .lit 58, .hour, .lit 58, .minute]
/-- `2006-01-02 15:04:05` -/
def sql : List Chunk :=
  [.year, .lit 45, .month, .lit 45, .day, .space, .hour, .lit 58, .minute, .lit 58, .second]
/-- `2006-01-02T15:04:05` -/
def iso : List Chunk :=
  [.year, .lit 45, .month, .lit 45, .day, .lit 84, .hour, .lit 58, .minute, .lit 58, .second]
/-- `time.RFC3339` -/
def rfc3339 : List Chunk := iso ++ [.zone]

/-- The layouts that `parseCatchupStart` tries. -/
def startLayouts : List (List Chunk) :=
  [colonDash, underscore, compactHour, colonSeconds, colonMinutes, sql, iso, rfc3339]

/-- `parseCatchupStart` -/
def parseCatchupStart (value : Bytes) : Option Time :=
  startLayouts.findSome? fun layout => Timestamps.parse layout (trimSpace value)

/-- The switch of `catchupStartForFormat`. -/
def layoutOf (format : Bytes) : Option (List Chunk) :=
  if format = ascii "path_colon_dash" ∨ format = ascii "query_colon_dash" then some colonDash
  else if format = ascii "path_underscore" ∨ format = ascii "query_underscore" then some underscore
  else if format = ascii "path_compact_hour" ∨ format = ascii "query_compact_hour" then
    some compactHour
  else if format = ascii "path_colon_seconds" ∨ format = ascii "query_colon_seconds" then
    some colonSeconds
  else if format = ascii "query_sql" then some sql
  else none

/-- `catchupStartForFormat` -/
def catchupStartForFormat (parsed : Time) (format : Bytes) : Bytes :=
  match layoutOf format with
  | some layout => Timestamps.format layout parsed
  | none => []

/-! ## Candidates -/

/-- The path layout in `buildCatchupCandidateURL`. -/
def pathURL (d : Descriptor) (start : Bytes) : TargetURL :=
  { d.original with
    path := slash :: joinSlash (d.baseSegments ++ [ascii "timeshift", d.username, d.password,
      d.duration, start, d.streamID ++ d.extension])
    rawPath := []
    rawQuery := d.extraQuery.encode }

/-- The query layout in `buildCatchupCandidateURL`. -/
def queryURL (d : Descriptor) (start : Bytes) : TargetURL :=
  { d.original with
    path := slash :: joinSlash (d.baseSegments ++ [ascii "streaming", ascii "timeshift.php"])
    rawPath := []
    rawQuery := (((((d.extraQuery.set (ascii "username") d.username).set (ascii "password")
      d.password).set (ascii "stream") d.streamID).set (ascii "start") start).set
        (ascii "duration") d.duration).encode }

/-- The start of a candidate: as it is, or in the spelling of the format. -/
def candidateStart (d : Descriptor) (format : Bytes) : Option Bytes :=
  if format ≠ ascii "path_original" ∧ format ≠ ascii "query_original" then
    match parseCatchupStart d.start with
    | none => none
    | some parsed =>
      let start := catchupStartForFormat parsed format
      if start = [] then none else some start
  else some d.start

/-- `buildCatchupCandidateURL` -/
def buildCatchupCandidateURL (d : Descriptor) (format : Bytes) : Option TargetURL :=
  match candidateStart d format with
  | none => none
  | some start =>
    if (ascii "path_").isPrefixOf format then some (pathURL d start)
    else if (ascii "query_").isPrefixOf format then some (queryURL d start)
    else none

/-- The formats of `originalCatchupFormat`. -/
def layoutFormats : Layout → List Bytes
  | .path => [ascii "path_colon_dash", ascii "path_underscore", ascii "path_compact_hour",
      ascii "path_colon_seconds"]
  | .query => [ascii "query_underscore", ascii "query_sql", ascii "query_colon_dash",
      ascii "query_compact_hour", ascii "query_colon_seconds"]

/-- `descriptor.layout + "_original"` -/
def Layout.original : Layout → Bytes
  | .path => ascii "path_original"
  | .query => ascii "query_original"

/-- `originalCatchupFormat` -/
def originalCatchupFormat (d : Descriptor) : Bytes :=
  match parseCatchupStart d.start with
  | none => d.layout.original
  | some parsed =>
    match (layoutFormats d.layout).find? fun format =>
      d.start = catchupStartForFormat parsed format with
    | some format => format
    | none => d.layout.original

/-- `catchupCandidate` -/
structure Candidate where
  /-- `URL` -/
  url : TargetURL
  /-- `Format` -/
  format : Bytes
  deriving DecidableEq

/-- `standard` -/
def standard : List Bytes :=
  [ascii "path_colon_dash", ascii "path_underscore", ascii "path_compact_hour",
    ascii "path_colon_seconds", ascii "query_underscore", ascii "query_sql",
    ascii "query_colon_dash", ascii "query_compact_hour", ascii "query_colon_seconds"]

/-- `appendCandidate`; the texts that were seen are those of the candidates. -/
def appendCandidate (candidates : List Candidate) (offer : Option TargetURL × Bytes) :
    List Candidate :=
  match offer.1 with
  | none => candidates
  | some url =>
    if candidates.any fun c => c.url.string = url.string then candidates
    else candidates ++ [⟨url, offer.2⟩]

/-- What `buildCatchupCandidates` appends, in order. -/
def offers (d : Descriptor) (target : TargetURL) (preferred : Bytes) :
    List (Option TargetURL × Bytes) :=
  (if preferred ≠ [] then [(buildCatchupCandidateURL d preferred, preferred)] else []) ++
    (some target, originalCatchupFormat d) ::
      standard.map fun format => (buildCatchupCandidateURL d format, format)

/-- `buildCatchupCandidates` -/
def buildCatchupCandidates (target : TargetURL) (preferred : Bytes) : Option (List Candidate) :=
  (describeCatchupTarget target).map fun d =>
    (offers d target preferred).foldl appendCandidate []

/-! ## The list of candidates -/

section Appending

variable {candidates : List Candidate} {offered : List (Option TargetURL × Bytes)}

theorem appendCandidate_cases (candidates : List Candidate) (offer : Option TargetURL × Bytes) :
    (appendCandidate candidates offer = candidates ∧
      ∀ u, offer.1 = some u → ∃ c ∈ candidates, c.url.string = u.string) ∨
    ∃ u, offer.1 = some u ∧ (∀ c ∈ candidates, c.url.string ≠ u.string) ∧
      appendCandidate candidates offer = candidates ++ [⟨u, offer.2⟩] := by
  obtain ⟨_ | u, format⟩ := offer
  · exact .inl ⟨rfl, by rintro u ⟨⟩⟩
  · by_cases hseen : ∃ c ∈ candidates, c.url.string = u.string
    · left
      constructor
      · exact if_pos (by simpa using hseen)
      · rintro _ heq
        obtain rfl := Option.some.inj heq
        exact hseen
    · right
      refine ⟨u, rfl, by simpa using hseen, ?_⟩
      exact if_neg (by simpa using hseen)

/-- Candidates stay at the front. -/
theorem prefix_foldl (candidates : List Candidate) (offered : List (Option TargetURL × Bytes)) :
    candidates <+: offered.foldl appendCandidate candidates := by
  induction offered generalizing candidates with
  | nil => exact List.prefix_refl _
  | cons offer offered ih =>
    refine List.IsPrefix.trans ?_ (ih _)
    rcases appendCandidate_cases candidates offer with ⟨h, -⟩ | ⟨u, -, -, h⟩
    · rw [h]
    · rw [h]
      exact List.prefix_append _ _

/-- No two candidates have the same text. -/
theorem nodup_foldl (h : (candidates.map fun c => c.url.string).Nodup) :
    ((offered.foldl appendCandidate candidates).map fun c => c.url.string).Nodup := by
  induction offered generalizing candidates with
  | nil => exact h
  | cons offer offered ih =>
    apply ih
    rcases appendCandidate_cases candidates offer with ⟨heq, -⟩ | ⟨u, -, hnew, heq⟩
    · rw [heq]
      exact h
    · rw [heq, List.map_append, List.nodup_append]
      refine ⟨h, by simp, ?_⟩
      intro a ha b hb
      obtain ⟨c, hc, rfl⟩ := List.mem_map.mp ha
      obtain rfl := List.mem_singleton.mp hb
      exact hnew c hc

/-- A candidate was offered. -/
theorem mem_foldl {c : Candidate} (hc : c ∈ offered.foldl appendCandidate candidates) :
    c ∈ candidates ∨ (some c.url, c.format) ∈ offered := by
  induction offered generalizing candidates with
  | nil => exact .inl hc
  | cons offer offered ih =>
    rcases ih hc with hold | hoffered
    · rcases appendCandidate_cases candidates offer with ⟨heq, -⟩ | ⟨u, hu, -, heq⟩
      · rw [heq] at hold
        exact .inl hold
      · rw [heq, List.mem_append, List.mem_singleton] at hold
        rcases hold with hold | rfl
        · exact .inl hold
        · right
          rw [← hu]
          exact List.mem_cons_self
    · exact .inr (List.mem_cons_of_mem _ hoffered)

/-- Every offered URL is there, under its text. -/
theorem exists_mem_foldl (candidates : List Candidate) {u : TargetURL} {format : Bytes}
    (h : (some u, format) ∈ offered) :
    ∃ c ∈ offered.foldl appendCandidate candidates, c.url.string = u.string := by
  induction offered generalizing candidates with
  | nil => cases h
  | cons offer offered ih =>
    rcases List.mem_cons.mp h with rfl | h
    · have hthere : ∃ c ∈ appendCandidate candidates (some u, format),
          c.url.string = u.string := by
        rcases appendCandidate_cases candidates (some u, format) with
          ⟨heq, hseen⟩ | ⟨v, hv, -, heq⟩
        · rw [heq]
          exact hseen u rfl
        · obtain rfl := Option.some.inj hv
          rw [heq]
          exact ⟨⟨u, format⟩, List.mem_append_right _ (List.mem_singleton_self _), rfl⟩
      obtain ⟨c, hc, htext⟩ := hthere
      exact ⟨c, (prefix_foldl _ offered).subset hc, htext⟩
    · exact ih _ h

end Appending

theorem nodup_candidates {target : TargetURL} {preferred : Bytes} {candidates : List Candidate}
    (h : buildCatchupCandidates target preferred = some candidates) :
    (candidates.map fun c => c.url.string).Nodup := by
  obtain ⟨d, hd, rfl⟩ := Option.map_eq_some_iff.mp h
  exact nodup_foldl List.nodup_nil

end IptvProxy.Catchup
