import IptvProxy.Catchup.Target
import IptvProxy.Lib.Program

/-!
# Serving catch-up

`serveCatchupDirect` and `writeDirectResult` of `internal/proxy/direct_proxy.go`, with
`probeCatchupResponse` and the format memory of `internal/proxy/catchup.go`, as programs over the
commands that leave the handler. Log entries are left out.
-/

namespace IptvProxy.Catchup

open Xtream Effect

/-- `r.Method` -/
inductive Method where
  | get
  | head
  | other
  deriving DecidableEq

/-- What the handler reads of a client's request. -/
structure Request where
  /-- `Method` -/
  method : Method
  /-- `Header.Get("Range")` -/
  range : Bytes
  deriving DecidableEq

/-- What the handler reads of a provider's response. -/
structure Response where
  /-- `StatusCode` -/
  status : ℕ
  /-- `Header.Get("Content-Type")` -/
  contentType : Bytes
  /-- `ContentLength`, −1 if unknown -/
  contentLength : ℤ
  /-- `Request.Method`, after redirects -/
  method : Method
  /-- `Request.URL.Path`, after redirects -/
  path : Bytes
  deriving DecidableEq

/-- The handler and its provider. -/
structure Handler where
  /-- `h.redis` is there -/
  redis : Bool
  /-- `Provider.ID` -/
  providerID : Bytes
  deriving DecidableEq

/-- What the handler asks of the outside. -/
inductive Cmd where
  /-- read the remembered format of this key -/
  | get (key : Bytes)
  /-- remember a format for thirty days -/
  | set (key format : Bytes)
  /-- send the client's request to this URL and wait for the headers of the response -/
  | request (c : Candidate)
  /-- read up to 1024 bytes of the open body -/
  | readPrefix
  /-- close the open body -/
  | close
  /-- read the open body as a playlist and rewrite it -/
  | playlist
  /-- the status and headers of the open response, with or without its `Content-Length` -/
  | writeHeader (status : ℕ) (length : Bool)
  /-- these bytes and what is left of the open body -/
  | relay (replayed : Bytes)
  /-- the rewritten playlist -/
  | writePlaylist
  /-- `http.Error` -/
  | error (text : Bytes) (status : ℕ)

/-- The answers. -/
def Cmd.Answer : Cmd → Type
  | .get _ => Option Bytes
  | .request _ => Except Bytes Response
  | .readPrefix => Except Bytes Bytes
  | .playlist => Except Bytes Unit
  | _ => Unit

/-- A part of the handler. -/
abbrev Op (α : Type) : Type := Program Cmd Cmd.Answer Empty α

/-- One command. -/
abbrev perform (c : Cmd) : Op c.Answer := Program.perform c

/-! ## The probe -/

/-- The text contains an ASCII word in lower case, whatever the case of the text. -/
def containsFold (s word : Bytes) : Bool := (s.map lower).tails.any fun t => word.isPrefixOf t

/-- `isHLSResponse` -/
def isHLSResponse (resp : Response) (requested : TargetURL) : Bool :=
  containsFold resp.contentType (ascii "mpegurl") || equalFold (ext resp.path) (ascii ".m3u8") ||
    equalFold (ext requested.path) (ascii ".m3u8")

/-- `catchupLooksLikeDocument` -/
def catchupLooksLikeDocument (contentType body : Bytes) : Bool :=
  if containsFold contentType (ascii "html") || containsFold contentType (ascii "json") ||
      containsFold contentType (ascii "xml") then true
  else
    let start := ((trimSpace body).take 64).map lower
    (ascii "<!doctype html").isPrefixOf start || (ascii "<html").isPrefixOf start ||
      (ascii "<?xml").isPrefixOf start || (ascii "\x7b").isPrefixOf start ||
      (ascii "[").isPrefixOf start

/-- `findMPEGTSSync` -/
def findMPEGTSSync (body : Bytes) : Option ℕ :=
  (List.range body.length).find? fun offset =>
    body[offset]? = some 0x47 && body[offset + 188]? = some 0x47 &&
      (body[offset + 376]? = none || body[offset + 376]? = some 0x47)

/-- What `probeCatchupResponse` returns, and what it makes of the response. -/
structure Probe where
  /-- `accepted` -/
  accepted : Bool
  /-- `detectedHLS` -/
  detectedHLS : Bool
  /-- `err` -/
  err : Option Bytes
  /-- the bytes that are read again before the rest of the body -/
  replayed : Bytes
  /-- the `Content-Length` stays -/
  length : Bool
  deriving DecidableEq

/-- A rejection. -/
def Probe.rejected (err : Option Bytes) (replayed : Bytes) : Probe :=
  ⟨false, false, err, replayed, true⟩

/-- The part of `probeCatchupResponse` after the prefix of the body has been read. -/
def probePrefix (resp : Response) (range : Bytes) : Except Bytes Bytes → Probe
  | .error readErr => .rejected (some readErr) []
  | .ok start =>
    if start = [] then .rejected none []
    else if catchupLooksLikeDocument resp.contentType start then .rejected none start
    else if resp.status = 206 ∧ trimSpace range ≠ [] then ⟨true, false, none, start, true⟩
    else
      match findMPEGTSSync start with
      | none => .rejected none start
      | some offset =>
        ⟨true, false, none, start.drop offset, !(0 < offset && 0 ≤ resp.contentLength)⟩

/-- `probeCatchupResponse`, where `read` is what reading the prefix of the body gives. -/
def probe (resp : Response) (target : TargetURL) (range : Bytes) (read : Except Bytes Bytes) :
    Probe :=
  if resp.status ≠ 200 ∧ resp.status ≠ 206 then .rejected none []
  else if isHLSResponse resp target then ⟨true, true, none, [], true⟩
  else if resp.method = .head then ⟨true, false, none, [], true⟩
  else probePrefix resp range read

/-- `probeCatchupResponse` reads the body. -/
def readsPrefix (resp : Response) (target : TargetURL) : Bool :=
  (resp.status = 200 || resp.status = 206) && !isHLSResponse resp target && resp.method ≠ .head

/-- `probeCatchupResponse` -/
def probeCatchupResponse (resp : Response) (target : TargetURL) (range : Bytes) : Op Probe :=
  if readsPrefix resp target then do
    let read ← perform .readPrefix
    pure (probe resp target range read)
  else pure (probe resp target range (.ok []))

/-! ## Formats -/

/-- `catchupFormatKey` -/
def catchupFormatKey (providerID : Bytes) : Bytes := ascii "catchup:format:" ++ providerID

/-- `preferredCatchupFormat` -/
def preferredCatchupFormat (h : Handler) : Op Bytes :=
  if h.redis = false ∨ h.providerID = [] then pure []
  else do
    let value ← perform (.get (catchupFormatKey h.providerID))
    pure (Option.getD (α := Bytes) value [])

/-- `rememberCatchupFormat` -/
def rememberCatchupFormat (h : Handler) (format : Bytes) : Op Unit :=
  if h.redis = false ∨ h.providerID = [] ∨ format = [] ∨
      (ascii "_original").isSuffixOf format = true then pure ()
  else perform (.set (catchupFormatKey h.providerID) format)

/-- `isDecisiveCatchupStatus` -/
def isDecisiveCatchupStatus (status : ℕ) : Bool :=
  status = 401 || status = 403 || status = 406 || status = 408 || status = 429 || status = 458

/-! ## The negotiation -/

/-- `serveHLSPlaylist` -/
def serveHLSPlaylist (resp : Response) : Op Unit := do
  match ← perform .playlist with
  | .error text => perform (.error text 502)
  | .ok () => do
    perform (.writeHeader resp.status false)
    perform .writePlaylist

/-- `writeDirectResult` before its deferred `Close`. -/
def writeResponse (r : Request) (resp : Response) (detectedHLS : Bool) (replayed : Bytes)
    (length : Bool) : Op Unit :=
  if r.method = .head then perform (.writeHeader resp.status length)
  else if detectedHLS then serveHLSPlaylist resp
  else do
    perform (.writeHeader resp.status length)
    perform (.relay replayed)

/-- `writeDirectResult` -/
def writeDirectResult (r : Request) (resp : Response) (detectedHLS : Bool) (replayed : Bytes)
    (length : Bool) : Op Unit := do
  writeResponse r resp detectedHLS replayed length
  perform .close

/-- What the loop of `serveCatchupDirect` carries along. -/
structure Outcome where
  /-- `lastStatus` -/
  lastStatus : ℕ
  /-- `lastErr` -/
  lastErr : Option Bytes
  /-- `invalidSuccess` -/
  invalidSuccess : Bool

/-- The end of `serveCatchupDirect`, with no candidate left. -/
def giveUp (o : Outcome) : Op Unit :=
  if o.invalidSuccess then
    perform (.error (ascii "provider catch-up returned no valid MPEG-TS archive") 502)
  else if 400 ≤ o.lastStatus then
    perform (.error (ascii "provider catch-up request failed") o.lastStatus)
  else
    match o.lastErr with
    | some text => perform (.error text 502)
    | none => perform (.error (ascii "provider catch-up unavailable") 502)

/-- The loop of `serveCatchupDirect`. -/
def negotiate (h : Handler) (r : Request) : List Candidate → Outcome → Op Unit
  | [], o => giveUp o
  | c :: candidates, o => do
    match ← perform (.request c) with
    | .error text => negotiate h r candidates { o with lastErr := some text }
    | .ok resp =>
      if isDecisiveCatchupStatus resp.status then writeDirectResult r resp false [] true
      else if resp.status = 416 ∧ r.range ≠ [] then writeDirectResult r resp false [] true
      else if resp.status = 200 ∨ resp.status = 206 then do
        let result ← probeCatchupResponse resp c.url r.range
        if result.accepted then do
          (if r.method = .get then rememberCatchupFormat h c.format else pure ())
          writeDirectResult r resp result.detectedHLS result.replayed result.length
        else do
          perform .close
          negotiate h r candidates ⟨resp.status, result.err.or o.lastErr, true⟩
      else do
        perform .close
        negotiate h r candidates { o with lastStatus := resp.status }

/-- `serveCatchupDirect` -/
def serveCatchupDirect (h : Handler) (r : Request) (target : TargetURL) : Op Unit := do
  let preferred ← preferredCatchupFormat h
  match buildCatchupCandidates target preferred with
  | none => perform (.error (ascii "invalid catch-up request") 400)
  | some [] => perform (.error (ascii "invalid catch-up request") 400)
  | some (c :: candidates) => negotiate h r (c :: candidates) ⟨0, none, false⟩

end IptvProxy.Catchup
