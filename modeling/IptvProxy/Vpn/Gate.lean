import IptvProxy.Lib.Agents
import IptvProxy.Lib.Csv
import IptvProxy.Lib.Transition
import IptvProxy.Vpn.Wireguard

/-!
# The list of VPN Gate

`VpnGateService` of `lib/services/vpn/vpngate.ts`. The servers come as rows of cells behind a row of
names, between lines that are no rows. `parseCsv` finds all rows, whatever their spelling
(`published_servers_are_found`).

The list is kept in a variable that all calls share. What they return is a list that was downloaded
(`served_from_downloads`), and once there is one, downloads may fail
(`listed_servers_stay_found`).
-/

namespace IptvProxy.Vpn.Gate

open Js Config Transition
open Wireguard (isDigit number)

/-- `VpnGateServer` -/
structure VpnGateServer where
  /-- `id` -/
  id : Text
  /-- `hostname` -/
  hostname : Text
  /-- `ip` -/
  ip : Text
  /-- `score` -/
  score : ℤ
  /-- `ping` -/
  ping : ℤ
  /-- `speed` -/
  speed : ℤ
  /-- `countryLong` -/
  countryLong : Text
  /-- `countryShort` -/
  countryShort : Text
  /-- `sessions` -/
  sessions : ℤ
  /-- `uptime` -/
  uptime : ℤ
  /-- `ovpnConfigBase64` -/
  ovpnConfigBase64 : Text
  deriving DecidableEq

/-- What the runtime does with texts: `serverId` hashes the address, the name and the configuration,
and `toUpperCase` changes letters. -/
structure Runtime where
  /-- `serverId` -/
  serverId : Text → Text → Text → Text
  /-- `toUpperCase` -/
  toUpperCase : Text → Text

/-! ## Parsing -/

/-- The loop of `parseCsvLine` over the characters of `line`, where `skip` stands for `i += 1`. -/
def parseChars (skip quoted : Bool) (current : Text) : Text → List Text
  | [] => [current]
  | char :: line =>
    if skip then parseChars false quoted current line
    else if char = '"' then
      if quoted = true ∧ line.head? = some '"' then parseChars true quoted (current ++ ['"']) line
      else parseChars false (!quoted) current line
    else if char = ',' ∧ quoted = false then current :: parseChars false quoted [] line
    else parseChars false quoted (current ++ [char]) line

/-- `parseCsvLine` -/
def parseCsvLine (line : Text) : List Text := parseChars false false [] line

/-- `Number.parseInt(…, 10)` -/
def parseInt (s : Text) : Option ℤ :=
  let s := trimStart s
  let negative : Bool := s.head? = some '-'
  let digits := (if negative ∨ s.head? = some '+' then s.drop 1 else s).takeWhile isDigit
  if digits = [] then none else some (if negative then -(number digits : ℤ) else number digits)

/-- `columns[headers.indexOf(name)]` -/
def cell (headers columns : List Text) (name : String) : Option Text :=
  (headers.idxOf? name.toList).bind fun i => columns[i]?

/-- `value || other` -/
def orElse (value : Option Text) (other : Text) : Text :=
  (value.filter fun text => text ≠ []).getD other

/-- `Number.parseInt(value || '0', 10) || 0` -/
def count (value : Option Text) : ℤ := (parseInt (orElse value "0".toList)).getD 0

/-- The body of the loop of `parseCsv` behind `parseCsvLine`: the server of a row, unless it is left
out. -/
def serverOf (R : Runtime) (headers columns : List Text) : Option VpnGateServer :=
  let ip := orElse ((cell headers columns "IP").map trim) []
  let config := orElse ((cell headers columns "OpenVPN_ConfigData_Base64").map trim) []
  if ip = [] ∨ config = [] then none
  else
    let hostname := orElse ((cell headers columns "HostName").map trim) ip
    some {
      id := R.serverId ip hostname config
      hostname := hostname
      ip := ip
      score := count (cell headers columns "Score")
      ping := count (cell headers columns "Ping")
      speed := count (cell headers columns "Speed")
      countryLong := orElse ((cell headers columns "CountryLong").map trim) "Unknown".toList
      countryShort :=
        orElse ((cell headers columns "CountryShort").map fun text => R.toUpperCase (trim text))
          "UN".toList
      sessions := count (cell headers columns "NumVpnSessions")
      uptime := count (cell headers columns "Uptime")
      ovpnConfigBase64 := config }

/-- A line that is no row: blank, or one that starts with `*` or `#`. -/
def isOther (line : Text) : Bool :=
  line = [] || line.head? = some '*' || line.head? = some '#'

/-- The columns that have to be there. -/
def required : List Text :=
  ["HostName".toList, "IP".toList, "OpenVPN_ConfigData_Base64".toList]

/-- Why a list cannot be parsed. -/
inductive Malformed
  | header
  | columns
  deriving DecidableEq

/-- The texts of the errors. -/
def Malformed.text : Malformed → String
  | .header => "Malformed VPNGate CSV header."
  | .columns => "VPNGate CSV is missing required columns."

/-- `replace(/^#/, '')` -/
def stripHash (line : Text) : Text := if line.head? = some '#' then line.drop 1 else line

/-- Is it the line of the names? -/
def isHeader (line : Text) : Bool := includes line "OpenVPN_ConfigData_Base64".toList

/-- The loop of `parseCsv`. -/
def parseRows (R : Runtime) (headers : List Text) (lines : List Text) : List VpnGateServer :=
  lines.filterMap fun rawLine =>
    let line := trim rawLine
    if isOther line then none else serverOf R headers (parseCsvLine line)

/-- `parseCsv` -/
def parseCsv (R : Runtime) (csvText : Text) : Except Malformed (List VpnGateServer) :=
  match (splitLines csvText).dropWhile fun line => !isHeader line with
  | [] => .error .header
  | header :: lines =>
    let headers := (parseCsvLine (stripHash header)).map trim
    if required.all headers.contains then .ok (parseRows R headers lines)
    else .error .columns

/-! ## The format -/

/-- The text of lines that end with a line feed, some of them behind a carriage return. -/
inductive Lines : List Text → Text → Prop
  | nil : Lines [] []
  | cons {line lines text} (ending : Text) : '\n' ∉ line → line.getLast? ≠ some '\r' →
      ending = ['\n'] ∨ ending = ['\r', '\n'] → Lines lines text →
      Lines (line :: lines) (line ++ ending ++ text)

/-- A row as a line of its own: it has no white space around it, and cannot be mistaken for another
kind of line. -/
def IsRow (cells : List Text) (line : Text) : Prop :=
  Csv.Row '"' ',' cells line ∧ trim line = line ∧ isOther line = false

/-- Rows with other lines between them. -/
inductive Rows : List (List Text) → List Text → Prop
  | nil : Rows [] []
  | other {rows lines line} : isOther (trim line) = true → Rows rows lines →
      Rows rows (line :: lines)
  | row {cells line rows lines} : IsRow cells line → Rows rows lines →
      Rows (cells :: rows) (line :: lines)

/-- A list of VPN Gate: names, of which the required ones are there, and a row for each server. -/
structure Table where
  /-- the names of the columns -/
  headers : List Text
  /-- the cells of the rows -/
  rows : List (List Text)
  /-- `HostName`, `IP` and the configuration -/
  complete : ∀ name ∈ required, name ∈ headers

/-- The servers of a list. -/
def Table.servers (R : Runtime) (table : Table) : List VpnGateServer :=
  table.rows.filterMap (serverOf R table.headers)

/-- How a list is published: some lines without the name of the configuration, the names behind a
`#` or without it, and the rows. The names may have white space around them. -/
def Publishes (table : Table) (csvText : Text) : Prop :=
  ∃ (front lines : List Text) (hash names : Text) (cells : List Text),
    Lines (front ++ (hash ++ names) :: lines) csvText ∧ (∀ line ∈ front, isHeader line = false) ∧
    (hash = ['#'] ∨ hash = [] ∧ names.head? ≠ some '#') ∧ Csv.Row '"' ',' cells names ∧
    cells.map trim = table.headers ∧ Rows table.rows lines

variable {R : Runtime} {line text csvText : Text} {lines : List Text} {table : Table}
  {cells : List Text} {rows : List (List Text)}

theorem parseChars_eq_read (skip quoted : Bool) (current : Text) :
    parseChars skip quoted current line = Csv.read '"' ',' skip quoted current line := by
  induction line generalizing skip quoted current with
  | nil => rfl
  | cons c line ih => simp only [parseChars, Csv.read, ih]

theorem parseCsvLine_row (h : Csv.Row '"' ',' cells line) : parseCsvLine line = cells :=
  (parseChars_eq_read false false []).trans (Csv.read_row (by decide) h)

theorem splitLines_cons {piece : Text} (hpiece : '\n' ∉ piece) :
    splitLines (piece ++ '\n' :: text) = stripReturn piece :: splitLines text := by
  have hne : text.splitOn '\n' ≠ [] := List.splitOnP_ne_nil _ _
  have hlast : (piece :: text.splitOn '\n').getLast? = (text.splitOn '\n').getLast? := by
    rw [List.getLast?_cons, List.getLast?_eq_some_getLast hne, Option.getD_some]
  rw [splitLines, List.splitOn_append_cons_self_of_not_mem hpiece, hlast,
    List.dropLast_cons_of_ne_nil hne, List.map_cons, List.cons_append, splitLines]

theorem splitLines_of_lines (h : Lines lines text) : splitLines text = lines ++ [[]] := by
  induction h with
  | nil => rfl
  | @cons line lines text ending hline hlast hending _ ih =>
    rcases hending with rfl | rfl
    · rw [show line ++ ['\n'] ++ text = line ++ '\n' :: text by simp, splitLines_cons hline, ih,
        stripReturn, if_neg hlast]
      rfl
    · rw [show line ++ ['\r', '\n'] ++ text = (line ++ ['\r']) ++ '\n' :: text by simp,
        splitLines_cons (by simpa using hline), ih, stripReturn,
        if_pos (by rw [List.getLast?_concat]), List.dropLast_concat]
      rfl

theorem parseRows_of_rows (headers : List Text) (h : Rows rows lines) :
    parseRows R headers lines = rows.filterMap (serverOf R headers) := by
  induction h with
  | nil => rfl
  | other hother _ ih =>
    rw [parseRows, List.filterMap_cons, ← ih]
    simp [parseRows, hother]
  | row hrow _ ih =>
    obtain ⟨hcells, htrim, hother⟩ := hrow
    rw [List.filterMap_cons, ← ih, parseRows, List.filterMap_cons]
    simp only [htrim, hother, Bool.false_eq_true, if_false, parseCsvLine_row hcells]
    rfl

theorem Rows.append_other (h : Rows rows lines) (hline : isOther (trim line) = true) :
    Rows rows (lines ++ [line]) := by
  induction h with
  | nil => exact .other hline .nil
  | other hother _ ih => exact .other hother ih
  | row hrow _ ih => exact .row hrow ih

theorem includes_of_isInfix {word : Text} (h : word <:+: line) : includes line word = true := by
  obtain ⟨front, back, rfl⟩ := h
  rw [includes, List.any_eq_true]
  refine ⟨word ++ back, by simp, ?_⟩
  rw [List.isPrefixOf_iff_prefix]
  exact List.prefix_append _ _

/-- What `trim` takes away. -/
theorem spaces_around_trim (cell : Text) : ∃ front back, cell = front ++ trim cell ++ back ∧
    ∀ c ∈ front ++ back, isSpace c = true := by
  have hstart : cell = cell.takeWhile isSpace ++ trimStart cell :=
    (List.takeWhile_append_dropWhile ..).symm
  have hend : trimStart cell =
      trim cell ++ ((trimStart cell).reverse.takeWhile isSpace).reverse := by
    change trimStart cell = ((trimStart cell).reverse.dropWhile isSpace).reverse ++ _
    rw [← List.reverse_append, List.takeWhile_append_dropWhile, List.reverse_reverse]
  refine ⟨cell.takeWhile isSpace, ((trimStart cell).reverse.takeWhile isSpace).reverse, ?_, ?_⟩
  · rw [List.append_assoc, ← hend, ← hstart]
  · intro c hc
    rcases List.mem_append.mp hc with hc | hc
    · exact List.mem_takeWhile_imp hc
    · exact List.mem_takeWhile_imp (List.mem_reverse.mp hc)

/-- The line of the names contains a name that has no quote. -/
theorem includes_names {name names : Text} (hnames : Csv.Row '"' ',' cells names)
    (hname : name ∈ cells.map trim) (hquote : '"' ∉ name) (front : Text) :
    includes (front ++ names) name = true := by
  obtain ⟨cell, hcell, rfl⟩ := List.mem_map.mp hname
  obtain ⟨before, after, heq, hspaces⟩ := spaces_around_trim cell
  have hbare : '"' ∉ cell := by
    have hno : ∀ c ∈ before ++ after, c ≠ '"' := by
      rintro c hc rfl
      cases hspaces _ hc
    rw [heq]
    simp only [List.mem_append, not_or] at hno ⊢
    exact ⟨⟨fun h => hno _ (.inl h) rfl, hquote⟩, fun h => hno _ (.inr h) rfl⟩
  have htrim : trim cell <:+: cell := ⟨before, after, heq.symm⟩
  exact includes_of_isInfix ((htrim.trans (hnames.isInfix_of_mem hcell hbare)).trans
    (List.suffix_append _ _).isInfix)

theorem published_servers_are_found (h : Publishes table csvText) :
    parseCsv R csvText = .ok (table.servers R) := by
  obtain ⟨front, lines, hash, names, cells, hlines, hfront, hhash, hnames, hcells, hrows⟩ := h
  have hheader : isHeader (hash ++ names) = true := by
    refine includes_names hnames ?_ (by decide) hash
    rw [hcells]
    exact table.complete _ (by decide)
  have hdrop : (splitLines csvText).dropWhile (fun line => !isHeader line) =
      (hash ++ names) :: (lines ++ [[]]) := by
    rw [splitLines_of_lines hlines, List.append_assoc, List.cons_append,
      List.dropWhile_append_of_pos fun l hl => by rw [hfront l hl]; rfl,
      List.dropWhile_cons_of_neg (by rw [hheader]; decide)]
  have hstrip : stripHash (hash ++ names) = names := by
    rcases hhash with rfl | ⟨rfl, hhash⟩
    · rfl
    · exact if_neg hhash
  have hlast : Rows table.rows (lines ++ [[]]) := hrows.append_other rfl
  simp only [parseCsv, hdrop, hstrip, parseCsvLine_row hnames, hcells]
  rw [if_pos (List.all_eq_true.mpr fun name hname =>
      List.contains_iff_mem.mpr (table.complete name hname)),
    parseRows_of_rows _ hlast, Table.servers]

/-- A list with one server, whose name has a separator in it. -/
def sampleTable : Table where
  headers := required
  rows := [["public,vpn".toList, "192.0.2.7".toList, "Y2xpZW50".toList]]
  complete := fun _ h => h

/-- How it may be published. -/
def sampleText : Text :=
  "*vpn_servers".toList ++ ['\r', '\n'] ++
    ((['#'] ++ ("HostName".toList ++ ',' :: ("IP".toList ++ ',' ::
      "OpenVPN_ConfigData_Base64".toList))) ++ ['\r', '\n'] ++
    (('"' :: Csv.doubled '"' "public,vpn".toList ++ ['"'] ++ ',' :: ("192.0.2.7".toList ++ ',' ::
      "Y2xpZW50".toList)) ++ ['\n'] ++ []))

/-- A runtime that does not hash. -/
def plainRuntime : Runtime where
  serverId := fun ip hostname config => ip ++ '|' :: (hostname ++ '|' :: config)
  toUpperCase := id

theorem sample_server_is_found :
    parseCsv plainRuntime sampleText = .ok (sampleTable.servers plainRuntime) := by
  have hnames : Csv.Row '"' ',' required ("HostName".toList ++ ',' :: ("IP".toList ++ ',' ::
      "OpenVPN_ConfigData_Base64".toList)) :=
    .more (.bare (by decide) (by decide)) (.more (.bare (by decide) (by decide))
      (.one (.bare (by decide) (by decide))))
  have hrow : IsRow ["public,vpn".toList, "192.0.2.7".toList, "Y2xpZW50".toList]
      ('"' :: Csv.doubled '"' "public,vpn".toList ++ ['"'] ++ ',' :: ("192.0.2.7".toList ++ ',' ::
        "Y2xpZW50".toList)) :=
    ⟨.more .quoted (.more (.bare (by decide) (by decide)) (.one (.bare (by decide) (by decide)))),
      by decide +kernel, by decide +kernel⟩
  exact published_servers_are_found ⟨["*vpn_servers".toList], _, ['#'], _, required,
    .cons _ (by decide) (by decide) (.inr rfl) (.cons _ (by decide) (by decide) (.inr rfl)
      (.cons _ (by decide +kernel) (by decide +kernel) (.inl rfl) .nil)),
    by decide +kernel, .inl rfl, hnames, by decide +kernel, .row hrow .nil⟩

/-! ## Fetching -/

/-- `CACHE_TTL_MS` -/
def CACHE_TTL_MS : ℕ := 5 * 60 * 1000

/-- How the request for the list ends. -/
inductive Download where
  /-- `fetch` or `text` throws -/
  | throws (message : String)
  /-- a status that is not `ok` -/
  | refused (status : ℕ)
  /-- the text of the list -/
  | text (rawCsv : Text)
  deriving DecidableEq

/-- What a download is good for: servers, or the message of what is thrown. -/
def Download.servers (R : Runtime) : Download → Except String (List VpnGateServer)
  | .throws message => .error message
  | .refused status => .error s!"VPNGate returned HTTP {status}."
  | .text rawCsv =>
    match parseCsv R rawCsv with
    | .error malformed => .error malformed.text
    | .ok servers =>
      if servers = [] then .error "VPNGate returned no usable OpenVPN servers." else .ok servers

/-- Program points of `fetchServers`, which is called by `getServerById` with the id that it looks
for, or by others. -/
inductive Pc where
  /-- `fetch` -/
  | download (caller : Option Text)
  /-- `LogService.info` -/
  | info (caller : Option Text) (servers : List VpnGateServer)
  /-- `LogService.error` -/
  | error (caller : Option Text) (message : String)
  /-- `fetchServers` has returned -/
  | returned (caller : Option Text) (servers : List VpnGateServer)
  /-- `getServerById` has returned -/
  | found (id : Text) (server : Option VpnGateServer)
  /-- thrown -/
  | threw (message : String)
  deriving DecidableEq

/-- The variables of the module and the calls. -/
structure State where
  /-- `cachedServers` -/
  cachedServers : List VpnGateServer
  /-- `lastFetchTimestamp` -/
  lastFetchTimestamp : ℕ
  /-- the calls -/
  calls : List Pc
  /-- *history*: the downloads that were kept and when, the newest first -/
  kept : List (ℕ × Download)

/-- Nothing has been fetched. -/
def init : State := ⟨[], 0, [], []⟩

/-- What happens next. -/
inductive Action where
  /-- a call: `fetchServers` or `getServerById`, and `Date.now()` -/
  | call (caller : Option Text) (forceRefresh : Bool) (now : ℕ)
  /-- the request of call `i` ends -/
  | downloaded (i : ℕ) (download : Download) (now : ℕ)
  /-- what call `i` logs is written, or throws -/
  | logged (i : ℕ) (outcome : Except String Unit)
  /-- `getServerById` goes on -/
  | resumed (i : ℕ)

/-- Call `i` goes on to `pc`. -/
def State.goto (s : State) (i : ℕ) (pc : Pc) : State := { s with calls := s.calls.set i pc }

/-- A call starts. -/
def State.enter (s : State) (pc : Pc) : State := { s with calls := s.calls ++ [pc] }

/-- `cachedServers.find((item) => item.id === id)` -/
def State.find (s : State) (id : Text) : Option VpnGateServer :=
  s.cachedServers.find? fun item => item.id = id

/-- `fetchServers` up to the request. -/
def State.fetchServers (s : State) (caller : Option Text) (forceRefresh : Bool) (now : ℕ) : Pc :=
  if forceRefresh = false ∧ s.cachedServers ≠ [] ∧ now < s.lastFetchTimestamp + CACHE_TTL_MS then
    .returned caller s.cachedServers
  else .download caller

/-- The start of a call. -/
def State.start (s : State) (forceRefresh : Bool) (now : ℕ) : Option Text → Pc
  | none => s.fetchServers none forceRefresh now
  | some id =>
    (s.find id).elim (s.fetchServers (some id) false now) fun server => .found id (some server)

/-- The request of call `i` ends. -/
def State.receive (R : Runtime) (s : State) (i : ℕ) (caller : Option Text) (download : Download)
    (now : ℕ) : State :=
  match download.servers R with
  | .error message => s.goto i (.error caller message)
  | .ok servers =>
    { s with
      cachedServers := servers
      lastFetchTimestamp := now
      kept := (now, download) :: s.kept }.goto i (.info caller servers)

/-- The end of `catch`. -/
def State.giveUp (s : State) (caller : Option Text) (message : String) : Pc :=
  if s.cachedServers ≠ [] then .returned caller s.cachedServers
  else .threw s!"Unable to fetch VPNGate servers: {message}"

/-- One step. -/
def step (R : Runtime) (s : State) : Action → Option State
  | .call caller forceRefresh now => some (s.enter (s.start forceRefresh now caller))
  | .downloaded i download now =>
    match s.calls[i]? with
    | some (.download caller) => some (s.receive R i caller download now)
    | _ => none
  | .logged i outcome =>
    match s.calls[i]?, outcome with
    | some (.info caller servers), .ok () => some (s.goto i (.returned caller servers))
    | some (.info caller _), .error message => some (s.goto i (.error caller message))
    | some (.error caller message), .ok () => some (s.goto i (s.giveUp caller message))
    | some (.error _ _), .error message => some (s.goto i (.threw message))
    | _, _ => none
  | .resumed i =>
    match s.calls[i]? with
    | some (.returned (some id) _) => some (s.goto i (.found id (s.find id)))
    | _ => none

/-- The servers of a download that was kept. -/
def State.Kept (R : Runtime) (s : State) (servers : List VpnGateServer) : Prop :=
  ∃ now download, (now, download) ∈ s.kept ∧ download.servers R = .ok servers

/-- What a call has in its hands comes from a download that was kept. -/
def Pc.Ok (R : Runtime) (s : State) : Pc → Prop
  | .info _ servers => s.Kept R servers
  | .returned _ servers => s.Kept R servers
  | .found id server => ∀ x ∈ server, x.id = id ∧ ∃ servers, s.Kept R servers ∧ x ∈ servers
  | _ => True

/-- `cachedServers` is the newest list: of the download that was kept last, at
`lastFetchTimestamp`. -/
def State.Newest (R : Runtime) (s : State) : Prop :=
  ∃ download older, s.kept = (s.lastFetchTimestamp, download) :: older ∧
    download.servers R = .ok s.cachedServers

/-- The invariant. -/
structure State.Inv (R : Runtime) (s : State) : Prop where
  /-- nothing, or the newest list -/
  cached : s.cachedServers = [] ∨ s.Newest R
  /-- what the calls have -/
  calls : ∀ pc ∈ s.calls, pc.Ok R s

/-- What a step does. -/
inductive Moves (R : Runtime) (s : State) : Action → State → Prop
  | call (caller : Option Text) (forceRefresh : Bool) (now : ℕ) :
      Moves R s (.call caller forceRefresh now) (s.enter (s.start forceRefresh now caller))
  | refused {i caller download now message} : s.calls[i]? = some (.download caller) →
      download.servers R = .error message →
      Moves R s (.downloaded i download now) (s.goto i (.error caller message))
  | kept {i caller download now servers} : s.calls[i]? = some (.download caller) →
      download.servers R = .ok servers →
      Moves R s (.downloaded i download now)
        (State.goto ⟨servers, now, s.calls, (now, download) :: s.kept⟩ i (.info caller servers))
  | informed {i caller servers} : s.calls[i]? = some (.info caller servers) →
      Moves R s (.logged i (.ok ())) (s.goto i (.returned caller servers))
  | uninformed {i caller servers message} : s.calls[i]? = some (.info caller servers) →
      Moves R s (.logged i (.error message)) (s.goto i (.error caller message))
  | gaveUp {i caller message} : s.calls[i]? = some (.error caller message) →
      Moves R s (.logged i (.ok ())) (s.goto i (s.giveUp caller message))
  | threw {i caller message message'} : s.calls[i]? = some (.error caller message) →
      Moves R s (.logged i (.error message')) (s.goto i (.threw message'))
  | resumed {i id servers} : s.calls[i]? = some (.returned (some id) servers) →
      Moves R s (.resumed i) (s.goto i (.found id (s.find id)))

variable {s t : State} {i : ℕ} {a : Action} {pc : Pc} {download : Download}
  {servers : List VpnGateServer}

theorem step_moves (h : step R s a = some t) : Moves R s a t := by
  cases a with
  | call caller forceRefresh now =>
    obtain rfl := Option.some.inj h
    exact .call caller forceRefresh now
  | downloaded i download now =>
    simp only [step] at h
    split at h
    · next caller hi =>
      obtain rfl := Option.some.inj h
      rw [State.receive]
      split
      · next hservers => exact .refused hi hservers
      · next hservers => exact .kept hi hservers
    · cases h
  | logged i outcome =>
    simp only [step] at h
    split at h
    · next hi => obtain rfl := Option.some.inj h; exact .informed hi
    · next hi => obtain rfl := Option.some.inj h; exact .uninformed hi
    · next hi => obtain rfl := Option.some.inj h; exact .gaveUp hi
    · next hi => obtain rfl := Option.some.inj h; exact .threw hi
    · cases h
  | resumed i =>
    simp only [step] at h
    split at h
    · next hi => obtain rfl := Option.some.inj h; exact .resumed hi
    · cases h

theorem Download.servers_ne_nil (h : download.servers R = .ok servers) : servers ≠ [] := by
  cases download with
  | throws message => cases h
  | refused status => cases h
  | text rawCsv =>
    simp only [Download.servers] at h
    split at h
    · cases h
    · split at h
      · cases h
      · next hne => cases h; exact hne

theorem State.Kept.ne_nil (h : s.Kept R servers) : servers ≠ [] :=
  let ⟨_, _, _, hservers⟩ := h
  Download.servers_ne_nil hservers

theorem State.Newest.kept (h : s.Newest R) : s.Kept R s.cachedServers :=
  let ⟨download, _, hkept, hservers⟩ := h
  ⟨s.lastFetchTimestamp, download, by rw [hkept]; exact List.mem_cons_self, hservers⟩

theorem State.Inv.kept (hs : s.Inv R) (hne : s.cachedServers ≠ []) : s.Kept R s.cachedServers :=
  (hs.cached.resolve_left hne).kept

/-- A server that is found has the id, and is one of the newest list. -/
theorem State.Inv.found (hs : s.Inv R) (id : Text) : Pc.Ok R s (.found id (s.find id)) := by
  intro x hx
  have hmem : x ∈ s.cachedServers := List.mem_of_find?_eq_some hx
  exact ⟨by simpa using List.find?_some hx, s.cachedServers,
    hs.kept (List.ne_nil_of_mem hmem), hmem⟩

theorem State.Inv.fetchServers (hs : s.Inv R) (caller : Option Text) (forceRefresh : Bool)
    (now : ℕ) : (s.fetchServers caller forceRefresh now).Ok R s := by
  rw [State.fetchServers]
  split
  · next h => exact hs.kept h.2.1
  · trivial

theorem State.Inv.start (hs : s.Inv R) (forceRefresh : Bool) (now : ℕ) (caller : Option Text) :
    (s.start forceRefresh now caller).Ok R s := by
  cases caller with
  | none => exact hs.fetchServers none forceRefresh now
  | some id =>
    have hfound := hs.found id
    rw [State.start]
    cases hfind : s.find id with
    | none => exact hs.fetchServers (some id) false now
    | some server =>
      rw [hfind] at hfound
      exact hfound

theorem State.Inv.giveUp (hs : s.Inv R) (caller : Option Text) (message : String) :
    (s.giveUp caller message).Ok R s := by
  rw [State.giveUp]
  split
  · next hne => exact hs.kept hne
  · trivial

/-- What was kept stays kept, and so does what the calls have. -/
theorem Pc.Ok.mono (hkept : ∀ servers, s.Kept R servers → t.Kept R servers) (h : pc.Ok R s) :
    pc.Ok R t := by
  cases pc with
  | info caller servers => exact hkept servers h
  | returned caller servers => exact hkept servers h
  | found id server =>
    intro x hx
    obtain ⟨hid, servers, hservers, hmem⟩ := h x hx
    exact ⟨hid, servers, hkept servers hservers, hmem⟩
  | download caller => trivial
  | error caller message => trivial
  | threw message => trivial

theorem State.Inv.goto (hs : s.Inv R) (i : ℕ) (hpc : pc.Ok R s) : (s.goto i pc).Inv R where
  cached := hs.cached
  calls := Agents.forall_mem_set (fun pc' hpc' => (hs.calls pc' hpc').mono fun _ h => h)
    (hpc.mono fun _ h => h)

theorem State.Inv.step (hs : s.Inv R) (h : step R s a = some t) : t.Inv R := by
  cases step_moves h with
  | call caller forceRefresh now =>
    have hold : ∀ pc ∈ s.calls, pc.Ok R (s.enter (s.start forceRefresh now caller)) :=
      fun pc hpc => (hs.calls pc hpc).mono fun _ h => h
    exact ⟨hs.cached, Agents.forall_mem_append hold
      ((hs.start forceRefresh now caller).mono fun _ h => h)⟩
  | refused hi _ => exact hs.goto _ trivial
  | @kept i caller download now servers hi hservers =>
    have hkept : ∀ xs, s.Kept R xs →
        State.Kept R ⟨servers, now, s.calls, (now, download) :: s.kept⟩ xs :=
      fun xs ⟨now', download', hmem, hxs⟩ =>
        ⟨now', download', List.mem_cons_of_mem _ hmem, hxs⟩
    have hnew : State.Inv R ⟨servers, now, s.calls, (now, download) :: s.kept⟩ :=
      ⟨.inr ⟨download, s.kept, rfl, hservers⟩, fun pc hpc => (hs.calls pc hpc).mono hkept⟩
    exact hnew.goto i ⟨now, download, List.mem_cons_self, hservers⟩
  | @informed i caller servers hi =>
    have hkept : s.Kept R servers := hs.calls _ (List.mem_of_getElem? hi)
    exact hs.goto i hkept
  | uninformed hi => exact hs.goto _ trivial
  | gaveUp hi => exact hs.goto _ (hs.giveUp _ _)
  | threw hi => exact hs.goto _ trivial
  | resumed hi => exact hs.goto _ (hs.found _)

theorem inv_of_run {ok : State → Action → Prop} (h : Run (step R) ok init s) : s.Inv R :=
  h.invariant (fun _ _ _ hs _ => hs.step) ⟨.inl rfl, fun _ hpc => absurd hpc List.not_mem_nil⟩

/-- What `fetchServers` returns without a request. -/
theorem State.Inv.returned_early (hs : s.Inv R) {caller : Option Text} {forceRefresh : Bool}
    {now : ℕ} (h : s.fetchServers caller forceRefresh now = .returned caller servers) :
    servers = s.cachedServers ∧ s.Newest R ∧ now < s.lastFetchTimestamp + CACHE_TTL_MS := by
  rw [State.fetchServers] at h
  split at h
  · next hcond =>
    injection h with _ hservers
    exact ⟨hservers.symm, hs.cached.resolve_left hcond.2.1, hcond.2.2⟩
  · cases h

/-- Whatever calls there are at the same time, and whatever the downloads bring: a list that is
returned has a server and is a download that was kept; a server that is found has the id that was
asked for and is one of such a list. A list that is returned without a request is the one that was
kept last, less than five minutes ago. -/
theorem served_from_downloads {ok : State → Action → Prop} (h : Run (step R) ok init s) :
    (∀ caller servers, .returned caller servers ∈ s.calls → servers ≠ [] ∧ s.Kept R servers) ∧
    (∀ id server, .found id (some server) ∈ s.calls →
      server.id = id ∧ ∃ servers, s.Kept R servers ∧ server ∈ servers) ∧
    ∀ caller forceRefresh now servers,
      s.start forceRefresh now caller = .returned caller servers →
      servers = s.cachedServers ∧ s.Newest R ∧ now < s.lastFetchTimestamp + CACHE_TTL_MS := by
  have hs := inv_of_run h
  refine ⟨fun caller servers hmem => ?_, fun id server hmem => hs.calls _ hmem server rfl, ?_⟩
  · have hkept : s.Kept R servers := hs.calls _ hmem
    exact ⟨hkept.ne_nil, hkept⟩
  · intro caller forceRefresh now servers hreturned
    cases caller with
    | none => exact hs.returned_early hreturned
    | some id =>
      rw [State.start] at hreturned
      cases hfind : s.find id with
      | none =>
        rw [hfind] at hreturned
        exact hs.returned_early hreturned
      | some server =>
        rw [hfind] at hreturned
        cases hreturned

/-- Two calls at the same time, of which only the first gets the list. -/
def sampleActs : List Action :=
  [.call none false 0, .call none true 5, .downloaded 0 (.text sampleText) 10,
    .downloaded 1 (.refused 503) 20, .logged 0 (.ok ()), .logged 1 (.ok ())]

theorem both_calls_are_served : ∃ s : State,
    s.calls = [.returned none (sampleTable.servers plainRuntime),
      .returned none (sampleTable.servers plainRuntime)] ∧
    s.Kept plainRuntime (sampleTable.servers plainRuntime) := by
  have heval : (exec (step plainRuntime) init sampleActs).map State.calls =
      some [.returned none (sampleTable.servers plainRuntime),
        .returned none (sampleTable.servers plainRuntime)] := by decide +kernel
  obtain ⟨s, hrun, hcalls⟩ : ∃ s, Run (step plainRuntime) (fun _ _ => True) init s ∧ s.calls = _ :=
    Run.of_eval (fun _ _ _ => trivial) heval
  have hmem : .returned none (sampleTable.servers plainRuntime) ∈ s.calls := by
    rw [hcalls]
    exact List.mem_cons_self
  exact ⟨s, hcalls, ((served_from_downloads hrun).1 none _ hmem).2⟩

/-! ## Downloads that fail -/

/-- Nothing that is logged throws, and every download that is kept lists the ids. -/
def Action.Lists (R : Runtime) (ids : Set Text) : Action → Prop
  | .logged _ outcome => outcome = .ok ()
  | .downloaded _ download _ => ∀ servers, download.servers R = .ok servers →
      ∀ id ∈ ids, ∃ server ∈ servers, server.id = id
  | _ => True

/-- The list is not empty, and it has the ids. -/
def State.Listed (ids : Set Text) (s : State) : Prop :=
  s.cachedServers ≠ [] ∧ ∀ id ∈ ids, ∃ server ∈ s.cachedServers, server.id = id

/-- Call `i` has thrown. -/
def State.Threw (s : State) (i : ℕ) : Prop := ∃ message, s.calls[i]? = some (.threw message)

variable {ids : Set Text}

theorem State.Threw.of_goto {j : ℕ} (hpc : ∀ message, pc ≠ .threw message)
    (h : (s.goto i pc).Threw j) : s.Threw j := by
  obtain ⟨message, hj⟩ := h
  rcases Agents.getElem?_set_cases hj with ⟨-, heq⟩ | ⟨-, hold⟩
  · exact absurd heq.symm (hpc message)
  · exact ⟨message, hold⟩

theorem fetchServers_ne_threw (caller : Option Text) (forceRefresh : Bool) (now : ℕ)
    (message : String) : s.fetchServers caller forceRefresh now ≠ .threw message := by
  rw [State.fetchServers]
  split
  · exact fun h => by cases h
  · exact fun h => by cases h

theorem start_ne_threw (forceRefresh : Bool) (now : ℕ) (caller : Option Text) (message : String) :
    s.start forceRefresh now caller ≠ .threw message := by
  cases caller with
  | none => exact fetchServers_ne_threw none forceRefresh now message
  | some id =>
    rw [State.start]
    cases s.find id with
    | none => exact fetchServers_ne_threw (some id) false now message
    | some server => exact fun h => by cases h

/-- A step keeps the list, and no call throws. -/
theorem State.Listed.step (hs : s.Listed ids) (ha : a.Lists R ids) (h : step R s a = some t) :
    t.Listed ids ∧ ∀ j, t.Threw j → s.Threw j := by
  cases step_moves h with
  | call caller forceRefresh now =>
    refine ⟨hs, fun j ⟨message, hj⟩ => ?_⟩
    rcases Agents.getElem?_append_cases hj with hold | heq
    · exact ⟨message, hold⟩
    · exact absurd heq.symm (start_ne_threw forceRefresh now caller message)
  | refused _ _ => exact ⟨hs, fun j => .of_goto fun _ h => by cases h⟩
  | kept _ hservers =>
    exact ⟨⟨Download.servers_ne_nil hservers, ha _ hservers⟩,
      fun j => .of_goto fun _ h => by cases h⟩
  | informed _ => exact ⟨hs, fun j => .of_goto fun _ h => by cases h⟩
  | uninformed _ => exact ⟨hs, fun j => .of_goto fun _ h => by cases h⟩
  | gaveUp _ =>
    refine ⟨hs, fun j => .of_goto fun message h => ?_⟩
    rw [State.giveUp, if_pos hs.1] at h
    cases h
  | threw _ => cases ha
  | resumed _ => exact ⟨hs, fun j => .of_goto fun _ h => by cases h⟩

/-- Once there is a list, no call throws because of what is downloaded. A server of the list that
every later list has as well is found without a request. -/
theorem listed_servers_stay_found (hs : s.Listed ids)
    (h : Run (step R) (fun _ a => a.Lists R ids) s t) :
    (∀ i, t.Threw i → s.Threw i) ∧
    ∀ id ∈ ids, ∀ forceRefresh now, ∃ server,
      t.start forceRefresh now (some id) = .found id (some server) ∧ server.id = id := by
  obtain ⟨hlisted, hthrew⟩ : t.Listed ids ∧ ∀ i, t.Threw i → s.Threw i :=
    Run.invariant (I := fun u => u.Listed ids ∧ ∀ i, u.Threw i → s.Threw i)
      (fun u a u' hu ha hstep =>
        have hnext := hu.1.step ha hstep
        ⟨hnext.1, fun i hi => hu.2 i (hnext.2 i hi)⟩) h ⟨hs, fun _ hi => hi⟩
  refine ⟨hthrew, fun id hid forceRefresh now => ?_⟩
  obtain ⟨listed, hmem, hlistedId⟩ := hlisted.2 id hid
  have hsome : (t.find id).isSome :=
    List.find?_isSome.mpr ⟨listed, hmem, decide_eq_true hlistedId⟩
  obtain ⟨server, hserver⟩ := Option.isSome_iff_exists.mp hsome
  exact ⟨server, by rw [State.start, hserver]; rfl, by simpa using List.find?_some hserver⟩

/-- The list is there, and a forced refresh fails. -/
def sampleListed : State := ⟨sampleTable.servers plainRuntime, 10, [], []⟩

theorem server_is_found_after_failure : ∃ t : State, ∃ server,
    t.calls = [.returned none (sampleTable.servers plainRuntime)] ∧
    t.start false 600000 (some "192.0.2.7|public,vpn|Y2xpZW50".toList) =
      .found "192.0.2.7|public,vpn|Y2xpZW50".toList (some server) := by
  have hlisted : sampleListed.Listed {"192.0.2.7|public,vpn|Y2xpZW50".toList} := by
    refine ⟨by decide +kernel, fun id hid => ?_⟩
    obtain rfl := hid
    decide +kernel
  have heval : (exec (step plainRuntime) sampleListed [.call none true 20,
      .downloaded 0 (.refused 503) 30, .logged 0 (.ok ())]).map State.calls =
      some [.returned none (sampleTable.servers plainRuntime)] := by decide +kernel
  obtain ⟨t, hrun, hcalls⟩ : ∃ t, Run (step plainRuntime)
      (fun _ a => a.Lists plainRuntime {"192.0.2.7|public,vpn|Y2xpZW50".toList}) sampleListed t ∧
      t.calls = _ :=
    Run.of_eval (by
      intro a ha s
      simp only [List.mem_cons, List.not_mem_nil, or_false] at ha
      rcases ha with rfl | rfl | rfl
      · trivial
      · exact fun servers h => by cases h
      · rfl) heval
  obtain ⟨server, hfound, -⟩ := (listed_servers_stay_found hlisted hrun).2 _ rfl false 600000
  exact ⟨t, server, hcalls, hfound⟩

end IptvProxy.Vpn.Gate
