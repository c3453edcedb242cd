import IptvProxy.Lib.Cursor
import IptvProxy.Logs.Sanitize
import Mathlib.Data.List.Forall2

/-!
# Secrets in log metadata

`sanitizeMetadata` of `lib/services/log.service.ts`. The metadata of a log is a JSON document; what
stands under a key with one of nine words in it is replaced as a whole, whatever it is, and the
other texts go through the sanitizer of messages.

So the text that is stored does not depend on what stands under such keys, at any depth
(`metadata_hides_secrets`).
-/

namespace IptvProxy.Logs

/-! ## JSON -/

/-- A value that `JSON.stringify` writes. -/
inductive Json where
  /-- `null` -/
  | null
  /-- `true`, `false` -/
  | bool (b : Bool)
  /-- a number, by its digits -/
  | number (digits : Text)
  /-- a string -/
  | string (s : Text)
  /-- an array -/
  | array (items : List Json)
  /-- an object, with its properties in their order -/
  | object (properties : List (Text × Json))

/-- A digit of a `\u` escape. -/
def hexDigit (n : ℕ) : ℕ := if n < 10 then 48 + n else 87 + n

/-- `\u` and four digits -/
def unicodeEscape (c : ℕ) : Text :=
  [92, 117, hexDigit (c / 4096 % 16), hexDigit (c / 256 % 16), hexDigit (c / 16 % 16),
    hexDigit (c % 16)]

/-- A code unit of a string that is not part of a pair. -/
def quoteUnit (c : ℕ) : Text :=
  if c = 34 ∨ c = 92 then [92, c]
  else if c = 8 then text "\\b"
  else if c = 9 then text "\\t"
  else if c = 10 then text "\\n"
  else if c = 12 then text "\\f"
  else if c = 13 then text "\\r"
  else if c < 32 ∨ (0xD800 ≤ c ∧ c ≤ 0xDFFF) then unicodeEscape c
  else [c]

/-- The units of a string; surrogates are written as they are in pairs only. -/
def quoteUnits : Text → Text
  | [] => []
  | [c] => quoteUnit c
  | c :: d :: s =>
    if 0xD800 ≤ c ∧ c ≤ 0xDBFF ∧ 0xDC00 ≤ d ∧ d ≤ 0xDFFF then c :: d :: quoteUnits s
    else quoteUnit c ++ quoteUnits (d :: s)

/-- A string in quotes. -/
def quote (s : Text) : Text := 34 :: quoteUnits s ++ [34]

mutual

/-- `JSON.stringify` -/
def stringify : Json → Text
  | .null => text "null"
  | .bool b => text (if b then "true" else "false")
  | .number digits => digits
  | .string s => quote s
  | .array items => 91 :: stringifyItems items ++ [93]
  | .object properties => 123 :: stringifyProperties properties ++ [125]

/-- The values between the brackets. -/
def stringifyItems : List Json → Text
  | [] => []
  | [value] => stringify value
  | value :: rest => stringify value ++ 44 :: stringifyItems rest

/-- The properties between the braces. -/
def stringifyProperties : List (Text × Json) → Text
  | [] => []
  | [(key, value)] => quote key ++ 58 :: stringify value
  | (key, value) :: rest => quote key ++ 58 :: stringify value ++ 44 :: stringifyProperties rest

end

/-! ## The service -/

/-- The words in `scrubValue`. -/
def secretWords : List Text :=
  [text "password", text "secret", text "privatekey", text "private_key", text "preshared",
    text "token", text "cookie", text "authorization", text "config"]

/-- `includes` -/
def includes (s word : Text) : Bool := s.tails.any word.isPrefixOf

section Scrub

variable (toLowerCase : Text → Text)

/-- The condition of `scrubValue` on a key. -/
def isSecretKey (key : Text) : Bool := secretWords.any (includes (toLowerCase key))

mutual

/-- `scrubValue` -/
def scrubValue (value : Json) (key : Text) : Json :=
  if isSecretKey toLowerCase key then .string redacted
  else match value with
    | .array items => .array (scrubItems items)
    | .object properties => .object (scrubProperties properties)
    | .string s => .string (sanitizeLogString s)
    | value => value

/-- `value.map` -/
def scrubItems : List Json → List Json
  | [] => []
  | value :: rest => scrubValue value [] :: scrubItems rest

/-- `Object.entries(value).map` -/
def scrubProperties : List (Text × Json) → List (Text × Json)
  | [] => []
  | (key, value) :: rest => (key, scrubValue value key) :: scrubProperties rest

end

/-- `sanitizeMetadata` -/
def sanitizeMetadata (metadata : Option (List (Text × Json))) : Option Text :=
  metadata.map fun properties => stringify (scrubValue toLowerCase (.object properties) [])

/-! ## Secrets -/

mutual

/-- Two values that differ under keys of secrets only. -/
inductive Alike : Json → Json → Prop where
  /-- the same value -/
  | refl (value : Json) : Alike value value
  /-- the same number of items -/
  | array {items items' : List Json} (h : AlikeItems items items') :
      Alike (.array items) (.array items')
  /-- the same keys -/
  | object {properties properties' : List (Text × Json)}
      (h : AlikeProperties properties properties') :
      Alike (.object properties) (.object properties')

/-- Items, one by one. -/
inductive AlikeItems : List Json → List Json → Prop where
  | nil : AlikeItems [] []
  | cons {value value' : Json} {rest rest' : List Json} (h : Alike value value')
      (hrest : AlikeItems rest rest') : AlikeItems (value :: rest) (value' :: rest')

/-- Properties, one by one. -/
inductive AlikeProperties : List (Text × Json) → List (Text × Json) → Prop where
  | nil : AlikeProperties [] []
  /-- what stands under the key of a secret is not compared -/
  | secret {key : Text} {value value' : Json} {rest rest' : List (Text × Json)}
      (hkey : isSecretKey toLowerCase key = true) (hrest : AlikeProperties rest rest') :
      AlikeProperties ((key, value) :: rest) ((key, value') :: rest')
  | cons {key : Text} {value value' : Json} {rest rest' : List (Text × Json)}
      (h : Alike value value') (hrest : AlikeProperties rest rest') :
      AlikeProperties ((key, value) :: rest) ((key, value') :: rest')

end

variable {toLowerCase}

theorem scrubValue_of_secret {key : Text} (h : isSecretKey toLowerCase key = true) (value : Json) :
    scrubValue toLowerCase value key = .string redacted := by
  cases value <;> rw [scrubValue, if_pos h] <;> intros <;> contradiction

mutual

/-- **Values that differ under keys of secrets only are scrubbed to the same value.** -/
theorem Alike.scrubValue_eq {value value' : Json} (h : Alike toLowerCase value value')
    (key : Text) : scrubValue toLowerCase value key = scrubValue toLowerCase value' key := by
  cases h with
  | refl => rfl
  | array h => rw [scrubValue, scrubValue, h.scrubItems_eq]
  | object h => rw [scrubValue, scrubValue, h.scrubProperties_eq]

theorem AlikeItems.scrubItems_eq {items items' : List Json}
    (h : AlikeItems toLowerCase items items') :
    scrubItems toLowerCase items = scrubItems toLowerCase items' := by
  cases h with
  | nil => rfl
  | cons h hrest => rw [scrubItems, scrubItems, h.scrubValue_eq, hrest.scrubItems_eq]

theorem AlikeProperties.scrubProperties_eq {properties properties' : List (Text × Json)}
    (h : AlikeProperties toLowerCase properties properties') :
    scrubProperties toLowerCase properties = scrubProperties toLowerCase properties' := by
  cases h with
  | nil => rfl
  | secret hkey hrest =>
    rw [scrubProperties, scrubProperties, scrubValue_of_secret hkey, scrubValue_of_secret hkey,
      hrest.scrubProperties_eq]
  | cons h hrest =>
    rw [scrubProperties, scrubProperties, h.scrubValue_eq, hrest.scrubProperties_eq]

end

theorem sanitizeMetadata_congr {metadata metadata' : List (Text × Json)}
    (h : AlikeProperties toLowerCase metadata metadata') :
    sanitizeMetadata toLowerCase (some metadata) =
      sanitizeMetadata toLowerCase (some metadata') := by
  rw [sanitizeMetadata, sanitizeMetadata, Option.map_some, Option.map_some,
    (Alike.object h).scrubValue_eq]

end Scrub

/-! ## The table -/

/-- `LogLevel` -/
inductive LogLevel where
  /-- `'debug'` -/
  | debug
  /-- `'info'` -/
  | info
  /-- `'warning'` -/
  | warning
  /-- `'error'` -/
  | error
  deriving DecidableEq

/-- `LogSource` -/
inductive LogSource where
  /-- `'auth'` -/
  | auth
  /-- `'provider'` -/
  | provider
  /-- `'vpn'` -/
  | vpn
  /-- `'wireguard'` -/
  | wireguard
  /-- `'openvpn'` -/
  | openvpn
  /-- `'warp'` -/
  | warp
  /-- `'vpngate'` -/
  | vpngate
  /-- `'system'` -/
  | system
  /-- `'proxy'` -/
  | proxy
  deriving DecidableEq

/-- `LogEntry` -/
structure LogEntry where
  /-- `id` -/
  id : Text
  /-- `timestamp` -/
  timestamp : Text
  /-- `level` -/
  level : LogLevel
  /-- `source` -/
  source : LogSource
  /-- `category` -/
  category : Text
  /-- `message` -/
  message : Text
  /-- `metadata_json` -/
  metadataJson : Option Text
  /-- `created_at` -/
  createdAt : Text
  deriving DecidableEq

/-- A row of `logs`. -/
structure Row where
  /-- `rowid` -/
  rowid : ℕ
  /-- the columns -/
  entry : LogEntry
  deriving DecidableEq

/-- `MAX(rowid)` -/
def maxRowId (logs : List Row) : ℕ := Cursor.newest Row.rowid logs

/-- `INSERT INTO logs` -/
def insertLog (logs : List Row) (entry : LogEntry) : List Row :=
  logs ++ [⟨maxRowId logs + 1, entry⟩]

/-- A row after an `UPDATE`. -/
def Row.set (id : Text) (change : LogEntry → LogEntry) (row : Row) : Row :=
  if row.entry.id = id then { row with entry := change row.entry } else row

/-- `UPDATE logs SET … WHERE id = ?` -/
def setLog (logs : List Row) (id : Text) (change : LogEntry → LogEntry) : List Row :=
  logs.map (Row.set id change)

/-- `DELETE FROM logs WHERE …` -/
def deleteLogs (logs : List Row) (doomed : LogEntry → Bool) : List Row :=
  logs.filter fun row => !doomed row.entry

section Service

variable (toLowerCase : Text → Text)

/-- What is passed to `writeLog`, with what the runtime draws: the identifier and the time. -/
structure Written where
  /-- `crypto.randomUUID()` -/
  id : Text
  /-- `new Date().toISOString()` -/
  now : Text
  /-- `level` -/
  level : LogLevel
  /-- `source` -/
  source : LogSource
  /-- `category` -/
  category : Text
  /-- `message` -/
  message : Text
  /-- `metadata` -/
  metadata : Option (List (Text × Json))

/-- The entry of `writeLog`. -/
def Written.entry (w : Written) : LogEntry where
  id := w.id
  timestamp := w.now
  level := w.level
  source := w.source
  category := (sanitizeLogString w.category).take 128
  message := sanitizeLogString w.message
  metadataJson := sanitizeMetadata toLowerCase w.metadata
  createdAt := w.now

/-- The input of `updateLog`. -/
structure Input where
  /-- `level` -/
  level : Option LogLevel
  /-- `source` -/
  source : Option LogSource
  /-- `category` -/
  category : Option Text
  /-- `message` -/
  message : Option Text
  /-- `metadata` -/
  metadata : Option (Option (List (Text × Json)))

/-- What `updateLog` sets in an entry. -/
def Input.change (input : Input) (existing : LogEntry) : LogEntry :=
  { existing with
    level := input.level.getD existing.level
    source := input.source.getD existing.source
    category := (input.category.map fun category =>
      (sanitizeLogString category).take 128).getD existing.category
    message := (input.message.map sanitizeLogString).getD existing.message
    metadataJson := (input.metadata.map (sanitizeMetadata toLowerCase)).getD
      existing.metadataJson }

/-- The calls of `LogService` that change the table. -/
inductive Call where
  /-- `writeLog` -/
  | writeLog (w : Written)
  /-- `updateLog` -/
  | updateLog (id : Text) (input : Input)
  /-- `deleteLog` -/
  | deleteLog (id : Text)
  /-- `clearAllLogs` -/
  | clearAllLogs
  /-- `pruneOldLogs`, with the time that it reckons -/
  | pruneOldLogs (cutoff : Text)

/-- What a call leaves in the table. -/
def Call.serve (logs : List Row) : Call → List Row
  | writeLog w => insertLog logs (w.entry toLowerCase)
  | updateLog id input => setLog logs id (input.change toLowerCase)
  | deleteLog id => deleteLogs logs fun entry => entry.id = id
  | clearAllLogs => []
  | pruneOldLogs cutoff => deleteLogs logs fun entry => entry.timestamp < cutoff

/-- Metadata that differs under keys of secrets only. -/
inductive AlikeMetadata :
    Option (List (Text × Json)) → Option (List (Text × Json)) → Prop where
  | none : AlikeMetadata none none
  | some {metadata metadata' : List (Text × Json)}
      (h : AlikeProperties toLowerCase metadata metadata') :
      AlikeMetadata (some metadata) (some metadata')

/-- Calls that differ in their metadata, and there under keys of secrets only. -/
inductive AlikeCall : Call → Call → Prop where
  | refl (call : Call) : AlikeCall call call
  | writeLog {w : Written} {metadata : Option (List (Text × Json))}
      (h : AlikeMetadata toLowerCase w.metadata metadata) :
      AlikeCall (.writeLog w) (.writeLog { w with metadata := metadata })
  | updateLog {id : Text} {input : Input} {metadata metadata' : Option (List (Text × Json))}
      (hinput : input.metadata = some metadata) (h : AlikeMetadata toLowerCase metadata metadata') :
      AlikeCall (.updateLog id input) (.updateLog id { input with metadata := some metadata' })

variable {toLowerCase}

theorem AlikeMetadata.sanitizeMetadata_eq {metadata metadata' : Option (List (Text × Json))}
    (h : AlikeMetadata toLowerCase metadata metadata') :
    sanitizeMetadata toLowerCase metadata = sanitizeMetadata toLowerCase metadata' := by
  cases h with
  | none => rfl
  | some h => exact sanitizeMetadata_congr h

theorem AlikeCall.serve_eq {call call' : Call} (h : AlikeCall toLowerCase call call')
    (logs : List Row) : call.serve toLowerCase logs = call'.serve toLowerCase logs := by
  cases h with
  | refl => rfl
  | writeLog h =>
    rw [Call.serve, Call.serve, Written.entry, Written.entry, h.sanitizeMetadata_eq]
  | updateLog hinput h =>
    refine congrArg (setLog logs _) (funext fun existing => ?_)
    simp only [Input.change, hinput, Option.map_some, h.sanitizeMetadata_eq]

/-- **The stored metadata hides secrets.** Two histories of the service that differ under keys of
secrets only, at any depth, leave the same table. -/
theorem metadata_hides_secrets {calls calls' : List Call}
    (h : List.Forall₂ (AlikeCall toLowerCase) calls calls') (logs : List Row) :
    calls.foldl (Call.serve toLowerCase) logs = calls'.foldl (Call.serve toLowerCase) logs := by
  induction h generalizing logs with
  | nil => rfl
  | cons hcall _ ih => rw [List.foldl_cons, List.foldl_cons, hcall.serve_eq, ih]

/-- A log of a provider that is updated. -/
def sampleProvider (password : Json) : Written where
  id := text "1"
  now := text "2026-01-01T00:00:00.000Z"
  level := .info
  source := .provider
  category := text "provider.updated"
  message := text "Provider updated."
  metadata := some [(text "name", .string (text "p")),
    (text "changes", .array [.object [(text "Upstream_Password", password)]])]

/-- The log of the provider is the same for two passwords, of which one is no text. -/
theorem sample_metadata_hides_secrets :
    [Call.writeLog (sampleProvider (.string (text "hunter2"))), .deleteLog (text "0")].foldl
        (Call.serve (List.map lower)) [] =
      [Call.writeLog (sampleProvider (.array [.null])), .deleteLog (text "0")].foldl
        (Call.serve (List.map lower)) [] := by
  have hsecret : isSecretKey (List.map lower) (text "Upstream_Password") = true := by
    decide +kernel
  exact metadata_hides_secrets (.cons (.writeLog (.some (.cons (.refl _) (.cons
    (.array (.cons (.object (.secret hsecret .nil)) .nil)) .nil)))) (.cons (.refl _) .nil)) []

end Service

end IptvProxy.Logs
