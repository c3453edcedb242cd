import IptvProxy.Xtream.Rewrite

/-!
# URLs in JSON

`rewriteXtreamJSONURLs` of `internal/proxy/xtream_urls.go` replaces the strings of a document that
are URLs of the provider by URLs of the proxy. The source changes maps and slices in place; here a
document is rewritten into another one, together with the flag that says whether it changed.

`leaves_rewriteXtreamJSONURLs` says what the strings of the result are.
-/

namespace IptvProxy.Xtream

/-- Functions from outside: JSON documents, and the text of a URL with its fragment. -/
structure JSONLibrary extends Library where
  /-- `json.Decoder.Decode` with `UseNumber` -/
  decode : Bytes → Option Json
  /-- `json.Marshal` -/
  marshal : Json → Bytes
  /-- `URL.Fragment` of a text that is parsed -/
  fragment : Bytes → Bytes
  /-- `URL.String` of a URL with this fragment -/
  urlString : URL → Bytes → Bytes

variable (L : JSONLibrary) (p : Provider) (c : RewriteCredentials) (publicBase : Bytes)

/-- The string that a string of the document becomes, if it is replaced. -/
def replacement (raw : Bytes) : Option Bytes :=
  (rewriteXtreamAbsoluteURLWithCredentials L.toLibrary p c publicBase raw).map fun url =>
    L.urlString url (L.fragment (L.trimSpace raw))

mutual

/-- `rewriteXtreamJSONValue` -/
def rewriteXtreamJSONValue : Json → Json × Bool
  | .object fields => (.object (rewriteFields fields).1, (rewriteFields fields).2)
  | .array xs => (.array (rewriteItems xs).1, (rewriteItems xs).2)
  | .null => (.null, false)
  | .bool b => (.bool b, false)
  | .number text => (.number text, false)
  | .string s => (.string s, false)

/-- A child in the loops of `rewriteXtreamJSONValue`. -/
def rewriteChild : Json → Json × Bool
  | .string raw =>
    match replacement L p c publicBase raw with
    | some text => (.string text, true)
    | none => (.string raw, false)
  | .object fields => (.object (rewriteFields fields).1, (rewriteFields fields).2)
  | .array xs => (.array (rewriteItems xs).1, (rewriteItems xs).2)
  | .null => (.null, false)
  | .bool b => (.bool b, false)
  | .number text => (.number text, false)

/-- The loop over a map. -/
def rewriteFields : List (Bytes × Json) → List (Bytes × Json) × Bool
  | [] => ([], false)
  | (key, child) :: fields =>
    ((key, (rewriteChild child).1) :: (rewriteFields fields).1,
      (rewriteChild child).2 || (rewriteFields fields).2)

/-- The loop over a slice. -/
def rewriteItems : List Json → List Json × Bool
  | [] => ([], false)
  | child :: items =>
    ((rewriteChild child).1 :: (rewriteItems items).1,
      (rewriteChild child).2 || (rewriteItems items).2)

end

/-- `rewriteXtreamJSONURLsWithCredentials` -/
def rewriteXtreamJSONURLsWithCredentials (body : Bytes) : Bytes :=
  match L.decode body with
  | none => body
  | some value =>
    if (rewriteXtreamJSONValue L p c publicBase value).2 = false then body
    else L.marshal (rewriteXtreamJSONValue L p c publicBase value).1

/-- `rewriteXtreamJSONURLs` -/
def rewriteXtreamJSONURLs (clientUser : User) (body : Bytes) : Bytes :=
  rewriteXtreamJSONURLsWithCredentials L p (clientXtreamCredentials clientUser) publicBase body

/-! ## The strings of a document -/

namespace Json

mutual

/-- The strings of a document, apart from the keys of its maps. -/
def leaves : Json → List Bytes
  | .string s => [s]
  | .object fields => fieldLeaves fields
  | .array xs => itemLeaves xs
  | .null => []
  | .bool _ => []
  | .number _ => []

/-- The strings of a map. -/
def fieldLeaves : List (Bytes × Json) → List Bytes
  | [] => []
  | (_, child) :: fields => leaves child ++ fieldLeaves fields

/-- The strings of a slice. -/
def itemLeaves : List Json → List Bytes
  | [] => []
  | child :: items => leaves child ++ itemLeaves items

end

mutual

/-- Replace the strings of a document. -/
def mapLeaves (f : Bytes → Bytes) : Json → Json
  | .string s => .string (f s)
  | .object fields => .object (mapFields f fields)
  | .array xs => .array (mapItems f xs)
  | .null => .null
  | .bool b => .bool b
  | .number text => .number text

/-- Replace the strings of a map. -/
def mapFields (f : Bytes → Bytes) : List (Bytes × Json) → List (Bytes × Json)
  | [] => []
  | (key, child) :: fields => (key, mapLeaves f child) :: mapFields f fields

/-- Replace the strings of a slice. -/
def mapItems (f : Bytes → Bytes) : List Json → List Json
  | [] => []
  | child :: items => mapLeaves f child :: mapItems f items

end

/-- An object or an array. -/
def isContainer : Json → Bool
  | .object _ => true
  | .array _ => true
  | _ => false

variable (f : Bytes → Bytes)

mutual

theorem leaves_mapLeaves (v : Json) : (v.mapLeaves f).leaves = v.leaves.map f := by
  cases v with
  | string s => rfl
  | object fields =>
    rw [mapLeaves, leaves, leaves]
    exact leaves_mapFields fields
  | array xs =>
    rw [mapLeaves, leaves, leaves]
    exact leaves_mapItems xs
  | null => rfl
  | bool b => rfl
  | number text => rfl

theorem leaves_mapFields (fields : List (Bytes × Json)) :
    fieldLeaves (mapFields f fields) = (fieldLeaves fields).map f := by
  cases fields with
  | nil => rfl
  | cons field fields =>
    obtain ⟨key, child⟩ := field
    rw [mapFields, fieldLeaves, fieldLeaves, List.map_append, leaves_mapLeaves child,
      leaves_mapFields fields]

theorem leaves_mapItems (items : List Json) :
    itemLeaves (mapItems f items) = (itemLeaves items).map f := by
  cases items with
  | nil => rfl
  | cons child items =>
    rw [mapItems, itemLeaves, itemLeaves, List.map_append, leaves_mapLeaves child,
      leaves_mapItems items]

end

end Json

/-- The string that a string of the document becomes. -/
def replaced (raw : Bytes) : Bytes := (replacement L p c publicBase raw).getD raw

variable {L p c publicBase}

mutual

/-- A child of the document has its strings replaced, and the flag tells whether one was. -/
theorem rewriteChild_eq (v : Json) : rewriteChild L p c publicBase v =
    (v.mapLeaves (replaced L p c publicBase),
      v.leaves.any fun s => (replacement L p c publicBase s).isSome) := by
  cases v with
  | string raw =>
    rw [rewriteChild, Json.mapLeaves, Json.leaves, replaced]
    cases hreplacement : replacement L p c publicBase raw with
    | some text => simp [hreplacement]
    | none => simp [hreplacement]
  | object fields =>
    rw [rewriteChild, rewriteFields_eq fields, Json.mapLeaves, Json.leaves]
  | array xs =>
    rw [rewriteChild, rewriteItems_eq xs, Json.mapLeaves, Json.leaves]
  | null => rfl
  | bool b => rfl
  | number text => rfl

theorem rewriteFields_eq (fields : List (Bytes × Json)) : rewriteFields L p c publicBase fields =
    (Json.mapFields (replaced L p c publicBase) fields,
      (Json.fieldLeaves fields).any fun s => (replacement L p c publicBase s).isSome) := by
  cases fields with
  | nil => rfl
  | cons field fields =>
    obtain ⟨key, child⟩ := field
    rw [rewriteFields, rewriteChild_eq child, rewriteFields_eq fields, Json.mapFields,
      Json.fieldLeaves, List.any_append]

theorem rewriteItems_eq (items : List Json) : rewriteItems L p c publicBase items =
    (Json.mapItems (replaced L p c publicBase) items,
      (Json.itemLeaves items).any fun s => (replacement L p c publicBase s).isSome) := by
  cases items with
  | nil => rfl
  | cons child items =>
    rw [rewriteItems, rewriteChild_eq child, rewriteItems_eq items, Json.mapItems,
      Json.itemLeaves, List.any_append]

end

/-- An object or an array has its strings replaced. -/
theorem rewriteXtreamJSONValue_eq {v : Json} (hv : v.isContainer = true) :
    rewriteXtreamJSONValue L p c publicBase v = (v.mapLeaves (replaced L p c publicBase),
      v.leaves.any fun s => (replacement L p c publicBase s).isSome) := by
  cases v with
  | object fields =>
    rw [rewriteXtreamJSONValue, rewriteFields_eq fields, Json.mapLeaves, Json.leaves]
  | array xs =>
    rw [rewriteXtreamJSONValue, rewriteItems_eq xs, Json.mapLeaves, Json.leaves]
  | null => cases hv
  | bool b => cases hv
  | number text => cases hv
  | string s => cases hv

/-- What `encoding/json` and `net/url` are relied on for. -/
structure JSONLibrary.Reads (L : JSONLibrary) : Prop where
  /-- a document that was read, with some of its strings replaced by texts of URLs, is written and
  read again with these strings; such a text is ASCII, since the scheme and the host are those of a
  URL that was parsed and everything else is escaped -/
  decode_marshal : ∀ body v f t loc, L.decode body = some v → L.parseURL t = some loc →
    loc.host ≠ [] →
    (∀ s ∈ v.leaves, f s = s ∨ ∃ (path : Bytes) (q : Values) (fragment : Bytes),
      f s = L.urlString { loc with path := path, rawQuery := q.encode } fragment) →
    ∃ w, L.decode (L.marshal (v.mapLeaves f)) = some w ∧
      ∀ s, s ∈ w.leaves ↔ s ∈ (v.mapLeaves f).leaves
  /-- the text of a URL with the scheme and the host of one that was read has this scheme and
  host -/
  parse_urlString : ∀ t loc u f v, L.parseURL t = some loc → u.scheme = loc.scheme →
    u.host = loc.host → loc.host ≠ [] → L.parseURL (L.trimSpace (L.urlString u f)) = some v →
    v.scheme = loc.scheme ∧ v.host = loc.host

/-- A URL that is rewritten is one of the proxy. -/
theorem rewrite_local {raw : Bytes} {y : URL}
    (h : rewriteXtreamAbsoluteURLWithCredentials L.toLibrary p c publicBase raw = some y) :
    ∃ loc path q, L.parseURL (trimSuffixSlash publicBase) = some loc ∧ loc.host ≠ [] ∧
      y = { loc with path := path, rawQuery := Values.encode q } := by
  rw [rewriteXtreamAbsoluteURLWithCredentials] at h
  split at h
  · cases h
  obtain ⟨target, -, h⟩ := Option.bind_eq_some_iff.mp h
  obtain ⟨base, -, h⟩ := Option.bind_eq_some_iff.mp h
  obtain ⟨loc, hloc, h⟩ := Option.bind_eq_some_iff.mp h
  split at h
  · cases h
  obtain ⟨⟨path, q⟩, -, h⟩ := Option.bind_eq_some_iff.mp h
  dsimp only at h
  split at h
  · cases h
  next hloc' =>
  exact ⟨loc, _, q, hloc, (not_or.mp hloc').2, (Option.some.inj h).symm⟩

/-- **The strings of the result**: those of the document, each replaced or not. -/
theorem leaves_rewriteXtreamJSONURLs (hL : L.Reads) {body : Bytes} {v : Json}
    (hbody : L.decode body = some v) (hv : v.isContainer = true) :
    ∃ w, L.decode (rewriteXtreamJSONURLsWithCredentials L p c publicBase body) = some w ∧
      ∀ s, s ∈ w.leaves ↔ ∃ raw ∈ v.leaves, s = replaced L p c publicBase raw := by
  rw [rewriteXtreamJSONURLsWithCredentials, hbody]
  simp only [rewriteXtreamJSONValue_eq hv]
  split
  · next hchanged =>
    have hsame : ∀ raw ∈ v.leaves, replaced L p c publicBase raw = raw := by
      intro raw hraw
      have hnone := List.any_eq_false.mp hchanged raw hraw
      rw [Bool.not_eq_true, Option.isSome_eq_false_iff, Option.isNone_iff_eq_none] at hnone
      rw [replaced, hnone]
      rfl
    refine ⟨v, hbody, fun s => ⟨fun hs => ⟨s, hs, (hsame s hs).symm⟩, ?_⟩⟩
    rintro ⟨raw, hraw, rfl⟩
    rw [hsame raw hraw]
    exact hraw
  · next hchanged =>
    -- some string is replaced, so the address of the proxy is a URL, and it is the same for all
    rw [Bool.not_eq_false, List.any_eq_true] at hchanged
    obtain ⟨raw, -, hraw⟩ := hchanged
    obtain ⟨text, htext⟩ := Option.isSome_iff_exists.mp hraw
    obtain ⟨y, hy, -⟩ := Option.map_eq_some_iff.mp htext
    obtain ⟨loc, -, -, hloc, hhost, -⟩ := rewrite_local hy
    have hstrings : ∀ s ∈ v.leaves, replaced L p c publicBase s = s ∨
        ∃ path q fragment, replaced L p c publicBase s =
          L.urlString { loc with path := path, rawQuery := Values.encode q } fragment := by
      intro s _
      rw [replaced]
      cases hreplacement : replacement L p c publicBase s with
      | none => exact .inl rfl
      | some text =>
        obtain ⟨y, hy, rfl⟩ := Option.map_eq_some_iff.mp hreplacement
        obtain ⟨loc', path, q, hloc', -, rfl⟩ := rewrite_local hy
        obtain rfl := Option.some.inj (hloc.symm.trans hloc')
        exact .inr ⟨path, q, _, rfl⟩
    obtain ⟨w, hw, hleaves⟩ := hL.decode_marshal body v _ _ loc hbody hloc hhost hstrings
    refine ⟨w, hw, fun s => ?_⟩
    rw [hleaves, Json.leaves_mapLeaves, List.mem_map]
    constructor
    · rintro ⟨raw, hraw, rfl⟩
      exact ⟨raw, hraw, rfl⟩
    · rintro ⟨raw, hraw, rfl⟩
      exact ⟨raw, hraw, rfl⟩

end IptvProxy.Xtream
