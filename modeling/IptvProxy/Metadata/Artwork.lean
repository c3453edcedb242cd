import IptvProxy.Artwork.Guard
import IptvProxy.Media.Tokens
import IptvProxy.Xtream.Emitted
import IptvProxy.Xtream.Leaves

/-!
# Artwork in JSON

`internal/proxy/metadata_artwork.go` first collects the artwork URLs of a document, then stores
tokens for them (`storeArtworkTargets` of `artwork.go`), and then replaces them. The collector
carries a key through any nesting of lists; the replacer only looks at a string below an artwork key
and at the strings of a list below it (`stringAt_replaceJSONArtwork`). So a URL in a list of lists
is collected, and it stays: `every_collected_replaced_iff`.
-/

namespace IptvProxy.Metadata

open Xtream

/-- `jsonArtworkKeys` -/
def jsonArtworkKeys : List Bytes :=
  [ascii "stream_icon", ascii "cover", ascii "cover_big", ascii "movie_image",
    ascii "backdrop_path", ascii "poster_path", ascii "logo", ascii "icon"]

/-- Functions from outside; `Ref` is a `*url.URL`. -/
structure ArtworkLibrary (Ref : Type) extends JSONLibrary where
  /-- `html.UnescapeString` -/
  unescapeString : Bytes → Bytes
  /-- `url.Parse` -/
  parseRef : Bytes → Option Ref
  /-- `URL.IsAbs` -/
  isAbs : Ref → Bool
  /-- `URL.ResolveReference` -/
  resolve : Ref → Ref → Ref
  /-- its fields -/
  fields : Ref → Artwork.URL
  /-- Unicode -/
  unicode : GoText.Unicode
  /-- `URL.String` -/
  refString : Ref → Bytes
  /-- `sha256.Sum256` -/
  sum256 : Bytes → Bytes

/-- `safeArtworkURL` -/
def ArtworkLibrary.safeArtworkURL {Ref : Type} (L : ArtworkLibrary Ref) (target : Ref) : Bool :=
  Artwork.safeArtworkURL L.unicode (L.fields target)

/-- `preparedArtwork` -/
structure PreparedArtwork where
  /-- `raw` -/
  raw : Bytes
  /-- `token` -/
  token : Bytes
  /-- `encoded` -/
  encoded : Media.Target
  /-- `public` -/
  publicURL : Bytes
  deriving DecidableEq

/-- What Redis and the runtime decide while tokens are stored. -/
structure ArtworkStore where
  /-- there is a client of Redis -/
  connected : Bool
  /-- the order of the prepared URLs -/
  order : List PreparedArtwork → List PreparedArtwork
  /-- whether the pipeline of a chunk succeeds -/
  exec : ℕ → Bool
  /-- a map is visited in some order -/
  order_perm : ∀ items, (order items).Perm items

variable {Ref : Type} (L : ArtworkLibrary Ref) (p : Provider) (appURL : Bytes) (S : ArtworkStore)

/-! ## Storing -/

/-- `resolveArtworkTarget` -/
def resolveArtworkTarget (raw : Bytes) : Option Ref :=
  let value := L.trimSpace (L.unescapeString raw)
  if value = [] ∨ (ascii "data:").isPrefixOf (L.toLower value) = true then none
  else do
    let target ← L.parseRef value
    let target ←
      if L.isAbs target = false then
        (L.parseRef (trimSuffixSlash p.host ++ [slash])).map fun base => L.resolve base target
      else some target
    if L.safeArtworkURL target = false then none else some target

/-- `artworkPublicURL` -/
def artworkPublicURL (token : Bytes) : Bytes :=
  xtreamProviderPublicBase appURL p ++ ascii "/_artwork/" ++ token

/-- What is prepared for a URL that can be stored. -/
def prepareArtwork (raw : Bytes) : Option PreparedArtwork :=
  (resolveArtworkTarget L p raw).map fun target =>
    let token := Media.deterministicMediaToken L.sum256 p.id (L.refString target)
    ⟨raw, token, ⟨p.id, L.refString target⟩, artworkPublicURL p appURL token⟩

/-- The loop of `storeArtworkTargets` over the URLs. -/
def uniqueArtwork (unique : List PreparedArtwork) : List Bytes → List PreparedArtwork
  | [] => unique
  | raw :: raws =>
    if unique.any (fun item => item.raw = raw) then uniqueArtwork unique raws
    else match prepareArtwork L p appURL raw with
      | none => uniqueArtwork unique raws
      | some item => uniqueArtwork (unique ++ [item]) raws

/-- `artworkPipelineChunk` -/
def artworkPipelineChunk : ℕ := 500

/-- The loop of `storeArtworkTargets` over the chunks. -/
def storeChunks (prepared : List PreparedArtwork) : List (Bytes × Bytes) :=
  (List.range ((prepared.length + artworkPipelineChunk - 1) / artworkPipelineChunk)).flatMap fun n =>
    let chunk := (prepared.drop (n * artworkPipelineChunk)).take artworkPipelineChunk
    if S.exec n then chunk.map fun item => (item.raw, item.publicURL) else []

/-- `storeArtworkTargets` -/
def storeArtworkTargets (raws : List Bytes) : List (Bytes × Bytes) :=
  if S.connected = false ∨ raws = [] then []
  else storeChunks S (S.order (uniqueArtwork L p appURL [] raws))

/-- `rewrites[raw]` -/
def rewriteOf (rewrites : List (Bytes × Bytes)) (raw : Bytes) : Bytes :=
  (rewrites.lookup raw).getD []

/-! ## The two recursions -/

/-- `looksLikeArtworkURL` -/
def looksLikeArtworkURL (raw : Bytes) : Bool :=
  let value := L.trimSpace raw
  if value = [] then false
  else
    let lower := L.toLower value
    (ascii "http://").isPrefixOf lower || (ascii "https://").isPrefixOf lower ||
      (ascii "/").isPrefixOf value || slash ∈ value

mutual

/-- `collectJSONArtwork` -/
def collectJSONArtwork (key : Bytes) : Json → List Bytes
  | .object fields => collectFields fields
  | .array xs => collectItems key xs
  | .string s => if key ∈ jsonArtworkKeys ∧ looksLikeArtworkURL L s = true then [s] else []
  | .null => []
  | .bool _ => []
  | .number _ => []

/-- The loop over a map. -/
def collectFields : List (Bytes × Json) → List Bytes
  | [] => []
  | (childKey, child) :: fields =>
    collectJSONArtwork (L.toLower childKey) child ++ collectFields fields

/-- The loop over a slice. -/
def collectItems (key : Bytes) : List Json → List Bytes
  | [] => []
  | child :: items => collectJSONArtwork key child ++ collectItems key items

end

variable (rewrites : List (Bytes × Bytes))

/-- The body of the inner loop over a list. -/
def replaceString : Json → Json
  | .string raw =>
    if rewriteOf rewrites raw ≠ [] then .string (rewriteOf rewrites raw) else .string raw
  | .object fields => .object fields
  | .array xs => .array xs
  | .null => .null
  | .bool b => .bool b
  | .number text => .number text

/-- The inner loop over a list below an artwork key. -/
def replaceStrings (key : Bytes) (list : List Json) : List Json :=
  if key ∈ jsonArtworkKeys then list.map (replaceString rewrites) else list

mutual

/-- `replaceJSONArtwork` -/
def replaceJSONArtwork (key : Bytes) : Json → Json
  | .object fields => .object (replaceFields fields)
  | .array xs => .array (replaceItems key xs)
  | .string s => .string s
  | .null => .null
  | .bool b => .bool b
  | .number text => .number text

/-- The loop over a map. -/
def replaceFields : List (Bytes × Json) → List (Bytes × Json)
  | [] => []
  | (childKey, child) :: fields =>
    (childKey, replaceChild (L.toLower childKey) child) :: replaceFields fields

/-- The body of the loop over a map. The strings of a list are replaced before the recursion in the
source, which leaves strings alone. -/
def replaceChild (lowerKey : Bytes) : Json → Json
  | .string raw =>
    if lowerKey ∈ jsonArtworkKeys ∧ rewriteOf rewrites raw ≠ [] then
      .string (rewriteOf rewrites raw)
    else .string raw
  | .array list => .array (replaceStrings rewrites lowerKey (replaceItems lowerKey list))
  | .object fields => .object (replaceFields fields)
  | .null => .null
  | .bool b => .bool b
  | .number text => .number text

/-- The loop over a slice. -/
def replaceItems (key : Bytes) : List Json → List Json
  | [] => []
  | child :: items => replaceJSONArtwork key child :: replaceItems key items

end

/-- The document after `replaceJSONArtwork`, with the URLs that were stored. -/
def replacedArtwork (value : Json) : Json :=
  let rewrites := storeArtworkTargets L p appURL S (collectJSONArtwork L [] value)
  if rewrites = [] then value else replaceJSONArtwork L rewrites [] value

/-! ## The places of a document -/

/-- A string of a document. -/
structure Occurrence where
  /-- the child to take at each container -/
  path : List ℕ
  /-- the key above it, in lower case -/
  key : Bytes
  /-- the lists between this key and the string -/
  lists : ℕ
  /-- the string -/
  text : Bytes
  deriving DecidableEq

/-- In the child at this place. -/
def Occurrence.below (n : ℕ) (o : Occurrence) : Occurrence := { o with path := n :: o.path }

mutual

/-- The strings of a document. -/
def occurrences (key : Bytes) (lists : ℕ) : Json → List Occurrence
  | .string s => [⟨[], key, lists, s⟩]
  | .object fields => fieldOccurrences 0 fields
  | .array xs => itemOccurrences key (lists + 1) 0 xs
  | .null => []
  | .bool _ => []
  | .number _ => []

/-- The strings of a map. -/
def fieldOccurrences (n : ℕ) : List (Bytes × Json) → List Occurrence
  | [] => []
  | (key, child) :: fields =>
    (occurrences (L.toLower key) 0 child).map (Occurrence.below n) ++
      fieldOccurrences (n + 1) fields

/-- The strings of a list. -/
def itemOccurrences (key : Bytes) (lists n : ℕ) : List Json → List Occurrence
  | [] => []
  | child :: items =>
    (occurrences key lists child).map (Occurrence.below n) ++ itemOccurrences key lists (n + 1) items

end

/-- The string at a place. -/
def stringAt : Json → List ℕ → Option Bytes
  | .string s, [] => some s
  | .object fields, n :: path => fields[n]?.bind fun field => stringAt field.2 path
  | .array xs, n :: path => xs[n]?.bind fun child => stringAt child path
  | _, _ => none

/-- The collector appends the string. -/
def Occurrence.Collected (o : Occurrence) : Prop :=
  o.key ∈ jsonArtworkKeys ∧ looksLikeArtworkURL L o.text = true

instance (o : Occurrence) : Decidable (o.Collected L) := by
  unfold Occurrence.Collected
  infer_instance

/-! ## What is collected and what is replaced -/

variable {L p appURL S rewrites} {key : Bytes} {lists n : ℕ} {o : Occurrence}

mutual

/-- The collector appends the strings of the document that are collected. -/
theorem collectJSONArtwork_eq (key : Bytes) (lists : ℕ) (v : Json) :
    collectJSONArtwork L key v =
      ((occurrences L key lists v).filter (·.Collected L)).map Occurrence.text := by
  cases v with
  | string s =>
    by_cases h : key ∈ jsonArtworkKeys ∧ looksLikeArtworkURL L s = true
    · have hcollected : (⟨[], key, lists, s⟩ : Occurrence).Collected L := h
      rw [collectJSONArtwork, if_pos h]
      simp [occurrences, hcollected]
    · have hcollected : ¬ (⟨[], key, lists, s⟩ : Occurrence).Collected L := h
      rw [collectJSONArtwork, if_neg h]
      simp [occurrences, hcollected]
  | object fields => exact collectFields_eq 0 fields
  | array xs => exact collectItems_eq key (lists + 1) 0 xs
  | null => rfl
  | bool b => rfl
  | number text => rfl

theorem collectFields_eq (n : ℕ) (fields : List (Bytes × Json)) :
    collectFields L fields =
      ((fieldOccurrences L n fields).filter (·.Collected L)).map Occurrence.text := by
  cases fields with
  | nil => rfl
  | cons field fields =>
    obtain ⟨key, child⟩ := field
    rw [collectFields, fieldOccurrences, List.filter_append, List.map_append, List.filter_map,
      List.map_map, collectJSONArtwork_eq (L.toLower key) 0 child, collectFields_eq (n + 1) fields]
    rfl

theorem collectItems_eq (key : Bytes) (lists n : ℕ) (items : List Json) :
    collectItems L key items =
      ((itemOccurrences L key lists n items).filter (·.Collected L)).map Occurrence.text := by
  cases items with
  | nil => rfl
  | cons child items =>
    rw [collectItems, itemOccurrences, List.filter_append, List.map_append, List.filter_map,
      List.map_map, collectJSONArtwork_eq key lists child, collectItems_eq key lists (n + 1) items]
    rfl

end

/-- What the string is after `replaceJSONArtwork`. -/
def Occurrence.replaced (rewrites : List (Bytes × Bytes)) (o : Occurrence) : Bytes :=
  if o.key ∈ jsonArtworkKeys ∧ o.lists ≤ 1 ∧ rewriteOf rewrites o.text ≠ [] then
    rewriteOf rewrites o.text
  else o.text

/-- The string stands at this place from the child `n` on. -/
def StandsAt (child : ℕ → Option Json) (n : ℕ) (path : List ℕ) (text : Bytes) : Prop :=
  ∃ m rest, path = (n + m) :: rest ∧ (child m).bind (stringAt · rest) = some text

/-- Below the first child, or below the others. -/
theorem standsAt_cons {v : Json} {child : ℕ → Option Json} {os os' : List Occurrence}
    {after : Occurrence → Bytes} (hzero : child 0 = some v)
    (hafter : ∀ o, after (o.below n) = after o)
    (hhere : ∀ o ∈ os, stringAt v o.path = some (after o))
    (hrest : ∀ o ∈ os', StandsAt (fun m => child (m + 1)) (n + 1) o.path (after o)) :
    ∀ o ∈ os.map (Occurrence.below n) ++ os', StandsAt child n o.path (after o) := by
  intro o ho
  rcases List.mem_append.mp ho with ho | ho
  · obtain ⟨o', ho', rfl⟩ := List.mem_map.mp ho
    refine ⟨0, o'.path, rfl, ?_⟩
    rw [hzero, Option.bind_some, hafter]
    exact hhere o' ho'
  · obtain ⟨m, rest, hpath, hm⟩ := hrest o ho
    refine ⟨m + 1, rest, ?_, hm⟩
    rw [hpath, Nat.add_right_comm, Nat.add_assoc]

theorem replaced_below (o : Occurrence) :
    (o.below n).replaced rewrites = o.replaced rewrites := rfl

theorem stringAt_of_stands_field {fields : List (Bytes × Json)} {path : List ℕ} {text : Bytes}
    (h : StandsAt (fun m => fields[m]?.map Prod.snd) 0 path text) :
    stringAt (.object fields) path = some text := by
  obtain ⟨m, rest, rfl, hm⟩ := h
  rw [Nat.zero_add, stringAt]
  rw [Option.bind_map] at hm
  exact hm

theorem stringAt_of_stands_item {xs : List Json} {path : List ℕ} {text : Bytes}
    (h : StandsAt (fun m => xs[m]?) 0 path text) : stringAt (.array xs) path = some text := by
  obtain ⟨m, rest, rfl, hm⟩ := h
  rw [Nat.zero_add, stringAt]
  exact hm

theorem replaceString_of_container {v : Json} (hv : v.isContainer = true) :
    replaceString rewrites v = v := by
  cases v <;> first | rfl | cases hv

mutual

/-- The recursion replaces what is below the keys of its maps. A string that it reaches through
lists only is left alone. -/
theorem stringAt_replaceJSONArtwork (key : Bytes) (lists : ℕ) (v : Json)
    (h : key ∉ jsonArtworkKeys ∨ 2 ≤ lists + v.isContainer.toNat) :
    ∀ o ∈ occurrences L key lists v,
      stringAt (replaceJSONArtwork L rewrites key v) o.path = some (o.replaced rewrites) := by
  cases v with
  | string s =>
    intro o ho
    obtain rfl := List.mem_singleton.mp ho
    rw [Occurrence.replaced, if_neg]
    · rfl
    · rintro ⟨hkey, hlists, -⟩
      rcases h with h | h
      · exact h hkey
      · exact absurd (h.trans hlists) (by decide)
  | object fields =>
    intro o ho
    exact stringAt_of_stands_field (stands_replaceFields 0 fields o ho)
  | array xs =>
    intro o ho
    refine stringAt_of_stands_item (stands_replaceItems key (lists + 1) 0 xs ?_ o ho)
    exact h.imp_right fun h => h
  | null => exact fun o ho => by cases ho
  | bool b => exact fun o ho => by cases ho
  | number text => exact fun o ho => by cases ho

theorem stands_replaceFields (n : ℕ) (fields : List (Bytes × Json)) :
    ∀ o ∈ fieldOccurrences L n fields,
      StandsAt (fun m => (replaceFields L rewrites fields)[m]?.map Prod.snd) n o.path
        (o.replaced rewrites) := by
  cases fields with
  | nil => exact fun o ho => by cases ho
  | cons field fields =>
    obtain ⟨key, child⟩ := field
    rw [fieldOccurrences, replaceFields]
    exact standsAt_cons rfl replaced_below (stringAt_replaceChild (L.toLower key) child)
      (stands_replaceFields (n + 1) fields)

theorem stringAt_replaceChild (key : Bytes) (v : Json) :
    ∀ o ∈ occurrences L key 0 v,
      stringAt (replaceChild L rewrites key v) o.path = some (o.replaced rewrites) := by
  cases v with
  | string s =>
    intro o ho
    obtain rfl := List.mem_singleton.mp ho
    rw [replaceChild, Occurrence.replaced]
    simp only [zero_le_one, true_and]
    split
    · rfl
    · rfl
  | object fields =>
    intro o ho
    exact stringAt_of_stands_field (stands_replaceFields 0 fields o ho)
  | array xs =>
    intro o ho
    exact stringAt_of_stands_item (stands_replaceStrings key 0 xs o ho)
  | null => exact fun o ho => by cases ho
  | bool b => exact fun o ho => by cases ho
  | number text => exact fun o ho => by cases ho

theorem stands_replaceItems (key : Bytes) (lists n : ℕ) (items : List Json)
    (h : key ∉ jsonArtworkKeys ∨ 2 ≤ lists) :
    ∀ o ∈ itemOccurrences L key lists n items,
      StandsAt (fun m => (replaceItems L rewrites key items)[m]?) n o.path
        (o.replaced rewrites) := by
  cases items with
  | nil => exact fun o ho => by cases ho
  | cons child items =>
    rw [itemOccurrences, replaceItems]
    exact standsAt_cons rfl replaced_below
      (stringAt_replaceJSONArtwork key lists child (h.imp_right fun h => Nat.le_add_right_of_le h))
      (stands_replaceItems key lists (n + 1) items h)

/-- The strings of a list below a key are replaced, the lists and maps in it are gone through. -/
theorem stands_replaceStrings (key : Bytes) (n : ℕ) (items : List Json) :
    ∀ o ∈ itemOccurrences L key 1 n items,
      StandsAt (fun m => (replaceStrings rewrites key (replaceItems L rewrites key items))[m]?) n
        o.path (o.replaced rewrites) := by
  cases items with
  | nil => exact fun o ho => by cases ho
  | cons child items =>
    rw [itemOccurrences]
    have hrest := stands_replaceStrings key (n + 1) items
    by_cases hkey : key ∈ jsonArtworkKeys
    · rw [replaceItems]
      simp only [replaceStrings, if_pos hkey, List.map_cons] at hrest ⊢
      refine standsAt_cons rfl replaced_below ?_ hrest
      cases hchild : child.isContainer with
      | true =>
        have hcontainer : (replaceJSONArtwork L rewrites key child).isContainer = true := by
          cases child <;> first | rfl | cases hchild
        rw [replaceString_of_container hcontainer]
        exact stringAt_replaceJSONArtwork key 1 child (.inr (by rw [hchild]; decide))
      | false =>
        cases child with
        | string s =>
          intro o ho
          obtain rfl := List.mem_singleton.mp ho
          rw [replaceJSONArtwork, replaceString, Occurrence.replaced]
          simp only [hkey, le_refl, true_and]
          split
          · rfl
          · rfl
        | object fields => cases hchild
        | array xs => cases hchild
        | null => exact fun o ho => by cases ho
        | bool b => exact fun o ho => by cases ho
        | number text => exact fun o ho => by cases ho
    · rw [replaceStrings, if_neg hkey] at hrest ⊢
      rw [replaceItems]
      exact standsAt_cons rfl replaced_below
        (stringAt_replaceJSONArtwork key 1 child (.inl hkey)) hrest

end

/-! ## The result -/

theorem rewriteOf_nil (raw : Bytes) : rewriteOf [] raw = [] := rfl

theorem replaceStrings_nil (key : Bytes) (list : List Json) : replaceStrings [] key list = list := by
  have hid : list.map (replaceString []) = list := by
    refine (List.map_congr_left fun v _ => ?_).trans (List.map_id list)
    cases v <;> rfl
  rw [replaceStrings, hid, ite_self]

mutual

theorem replaceJSONArtwork_nil (key : Bytes) (v : Json) : replaceJSONArtwork L [] key v = v := by
  cases v with
  | object fields => rw [replaceJSONArtwork, replaceFields_nil fields]
  | array xs => rw [replaceJSONArtwork, replaceItems_nil key xs]
  | string s => rfl
  | null => rfl
  | bool b => rfl
  | number text => rfl

theorem replaceFields_nil (fields : List (Bytes × Json)) : replaceFields L [] fields = fields := by
  cases fields with
  | nil => rfl
  | cons field fields =>
    obtain ⟨key, child⟩ := field
    rw [replaceFields, replaceChild_nil (L.toLower key) child, replaceFields_nil fields]

theorem replaceChild_nil (key : Bytes) (v : Json) : replaceChild L [] key v = v := by
  cases v with
  | object fields => rw [replaceChild, replaceFields_nil fields]
  | array xs => rw [replaceChild, replaceItems_nil key xs, replaceStrings_nil]
  | string s =>
    rw [replaceChild, if_neg]
    exact fun h => h.2 (rewriteOf_nil s)
  | null => rfl
  | bool b => rfl
  | number text => rfl

theorem replaceItems_nil (key : Bytes) (items : List Json) : replaceItems L [] key items = items := by
  cases items with
  | nil => rfl
  | cons child items =>
    rw [replaceItems, replaceJSONArtwork_nil key child, replaceItems_nil key items]

end

/-- The document is replaced whether or not something was stored. -/
theorem replacedArtwork_eq (value : Json) : replacedArtwork L p appURL S value =
    replaceJSONArtwork L (storeArtworkTargets L p appURL S (collectJSONArtwork L [] value)) []
      value := by
  rw [replacedArtwork]
  split
  · next h => rw [h, replaceJSONArtwork_nil]
  · rfl

/-- Every string of a document, as it is after the replacement. -/
theorem stringAt_replacedArtwork (value : Json) : ∀ o ∈ occurrences L [] 0 value,
    stringAt (replacedArtwork L p appURL S value) o.path =
      some (o.replaced (storeArtworkTargets L p appURL S (collectJSONArtwork L [] value))) := by
  rw [replacedArtwork_eq]
  exact stringAt_replaceJSONArtwork [] 0 value (.inl (by decide))

variable (L p appURL S)

/-- Every string that is collected and for which a URL was stored is replaced by it, and no string
outside the artwork keys is changed. -/
def EveryCollectedReplaced (value : Json) : Prop :=
  let rewrites := storeArtworkTargets L p appURL S (collectJSONArtwork L [] value)
  ∀ o ∈ occurrences L [] 0 value,
    (o.Collected L → rewriteOf rewrites o.text ≠ [] →
      stringAt (replacedArtwork L p appURL S value) o.path = some (rewriteOf rewrites o.text)) ∧
    (o.key ∉ jsonArtworkKeys →
      stringAt (replacedArtwork L p appURL S value) o.path = some o.text)

/-- **The collector and the replacer**: the strings that are collected are replaced if none of them
is in a list of lists below its key. -/
theorem every_collected_replaced_iff (value : Json) :
    collectJSONArtwork L [] value =
        ((occurrences L [] 0 value).filter (·.Collected L)).map Occurrence.text ∧
      (EveryCollectedReplaced L p appURL S value ↔
        ∀ o ∈ occurrences L [] 0 value, o.Collected L →
          let url := rewriteOf
            (storeArtworkTargets L p appURL S (collectJSONArtwork L [] value)) o.text
          url ≠ [] → o.lists ≤ 1 ∨ url = o.text) := by
  refine ⟨collectJSONArtwork_eq [] 0 value, ?_⟩
  constructor
  · intro h o ho hcollected url hurl
    have hat := (h o ho).1 hcollected hurl
    rw [stringAt_replacedArtwork value o ho, Option.some_inj, Occurrence.replaced] at hat
    split at hat
    · next hreplaced => exact .inl hreplaced.2.1
    · exact .inr hat.symm
  · intro h o ho
    rw [stringAt_replacedArtwork value o ho, Option.some_inj, Option.some_inj, Occurrence.replaced]
    constructor
    · intro hcollected hurl
      split
      · rfl
      · next hkept =>
        rcases h o ho hcollected hurl with hlists | hsame
        · exact absurd ⟨hcollected.1, hlists, hurl⟩ hkept
        · exact hsame.symm
    · intro hkey
      rw [if_neg fun h => hkey h.1]

/-! ## A list of lists -/

/-- URLs are their texts; they lead to a server. -/
def sampleArtwork : ArtworkLibrary Bytes :=
  { asciiLibrary with
    decode := fun _ => none
    marshal := fun _ => []
    fragment := fun _ => []
    urlString := fun _ _ => []
    unescapeString := id
    parseRef := some
    isAbs := fun _ => true
    resolve := fun _ ref => ref
    fields := fun _ => Artwork.urlOf "cdn"
    unicode := GoText.asciiOnly
    refString := id
    sum256 := id }

/-- Redis is there and every pipeline succeeds. -/
def sampleStore : ArtworkStore := ⟨true, id, fun _ => true, fun items => .refl items⟩

/-- A cover in a list of lists. -/
def nestedCover : Json :=
  .object [(ascii "cover", .array [.array [.string (ascii "http://cdn/a.jpg")]])]

/-- The cover is collected and a URL is stored for it, and it stays as it is. -/
theorem nested_cover_kept :
    ¬ EveryCollectedReplaced sampleArtwork (sampleProvider []) (ascii "http://proxy") sampleStore
      nestedCover := by
  intro h
  have hcover := h ⟨[0, 0, 0], ascii "cover", 2, ascii "http://cdn/a.jpg"⟩
    (by decide)
  exact absurd (hcover.1 (by decide) (by decide)) (by decide)

end IptvProxy.Metadata
