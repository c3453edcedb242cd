import IptvProxy.Catalog.Request
import IptvProxy.Catchup.Target
import IptvProxy.Lib.Lines
import IptvProxy.Lib.Utf8

/-!
# The body that is sent to the provider

A body goes through two functions before it is forwarded: `translateXtreamBodyCredentials` puts the
provider's credentials into it and restores its length, and `xtreamRequestValues`, which looks for
cacheable parameters in every POST, leaves the bytes behind that it has read. `serveTransparent`
declares `r.ContentLength`, `doDirectUpstream` declares nothing (`internal/proxy/xtream_request.go`,
`xtream_metadata.go`, `transparent_proxy.go`, `direct_proxy.go`).

`body_intact_iff` says which bodies arrive: what is read is one byte more than `maxXtreamFormBytes`,
so a longer one is cut off under its old length. In a form, a parameter that is replaced loses its
further values.
-/

namespace IptvProxy.Catalog

open Xtream

/-! ## The body of a request -/

/-- `r.Body` and `r.ContentLength`. -/
structure Carried where
  /-- what is read from the body -/
  bytes : Bytes
  /-- it is `http.NoBody` -/
  noBody : Bool
  /-- `ContentLength` -/
  contentLength : ℕ

/-- The body of a known length as the server hands it over. -/
def received (body : Bytes) : Carried := ⟨body, body = [], body.length⟩

/-- `restoreRequestBody` -/
def restoreRequestBody (body : Bytes) : Carried := ⟨body, false, body.length⟩

/-- What a translation leaves behind: a body that is looked into is restored. -/
def afterTranslator (L : Library) (r : Request) (translated : Body) : Carried :=
  match translated with
  | .bytes body => if (bodyKind L r).isSome then restoreRequestBody body else received body
  | _ => received []

/-- What `xtreamRequestValues` leaves behind: the bytes it has read, and the length as it was. -/
def afterValues (r : Request) (c : Carried) : Carried :=
  if r.method ≠ ascii "POST" then c
  else { c with bytes := c.bytes.take (maxXtreamFormBytes + 1), noBody := false }

/-- What the provider receives: the bytes, and the header `Content-Length`. -/
structure Outgoing where
  /-- the bytes -/
  bytes : Bytes
  /-- the declared length; without one, the body is sent in chunks -/
  declared : Option ℕ

/-- What `http.Transport` sends: a request with a body and the length zero has an unknown length. -/
def transmit (c : Carried) : Outgoing :=
  if c.noBody then ⟨[], some 0⟩
  else if c.contentLength = 0 then ⟨c.bytes, none⟩
  else ⟨c.bytes.take c.contentLength, some c.contentLength⟩

/-- The request of `serveTransparent`. -/
def serveTransparent (c : Carried) : Outgoing := transmit c

/-- The request of `doDirectUpstream`, which does not set `ContentLength`. -/
def doDirectUpstream (c : Carried) : Outgoing := transmit { c with contentLength := 0 }

/-- `isDirectMediaEndpoint` -/
def isDirectMediaEndpoint (endpoint : Bytes) : Bool :=
  endpoint ∈ [ascii "live", ascii "movie", ascii "series", ascii "timeshift", ascii "streaming",
    ascii "hls"]

/-- `isXtreamCatchupTarget` -/
def isXtreamCatchupTarget (target : URL) : Bool :=
  let segments := splitSlash (trimSlashes target.path)
  (Catchup.timeshiftIndex segments).isSome ||
    (if segments.length < 2 then false
    else Catchup.equalFold (segments.getD (segments.length - 2) []) (ascii "streaming") &&
      Catchup.equalFold (segments.getD (segments.length - 1) []) (ascii "timeshift.php"))

/-- The request is routed to `serveDirect`. -/
def Direct (t : Translated) : Prop :=
  isDirectMediaEndpoint t.endpoint = true ∨ isXtreamCatchupTarget t.url = true

instance (t : Translated) : Decidable (Direct t) := inferInstanceAs (Decidable (_ ∨ _))

/-- The body of an accepted request that is not cacheable, as it is sent to the provider. -/
def forward (L : Library) (r : Request) (t : Translated) : Outgoing :=
  let c := afterValues r (afterTranslator L r t.body)
  if Direct t then doDirectUpstream c else serveTransparent c

/-! ## What should arrive -/

variable (L : Library) (p : Provider)

/-- The pairs of parameters that are both there and not empty. -/
def completePairs (field : Bytes → Bytes) : List (Bytes × Bytes) :=
  credentialPairs.filter fun k => field k.1 ≠ [] ∧ field k.2 ≠ []

/-- The names of these pairs, with the provider's credentials. -/
def replacements (pairs : List (Bytes × Bytes)) : List (Bytes × Bytes) :=
  pairs.flatMap fun k => [(k.1, p.upstreamUsername), (k.2, p.upstreamPassword)]

/-- The text of a field, or nothing. -/
def textField (payload : List (Bytes × Json)) (key : Bytes) : Bytes :=
  (stringField payload key).getD []

/-- The parameters of a form with the provider's credentials. -/
def replaceValues (q : Values) : Values :=
  (replacements p (completePairs q.get)).foldl (fun q change => q.set change.1 change.2) q

/-- An object with texts in some of its fields. -/
def setFields (payload : List (Bytes × Json)) (changes : List (Bytes × Bytes)) :
    List (Bytes × Json) :=
  changes.foldl (fun payload change => setField payload change.1 change.2) payload

/-- The fields of an object with the provider's credentials. -/
def replaceFields (payload : List (Bytes × Json)) : List (Bytes × Json) :=
  setFields payload (replacements p (completePairs (textField payload)))

/-- The body with the provider's credentials. -/
def replaceBody (r : Request) (body : Bytes) : Bytes :=
  if recognisedBody L r = [] then body
  else match bodyKind L r with
    | some .form => (replaceValues p (Values.parse body).1).encode
    | some .json =>
      L.marshalObject (replaceFields p ((L.decodeObject (L.trimSpace body)).getD []))
    | none => body

/-- The body arrives as it was sent, except for the recognised credentials. -/
structure BodyIntact (r : Request) (body : Bytes) (o : Outgoing) : Prop where
  /-- without a recognised pair, the same bytes -/
  unchanged : recognisedBody L r = [] → o.bytes = body
  /-- a form with the same fields; of a name that occurs more than once, the first value is the
  recognised one -/
  form : recognisedBody L r ≠ [] → bodyKind L r = some .form →
    (Values.parse o.bytes).2 = true ∧ ∀ k, (Values.parse o.bytes).1.values k =
      match (replacements p (completePairs (Values.parse body).1.get)).lookup k with
      | some value => value :: ((Values.parse body).1.values k).tail
      | none => (Values.parse body).1.values k
  /-- an object with the same fields -/
  json : recognisedBody L r ≠ [] → bodyKind L r = some .json →
    ∃ payload fields, L.decodeObject (L.trimSpace body) = some payload ∧
      L.decodeObject o.bytes = some fields ∧ ∀ k, fields.lookup k =
        match (replacements p (completePairs (textField payload))).lookup k with
        | some value => some (.string value)
        | none => payload.lookup k
  /-- the declared length is that of the bytes -/
  length : o.declared = some o.bytes.length

/-- What is used of `bytes.TrimSpace` and `encoding/json`. The fields of an object are listed in the
order in which they are written. -/
structure JsonDocumented : Prop where
  /-- there is nothing to trim -/
  trimSpace_nil : L.trimSpace [] = []
  /-- an object that was decoded, with the provider's credentials in some of the credential fields,
  is encoded in a text that is decoded into an object with the same fields, the credentials as JSON
  can hold them -/
  roundTrip : ∀ text payload, L.decodeObject text = some payload →
    ∀ changes : List (Bytes × Bytes),
      changes ⊆ replacements p credentialPairs →
      L.marshalObject (setFields payload changes) ≠ [] ∧ ∃ fields,
        L.decodeObject (L.marshalObject (setFields payload changes)) = some fields ∧
          ∀ k, fields.lookup k =
            (setFields payload (changes.map fun c => (c.1, Utf8.jsonText c.2))).lookup k

/-- An empty body that nobody looks into, or a body for `serveTransparent` that is not longer than
what `xtreamRequestValues` reads of a POST. -/
def Delivered (r : Request) (t : Translated) (body : Bytes) : Prop :=
  (body = [] ∧ bodyKind L r = none ∧ r.method ≠ ascii "POST") ∨
  (body ≠ [] ∧ ¬ Direct t ∧
    (r.method = ascii "POST" → (replaceBody L p r body).length ≤ maxXtreamFormBytes + 1))

/-- The body is delivered, and its format can hold it with the provider's credentials. -/
structure Arrives (r : Request) (t : Translated) (body : Bytes) : Prop where
  delivered : Delivered L p r t body
  /-- of a form, the names of a recognised pair occur once -/
  form : bodyKind L r = some .form → ∀ pair ∈ completePairs (Values.parse body).1.get,
    ((Values.parse body).1.values pair.1).length = 1 ∧
      ((Values.parse body).1.values pair.2).length = 1
  /-- in an object, the credentials of the provider are texts -/
  json : bodyKind L r = some .json → recognisedBody L r ≠ [] →
    Utf8.Valid p.upstreamUsername ∧ Utf8.Valid p.upstreamPassword

variable {L p} {r : Request} {t : Translated} {body translated : Bytes}

/-! ## What is replaced -/

theorem mem_replacements {pairs : List (Bytes × Bytes)} {change : Bytes × Bytes} :
    change ∈ replacements p pairs ↔ ∃ pair ∈ pairs,
      change = (pair.1, p.upstreamUsername) ∨ change = (pair.2, p.upstreamPassword) := by
  simp [replacements]

theorem replacements_subset (field : Bytes → Bytes) :
    replacements p (completePairs field) ⊆ replacements p credentialPairs := by
  intro change h
  obtain ⟨pair, hpair, hchange⟩ := mem_replacements.mp h
  exact mem_replacements.mpr ⟨pair, (List.mem_filter.mp hpair).1, hchange⟩

theorem nodup_replacements (field : Bytes → Bytes) :
    ((replacements p (completePairs field)).map Prod.fst).Nodup := by
  have hkeys : (replacements p (completePairs field)).map Prod.fst =
      (completePairs field).flatMap fun k => [k.1, k.2] := List.map_flatMap
  rw [hkeys]
  exact (List.filter_sublist.flatMap _).nodup (by decide)

theorem lookup_of_mem {α : Type} {k : Bytes} {a : α} {l : List (Bytes × α)}
    (h : (l.map Prod.fst).Nodup) (hmem : (k, a) ∈ l) : l.lookup k = some a := by
  induction l with
  | nil => cases hmem
  | cons f l ih =>
    obtain ⟨hf, h⟩ := List.nodup_cons.mp h
    rcases List.mem_cons.mp hmem with rfl | hmem
    · exact List.lookup_cons_self
    · have hne : k ≠ f.1 := fun heq => hf (heq ▸ List.mem_map_of_mem hmem)
      rw [List.lookup_cons, beq_false_of_ne hne]
      exact ih h hmem

theorem exists_of_lookup {α : Type} {k : Bytes} {a : α} {l : List (Bytes × α)}
    (h : l.lookup k = some a) : ∃ f ∈ l, f.1 = k ∧ f.2 = a := by
  induction l with
  | nil => cases h
  | cons f l ih =>
    rw [List.lookup_cons] at h
    split at h
    · next hk => exact ⟨f, List.mem_cons_self, (eq_of_beq hk).symm, Option.some.inj h⟩
    · obtain ⟨f', hf', hsame⟩ := ih h
      exact ⟨f', List.mem_cons_of_mem _ hf', hsame⟩

theorem lookup_map {α β : Type} (g : α → β) (k : Bytes) (l : List (Bytes × α)) :
    (l.map fun f => (f.1, g f.2)).lookup k = (l.lookup k).map g := by
  induction l with
  | nil => rfl
  | cons f l ih =>
    rw [List.map_cons, List.lookup_cons, List.lookup_cons, ih]
    split <;> rfl

theorem lookup_cons_ne {α : Type} {k : Bytes} {a : Bytes × α} {l : List (Bytes × α)}
    (h : k ≠ a.1) : (a :: l).lookup k = l.lookup k := by
  rw [List.lookup_cons, beq_false_of_ne h]

/-- The names are different, so each has its own value. -/
theorem lookup_replacements {field : Bytes → Bytes} {pair : Bytes × Bytes}
    (h : pair ∈ completePairs field) :
    (replacements p (completePairs field)).lookup pair.1 = some p.upstreamUsername ∧
      (replacements p (completePairs field)).lookup pair.2 = some p.upstreamPassword :=
  ⟨lookup_of_mem (nodup_replacements field) (mem_replacements.mpr ⟨pair, h, .inl rfl⟩),
    lookup_of_mem (nodup_replacements field) (mem_replacements.mpr ⟨pair, h, .inr rfl⟩)⟩

theorem lookup_of_not_mem {α : Type} {k : Bytes} {l : List (Bytes × α)} (h : k ∉ l.map Prod.fst) :
    l.lookup k = none := by
  rw [List.lookup_eq_none_iff]
  intro a ha
  rw [bne_iff_ne]
  rintro rfl
  exact h (List.mem_map_of_mem ha)

/-- Each name has the value it was set to last. -/
theorem values_foldl_set {changes : List (Bytes × Bytes)} (hkeys : (changes.map Prod.fst).Nodup)
    (q : Values) (k : Bytes) :
    (changes.foldl (fun q change => q.set change.1 change.2) q).values k =
      match changes.lookup k with
      | some value => [value]
      | none => q.values k := by
  induction changes generalizing q with
  | nil => rfl
  | cons change changes ih =>
    obtain ⟨hkey, hkeys⟩ := List.nodup_cons.mp hkeys
    rw [List.foldl_cons, ih hkeys]
    by_cases hk : k = change.1
    · subst hk
      rw [lookup_of_not_mem hkey, List.lookup_cons_self]
      exact Values.values_set_self
    · rw [lookup_cons_ne hk, Values.values_set_ne hk]

theorem lookup_setField (payload : List (Bytes × Json)) (key value k : Bytes) :
    (setField payload key value).lookup k =
      if k = key then some (.string value) else payload.lookup k := by
  by_cases hk : k = key
  · subst hk
    rw [if_pos rfl]
    exact List.lookup_cons_self
  · rw [if_neg hk, setField, lookup_cons_ne hk]
    induction payload with
    | nil => rfl
    | cons f payload ih =>
      by_cases hf : f.1 = key
      · rw [List.filter_cons_of_neg (by simpa using hf), ih, lookup_cons_ne (hf ▸ hk)]
      · rw [List.filter_cons_of_pos (by simpa using hf), List.lookup_cons, List.lookup_cons, ih]

theorem lookup_setFields {changes : List (Bytes × Bytes)}
    (hkeys : (changes.map Prod.fst).Nodup) (payload : List (Bytes × Json)) (k : Bytes) :
    (setFields payload changes).lookup k =
      match changes.lookup k with
      | some value => some (.string value)
      | none => payload.lookup k := by
  rw [setFields]
  induction changes generalizing payload with
  | nil => rfl
  | cons change changes ih =>
    obtain ⟨hkey, hkeys⟩ := List.nodup_cons.mp hkeys
    rw [List.foldl_cons, ih hkeys]
    by_cases hk : k = change.1
    · subst hk
      rw [lookup_of_not_mem hkey, List.lookup_cons_self]
      exact (lookup_setField ..).trans (if_pos rfl)
    · rw [lookup_cons_ne hk, lookup_setField, if_neg hk]

/-! ## The translator replaces exactly these -/

/-- The loop over the pairs of a form: the complete ones are replaced. -/
theorem translateValues_eq {pairs : List (Bytes × Bytes)} (hkeys : SeparateKeys pairs)
    {selected user : User} {q form : Values} {matched changed : Bool}
    (h : translateValues L p pairs selected q matched = .ok (user, form, changed)) :
    form = (replacements p (pairs.filter fun k => q.get k.1 ≠ [] ∧ q.get k.2 ≠ [])).foldl
        (fun q change => q.set change.1 change.2) q ∧
      changed = (matched || !(recognisedValues pairs q).isEmpty) := by
  induction pairs generalizing selected q matched with
  | nil =>
    obtain ⟨-, rfl, rfl⟩ := Except.ok.inj h
    exact ⟨rfl, (Bool.or_false _).symm⟩
  | cons k pairs ih =>
    obtain ⟨nameKey, passKey⟩ := k
    obtain ⟨hk, hkeys⟩ := List.pairwise_cons.mp hkeys
    rw [translateValues] at h
    split at h
    · next hempty =>
      obtain ⟨hform, hchanged⟩ := ih hkeys h
      rw [List.filter_cons_of_neg, recognisedValues, List.filterMap_cons, if_pos hempty]
      · exact ⟨hform, hchanged⟩
      · rw [decide_eq_true_eq, ← not_or, not_not]
        exact hempty
    · next hfull =>
      split at h
      · cases h
      · obtain ⟨hform, hchanged⟩ := ih hkeys h
        rw [List.filter_cons_of_pos, recognisedValues, List.filterMap_cons, if_neg hfull]
        · refine ⟨?_, by rw [hchanged, Bool.true_or]; exact (Bool.or_true _).symm⟩
          rw [hform]
          have hrest : pairs.filter (fun k' =>
              ((q.set nameKey p.upstreamUsername).set passKey p.upstreamPassword).get k'.1 ≠ [] ∧
              ((q.set nameKey p.upstreamUsername).set passKey p.upstreamPassword).get k'.2 ≠ []) =
              pairs.filter fun k' => q.get k'.1 ≠ [] ∧ q.get k'.2 ≠ [] := by
            apply List.filter_congr
            intro k' hk'
            obtain ⟨h₁, h₂, h₃, h₄⟩ := hk k' hk'
            rw [Values.get_set_ne h₂, Values.get_set_ne h₁, Values.get_set_ne h₄,
              Values.get_set_ne h₃]
          rw [hrest]
          rfl
        · rw [decide_eq_true_eq, ← not_or]
          exact hfull

theorem textField_setField_ne {payload : List (Bytes × Json)} {k k' x : Bytes} (h : k' ≠ k) :
    textField (setField payload k x) k' = textField payload k' := by
  rw [textField, textField, stringField_setField_ne h]

/-- The loop over the pairs of an object. -/
theorem translateFields_eq {pairs : List (Bytes × Bytes)} (hkeys : SeparateKeys pairs)
    {selected user : User} {payload fields : List (Bytes × Json)} {matched changed : Bool}
    (h : translateFields L p pairs selected payload matched = .ok (user, fields, changed)) :
    fields = (replacements p (pairs.filter fun k =>
        textField payload k.1 ≠ [] ∧ textField payload k.2 ≠ [])).foldl
        (fun payload change => setField payload change.1 change.2) payload ∧
      changed = (matched || !(recognisedFields pairs payload).isEmpty) := by
  induction pairs generalizing selected payload matched with
  | nil =>
    obtain ⟨-, rfl, rfl⟩ := Except.ok.inj h
    exact ⟨rfl, (Bool.or_false _).symm⟩
  | cons k pairs ih =>
    obtain ⟨nameKey, passKey⟩ := k
    obtain ⟨hk, hkeys⟩ := List.pairwise_cons.mp hkeys
    by_cases hfull : textField payload nameKey ≠ [] ∧ textField payload passKey ≠ []
    · obtain ⟨username, hu⟩ : ∃ username, stringField payload nameKey = some username := by
        by_contra hnone
        exact hfull.1 (by rw [textField, Option.eq_none_iff_forall_ne_some.mpr
          fun a ha => hnone ⟨a, ha⟩]; rfl)
      obtain ⟨password, hp⟩ : ∃ password, stringField payload passKey = some password := by
        by_contra hnone
        exact hfull.2 (by rw [textField, Option.eq_none_iff_forall_ne_some.mpr
          fun a ha => hnone ⟨a, ha⟩]; rfl)
      have hne : ¬(username = [] ∨ password = []) := by
        rw [textField, hu, textField, hp, Option.getD_some, Option.getD_some] at hfull
        rw [not_or]
        exact hfull
      simp only [translateFields, hu, hp, if_neg hne] at h
      split at h
      · cases h
      · obtain ⟨hform, hchanged⟩ := ih hkeys h
        rw [List.filter_cons_of_pos (by rw [decide_eq_true_eq]; exact hfull)]
        simp only [recognisedFields, List.filterMap_cons, hu, hp, if_neg hne]
        refine ⟨?_, by rw [hchanged, Bool.true_or]; exact (Bool.or_true _).symm⟩
        rw [hform]
        have hrest : pairs.filter (fun k' =>
            textField (setField (setField payload nameKey p.upstreamUsername) passKey
              p.upstreamPassword) k'.1 ≠ [] ∧
            textField (setField (setField payload nameKey p.upstreamUsername) passKey
              p.upstreamPassword) k'.2 ≠ []) =
            pairs.filter fun k' => textField payload k'.1 ≠ [] ∧ textField payload k'.2 ≠ [] := by
          apply List.filter_congr
          intro k' hk'
          obtain ⟨h₁, h₂, h₃, h₄⟩ := hk k' hk'
          rw [textField_setField_ne h₂, textField_setField_ne h₁, textField_setField_ne h₄,
            textField_setField_ne h₃]
        rw [hrest]
        rfl
    · have hnone : recognisedFields ((nameKey, passKey) :: pairs) payload =
          recognisedFields pairs payload := by
        simp only [recognisedFields, List.filterMap_cons]
        simp only [textField] at hfull
        rcases hu : stringField payload nameKey with _ | username <;>
          rcases hp : stringField payload passKey with _ | password <;>
          simp only [hu, hp, Option.getD_some, Option.getD_none] at hfull ⊢
        rw [if_pos (by rw [← not_not (a := _ ∨ _), not_or]; exact hfull)]
      have hskip : translateFields L p ((nameKey, passKey) :: pairs) selected payload matched =
          translateFields L p pairs selected payload matched := by
        simp only [textField] at hfull
        rw [translateFields]
        rcases hu : stringField payload nameKey with _ | username <;>
          rcases hp : stringField payload passKey with _ | password <;>
          simp only [hu, hp, Option.getD_some, Option.getD_none] at hfull ⊢
        rw [if_pos (by rw [← not_not (a := _ ∨ _), not_or]; exact hfull)]
      rw [hskip] at h
      rw [List.filter_cons_of_neg (by rw [decide_eq_true_eq]; exact hfull), hnone]
      exact ih hkeys h

/-- The pairs of a form are replaced if there are any. -/
theorem completePairs_values {q : Values} :
    completePairs q.get = [] ↔ recognisedValues credentialPairs q = [] := by
  rw [completePairs, List.filter_eq_nil_iff, recognisedValues, List.filterMap_eq_nil_iff]
  refine forall₂_congr fun k _ => ?_
  rw [decide_eq_true_eq, ← not_or, not_not]
  constructor
  · exact fun h => if_pos h
  · intro h
    by_contra hne
    rw [if_neg hne] at h
    cases h

/-- The pairs of an object are replaced if there are any. -/
theorem completePairs_fields {payload : List (Bytes × Json)} :
    completePairs (textField payload) = [] ↔ recognisedFields credentialPairs payload = [] := by
  rw [completePairs, List.filter_eq_nil_iff, recognisedFields, List.filterMap_eq_nil_iff]
  refine forall₂_congr fun k _ => ?_
  rw [decide_eq_true_eq, ← not_or, not_not, textField, textField]
  rcases stringField payload k.1 with _ | username <;>
    rcases stringField payload k.2 with _ | password <;>
    simp [or_iff_not_imp_left]

/-- **The body of an accepted request**: the provider's credentials in place of the recognised
ones. -/
theorem body_of_translate {selected user : User} {b : Body} (hbody : r.body = .bytes body)
    (h : translateXtreamBodyCredentials L p r selected = .ok (user, b)) :
    b = .bytes (replaceBody L p r body) ∧
      (recognisedBody L r ≠ [] → (bodyKind L r = some .form ∧ (Values.parse body).2 = true) ∨
        (bodyKind L r = some .json ∧ ∃ payload, L.decodeObject (L.trimSpace body) = some payload)) := by
  rw [translateXtreamBodyCredentials] at h
  rcases hkind : bodyKind L r with _ | kind
  · rw [hkind] at h
    obtain ⟨-, rfl⟩ := Prod.mk.inj (Except.ok.inj h)
    have hrec : recognisedBody L r = [] := by rw [recognisedBody, hkind]
    rw [replaceBody, if_pos hrec]
    exact ⟨hbody, fun h => absurd hrec h⟩
  · rw [hkind, hbody] at h
    dsimp only at h
    split at h
    · cases h
    · cases kind with
      | form =>
        have hrec : recognisedBody L r = recognisedValues credentialPairs (Values.parse body).1 := by
          rw [recognisedBody, hkind, hbody]
        dsimp only at h
        split at h
        · cases h
        · next hparse =>
          rw [Bool.not_eq_false] at hparse
          refine ⟨?_, fun _ => .inl ⟨rfl, hparse⟩⟩
          split at h
          · cases h
          · next htranslate =>
            obtain ⟨rfl, rfl⟩ := translateValues_eq separateKeys_credentialPairs htranslate
            obtain ⟨-, rfl⟩ := Prod.mk.inj (Except.ok.inj h)
            by_cases hnone : recognisedBody L r = []
            · rw [replaceBody, if_pos hnone, ← hrec, if_neg]
              rw [hnone]
              decide
            · rw [replaceBody, if_neg hnone, hkind, ← hrec, if_pos]
              · rfl
              · rw [Bool.false_or, Bool.not_eq_true', List.isEmpty_eq_false_iff]
                exact hnone
      | json =>
        dsimp only at h
        split at h
        · next hempty =>
          obtain ⟨-, rfl⟩ := Prod.mk.inj (Except.ok.inj h)
          have hrec : recognisedBody L r = [] := by
            rw [recognisedBody, hkind, hbody]
            exact if_pos hempty
          rw [replaceBody, if_pos hrec]
          exact ⟨rfl, fun h => absurd hrec h⟩
        · next hfull =>
          rcases hdecode : L.decodeObject (L.trimSpace body) with _ | payload
          · rw [hdecode] at h
            cases h
          · rw [hdecode] at h
            dsimp only at h
            have hrec : recognisedBody L r = recognisedFields credentialPairs payload := by
              rw [recognisedBody, hkind, hbody]
              exact (if_neg hfull).trans (by rw [hdecode]; rfl)
            refine ⟨?_, fun _ => .inr ⟨rfl, payload, rfl⟩⟩
            split at h
            · cases h
            · next htranslate =>
              obtain ⟨rfl, rfl⟩ := translateFields_eq separateKeys_credentialPairs htranslate
              obtain ⟨-, rfl⟩ := Prod.mk.inj (Except.ok.inj h)
              by_cases hnone : recognisedBody L r = []
              · rw [replaceBody, if_pos hnone, ← hrec, if_neg]
                rw [hnone]
                decide
              · rw [replaceBody, if_neg hnone, hkind, ← hrec, if_pos]
                · rw [hdecode]
                  rfl
                · rw [Bool.false_or, Bool.not_eq_true', List.isEmpty_eq_false_iff]
                  exact hnone

/-! ## What is sent -/

/-- The body after both functions. -/
theorem afterValues_eq (hbody : t.body = .bytes translated) :
    afterValues r (afterTranslator L r t.body) =
      ⟨if r.method = ascii "POST" then translated.take (maxXtreamFormBytes + 1) else translated,
        decide (translated = [] ∧ bodyKind L r = none ∧ r.method ≠ ascii "POST"),
        translated.length⟩ := by
  rw [hbody, afterValues, afterTranslator]
  rcases hkind : bodyKind L r with _ | kind <;> by_cases hpost : r.method = ascii "POST"
  · simp [received, hpost]
  · simp [received, hpost]
  · simp [restoreRequestBody, hpost]
  · simp [restoreRequestBody, hpost]

/-- An empty body that is not rebuilt has a length in both handlers. -/
theorem forward_noBody (hbody : t.body = .bytes [])
    (h : bodyKind L r = none ∧ r.method ≠ ascii "POST") : forward L r t = ⟨[], some 0⟩ := by
  rw [forward, afterValues_eq hbody]
  simp [h.1, h.2, serveTransparent, doDirectUpstream, transmit]

/-- An empty body that is rebuilt has none, and no body has one in `doDirectUpstream`. -/
theorem forward_chunked (hbody : t.body = .bytes translated)
    (hrebuilt : ¬(translated = [] ∧ bodyKind L r = none ∧ r.method ≠ ascii "POST"))
    (h : translated = [] ∨ Direct t) : (forward L r t).declared = none := by
  rw [forward, afterValues_eq hbody]
  split
  · rw [doDirectUpstream, transmit]
    dsimp only
    rw [decide_eq_false hrebuilt, if_neg Bool.false_ne_true, if_pos rfl]
  · next hdirect =>
    rw [serveTransparent, transmit]
    dsimp only
    rw [decide_eq_false hrebuilt, if_neg Bool.false_ne_true, if_pos]
    rw [h.resolve_right hdirect]
    rfl

/-- `serveTransparent` declares the whole length, and sends what `xtreamRequestValues` has read. -/
theorem forward_transparent (hbody : t.body = .bytes translated) (hne : translated ≠ [])
    (hdirect : ¬ Direct t) : forward L r t =
      ⟨if r.method = ascii "POST" then translated.take (maxXtreamFormBytes + 1) else translated,
        some translated.length⟩ := by
  have hrebuilt : ¬(translated = [] ∧ bodyKind L r = none ∧ r.method ≠ ascii "POST") :=
    fun h => hne h.1
  rw [forward, afterValues_eq hbody, if_neg hdirect, serveTransparent, transmit]
  dsimp only
  rw [decide_eq_false hrebuilt, if_neg Bool.false_ne_true,
    if_neg fun h => hne (List.length_eq_zero_iff.mp h)]
  congr 1
  apply List.take_of_length_le
  split
  · exact List.length_take_le' _ _
  · exact le_rfl

/-- A pair that is recognised in a body: the body is a form or an object that was read. -/
def Readable (L : Library) (r : Request) (body : Bytes) : Prop :=
  recognisedBody L r ≠ [] → (bodyKind L r = some .form ∧ (Values.parse body).2 = true) ∨
    (bodyKind L r = some .json ∧ ∃ payload, L.decodeObject (L.trimSpace body) = some payload)

theorem recognisedBody_form (hbody : r.body = .bytes body) (hkind : bodyKind L r = some .form) :
    recognisedBody L r = recognisedValues credentialPairs (Values.parse body).1 := by
  rw [recognisedBody, hkind, hbody]

/-- The fields of the replaced form. -/
theorem values_replaceValues (q : Values) (k : Bytes) : (replaceValues p q).values k =
    match (replacements p (completePairs q.get)).lookup k with
    | some value => [value]
    | none => q.values k :=
  values_foldl_set (nodup_replacements _) q k

theorem encode_replaceValues_ne_nil {q : Values} (h : recognisedValues credentialPairs q ≠ []) :
    (replaceValues p q).encode ≠ [] := by
  intro hnil
  have hparse := Values.parse_encode (replaceValues p q)
  rw [hnil] at hparse
  have hsorted : (replaceValues p q).sorted = [] := (congrArg Prod.fst hparse).symm
  obtain ⟨key, hkey⟩ := List.exists_mem_of_ne_nil _ (mt completePairs_values.mp h)
  have hchange : (key.1, p.upstreamUsername) ∈ replacements p (completePairs q.get) :=
    List.mem_flatMap.mpr ⟨key, hkey, List.mem_cons_self⟩
  have hvalues := values_replaceValues (p := p) q key.1
  rw [← Values.sorted_same, hsorted, Values.values_nil] at hvalues
  rcases hlookup : (replacements p (completePairs q.get)).lookup key.1 with _ | value
  · rw [List.lookup_eq_none_iff] at hlookup
    have hne := hlookup _ hchange
    rw [bne_self_eq_false] at hne
    cases hne
  · rw [hlookup] at hvalues
    cases hvalues

/-- The replaced body is empty if the client's is. -/
theorem replaceBody_eq_nil (hL : JsonDocumented L p) (hbody : r.body = .bytes body)
    (hread : Readable L r body) : replaceBody L p r body = [] ↔ body = [] := by
  by_cases hrec : recognisedBody L r = []
  · rw [replaceBody, if_pos hrec]
  · rw [replaceBody, if_neg hrec]
    rcases hread hrec with ⟨hform, -⟩ | ⟨hjson, payload, hpayload⟩
    · rw [hform]
      rw [recognisedBody_form hbody hform] at hrec
      refine iff_of_false (encode_replaceValues_ne_nil hrec) ?_
      rintro rfl
      exact hrec rfl
    · rw [hjson, hpayload]
      refine iff_of_false (hL.roundTrip _ _ hpayload _ (replacements_subset _)).1 ?_
      rintro rfl
      rw [recognisedBody, hjson, hbody] at hrec
      exact hrec (if_pos (.inl hL.trimSpace_nil))

/-- A form keeps its fields if the names that are replaced occur once. -/
theorem values_kept_iff {q : Values} :
    (∀ k, (replaceValues p q).values k =
      match (replacements p (completePairs q.get)).lookup k with
      | some value => value :: (q.values k).tail
      | none => q.values k) ↔
    ∀ pair ∈ completePairs q.get, (q.values pair.1).length = 1 ∧ (q.values pair.2).length = 1 := by
  have hlength : ∀ k, q.get k ≠ [] → (q.values k).tail = [] → (q.values k).length = 1 := by
    intro k hget htail
    rcases hvalues : q.values k with _ | ⟨v, vs⟩
    · exact absurd (Values.get_eq_nil_of_values hvalues) hget
    · rw [hvalues, List.tail_cons] at htail
      rw [htail]
      rfl
  constructor
  · intro h pair hpair
    obtain ⟨hname, hpass⟩ := lookup_replacements (p := p) hpair
    have hfull := of_decide_eq_true (List.mem_filter.mp hpair).2
    have hu := h pair.1
    have hp := h pair.2
    rw [values_replaceValues, hname] at hu
    rw [values_replaceValues, hpass] at hp
    exact ⟨hlength _ hfull.1 (List.cons.inj hu).2.symm, hlength _ hfull.2 (List.cons.inj hp).2.symm⟩
  · intro h k
    rw [values_replaceValues]
    rcases hlookup : (replacements p (completePairs q.get)).lookup k with _ | value
    · rfl
    · have honce : (q.values k).length = 1 := by
        obtain ⟨change, hchange, hk⟩ := exists_of_lookup hlookup
        obtain ⟨pair, hpair, rfl | rfl⟩ := mem_replacements.mp hchange
        · exact hk.1 ▸ (h pair hpair).1
        · exact hk.1 ▸ (h pair hpair).2
      obtain ⟨v, hv⟩ := List.length_eq_one_iff.mp honce
      rw [hv]
      rfl

/-- An object keeps its fields if JSON can hold the credentials that are put in. -/
theorem fields_kept_iff {payload fields : List (Bytes × Json)}
    (hne : completePairs (textField payload) ≠ [])
    (hfields : ∀ k, fields.lookup k = (setFields payload
      ((replacements p (completePairs (textField payload))).map
        fun c => (c.1, Utf8.jsonText c.2))).lookup k) :
    (∀ k, fields.lookup k =
      match (replacements p (completePairs (textField payload))).lookup k with
      | some value => some (.string value)
      | none => payload.lookup k) ↔
    Utf8.Valid p.upstreamUsername ∧ Utf8.Valid p.upstreamPassword := by
  have hkeys := nodup_replacements (p := p) (textField payload)
  have hlookup : ∀ k, fields.lookup k =
      match (replacements p (completePairs (textField payload))).lookup k with
      | some value => some (.string (Utf8.jsonText value))
      | none => payload.lookup k := by
    intro k
    rw [hfields, lookup_setFields (by rw [List.map_map]; exact hkeys), lookup_map]
    rcases (replacements p (completePairs (textField payload))).lookup k with _ | value <;> rfl
  constructor
  · intro h
    obtain ⟨pair, hpair⟩ := List.exists_mem_of_ne_nil _ hne
    obtain ⟨hname, hpass⟩ := lookup_replacements (p := p) hpair
    have hu := (hlookup pair.1).symm.trans (h pair.1)
    have hp := (hlookup pair.2).symm.trans (h pair.2)
    rw [hname] at hu
    rw [hpass] at hp
    exact ⟨Utf8.jsonText_eq_self_iff.mp (Json.string.inj (Option.some.inj hu)),
      Utf8.jsonText_eq_self_iff.mp (Json.string.inj (Option.some.inj hp))⟩
  · rintro ⟨hu, hp⟩ k
    rw [hlookup]
    rcases hvalue : (replacements p (completePairs (textField payload))).lookup k with _ | value
    · rfl
    · have hvalid : Utf8.jsonText value = value := by
        obtain ⟨change, hchange, -, rfl⟩ := exists_of_lookup hvalue
        obtain ⟨pair, -, rfl | rfl⟩ := mem_replacements.mp hchange
        · exact Utf8.jsonText_eq_self_iff.mpr hu
        · exact Utf8.jsonText_eq_self_iff.mpr hp
      dsimp only
      rw [hvalid]

/-- **The replaced body is intact, exactly when** its format can hold it. -/
theorem intact_iff_of_replaced (hL : JsonDocumented L p) (hbody : r.body = .bytes body)
    (hread : Readable L r body) {o : Outgoing} (hbytes : o.bytes = replaceBody L p r body)
    (hlength : o.declared = some o.bytes.length) (hdelivered : Delivered L p r t body) :
    BodyIntact L p r body o ↔ Arrives L p r t body := by
  have hformBytes : recognisedBody L r ≠ [] → bodyKind L r = some .form →
      Values.parse o.bytes = ((replaceValues p (Values.parse body).1).sorted, true) := by
    intro hrec hform
    rw [hbytes, replaceBody, if_neg hrec, hform]
    exact Values.parse_encode _
  have hjsonBytes : recognisedBody L r ≠ [] → bodyKind L r = some .json →
      ∃ payload fields, L.decodeObject (L.trimSpace body) = some payload ∧
        L.decodeObject o.bytes = some fields ∧ completePairs (textField payload) ≠ [] ∧
        ∀ k, fields.lookup k = (setFields payload
          ((replacements p (completePairs (textField payload))).map
            fun c => (c.1, Utf8.jsonText c.2))).lookup k := by
    intro hrec hjson
    rcases hread hrec with ⟨hform, -⟩ | ⟨-, payload, hpayload⟩
    · rw [hjson] at hform
      cases hform
    · obtain ⟨-, fields, hfields, hsame⟩ := hL.roundTrip _ _ hpayload
        _ (replacements_subset (p := p) (textField payload))
      refine ⟨payload, fields, hpayload, ?_, ?_, hsame⟩
      · rw [hbytes, replaceBody, if_neg hrec, hjson, hpayload]
        exact hfields
      · rw [Ne, completePairs_fields]
        intro hnone
        rw [recognisedBody, hjson, hbody] at hrec
        dsimp only at hrec
        split at hrec
        · exact hrec rfl
        · rw [hpayload] at hrec
          exact hrec hnone
  constructor
  · intro h
    refine ⟨hdelivered, fun hform => ?_, fun hjson hrec => ?_⟩
    · by_cases hrec : recognisedBody L r = []
      · rw [recognisedBody_form hbody hform] at hrec
        rw [completePairs_values.mpr hrec]
        exact fun _ hpair => absurd hpair List.not_mem_nil
      · refine values_kept_iff (p := p).mp fun k => ?_
        have hkept := (h.form hrec hform).2 k
        rw [hformBytes hrec hform] at hkept
        exact (Values.sorted_same k).symm.trans hkept
    · obtain ⟨payload, fields, hpayload, hfields, hne, hsame⟩ := hjsonBytes hrec hjson
      obtain ⟨payload', fields', hpayload', hfields', hkept⟩ := h.json hrec hjson
      obtain rfl := Option.some.inj (hpayload.symm.trans hpayload')
      obtain rfl := Option.some.inj (hfields.symm.trans hfields')
      exact (fields_kept_iff hne hsame).mp hkept
  · intro h
    refine ⟨fun hrec => by rw [hbytes, replaceBody, if_pos hrec], fun hrec hform => ?_,
      fun hrec hjson => ?_, hlength⟩
    · rw [hformBytes hrec hform]
      exact ⟨rfl, fun k => (Values.sorted_same k).trans (values_kept_iff.mpr (h.form hform) k)⟩
    · obtain ⟨payload, fields, hpayload, hfields, hne, hsame⟩ := hjsonBytes hrec hjson
      exact ⟨payload, fields, hpayload, hfields,
        (fields_kept_iff hne hsame).mpr (h.json hjson hrec)⟩

/-- The declared length of what is sent is right for the bodies that are delivered, and only for
these. -/
theorem length_forward_iff (hL : JsonDocumented L p) (hbody : r.body = .bytes body)
    (hread : Readable L r body) (htranslated : t.body = .bytes (replaceBody L p r body)) :
    (forward L r t).declared = some (forward L r t).bytes.length ↔ Delivered L p r t body := by
  have hnil := replaceBody_eq_nil (p := p) hL hbody hread
  by_cases hempty : body = []
  · rw [hnil.mpr hempty] at htranslated
    by_cases hkept : bodyKind L r = none ∧ r.method ≠ ascii "POST"
    · rw [forward_noBody htranslated hkept]
      exact iff_of_true rfl (.inl ⟨hempty, hkept⟩)
    · rw [forward_chunked htranslated (fun h => hkept h.2) (.inl rfl)]
      refine iff_of_false (fun h => by cases h) ?_
      rintro (h | h)
      · exact hkept h.2
      · exact h.1 hempty
  · have hne := mt hnil.mp hempty
    by_cases hdirect : Direct t
    · rw [forward_chunked htranslated (fun h => hne h.1) (.inr hdirect)]
      refine iff_of_false (fun h => by cases h) ?_
      rintro (h | h)
      · exact hempty h.1
      · exact h.2.1 hdirect
    · rw [forward_transparent htranslated hne hdirect]
      dsimp only
      rw [Option.some_inj]
      constructor
      · intro h
        refine .inr ⟨hempty, hdirect, fun hpost => ?_⟩
        rw [if_pos hpost, List.length_take] at h
        omega
      · rintro (h | ⟨-, -, h⟩)
        · exact absurd h.1 hempty
        · split
          · next hpost =>
            rw [List.length_take, Nat.min_eq_right (h hpost)]
          · rfl

/-- A body that is delivered is the replaced one. -/
theorem bytes_forward (hL : JsonDocumented L p) (hbody : r.body = .bytes body)
    (hread : Readable L r body) (htranslated : t.body = .bytes (replaceBody L p r body))
    (h : Delivered L p r t body) : (forward L r t).bytes = replaceBody L p r body := by
  have hnil := replaceBody_eq_nil (p := p) hL hbody hread
  rcases h with ⟨hempty, hkept⟩ | ⟨hne, hdirect, hpost⟩
  · rw [hnil.mpr hempty] at htranslated ⊢
    rw [forward_noBody htranslated hkept]
  · rw [forward_transparent htranslated (mt hnil.mp hne) hdirect]
    dsimp only
    split
    · next h => exact List.take_of_length_le (hpost h)
    · rfl

/-- **Request bodies arrive intact, exactly when**: of an accepted POST, PUT or PATCH that is not
cacheable, those that `Arrives` describes. -/
theorem body_intact_iff {remaining : Bytes} (hL : JsonDocumented L p)
    (_hmethod : r.method ∈ [ascii "POST", ascii "PUT", ascii "PATCH"])
    (hbody : r.body = .bytes body) (hbuild : buildTransparentUpstreamURL L p remaining r = .ok t)
    (_hroute : cacheTargetForRequest L (afterTranslation r t) p t.endpoint t.url = none) :
    BodyIntact L p r body (forward L r t) ↔ Arrives L p r t body := by
  obtain ⟨a⟩ := accepted_of_build hbuild
  obtain ⟨htranslated, hread⟩ := body_of_translate hbody a.hbody
  have hlength := length_forward_iff hL hbody hread htranslated
  constructor
  · intro h
    have hdelivered := hlength.mp h.length
    exact (intact_iff_of_replaced hL hbody hread
      (bytes_forward hL hbody hread htranslated hdelivered) h.length hdelivered).mp h
  · intro h
    exact (intact_iff_of_replaced hL hbody hread
      (bytes_forward hL hbody hread htranslated h.delivered) (hlength.mpr h.delivered)
      h.delivered).mpr h

/-! ## Bodies that are too long -/

/-- A text for the player's API, with the pair in the query. -/
def textRequest (method body : Bytes) : Request :=
  ⟨method, ascii "username=bob&password=a", ascii "text/plain", .bytes body⟩

/-- The client that the pair authenticates. -/
def bob : User := ⟨ascii "1", ascii "bob", ascii "a", 1, ascii "a"⟩

/-- The translated request. -/
def translatedText (body : Bytes) : Translated where
  url := ⟨ascii "http", ascii "upstream", ascii "/player_api.php",
    ascii "password=SECRET&username=UP"⟩
  endpoint := ascii "player_api.php"
  user := bob
  body := .bytes body

/-- Nobody looks into a text. -/
theorem bodyKind_textRequest (method body : Bytes) :
    bodyKind asciiLibrary (textRequest method body) = none := by
  have hform : ¬ ascii "application/x-www-form-urlencoded" <:+:
      asciiLibrary.toLower (ascii "text/plain") := by decide
  have hjson : ¬ ascii "json" <:+: asciiLibrary.toLower (ascii "text/plain") := by decide
  rw [bodyKind]
  split
  · rfl
  · exact (if_neg hform).trans (if_neg hjson)

theorem build_textRequest (method body : Bytes) :
    buildTransparentUpstreamURL asciiLibrary (sampleProvider [sampleUser "1" "bob" "a"])
      (ascii "/player_api.php") (textRequest method body) = .ok (translatedText body) := by
  have hquery : translateValues asciiLibrary (sampleProvider [sampleUser "1" "bob" "a"])
      credentialPairs .zero (Values.parse (ascii "username=bob&password=a")).1 false =
        .ok (bob, [(ascii "password", ascii "SECRET"), (ascii "username", ascii "UP")], true) := by
    rfl
  refine build_of_accepted ⟨⟨ascii "http", ascii "upstream", [], []⟩, bob,
    [(ascii "password", ascii "SECRET"), (ascii "username", ascii "UP")], true, bob,
    [ascii "player_api.php"], none, bob, ?_, ?_, hquery, ?_, ?_, ?_, ?_, ?_, ?_⟩
  · decide
  · decide
  · rfl
  · rw [translateXtreamBodyCredentials, bodyKind_textRequest]
    rfl
  · rfl
  · exact List.cons_ne_nil _ _
  · rfl
  · rfl

theorem not_direct_translatedText (body : Bytes) : ¬ Direct (translatedText body) := by
  change ¬(isDirectMediaEndpoint (ascii "player_api.php") = true ∨
    isXtreamCatchupTarget ⟨ascii "http", ascii "upstream", ascii "/player_api.php",
      ascii "password=SECRET&username=UP"⟩ = true)
  decide

/-- A text that is one byte longer than what is read of it. -/
def longText : Bytes := List.replicate (maxXtreamFormBytes + 2) slash

/-- It is cut off: the last byte is missing, under the old length. -/
theorem long_text_cut_off :
    buildTransparentUpstreamURL asciiLibrary (sampleProvider [sampleUser "1" "bob" "a"])
      (ascii "/player_api.php") (textRequest (ascii "POST") longText) =
        .ok (translatedText longText) ∧
    cacheTargetForRequest asciiLibrary (afterTranslation (textRequest (ascii "POST") longText)
        (translatedText longText)) (sampleProvider [sampleUser "1" "bob" "a"])
      (ascii "player_api.php") (translatedText longText).url = none ∧
    ¬ BodyIntact asciiLibrary (sampleProvider [sampleUser "1" "bob" "a"])
      (textRequest (ascii "POST") longText) longText
      (forward asciiLibrary (textRequest (ascii "POST") longText) (translatedText longText)) := by
  have hlong : longText.length = maxXtreamFormBytes + 2 := List.length_replicate
  have hne : longText ≠ [] := List.ne_nil_of_length_pos (by rw [hlong]; exact Nat.succ_pos _)
  refine ⟨build_textRequest _ _, ?_, fun h => ?_⟩
  · have hvalues : xtreamRequestValues asciiLibrary (afterTranslation
        (textRequest (ascii "POST") longText) (translatedText longText)) = .error .bodyTooLarge := by
      rw [xtreamRequestValues, if_neg (by exact not_not.mpr rfl)]
      dsimp only [afterTranslation, translatedText]
      rw [if_neg hne, if_pos (by rw [hlong]; omega)]
    rw [cacheTargetForRequest, if_pos (by rfl), hvalues]
  · have hlength := h.length
    rw [forward_transparent rfl hne (not_direct_translatedText _), if_pos (by rfl),
      List.length_take, hlong] at hlength
    have := Option.some.inj hlength
    omega

/-! ## Bodies that arrive -/

/-- `"` -/
def quotation : Byte := 34

/-- An object whose fields are texts without escapes, cut at the quotation marks. -/
def writeFields : Bytes → List (Bytes × Json) → List Bytes
  | first, (k, .string v) :: fields => first :: k :: ascii ":" :: v :: writeFields (ascii ",") fields
  | _, _ => [ascii "\x7d"]

/-- The object of such a text, if it has a field. -/
def readFields : Bytes → List Bytes → Option (List (Bytes × Json))
  | first, [close] => if close = ascii "\x7d" ∧ first = ascii "," then some [] else none
  | first, start :: k :: colon :: v :: parts =>
    if start = first ∧ colon = ascii ":" ∧ Utf8.Valid v then
      (readFields (ascii ",") parts).map ((k, .string v) :: ·)
    else none
  | _, _ => none

/-- A library for such objects. -/
def fieldLibrary : Library :=
  { asciiLibrary with
    decodeObject := fun text => readFields (ascii "\x7b") (text.splitOn quotation)
    marshalObject := fun fields => [quotation].intercalate (writeFields (ascii "\x7b") fields) }

/-- The fields of such an object. -/
def PlainFields (fields : List (Bytes × Json)) : Prop :=
  ∀ f ∈ fields, quotation ∉ f.1 ∧ ∃ v, f.2 = .string v ∧ quotation ∉ v ∧ Utf8.Valid v

theorem readFields_writeFields {fields : List (Bytes × Json)} (h : PlainFields fields)
    {first : Bytes} (hfirst : fields ≠ [] ∨ first = ascii ",") :
    readFields first (writeFields first fields) = some fields := by
  induction fields generalizing first with
  | nil =>
    obtain rfl := hfirst.resolve_left (absurd rfl)
    rfl
  | cons f fields ih =>
    obtain ⟨k, x⟩ := f
    obtain ⟨-, v, rfl, -, hvalid⟩ := h _ List.mem_cons_self
    have hrest : readFields (ascii ",") (writeFields (ascii ",") fields) = some fields :=
      ih (fun f hf => h f (List.mem_cons_of_mem _ hf)) (.inr rfl)
    rw [writeFields, readFields, if_pos ⟨rfl, rfl, hvalid⟩, hrest]
    rfl

theorem quotation_not_mem_writeFields {fields : List (Bytes × Json)} (h : PlainFields fields)
    {first : Bytes} (hfirst : quotation ∉ first) :
    ∀ part ∈ writeFields first fields, quotation ∉ part := by
  induction fields generalizing first with
  | nil =>
    intro part hpart
    obtain rfl := List.mem_singleton.mp hpart
    decide
  | cons f fields ih =>
    obtain ⟨k, x⟩ := f
    obtain ⟨hk, v, rfl, hv, -⟩ := h _ List.mem_cons_self
    have hcomma : quotation ∉ ascii "," := by decide
    have hrest := ih (fun f hf => h f (List.mem_cons_of_mem _ hf)) hcomma
    rw [writeFields]
    simp only [List.forall_mem_cons]
    exact ⟨hfirst, hk, by decide, hv, hrest⟩

theorem plainFields_of_read {first : Bytes} {parts : List Bytes} {fields : List (Bytes × Json)}
    (hparts : ∀ part ∈ parts, quotation ∉ part) (h : readFields first parts = some fields) :
    PlainFields fields := by
  induction first, parts using readFields.induct generalizing fields with
  | case1 first close hclose =>
    rw [readFields, if_pos hclose] at h
    obtain rfl := Option.some.inj h
    exact fun _ hf => absurd hf List.not_mem_nil
  | case2 first close hclose =>
    rw [readFields, if_neg hclose] at h
    cases h
  | case3 first start k colon v parts hfield ih =>
    rw [readFields, if_pos hfield] at h
    obtain ⟨rest, hrest, rfl⟩ := Option.map_eq_some_iff.mp h
    simp only [List.forall_mem_cons] at hparts
    obtain ⟨-, hk, -, hv, hparts⟩ := hparts
    exact List.forall_mem_cons.mpr ⟨⟨hk, v, rfl, hv, hfield.2.2⟩, ih hparts hrest⟩
  | case4 first start k colon v parts hfield =>
    rw [readFields, if_neg hfield] at h
    cases h
  | case5 first parts hone hfour =>
    rw [readFields] at h
    · cases h
    · exact hone
    · exact hfour

theorem readFields_ne_nil {first : Bytes} {parts : List Bytes} (h : first ≠ ascii ",") :
    readFields first parts ≠ some [] := by
  rw [readFields.eq_def]
  split
  · next close =>
    rw [if_neg fun hclose => h hclose.2]
    exact nofun
  · split
    · intro hnil
      obtain ⟨rest, -, hcons⟩ := Option.map_eq_some_iff.mp hnil
      cases hcons
    · exact nofun
  · exact nofun

theorem writeFields_ne_nil (first : Bytes) (fields : List (Bytes × Json)) :
    writeFields first fields ≠ [] := by
  rw [writeFields.eq_def]
  split <;> exact List.cons_ne_nil _ _

theorem plainFields_setFields {fields : List (Bytes × Json)} {changes : List (Bytes × Bytes)}
    (h : PlainFields fields)
    (hchanges : ∀ c ∈ changes, quotation ∉ c.1 ∧ quotation ∉ c.2 ∧ Utf8.Valid c.2) :
    PlainFields (setFields fields changes) := by
  induction changes generalizing fields with
  | nil => exact h
  | cons c changes ih =>
    obtain ⟨hc, hchanges⟩ := List.forall_mem_cons.mp hchanges
    refine ih (List.forall_mem_cons.mpr ⟨⟨hc.1, c.2, rfl, hc.2⟩, fun f hf => ?_⟩) hchanges
    exact h f (List.mem_of_mem_filter hf)

theorem setFields_ne_nil {fields : List (Bytes × Json)} (h : fields ≠ [])
    (changes : List (Bytes × Bytes)) : setFields fields changes ≠ [] := by
  induction changes generalizing fields with
  | nil => exact h
  | cons c changes ih => exact ih (List.cons_ne_nil _ _)

theorem jsonDocumented_fieldLibrary :
    JsonDocumented fieldLibrary (sampleProvider [sampleUser "1" "bob" "a"]) where
  trimSpace_nil := rfl
  roundTrip text payload hpayload changes hchanges := by
    have hplain : PlainFields payload :=
      plainFields_of_read (Lines.sep_not_mem_splitOn text) hpayload
    have hne : payload ≠ [] := by
      rintro rfl
      exact readFields_ne_nil (by decide) hpayload
    have hcredentials : ∀ c ∈ changes,
        quotation ∉ c.1 ∧ quotation ∉ c.2 ∧ Utf8.Valid c.2 ∧ Utf8.jsonText c.2 = c.2 := by
      have hall : ∀ c ∈ replacements (sampleProvider [sampleUser "1" "bob" "a"]) credentialPairs,
          quotation ∉ c.1 ∧ quotation ∉ c.2 ∧ Utf8.Valid c.2 ∧ Utf8.jsonText c.2 = c.2 := by
        decide
      exact fun c hc => hall c (hchanges hc)
    have hset : PlainFields (setFields payload changes) := plainFields_setFields hplain
      fun c hc => ⟨(hcredentials c hc).1, (hcredentials c hc).2.1, (hcredentials c hc).2.2.1⟩
    have hread : fieldLibrary.decodeObject (fieldLibrary.marshalObject (setFields payload changes)) =
        some (setFields payload changes) := by
      change readFields _ (List.splitOn quotation ([quotation].intercalate _)) = _
      rw [List.splitOn_intercalate _ (quotation_not_mem_writeFields hset (by decide))]
      · exact readFields_writeFields hset (.inl (setFields_ne_nil hne changes))
      · exact writeFields_ne_nil _ _
    have hsame : changes.map (fun c => (c.1, Utf8.jsonText c.2)) = changes := by
      rw [List.map_congr_left fun c hc => by rw [(hcredentials c hc).2.2.2], List.map_id']
    rw [hsame]
    refine ⟨fun hnil => ?_, _, hread, fun _ => rfl⟩
    rw [hnil] at hread
    cases hread

/-- An object with the pair, for the player's API. -/
def objectBody : Bytes :=
  ascii "\x7b\x22username\x22:\x22bob\x22,\x22password\x22:\x22a\x22,\x22x\x22:\x22y\x22\x7d"

/-- A form with the pair. -/
def formBody : Bytes := ascii "username=bob&password=a&x=1&x=2"

/-- A request with such a body. -/
def bodyRequest (method contentType body : Bytes) : Request :=
  ⟨method, [], contentType, .bytes body⟩

/-- The request is accepted, not cacheable and not for a direct media endpoint. -/
def isForwarded (L : Library) (p : Provider) (remaining : Bytes) (r : Request) : Bool :=
  match buildTransparentUpstreamURL L p remaining r with
  | .ok t => (cacheTargetForRequest L (afterTranslation r t) p t.endpoint t.url).isNone &&
      !decide (Direct t)
  | .error _ => false

theorem exists_of_isForwarded {remaining : Bytes} (h : isForwarded L p remaining r = true) :
    ∃ t, buildTransparentUpstreamURL L p remaining r = .ok t ∧
      cacheTargetForRequest L (afterTranslation r t) p t.endpoint t.url = none ∧ ¬ Direct t := by
  rw [isForwarded] at h
  rcases hb : buildTransparentUpstreamURL L p remaining r with e | t
  · rw [hb] at h
    cases h
  · rw [hb] at h
    obtain ⟨hroute, hdirect⟩ := Bool.and_eq_true_iff.mp h
    rw [Option.isNone_iff_eq_none] at hroute
    rw [Bool.not_eq_true', decide_eq_false_iff_not] at hdirect
    exact ⟨t, rfl, hroute, hdirect⟩

/-- An object and a form arrive. -/
theorem body_intact_sample :
    (∃ t, buildTransparentUpstreamURL fieldLibrary (sampleProvider [sampleUser "1" "bob" "a"])
        (ascii "/player_api.php")
        (bodyRequest (ascii "POST") (ascii "application/json") objectBody) = .ok t ∧
      BodyIntact fieldLibrary (sampleProvider [sampleUser "1" "bob" "a"])
        (bodyRequest (ascii "POST") (ascii "application/json") objectBody) objectBody
        (forward fieldLibrary
          (bodyRequest (ascii "POST") (ascii "application/json") objectBody) t)) ∧
    ∃ t, buildTransparentUpstreamURL fieldLibrary (sampleProvider [sampleUser "1" "bob" "a"])
        (ascii "/new.php") (bodyRequest (ascii "PUT")
          (ascii "application/x-www-form-urlencoded") formBody) = .ok t ∧
      BodyIntact fieldLibrary (sampleProvider [sampleUser "1" "bob" "a"])
        (bodyRequest (ascii "PUT") (ascii "application/x-www-form-urlencoded") formBody) formBody
        (forward fieldLibrary (bodyRequest (ascii "PUT")
          (ascii "application/x-www-form-urlencoded") formBody) t) := by
  constructor
  · have hforwarded : isForwarded fieldLibrary (sampleProvider [sampleUser "1" "bob" "a"])
        (ascii "/player_api.php")
        (bodyRequest (ascii "POST") (ascii "application/json") objectBody) = true := by
      decide +kernel
    obtain ⟨t, ht, hroute, hdirect⟩ := exists_of_isForwarded hforwarded
    refine ⟨t, ht, (body_intact_iff jsonDocumented_fieldLibrary (by decide) rfl ht hroute).mpr
      ⟨.inr ⟨by decide, hdirect, fun _ => by decide +kernel⟩, fun h => ?_, fun _ _ => ?_⟩⟩
    · exact absurd h (by decide +kernel)
    · decide
  · have hforwarded : isForwarded fieldLibrary (sampleProvider [sampleUser "1" "bob" "a"])
        (ascii "/new.php")
        (bodyRequest (ascii "PUT") (ascii "application/x-www-form-urlencoded") formBody) = true := by
      decide +kernel
    obtain ⟨t, ht, hroute, hdirect⟩ := exists_of_isForwarded hforwarded
    refine ⟨t, ht, (body_intact_iff jsonDocumented_fieldLibrary (by decide) rfl ht hroute).mpr
      ⟨.inr ⟨by decide, hdirect, fun h => absurd h (by decide)⟩, fun _ => ?_, fun h => ?_⟩⟩
    · decide +kernel
    · exact absurd h (by decide +kernel)

end IptvProxy.Catalog
