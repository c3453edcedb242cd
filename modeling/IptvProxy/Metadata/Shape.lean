import IptvProxy.Xtream.Leaves

/-!
# Documents of one shape

Two documents that differ in their strings only: they have the same keys, lists of the same length
and the same numbers, truth values and nulls. A relation says how the strings may differ.
-/

namespace IptvProxy.Metadata

open Xtream

section

variable (R : Option Bytes → Bytes → Bytes → Prop)

mutual

/-- The documents differ in their strings only, and these are related by `R`, given the key that a
string stands directly below. -/
inductive Related : Option Bytes → Json → Json → Prop
  | string {key : Option Bytes} {s t : Bytes} (h : R key s t) : Related key (.string s) (.string t)
  | object {key : Option Bytes} {fields fields' : List (Bytes × Json)}
      (h : RelatedFields fields fields') : Related key (.object fields) (.object fields')
  | array {key : Option Bytes} {xs ys : List Json} (h : RelatedItems xs ys) :
      Related key (.array xs) (.array ys)
  | null {key : Option Bytes} : Related key .null .null
  | bool {key : Option Bytes} (b : Bool) : Related key (.bool b) (.bool b)
  | number {key : Option Bytes} (text : Bytes) : Related key (.number text) (.number text)

/-- The fields of two maps, with the same keys. -/
inductive RelatedFields : List (Bytes × Json) → List (Bytes × Json) → Prop
  | nil : RelatedFields [] []
  | cons {key : Bytes} {v w : Json} {fields fields' : List (Bytes × Json)}
      (h : Related (some key) v w) (hrest : RelatedFields fields fields') :
      RelatedFields ((key, v) :: fields) ((key, w) :: fields')

/-- The items of two lists of one length. -/
inductive RelatedItems : List Json → List Json → Prop
  | nil : RelatedItems [] []
  | cons {v w : Json} {items items' : List Json} (h : Related none v w)
      (hrest : RelatedItems items items') : RelatedItems (v :: items) (w :: items')

end

end

section

variable {R S : Option Bytes → Bytes → Bytes → Prop}

mutual

theorem related_mapLeaves {f : Bytes → Bytes} (h : ∀ key s, R key s (f s)) (key : Option Bytes)
    (v : Json) : Related R key v (v.mapLeaves f) := by
  cases v with
  | string s => exact .string (h key s)
  | object fields => exact .object (relatedFields_mapFields h fields)
  | array xs => exact .array (relatedItems_mapItems h xs)
  | null => exact .null
  | bool b => exact .bool b
  | number text => exact .number text

theorem relatedFields_mapFields {f : Bytes → Bytes} (h : ∀ key s, R key s (f s))
    (fields : List (Bytes × Json)) : RelatedFields R fields (Json.mapFields f fields) := by
  cases fields with
  | nil => exact .nil
  | cons field fields =>
    obtain ⟨key, child⟩ := field
    exact .cons (related_mapLeaves h (some key) child) (relatedFields_mapFields h fields)

theorem relatedItems_mapItems {f : Bytes → Bytes} (h : ∀ key s, R key s (f s))
    (items : List Json) : RelatedItems R items (Json.mapItems f items) := by
  cases items with
  | nil => exact .nil
  | cons child items =>
    exact .cons (related_mapLeaves h none child) (relatedItems_mapItems h items)

end

mutual

theorem Related.refl (h : ∀ key s, R key s s) (key : Option Bytes) (v : Json) :
    Related R key v v := by
  cases v with
  | string s => exact .string (h key s)
  | object fields => exact .object (relatedFields_refl h fields)
  | array xs => exact .array (relatedItems_refl h xs)
  | null => exact .null
  | bool b => exact .bool b
  | number text => exact .number text

theorem relatedFields_refl (h : ∀ key s, R key s s) (fields : List (Bytes × Json)) :
    RelatedFields R fields fields := by
  cases fields with
  | nil => exact .nil
  | cons field fields =>
    obtain ⟨key, child⟩ := field
    exact .cons (Related.refl h (some key) child) (relatedFields_refl h fields)

theorem relatedItems_refl (h : ∀ key s, R key s s) (items : List Json) :
    RelatedItems R items items := by
  cases items with
  | nil => exact .nil
  | cons child items => exact .cons (Related.refl h none child) (relatedItems_refl h items)

end

mutual

theorem Related.trans (h : ∀ key s t u, R key s t → R key t u → R key s u) {key : Option Bytes}
    {v w x : Json} (hv : Related R key v w) (hw : Related R key w x) : Related R key v x := by
  cases v with
  | string s =>
    cases hv with
    | string hs =>
      cases hw with
      | string ht => exact .string (h _ _ _ _ hs ht)
  | object fields =>
    cases hv with
    | object hs =>
      cases hw with
      | object ht => exact .object (relatedFields_trans h hs ht)
  | array xs =>
    cases hv with
    | array hs =>
      cases hw with
      | array ht => exact .array (relatedItems_trans h hs ht)
  | null =>
    cases hv
    exact hw
  | bool b =>
    cases hv
    exact hw
  | number text =>
    cases hv
    exact hw

theorem relatedFields_trans (h : ∀ key s t u, R key s t → R key t u → R key s u)
    {fields fields' fields'' : List (Bytes × Json)} (hs : RelatedFields R fields fields')
    (ht : RelatedFields R fields' fields'') : RelatedFields R fields fields'' := by
  cases fields with
  | nil =>
    cases hs
    exact ht
  | cons field fields =>
    cases hs with
    | cons hs hs' =>
      cases ht with
      | cons ht ht' => exact .cons (Related.trans h hs ht) (relatedFields_trans h hs' ht')

theorem relatedItems_trans (h : ∀ key s t u, R key s t → R key t u → R key s u)
    {items items' items'' : List Json} (hs : RelatedItems R items items')
    (ht : RelatedItems R items' items'') : RelatedItems R items items'' := by
  cases items with
  | nil =>
    cases hs
    exact ht
  | cons child items =>
    cases hs with
    | cons hs hs' =>
      cases ht with
      | cons ht ht' => exact .cons (Related.trans h hs ht) (relatedItems_trans h hs' ht')

end

mutual

theorem Related.mono (h : ∀ key s t, R key s t → S key s t) {key : Option Bytes} {v w : Json}
    (hv : Related R key v w) : Related S key v w := by
  cases v with
  | string s =>
    cases hv with
    | string hs => exact .string (h _ _ _ hs)
  | object fields =>
    cases hv with
    | object hs => exact .object (relatedFields_mono h hs)
  | array xs =>
    cases hv with
    | array hs => exact .array (relatedItems_mono h hs)
  | null =>
    cases hv
    exact .null
  | bool b =>
    cases hv
    exact .bool b
  | number text =>
    cases hv
    exact .number text

theorem relatedFields_mono (h : ∀ key s t, R key s t → S key s t)
    {fields fields' : List (Bytes × Json)} (hs : RelatedFields R fields fields') :
    RelatedFields S fields fields' := by
  cases fields with
  | nil =>
    cases hs
    exact .nil
  | cons field fields =>
    cases hs with
    | cons hs hs' => exact .cons (Related.mono h hs) (relatedFields_mono h hs')

theorem relatedItems_mono (h : ∀ key s t, R key s t → S key s t) {items items' : List Json}
    (hs : RelatedItems R items items') : RelatedItems S items items' := by
  cases items with
  | nil =>
    cases hs
    exact .nil
  | cons child items =>
    cases hs with
    | cons hs hs' => exact .cons (Related.mono h hs) (relatedItems_mono h hs')

end

theorem RelatedItems.length {xs ys : List Json} (h : RelatedItems R xs ys) :
    xs.length = ys.length := by
  induction xs generalizing ys with
  | nil =>
    cases h
    rfl
  | cons x xs ih =>
    cases h with
    | cons _ hrest => rw [List.length_cons, List.length_cons, ih hrest]

end

end IptvProxy.Metadata
