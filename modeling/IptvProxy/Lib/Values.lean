import IptvProxy.Lib.Percent

/-!
# Multimaps of query parameters

A map from names to lists of values, kept as the list of its pairs; the order of pairs with
different names does not matter. `encode` writes it with the names in order, `parse` reads a query
and drops malformed parts, and reports whether there were any.

`parse_encode` is the round trip. `encode_congr` says that maps with the same values have the same
encoding, which makes an encoded query a canonical name of the map.
-/

/-- `url.Values` -/
abbrev Values : Type := List (Bytes × Bytes)

namespace Values

/-- The values of a name. -/
def values (v : Values) (k : Bytes) : List Bytes := (v.filter fun p => p.1 = k).map Prod.snd

/-- The first value, or the empty string. -/
def get (v : Values) (k : Bytes) : Bytes := (v.values k).headD []

/-- The name occurs. -/
def has (v : Values) (k : Bytes) : Bool := !(v.values k).isEmpty

/-- Remove a name. -/
def del (v : Values) (k : Bytes) : Values := v.filter fun p => p.1 ≠ k

/-- Give a name these values. -/
def replace (v : Values) (k : Bytes) (xs : List Bytes) : Values := xs.map (k, ·) ++ v.del k

/-- Give a name one value. -/
def set (v : Values) (k x : Bytes) : Values := v.replace k [x]

/-- The names, in order. -/
def names (v : Values) : List Bytes := ((v.map Prod.fst).dedup).insertionSort (· ≤ ·)

/-- The same values for every name. -/
def Same (v w : Values) : Prop := ∀ k, v.values k = w.values k

variable {v w : Values} {k k' x : Bytes}

@[simp] theorem values_nil : values [] k = [] := rfl

@[simp] theorem values_append : values (v ++ w) k = v.values k ++ w.values k := by
  simp [values]

theorem values_map_pair (xs : List Bytes) :
    values (xs.map (k, ·)) k' = if k = k' then xs else [] := by
  induction xs with
  | nil => simp
  | cons x xs ih =>
    have ih' := ih
    simp only [values] at ih' ⊢
    by_cases hk : k = k'
    · simp_all
    · simp_all

@[simp] theorem values_del_self : (v.del k).values k = [] := by
  simp [values, del, List.filter_filter]

theorem values_del_ne (h : k' ≠ k) : (v.del k).values k' = v.values k' := by
  simp only [values, del, List.filter_filter]
  congr 1
  apply List.filter_congr
  intro p _
  by_cases hp : p.1 = k'
  · simp [hp, h]
  · simp [hp]

@[simp] theorem values_replace_self (xs : List Bytes) : (v.replace k xs).values k = xs := by
  simp [replace, values_map_pair]

theorem values_replace_ne (xs : List Bytes) (h : k' ≠ k) :
    (v.replace k xs).values k' = v.values k' := by
  simp [replace, values_map_pair, values_del_ne h, Ne.symm h]

@[simp] theorem values_set_self : (v.set k x).values k = [x] := values_replace_self _

theorem values_set_ne (h : k' ≠ k) : (v.set k x).values k' = v.values k' :=
  values_replace_ne _ h

theorem get_set_ne (h : k' ≠ k) : (v.set k x).get k' = v.get k' := by
  rw [get, get, values_set_ne h]

theorem get_eq_nil_of_values (h : v.values k = []) : v.get k = [] := by
  rw [get, h]
  rfl

theorem mem_names : k ∈ v.names ↔ v.values k ≠ [] := by
  rw [names, List.mem_insertionSort, List.mem_dedup, values, ne_eq, List.map_eq_nil_iff,
    List.filter_eq_nil_iff]
  simp only [List.mem_map, decide_eq_true_eq, not_forall, not_not]
  constructor
  · rintro ⟨p, hp, rfl⟩
    exact ⟨p, hp, rfl⟩
  · rintro ⟨p, hp, rfl⟩
    exact ⟨p, hp, rfl⟩

theorem nodup_names : v.names.Nodup :=
  (List.perm_insertionSort _ _).nodup_iff.mpr (List.nodup_dedup _)

theorem names_congr (h : v.Same w) : v.names = w.names := by
  have hmem : ∀ k, k ∈ v.names ↔ k ∈ w.names := fun k => by rw [mem_names, mem_names, h k]
  have hperm : v.names.Perm w.names :=
    (List.perm_ext_iff_of_nodup nodup_names nodup_names).mpr hmem
  exact hperm.eq_of_pairwise' (List.pairwise_insertionSort _ _) (List.pairwise_insertionSort _ _)

/-! ## Writing -/

/-- `&` -/
def amp : Byte := 38
/-- `=` -/
def equals : Byte := 61
/-- `;` -/
def semicolon : Byte := 59

/-- The bytes `url.QueryEscape` and `url.PathEscape` both keep. -/
def unreserved (c : Byte) : Bool :=
  (48 ≤ c.val && c.val ≤ 57) || (65 ≤ c.val && c.val ≤ 90) || (97 ≤ c.val && c.val ≤ 122) ||
    c.val = 45 || c.val = 95 || c.val = 46 || c.val = 126

/-- `url.QueryEscape` -/
def queryMode : Percent.Mode where
  keep := unreserved
  plusForSpace := true
  percent_escaped := by decide
  plus_escaped _ := by decide

/-- One pair, written. -/
def encodePair (p : Bytes × Bytes) : Bytes :=
  Percent.escape queryMode p.1 ++ equals :: Percent.escape queryMode p.2

/-- The pairs in the order of their names. -/
def sorted (v : Values) : Values := v.names.flatMap fun k => (v.values k).map (k, ·)

/-- `Values.Encode` -/
def encode (v : Values) : Bytes := [amp].intercalate (v.sorted.map encodePair)

/-- **Canonical**: the encoding depends on the map only. -/
theorem encode_congr (h : v.Same w) : v.encode = w.encode := by
  have hs : v.sorted = w.sorted := by
    rw [sorted, sorted, names_congr h]
    exact List.flatMap_congr fun k _ => by rw [h k]
  rw [encode, encode, hs]

theorem values_flatMap_pairs (f : Bytes → List Bytes) (ks : List Bytes) (hks : ks.Nodup) :
    values (ks.flatMap fun k => (f k).map (k, ·)) k' = if k' ∈ ks then f k' else [] := by
  induction ks with
  | nil => rfl
  | cons k ks ih =>
    obtain ⟨hk, hks⟩ := List.nodup_cons.mp hks
    rw [List.flatMap_cons, values_append, values_map_pair, ih hks]
    by_cases h : k = k'
    · subst h
      simp [hk]
    · simp [h, Ne.symm h]

/-- The sorted pairs are the same map. -/
theorem sorted_same : v.sorted.Same v := by
  intro k
  rw [sorted, values_flatMap_pairs _ _ nodup_names]
  split
  · rfl
  · next h => rw [mem_names, not_not] at h; exact h.symm

/-! ## Reading -/

/-- `strings.Cut`: before and after the first occurrence of a byte. -/
def cut (c : Byte) (s : Bytes) : Bytes × Bytes :=
  (s.takeWhile (· ≠ c), (s.dropWhile (· ≠ c)).tail)

/-- One part of a query: `none` if it is malformed, `some none` if it is empty. -/
def parsePart (s : Bytes) : Option (Option (Bytes × Bytes)) :=
  if semicolon ∈ s then none
  else if s = [] then some none
  else do
    let name ← Percent.unescape true (cut equals s).1
    let value ← Percent.unescape true (cut equals s).2
    some (some (name, value))

/-- `url.ParseQuery`: the pairs that could be read, and whether all could. -/
def parse (query : Bytes) : Values × Bool :=
  let parts := (query.splitOn amp).map parsePart
  (parts.filterMap Option.join, parts.all Option.isSome)

/-- The bytes that occur in an escaped name or value. -/
theorem not_mem_escape (c : Byte) (hc : unreserved c = false) (hplus : c ≠ Percent.plus)
    (hpercent : c ≠ Percent.percent) (s : Bytes) : c ∉ Percent.escape queryMode s := by
  intro h
  refine Percent.escape_forall (m := queryMode) (P := fun d => d ≠ c) ?_ (Ne.symm hplus)
    (Ne.symm hpercent) ?_ s c h rfl
  · rintro d hd rfl
    rw [show unreserved d = true from hd] at hc
    cases hc
  · rintro n hn rfl
    have hall : ∀ n < 16, unreserved (Percent.hexDigit n) = true := by decide
    rw [hall n hn] at hc
    cases hc

theorem cut_append {c : Byte} {a b : Bytes} (h : c ∉ a) : cut c (a ++ c :: b) = (a, b) := by
  induction a with
  | nil => simp [cut]
  | cons d a ih =>
    obtain ⟨hd, ha⟩ := List.ne_and_not_mem_of_not_mem_cons h
    have hih := ih ha
    simp [cut, Ne.symm hd] at hih ⊢
    exact hih

theorem parsePart_encodePair (p : Bytes × Bytes) : parsePart (encodePair p) = some (some p) := by
  have hsemi : semicolon ∉ encodePair p := by
    simp only [encodePair, List.mem_append, List.mem_cons, not_or]
    exact ⟨not_mem_escape _ (by decide) (by decide) (by decide) _, by decide,
      not_mem_escape _ (by decide) (by decide) (by decide) _⟩
  have hcut : cut equals (encodePair p) =
      (Percent.escape queryMode p.1, Percent.escape queryMode p.2) :=
    cut_append (not_mem_escape _ (by decide) (by decide) (by decide) _)
  have hread : ∀ s, Percent.unescape true (Percent.escape queryMode s) = some s :=
    fun s => Percent.unescape_escape (m := queryMode) s
  rw [parsePart, if_neg hsemi, if_neg (by simp [encodePair]), hcut]
  simp [hread]

theorem amp_not_mem_encodePair (p : Bytes × Bytes) : amp ∉ encodePair p := by
  simp only [encodePair, List.mem_append, List.mem_cons, not_or]
  exact ⟨not_mem_escape _ (by decide) (by decide) (by decide) _, by decide,
    not_mem_escape _ (by decide) (by decide) (by decide) _⟩

/-- A written list of pairs, read. -/
theorem parse_intercalate (ps : Values) :
    parse ([amp].intercalate (ps.map encodePair)) = (ps, true) := by
  cases ps with
  | nil => rfl
  | cons p ps =>
    have hsplit : ([amp].intercalate ((p :: ps).map encodePair)).splitOn amp =
        (p :: ps).map encodePair := by
      apply List.splitOn_intercalate
      · intro l hl
        obtain ⟨q, -, rfl⟩ := List.mem_map.mp hl
        exact amp_not_mem_encodePair q
      · simp
    have hparts : ((p :: ps).map encodePair).map parsePart = (p :: ps).map fun q => some (some q) := by
      rw [List.map_map]
      exact List.map_congr_left fun q _ => parsePart_encodePair q
    have hjoin : ∀ qs : Values, (qs.map fun q => some (some q)).filterMap Option.join = qs := by
      intro qs
      induction qs with
      | nil => rfl
      | cons q qs ih => simp [ih]
    simp only [parse, hsplit, hparts, hjoin]
    simp

/-- **The round trip**: reading an encoded map gives the same map. -/
theorem parse_encode (v : Values) : parse v.encode = (v.sorted, true) := parse_intercalate _

end Values
