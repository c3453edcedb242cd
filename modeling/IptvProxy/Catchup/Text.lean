import IptvProxy.Xtream.Rewrite

/-!
# Text and URLs of catch-up targets

The functions of Go's `strings`, `path` and `net/url` that `internal/proxy/catchup.go` calls, on
bytes, and the `url.URL` of a target with the parts that `URL.String` writes.

`segments_join` says that a path which is joined from clean segments is split into them again;
`string_inj` says that two URLs with one text have the same segments and the same query.
-/

namespace IptvProxy.Catchup

open Xtream

/-! ## Strings -/

/-- The encodings of the characters of `unicode.IsSpace`. -/
def spaces : List Bytes :=
  [[9], [10], [11], [12], [13], [32], [0xC2, 0x85], [0xC2, 0xA0], [0xE1, 0x9A, 0x80],
    [0xE2, 0x80, 0x80], [0xE2, 0x80, 0x81], [0xE2, 0x80, 0x82], [0xE2, 0x80, 0x83],
    [0xE2, 0x80, 0x84], [0xE2, 0x80, 0x85], [0xE2, 0x80, 0x86], [0xE2, 0x80, 0x87],
    [0xE2, 0x80, 0x88], [0xE2, 0x80, 0x89], [0xE2, 0x80, 0x8A], [0xE2, 0x80, 0xA8],
    [0xE2, 0x80, 0xA9], [0xE2, 0x80, 0xAF], [0xE2, 0x81, 0x9F], [0xE3, 0x80, 0x80]]

/-- Drop these texts from the front, at most `n` times. -/
def dropTexts (texts : List Bytes) : ℕ → Bytes → Bytes
  | 0, s => s
  | n + 1, s =>
    match texts.find? fun t => t.isPrefixOf s with
    | some t => dropTexts texts n (s.drop t.length)
    | none => s

/-- Drop these texts from the front. -/
def trimTexts (texts : List Bytes) (s : Bytes) : Bytes := dropTexts texts s.length s

/-- `strings.TrimSpace` -/
def trimSpace (s : Bytes) : Bytes :=
  (trimTexts (spaces.map List.reverse) (trimTexts spaces s).reverse).reverse

/-- The lower case of an ASCII letter. -/
def lower (c : Byte) : Byte := if 65 ≤ c.val ∧ c.val ≤ 90 then c + 32 else c

/-- Simple folding, as far as it leads to ASCII: `ſ` is an `s` and the Kelvin sign is a `k`. -/
def fold : Bytes → Bytes
  | [] => []
  | [c] => [lower c]
  | [c, d] => if c = 0xC5 ∧ d = 0xBF then [115] else lower c :: fold [d]
  | c :: d :: e :: s =>
    if c = 0xC5 ∧ d = 0xBF then 115 :: fold (e :: s)
    else if c = 0xE2 ∧ d = 0x84 ∧ e = 0xAA then 107 :: fold s
    else lower c :: fold (d :: e :: s)

/-- `strings.EqualFold` with an ASCII word in lower case. -/
def equalFold (s word : Bytes) : Bool := fold s = word

/-- `.` -/
def dot : Byte := 46

/-- `path.Ext` -/
def ext (s : Bytes) : Bytes :=
  let name := s.reverse.takeWhile (· ≠ slash)
  if dot ∈ name then (name.takeWhile (· ≠ dot) ++ [dot]).reverse else []

/-- `strings.TrimSuffix` -/
def trimSuffix (s suffix : Bytes) : Bytes :=
  if suffix.isSuffixOf s then s.take (s.length - suffix.length) else s

theorem trimTexts_of_forall {texts : List Bytes} {c : Byte} {s : Bytes}
    (h : ∀ t ∈ texts, t.isPrefixOf (c :: s) = false) : trimTexts texts (c :: s) = c :: s := by
  have hnone : (texts.find? fun t => t.isPrefixOf (c :: s)) = none := by
    rw [List.find?_eq_none]
    intro t ht
    rw [h t ht]
    decide
  rw [trimTexts, List.length_cons, dropTexts, hnone]

/-- A text that starts and ends with another byte stays. -/
theorem trimTexts_of_head {texts : List Bytes} {c : Byte} {s : Bytes}
    (h : ∀ t ∈ texts, t.head? ≠ some c ∧ t ≠ []) : trimTexts texts (c :: s) = c :: s := by
  apply trimTexts_of_forall
  intro t ht
  obtain ⟨hhead, hne⟩ := h t ht
  rcases t with _ | ⟨d, t⟩
  · exact absurd rfl hne
  · rw [List.isPrefixOf_cons_cons, Bool.and_eq_false_iff]
    left
    rw [beq_eq_false_iff_ne]
    rintro rfl
    exact hhead rfl

/-- A byte that starts no space and ends none. -/
def solid (c : Byte) : Bool :=
  spaces.all fun t => t.head? ≠ some c && t.getLast? ≠ some c

/-- Text between two solid bytes stays. -/
theorem trimSpace_of_solid {c d : Byte} {s : Bytes} (hc : solid c = true) (hd : solid d = true)
    (hhead : s.head? = some c) (hlast : s.getLast? = some d) : trimSpace s = s := by
  have hall : ∀ c, solid c = true → ∀ t ∈ spaces, t.head? ≠ some c ∧ t.getLast? ≠ some c := by
    intro c hc t ht
    have h := List.all_eq_true.mp hc t ht
    simpa using h
  have hne : ∀ t ∈ spaces, t ≠ [] := by decide
  have hleft : trimTexts spaces s = s := by
    obtain ⟨t, rfl⟩ := List.head?_eq_some_iff.mp hhead
    exact trimTexts_of_head fun t ht => ⟨(hall c hc t ht).1, hne t ht⟩
  have hright : trimTexts (spaces.map List.reverse) s.reverse = s.reverse := by
    obtain ⟨t, rfl⟩ := List.getLast?_eq_some_iff.mp hlast
    rw [List.reverse_append, List.reverse_singleton, List.singleton_append]
    apply trimTexts_of_head
    intro t ht
    obtain ⟨u, hu, rfl⟩ := List.mem_map.mp ht
    refine ⟨?_, by simpa using hne u hu⟩
    rw [List.head?_reverse]
    exact (hall d hd u hu).2
  rw [trimSpace, hleft, hright, List.reverse_reverse]

/-! ## Extensions -/

/-- What `path.Ext` finds if it finds something: a dot and text without dots and slashes. -/
def IsExtension (e : Bytes) : Prop := ∃ tail, e = dot :: tail ∧ dot ∉ tail ∧ slash ∉ tail

variable {s e : Bytes}

theorem takeWhile_append_of_mem {c : Byte} {a b : Bytes} (h : c ∉ a) :
    (a ++ c :: b).takeWhile (· ≠ c) = a := by
  have hcut := congrArg Prod.fst (Values.cut_append (b := b) h)
  exact hcut

theorem takeWhile_eq_self {c : Byte} {a : Bytes} (h : c ∉ a) : a.takeWhile (· ≠ c) = a := by
  rw [List.takeWhile_eq_self_iff]
  intro d hd
  exact decide_eq_true fun heq => h (heq ▸ hd)

/-- The first occurrence of a byte. -/
theorem exists_eq_append_of_mem {c : Byte} {a : Bytes} (h : c ∈ a) :
    ∃ before after, a = before ++ c :: after ∧ c ∉ before := by
  induction a with
  | nil => cases h
  | cons d a ih =>
    by_cases hd : d = c
    · exact ⟨[], a, by rw [hd]; rfl, List.not_mem_nil⟩
    · obtain ⟨before, after, rfl, hbefore⟩ := ih ((List.mem_cons.mp h).resolve_left (Ne.symm hd))
      exact ⟨d :: before, after, rfl, by simp [Ne.symm hd, hbefore]⟩

/-- The extension of a name that ends with one. -/
theorem ext_append (he : IsExtension e) (s : Bytes) : ext (s ++ e) = e := by
  obtain ⟨tail, rfl, hdot, hslash⟩ := he
  have hname : (s ++ dot :: tail).reverse.takeWhile (· ≠ slash) =
      tail.reverse ++ dot :: s.reverse.takeWhile (· ≠ slash) := by
    rw [List.reverse_append, List.reverse_cons, List.append_assoc, List.singleton_append,
      List.takeWhile_append_of_pos]
    · rw [List.takeWhile_cons_of_pos (by decide)]
    · intro c hc
      exact decide_eq_true fun heq => hslash (heq ▸ List.mem_reverse.mp hc)
  simp only [ext, hname]
  rw [if_pos (by simp), takeWhile_append_of_mem (by simpa using hdot)]
  simp

/-- What `path.Ext` finds. -/
theorem isExtension_ext (h : ext s ≠ []) : IsExtension (ext s) ∧ ∃ t, s = t ++ ext s := by
  simp only [ext] at h ⊢
  split at h
  · next hdot =>
    rw [if_pos hdot]
    obtain ⟨a, rest, hname, ha⟩ := exists_eq_append_of_mem hdot
    have hs : s.reverse = (a ++ dot :: rest) ++ s.reverse.dropWhile (· ≠ slash) := by
      rw [← hname, List.takeWhile_append_dropWhile]
    have hslash : slash ∉ a := by
      intro hmem
      have hall := List.mem_takeWhile_imp (l := s.reverse) (p := (· ≠ slash)) (x := slash)
        (by rw [hname]; exact List.mem_append_left _ hmem)
      exact absurd rfl (of_decide_eq_true hall)
    rw [hname, takeWhile_append_of_mem ha]
    refine ⟨⟨a.reverse, by simp, by simpa using ha, by simpa using hslash⟩, ?_⟩
    refine ⟨(rest ++ s.reverse.dropWhile (· ≠ slash)).reverse, ?_⟩
    calc s = s.reverse.reverse := s.reverse_reverse.symm
      _ = ((a ++ dot :: rest) ++ s.reverse.dropWhile (· ≠ slash)).reverse := by rw [← hs]
      _ = _ := by simp
  · exact absurd rfl h

theorem trimSuffix_append (s e : Bytes) : trimSuffix (s ++ e) e = s := by
  rw [trimSuffix, if_pos (by rw [List.isSuffixOf_iff_suffix]; exact List.suffix_append s e)]
  simp

/-! ## Segments -/

/-- Segments that survive being joined and split. -/
structure Clean (segments : List Bytes) : Prop where
  /-- no slash in a segment -/
  noSlash : ∀ s ∈ segments, slash ∉ s
  /-- the first one is not empty -/
  head : segments.head? ≠ some []
  /-- the last one is not empty -/
  last : segments.getLast? ≠ some []

theorem trimSlashes_of_ends {t : Bytes} (hhead : t.head? ≠ some slash)
    (hlast : t.getLast? ≠ some slash) : trimSlashes (slash :: t) = t := by
  have hdrop : ∀ t : Bytes, t.head? ≠ some slash → t.dropWhile (· = slash) = t := by
    intro t ht
    rcases t with _ | ⟨c, t⟩
    · rfl
    · apply List.dropWhile_cons_of_neg
      simpa using ht
  rw [trimSlashes, List.dropWhile_cons_of_pos (by simp), hdrop t hhead, hdrop t.reverse,
    List.reverse_reverse]
  rw [List.head?_reverse]
  exact hlast

/-- **A joined path is split into its segments.** -/
theorem segments_join {segments : List Bytes} (h : Clean segments) (hne : segments ≠ []) :
    splitSlash (trimSlashes (slash :: joinSlash segments)) = segments := by
  have hsplit : splitSlash (joinSlash segments) = segments :=
    List.splitOn_intercalate slash h.noSlash hne
  rw [trimSlashes_of_ends]
  · exact hsplit
  · intro hhead
    obtain ⟨t, ht⟩ := List.head?_eq_some_iff.mp hhead
    apply h.head
    rw [← hsplit, ht]
    exact congrArg List.head? (List.splitOn_append_cons_self [] t)
  · intro hlast
    obtain ⟨t, ht⟩ := List.getLast?_eq_some_iff.mp hlast
    apply h.last
    rw [← hsplit, ht, splitSlash, List.splitOn_append_cons_self]
    simp

theorem getLast?_splitSlash {t : Bytes} {c : Byte} (hc : c ≠ slash) :
    (splitSlash (t ++ [c])).getLast? ≠ some [] := by
  induction t with
  | nil =>
    rw [splitSlash, List.nil_append, List.splitOn_cons_eq_if_modifyHead, if_neg (by simpa using hc)]
    simp
  | cons d t ih =>
    rw [splitSlash, List.cons_append, List.splitOn_cons_eq_if_modifyHead]
    rw [splitSlash] at ih
    rcases hsplit : (t ++ [c]).splitOn slash with _ | ⟨first, rest⟩
    · exact absurd hsplit (List.splitOn_ne_nil _ _)
    · rw [hsplit] at ih
      split
      · simpa using ih
      · rcases rest with _ | ⟨second, rest⟩
        · simp
        · simpa using ih

/-- The segments of a path are clean, if there are two of them. -/
theorem clean_splitSlash {path : Bytes} (h : 2 ≤ (splitSlash (trimSlashes path)).length) :
    Clean (splitSlash (trimSlashes path)) := by
  have hdrop : ∀ t : Bytes, (t.dropWhile (· = slash)).head? ≠ some slash := by
    intro t ht
    have hfalse := List.head?_dropWhile_not (fun c : Byte => decide (c = slash)) t
    rw [ht] at hfalse
    simp at hfalse
  refine ⟨slash_not_mem_splitSlash _, ?_, ?_⟩
  · have hstarts : trimSlashes path <+: path.dropWhile (· = slash) := by
      rw [trimSlashes, ← List.reverse_suffix, List.reverse_reverse]
      exact List.dropWhile_suffix _
    rcases htc : trimSlashes path with _ | ⟨c, t⟩
    · rw [htc] at h
      exact absurd h (by decide)
    · have hc : c ≠ slash := by
        rintro rfl
        obtain ⟨rest, hrest⟩ := hstarts
        apply hdrop path
        rw [← hrest, htc]
        rfl
      rw [splitSlash, List.splitOn_cons_eq_if_modifyHead, if_neg (by simpa using hc)]
      rcases t.splitOn slash with _ | ⟨first, rest⟩
      · simp
      · simp
  · intro hlast
    rcases List.eq_nil_or_concat (trimSlashes path) with hnil | ⟨t, c, htc⟩
    · rw [hnil] at h
      exact absurd h (by decide)
    · rw [htc, List.concat_eq_append] at hlast
      refine getLast?_splitSlash ?_ hlast
      rintro rfl
      apply hdrop (path.dropWhile (· = slash)).reverse
      rw [trimSlashes] at htc
      rw [← List.reverse_reverse (List.dropWhile _ _), htc]
      simp

/-! ## URLs -/

/-- A URL with the parts that `URL.String` writes. The user information and the fragment are left
out: nothing here reads or replaces them. -/
structure TargetURL extends URL where
  /-- `RawPath` -/
  rawPath : Bytes
  /-- `ForceQuery` -/
  forceQuery : Bool
  /-- it is absolute -/
  hasScheme : scheme ≠ []
  /-- it has an authority -/
  hasHost : host ≠ []
  deriving DecidableEq

/-- The bytes that `validEncoded` lets through in a path. -/
def validEncoded (rawPath : Bytes) : Bool :=
  rawPath.all fun c => pathMode.keep c || (ascii "!'()*[]%").contains c

namespace TargetURL

/-- `URL.EscapedPath` -/
def escapedPath (u : TargetURL) : Bytes :=
  if u.rawPath ≠ [] ∧ validEncoded u.rawPath = true ∧
      Percent.unescape false u.rawPath = some u.path then u.rawPath
  else if u.path = ascii "*" then ascii "*"
  else Percent.escape pathMode u.path

/-- `URL.String` puts a slash between the host and a path that has none. -/
def lead (u : TargetURL) : Bytes :=
  if u.escapedPath ≠ [] ∧ u.escapedPath.head? ≠ some slash then [slash] else []

/-- `URL.String` -/
def string (u : TargetURL) : Bytes :=
  (u.scheme ++ ascii "://" ++ u.host) ++ (u.lead ++ u.escapedPath ++
    if u.forceQuery = true ∨ u.rawQuery ≠ [] then questionMark :: u.rawQuery else [])

/-- `strings.Split(strings.Trim(target.Path, "/"), "/")` -/
def segments (u : TargetURL) : List Bytes := splitSlash (trimSlashes u.path)

variable {u v : TargetURL}

theorem unescape_escapedPath (u : TargetURL) :
    Percent.unescape false u.escapedPath = some u.path := by
  rw [escapedPath]
  split
  · next h => exact h.2.2
  · split
    · next h =>
      rw [h]
      decide
    · exact Percent.unescape_escape (m := pathMode) u.path

theorem questionMark_not_mem (u : TargetURL) : questionMark ∉ u.escapedPath := by
  rw [escapedPath]
  split
  · next h =>
    intro hmem
    have hvalid := List.all_eq_true.mp h.2.1 questionMark hmem
    revert hvalid
    decide
  · split
    · decide
    · intro hmem
      refine Percent.escape_forall (m := pathMode) (P := fun c => c ≠ questionMark) ?_ (by decide)
        (by decide) ?_ u.path questionMark hmem rfl
      · rintro c hc rfl
        revert hc
        decide
      · have hdigits : ∀ n < 16, Percent.hexDigit n ≠ questionMark := by decide
        exact hdigits

/-- The written path, with its slash, determines the segments. -/
theorem segments_eq (u : TargetURL) :
    ∃ p, Percent.unescape false (u.lead ++ u.escapedPath) = some p ∧
      splitSlash (trimSlashes p) = u.segments := by
  rw [lead]
  split
  · refine ⟨slash :: u.path, ?_, rfl⟩
    rw [List.singleton_append, Percent.unescape_cons (by decide), unescape_escapedPath]
    rfl
  · exact ⟨u.path, u.unescape_escapedPath, rfl⟩

/-- **URLs with one text**: they have the same segments and the same query. -/
theorem string_inj (hscheme : u.scheme = v.scheme) (hhost : u.host = v.host)
    (h : u.string = v.string) : u.segments = v.segments ∧ u.rawQuery = v.rawQuery := by
  rw [string, string, hscheme, hhost, List.append_cancel_left_eq] at h
  have hlead : ∀ u : TargetURL, questionMark ∉ u.lead ++ u.escapedPath := by
    intro u
    rw [List.mem_append, not_or]
    refine ⟨?_, u.questionMark_not_mem⟩
    rw [lead]
    split
    · decide
    · decide
  have hcut : ∀ u : TargetURL, Values.cut questionMark (u.lead ++ u.escapedPath ++
      if u.forceQuery = true ∨ u.rawQuery ≠ [] then questionMark :: u.rawQuery else []) =
        (u.lead ++ u.escapedPath, u.rawQuery) := by
    intro u
    split
    · exact Values.cut_append (hlead u)
    · next hnone =>
      rw [not_or, not_not] at hnone
      rw [List.append_nil, hnone.2, Values.cut, takeWhile_eq_self (hlead u),
        List.dropWhile_eq_nil_iff.mpr]
      · rfl
      · intro c hc
        exact decide_eq_true fun heq => hlead u (heq ▸ hc)
  obtain ⟨hpath, hquery⟩ := Prod.mk.inj ((hcut u).symm.trans ((congrArg _ h).trans (hcut v)))
  refine ⟨?_, hquery⟩
  obtain ⟨p, hp, hu⟩ := u.segments_eq
  obtain ⟨q, hq, hv⟩ := v.segments_eq
  rw [hpath, hq] at hp
  obtain rfl := Option.some.inj hp
  rw [← hu, ← hv]

end TargetURL

end IptvProxy.Catchup
