import Mathlib.Data.Int.Notation
import Mathlib.Data.List.Pairwise
import IptvProxy.Lib.Unicode

/-!
# Two route resolvers

A request path is resolved by `(*Resolver).Resolve` of `internal/routing/resolver.go`, which serves
the requests, and by `ProviderService.resolveProviderByPath` of `lib/services/provider.service.ts`,
which the admin interface asks. The first one compares the first segment, trimmed and in lower case,
with the routes; the second one trims the whole path, strips every leading slash, and normalises the
segment as it does with routes.

On a path that starts with one slash and does not end in white space they agree, unless the
normalised segment is a route and the segment in lower case is not (`resolvers_agree_iff`).

A path is a text of characters on both sides. Beyond ASCII the functions of the two runtimes are
parameters.
-/

namespace IptvProxy.Routing

open GoText Js

/-- An enabled provider. -/
structure Provider where
  /-- `id` -/
  id : Text
  /-- `route` -/
  route : Text
  /-- `is_default` -/
  isDefault : ℤ
  deriving DecidableEq

/-- `MatchType`, or `matchedBy` -/
inductive MatchType where
  | route
  | default
  deriving DecidableEq

/-- What is resolved. -/
structure Resolved where
  /-- `Provider` -/
  provider : Provider
  /-- `MatchedBy` -/
  matchedBy : MatchType
  /-- `RemainingPath` -/
  remainingPath : Text
  deriving DecidableEq

variable (U : Unicode)

/-! ## Resolver.Resolve -/

/-- `strings.Join(segments, "/")`, or `join('/')` -/
def join (segments : List Text) : Text := ['/'].intercalate segments

/-- The first segment, as it is compared. -/
def goWord (segment : Text) : Text := U.goLower (trimSpace segment)

/-- `Resolve`, with `none` for its errors -/
def resolve (providers : List Provider) (requestPath : Text) : Option Resolved :=
  if providers = [] then none
  else
    let segments := (trimPrefix requestPath).splitOn '/'
    let first := goWord U (segments.headD [])
    match providers.find? fun p => U.equalFold p.route first with
    | some p =>
      let remaining := join segments.tail
      some ⟨p, .route, if remaining = [] then ['/'] else '/' :: remaining⟩
    | none =>
      match providers.find? fun p => p.isDefault = 1 with
      | some p => some ⟨p, .default, if requestPath = [] then ['/'] else requestPath⟩
      | none => none

/-! ## ProviderService.resolveProviderByPath -/

/-- `[a-z0-9_-]` -/
def isRouteChar (c : Char) : Bool :=
  (97 ≤ c.toNat && c.toNat ≤ 122) || (48 ≤ c.toNat && c.toNat ≤ 57) || c = '_' || c = '-'

/-- A character is removed at both ends. -/
def strip (c : Char) (s : Text) : Text :=
  ((s.dropWhile (· = c)).reverse.dropWhile (· = c)).reverse

/-- Other characters, as many as there are, become a dash. The flag says that they have begun. -/
def replaceRuns (inside : Bool) : Text → Text
  | [] => []
  | c :: s =>
    if isRouteChar c then c :: replaceRuns false s
    else if inside then replaceRuns true s
    else '-' :: replaceRuns true s

/-- Two and more dashes become one. The flag says that the last character was a dash. -/
def collapse (afterDash : Bool) : Text → Text
  | [] => []
  | c :: s =>
    if c = '-' then if afterDash then collapse true s else '-' :: collapse true s
    else c :: collapse false s

/-- `normalizeRoute` after `trim` and `toLowerCase` -/
def normalizeLower (s : Text) : Text :=
  (strip '-' (collapse false (replaceRuns false (strip '/' s)))).take 64

/-- `normalizeRoute` -/
def normalizeRoute (route : Text) : Text := normalizeLower (U.jsLower (trim route))

/-- `resolveProviderByPath` -/
def resolveProviderByPath (providers : List Provider) (requestPath : Text) : Option Resolved :=
  let trimmed := (trim requestPath).dropWhile (· = '/')
  let segments := if trimmed = [] then [] else trimmed.splitOn '/'
  let firstSegment := match segments with
    | [] => []
    | s :: _ => if s = [] then [] else normalizeRoute U s
  let routed := if firstSegment = [] then none
    else providers.find? fun p => p.route = firstSegment
  match routed with
  | some p => some ⟨p, .route, '/' :: join segments.tail⟩
  | none =>
    match providers.find? fun p => p.isDefault = 1 with
    | some p => some ⟨p, .default, '/' :: trimmed⟩
    | none => none

/-! ## Routes -/

/-- The routes are distinct, not empty and normalised, and at most one provider is the default. -/
structure Routes (providers : List Provider) : Prop where
  /-- distinct -/
  distinct : providers.Pairwise fun p q => p.route ≠ q.route
  /-- not empty -/
  nonempty : ∀ p ∈ providers, p.route ≠ []
  /-- normalised -/
  normalized : ∀ p ∈ providers, normalizeRoute U p.route = p.route
  /-- one default -/
  oneDefault : providers.Pairwise fun p q => ¬(p.isDefault = 1 ∧ q.isDefault = 1)

/-- The first segment of a path after its slash. -/
def firstSegment (rest : Text) : Text := (rest.splitOn '/').headD []

variable {U} {s t : Text} {c : Char}

theorem mem_replaceRuns {b : Bool} (h : c ∈ replaceRuns b s) : isRouteChar c = true := by
  induction s generalizing b with
  | nil => cases h
  | cons d s ih =>
    rw [replaceRuns] at h
    split at h
    · next hd =>
      rcases List.mem_cons.mp h with rfl | h
      · exact hd
      · exact ih h
    · split at h
      · exact ih h
      · rcases List.mem_cons.mp h with rfl | h
        · decide
        · exact ih h

theorem mem_collapse {b : Bool} (h : c ∈ collapse b s) : c ∈ s := by
  induction s generalizing b with
  | nil => exact h
  | cons d s ih =>
    rw [collapse] at h
    split at h
    · next hd =>
      split at h
      · exact List.mem_cons_of_mem _ (ih h)
      · rcases List.mem_cons.mp h with rfl | h
        · rw [hd]
          exact List.mem_cons_self ..
        · exact List.mem_cons_of_mem _ (ih h)
    · rcases List.mem_cons.mp h with rfl | h
      · exact List.mem_cons_self ..
      · exact List.mem_cons_of_mem _ (ih h)

theorem mem_strip {d : Char} (h : c ∈ strip d s) : c ∈ s := by
  rw [strip, List.mem_reverse] at h
  have h := (List.dropWhile_sublist _).mem h
  rw [List.mem_reverse] at h
  exact (List.dropWhile_sublist _).mem h

theorem mem_normalizeLower (h : c ∈ normalizeLower s) : isRouteChar c = true :=
  mem_replaceRuns (mem_collapse (mem_strip (List.mem_of_mem_take h)))

theorem toNat_lt_of_isRouteChar (h : isRouteChar c = true) : c.toNat < 128 := by
  simp only [isRouteChar, Bool.or_eq_true, Bool.and_eq_true, decide_eq_true_eq] at h
  rcases h with ((h | h) | rfl) | rfl
  · omega
  · omega
  · decide
  · decide

theorem isSpace_eq_false_of_isRouteChar (h : isRouteChar c = true) : isSpace c = false :=
  @forall_ascii c (fun c => isRouteChar c = true → isSpace c = false) (by decide +kernel)
    (toNat_lt_of_isRouteChar h) h

theorem toLower_of_isRouteChar (h : isRouteChar c = true) : c.toLower = c :=
  @forall_ascii c (fun c => isRouteChar c = true → c.toLower = c) (by decide +kernel)
    (toNat_lt_of_isRouteChar h) h

/-! ## Agreement -/

theorem goWord_ascii (h : IsAscii s) : goWord U s = lowerAscii (trim s) := by
  rw [goWord, trimSpace_ascii h, U.goLower_ascii _ fun c hc => h c (mem_trim hc)]

/-- Normalisation begins with what the other resolver compares. -/
theorem normalizeRoute_ascii (h : IsAscii s) : normalizeRoute U s = normalizeLower (goWord U s) := by
  rw [normalizeRoute, U.jsLower_ascii _ fun c hc => h c (mem_trim hc), goWord_ascii h]

theorem lowerAscii_of_isRouteChar (h : ∀ c ∈ s, isRouteChar c = true) : lowerAscii s = s :=
  (List.map_congr_left (g := id) fun c hc => toLower_of_isRouteChar (h c hc)).trans (List.map_id s)

/-- A text of the characters that stay is already trimmed and in lower case. -/
theorem goWord_of_isRouteChar (h : ∀ c ∈ s, isRouteChar c = true) : goWord U s = s := by
  rw [goWord_ascii fun c hc => toNat_lt_of_isRouteChar (h c hc),
    trim_of_forall fun c hc => isSpace_eq_false_of_isRouteChar (h c hc),
    lowerAscii_of_isRouteChar h]

/-- It is only put together anew. -/
theorem normalizeRoute_of_isRouteChar (h : ∀ c ∈ s, isRouteChar c = true) :
    normalizeRoute U s = normalizeLower s := by
  rw [normalizeRoute_ascii fun c hc => toNat_lt_of_isRouteChar (h c hc), goWord_of_isRouteChar h]

/-- A normalised route consists of the characters that stay. -/
theorem isRouteChar_of_normalized (h : normalizeRoute U s = s) (hc : c ∈ s) :
    isRouteChar c = true := by
  rw [← h] at hc
  exact mem_normalizeLower hc

theorem isAscii_of_normalized (h : normalizeRoute U s = s) : IsAscii s :=
  fun _ hc => toNat_lt_of_isRouteChar (isRouteChar_of_normalized h hc)

theorem goWord_of_normalized (h : normalizeRoute U s = s) : goWord U s = s :=
  goWord_of_isRouteChar fun _ => isRouteChar_of_normalized h

theorem lowerAscii_of_normalized (h : normalizeRoute U s = s) : lowerAscii s = s :=
  lowerAscii_of_isRouteChar fun _ => isRouteChar_of_normalized h

theorem normalizeLower_of_normalized (h : normalizeRoute U s = s) : normalizeLower s = s := by
  rw [← normalizeRoute_of_isRouteChar fun _ => isRouteChar_of_normalized h, h]

/-- A segment matches a route if it is the route in lower case. -/
theorem equalFold_goWord (hs : IsAscii s) (ht : normalizeRoute U t = t) :
    U.equalFold t (goWord U s) = true ↔ t = goWord U s := by
  have htrim : IsAscii (trim s) := fun c hc => hs c (mem_trim hc)
  have hword : IsAscii (goWord U s) := by
    rw [goWord_ascii hs]
    exact isAscii_lowerAscii htrim
  rw [U.equalFold_ascii _ _ (isAscii_of_normalized ht) hword, lowerAscii_of_normalized ht,
    goWord_ascii hs, lowerAscii_idem htrim]

/-- What one resolver takes for a route, the other one normalises to it. -/
theorem normalizeRoute_of_goWord (hs : IsAscii s) (ht : normalizeRoute U t = t)
    (h : t = goWord U s) : t = normalizeRoute U s := by
  rw [normalizeRoute_ascii hs, ← h, normalizeLower_of_normalized ht]

section Resolvers

variable {providers : List Provider} {rest : Text}

/-- What both resolvers do with the provider of the route. -/
def finish (providers : List Provider) (rest : Text) : Option Provider → Option Resolved
  | some p => some ⟨p, .route, '/' :: join (rest.splitOn '/').tail⟩
  | none => (providers.find? fun p => p.isDefault = 1).map fun p => ⟨p, .default, '/' :: rest⟩

theorem resolve_eq (h : Routes U providers) (hascii : IsAscii (firstSegment rest)) :
    resolve U providers ('/' :: rest) =
      finish providers rest (providers.find? fun p => p.route = goWord U (firstSegment rest)) := by
  have hfind : (providers.find? fun p => U.equalFold p.route (goWord U (firstSegment rest))) =
      providers.find? fun p => p.route = goWord U (firstSegment rest) := by
    refine find_congr fun p hp => ?_
    rw [Bool.eq_iff_iff, decide_eq_true_eq]
    exact equalFold_goWord hascii (h.normalized p hp)
  have hremaining : ∀ s : Text, (if s = [] then ['/'] else '/' :: s) = '/' :: s := by
    intro s
    split
    · next hs => rw [hs]
    · rfl
  have htrim : trimPrefix ('/' :: rest) = rest := by rw [trimPrefix, if_pos rfl]
  have hpath : (if '/' :: rest = [] then ['/'] else '/' :: rest) = '/' :: rest :=
    if_neg (List.cons_ne_nil _ _)
  unfold resolve
  simp only [htrim, hremaining, hpath]
  change (if providers = [] then none else match providers.find? fun p =>
    U.equalFold p.route (goWord U (firstSegment rest)) with | some p => _ | none => _) = _
  rw [hfind]
  split
  · next hnil => rw [hnil]; rfl
  · cases providers.find? fun p => p.route = goWord U (firstSegment rest) with
    | some p => rfl
    | none =>
      rw [finish]
      cases providers.find? fun p => p.isDefault = 1 with
      | some p => rfl
      | none => rfl

theorem resolveProviderByPath_eq (h : Routes U providers) (hslash : rest.head? ≠ some '/')
    (htrim : trim ('/' :: rest) = '/' :: rest) : resolveProviderByPath U providers ('/' :: rest) =
      finish providers rest
        (providers.find? fun p => p.route = normalizeRoute U (firstSegment rest)) := by
  have hnil : normalizeRoute U [] = [] := by
    have hascii : IsAscii [] := fun _ hc => by cases hc
    rw [normalizeRoute_ascii hascii, goWord_ascii hascii]
    rfl
  have hrest : ('/' :: rest).dropWhile (· = '/') = rest := by
    rw [List.dropWhile_cons, if_pos (decide_eq_true rfl)]
    refine dropWhile_of_head fun c hc => ?_
    rw [decide_eq_false_iff_not]
    rintro rfl
    exact hslash hc
  -- no route is empty
  have hempty : (providers.find? fun p => p.route = []) = none := by
    rw [List.find?_eq_none]
    intro p hp
    rw [decide_eq_true_eq]
    exact h.nonempty p hp
  have hdefault : ∀ o : Option Provider, (match o with
      | some p => some (⟨p, .default, '/' :: rest⟩ : Resolved)
      | none => none) = o.map fun p => ⟨p, .default, '/' :: rest⟩ := by
    rintro (_ | p) <;> rfl
  unfold resolveProviderByPath
  simp only [htrim, hrest, hdefault]
  by_cases hnilRest : rest = []
  · subst hnilRest
    simp only [if_true, firstSegment, List.splitOn_nil, List.headD_cons, hnil, hempty]
    rfl
  · rw [if_neg hnilRest]
    cases hsplit : rest.splitOn '/' with
    | nil => exact absurd hsplit (List.splitOn_ne_nil _ _)
    | cons segment segments =>
      have hsegment : firstSegment rest = segment := by rw [firstSegment, hsplit]; rfl
      have hfirst : (if segment = [] then [] else normalizeRoute U segment) =
          normalizeRoute U segment := by
        split
        · next hs => rw [hs, hnil]
        · rfl
      have hrouted : (if normalizeRoute U segment = [] then none
          else providers.find? fun p => p.route = normalizeRoute U segment) =
          providers.find? fun p => p.route = normalizeRoute U segment := by
        split
        · next hn => rw [hn, hempty]
        · rfl
      simp only [hfirst, hsegment, hrouted]
      cases providers.find? fun p => p.route = normalizeRoute U segment with
      | some p => rw [finish, hsplit]
      | none => rw [finish]

/-- On a path that starts with exactly one slash, does not end in white space and has an ASCII word
as its first segment, the resolvers agree if and only if normalisation does not make a route of a
segment that is none in lower case. -/
theorem resolvers_agree_iff (h : Routes U providers) (hslash : rest.head? ≠ some '/')
    (htrim : trim ('/' :: rest) = '/' :: rest) (hascii : IsAscii (firstSegment rest)) :
    resolve U providers ('/' :: rest) = resolveProviderByPath U providers ('/' :: rest) ↔
      (normalizeRoute U (firstSegment rest) ∈ providers.map Provider.route →
        goWord U (firstSegment rest) = normalizeRoute U (firstSegment rest)) := by
  rw [resolve_eq h hascii, resolveProviderByPath_eq h hslash htrim]
  constructor
  · intro heq hroute
    obtain ⟨p, hp, hpn⟩ := List.mem_map.mp hroute
    -- the second resolver finds the route, so does the first one
    cases hn : providers.find? fun p => p.route = normalizeRoute U (firstSegment rest) with
    | none =>
      have := List.find?_eq_none.mp hn p hp
      exact absurd (decide_eq_true hpn) this
    | some q =>
      rw [hn] at heq
      cases hw : providers.find? fun p => p.route = goWord U (firstSegment rest) with
      | none =>
        rw [hw, finish, finish] at heq
        obtain ⟨d, -, hd⟩ := Option.map_eq_some_iff.mp heq
        cases hd
      | some q' =>
        rw [hw, finish, finish] at heq
        have hqq : q' = q := congrArg Resolved.provider (Option.some.inj heq)
        have hq : q.route = normalizeRoute U (firstSegment rest) := by simpa using List.find?_some hn
        have hq' : q'.route = goWord U (firstSegment rest) := by simpa using List.find?_some hw
        rw [← hq, ← hq', hqq]
  · intro hroute
    have hfind : (providers.find? fun p => p.route = goWord U (firstSegment rest)) =
        providers.find? fun p => p.route = normalizeRoute U (firstSegment rest) := by
      refine find_congr fun p hp => ?_
      rw [Bool.eq_iff_iff, decide_eq_true_eq, decide_eq_true_eq]
      constructor
      · exact normalizeRoute_of_goWord hascii (h.normalized p hp)
      · intro hn
        rw [hn]
        exact (hroute (List.mem_map.mpr ⟨p, hp, hn⟩)).symm
    rw [hfind]

end Resolvers

/-! ### Two paths -/

/-- A provider with a route, and one that is the default. -/
def twoProviders : List Provider := [⟨"1".toList, "sports".toList, 0⟩, ⟨"2".toList, "news".toList, 1⟩]

theorem routes_twoProviders : Routes asciiOnly twoProviders where
  distinct := by decide
  nonempty := by decide
  normalized := by decide +kernel
  oneDefault := by decide

theorem resolvers_agree_sports : resolve asciiOnly twoProviders "/Sports/get.php".toList =
    resolveProviderByPath asciiOnly twoProviders "/Sports/get.php".toList :=
  (@resolvers_agree_iff asciiOnly twoProviders "Sports/get.php".toList routes_twoProviders
    (by decide) (by decide) (by decide +kernel)).mpr (by decide +kernel)

/-- Normalisation makes a route of the first segment; one resolver keeps a second slash and white
space at the end. -/
theorem resolvers_disagree : Routes asciiOnly twoProviders ∧
    ∀ path ∈ ["/sports!/get.php".toList, "//get.php".toList, "/get.php ".toList],
      resolve asciiOnly twoProviders path ≠ resolveProviderByPath asciiOnly twoProviders path :=
  ⟨routes_twoProviders, by decide +kernel⟩

end IptvProxy.Routing
