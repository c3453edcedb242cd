import Mathlib.Data.List.Nodup
import IptvProxy.Lib.Words
import IptvProxy.Routing.Agreement

/-!
# Canonical routes

`normalizeRoute` of `lib/services/provider.service.ts` joins the words of a route with dashes
(`normalizeRoute_eq`) and then cuts the text off behind 64 characters. Where the cut is behind a
dash, the dash stays, and normalising once more takes it away
(`normalizeRoute_normalizeRoute_iff`).

Both resolvers find a canonical route, whatever follows it in the path (`Routes.selects`).
-/

namespace IptvProxy.Routing

open GoText Js

variable (U : Unicode)

/-- `[a-z0-9_]` -/
def isWordChar (c : Char) : Bool := isRouteChar c && c ≠ '-'

/-- The words of a route, with dashes between them. -/
def routeText (route : Text) : Text := Words.joined isWordChar '-' (U.jsLower (trim route))

/-- A route is not cut off behind a dash. -/
def Whole (route : Text) : Prop := (routeText U route)[63]? ≠ some '-'

instance (route : Text) : Decidable (Whole U route) := instDecidableNot

/-- A path that begins with a route. -/
def routePath (route suffix : Text) : Text := '/' :: (route ++ '/' :: suffix)

/-- Both resolvers select the provider for the path, because of its route. -/
structure Selects (providers : List Provider) (p : Provider) (path : Text) : Prop where
  /-- `Resolve` -/
  resolve : ∃ remaining, resolve U providers path = some ⟨p, .route, remaining⟩
  /-- `resolveProviderByPath` -/
  resolveProviderByPath : ∃ remaining,
    resolveProviderByPath U providers path = some ⟨p, .route, remaining⟩

variable {U} {s t : Text} {c : Char}

/-! ## The normal form -/

theorem isWordChar_dash : isWordChar '-' = false := by decide

theorem isWordChar_of_eq_slash (c : Char) (h : decide (c = '/') = true) : isWordChar c = false := by
  rw [of_decide_eq_true h]
  decide

/-- The two replacements go through the text together. -/
theorem collapse_replaceRuns {inside afterDash : Bool} (h : inside = true → afterDash = true) :
    collapse afterDash (replaceRuns inside s) = Words.squeeze isWordChar '-' afterDash s := by
  induction s generalizing inside afterDash with
  | nil => rfl
  | cons c s ih =>
    rw [replaceRuns, Words.squeeze]
    cases hc : isRouteChar c with
    | true =>
      rw [if_pos rfl, collapse]
      by_cases hdash : c = '-'
      · have hword : isWordChar c = false := by rw [hdash, isWordChar_dash]
        rw [if_pos hdash, hword, if_neg Bool.false_ne_true, @ih false true fun _ => rfl]
      · have hword : isWordChar c = true := by rw [isWordChar, hc, decide_eq_true hdash]; rfl
        rw [if_neg hdash, hword, if_pos rfl, @ih false false id]
    | false =>
      have hword : isWordChar c = false := by rw [isWordChar, hc]; rfl
      rw [if_neg Bool.false_ne_true, hword, if_neg Bool.false_ne_true]
      cases inside with
      | true =>
        rw [if_pos rfl, h rfl, if_pos rfl, ih fun _ => rfl]
      | false =>
        rw [if_neg Bool.false_ne_true, collapse, if_pos rfl, ih fun _ => rfl]

/-- **The words with dashes between them, cut off.** -/
theorem normalizeLower_eq (s : Text) :
    normalizeLower s = (Words.joined isWordChar '-' s).take 64 := by
  have hstrip (c : Char) (s : Text) : strip c s = (s.dropWhile (· = c)).rdropWhile (· = c) := rfl
  rw [normalizeLower, @collapse_replaceRuns _ false false id, hstrip '-',
    Words.dropWhile_squeeze isWordChar_dash, Words.rdropWhile_squeeze isWordChar_dash, Words.joined,
    hstrip '/', Words.words_rdropWhile isWordChar_of_eq_slash,
    Words.words_dropWhile isWordChar_of_eq_slash, Words.joined]

theorem normalizeRoute_eq (route : Text) :
    normalizeRoute U route = (routeText U route).take 64 :=
  normalizeLower_eq _

/-- **A normalised route is canonical** exactly if it is not cut off behind a dash. -/
theorem normalizeRoute_normalizeRoute_iff (U : Unicode) (route : Text) :
    normalizeRoute U (normalizeRoute U route) = normalizeRoute U route ↔ Whole U route := by
  have hchars : ∀ c ∈ normalizeRoute U route, isRouteChar c = true := fun _ => mem_normalizeLower
  rw [normalizeRoute_of_isRouteChar hchars, normalizeLower_eq, normalizeRoute_eq, Whole, routeText,
    ← Words.joined_take_iff isWordChar_dash 63]
  -- the front is not longer without its dash
  have hshort : (Words.joined isWordChar '-'
      ((Words.joined isWordChar '-' (U.jsLower (trim route))).take 64)).length ≤ 64 := by
    rw [Words.joined_take isWordChar_dash]
    exact (List.rdropWhile_prefix ..).length_le.trans (List.length_take_le ..)
  rw [List.take_of_length_le hshort]

/-! ## The resolvers -/

section Resolvers

variable {providers : List Provider} {p : Provider} {route : Text}

theorem Routes.perm {others : List Provider} (h : Routes U providers)
    (hperm : others.Perm providers) : Routes U others where
  distinct := (hperm.pairwise_iff fun hne heq => hne heq.symm).mpr h.distinct
  nonempty p hp := h.nonempty p (hperm.mem_iff.mp hp)
  normalized p hp := h.normalized p (hperm.mem_iff.mp hp)
  oneDefault := (hperm.pairwise_iff fun hne hboth => hne hboth.symm).mpr h.oneDefault

/-- The provider is the one with its route. -/
theorem Routes.find_eq (h : Routes U providers) (hp : p ∈ providers) :
    (providers.find? fun q => q.route = p.route) = some p := by
  cases hfind : providers.find? fun q => q.route = p.route with
  | none => exact absurd (decide_eq_true rfl) (List.find?_eq_none.mp hfind p hp)
  | some q =>
    have hroute : q.route = p.route := of_decide_eq_true (List.find?_some hfind :)
    have hnodup : (providers.map Provider.route).Nodup := List.pairwise_map.mpr h.distinct
    exact congrArg some
      (List.inj_on_of_nodup_map hnodup (List.mem_of_find?_eq_some hfind) hp hroute)

theorem slash_not_mem (h : normalizeRoute U route = route) : '/' ∉ route := by
  intro hslash
  have hchar := isRouteChar_of_normalized h hslash
  exact absurd hchar (by decide)

theorem splitOn_routePath (h : normalizeRoute U route = route) (suffix : Text) :
    (route ++ '/' :: suffix).splitOn '/' = route :: suffix.splitOn '/' :=
  List.splitOn_append_cons_self_of_not_mem (slash_not_mem h) suffix

theorem trimEnd_append_cons (h : isSpace c = false) (s t : Text) :
    trimEnd (s ++ c :: t) = s ++ c :: trimEnd t := by
  induction s with
  | nil => exact Words.rdropWhile_cons (.inl h)
  | cons a s ih =>
    have hne : trimEnd (s ++ c :: t) ≠ [] := by
      rw [ih]
      exact List.append_ne_nil_of_right_ne_nil _ (List.cons_ne_nil _ _)
    exact (Words.rdropWhile_cons (.inr hne)).trans (congrArg (a :: ·) ih)

/-- White space is taken away behind the slash only. -/
theorem trim_routePath (route suffix : Text) :
    trim (routePath route suffix) = routePath route (trimEnd suffix) := by
  have hslash : isSpace '/' = false := by decide
  have hstart : trimStart (routePath route suffix) = routePath route suffix :=
    List.dropWhile_cons_of_neg (by rw [hslash]; exact Bool.false_ne_true)
  rw [trim, hstart]
  exact trimEnd_append_cons hslash ('/' :: route) suffix

theorem Routes.selects (h : Routes U providers) (hp : p ∈ providers) (suffix : Text) :
    Selects U providers p (routePath p.route suffix) where
  resolve := by
    have hfirst : firstSegment (p.route ++ '/' :: suffix) = p.route := by
      rw [firstSegment, splitOn_routePath (h.normalized p hp)]
      rfl
    refine ⟨'/' :: join ((p.route ++ '/' :: suffix).splitOn '/').tail, ?_⟩
    rw [routePath, resolve_eq h (by rw [hfirst]; exact isAscii_of_normalized (h.normalized p hp)),
      hfirst, goWord_of_normalized (h.normalized p hp), h.find_eq hp, finish]
  resolveProviderByPath := by
    have htrimmed : (trim (routePath p.route suffix)).dropWhile (· = '/') =
        p.route ++ '/' :: trimEnd suffix := by
      rw [trim_routePath, routePath, List.dropWhile_cons_of_pos (by decide)]
      refine dropWhile_of_head fun c hc => decide_eq_false ?_
      rw [List.head?_append_of_ne_nil _ (h.nonempty p hp)] at hc
      rintro rfl
      exact slash_not_mem (h.normalized p hp) (List.mem_of_mem_head? hc)
    refine ⟨'/' :: join ((trimEnd suffix).splitOn '/'), ?_⟩
    have hne : p.route ++ '/' :: trimEnd suffix ≠ [] :=
      List.append_ne_nil_of_left_ne_nil (h.nonempty p hp) _
    have hword : (if p.route = [] then [] else normalizeRoute U p.route) = p.route := by
      rw [if_neg (h.nonempty p hp), h.normalized p hp]
    have hrouted : (if p.route = [] then none
        else providers.find? fun q => q.route = p.route) = some p := by
      rw [if_neg (h.nonempty p hp), h.find_eq hp]
    rw [resolveProviderByPath]
    simp only [htrimmed]
    rw [if_neg hne, splitOn_routePath (h.normalized p hp)]
    simp only [hword, hrouted]
    rfl

end Resolvers

end IptvProxy.Routing
