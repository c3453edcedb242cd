import IptvProxy.Lib.DotSegments
import IptvProxy.Xtream.Authentication

/-!
# Where an accepted request goes

The deny list is asked about the first segments of the path as the client wrote it. The provider's
server acts on the path after dot segments are resolved and empty segments collapsed, and with the
provider's credentials in place of the client's. Which segment comes first there is a matter of
counting on the request (`staysBelow_iff`): it is the first one with a name that no stretch behind
it takes back, and a stretch takes it back if it has more `..` than other segments.
-/

namespace IptvProxy.Xtream

open DotSegments

variable {L : Library} {p : Provider}

/-! ## Paths as the provider's server reads them -/

/-- `.` -/
def isDot (s : Bytes) : Bool := s = ascii "."

/-- `..` -/
def isDotDot (s : Bytes) : Bool := s = ascii ".."

/-- Empty segments collapsed. -/
def collapse (segments : List Bytes) : List Bytes := segments.filter (· ≠ [])

/-- The segments of a path after dot-segment removal, where `..` removes an empty segment like any
other, and collapsing of the empty segments that are left. -/
def normalise (path : Bytes) : List Bytes := collapse (resolve isDot isDotDot [] (splitSlash path))

example : normalise (ascii "/live/../admin_api.php//..") = [ascii "admin_api.php"] ∧
    normalise (ascii "/live//../admin_api.php") = [ascii "live", ascii "admin_api.php"] := by
  decide

/-- The routes the deny list is about, without regard to case: the listed first segments, and
`server/load.php`. -/
def isManagement (L : Library) : List Bytes → Bool
  | [] => false
  | part :: parts =>
    decide (L.toLower part ∈ blockedXtreamRoutes) ||
      decide (L.toLower part = ascii "server") && match parts with
        | [next] => L.equalFold next (ascii "load.php")
        | _ => false

/-- The path stays below the base path and does not lead to a management route there. -/
def staysBelow (L : Library) (base path : Bytes) : Bool :=
  (normalise base).isPrefixOf (normalise path) &&
    !isManagement L ((normalise path).drop (normalise base).length)

/-! ## The forwarded path -/

/-- The path segments with the provider's credentials in place of every recognised pair. -/
def substitute (p : Provider) : List Bytes → List Bytes
  | [] => []
  | [segment] => [segment]
  | segment :: next :: segments =>
    if providerHasClientUsername p segment then
      p.upstreamUsername :: p.upstreamPassword :: substitute p segments
    else segment :: substitute p (next :: segments)

/-- The segments of a request: those of the client, and where it wrote a pair, those of the
provider's user name and password. -/
def requested (p : Provider) (remaining : Bytes) : List Bytes :=
  (substitute p (splitSlash (trimPrefixSlash remaining))).flatMap splitSlash

/-- The part of the base path that is left when it is climbed by this many segments, and the part
that is climbed over. -/
def climbed (base : Bytes) (n : ℕ) : List Bytes × List Bytes :=
  let segments := stands isDot isDotDot (splitSlash (trimSuffixSlash base))
  (collapse (segments.take (segments.length - n)), collapse (segments.drop (segments.length - n)))

/-- The condition on the segments of a request: where they climb out of the base path they come back
along the same names, and the names that follow, those that no stretch behind them takes back, are
not denied. -/
def leadsBelow (L : Library) (base : Bytes) (segments : List Bytes) : Bool :=
  let back := (climbed base (climbs isDot isDotDot segments)).2
  let names := collapse (stands isDot isDotDot segments)
  back.isPrefixOf names && !isManagement L (names.drop back.length)

theorem translatePath_segments {segments translated : List Bytes} {selected user : User}
    {first : Option ℕ} (h : translatePath L p segments selected = .ok (translated, user, first)) :
    translated = substitute p segments := by
  induction segments using substitute.induct p generalizing selected translated user first with
  | case1 => cases h; rfl
  | case2 => cases h; rfl
  | case3 segment next segments hknown ih =>
    simp only [translatePath, hknown, if_true] at h
    rw [substitute, if_pos hknown]
    rcases hpair : checkPair L p selected segment next with e | u <;> rw [hpair] at h
    · cases h
    · dsimp only at h
      rcases hrest : translatePath L p segments u with e | ⟨rest, u', first'⟩
      · rw [hrest] at h
        cases h
      · rw [hrest] at h
        cases h
        rw [ih hrest]
  | case4 segment next segments hknown ih =>
    simp only [translatePath, hknown, Bool.false_eq_true, if_false] at h
    rw [substitute, if_neg hknown]
    rcases hrest : translatePath L p (next :: segments) selected with e | ⟨rest, u', first'⟩
    · rw [hrest] at h
      cases h
    · rw [hrest] at h
      cases h
      rw [ih hrest]

/-- The path of the URL that is built. -/
theorem path_of_build {remaining : Bytes} {r : Request} {t : Translated} {base : URL}
    (hbase : L.parseURL (trimSuffixSlash p.host) = some base)
    (h : buildTransparentUpstreamURL L p remaining r = .ok t) :
    t.url.path = trimSuffixSlash base.path ++
      slash :: joinSlash (substitute p (splitSlash (trimPrefixSlash remaining))) := by
  obtain ⟨a⟩ := accepted_of_build h
  obtain rfl := Option.some.inj (hbase.symm.trans a.hbase)
  rw [a.hurl, translatePath_segments a.hpath]

theorem splitSlash_join (xs ys : Bytes) :
    splitSlash (xs ++ slash :: ys) = splitSlash xs ++ splitSlash ys :=
  List.splitOn_append_cons_self xs ys

theorem splitSlash_flatMap {segments : List Bytes} (h : segments ≠ []) :
    splitSlash (joinSlash segments) = segments.flatMap splitSlash := by
  induction segments with
  | nil => exact absurd rfl h
  | cons s segments ih =>
    rcases segments with _ | ⟨s', segments⟩
    · simp [joinSlash]
    · have hjoin : joinSlash (s :: s' :: segments) =
          s ++ slash :: joinSlash (s' :: segments) := by
        simp [joinSlash, List.intercalate]
      rw [hjoin, splitSlash_join, ih (List.cons_ne_nil _ _)]
      rfl

theorem substitute_ne_nil (p : Provider) {segments : List Bytes} (h : segments ≠ []) :
    substitute p segments ≠ [] := by
  rcases segments with _ | ⟨s, _ | ⟨s', segments⟩⟩
  · exact absurd rfl h
  · exact List.cons_ne_nil _ _
  · rw [substitute]
    split <;> exact List.cons_ne_nil _ _

/-- A slash at the end of the base path makes no difference. -/
theorem normalise_trimSuffixSlash (path : Bytes) :
    normalise (trimSuffixSlash path) = normalise path := by
  rcases List.eq_nil_or_concat path with rfl | ⟨s, c, rfl⟩
  · rfl
  · rw [List.concat_eq_append]
    simp only [trimSuffixSlash, List.reverse_append, List.reverse_singleton,
      List.singleton_append, trimPrefixSlash]
    split
    · next hc =>
      have hsplit : splitSlash (s ++ [c]) = splitSlash s ++ [[]] := by
        rw [hc]
        exact List.splitOn_append_cons_self s []
      rw [List.reverse_reverse, normalise, normalise, hsplit, resolve_append]
      simp [resolve_cons, push, isDot, isDotDot, ascii, collapse]
    · simp

/-- The base path, climbed over or not. -/
theorem climbed_append (base : Bytes) (n : ℕ) :
    (climbed base n).1 ++ (climbed base n).2 = normalise base := by
  rw [← normalise_trimSuffixSlash base, normalise, resolve_empty, climbed, collapse, collapse,
    collapse, ← List.filter_append, List.take_append_drop]

/-- **Where a path leads**: as much of the base path as the segments behind it leave, and then the
names among them that stand. -/
theorem normalise_join (base rest : Bytes) :
    normalise (trimSuffixSlash base ++ slash :: rest) =
      (climbed base (climbs isDot isDotDot (splitSlash rest))).1 ++
        collapse (stands isDot isDotDot (splitSlash rest)) := by
  rw [normalise, splitSlash_join, resolve_append, resolve_empty, resolve_eq, collapse,
    List.filter_append]
  rfl

/-- The names on the path of the URL that is built. -/
theorem normalise_of_build {remaining : Bytes} {r : Request} {t : Translated} {base : URL}
    (hbase : L.parseURL (trimSuffixSlash p.host) = some base)
    (h : buildTransparentUpstreamURL L p remaining r = .ok t) :
    normalise t.url.path =
      (climbed base.path (climbs isDot isDotDot (requested p remaining))).1 ++
        collapse (stands isDot isDotDot (requested p remaining)) := by
  have hne : substitute p (splitSlash (trimPrefixSlash remaining)) ≠ [] :=
    substitute_ne_nil p (List.splitOn_ne_nil _ _)
  rw [path_of_build hbase h, normalise_join, splitSlash_flatMap hne]
  rfl

/-- **No tunnel, exactly when**: an accepted request stays below the provider's base path and off
its management routes if and only if its segments come back to the base path where they leave it,
and the first names that stand are not denied. -/
theorem staysBelow_iff {remaining : Bytes} {r : Request} {t : Translated} {base : URL}
    (hbase : L.parseURL (trimSuffixSlash p.host) = some base)
    (h : buildTransparentUpstreamURL L p remaining r = .ok t) :
    staysBelow L base.path t.url.path = true ↔
      leadsBelow L base.path (requested p remaining) = true := by
  have hsplit := climbed_append base.path (climbs isDot isDotDot (requested p remaining))
  rw [staysBelow, leadsBelow, normalise_of_build hbase h, ← hsplit, List.length_append,
    ← List.drop_drop, List.drop_left]
  simp only [Bool.and_eq_true, List.isPrefixOf_iff_prefix, List.prefix_append_right_inj]

/-- Without dot segments the condition is about the first names of the path alone. -/
theorem leadsBelow_of_plain {segments : List Bytes}
    (h : ∀ s ∈ segments, isDot s = false ∧ isDotDot s = false) (base : Bytes) :
    leadsBelow L base segments = !isManagement L (collapse segments) := by
  rw [leadsBelow, climbs_of_down h, stands_of_down h]
  simp [climbed, collapse]

/-- A client of a provider whose host has a base path. -/
def basePathLibrary : Library :=
  { asciiLibrary with
    parseURL := fun s => if s = ascii "http://upstream" then
      some ⟨ascii "http", ascii "upstream", ascii "/panel", []⟩ else none }

/-- A client with valid credentials reaches the management API of the provider behind a dot
segment. -/
theorem dot_segment_reaches_management :
    (buildTransparentUpstreamURL asciiLibrary (sampleProvider [sampleUser "1" "bob" "a"])
      (ascii "/live/../admin_api.php") (getRequest "username=bob&password=a")).toOption.map
        (fun t => (t.url.path, staysBelow asciiLibrary [] t.url.path)) =
      some (ascii "/live/../admin_api.php", false) ∧
    normalise (ascii "/live/../admin_api.php") = [ascii "admin_api.php"] := by
  decide

/-- A stream below a base path, with a harmless dot segment. -/
theorem staysBelow_iff_sample :
    ∃ t, buildTransparentUpstreamURL basePathLibrary (sampleProvider [sampleUser "1" "bob" "a"])
        (ascii "/x/../live/bob/a/7.ts") (getRequest "") = .ok t ∧
      (staysBelow basePathLibrary (ascii "/panel") t.url.path = true ↔
        leadsBelow basePathLibrary (ascii "/panel")
          (requested (sampleProvider [sampleUser "1" "bob" "a"])
            (ascii "/x/../live/bob/a/7.ts")) = true) := by
  have hok : (buildTransparentUpstreamURL basePathLibrary
      (sampleProvider [sampleUser "1" "bob" "a"]) (ascii "/x/../live/bob/a/7.ts")
      (getRequest "")).isOk = true := by decide
  rcases hb : buildTransparentUpstreamURL basePathLibrary
      (sampleProvider [sampleUser "1" "bob" "a"]) (ascii "/x/../live/bob/a/7.ts")
      (getRequest "") with e | t
  · rw [hb] at hok
    cases hok
  · have hbase : basePathLibrary.parseURL (trimSuffixSlash
        (sampleProvider [sampleUser "1" "bob" "a"]).host) =
          some ⟨ascii "http", ascii "upstream", ascii "/panel", []⟩ := by decide
    exact ⟨t, rfl, staysBelow_iff hbase hb⟩

end IptvProxy.Xtream
