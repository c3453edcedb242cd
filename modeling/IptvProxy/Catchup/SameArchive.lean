import IptvProxy.Catchup.Description

/-!
# Candidates ask for the same archive

`sameArchive_iff`: the candidates of a target describe the fields of the target and the instant of
its start if and only if the start is a whole hour in UTC and the fields can stand in both
layouts, as far as candidates in other spellings are built at all. Two of the spellings have no
minutes, so half of the archive is asked for in its place (`compact_hour_drops_minutes`).
-/

namespace IptvProxy.Catchup

open Xtream Timestamps

/-- The same start: the same text, or the same instant. -/
def SameStart (start start' : Bytes) : Prop :=
  start' = start ∨ ∃ t t', parseCatchupStart start = some t ∧ parseCatchupStart start' = some t' ∧
    t'.instant = t.instant

/-- The URL describes the same archive. -/
def Asks (d : Descriptor) (u : TargetURL) : Prop :=
  ∃ d', describeCatchupTarget u = some d' ∧ SameFields d d' ∧ SameStart d.start d'.start

/-- What the candidates of a target are for. -/
structure SameArchive (target : TargetURL) (preferred : Bytes) (d : Descriptor)
    (candidates : List Candidate) : Prop where
  /-- every candidate asks for the same archive -/
  asks : ∀ c ∈ candidates, Asks d c.url
  /-- the target is one of them -/
  original : ∃ c ∈ candidates, c.url.string = target.string
  /-- no two are equal -/
  nodup : (candidates.map fun c => c.url.string).Nodup
  /-- the preferred format comes first, if it can be built -/
  first : ∀ u, preferred ≠ [] → buildCatchupCandidateURL d preferred = some u →
    candidates.head? = some ⟨u, preferred⟩

/-- A whole hour in UTC. -/
structure WholeHour (t : Time) : Prop where
  /-- no minutes -/
  minute : t.minute = 0
  /-- no seconds -/
  second : t.second = 0
  /-- no fraction -/
  nanos : t.nanos = 0
  /-- UTC -/
  offset : t.offset = 0

/-- When the candidates ask for the same archive. -/
structure Respelled (d : Descriptor) (preferred : Bytes) : Prop where
  /-- a start that is read is a whole hour, and the fields can stand in both layouts -/
  parsed : ∀ t, parseCatchupStart d.start = some t → WholeHour t ∧ PathSafe d ∧ QuerySafe d
  /-- the start as it is can stand in a path -/
  pathOriginal : preferred = ascii "path_original" → PathSafe d ∧ slash ∉ d.start
  /-- the fields can stand in a query -/
  queryOriginal : preferred = ascii "query_original" → QuerySafe d

/-! ## Starts -/

/-- The spellings of a start. -/
def spellings : List (List Chunk) := [colonDash, underscore, compactHour, colonSeconds, sql]

variable {t : Time} {L : List Chunk} {format : Bytes}

theorem mem_spellings (h : layoutOf format = some L) : L ∈ spellings := by
  rw [layoutOf] at h
  split_ifs at h
  all_goals
    obtain rfl := Option.some.inj h
    decide

theorem solid_digit : ∀ n < 10, solid (digit n) = true := by decide

theorem head?_format (h : L ∈ spellings) (t : Time) :
    (Timestamps.format L t).head? = some (digit (t.year / 100 / 10)) := by
  fin_cases h <;> rfl

theorem getLast?_format (h : L ∈ spellings) (t : Time) :
    ∃ n, (Timestamps.format L t).getLast? = some (digit (n % 10)) := by
  fin_cases h
  · exact ⟨t.minute, rfl⟩
  · exact ⟨t.minute, rfl⟩
  · exact ⟨t.hour, rfl⟩
  · exact ⟨t.second, rfl⟩
  · exact ⟨t.second, rfl⟩

theorem trimSpace_format (h : L ∈ spellings) (ht : t.Valid) :
    trimSpace (Timestamps.format L t) = Timestamps.format L t := by
  obtain ⟨n, hlast⟩ := getLast?_format h t
  have hyear := ht.year
  exact trimSpace_of_solid (solid_digit _ (by omega)) (solid_digit _ (by omega))
    (head?_format h t) hlast

theorem format_ne_nil (h : L ∈ spellings) (t : Time) : Timestamps.format L t ≠ [] := by
  intro hnil
  have hhead := head?_format h t
  rw [hnil] at hhead
  cases hhead

/-- A spelling is read by its own layout. -/
theorem parse_spelling (h : L ∈ spellings) (ht : t.Valid) :
    Timestamps.parse L (Timestamps.format L t) = some (keep L t .zero) := by
  apply parse_format _ ht
  all_goals fin_cases h <;> rfl

theorem slash_not_mem_format (h : L ∈ spellings) (ht : t.Valid) :
    slash ∉ Timestamps.format L t := by
  refine not_mem_of_parse (by decide) ?_ (parse_spelling h ht)
  revert L
  decide

/-- `2006-01-02` -/
def date : List Chunk := [.year, .lit 45, .month, .lit 45, .day]

/-- No layout that is tried earlier accepts a spelling. -/
theorem parse_earlier (ht : t.Valid) :
    Timestamps.parse colonDash (Timestamps.format underscore t) = none ∧
    Timestamps.parse colonDash (Timestamps.format compactHour t) = none ∧
    Timestamps.parse underscore (Timestamps.format compactHour t) = none ∧
    Timestamps.parse colonDash (Timestamps.format colonSeconds t) = none ∧
    Timestamps.parse underscore (Timestamps.format colonSeconds t) = none ∧
    Timestamps.parse compactHour (Timestamps.format colonSeconds t) = none ∧
    Timestamps.parse colonDash (Timestamps.format sql t) = none ∧
    Timestamps.parse underscore (Timestamps.format sql t) = none ∧
    Timestamps.parse compactHour (Timestamps.format sql t) = none ∧
    Timestamps.parse colonSeconds (Timestamps.format sql t) = none ∧
    Timestamps.parse colonMinutes (Timestamps.format sql t) = none := by
  have hmonth : digit (t.month / 10) ≠ 45 := by
    intro h
    have hdigit := digit?_digit (t.month / 10) (by have := ht.month.2; omega)
    rw [h] at hdigit
    cases hdigit
  -- a layout and a text part after the year, after the date or after the hour
  refine ⟨?_, ?_, ?_, ?_, ?_, ?_, ?_, ?_, ?_, ?_, ?_⟩
  · exact parse_of_lit (P := date) [.hour, .lit 45, .minute] rfl ht (c := 95) (by decide)
  · exact parse_of_lit (P := [.year]) _ rfl ht hmonth
  · exact parse_of_lit (P := [.year]) _ rfl ht hmonth
  · exact parse_of_lit (P := date ++ [.lit 58, .hour]) (b := 45) [.minute] rfl ht (c := 58)
      (by decide)
  · exact parse_of_lit (P := date) [.hour, .lit 45, .minute] rfl ht (c := 58) (by decide)
  · exact parse_of_month (P := [.year]) [.day, .lit 45, .hour] rfl ht (c := 45) (by decide)
  · exact parse_of_lit (P := date) [.hour, .lit 45, .minute] rfl ht (c := 32) (by decide)
  · exact parse_of_lit (P := date) [.hour, .lit 45, .minute] rfl ht (c := 32) (by decide)
  · exact parse_of_month (P := [.year]) [.day, .lit 45, .hour] rfl ht (c := 45) (by decide)
  · exact parse_of_lit (P := date) [.hour, .lit 58, .minute, .lit 58, .second] rfl ht (c := 32)
      (by decide)
  · exact parse_of_lit (P := date) [.hour, .lit 58, .minute] rfl ht (c := 32) (by decide)

/-- **A spelling is read as what it says.** -/
theorem parseCatchupStart_format (h : L ∈ spellings) (ht : t.Valid) :
    parseCatchupStart (Timestamps.format L t) = some (keep L t .zero) := by
  have hself := parse_spelling h ht
  obtain ⟨h1, h2, h3, h4, h5, h6, h7, h8, h9, h10, h11⟩ := parse_earlier ht
  rw [parseCatchupStart, trimSpace_format h ht]
  fin_cases h
  · simp only [startLayouts, List.findSome?_cons, hself]
  · simp only [startLayouts, List.findSome?_cons, hself, h1]
  · simp only [startLayouts, List.findSome?_cons, hself, h2, h3]
  · simp only [startLayouts, List.findSome?_cons, hself, h4, h5, h6]
  · simp only [startLayouts, List.findSome?_cons, hself, h7, h8, h9, h10, h11]

/-- A time that is read is valid. -/
theorem valid_of_parseCatchupStart {start : Bytes} (h : parseCatchupStart start = some t) :
    t.Valid := by
  obtain ⟨L, -, hL⟩ := List.exists_of_findSome?_eq_some h
  exact valid_of_parse hL

/-- A spelling of a whole hour says all of it. -/
theorem keep_of_wholeHour (h : L ∈ spellings) (ht : WholeHour t) : keep L t .zero = t := by
  obtain ⟨year, month, day, hour, minute, second, nanos, offset⟩ := t
  obtain ⟨rfl, rfl, rfl, rfl⟩ := ht
  fin_cases h <;> rfl

/-- Only a whole hour has the same instant in the spelling with seconds and in the one without
minutes. -/
theorem wholeHour_of_instant (ht : t.Valid)
    (hseconds : (keep colonSeconds t .zero).instant = t.instant)
    (hhour : (keep compactHour t .zero).instant = t.instant) : WholeHour t := by
  have hnanos := ht.nanos
  have hsecond := ht.second
  have hminute := ht.minute
  have hkeepSeconds : keep colonSeconds t .zero = { t with nanos := 0, offset := 0 } := rfl
  have hkeepHour : keep compactHour t .zero =
      { t with minute := 0, second := 0, nanos := 0, offset := 0 } := rfl
  rw [hkeepSeconds] at hseconds
  rw [hkeepHour] at hhour
  simp only [Time.instant] at hseconds hhour
  exact ⟨by omega, by omega, by omega, by omega⟩

theorem mem_dropTexts {b : Byte} {texts : List Bytes} (htexts : ∀ t ∈ texts, b ∉ t) {s : Bytes}
    (hmem : b ∈ s) (n : ℕ) : b ∈ dropTexts texts n s := by
  induction n generalizing s with
  | zero => exact hmem
  | succ n ih =>
    rw [dropTexts]
    split
    · next t ht =>
      apply ih
      have hstarts : t.isPrefixOf s = true := List.find?_some (p := fun t : Bytes => t.isPrefixOf s) ht
      obtain ⟨rest, rfl⟩ := List.isPrefixOf_iff_prefix.mp hstarts
      rw [List.drop_left]
      exact (List.mem_append.mp hmem).resolve_left (htexts t (List.mem_of_find?_eq_some ht))
    · exact hmem

/-- A start that is read has no slash. -/
theorem slash_not_mem_of_parse {start : Bytes} (h : parseCatchupStart start = some t) :
    slash ∉ start := by
  obtain ⟨L, hL, hparse⟩ := List.exists_of_findSome?_eq_some h
  have hlit : ∀ L ∈ startLayouts, .lit slash ∉ L := by decide
  have htrim := not_mem_of_parse (by decide) (hlit L hL) hparse
  intro hmem
  apply htrim
  rw [trimSpace, List.mem_reverse]
  apply mem_dropTexts (by decide)
  rw [List.mem_reverse]
  exact mem_dropTexts (by decide) hmem _

/-! ## Candidates -/

variable {target u v : TargetURL} {preferred start : Bytes} {d : Descriptor}
  {candidates : List Candidate}

theorem catchupStartForFormat_of_layout (t : Time) (hL : layoutOf format = some L) :
    catchupStartForFormat t format = Timestamps.format L t := by
  rw [catchupStartForFormat, hL]

theorem candidateStart_cases (h : candidateStart d format = some start) :
    ((format = ascii "path_original" ∨ format = ascii "query_original") ∧ start = d.start) ∨
    ∃ t L, parseCatchupStart d.start = some t ∧ L ∈ spellings ∧ layoutOf format = some L ∧
      start = Timestamps.format L t := by
  rw [candidateStart] at h
  split at h
  · right
    split at h
    · cases h
    · next t ht =>
      simp only at h
      rcases hL : layoutOf format with _ | L
      · have hnil : catchupStartForFormat t format = [] := by rw [catchupStartForFormat, hL]
        rw [if_pos hnil] at h
        cases h
      · have hstart := catchupStartForFormat_of_layout t hL
        rw [if_neg (by rw [hstart]; exact format_ne_nil (mem_spellings hL) t)] at h
        obtain rfl := Option.some.inj h
        exact ⟨t, L, ht, mem_spellings hL, rfl, hstart⟩
  · next horiginal =>
    left
    obtain rfl := Option.some.inj h
    rw [not_and_or, not_not, not_not] at horiginal
    exact ⟨horiginal, rfl⟩

theorem build_cases (h : buildCatchupCandidateURL d format = some u) :
    ∃ start, candidateStart d format = some start ∧
      ((ascii "path_").isPrefixOf format = true ∧ u = pathURL d start ∨
        (ascii "query_").isPrefixOf format = true ∧ u = queryURL d start) := by
  rw [buildCatchupCandidateURL] at h
  rcases hstart : candidateStart d format with _ | start
  · rw [hstart] at h
    cases h
  · rw [hstart] at h
    simp only at h
    split at h
    · next hpath => exact ⟨start, rfl, .inl ⟨hpath, (Option.some.inj h).symm⟩⟩
    · split at h
      · next hquery => exact ⟨start, rfl, .inr ⟨hquery, (Option.some.inj h).symm⟩⟩
      · cases h

/-- The formats with a spelling can be built. -/
theorem candidateStart_of_layout (ht : parseCatchupStart d.start = some t)
    (hL : layoutOf format = some L)
    (horiginal : format ≠ ascii "path_original" ∧ format ≠ ascii "query_original") :
    candidateStart d format = some (Timestamps.format L t) := by
  have hstart := catchupStartForFormat_of_layout t hL
  rw [candidateStart, if_pos horiginal, ht]
  simp only
  rw [if_neg (by rw [hstart]; exact format_ne_nil (mem_spellings hL) t), hstart]

/-- What was asked for depends on the text of the URL. -/
theorem Asks.congr (hscheme : u.scheme = v.scheme) (hhost : u.host = v.host)
    (htext : u.string = v.string) (h : Asks d u) : Asks d v := by
  obtain ⟨hsegments, hquery⟩ := TargetURL.string_inj hscheme hhost htext
  obtain ⟨d', hd', hsame, hstart⟩ := h
  exact ⟨_, describe_congr hsegments hquery hd', ⟨hsame.1, hsame.2, hsame.3, hsame.4, hsame.5⟩,
    hstart⟩

/-- Candidates go to the same provider. -/
theorem origin_of_build (h : buildCatchupCandidateURL d format = some u) :
    u.scheme = d.original.scheme ∧ u.host = d.original.host := by
  obtain ⟨start, -, ⟨-, rfl⟩ | ⟨-, rfl⟩⟩ := build_cases h
  · exact ⟨rfl, rfl⟩
  · exact ⟨rfl, rfl⟩

theorem asks_of_build (hd : WellFormed target d) (h : Respelled d preferred)
    (hformat : format = preferred ∨ format ∈ standard)
    (hu : buildCatchupCandidateURL d format = some u) : Asks d u := by
  obtain ⟨start, hstart, hlayout⟩ := build_cases hu
  rcases candidateStart_cases hstart with ⟨horiginal, rfl⟩ | ⟨t, L, ht, hL, -, rfl⟩
  · have hpreferred : format = preferred := by
      refine hformat.resolve_right ?_
      rcases horiginal with rfl | rfl
      · decide
      · decide
    subst hpreferred
    rcases hlayout with ⟨hstarts, rfl⟩ | ⟨hstarts, rfl⟩
    · rcases horiginal with rfl | rfl
      · obtain ⟨hsafe, hslash⟩ := h.pathOriginal rfl
        obtain ⟨d', hd', hsame, hstart'⟩ := describe_pathURL hd hsafe hslash hd.start
        exact ⟨d', hd', hsame, .inl hstart'⟩
      · exact absurd hstarts (by decide)
    · rcases horiginal with rfl | rfl
      · exact absurd hstarts (by decide)
      · obtain ⟨d', hd', hsame, hstart'⟩ := describe_queryURL hd (h.queryOriginal rfl) hd.start
        exact ⟨d', hd', hsame, .inl hstart'⟩
  · obtain ⟨hwhole, hpath, hquery⟩ := h.parsed t ht
    have hvalid := valid_of_parseCatchupStart ht
    have hread := parseCatchupStart_format hL hvalid
    rw [keep_of_wholeHour hL hwhole] at hread
    rcases hlayout with ⟨-, rfl⟩ | ⟨-, rfl⟩
    · obtain ⟨d', hd', hsame, hstart'⟩ := describe_pathURL hd hpath
        (slash_not_mem_format hL hvalid) (format_ne_nil hL t)
      refine ⟨d', hd', hsame, .inr ⟨t, t, ht, ?_, rfl⟩⟩
      rw [hstart']
      exact hread
    · obtain ⟨d', hd', hsame, hstart'⟩ := describe_queryURL hd hquery (format_ne_nil hL t)
      refine ⟨d', hd', hsame, .inr ⟨t, t, ht, ?_, rfl⟩⟩
      rw [hstart']
      exact hread

theorem mem_offers {w : Option TargetURL} (h : (w, format) ∈ offers d target preferred) :
    w = some target ∨ (w = buildCatchupCandidateURL d format ∧
      (format = preferred ∨ format ∈ standard)) := by
  rw [offers, List.mem_append, List.mem_cons] at h
  rcases h with h | h | h
  · split at h
    · obtain ⟨rfl, rfl⟩ := Prod.mk.inj (List.mem_singleton.mp h)
      exact .inr ⟨rfl, .inl rfl⟩
    · cases h
  · obtain ⟨rfl, -⟩ := Prod.mk.inj h
    exact .inl rfl
  · obtain ⟨f, hf, heq⟩ := List.mem_map.mp h
    obtain ⟨rfl, rfl⟩ := Prod.mk.inj heq
    exact .inr ⟨rfl, .inr hf⟩

/-- The list of candidates, whatever they describe. -/
theorem candidates_list (hd : describeCatchupTarget target = some d)
    (h : buildCatchupCandidates target preferred = some candidates) :
    candidates = (offers d target preferred).foldl appendCandidate [] := by
  rw [buildCatchupCandidates, hd] at h
  exact (Option.some.inj h).symm

theorem exists_original (hd : describeCatchupTarget target = some d)
    (h : buildCatchupCandidates target preferred = some candidates) :
    ∃ c ∈ candidates, c.url.string = target.string := by
  rw [candidates_list hd h]
  apply exists_mem_foldl
  exact List.mem_append_right _ List.mem_cons_self

theorem head?_candidates (hd : describeCatchupTarget target = some d)
    (h : buildCatchupCandidates target preferred = some candidates) (hpreferred : preferred ≠ [])
    (hu : buildCatchupCandidateURL d preferred = some u) :
    candidates.head? = some ⟨u, preferred⟩ := by
  rw [candidates_list hd h, offers, if_pos hpreferred, hu, List.singleton_append, List.foldl_cons]
  obtain ⟨rest, hrest⟩ := prefix_foldl [⟨u, preferred⟩] _
  change (List.foldl appendCandidate [⟨u, preferred⟩] _).head? = _
  rw [← hrest]
  rfl

/-- Every candidate that can be built is asked for, under its own text or another one. -/
theorem asks_of_sameArchive (hd : describeCatchupTarget target = some d)
    (h : buildCatchupCandidates target preferred = some candidates)
    (hsame : SameArchive target preferred d candidates)
    (hformat : format = preferred ∧ preferred ≠ [] ∨ format ∈ standard)
    (hu : buildCatchupCandidateURL d format = some u) : Asks d u := by
  have hlist := candidates_list hd h
  have horiginal := (wellFormed_of_describe hd).original
  have hoffered : (some u, format) ∈ offers d target preferred := by
    rw [← hu, offers, List.mem_append, List.mem_cons]
    rcases hformat with ⟨rfl, hne⟩ | hstandard
    · left
      rw [if_pos hne]
      exact List.mem_singleton_self _
    · exact .inr (.inr (List.mem_map_of_mem hstandard))
  obtain ⟨c, hc, htext⟩ := exists_mem_foldl [] hoffered
  obtain ⟨hscheme, hhost⟩ := origin_of_build hu
  have hc' : c.url.scheme = d.original.scheme ∧ c.url.host = d.original.host := by
    rcases mem_foldl hc with hnil | hmem
    · cases hnil
    · rcases mem_offers hmem with htarget | ⟨hbuild, -⟩
      · rw [horiginal, Option.some.inj htarget]
        exact ⟨rfl, rfl⟩
      · exact origin_of_build hbuild.symm
  rw [← hlist] at hc
  exact (hsame.asks c hc).congr (hc'.1.trans hscheme.symm) (hc'.2.trans hhost.symm) htext

/-! ## Exactly when -/

theorem sameArchive_of_respelled (hd : describeCatchupTarget target = some d)
    (hcandidates : buildCatchupCandidates target preferred = some candidates)
    (h : Respelled d preferred) : SameArchive target preferred d candidates where
  asks := by
    intro c hc
    rw [candidates_list hd hcandidates] at hc
    rcases mem_foldl hc with hnil | hmem
    · cases hnil
    · rcases mem_offers hmem with htarget | ⟨hbuild, hformat⟩
      · rw [Option.some.inj htarget]
        exact ⟨d, hd, ⟨rfl, rfl, rfl, rfl, rfl⟩, .inl rfl⟩
      · exact asks_of_build (wellFormed_of_describe hd) h hformat hbuild.symm
  original := exists_original hd hcandidates
  nodup := nodup_candidates hcandidates
  first _ hpreferred hu := head?_candidates hd hcandidates hpreferred hu

/-- A respelled start names the instant that its layout keeps. -/
theorem instant_of_sameStart (ht : parseCatchupStart d.start = some t) (hL : L ∈ spellings)
    (h : SameStart d.start (Timestamps.format L t)) : (keep L t .zero).instant = t.instant := by
  have hread := parseCatchupStart_format hL (valid_of_parseCatchupStart ht)
  rcases h with heq | ⟨t', t'', ht', ht'', hinstant⟩
  · rw [heq, ht] at hread
    rw [← Option.some.inj hread]
  · rw [ht] at ht'
    rw [hread] at ht''
    rw [← Option.some.inj ht', ← Option.some.inj ht''] at hinstant
    exact hinstant

theorem respelled_of_sameArchive (hd : describeCatchupTarget target = some d)
    (hcandidates : buildCatchupCandidates target preferred = some candidates)
    (h : SameArchive target preferred d candidates) : Respelled d preferred where
  parsed t ht := by
    have hwell := wellFormed_of_describe hd
    have hvalid := valid_of_parseCatchupStart ht
    have hasks : ∀ format ∈ standard, ∀ u, buildCatchupCandidateURL d format = some u → Asks d u :=
      fun format hformat u hu => asks_of_sameArchive hd hcandidates h (.inr hformat) hu
    -- the path and the query candidate of a spelling are built
    have hpath : ∀ format ∈ standard, ∀ L, layoutOf format = some L →
        (ascii "path_").isPrefixOf format = true → Asks d (pathURL d (Timestamps.format L t)) := by
      intro format hformat L hL hstarts
      apply hasks format hformat
      have hne : ∀ format ∈ standard, format ≠ ascii "path_original" ∧
          format ≠ ascii "query_original" := by decide
      rw [buildCatchupCandidateURL, candidateStart_of_layout ht hL (hne format hformat)]
      exact if_pos hstarts
    have hquery : Asks d (queryURL d (Timestamps.format compactHour t)) := by
      apply hasks (ascii "query_compact_hour") (by decide)
      have hL : layoutOf (ascii "query_compact_hour") = some compactHour := by decide
      rw [buildCatchupCandidateURL, candidateStart_of_layout ht hL (by decide)]
      rfl
    have hhour := hpath (ascii "path_compact_hour") (by decide) compactHour (by decide) (by decide)
    have hseconds := hpath (ascii "path_colon_seconds") (by decide) colonSeconds (by decide)
      (by decide)
    have hsafe : PathSafe d := by
      obtain ⟨d', hd', hsame, -⟩ := hhour
      exact (pathSafe_of_fields hwell hd' hsame).1
    -- so they come back with their start
    have hstart : ∀ L ∈ spellings, Asks d (pathURL d (Timestamps.format L t)) →
        (keep L t .zero).instant = t.instant := by
      rintro L hL ⟨d', hd', -, hstart⟩
      obtain ⟨d'', hd'', -, hwritten⟩ := describe_pathURL hwell hsafe
        (slash_not_mem_format hL hvalid) (format_ne_nil hL t)
      rw [hd'] at hd''
      obtain rfl := Option.some.inj hd''
      rw [hwritten] at hstart
      exact instant_of_sameStart ht hL hstart
    refine ⟨?_, hsafe, ?_⟩
    · exact wholeHour_of_instant hvalid (hstart colonSeconds (by decide) hseconds)
        (hstart compactHour (by decide) hhour)
    · obtain ⟨d', hd', hsame, -⟩ := hquery
      exact querySafe_of_fields hwell hd' hsame
  pathOriginal hpreferred := by
    subst hpreferred
    have hwell := wellFormed_of_describe hd
    obtain ⟨d', hd', hsame, hstart⟩ := asks_of_sameArchive hd hcandidates h
      (.inl ⟨rfl, by decide⟩) (show buildCatchupCandidateURL d _ = some (pathURL d d.start) from rfl)
    obtain ⟨hsafe, hslash | hslash⟩ := pathSafe_of_fields hwell hd' hsame
    · exact ⟨hsafe, hslash⟩
    · refine ⟨hsafe, ?_⟩
      rcases hstart with heq | ⟨t, -, ht, -, -⟩
      · rw [← heq]
        exact hslash
      · exact slash_not_mem_of_parse ht
  queryOriginal hpreferred := by
    subst hpreferred
    obtain ⟨d', hd', hsame, -⟩ := asks_of_sameArchive hd hcandidates h
      (.inl ⟨rfl, by decide⟩) (show buildCatchupCandidateURL d _ = some (queryURL d d.start) from rfl)
    exact querySafe_of_fields (wellFormed_of_describe hd) hd' hsame

/-- **The same archive, exactly when**: the candidates of a target ask for its archive if and only
if the descriptor can be respelled. -/
theorem sameArchive_iff (hd : describeCatchupTarget target = some d)
    (hcandidates : buildCatchupCandidates target preferred = some candidates) :
    SameArchive target preferred d candidates ↔ Respelled d preferred :=
  ⟨respelled_of_sameArchive hd hcandidates, sameArchive_of_respelled hd hcandidates⟩

/-- A programme that started at half past one. -/
def halfPast : TargetURL where
  scheme := ascii "http"
  host := ascii "p"
  path := ascii "/timeshift/u/p/60/2026-08-30:01-30/123.ts"
  rawQuery := []
  rawPath := []
  forceQuery := false
  hasScheme := by decide
  hasHost := by decide

/-- **The claim fails**: of a programme that started at half past, two candidates ask for the one
that started on the hour. -/
theorem compact_hour_drops_minutes : ∃ d candidates, describeCatchupTarget halfPast = some d ∧
    buildCatchupCandidates halfPast [] = some candidates ∧
      ¬ SameArchive halfPast [] d candidates := by
  have hdescribed : (describeCatchupTarget halfPast).map Descriptor.start =
      some (ascii "2026-08-30:01-30") := by decide
  have hminute : (parseCatchupStart (ascii "2026-08-30:01-30")).map Time.minute = some 30 := by
    decide
  obtain ⟨d, hd, hstart⟩ := Option.map_eq_some_iff.mp hdescribed
  obtain ⟨t, ht, hminute⟩ := Option.map_eq_some_iff.mp hminute
  obtain ⟨candidates, hcandidates⟩ : ∃ candidates,
      buildCatchupCandidates halfPast [] = some candidates := by
    rw [buildCatchupCandidates, hd]
    exact ⟨_, rfl⟩
  refine ⟨d, candidates, hd, hcandidates, ?_⟩
  intro h
  rw [← hstart] at ht
  obtain ⟨hwhole, -⟩ := (respelled_of_sameArchive hd hcandidates h).parsed t ht
  rw [hwhole.minute] at hminute
  cases hminute

theorem sameArchive_iff_half_past : ∃ d candidates, describeCatchupTarget halfPast = some d ∧
    buildCatchupCandidates halfPast [] = some candidates ∧
      (SameArchive halfPast [] d candidates ↔ Respelled d []) := by
  have hdescribed : (describeCatchupTarget halfPast).isSome = true := by decide
  obtain ⟨d, hd⟩ := Option.isSome_iff_exists.mp hdescribed
  obtain ⟨candidates, hcandidates⟩ : ∃ candidates,
      buildCatchupCandidates halfPast [] = some candidates := by
    rw [buildCatchupCandidates, hd]
    exact ⟨_, rfl⟩
  exact ⟨d, candidates, hd, hcandidates, sameArchive_iff hd hcandidates⟩

end IptvProxy.Catchup
