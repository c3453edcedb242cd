import IptvProxy.Catchup.Target

/-!
# What candidates describe

A candidate URL is described in turn. `PathSafe` and `QuerySafe` are the descriptors whose
candidates of one layout come back with the same fields (`describe_pathURL`, `describe_queryURL`);
the others do not come back (`pathSafe_of_fields`, `querySafe_of_fields`).
-/

namespace IptvProxy.Catchup

open Xtream

/-- The same archive, whatever the spelling of its start. -/
structure SameFields (d d' : Descriptor) : Prop where
  /-- the base path -/
  baseSegments : d'.baseSegments = d.baseSegments
  /-- the username -/
  username : d'.username = d.username
  /-- the password -/
  password : d'.password = d.password
  /-- the duration -/
  duration : d'.duration = d.duration
  /-- the stream -/
  streamID : d'.streamID = d.streamID

/-- Fields that can stand in a path. -/
structure PathSafe (d : Descriptor) : Prop where
  /-- no slash in the username -/
  username : slash ∉ d.username
  /-- no slash in the password -/
  password : slash ∉ d.password
  /-- no slash in the duration -/
  duration : slash ∉ d.duration
  /-- no slash in the stream -/
  streamID : slash ∉ d.streamID
  /-- the stream has a name -/
  named : d.streamID ≠ []

/-- The path of the query layout. -/
def querySegments (d : Descriptor) : List Bytes :=
  d.baseSegments ++ [ascii "streaming", ascii "timeshift.php"]

/-- Fields that can stand in a query. -/
structure QuerySafe (d : Descriptor) : Prop where
  /-- the stream has a name -/
  named : d.streamID ≠ []
  /-- what is left of the stream has no extension -/
  plain : ext d.streamID = []
  /-- the base path is not read as a path layout -/
  index : timeshiftIndex (querySegments d) = none

/-- What `describeCatchupTarget` makes sure of. -/
structure WellFormed (target : TargetURL) (d : Descriptor) : Prop where
  /-- the target itself -/
  original : d.original = target
  /-- no slash in the base path -/
  noSlash : ∀ s ∈ d.baseSegments, slash ∉ s
  /-- it does not start with an empty segment -/
  head : d.baseSegments.head? ≠ some []
  /-- the username -/
  username : d.username ≠ []
  /-- the password -/
  password : d.password ≠ []
  /-- the duration -/
  duration : d.duration ≠ []
  /-- the start -/
  start : d.start ≠ []
  /-- the extension -/
  extension : IsExtension d.extension
  /-- what came from a path has no slashes -/
  path : d.layout = .path → PathSafe d ∧ slash ∉ d.start
  /-- what came from a query is not in the rest of it -/
  query : d.layout = .query → d.username = (Values.parse target.rawQuery).1.get (ascii "username") ∧
    d.extraQuery.values (ascii "username") = []

variable {d d' : Descriptor} {target u v : TargetURL} {start : Bytes} {index : ℕ}

/-! ## Descriptions are well formed -/

theorem trimSuffix_ext (s : Bytes) : s = trimSuffix s (ext s) ++ ext s := by
  by_cases h : ext s = []
  · rw [h, List.append_nil, trimSuffix]
    simp
  · obtain ⟨-, t, ht⟩ := isExtension_ext h
    have hsuffix : trimSuffix s (ext s) = t := by
      conv_lhs => rw [ht]
      rw [← ht]
      exact (congrArg (trimSuffix · (ext s)) ht).trans (trimSuffix_append t _)
    rw [hsuffix]
    exact ht

theorem isExtension_extensionOf (s : Bytes) : IsExtension (extensionOf s) := by
  rw [extensionOf]
  split
  · exact ⟨ascii "ts", by decide, by decide, by decide⟩
  · next h => exact (isExtension_ext h).1

theorem timeshiftIndex_lt {segments : List Bytes} (h : timeshiftIndex segments = some index) :
    index + 5 < segments.length := by
  have hmem := List.mem_of_find?_eq_some h
  rw [List.mem_reverse, List.mem_range] at hmem
  omega

theorem slash_not_mem_getD {segments : List Bytes} (h : ∀ s ∈ segments, slash ∉ s) (n : ℕ) :
    slash ∉ segments.getD n [] := by
  rw [List.getD_eq_getElem?_getD]
  rcases hs : segments[n]? with _ | s
  · exact List.not_mem_nil
  · exact h s (List.mem_of_getElem? hs)

theorem head?_take {segments : List Bytes} (h : segments.head? ≠ some []) (n : ℕ) :
    (segments.take n).head? ≠ some [] := by
  rw [List.head?_take]
  split
  · simp
  · exact h

theorem describePath_wellFormed (hindex : timeshiftIndex target.segments = some index)
    (h : describePath target target.segments index = some d) :
    WellFormed target d ∧ d.layout = .path ∧ d.baseSegments = target.segments.take index := by
  have hlt := timeshiftIndex_lt hindex
  have hclean : Clean target.segments := clean_splitSlash (by
    rw [← TargetURL.segments]
    omega)
  simp only [describePath] at h
  split at h
  · cases h
  · next hne =>
    simp only [not_or] at hne
    obtain ⟨husername, hpassword, hduration, hstart, hstream⟩ := hne
    obtain rfl := Option.some.inj h
    have hfile := slash_not_mem_getD hclean.noSlash (index + 5)
    rw [trimSuffix_ext (target.segments.getD (index + 5) [])] at hfile
    have hslash := fun n => slash_not_mem_getD hclean.noSlash n
    refine ⟨?_, rfl, rfl⟩
    refine {
      original := rfl
      noSlash := fun s hs => hclean.noSlash s (List.mem_of_mem_take hs)
      head := head?_take hclean.head index
      username := husername
      password := hpassword
      duration := hduration
      start := hstart
      extension := isExtension_extensionOf _
      path := fun _ => ⟨⟨hslash (index + 1), hslash (index + 2), hslash (index + 3), ?_, ?_⟩,
        hslash (index + 4)⟩
      query := by rintro ⟨⟩ }
    · dsimp only
      exact fun hmem => hfile (List.mem_append_left _ hmem)
    · dsimp only
      exact hstream

theorem values_foldl_del {v : Values} {k : Bytes} (ks : List Bytes) (h : v.values k = [] ∨ k ∈ ks) :
    (ks.foldl Values.del v).values k = [] := by
  induction ks generalizing v with
  | nil =>
    rcases h with h | h
    · exact h
    · cases h
  | cons k' ks ih =>
    apply ih
    by_cases hk : k = k'
    · left
      rw [hk, Values.values_del_self]
    · rw [Values.values_del_ne hk]
      exact h.imp_right fun h => (List.mem_cons.mp h).resolve_left hk

theorem describeQuery_wellFormed (hlength : 2 ≤ target.segments.length)
    (h : describeQuery target (Values.parse target.rawQuery).1 = some d) :
    WellFormed target d ∧ d.layout = .query := by
  have hclean : Clean target.segments := clean_splitSlash hlength
  simp only [describeQuery] at h
  split at h
  · cases h
  · next hne =>
    simp only [not_or] at hne
    obtain ⟨husername, hpassword, hduration, hstart, -⟩ := hne
    obtain rfl := Option.some.inj h
    refine ⟨?_, rfl⟩
    exact {
      original := rfl
      noSlash := fun s hs => hclean.noSlash s (List.mem_of_mem_take hs)
      head := head?_take hclean.head _
      username := husername
      password := hpassword
      duration := hduration
      start := hstart
      extension := isExtension_extensionOf _
      path := by rintro ⟨⟩
      query := fun _ => ⟨rfl, values_foldl_del _ (.inr List.mem_cons_self)⟩ }

/-- The two ways to be described. -/
theorem describe_cases (h : describeCatchupTarget target = some d) :
    (∃ index, timeshiftIndex target.segments = some index ∧
      describePath target target.segments index = some d) ∨
    (timeshiftIndex target.segments = none ∧ 2 ≤ target.segments.length ∧
      describeQuery target (Values.parse target.rawQuery).1 = some d) := by
  rw [describeCatchupTarget, timeshiftPathParts] at h
  rcases hindex : timeshiftIndex target.segments with _ | index
  · rw [hindex] at h
    simp only [Option.map_none] at h
    split at h
    · cases h
    · next hstreaming =>
      refine .inr ⟨rfl, ?_, h⟩
      by_contra hshort
      rw [isStreamingTimeshiftTarget, if_pos (by omega)] at hstreaming
      exact hstreaming rfl
  · rw [hindex] at h
    exact .inl ⟨index, rfl, h⟩

/-- **A description is well formed.** -/
theorem wellFormed_of_describe (h : describeCatchupTarget target = some d) :
    WellFormed target d := by
  rcases describe_cases h with ⟨index, hindex, hpath⟩ | ⟨-, hlength, hquery⟩
  · exact (describePath_wellFormed hindex hpath).1
  · exact (describeQuery_wellFormed hlength hquery).1

/-- A description depends on the segments and the query. -/
theorem describe_congr (hsegments : u.segments = v.segments) (hquery : u.rawQuery = v.rawQuery)
    (h : describeCatchupTarget u = some d) :
    describeCatchupTarget v = some { d with original := v } := by
  have hstreaming : isStreamingTimeshiftTarget u = isStreamingTimeshiftTarget v := by
    rw [isStreamingTimeshiftTarget, isStreamingTimeshiftTarget, hsegments]
  rw [describeCatchupTarget, timeshiftPathParts] at h ⊢
  rw [hsegments, hquery, hstreaming] at h
  rcases hindex : timeshiftIndex v.segments with _ | index
  · rw [hindex] at h
    simp only [Option.map_none] at h ⊢
    split at h
    · cases h
    · next htarget =>
      rw [if_neg htarget]
      rw [describeQuery, hsegments] at h
      simp only [describeQuery] at h ⊢
      split at h
      · cases h
      · next hne =>
        rw [if_neg hne]
        obtain rfl := Option.some.inj h
        rfl
  · rw [hindex] at h
    simp only [Option.map_some, describePath] at h ⊢
    split at h
    · cases h
    · next hne =>
      rw [if_neg hne]
      obtain rfl := Option.some.inj h
      rw [hquery]

/-! ## Candidates are described -/

theorem slash_not_mem_extension {e : Bytes} (h : IsExtension e) : slash ∉ e := by
  obtain ⟨tail, rfl, -, hslash⟩ := h
  simp only [List.mem_cons, not_or]
  exact ⟨by decide, hslash⟩

/-- Segments behind a base path. -/
theorem clean_append {base rest : List Bytes} {last : Bytes} (hbase : ∀ s ∈ base, slash ∉ s)
    (hhead : base.head? ≠ some []) (hrest : ∀ s ∈ rest, slash ∉ s ∧ s ≠ []) (hlast : slash ∉ last)
    (hne : last ≠ []) : Clean (base ++ (rest ++ [last])) where
  noSlash s hs := by
    rw [List.mem_append, List.mem_append, List.mem_singleton] at hs
    rcases hs with hs | hs | rfl
    · exact hbase s hs
    · exact (hrest s hs).1
    · exact hlast
  head := by
    rcases base with _ | ⟨b, base⟩
    · rcases rest with _ | ⟨r, rest⟩
      · simpa using hne
      · simpa using (hrest r List.mem_cons_self).2
    · exact hhead
  last := by
    rw [← List.append_assoc, List.getLast?_append_of_ne_nil _ (by simp)]
    simpa using hne

/-- The six segments of the path layout are found behind any base path. -/
theorem timeshiftIndex_append (base : List Bytes) (a b c e f : Bytes) :
    timeshiftIndex (base ++ [ascii "timeshift", a, b, c, e, f]) = some base.length := by
  have hlength : (base ++ [ascii "timeshift", a, b, c, e, f]).length - 5 = base.length + 1 := by
    simp
  have hget : (base ++ [ascii "timeshift", a, b, c, e, f]).getD base.length [] =
      ascii "timeshift" := by simp
  rw [timeshiftIndex, hlength, List.range_succ, List.reverse_append, List.reverse_singleton,
    List.singleton_append, List.find?_cons_of_pos]
  rw [hget]
  decide

/-- **A path candidate comes back.** -/
theorem describe_pathURL (hd : WellFormed target d) (hsafe : PathSafe d) (hstart : slash ∉ start)
    (hne : start ≠ []) : ∃ d', describeCatchupTarget (pathURL d start) = some d' ∧
      SameFields d d' ∧ d'.start = start := by
  have hext := slash_not_mem_extension hd.extension
  have hclean : Clean (d.baseSegments ++ ([ascii "timeshift", d.username, d.password, d.duration,
      start] ++ [d.streamID ++ d.extension])) := by
    apply clean_append hd.noSlash hd.head
    · simp only [List.mem_cons, List.not_mem_nil, or_false, forall_eq_or_imp, forall_eq]
      exact ⟨⟨by decide, by decide⟩, ⟨hsafe.username, hd.username⟩, ⟨hsafe.password, hd.password⟩,
        ⟨hsafe.duration, hd.duration⟩, hstart, hne⟩
    · rw [List.mem_append, not_or]
      exact ⟨hsafe.streamID, hext⟩
    · simp [hsafe.named]
  have hsegments : (pathURL d start).segments = d.baseSegments ++ [ascii "timeshift", d.username,
      d.password, d.duration, start, d.streamID ++ d.extension] :=
    segments_join hclean (by simp)
  have hget : ∀ n, (d.baseSegments ++ [ascii "timeshift", d.username, d.password, d.duration,
      start, d.streamID ++ d.extension]).getD (d.baseSegments.length + n) [] =
        [ascii "timeshift", d.username, d.password, d.duration, start,
          d.streamID ++ d.extension].getD n [] := by
    intro n
    rw [List.getD_append_right _ _ _ _ (Nat.le_add_right _ _), Nat.add_sub_cancel_left]
  have hstream : trimSuffix (d.streamID ++ d.extension) (ext (d.streamID ++ d.extension)) =
      d.streamID := by
    rw [ext_append hd.extension, trimSuffix_append]
  rw [describeCatchupTarget, timeshiftPathParts, hsegments, timeshiftIndex_append]
  simp only [Option.map_some, describePath, hget, List.getD_cons_succ, List.getD_cons_zero, hstream]
  rw [if_neg]
  · refine ⟨_, rfl, ?_, rfl⟩
    exact ⟨by simp, rfl, rfl, rfl, rfl⟩
  · simp only [not_or]
    exact ⟨hd.username, hd.password, hd.duration, hne, hsafe.named⟩

theorem segments_queryURL (hd : WellFormed target d) :
    (queryURL d start).segments = querySegments d := by
  have hclean : Clean (d.baseSegments ++ ([ascii "streaming"] ++ [ascii "timeshift.php"])) := by
    apply clean_append hd.noSlash hd.head
    · intro s hs
      obtain rfl := List.mem_singleton.mp hs
      exact ⟨by decide, by decide⟩
    · decide
    · decide
  exact segments_join hclean (by simp)

/-- What a query that was written says. -/
theorem get_encode (v : Values) (k : Bytes) : (Values.parse v.encode).1.get k = v.get k := by
  rw [Values.parse_encode, Values.get, Values.get, Values.sorted_same k]

theorem get_set_self (v : Values) (k x : Bytes) : (v.set k x).get k = x := by
  rw [Values.get, Values.values_set_self]
  rfl

/-- The parameters of a query candidate. -/
theorem get_queryURL (d : Descriptor) (start : Bytes) :
    (Values.parse (queryURL d start).rawQuery).1.get (ascii "username") = d.username ∧
    (Values.parse (queryURL d start).rawQuery).1.get (ascii "password") = d.password ∧
    (Values.parse (queryURL d start).rawQuery).1.get (ascii "duration") = d.duration ∧
    (Values.parse (queryURL d start).rawQuery).1.get (ascii "start") = start ∧
    (Values.parse (queryURL d start).rawQuery).1.get (ascii "stream") = d.streamID := by
  simp only [queryURL, get_encode]
  refine ⟨?_, ?_, ?_, ?_, ?_⟩
  · rw [Values.get_set_ne (by decide), Values.get_set_ne (by decide), Values.get_set_ne (by decide),
      Values.get_set_ne (by decide), get_set_self]
  · rw [Values.get_set_ne (by decide), Values.get_set_ne (by decide), Values.get_set_ne (by decide),
      get_set_self]
  · rw [get_set_self]
  · rw [Values.get_set_ne (by decide), get_set_self]
  · rw [Values.get_set_ne (by decide), Values.get_set_ne (by decide), get_set_self]

/-- **A query candidate comes back.** -/
theorem describe_queryURL (hd : WellFormed target d) (hsafe : QuerySafe d) (hne : start ≠ []) :
    ∃ d', describeCatchupTarget (queryURL d start) = some d' ∧
      SameFields d d' ∧ d'.start = start := by
  obtain ⟨husername, hpassword, hduration, hstart, hstream⟩ := get_queryURL d start
  have hlength : (querySegments d).length = d.baseSegments.length + 2 := by simp [querySegments]
  have hstreaming : isStreamingTimeshiftTarget (queryURL d start) = true := by
    have hget : ∀ n, (querySegments d).getD (d.baseSegments.length + n) [] =
        [ascii "streaming", ascii "timeshift.php"].getD n [] := by
      intro n
      rw [querySegments, List.getD_append_right _ _ _ _ (Nat.le_add_right _ _),
        Nat.add_sub_cancel_left]
    have hfirst := hget 0
    have hsecond := hget 1
    rw [isStreamingTimeshiftTarget, segments_queryURL hd, if_neg (by omega), hlength,
      Nat.add_sub_cancel, Nat.add_sub_assoc (by decide)]
    rw [Nat.add_zero] at hfirst
    rw [hfirst, hsecond]
    decide
  rw [describeCatchupTarget, timeshiftPathParts, segments_queryURL hd, hsafe.index]
  simp only [Option.map_none, hstreaming, Bool.true_eq_false, if_false, describeQuery, husername,
    hpassword, hduration, hstart, hstream]
  rw [if_neg]
  · refine ⟨_, rfl, ?_, rfl⟩
    refine ⟨?_, rfl, rfl, rfl, ?_⟩
    · simp only [segments_queryURL hd]
      rw [hlength, Nat.add_sub_cancel, querySegments, List.take_left']
      rfl
    · simp only [hsafe.plain, trimSuffix]
      simp
  · simp only [not_or]
    exact ⟨hd.username, hd.password, hd.duration, hne, hsafe.named⟩

/-! ## Candidates that do not come back -/

theorem SameFields.pathSafe (h : SameFields d d') (hsafe : PathSafe d') : PathSafe d where
  username := by
    rw [← h.username]
    exact hsafe.username
  password := by
    rw [← h.password]
    exact hsafe.password
  duration := by
    rw [← h.duration]
    exact hsafe.duration
  streamID := by
    rw [← h.streamID]
    exact hsafe.streamID
  named := by
    rw [← h.streamID]
    exact hsafe.named

/-- A path candidate with the same fields has fields that can stand in a path, and came back as
such unless the target itself was a path. -/
theorem pathSafe_of_fields (hd : WellFormed target d)
    (h : describeCatchupTarget (pathURL d start) = some d') (hsame : SameFields d d') :
    PathSafe d ∧ (slash ∉ d.start ∨ slash ∉ d'.start) := by
  have hd' := wellFormed_of_describe h
  cases hlayout : d.layout with
  | path =>
    obtain ⟨hsafe, hstart⟩ := hd.path hlayout
    exact ⟨hsafe, .inl hstart⟩
  | query =>
    cases hlayout' : d'.layout with
    | path =>
      obtain ⟨hsafe, hstart⟩ := hd'.path hlayout'
      exact ⟨hsame.pathSafe hsafe, .inr hstart⟩
    | query =>
      obtain ⟨husername, -⟩ := hd'.query hlayout'
      obtain ⟨-, hextra⟩ := hd.query hlayout
      exfalso
      apply hd'.username
      rw [husername]
      change (Values.parse d.extraQuery.encode).1.get _ = _
      rw [get_encode]
      exact Values.get_eq_nil_of_values hextra

/-- A query candidate with the same fields has fields that can stand in a query. -/
theorem querySafe_of_fields (hd : WellFormed target d)
    (h : describeCatchupTarget (queryURL d start) = some d') (hsame : SameFields d d') :
    QuerySafe d := by
  rcases describe_cases h with ⟨index, hindex, hpath⟩ | ⟨hindex, hlength, hquery⟩
  · -- read as a path, it has a shorter base path
    obtain ⟨-, -, hbase⟩ := describePath_wellFormed hindex hpath
    have hlt := timeshiftIndex_lt hindex
    rw [hsame.baseSegments, segments_queryURL hd] at hbase
    rw [segments_queryURL hd] at hlt
    have hlength := congrArg List.length hbase
    rw [List.length_take] at hlength
    simp only [querySegments, List.length_append, List.length_cons, List.length_nil] at hlength hlt
    omega
  · rw [segments_queryURL hd] at hindex
    obtain ⟨-, -, -, -, hstream⟩ := get_queryURL d start
    simp only [describeQuery, hstream] at hquery
    split at hquery
    · cases hquery
    · next hne =>
      simp only [not_or] at hne
      obtain rfl := Option.some.inj hquery
      refine ⟨hne.2.2.2.2, ?_, hindex⟩
      have hlength := congrArg List.length (trimSuffix_ext d.streamID)
      have hsame := congrArg List.length hsame.streamID
      simp only [List.length_append] at hlength hsame
      exact List.eq_nil_of_length_eq_zero (by omega)

end IptvProxy.Catchup
