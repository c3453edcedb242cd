import IptvProxy.Lib.Directives
import IptvProxy.Lib.Lines
import IptvProxy.Lib.Unicode

/-!
# OpenVPN configurations

`validateOpenvpnConfig` and `sanitizeRuntimeConfig` of `lib/services/vpn/openvpn.ts`. Both look at
the first word of a line, and OpenVPN at its first token. `runs_nothing_iff` says which
configurations execute nothing: those that do not spell an execution directive with quotes, a
backslash or dashes. `dashed_plugin_runs` is one that does.
-/

namespace IptvProxy.Vpn.Config

open Js GoText Directives

/-- `EXECUTION_DIRECTIVES` -/
def EXECUTION_DIRECTIVES : List Text :=
  ["up".toList, "down".toList, "route-up".toList, "ipchange".toList, "client-connect".toList,
    "client-disconnect".toList, "learn-address".toList, "auth-user-pass-verify".toList,
    "tls-verify".toList, "plugin".toList]

/-- `MANAGED_DIRECTIVES` -/
def MANAGED_DIRECTIVES : List Text :=
  ["auth-user-pass".toList, "script-security".toList, "daemon".toList, "writepid".toList,
    "log".toList, "log-append".toList, "status".toList, "management".toList,
    "management-client".toList, "management-query-passwords".toList, "management-hold".toList,
    "cd".toList, "chroot".toList, "user".toList, "group".toList]

/-- `OpenvpnValidationResult` -/
structure OpenvpnValidationResult where
  /-- `valid` -/
  valid : Bool
  /-- `error` -/
  error : Option Text
  /-- `remotes` -/
  remotes : List Text
  /-- `proto` -/
  proto : Option Text
  /-- `dev` -/
  dev : Option Text
  deriving DecidableEq

/-- Without the carriage return at the end. -/
def stripReturn (line : Text) : Text := if line.getLast? = some '\r' then line.dropLast else line

/-- The lines between line breaks, with or without a carriage return. -/
def splitLines (s : Text) : List Text :=
  let pieces := s.splitOn '\n'
  pieces.dropLast.map stripReturn ++ pieces.getLast?.toList

/-- The words of a line between white space. -/
def parts (line : Text) : List Text := (line.splitOnP isSpace).filter fun part => part ≠ []

/-- A line that is not looked at: blank, a comment or a tag. -/
def skipped (line : Text) : Bool :=
  line = [] || line.head? = some '#' || line.head? = some ';' || line.head? = some '<'

variable (U : Unicode)

/-- `firstToken` -/
def firstToken (line : Text) : Text := U.jsLower ((parts (trim line)).headD [])

/-! ## Validation -/

/-- What the loop of `validateOpenvpnConfig` has found. -/
structure Found where
  /-- `remotes` -/
  remotes : List Text
  /-- `proto` -/
  proto : Text
  /-- `dev` -/
  dev : Text

/-- The end of the loop for a directive and its arguments. -/
def Found.add (found : Found) (directive : Text) (arguments : List Text) : Found :=
  match arguments with
  | [] => found
  | argument :: rest =>
    if directive = "remote".toList then
      { found with remotes := found.remotes ++
          [argument ++ ':' :: rest.headD "1194".toList] }
    else if directive = "proto".toList then { found with proto := U.jsLower argument }
    else if directive = "dev".toList then { found with dev := U.jsLower argument }
    else found

/-- The loop of `validateOpenvpnConfig`; an execution directive ends it. -/
def validateLines (found : Found) : List Text → Found × Option Text
  | [] => (found, none)
  | rawLine :: lines =>
    let line := trim rawLine
    if skipped line then validateLines found lines
    else
      let directive := firstToken U line
      if directive ∈ EXECUTION_DIRECTIVES then (found, some directive)
      else validateLines (found.add U directive ((parts line).drop 1)) lines

/-- `includes` -/
def includes (s word : Text) : Bool := s.tails.any fun t => word.isPrefixOf t

/-- `validateOpenvpnConfig` -/
def validateOpenvpnConfig (rawConfig : Text) : OpenvpnValidationResult :=
  if 1000000 < Js.length rawConfig then
    ⟨false, some "OpenVPN configuration is too large.".toList, [], none, none⟩
  else
    match validateLines U ⟨[], "udp".toList, "tun".toList⟩ (splitLines rawConfig) with
    | (found, some directive) =>
      ⟨false, some ("OpenVPN directive \"".toList ++ directive ++
        ("\" is not allowed because profiles may not execute external commands or " ++
          "plugins.").toList), found.remotes, none, none⟩
    | (found, none) =>
      if found.remotes = [] ∧ includes rawConfig "<connection>".toList = false then
        ⟨false, some "Configuration does not specify a remote server endpoint.".toList,
          found.remotes, none, none⟩
      else if "tun".toList.isPrefixOf found.dev = false then
        ⟨false, some "Only TUN-mode OpenVPN profiles are supported.".toList, found.remotes,
          some found.proto, some found.dev⟩
      else ⟨true, none, found.remotes, some found.proto, some found.dev⟩

/-! ## The runtime configuration -/

/-- The filter of `sanitizeRuntimeConfig`. -/
def keeps (rawLine : Text) : Bool :=
  skipped (trim rawLine) ||
    !(firstToken U (trim rawLine) ∈ EXECUTION_DIRECTIVES ∨
      firstToken U (trim rawLine) ∈ MANAGED_DIRECTIVES)

/-- `sanitizeRuntimeConfig` -/
def sanitizeRuntimeConfig (rawConfig : Text) : Text :=
  trim (['\n'].intercalate ((splitLines rawConfig).filter (keeps U)))

/-- The lines of a configuration that pass the filter, without white space at its ends. -/
def passed (rawConfig : Text) : List Text :=
  Lines.trim isSpace ((splitLines rawConfig).filter (keeps U))

/-- What OpenVPN makes of a configuration: the directives outside inline blocks. -/
def directives (config : Text) : List Text :=
  (outside none (config.splitOn '\n')).filterMap directive

variable {U} {rawConfig line l d front back : Text}

theorem newline_not_mem_splitLines (h : line ∈ splitLines rawConfig) : '\n' ∉ line := by
  simp only [splitLines, List.mem_append, List.mem_map] at h
  rcases h with ⟨piece, hmem, rfl⟩ | h
  · have hno := Lines.sep_not_mem_splitOn _ piece ((List.dropLast_sublist _).mem hmem)
    rw [stripReturn]
    split
    · exact fun h => hno ((List.dropLast_sublist _).mem h)
    · exact hno
  · exact Lines.sep_not_mem_splitOn _ line (List.mem_of_getLast? (Option.mem_toList.mp h))

/-- **The lines of the runtime configuration.** -/
theorem splitOn_sanitize (rawConfig : Text) :
    (sanitizeRuntimeConfig U rawConfig).splitOn '\n' = passed U rawConfig := by
  refine Lines.splitOn_trim (by decide) fun l hl => ?_
  exact newline_not_mem_splitLines (List.mem_filter.mp hl).1

/-! ## First words -/

/-- The text up to the first white space. -/
def firstWord (s : Text) : Text := s.takeWhile fun c => !isSpace c

theorem firstWord_append_of_space {s t : Text} (ht : ∀ c ∈ t.head?, isSpace c = true) :
    firstWord (s ++ t) = firstWord s := by
  have hnil : t.takeWhile (fun c => !isSpace c) = [] := by
    cases t with
    | nil => rfl
    | cons c t => rw [List.takeWhile_cons_of_neg]; rw [ht c rfl]; decide
  rw [firstWord, firstWord, List.takeWhile_append, hnil, List.append_nil]
  split
  · next hlength => exact ((List.takeWhile_sublist _).eq_of_length hlength).symm
  · rfl

theorem firstWord_trimEnd (s : Text) : firstWord (trimEnd s) = firstWord s := by
  have hs : s = trimEnd s ++ (s.reverse.takeWhile isSpace).reverse := by
    rw [trimEnd, trimStart, ← List.reverse_append, List.takeWhile_append_dropWhile,
      List.reverse_reverse]
  conv_rhs => rw [hs]
  refine (firstWord_append_of_space fun c hc => ?_).symm
  have hmem := List.mem_reverse.mp (List.mem_of_mem_head? hc)
  exact List.mem_takeWhile_imp hmem

theorem trimStart_of_firstWord {s : Text} (h : firstWord s ≠ []) : trimStart s = s := by
  refine dropWhile_of_head fun c hc => ?_
  obtain ⟨t, rfl⟩ := List.head?_eq_some_iff.mp hc
  by_contra hspace
  exact h (List.takeWhile_cons_of_neg (by simpa using hspace))

/-- The first word of a line, as the filter finds it. -/
theorem firstToken_of_firstWord (hd : firstWord (trimStart line) = d) (hne : d ≠ []) :
    firstToken U (trim line) = U.jsLower d ∧ (trim line).head? = d.head? := by
  have htrim : firstWord (trim line) = d := by rw [trim, firstWord_trimEnd, hd]
  have htwice : firstWord (trim (trim line)) = d := by
    rw [trim, firstWord_trimEnd, trimStart_of_firstWord (by rw [htrim]; exact hne), htrim]
  have hparts : (parts (trim (trim line))).headD [] = d := by
    have hsplit := (List.takeWhile_append_dropWhile (p := fun c => !isSpace c)
      (l := trim (trim line))).symm
    rw [← firstWord, htwice] at hsplit
    have hall : ∀ c ∈ d, isSpace c = false := by
      intro c hc
      rw [← htwice] at hc
      simpa using List.mem_takeWhile_imp hc
    rw [parts, hsplit]
    rcases hrest : (trim (trim line)).dropWhile (fun c => !isSpace c) with _ | ⟨c, rest⟩
    · rw [List.append_nil, List.splitOnP_eq_singleton hall]
      simp [hne]
    · have hc : isSpace c = true := by
        have hhead := List.head?_dropWhile_not (fun c => !isSpace c) (trim (trim line))
        rw [hrest] at hhead
        simpa using hhead
      rw [List.splitOnP_append_cons_of_forall_mem hall c hc]
      simp [hne]
  rw [firstToken, hparts]
  refine ⟨rfl, ?_⟩
  obtain ⟨c, t, rfl⟩ := List.exists_cons_of_ne_nil hne
  rcases hline : trim line with _ | ⟨c', s⟩
  · rw [hline] at htrim
    cases htrim
  · rw [hline, firstWord] at htrim
    cases hspace : isSpace c' with
    | true =>
      rw [List.takeWhile_cons_of_neg (by rw [hspace]; decide)] at htrim
      cases htrim
    | false =>
      rw [List.takeWhile_cons_of_pos (by rw [hspace]; rfl)] at htrim
      rw [(List.cons.inj htrim).1]
      rfl

theorem isSpace_of_isBlank {c : Char} (h : isBlank c = true) : isSpace c = true := by
  rw [isBlank, Bool.or_eq_true, Bool.and_eq_true, decide_eq_true_eq, decide_eq_true_eq,
    decide_eq_true_eq] at h
  simp only [isSpace, Bool.or_eq_true, Bool.and_eq_true, decide_eq_true_eq]
  omega

/-- The execution directives are words in lower case. -/
theorem execution_words : ∀ d ∈ EXECUTION_DIRECTIVES, IsAscii d ∧ lowerAscii d = d ∧
    d.any isSpace = false ∧ d ≠ [] ∧ d.head? ≠ some '#' ∧ d.head? ≠ some ';' ∧
      d.head? ≠ some '<' := by
  decide +kernel

/-- **What the filter lets through**: an execution directive in a line that passes is spelled with
quotes, a backslash or dashes. -/
theorem spelled_of_keeps (hline : line = front ++ l ++ back)
    (hfront : ∀ c ∈ front, isSpace c = true) (hback : ∀ c ∈ back, isSpace c = true)
    (hkeep : keeps U line = true) (hd : directive l = some d) (hexec : d ∈ EXECUTION_DIRECTIVES) :
    Spelled l := by
  by_contra hplain
  obtain ⟨rfl, -⟩ := directive_of_plain hplain hd
  obtain ⟨hascii, hlower, hspaces, hne, hnumber, hsemicolon, htag⟩ := execution_words _ hexec
  have hspace : ∀ c ∈ _, isSpace c = false := fun c hc =>
    Bool.eq_false_iff.mpr (List.any_eq_false.mp hspaces c hc)
  -- the line is white space, the directive, and what follows it
  set rest := (l.dropWhile isBlank).dropWhile (fun c => !isBlank c) with hrest
  have hsplit : l = l.takeWhile isBlank ++ (word l ++ rest) := by
    rw [word, hrest, List.takeWhile_append_dropWhile, List.takeWhile_append_dropWhile]
  have hstart : trimStart line = word l ++ (rest ++ back) := by
    have hblanks : ∀ c ∈ front ++ l.takeWhile isBlank, isSpace c = true := by
      intro c hc
      rcases List.mem_append.mp hc with hc | hc
      · exact hfront c hc
      · exact isSpace_of_isBlank (List.mem_takeWhile_imp hc)
    have hjoined : line = (front ++ l.takeWhile isBlank) ++ (word l ++ (rest ++ back)) := by
      rw [hline]
      conv_lhs => rw [hsplit]
      simp only [List.append_assoc]
    rw [hjoined, trimStart, List.dropWhile_append_of_pos hblanks]
    refine dropWhile_of_head fun c hc => ?_
    rw [List.head?_append_of_ne_nil _ hne] at hc
    exact hspace c (List.mem_of_mem_head? hc)
  have hword : firstWord (trimStart line) = word l := by
    rw [hstart, firstWord_append_of_space]
    · exact List.takeWhile_eq_self_iff.mpr fun c hc => by rw [hspace c hc]; rfl
    · intro c hc
      rw [List.head?_append] at hc
      cases hhead : rest.head? with
      | none =>
        rw [hhead] at hc
        exact hback c (List.mem_of_mem_head? hc)
      | some c' =>
        rw [hhead] at hc
        obtain rfl := Option.some.inj hc
        have hnot := List.head?_dropWhile_not (fun c => !isBlank c) (l.dropWhile isBlank)
        rw [← hrest, hhead] at hnot
        exact isSpace_of_isBlank (by simpa using hnot)
  obtain ⟨htoken, hhead⟩ := firstToken_of_firstWord (U := U) hword hne
  rw [U.jsLower_ascii _ hascii, hlower] at htoken
  have hskipped : skipped (trim line) = false := by
    rw [skipped, hhead]
    simp only [Bool.or_eq_false_iff, decide_eq_false_iff_not]
    refine ⟨⟨⟨?_, hnumber⟩, hsemicolon⟩, htag⟩
    intro hnil
    rw [hnil] at hhead
    obtain ⟨c, t, hc⟩ := List.exists_cons_of_ne_nil hne
    rw [hc] at hhead
    cases hhead
  rw [keeps, hskipped, htoken] at hkeep
  simp [hexec] at hkeep

/-- **Which configurations execute nothing**: a line outside an inline block that passes the filter
does not spell an execution directive with quotes, a backslash or dashes. -/
theorem runs_nothing_iff (rawConfig : Text) :
    (∀ d ∈ directives (sanitizeRuntimeConfig U rawConfig), d ∉ EXECUTION_DIRECTIVES) ↔
      ∀ l ∈ outside none (passed U rawConfig), Spelled l →
        ∀ d, directive l = some d → d ∉ EXECUTION_DIRECTIVES := by
  rw [directives, splitOn_sanitize]
  constructor
  · exact fun h l hl _ d hd => h d (List.mem_filterMap.mpr ⟨l, hl, hd⟩)
  · intro h d hmem hexec
    obtain ⟨l, hl, hd⟩ := List.mem_filterMap.mp hmem
    refine h l hl ?_ d hd hexec
    rcases Lines.mem_trim (mem_of_mem_outside hl) with rfl | ⟨k, hk, front, back, hline, hfront, hback⟩
    · cases hd
    · exact spelled_of_keeps hline hfront hback (List.mem_filter.mp hk).2 hd hexec

/-! ### Dashes -/

/-- A profile with a plugin. -/
def dashedPlugin : Text := "client\ndev tun\nremote vpn.example 1194\n--plugin /tmp/run.so".toList

/-- **The claim fails**: the profile is accepted, and so is what OpenVPN makes of it. -/
theorem dashed_plugin_runs : (validateOpenvpnConfig asciiOnly dashedPlugin).valid = true ∧
    "plugin".toList ∈ directives (sanitizeRuntimeConfig asciiOnly dashedPlugin) ∧
    "up".toList ∈ directives (sanitizeRuntimeConfig asciiOnly "\"up\" /bin/sh".toList) ∧
    "plugin".toList ∈ EXECUTION_DIRECTIVES ∧ "up".toList ∈ EXECUTION_DIRECTIVES := by
  decide +kernel

end IptvProxy.Vpn.Config
