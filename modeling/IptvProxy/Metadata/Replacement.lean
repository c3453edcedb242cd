import IptvProxy.Lib.Splice
import IptvProxy.Media.M3u
import IptvProxy.Metadata.Artwork

/-!
# Replacing what a regular expression captures

Three functions of `internal/proxy` find all matches of a regular expression and then replace the
first group of each one, from the last match to the first one: `replaceArtworkAttributeValues` of
`metadata_artwork.go`, `rewriteM3UEPGAttributesWithCredentials` of `m3u.go` and
`rewriteXtreamXMLURLs` of `xtream_urls.go`. Each iteration builds a new buffer, and the indices of
the matches that are left belong to the input.

`splicing_is_simultaneous`: no slice is out of range, each text that is looked up is the one that
the input has there, and the output is the input with all groups replaced at once. An expression is
a parameter, which gives the matches of a text. For the two expressions of `m3u.go` this is what
`Media.M3u` says that the function does (`rewriteM3UEPGAttributes_eq`).
-/

namespace IptvProxy.Metadata.Replacement

open Xtream Media Splice

/-- `FindAllSubmatchIndex` of an expression. -/
abbrev Expression := Bytes → List (List ℤ)

/-- `s[i:j]`, with `none` where it panics or reads behind the end. -/
def goSlice (s : Bytes) (i j : ℤ) : Option Bytes :=
  if 0 ≤ i ∧ i ≤ j ∧ j ≤ s.length then some (slice s (i.toNat, j.toNat)) else none

/-! ## The loop -/

/-- An iteration: `out`, and the texts that have been looked up. `replace` is `none` where it goes
on with the next match. -/
def spliceMatch (replace : Bytes → Option Bytes) (submatch : List ℤ) (out : Bytes)
    (looked : List Bytes) : Option (Bytes × List Bytes) :=
  match submatch with
  | _ :: _ :: first :: last :: _ =>
    if first < 0 ∨ last < 0 then some (out, looked)
    else do
      let raw ← goSlice out first last
      match replace raw with
      | none => some (out, raw :: looked)
      | some replacement =>
        let front ← goSlice out 0 first
        let back ← goSlice out last out.length
        some (front ++ replacement ++ back, raw :: looked)
  | _ => some (out, looked)

/-- The iterations from this index on, down to the first match. -/
def spliceFrom (replace : Bytes → Option Bytes) (submatches : List (List ℤ)) :
    ℕ → Bytes → List Bytes → Option (Bytes × List Bytes)
  | 0, out, looked => some (out, looked)
  | index + 1, out, looked =>
    (spliceMatch replace (submatches.getD index []) out looked).bind fun (out, looked) =>
      spliceFrom replace submatches index out looked

/-- The loop: `out` after it, and the texts that it has looked up, the last one first. -/
def spliceMatches (replace : Bytes → Option Bytes) (submatches : List (List ℤ)) (input : Bytes) :
    Option (Bytes × List Bytes) :=
  spliceFrom replace submatches submatches.length input []

/-! ## The three functions -/

/-- The entry of `rewrites`, if it is not empty. -/
def artworkReplacement (rewrites : List (Bytes × Bytes)) (raw : Bytes) : Option Bytes :=
  if rewriteOf rewrites raw = [] then none else some (rewriteOf rewrites raw)

/-- `replaceArtworkAttributeValues` -/
def replaceArtworkAttributeValues (input : Bytes) (expression : Expression)
    (rewrites : List (Bytes × Bytes)) : Option Bytes :=
  if expression input = [] then some input
  else (spliceMatches (artworkReplacement rewrites) (expression input) input).map Prod.fst

variable (L : Library) (p : Provider) (c : RewriteCredentials) (appURL : Bytes)

/-- The rewritten list of URLs, if it is another one. -/
def epgReplacement (raw : Bytes) : Option Bytes :=
  if M3u.rewriteM3UURLListWithCredentials L p c appURL raw = raw then none
  else some (M3u.rewriteM3UURLListWithCredentials L p c appURL raw)

/-- `rewriteM3UEPGAttributesWithCredentials`, with `m3uEPGDouble` and `m3uEPGSingle` -/
def rewriteM3UEPGAttributesWithCredentials (m3uEPGDouble m3uEPGSingle : Expression)
    (line : Bytes) : Option Bytes :=
  [m3uEPGDouble, m3uEPGSingle].foldlM (fun out expression =>
    (spliceMatches (epgReplacement L p c appURL) (expression out) out).map Prod.fst) line

/-- `rewriteXtreamXMLURLs`, with `xtreamCDATAURL` -/
def rewriteXtreamXMLURLs (xtreamCDATAURL : Expression) (clientUser : User)
    (publicBase body : Bytes) : Option Bytes :=
  if xtreamCDATAURL body = [] then some body
  else (spliceMatches (M3u.rewriteXtreamAbsoluteURLWithCredentials L p
    (clientXtreamCredentials clientUser) publicBase) (xtreamCDATAURL body) body).map Prod.fst

/-! ## At once -/

/-- The range of the first group, if it takes part in the match. -/
def captured : List ℤ → Option (ℕ × ℕ)
  | _ :: _ :: first :: last :: _ =>
    if first < 0 ∨ last < 0 then none else some (first.toNat, last.toNat)
  | _ => none

/-- The ranges that are replaced. -/
def ranges (submatches : List (List ℤ)) : List (ℕ × ℕ) := submatches.filterMap captured

/-- The ranges are disjoint, in increasing order and within the text. -/
def InOrder (input : Bytes) (submatches : List (List ℤ)) : Prop :=
  Increasing input.length (ranges submatches)

variable {L p c appURL} {replace : Bytes → Option Bytes} {submatches : List (List ℤ)}
  {submatch : List ℤ} {input out : Bytes} {looked : List Bytes} {r : ℕ × ℕ} {n : ℕ}

theorem captured_eq_some (h : captured submatch = some r) :
    ∃ (start stop : ℤ) (rest : List ℤ),
      submatch = start :: stop :: (r.1 : ℤ) :: (r.2 : ℤ) :: rest := by
  rw [captured.eq_def] at h
  split at h
  · next start stop first last rest =>
    split at h
    · cases h
    · next hneg =>
      obtain rfl := Option.some.inj h
      rw [not_or, Int.not_lt, Int.not_lt] at hneg
      refine ⟨start, stop, rest, ?_⟩
      rw [Int.toNat_of_nonneg hneg.1, Int.toNat_of_nonneg hneg.2]
  · cases h

theorem captured_natCast {start stop : ℤ} {i j : ℕ} :
    captured [start, stop, i, j] = some (i, j) := by
  have hneg : ¬((i : ℤ) < 0 ∨ (j : ℤ) < 0) := by omega
  rw [captured, if_neg hneg, Int.toNat_natCast, Int.toNat_natCast]

theorem goSlice_natCast {i j : ℕ} (hij : i ≤ j) (hj : j ≤ out.length) :
    goSlice out i j = some (slice out (i, j)) :=
  if_pos ⟨Int.natCast_nonneg i, Int.ofNat_le.mpr hij, Int.ofNat_le.mpr hj⟩

/-- A match without the group is passed over. -/
theorem spliceMatch_of_none (h : captured submatch = none) :
    spliceMatch replace submatch out looked = some (out, looked) := by
  rw [captured.eq_def] at h
  rw [spliceMatch.eq_def]
  split
  · dsimp only at h
    split at h
    · next hneg => rw [if_pos hneg]
    · cases h
  · rfl

/-- **Step**: an iteration replaces the range in the buffer and looks up what it holds there. -/
theorem spliceMatch_of_some (h : captured submatch = some r) (hr : r.1 ≤ r.2)
    (hend : r.2 ≤ out.length) :
    spliceMatch replace submatch out looked =
      some (replaceRange replace r out, slice out r :: looked) := by
  obtain ⟨start, stop, rest, rfl⟩ := captured_eq_some h
  have hneg : ¬((r.1 : ℤ) < 0 ∨ (r.2 : ℤ) < 0) := by omega
  rw [spliceMatch, if_neg hneg, goSlice_natCast hr hend, Option.bind_eq_bind, Option.bind_some,
    replaceRange]
  cases replace (slice out r) with
  | none => rfl
  | some replacement =>
    have hfront : goSlice out 0 r.1 = some (out.take r.1) :=
      goSlice_natCast (i := 0) (Nat.zero_le _) (hr.trans hend)
    have hback : goSlice out r.2 out.length = some (out.drop r.2) := by
      rw [goSlice_natCast hend (Nat.le_refl _), slice, List.take_length]
    dsimp only
    rw [hfront, hback]
    rfl

/-- **Run**: the iterations replace the ranges from back to front, and look up what each one holds
when they get there. -/
theorem spliceFrom_eq (h : InOrder input submatches) (hn : n ≤ submatches.length) :
    spliceFrom replace submatches n (spliceBack replace input (ranges (submatches.drop n)))
        (reads replace input (ranges (submatches.drop n))) =
      some (spliceBack replace input (ranges submatches),
        reads replace input (ranges submatches)) := by
  induction n with
  | zero => rfl
  | succ n ih =>
    have hdrop : submatches.drop n = submatches.getD n [] :: submatches.drop (n + 1) := by
      rw [List.drop_eq_getElem_cons hn, List.getD_eq_getElem _ _ hn]
    have hincreasing : Increasing input.length (ranges (submatches.drop n)) :=
      h.sublist ((List.drop_suffix n submatches).filterMap captured).sublist
    have hstep : spliceMatch replace (submatches.getD n [])
        (spliceBack replace input (ranges (submatches.drop (n + 1))))
        (reads replace input (ranges (submatches.drop (n + 1)))) =
        some (spliceBack replace input (ranges (submatches.drop n)),
          reads replace input (ranges (submatches.drop n))) := by
      cases hfound : captured (submatches.getD n []) with
      | none =>
        have hranges : ranges (submatches.drop n) = ranges (submatches.drop (n + 1)) := by
          rw [ranges, hdrop, List.filterMap_cons_none hfound, ← ranges]
        rw [spliceMatch_of_none hfound, hranges]
      | some r =>
        have hranges : ranges (submatches.drop n) = r :: ranges (submatches.drop (n + 1)) := by
          rw [ranges, hdrop, List.filterMap_cons_some hfound, ← ranges]
        rw [hranges] at hincreasing ⊢
        rw [spliceMatch_of_some hfound (hincreasing.within r List.mem_cons_self).1
          (le_length_spliceBack hincreasing), spliceBack_cons, reads]
    rw [spliceFrom, hstep, Option.bind_some]
    exact ih (Nat.le_of_succ_le hn)

/-- **The loop replaces all ranges at once**, and what it looks up is what the input has there. -/
theorem spliceMatches_eq (h : InOrder input submatches) :
    spliceMatches replace submatches input =
      some (replaceRanges replace input 0 (ranges submatches),
        (ranges submatches).map (slice input)) := by
  have hrun := @spliceFrom_eq replace submatches input _ h (Nat.le_refl _)
  rw [List.drop_length] at hrun
  rw [spliceMatches, ← spliceBack_eq h, ← reads_eq h, ← hrun]
  rfl

/-- The output of the loop. -/
theorem spliceMatches_fst (h : InOrder input submatches) :
    (spliceMatches replace submatches input).map Prod.fst =
      some (replaceRanges replace input 0 (ranges submatches)) := by
  rw [spliceMatches_eq h]
  rfl

theorem replaceArtworkAttributeValues_eq {expression : Expression}
    (h : InOrder input (expression input)) (rewrites : List (Bytes × Bytes)) :
    replaceArtworkAttributeValues input expression rewrites =
      some (replaceRanges (artworkReplacement rewrites) input 0 (ranges (expression input))) := by
  rw [replaceArtworkAttributeValues]
  split
  · next hnil =>
    rw [hnil]
    rfl
  · exact spliceMatches_fst h

theorem rewriteXtreamXMLURLs_eq {xtreamCDATAURL : Expression}
    (h : InOrder input (xtreamCDATAURL input)) (clientUser : User) (publicBase : Bytes) :
    rewriteXtreamXMLURLs L p xtreamCDATAURL clientUser publicBase input =
      some (replaceRanges (M3u.rewriteXtreamAbsoluteURLWithCredentials L p
        (clientXtreamCredentials clientUser) publicBase) input 0
        (ranges (xtreamCDATAURL input))) := by
  rw [rewriteXtreamXMLURLs]
  split
  · next hnil =>
    rw [hnil]
    rfl
  · exact spliceMatches_fst h

/-- The second expression is matched against what the first loop has made. -/
theorem rewriteM3UEPGAttributesWithCredentials_eq {m3uEPGDouble m3uEPGSingle : Expression}
    (h : InOrder input (m3uEPGDouble input))
    (hout : out = replaceRanges (epgReplacement L p c appURL) input 0 (ranges (m3uEPGDouble input)))
    (h' : InOrder out (m3uEPGSingle out)) :
    rewriteM3UEPGAttributesWithCredentials L p c appURL m3uEPGDouble m3uEPGSingle input =
      some (replaceRanges (epgReplacement L p c appURL) out 0 (ranges (m3uEPGSingle out))) := by
  rw [rewriteM3UEPGAttributesWithCredentials, List.foldlM_cons, spliceMatches_fst h, ← hout,
    Option.bind_eq_bind, Option.bind_some, List.foldlM_cons, spliceMatches_fst h']
  rfl

/-! ## The attributes of a playlist -/

/-- The matches of `m3uEPGDouble` or of `m3uEPGSingle`, whose quote is `q`, from this place on.
`word` says whether a word goes on here. -/
def epgMatches (q : Byte) : ℕ → Bool → ℕ → Bytes → List (List ℤ)
  | 0, _, _, _ => []
  | _, _, _, [] => []
  | n + 1, word, start, b :: s =>
    match if word then none else M3u.epgAttribute q (b :: s) with
    | some (front, value) =>
      [(start : ℤ), ↑(start + front.length + value.length + 1), ↑(start + front.length),
          ↑(start + front.length + value.length)] ::
        epgMatches q n false (start + front.length + value.length + 1)
          ((b :: s).drop (front.length + value.length + 1))
    | none => epgMatches q n (M3u.isWordByte b) (start + 1) s

/-- `m3uEPGDouble`, or `m3uEPGSingle` -/
def epgExpression (q : Byte) : Expression := fun s => epgMatches q s.length false 0 s

theorem exists_takeWhile_append {q : Byte} {s : Bytes} (h : q ∈ s) :
    ∃ rest, s = s.takeWhile (· ≠ q) ++ q :: rest := by
  obtain ⟨front, rest, hs, hfront⟩ := List.eq_append_cons_of_mem h
  have hkeep : ∀ b ∈ front, decide (b ≠ q) = true := fun b hb =>
    decide_eq_true fun hbq => hfront (hbq ▸ hb)
  refine ⟨rest, ?_⟩
  rw [hs, List.takeWhile_append_of_pos hkeep, List.takeWhile_cons_of_neg (by simp),
    List.append_nil]

/-- A match: the name and the quote, the value, and the quote again. -/
theorem epgAttribute_eq {q : Byte} {s front value : Bytes}
    (h : M3u.epgAttribute q s = some (front, value)) :
    ∃ rest, s = front ++ (value ++ q :: rest) := by
  rw [M3u.epgAttribute] at h
  split at h
  · cases h
  · next n _ =>
    split at h
    · cases h
    · next rest hrest =>
      split at h
      · next hq =>
        obtain ⟨rfl, rfl⟩ := Prod.mk.inj (Option.some.inj h)
        obtain ⟨front, hfront⟩ := (M3u.afterQuote_suffix hrest).trans (List.drop_suffix n s)
        obtain ⟨tail, htail⟩ := exists_takeWhile_append hq
        refine ⟨tail, ?_⟩
        rw [← htail, ← hfront, List.length_append, Nat.add_sub_cancel, List.take_left']
        rfl
      · cases h

variable {f : Bytes → Bytes} {q : Byte}

theorem le_length_of_drop {b : Byte} {rest : Bytes} (h : input.drop n = b :: rest) :
    n + 1 ≤ input.length := by
  by_contra hle
  rw [List.drop_eq_nil_of_le (by omega)] at h
  cases h

/-- **What `epgMatches` finds**, from a place of the input on: its ranges are in order, they start
behind that place, and replacing them is what `replaceAttributes` does. -/
theorem epgMatches_spec (hreplace : ∀ raw, (replace raw).getD raw = f raw) (n : ℕ) (word : Bool)
    {start : ℕ} {s : Bytes} (h : input.drop start = s) :
    InOrder input (epgMatches q n word start s) ∧
      (∀ r ∈ ranges (epgMatches q n word start s), start ≤ r.1) ∧
      replaceRanges replace input start (ranges (epgMatches q n word start s)) =
        M3u.replaceAttributes f q n word s := by
  induction n generalizing word start s with
  | zero => exact ⟨Increasing.nil, List.forall_mem_nil _, h⟩
  | succ n ih =>
    cases s with
    | nil => exact ⟨Increasing.nil, List.forall_mem_nil _, h⟩
    | cons b s =>
      rw [epgMatches, M3u.replaceAttributes]
      cases hfound : (if word then none else M3u.epgAttribute q (b :: s)) with
      | none =>
        obtain ⟨hb, hrest⟩ := @slice_of_drop _ input start [b] s h
        rw [List.length_singleton] at hb hrest
        obtain ⟨horder, hbehind, heq⟩ := ih (M3u.isWordByte b) hrest
        refine ⟨horder, fun r hr => Nat.le_of_succ_le (hbehind r hr), ?_⟩
        dsimp only
        rw [replaceRanges_eq_append (Nat.le_succ start) hbehind, heq, hb, List.singleton_append]
      | some found =>
        obtain ⟨front, value⟩ := found
        have hattribute : M3u.epgAttribute q (b :: s) = some (front, value) := by
          cases word with
          | false => exact hfound
          | true => cases hfound
        obtain ⟨rest, hs⟩ := epgAttribute_eq hattribute
        rw [hs] at h
        obtain ⟨hfront, h⟩ := slice_of_drop h
        obtain ⟨hvalue, h⟩ := slice_of_drop h
        obtain ⟨hquote, hrest⟩ := @slice_of_drop _ input _ [q] rest h
        rw [List.length_singleton] at hquote hrest
        have hnext : (b :: s).drop (front.length + value.length + 1) = rest := by
          have hwhole : b :: s = (front ++ (value ++ [q])) ++ rest := by
            rw [hs, List.append_assoc, List.append_assoc, List.singleton_append]
          rw [hwhole, List.drop_left']
          rw [List.length_append, List.length_append, List.length_singleton, Nat.add_assoc]
        obtain ⟨horder, hbehind, heq⟩ := ih false hrest
        dsimp only
        rw [hnext]
        have hranges : ranges ([(start : ℤ), ↑(start + front.length + value.length + 1),
              ↑(start + front.length), ↑(start + front.length + value.length)] ::
            epgMatches q n false (start + front.length + value.length + 1) rest) =
            (start + front.length, start + front.length + value.length) ::
              ranges (epgMatches q n false (start + front.length + value.length + 1) rest) :=
          List.filterMap_cons_some captured_natCast
        have hlast := le_length_of_drop h
        have hlater : ∀ r ∈ ranges (epgMatches q n false
            (start + front.length + value.length + 1) rest),
            start + front.length + value.length ≤ r.1 :=
          fun r hr => Nat.le_of_succ_le (hbehind r hr)
        refine ⟨?_, ?_, ?_⟩
        · rw [InOrder, hranges]
          exact horder.cons (Nat.le_add_right _ _) (Nat.le_of_succ_le hlast) hlater
        · rw [hranges, List.forall_mem_cons]
          exact ⟨Nat.le_add_right _ _, fun r hr => by have := hlater r hr; omega⟩
        · rw [hranges, replaceRanges, hfront, hvalue, hreplace,
            replaceRanges_eq_append (Nat.le_succ _) hbehind, hquote, heq, List.singleton_append]

theorem epgExpression_spec (hreplace : ∀ raw, (replace raw).getD raw = f raw) (input : Bytes) :
    InOrder input (epgExpression q input) ∧
      replaceRanges replace input 0 (ranges (epgExpression q input)) =
        M3u.replaceAttributes f q input.length false input := by
  obtain ⟨horder, -, heq⟩ :=
    @epgMatches_spec _ input _ q hreplace input.length false 0 input rfl
  exact ⟨horder, heq⟩

/-- For the two expressions, what `Media.M3u` says. -/
theorem rewriteM3UEPGAttributes_eq (line : Bytes) :
    rewriteM3UEPGAttributesWithCredentials L p c appURL (epgExpression 34) (epgExpression 39) line =
      some (M3u.rewriteM3UEPGAttributesWithCredentials L p c appURL line) := by
  have hreplace : ∀ raw, (epgReplacement L p c appURL raw).getD raw =
      M3u.rewriteM3UURLListWithCredentials L p c appURL raw := by
    intro raw
    rw [epgReplacement]
    split
    · next hsame => exact hsame.symm
    · rfl
  obtain ⟨hdouble, heq⟩ := epgExpression_spec (q := 34) hreplace line
  obtain ⟨hsingle, heq'⟩ := epgExpression_spec (q := 39) hreplace
    (replaceRanges (epgReplacement L p c appURL) line 0 (ranges (epgExpression 34 line)))
  rw [rewriteM3UEPGAttributesWithCredentials_eq hdouble rfl hsingle, heq', heq]
  rfl

/-! ## The three loops -/

/-- **Splicing is simultaneous replacement**, whatever the expression and whatever the replacement,
as long as the ranges of the matches are in order: each text that is looked up is the one of the
input, and the three functions return the gaps of the input and for each range its replacement or
its own text. -/
theorem splicing_is_simultaneous (L : Library) (p : Provider) (c : RewriteCredentials)
    (clientUser : User) (appURL publicBase : Bytes) (rewrites : List (Bytes × Bytes))
    (replace : Bytes → Option Bytes) (expression : Expression) (input : Bytes)
    (h : InOrder input (expression input)) :
    spliceMatches replace (expression input) input =
        some (replaceRanges replace input 0 (ranges (expression input)),
          (ranges (expression input)).map (slice input)) ∧
      replaceArtworkAttributeValues input expression rewrites =
        some (replaceRanges (artworkReplacement rewrites) input 0 (ranges (expression input))) ∧
      (∀ (m3uEPGSingle : Expression) (out : Bytes),
        out = replaceRanges (epgReplacement L p c appURL) input 0 (ranges (expression input)) →
        InOrder out (m3uEPGSingle out) →
        rewriteM3UEPGAttributesWithCredentials L p c appURL expression m3uEPGSingle input =
          some (replaceRanges (epgReplacement L p c appURL) out 0 (ranges (m3uEPGSingle out)))) ∧
      rewriteXtreamXMLURLs L p expression clientUser publicBase input =
        some (replaceRanges (M3u.rewriteXtreamAbsoluteURLWithCredentials L p
          (clientXtreamCredentials clientUser) publicBase) input 0 (ranges (expression input))) :=
  ⟨spliceMatches_eq h, replaceArtworkAttributeValues_eq h rewrites,
    fun _ _ hout h' => rewriteM3UEPGAttributesWithCredentials_eq h hout h',
    rewriteXtreamXMLURLs_eq h clientUser publicBase⟩

/-- A cover and a logo. -/
def sampleText : Bytes := ascii "cover=\"a\" logo=\"bb\""

/-- The matches of both attributes. -/
def sampleMatches : List (List ℤ) := [[0, 9, 7, 8], [10, 19, 16, 18]]

/-- One replacement is longer, the other one is shorter. -/
def sampleRewrites : List (Bytes × Bytes) := [(ascii "a", ascii "http"), (ascii "bb", ascii "c")]

/-- Both values are those of the text, and are replaced there. -/
theorem splicing_of_two :
    spliceMatches (artworkReplacement sampleRewrites) sampleMatches sampleText =
        some (ascii "cover=\"http\" logo=\"c\"", [ascii "a", ascii "bb"]) ∧
      rewriteM3UEPGAttributesWithCredentials asciiLibrary (sampleProvider []) M3u.sampleCredentials
        M3u.sampleApp (fun _ => sampleMatches) (fun _ => []) sampleText =
      some (replaceRanges (epgReplacement asciiLibrary (sampleProvider []) M3u.sampleCredentials
        M3u.sampleApp) sampleText 0 (ranges sampleMatches)) := by
  obtain ⟨hloop, -, hm3u, -⟩ := splicing_is_simultaneous asciiLibrary (sampleProvider [])
    M3u.sampleCredentials User.zero M3u.sampleApp [] sampleRewrites
    (artworkReplacement sampleRewrites) (fun _ => sampleMatches) sampleText
    ⟨by decide, by decide⟩
  have hnone (replace : Bytes → Option Bytes) (out : Bytes) :
      replaceRanges replace out 0 (ranges []) = out := rfl
  have hsingle := hm3u (fun _ => []) _ rfl Increasing.nil
  rw [hnone] at hsingle
  exact ⟨hloop.trans (by decide), hsingle⟩

end IptvProxy.Metadata.Replacement
