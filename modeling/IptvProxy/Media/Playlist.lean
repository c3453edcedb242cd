import IptvProxy.Lib.Lines
import IptvProxy.Lib.Utf8
import IptvProxy.Media.Reference

/-!
# Rewriting of HLS playlists

`rewritePlaylist`, `rewriteURIAttributes` and `storeHLSTarget` of `internal/proxy/hls.go`. What is
written is kept as a list that tells the copied bytes from the proxy URLs; `render` is the text.

The regular expression `URI="([^"]+)"` does not know which quotes open a value, so it may match
between two values, and the JSON under a token holds only valid UTF-8. `playlist_rewritten_iff` says
that nothing else goes wrong, on the line cut at its quotes: a quoted value that ends in `URI=` puts
the matches out of step, unless everything they take from there on is a data URL.
-/

namespace IptvProxy.Media.Playlist

open Xtream Catchup
open Utf8 (jsonText)

/-- `"` -/
def quote : Byte := 34
/-- a line feed -/
def newline : Byte := 10

/-- `maxHLSPlaylistBytes` -/
def maxHLSPlaylistBytes : ℕ := 8 * 1024 * 1024

/-! ## Tokens -/

/-- The random tokens that have been drawn, and what is stored under the keys. -/
structure Tokens where
  /-- the number of tokens -/
  drawn : ℕ
  /-- the keys of Redis -/
  store : Bytes → Option Target

/-- What is written to the output. -/
inductive Written where
  /-- a byte of the line -/
  | copied (c : Byte)
  /-- the proxy URL with this token -/
  | proxied (token : Bytes)
  deriving DecidableEq

/-- The errors of `rewritePlaylist`. -/
inductive Error where
  /-- `url.Parse` -/
  | parse
  /-- `unsupported HLS child URL scheme` -/
  | scheme
  /-- `bufio.ErrTooLong` -/
  | tooLong
  deriving DecidableEq

variable (fresh : ℕ → Bytes) (p : Provider) (base : Reference)

/-- The resolution of a reference. -/
def resolve (raw : Bytes) : Option Reference := (Reference.parse raw).map base.resolve

/-- It resolves to a data URL. -/
def isData (raw : Bytes) : Bool :=
  (resolve base raw).any fun target => equalFold target.scheme (ascii "data")

/-- What `serveHLSToken` reads of the `hlsTarget` for a URL. -/
def storedTarget (target : Reference) : Target := ⟨jsonText p.id, jsonText target.text⟩

/-- `storeHLSTarget` -/
def storeHLSTarget (raw : Bytes) (s : Tokens) : Except Error (List Written × Tokens) :=
  match resolve base raw with
  | none => .error .parse
  | some target =>
    if equalFold target.scheme (ascii "data") then .ok (raw.map .copied, s)
    else if isWeb target.scheme = false then .error .scheme
    else .ok ([.proxied (fresh s.drawn)],
      ⟨s.drawn + 1,
        Function.update s.store (hlsTokenKey (fresh s.drawn)) (some (storedTarget p target))⟩)

/-- The text of what is written; the proxy URL starts with the public base and the route. -/
def render (appURL : Bytes) (out : List (List Written)) : Bytes :=
  let route := trimSlashes p.route
  let start := appURL ++ (if route ≠ [] then slash :: route else []) ++ ascii "/_hls/"
  out.flatMap fun line => line.flatMap (fun w => match w with
    | .copied c => [c]
    | .proxied token => start ++ token) ++ [newline]

/-! ## Tag lines -/

/-- A part of a line: a byte, or a reference. -/
inductive Piece where
  | copied (c : Byte)
  | reference (raw : Bytes)
  deriving DecidableEq

/-- The line with these pieces. -/
def restore (pieces : List Piece) : Bytes :=
  pieces.flatMap fun piece => match piece with
    | .copied c => [c]
    | .reference raw => raw

/-- `URI="` -/
def uriStart : Bytes := ascii "URI=" ++ [quote]

/-- The value of a match of `uriAttribute` at the start of a text. -/
def uriAttribute (s : Bytes) : Option Bytes :=
  let rest := s.drop uriStart.length
  let value := rest.takeWhile (· ≠ quote)
  if uriStart.isPrefixOf s = true ∧ value ≠ [] ∧ quote ∈ rest then some value else none

/-- `uriAttribute.FindAllStringSubmatchIndex`, from left to right; the first `n` bytes belong to the
match before. -/
def findAll : ℕ → Bytes → List Piece
  | _, [] => []
  | n + 1, _ :: s => findAll n s
  | 0, c :: s =>
    match uriAttribute (c :: s) with
    | some value => uriStart.map .copied ++ .reference value :: .copied quote ::
        findAll (uriStart.length + value.length) s
    | none => .copied c :: findAll 0 s

/-- The pieces of a tag line as `rewriteURIAttributes` finds them. -/
def matchedPieces (line : Bytes) : List Piece := findAll 0 line

/-- Write the pieces. -/
def rewritePieces : List Piece → Tokens → Except Error (List Written × Tokens)
  | [], s => .ok ([], s)
  | .copied c :: pieces, s =>
    match rewritePieces pieces s with
    | .error e => .error e
    | .ok (out, s) => .ok (.copied c :: out, s)
  | .reference raw :: pieces, s =>
    match storeHLSTarget fresh p base raw s with
    | .error e => .error e
    | .ok (written, s) =>
      match rewritePieces pieces s with
      | .error e => .error e
      | .ok (out, s) => .ok (written ++ out, s)

/-- `rewriteURIAttributes` -/
def rewriteURIAttributes (line : Bytes) (s : Tokens) : Except Error (List Written × Tokens) :=
  rewritePieces fresh p base (matchedPieces line) s

/-! ## The loop -/

/-- The lines of `bufio.Scanner`, with their ends. -/
def rawLines (body : Bytes) : List Bytes :=
  let parts := body.splitOn newline
  if parts.getLast? = some [] then parts.dropLast else parts

/-- The lines as the loop sees them: without a carriage return at the end, and the first one without
a byte order mark. -/
def playlistLines (body : Bytes) : List Bytes :=
  match (rawLines body).map fun line => if line.getLast? = some 13 then line.dropLast else line with
  | [] => []
  | line :: lines =>
    (if [0xEF, 0xBB, 0xBF].isPrefixOf line then line.drop 3 else line) :: lines

/-- The body of the loop. -/
def rewriteLine (line : Bytes) (s : Tokens) : Except Error (List Written × Tokens) :=
  let trimmed := trimSpace line
  if trimmed.head? = some number then rewriteURIAttributes fresh p base trimmed s
  else if trimmed ≠ [] then storeHLSTarget fresh p base trimmed s
  else .ok (line.map .copied, s)

/-- The loop. -/
def rewriteLines : List Bytes → Tokens → Except Error (List (List Written) × Tokens)
  | [], s => .ok ([], s)
  | line :: lines, s =>
    match rewriteLine fresh p base line s with
    | .error e => .error e
    | .ok (written, s) =>
      match rewriteLines lines s with
      | .error e => .error e
      | .ok (out, s) => .ok (written :: out, s)

/-- `rewritePlaylist` -/
def rewritePlaylist (body : Bytes) (s : Tokens) : Except Error (List (List Written) × Tokens) :=
  if (rawLines body).any fun line => maxHLSPlaylistBytes ≤ line.length then .error .tooLong
  else rewriteLines fresh p base (playlistLines body) s

/-! ## What should be rewritten -/

/-- The pieces of a line that is cut at its quotes: every second part is a quoted value, if it is
closed. The references are the values that follow `URI=` and are not empty. -/
def quotedPiecesOf : List Bytes → List Piece
  | [] => []
  | [text] => text.map .copied
  | [text, unclosed] => text.map .copied ++ .copied quote :: unclosed.map .copied
  | text :: value :: rest :: parts =>
    text.map .copied ++ .copied quote ::
      ((if (ascii "URI=").isSuffixOf text = true ∧ value ≠ [] then [.reference value]
        else value.map .copied) ++ .copied quote :: quotedPiecesOf (rest :: parts))

/-- The pieces of a tag line. -/
def quotedPieces (line : Bytes) : List Piece := quotedPiecesOf (line.splitOn quote)

/-- References that resolve to data URLs stay as they are. -/
def inlineData (pieces : List Piece) : List Piece :=
  pieces.flatMap fun piece => match piece with
    | .copied c => [.copied c]
    | .reference raw => if isData base raw then raw.map .copied else [.reference raw]

/-- The pieces of a line, for the pieces of tag lines. -/
def linePieces (tagPieces : Bytes → List Piece) (line : Bytes) : List Piece :=
  let trimmed := trimSpace line
  inlineData base <|
    if trimmed.head? = some number then tagPieces trimmed
    else if trimmed ≠ [] then [.reference trimmed]
    else line.map .copied

/-- How a piece is written: a byte as it is, a reference as a proxy URL for its resolution. -/
def Replaced (s : Tokens) : Piece → Written → Prop
  | .copied c, .copied c' => c = c'
  | .reference raw, .proxied token => ∃ target, resolve base raw = some target ∧
      s.store (hlsTokenKey token) = some ⟨p.id, target.text⟩
  | _, _ => False

/-- The output has a line for every line, and each of its pieces is replaced. -/
def PlaylistRewritten (body : Bytes) (out : List (List Written)) (s : Tokens) : Prop :=
  List.Forall₂ (fun line written =>
    List.Forall₂ (Replaced p base s) (linePieces base quotedPieces line) written)
    (playlistLines body) out

/-- A part of a line, behind this text and in front of these parts, is a value after `URI=`: it is
not empty, and a quote closes it. -/
def isValue (text value : Bytes) (parts : List Bytes) : Prop :=
  (ascii "URI=").isSuffixOf text = true ∧ value ≠ [] ∧ parts ≠ []

instance (text value : Bytes) (parts : List Bytes) : Decidable (isValue text value parts) :=
  inferInstanceAs (Decidable (_ ∧ _))

/-- As long as a part ends in `URI=`, the value behind it is a data URL. -/
def RunOfData : List Bytes → Prop
  | text :: value :: parts =>
    isValue text value parts → isData base value = true ∧ RunOfData (value :: parts)
  | _ => True

/-- From every quoted value that is not itself after `URI=`, a run of data URLs starts. Most such
values do not end in `URI=`, and there is nothing in the run. -/
def InStep : List Bytes → Prop
  | text :: value :: parts =>
    (¬ isValue text value parts → RunOfData base (value :: parts)) ∧ InStep parts
  | _ => True

instance decidableRunOfData : ∀ parts : List Bytes, Decidable (RunOfData base parts)
  | [] => .isTrue trivial
  | [_] => .isTrue trivial
  | _ :: value :: parts =>
    have := decidableRunOfData (value :: parts)
    inferInstanceAs (Decidable (_ → _ ∧ _))

instance decidableInStep : ∀ parts : List Bytes, Decidable (InStep base parts)
  | [] => .isTrue trivial
  | [_] => .isTrue trivial
  | _ :: _ :: parts =>
    have := decidableInStep parts
    inferInstanceAs (Decidable ((_ → _) ∧ _))

/-- The quotes of every tag line are in step, and the provider and the resolutions of the references
are valid UTF-8. -/
structure Faithful (body : Bytes) : Prop where
  /-- no value misleads the matches -/
  inStep : ∀ line ∈ playlistLines body, (trimSpace line).head? = some number →
    InStep base ((trimSpace line).splitOn quote)
  /-- JSON can hold what is stored -/
  valid : ∀ line ∈ playlistLines body, ∀ raw target,
    .reference raw ∈ linePieces base quotedPieces line → resolve base raw = some target →
      Utf8.Valid p.id ∧ Utf8.Valid target.text

variable {fresh p base} {s s' s'' : Tokens} {raw line body : Bytes} {pieces pieces' : List Piece}

/-! ## What is stored stays -/

/-- A later state: more tokens, and the same under the tokens from before. -/
structure Later (fresh : ℕ → Bytes) (s s' : Tokens) : Prop where
  drawn : s.drawn ≤ s'.drawn
  kept : ∀ n < s.drawn, s'.store (hlsTokenKey (fresh n)) = s.store (hlsTokenKey (fresh n))

theorem Later.refl (s : Tokens) : Later fresh s s := ⟨le_rfl, fun _ _ => rfl⟩

theorem Later.trans (h : Later fresh s s') (h' : Later fresh s' s'') : Later fresh s s'' :=
  ⟨h.drawn.trans h'.drawn, fun n hn => (h'.kept n (hn.trans_le h.drawn)).trans (h.kept n hn)⟩

/-- How a piece is written by the code. -/
def Wrote (fresh : ℕ → Bytes) (p : Provider) (base : Reference) (s : Tokens) :
    Piece → Written → Prop
  | .copied c, .copied c' => c = c'
  | .reference raw, .proxied token => ∃ target n, resolve base raw = some target ∧
      n < s.drawn ∧ token = fresh n ∧ s.store (hlsTokenKey token) = some (storedTarget p target)
  | _, _ => False

theorem Wrote.later {piece : Piece} {w : Written} (h : Later fresh s s')
    (hw : Wrote fresh p base s piece w) : Wrote fresh p base s' piece w := by
  cases piece with
  | copied c =>
    cases w with
    | copied c' => exact hw
    | proxied token => exact hw
  | reference raw =>
    cases w with
    | copied c => exact hw
    | proxied token =>
      obtain ⟨target, n, htarget, hn, rfl, hstored⟩ := hw
      exact ⟨target, n, htarget, hn.trans_le h.drawn, rfl, (h.kept n hn).trans hstored⟩

theorem forall₂_copied {R : Piece → Written → Prop} (hR : ∀ c, R (.copied c) (.copied c))
    (text : Bytes) : List.Forall₂ R (text.map .copied) (text.map .copied) := by
  rw [List.forall₂_map_left_iff, List.forall₂_map_right_iff, List.forall₂_same]
  exact fun c _ => hR c

/-- One reference. -/
theorem wrote_storeHLSTarget (hfresh : Function.Injective fresh) {written : List Written}
    (h : storeHLSTarget fresh p base raw s = .ok (written, s')) :
    Later fresh s s' ∧
      List.Forall₂ (Wrote fresh p base s') (inlineData base [.reference raw]) written := by
  rw [storeHLSTarget] at h
  have hinline : inlineData base [.reference raw] =
      if isData base raw then raw.map .copied else [.reference raw] := List.append_nil _
  rw [hinline, isData]
  rcases htarget : resolve base raw with _ | target
  · rw [htarget] at h
    cases h
  · rw [htarget] at h
    dsimp only at h
    rw [Option.any_some]
    split at h
    · next hdata =>
      obtain ⟨rfl, rfl⟩ := Prod.mk.inj (Except.ok.inj h)
      rw [if_pos hdata]
      exact ⟨.refl _, forall₂_copied (fun _ => rfl) raw⟩
    · next hdata =>
      split at h
      · cases h
      · obtain ⟨rfl, rfl⟩ := Prod.mk.inj (Except.ok.inj h)
        rw [if_neg hdata]
        refine ⟨⟨Nat.le_succ _, fun n hn => ?_⟩, .cons ?_ .nil⟩
        · refine Function.update_of_ne (fun heq => ?_) _ _
          exact hn.ne (hfresh (List.append_cancel_left heq))
        · exact ⟨target, s.drawn, htarget, Nat.lt_succ_self _, rfl, Function.update_self ..⟩

theorem inlineData_cons (piece : Piece) (pieces : List Piece) :
    inlineData base (piece :: pieces) = inlineData base [piece] ++ inlineData base pieces := by
  rw [inlineData, inlineData, inlineData, List.flatMap_cons, List.flatMap_cons, List.flatMap_nil,
    List.append_nil]

/-- All pieces of a line. -/
theorem wrote_rewritePieces (hfresh : Function.Injective fresh) {written : List Written}
    (h : rewritePieces fresh p base pieces s = .ok (written, s')) :
    Later fresh s s' ∧
      List.Forall₂ (Wrote fresh p base s') (inlineData base pieces) written := by
  induction pieces generalizing s written with
  | nil =>
    obtain ⟨rfl, rfl⟩ := Prod.mk.inj (Except.ok.inj h)
    exact ⟨.refl _, .nil⟩
  | cons piece pieces ih =>
    rw [inlineData_cons]
    cases piece with
    | copied c =>
      rw [rewritePieces] at h
      split at h
      · cases h
      · next hrest =>
        obtain ⟨rfl, rfl⟩ := Prod.mk.inj (Except.ok.inj h)
        obtain ⟨hlater, hout⟩ := ih hrest
        exact ⟨hlater, .cons rfl hout⟩
    | reference raw =>
      rw [rewritePieces] at h
      split at h
      · cases h
      · next hfirst =>
        split at h
        · cases h
        · next hrest =>
          obtain ⟨rfl, rfl⟩ := Prod.mk.inj (Except.ok.inj h)
          obtain ⟨hlater, hwritten⟩ := wrote_storeHLSTarget hfresh hfirst
          obtain ⟨hlater', hout⟩ := ih hrest
          exact ⟨hlater.trans hlater',
            List.rel_append (hwritten.imp fun _ _ hw => hw.later hlater') hout⟩

/-- One line. -/
theorem wrote_rewriteLine (hfresh : Function.Injective fresh) {written : List Written}
    (h : rewriteLine fresh p base line s = .ok (written, s')) :
    Later fresh s s' ∧
      List.Forall₂ (Wrote fresh p base s') (linePieces base matchedPieces line) written := by
  rw [rewriteLine] at h
  rw [linePieces]
  split at h
  · next htag =>
    rw [if_pos htag]
    exact wrote_rewritePieces hfresh h
  · next htag =>
    rw [if_neg htag]
    split at h
    · next huri =>
      rw [if_pos huri]
      exact wrote_storeHLSTarget hfresh h
    · next hblank =>
      rw [if_neg hblank]
      obtain ⟨rfl, rfl⟩ := Prod.mk.inj (Except.ok.inj h)
      refine ⟨.refl _, ?_⟩
      have hinline : inlineData base (line.map .copied) = line.map .copied := by
        rw [inlineData, List.flatMap_map]
        exact List.flatMap_pure_eq_map _ _
      rw [hinline]
      exact forall₂_copied (fun _ => rfl) line

/-- **The loop**: every line is written, with everything that is stored for it. -/
theorem wrote_rewriteLines (hfresh : Function.Injective fresh) {lines : List Bytes}
    {out : List (List Written)} (h : rewriteLines fresh p base lines s = .ok (out, s')) :
    Later fresh s s' ∧ List.Forall₂ (fun line written =>
      List.Forall₂ (Wrote fresh p base s') (linePieces base matchedPieces line) written)
      lines out := by
  induction lines generalizing s out with
  | nil =>
    obtain ⟨rfl, rfl⟩ := Prod.mk.inj (Except.ok.inj h)
    exact ⟨.refl _, .nil⟩
  | cons line lines ih =>
    rw [rewriteLines] at h
    split at h
    · cases h
    · next hfirst =>
      split at h
      · cases h
      · next hrest =>
        obtain ⟨rfl, rfl⟩ := Prod.mk.inj (Except.ok.inj h)
        obtain ⟨hlater, hwritten⟩ := wrote_rewriteLine hfresh hfirst
        obtain ⟨hlater', hout⟩ := ih hrest
        exact ⟨hlater.trans hlater', .cons (hwritten.imp fun _ _ hw => hw.later hlater') hout⟩

/-! ## Pieces of one line -/

/-- After a reference comes the quote that ends it. -/
def EndsQuoted : List Piece → Prop
  | [] => True
  | .copied _ :: pieces => EndsQuoted pieces
  | .reference raw :: pieces =>
    quote ∉ raw ∧ pieces.head? = some (.copied quote) ∧ EndsQuoted pieces

/-- The byte of a piece that is one. -/
def Piece.byte : Piece → Option Byte
  | .copied c => some c
  | .reference _ => none

@[simp] theorem restore_copied (text : Bytes) : restore (text.map .copied) = text := by
  rw [restore, List.flatMap_map]
  exact (List.flatMap_pure_eq_map _ _).trans (List.map_id _)

theorem restore_append : restore (pieces ++ pieces') = restore pieces ++ restore pieces' :=
  List.flatMap_append

theorem restore_cons_copied (c : Byte) : restore (.copied c :: pieces) = c :: restore pieces := rfl

theorem restore_cons_reference : restore (.reference raw :: pieces) = raw ++ restore pieces := rfl

theorem endsQuoted_copied_append {text : Bytes} :
    EndsQuoted (text.map .copied ++ pieces) ↔ EndsQuoted pieces := by
  induction text with
  | nil => rfl
  | cons c text ih => exact ih

/-- The quote that ends a reference is the first one. -/
theorem restore_of_head (h : pieces.head? = some (.copied quote)) :
    ∃ rest, restore pieces = quote :: rest := by
  obtain ⟨tail, rfl⟩ := List.head?_eq_some_iff.mp h
  exact ⟨restore tail, rfl⟩

/-- **Pieces of one line** are determined by the places of the references. -/
theorem eq_of_restore (h : EndsQuoted pieces) (h' : EndsQuoted pieces')
    (hline : restore pieces = restore pieces')
    (hbytes : pieces.map Piece.byte = pieces'.map Piece.byte) : pieces = pieces' := by
  induction pieces generalizing pieces' with
  | nil => exact (List.map_eq_nil_iff.mp hbytes.symm).symm
  | cons piece pieces ih =>
    obtain ⟨piece', rest, rfl, hpiece, hrest⟩ := List.map_eq_cons_iff.mp hbytes.symm
    cases piece with
    | copied c =>
      cases piece' with
      | copied c' =>
        obtain rfl := Option.some.inj hpiece
        have hends' : EndsQuoted rest := h'
        rw [ih h hends' (List.cons.inj hline).2 hrest.symm]
      | reference raw' => cases hpiece
    | reference raw =>
      cases piece' with
      | copied c' => cases hpiece
      | reference raw' =>
        obtain ⟨hraw, hhead, hends⟩ := h
        obtain ⟨hraw', hhead', hends'⟩ := h'
        obtain ⟨tail, htail⟩ := restore_of_head hhead
        obtain ⟨tail', htail'⟩ := restore_of_head hhead'
        rw [restore_cons_reference, restore_cons_reference, htail, htail'] at hline
        have hcut := congrArg (Values.cut quote) hline
        rw [Values.cut_append hraw, Values.cut_append hraw'] at hcut
        obtain ⟨rfl, rfl⟩ := Prod.mk.inj hcut
        rw [ih hends hends' (htail.trans htail'.symm) hrest.symm]

theorem restore_inlineData : restore (inlineData base pieces) = restore pieces := by
  induction pieces with
  | nil => rfl
  | cons piece pieces ih =>
    rw [inlineData_cons, restore_append, ih]
    cases piece with
    | copied c => rfl
    | reference raw =>
      have hinline : inlineData base [.reference raw] =
          if isData base raw then raw.map .copied else [.reference raw] := List.append_nil _
      rw [hinline, restore_cons_reference]
      split
      · rw [restore_copied]
      · rw [restore_cons_reference]
        exact congrArg (· ++ _) (List.append_nil _)

theorem endsQuoted_inlineData (h : EndsQuoted pieces) : EndsQuoted (inlineData base pieces) := by
  induction pieces with
  | nil => exact h
  | cons piece pieces ih =>
    rw [inlineData_cons]
    cases piece with
    | copied c => exact ih h
    | reference raw =>
      obtain ⟨hraw, hhead, hends⟩ := h
      have hinline : inlineData base [.reference raw] =
          if isData base raw then raw.map .copied else [.reference raw] := List.append_nil _
      rw [hinline]
      split
      · exact endsQuoted_copied_append.mpr (ih hends)
      · obtain ⟨tail, rfl⟩ := List.head?_eq_some_iff.mp hhead
        exact ⟨hraw, rfl, ih hends⟩

/-! ## The matches -/

/-- A match, its value and what follows. -/
theorem uriAttribute_eq_some {s value : Bytes} (h : uriAttribute s = some value) :
    quote ∉ value ∧ ∃ rest, s = uriStart ++ value ++ quote :: rest := by
  rw [uriAttribute] at h
  obtain ⟨⟨hstart, -, hquote⟩, hvalue⟩ := Option.ite_none_right_eq_some.mp h
  obtain rfl := Option.some.inj hvalue
  refine ⟨fun hmem => ?_, ?_⟩
  · have := List.mem_takeWhile_imp hmem
    rw [decide_eq_true_eq] at this
    exact this rfl
  · obtain ⟨rest, rfl⟩ := List.isPrefixOf_iff_prefix.mp hstart
    rw [List.drop_left] at hquote ⊢
    obtain ⟨a, b, hab, ha⟩ := List.eq_append_cons_of_mem hquote
    refine ⟨b, ?_⟩
    have htake : rest.takeWhile (· ≠ quote) = a := by
      rw [hab, List.takeWhile_append_of_pos, List.takeWhile_cons_of_neg, List.append_nil]
      · simp
      · intro c hc
        exact decide_eq_true fun heq => ha (heq ▸ hc)
    rw [htake, List.append_assoc, ← hab]

theorem restore_findAll (n : ℕ) (s : Bytes) : restore (findAll n s) = s.drop n := by
  induction s generalizing n with
  | nil => rw [findAll, List.drop_nil]; rfl
  | cons c s ih =>
    cases n with
    | succ n => exact ih n
    | zero =>
      rw [findAll]
      split
      · next value hvalue =>
        obtain ⟨-, rest, hs⟩ := uriAttribute_eq_some hvalue
        rw [restore_append, restore_copied, restore_cons_reference, restore_cons_copied, ih,
          List.drop_zero, hs, List.append_assoc]
        have hdrop : s.drop (uriStart.length + value.length) =
            (c :: s).drop (uriStart.length + value.length + 1) := rfl
        rw [hdrop, hs, ← List.length_append, ← List.drop_drop, List.drop_left]
        rfl
      · rw [restore_cons_copied, ih]
        rfl

theorem endsQuoted_findAll (n : ℕ) (s : Bytes) : EndsQuoted (findAll n s) := by
  induction s generalizing n with
  | nil => rw [findAll]; trivial
  | cons c s ih =>
    cases n with
    | succ n => exact ih n
    | zero =>
      rw [findAll]
      split
      · next value hvalue =>
        exact endsQuoted_copied_append.mpr ⟨(uriAttribute_eq_some hvalue).1, rfl, ih _⟩
      · exact ih 0

/-! ## The quoted values -/

theorem restore_quotedPiecesOf (parts : List Bytes) :
    restore (quotedPiecesOf parts) = [quote].intercalate parts := by
  induction parts using quotedPiecesOf.induct with
  | case1 => rfl
  | case2 text => simp [quotedPiecesOf, List.intercalate]
  | case3 text unclosed =>
    simp [quotedPiecesOf, restore_append, restore_cons_copied, List.intercalate]
  | case4 text value rest parts ih =>
    have hvalue : restore (if (ascii "URI=").isSuffixOf text = true ∧ value ≠ [] then
        [.reference value] else value.map .copied) = value := by
      split
      · exact List.append_nil _
      · exact restore_copied value
    rw [quotedPiecesOf, restore_append, restore_copied, restore_cons_copied, restore_append, hvalue,
      restore_cons_copied, ih]
    simp [List.intercalate_cons_cons]

theorem endsQuoted_quotedPiecesOf {parts : List Bytes} (h : ∀ part ∈ parts, quote ∉ part) :
    EndsQuoted (quotedPiecesOf parts) := by
  induction parts using quotedPiecesOf.induct with
  | case1 => trivial
  | case2 text =>
    rw [quotedPiecesOf, ← List.append_nil (text.map _)]
    exact endsQuoted_copied_append.mpr trivial
  | case3 text unclosed =>
    rw [quotedPiecesOf, ← List.append_nil (unclosed.map _)]
    exact endsQuoted_copied_append.mpr (endsQuoted_copied_append.mpr trivial)
  | case4 text value rest parts ih =>
    have hrest := ih fun part hpart => h part (List.mem_cons_of_mem _ (List.mem_cons_of_mem _ hpart))
    rw [quotedPiecesOf]
    refine endsQuoted_copied_append.mpr ?_
    split
    · exact ⟨h value (List.mem_cons_of_mem _ List.mem_cons_self), rfl, hrest⟩
    · exact endsQuoted_copied_append.mpr hrest

theorem restore_quotedPieces : restore (quotedPieces line) = line := by
  rw [quotedPieces, restore_quotedPiecesOf, List.intercalate_splitOn]

theorem endsQuoted_quotedPieces : EndsQuoted (quotedPieces line) :=
  endsQuoted_quotedPiecesOf (Lines.sep_not_mem_splitOn line)

/-! ## The matches on the parts of a line -/

/-- The pieces that are matched in a line that is cut at its quotes. -/
def matchedPiecesOf : List Bytes → List Piece
  | [] => []
  | [text] => text.map .copied
  | text :: value :: parts =>
    if isValue text value parts then
      text.map .copied ++ .copied quote :: .reference value :: .copied quote ::
        matchedPiecesOf parts
    else text.map .copied ++ .copied quote :: matchedPiecesOf (value :: parts)

theorem findAll_eq_drop (n : ℕ) (s : Bytes) : findAll n s = findAll 0 (s.drop n) := by
  induction s generalizing n with
  | nil => rw [List.drop_nil, findAll, findAll]
  | cons c s ih =>
    cases n with
    | succ n => exact ih n
    | zero => rfl

theorem uriAttribute_of_not_mem {text : Bytes} (h : quote ∉ text) : uriAttribute text = none := by
  rcases hmatch : uriAttribute text with _ | value
  · rfl
  · obtain ⟨-, rest, rfl⟩ := uriAttribute_eq_some hmatch
    exact absurd (by simp) h

/-- Text without quotes has no matches. -/
theorem findAll_of_not_mem {text : Bytes} (h : quote ∉ text) :
    findAll 0 text = text.map .copied := by
  induction text with
  | nil => rfl
  | cons c text ih =>
    rw [findAll, uriAttribute_of_not_mem h]
    exact congrArg _ (ih fun hmem => h (List.mem_cons_of_mem _ hmem))

/-- A match at the start of a text ends at its first quote but one. -/
theorem uriAttribute_append {text : Bytes} (h : quote ∉ text) {value rest : Bytes}
    (hmatch : uriAttribute (text ++ quote :: rest) = some value) : text = ascii "URI=" := by
  obtain ⟨-, after, heq⟩ := uriAttribute_eq_some hmatch
  have hcut := congrArg (Values.cut quote) heq
  have hstart : uriStart ++ value ++ quote :: after =
      ascii "URI=" ++ quote :: (value ++ quote :: after) := by
    simp [uriStart]
  rw [hstart, Values.cut_append h, Values.cut_append (by decide)] at hcut
  exact (Prod.mk.inj hcut).1

/-- Up to the first quote, and what follows if it is a match. -/
theorem findAll_value {text value : Bytes} (h : quote ∉ text) (hvalue : quote ∉ value)
    (hne : value ≠ []) (rest : Bytes) :
    findAll 0 (text ++ quote :: (value ++ quote :: rest)) =
      if (ascii "URI=").isSuffixOf text = true then
        text.map .copied ++ .copied quote :: .reference value :: .copied quote :: findAll 0 rest
      else text.map .copied ++ .copied quote :: findAll 0 (value ++ quote :: rest) := by
  induction text with
  | nil =>
    rw [if_neg (by decide), List.nil_append, findAll, List.map_nil, List.nil_append]
    rcases hmatch : uriAttribute (quote :: (value ++ quote :: rest)) with _ | value'
    · rfl
    · have hempty : [] = ascii "URI=" := uriAttribute_append List.not_mem_nil hmatch
      exact absurd hempty (by decide)
  | cons c text ih =>
    have htext : quote ∉ text := fun hmem => h (List.mem_cons_of_mem _ hmem)
    by_cases hstart : c :: text = ascii "URI="
    · have hmatch : uriAttribute (c :: text ++ quote :: (value ++ quote :: rest)) = some value := by
        have hsplit : c :: text ++ quote :: (value ++ quote :: rest) =
            uriStart ++ (value ++ quote :: rest) := by
          rw [hstart, uriStart, List.append_assoc]
          rfl
        have htake : (value ++ quote :: rest).takeWhile (· ≠ quote) = value :=
          congrArg Prod.fst (Values.cut_append hvalue)
        rw [hsplit, uriAttribute, List.drop_left, htake]
        exact if_pos ⟨List.isPrefixOf_iff_prefix.mpr (List.prefix_append _ _), hne, by simp⟩
      have hsuffix : (ascii "URI=").isSuffixOf (c :: text) = true := by rw [hstart]; decide
      have hstartCopied : uriStart.map Piece.copied =
          (c :: text).map .copied ++ [.copied quote] := by
        rw [hstart, uriStart, List.map_append]
        rfl
      have hdrop : (text ++ quote :: (value ++ quote :: rest)).drop
          (uriStart.length + value.length) = rest := by
        obtain rfl := (List.cons.inj hstart).2
        have hassoc : (ascii "URI=").tail ++ quote :: (value ++ quote :: rest) =
            ((ascii "URI=").tail ++ quote :: (value ++ [quote])) ++ rest := by simp
        have hlength : uriStart.length = 5 := rfl
        have htail : (ascii "URI=").tail.length = 3 := rfl
        refine (congrArg (List.drop _) hassoc).trans (List.drop_left' ?_)
        simp only [List.length_append, List.length_cons, List.length_nil, hlength, htail]
        omega
      rw [if_pos hsuffix]
      rw [List.cons_append] at hmatch ⊢
      rw [findAll, hmatch]
      dsimp only
      rw [findAll_eq_drop, hdrop, hstartCopied, List.append_assoc]
      rfl
    · have hnone : uriAttribute (c :: (text ++ quote :: (value ++ quote :: rest))) = none := by
        rcases hmatch : uriAttribute (c :: (text ++ quote :: (value ++ quote :: rest))) with _ | v
        · rfl
        · have heq : c :: text = ascii "URI=" := uriAttribute_append h hmatch
          exact absurd heq hstart
      have hsuffix : (ascii "URI=").isSuffixOf (c :: text) = (ascii "URI=").isSuffixOf text := by
        rw [Bool.eq_iff_iff, List.isSuffixOf_iff_suffix, List.isSuffixOf_iff_suffix,
          List.suffix_cons_iff]
        exact or_iff_right fun heq => hstart heq.symm
      rw [hsuffix, List.cons_append, findAll, hnone]
      dsimp only
      rw [ih htext]
      split <;> rfl

theorem findAll_skip {text rest : Bytes} (h : quote ∉ text)
    (hnone : ∀ value, uriAttribute (ascii "URI=" ++ quote :: rest) ≠ some value) :
    findAll 0 (text ++ quote :: rest) = text.map .copied ++ .copied quote :: findAll 0 rest := by
  have hmatch : ∀ text, quote ∉ text → uriAttribute (text ++ quote :: rest) = none := by
    intro text h
    rcases hmatch : uriAttribute (text ++ quote :: rest) with _ | value
    · rfl
    · obtain rfl := uriAttribute_append h hmatch
      exact absurd hmatch (hnone value)
  induction text with
  | nil =>
    rw [List.nil_append, findAll]
    have := hmatch [] h
    rw [List.nil_append] at this
    rw [this]
    rfl
  | cons c text ih =>
    have := hmatch (c :: text) h
    rw [List.cons_append] at this
    rw [List.cons_append, findAll, this]
    exact congrArg _ (ih fun hmem => h (List.mem_cons_of_mem _ hmem))

/-- **The matches, part by part.** -/
theorem findAll_intercalate {parts : List Bytes} (h : ∀ part ∈ parts, quote ∉ part) :
    findAll 0 ([quote].intercalate parts) = matchedPiecesOf parts := by
  induction parts using matchedPiecesOf.induct with
  | case1 => rfl
  | case2 text =>
    have hone : [quote].intercalate [text] = text := by simp [List.intercalate]
    rw [hone, matchedPiecesOf, findAll_of_not_mem (h text List.mem_cons_self)]
  | case3 text value parts hvalue ih =>
    obtain ⟨htext, hquote, hparts⟩ :
        quote ∉ text ∧ quote ∉ value ∧ ∀ part ∈ parts, quote ∉ part := by simpa using h
    obtain ⟨rest, parts, rfl⟩ := List.exists_cons_of_ne_nil hvalue.2.2
    rw [List.intercalate_cons_cons, List.intercalate_cons_cons, matchedPiecesOf, if_pos hvalue,
      ← ih hparts]
    simp only [List.append_assoc, List.singleton_append]
    rw [findAll_value htext hquote hvalue.2.1, if_pos hvalue.1]
  | case4 text value parts hvalue ih =>
    obtain ⟨htext, hquote, hparts⟩ :
        quote ∉ text ∧ quote ∉ value ∧ ∀ part ∈ parts, quote ∉ part := by simpa using h
    have hrest := ih (List.forall_mem_cons.mpr ⟨hquote, hparts⟩)
    rw [List.intercalate_cons_cons, matchedPiecesOf, if_neg hvalue, ← hrest]
    simp only [List.append_assoc, List.singleton_append]
    rcases parts with _ | ⟨rest, parts⟩
    · have hone : [quote].intercalate [value] = value := by simp [List.intercalate]
      rw [hone]
      refine findAll_skip htext fun v hmatch => ?_
      obtain ⟨-, after, heq⟩ := uriAttribute_eq_some hmatch
      have hcut : value = v ++ quote :: after := by simpa [uriStart] using heq
      exact hquote (hcut ▸ by simp)
    · rw [List.intercalate_cons_cons]
      simp only [List.append_assoc, List.singleton_append]
      by_cases hne : value = []
      · subst hne
        refine findAll_skip htext fun v hmatch => ?_
        have hempty : uriAttribute (ascii "URI=" ++ quote :: ([] ++ quote ::
            [quote].intercalate (rest :: parts))) = none := by
          rw [uriAttribute]
          exact if_neg fun h => h.2.1 rfl
        rw [hempty] at hmatch
        cases hmatch
      · rw [findAll_value htext hquote hne, if_neg]
        exact fun hsuffix => hvalue ⟨hsuffix, hne, List.cons_ne_nil _ _⟩

theorem matchedPieces_eq (line : Bytes) : matchedPieces line = matchedPiecesOf (line.splitOn quote) := by
  rw [← findAll_intercalate (Lines.sep_not_mem_splitOn line), List.intercalate_splitOn]
  rfl

/-! ## In step -/

theorem inlineData_append : inlineData base (pieces ++ pieces') =
    inlineData base pieces ++ inlineData base pieces' := List.flatMap_append

theorem inlineData_copied (text : Bytes) :
    inlineData base (text.map .copied) = text.map .copied := by
  rw [inlineData, List.flatMap_map]
  exact List.flatMap_pure_eq_map _ _

theorem inlineData_reference (value : Bytes) : inlineData base (.reference value :: pieces) =
    (if isData base value then value.map .copied else [.reference value]) ++
      inlineData base pieces := rfl

theorem inlineData_quote : inlineData base (.copied quote :: pieces) =
    .copied quote :: inlineData base pieces := rfl

/-- A reference is not the text of a value. -/
theorem reference_ne_copied {value value' : Bytes} (hne : value' ≠ [])
    {after after' : List Piece} :
    [.reference value] ++ after ≠ value'.map .copied ++ after' := by
  obtain ⟨c, value', rfl⟩ := List.exists_cons_of_ne_nil hne
  exact fun heq => Piece.noConfusion (List.cons.inj heq).1

theorem quotedPiecesOf_cons (text value rest : Bytes) (parts : List Bytes) :
    quotedPiecesOf (text :: value :: rest :: parts) = text.map .copied ++ .copied quote ::
      ((if isValue text value (rest :: parts) then [.reference value] else value.map .copied) ++
        .copied quote :: quotedPiecesOf (rest :: parts)) := by
  rw [quotedPiecesOf]
  congr 3
  exact if_congr (by simp [isValue]) rfl rfl

/-- What is matched from a value on that is not one of a reference. -/
theorem inlineData_value_iff {n : ℕ}
    (ih : ∀ parts : List Bytes, parts.length < n →
      (inlineData base (matchedPiecesOf parts) = inlineData base (quotedPiecesOf parts) ↔
        InStep base parts))
    {value rest : Bytes} {parts : List Bytes} (hn : parts.length + 1 < n) :
    inlineData base (matchedPiecesOf (value :: rest :: parts)) =
        value.map .copied ++ .copied quote :: inlineData base (quotedPiecesOf (rest :: parts)) ↔
      RunOfData base (value :: rest :: parts) ∧ InStep base (rest :: parts) := by
  induction hlen : parts.length using Nat.strong_induction_on generalizing value rest parts with
  | _ k ihk =>
  rw [matchedPiecesOf, RunOfData]
  by_cases hvalue : isValue value rest parts
  · rw [if_pos hvalue, inlineData_append, inlineData_copied, inlineData_quote,
      inlineData_reference, inlineData_quote, List.append_cancel_left_eq, List.cons_inj_right,
      forall_prop_of_true hvalue]
    obtain ⟨next, parts, rfl⟩ := List.exists_cons_of_ne_nil hvalue.2.2
    rcases parts with _ | ⟨last, parts⟩
    · -- the value is the last one, and what follows it is not closed
      have hopen : ¬ isValue rest next [] := fun h => h.2.2 rfl
      have hrun : RunOfData base [rest, next] := fun h => absurd h hopen
      have hstep : InStep base [rest, next] := ⟨fun _ => trivial, trivial⟩
      rw [quotedPiecesOf, inlineData_append, inlineData_copied, inlineData_quote,
        inlineData_copied, matchedPiecesOf, inlineData_copied]
      by_cases hdata : isData base rest = true
      · rw [if_pos hdata]
        exact iff_of_true rfl ⟨⟨hdata, hrun⟩, hstep⟩
      · rw [if_neg hdata]
        exact iff_of_false (reference_ne_copied hvalue.2.1) fun h => hdata h.1.1
    · rw [quotedPiecesOf_cons, inlineData_append, inlineData_copied, inlineData_quote]
      by_cases hdata : isData base rest = true
      · -- the matches go on behind the data URL, one part later than the quotes
        have hshort : parts.length + 1 < n := by
          simp only [List.length_cons] at hn
          omega
        have hrest := @ihk parts.length (by rw [← hlen]; simp) next last parts hshort rfl
        rw [if_pos hdata, List.append_cancel_left_eq, List.cons_inj_right, inlineData_append,
          RunOfData, InStep, and_iff_right hdata]
        by_cases hnext : isValue rest next (last :: parts)
        · rw [if_pos hnext, forall_prop_of_true hnext]
          have hone : inlineData base [.reference next] =
              if isData base next then next.map .copied else [.reference next] :=
            List.append_nil _
          rw [hone, inlineData_quote]
          by_cases hnextData : isData base next = true
          · rw [if_pos hnextData, hrest, and_iff_right hnextData]
            simp [hnext]
          · rw [if_neg hnextData]
            refine iff_of_false (fun heq => ?_) fun h => hnextData h.1.1
            rw [matchedPiecesOf] at heq
            split at heq
            · rw [inlineData_append, inlineData_copied] at heq
              exact reference_ne_copied hnext.2.1 heq.symm
            · rw [inlineData_append, inlineData_copied] at heq
              exact reference_ne_copied hnext.2.1 heq.symm
        · rw [if_neg hnext, inlineData_copied, inlineData_quote, hrest]
          simp [hnext]
      · rw [if_neg hdata]
        exact iff_of_false (reference_ne_copied hvalue.2.1) fun h => hdata h.1.1
  · rw [if_neg hvalue, inlineData_append, inlineData_copied, inlineData_quote,
      List.append_cancel_left_eq, List.cons_inj_right, ih _ (by simpa using hn)]
    exact (and_iff_right fun h => absurd h hvalue).symm

/-- **The matches are the quoted values, exactly when** the quotes are in step. -/
theorem inlineData_iff (parts : List Bytes) :
    inlineData base (matchedPiecesOf parts) = inlineData base (quotedPiecesOf parts) ↔
      InStep base parts := by
  induction hlen : parts.length using Nat.strong_induction_on generalizing parts with
  | _ n ih =>
  have ih' : ∀ parts : List Bytes, parts.length < n →
      (inlineData base (matchedPiecesOf parts) = inlineData base (quotedPiecesOf parts) ↔
        InStep base parts) := fun parts hparts => ih _ hparts parts rfl
  rcases parts with _ | ⟨text, _ | ⟨value, parts⟩⟩
  · exact iff_of_true rfl trivial
  · exact iff_of_true rfl trivial
  · rw [matchedPiecesOf, InStep]
    rcases parts with _ | ⟨rest, parts⟩
    · rw [if_neg fun h => h.2.2 rfl]
      exact iff_of_true rfl ⟨fun _ => trivial, trivial⟩
    · rw [quotedPiecesOf_cons]
      by_cases hvalue : isValue text value (rest :: parts)
      · rw [if_pos hvalue, if_pos hvalue, and_iff_right fun h => absurd hvalue h,
          ← ih' _ (by rw [← hlen]; simp)]
        simp only [inlineData_append, inlineData_copied, inlineData_quote, inlineData_reference,
          List.cons_append, List.nil_append, List.append_cancel_left_eq, List.cons_inj_right]
      · rw [if_neg hvalue, if_neg hvalue, inlineData_append, inlineData_append, inlineData_copied,
          inlineData_quote, inlineData_quote, List.append_cancel_left_eq, List.cons_inj_right,
          inlineData_append, inlineData_copied, inlineData_quote,
          inlineData_value_iff ih' (by rw [← hlen]; simp)]
        exact and_congr_left' ⟨fun h _ => h, fun h => h hvalue⟩

/-- A line has its references where they are matched. -/
theorem linePieces_eq_iff : linePieces base matchedPieces line = linePieces base quotedPieces line ↔
    ((trimSpace line).head? = some number → InStep base ((trimSpace line).splitOn quote)) := by
  rw [linePieces, linePieces]
  split
  · next htag => rw [matchedPieces_eq, quotedPieces, inlineData_iff, forall_prop_of_true htag]
  · next htag => exact iff_of_true rfl fun h => absurd h htag

theorem storedTarget_eq_iff {target : Reference} :
    storedTarget p target = ⟨p.id, target.text⟩ ↔ Utf8.Valid p.id ∧ Utf8.Valid target.text := by
  rw [storedTarget, Target.mk.injEq, Utf8.jsonText_eq_self_iff, Utf8.jsonText_eq_self_iff]

/-! ## The result -/

theorem byte_of_wrote {written : List Written}
    (h : List.Forall₂ (Wrote fresh p base s) pieces written)
    (h' : List.Forall₂ (Replaced p base s) pieces' written) :
    pieces.map Piece.byte = pieces'.map Piece.byte := by
  induction h generalizing pieces' with
  | nil =>
    cases h'
    rfl
  | @cons piece w pieces ws hw _ ih =>
    rcases h' with _ | ⟨hw', hrest⟩
    rw [List.map_cons, List.map_cons, ih hrest]
    congr 1
    rename_i piece' _
    cases w with
    | copied c =>
      cases piece with
      | copied d =>
        cases piece' with
        | copied d' =>
          obtain rfl : d = c := hw
          obtain rfl : d' = d := hw'
          rfl
        | reference raw' => exact hw'.elim
      | reference raw => exact hw.elim
    | proxied token =>
      cases piece with
      | copied d => exact hw.elim
      | reference raw =>
        cases piece' with
        | copied d' => exact hw'.elim
        | reference raw' => rfl

/-- The pieces of one line that is written in both ways are the same. -/
theorem linePieces_eq {written : List Written}
    (h : List.Forall₂ (Wrote fresh p base s) (linePieces base matchedPieces line) written)
    (h' : List.Forall₂ (Replaced p base s) (linePieces base quotedPieces line) written) :
    linePieces base matchedPieces line = linePieces base quotedPieces line := by
  have hbytes := byte_of_wrote h h'
  rw [linePieces, linePieces] at hbytes ⊢
  split at hbytes
  · next htag =>
    rw [if_pos htag, if_pos htag]
    refine eq_of_restore (endsQuoted_inlineData (endsQuoted_findAll 0 _))
      (endsQuoted_inlineData endsQuoted_quotedPieces) ?_ hbytes
    rw [restore_inlineData, restore_inlineData, restore_quotedPieces]
    exact restore_findAll 0 _
  · next htag =>
    rw [if_neg htag, if_neg htag]

theorem forall₂_of_mem {α β : Type} {R S : α → β → Prop} {l : List α} {l' : List β}
    (h : List.Forall₂ R l l') (himp : ∀ a ∈ l, ∀ b, R a b → S a b) : List.Forall₂ S l l' := by
  induction h with
  | nil => exact .nil
  | cons hab _ ih =>
    exact .cons (himp _ List.mem_cons_self _ hab)
      (ih fun a ha => himp a (List.mem_cons_of_mem _ ha))

/-- A reference of a line that is stored as it is. -/
theorem replaced_of_wrote {piece : Piece} {w : Written}
    (hstored : ∀ raw target, piece = .reference raw → resolve base raw = some target →
      storedTarget p target = ⟨p.id, target.text⟩)
    (h : Wrote fresh p base s piece w) : Replaced p base s piece w := by
  cases piece with
  | copied c =>
    cases w with
    | copied c' => exact h
    | proxied token => exact h
  | reference raw =>
    cases w with
    | copied c => exact h
    | proxied token =>
      obtain ⟨target, n, htarget, -, -, hstore⟩ := h
      exact ⟨target, htarget, hstored raw target rfl htarget ▸ hstore⟩

/-- A rewritten playlist has its references where the regular expression finds them, and each line
is written in both ways. -/
theorem matched_of_rewritten (hfresh : Function.Injective fresh) {out : List (List Written)}
    (h : rewritePlaylist fresh p base body s = .ok (out, s'))
    (hrewritten : PlaylistRewritten p base body out s') (hline : line ∈ playlistLines body) :
    linePieces base matchedPieces line = linePieces base quotedPieces line ∧ ∃ written,
      List.Forall₂ (Wrote fresh p base s') (linePieces base matchedPieces line) written ∧
      List.Forall₂ (Replaced p base s') (linePieces base quotedPieces line) written := by
  rw [rewritePlaylist] at h
  split at h
  · cases h
  · obtain ⟨-, hout⟩ := wrote_rewriteLines hfresh h
    obtain ⟨i, hi, rfl⟩ := List.mem_iff_getElem.mp hline
    have hi' : i < out.length := hout.length_eq ▸ hi
    have hwrote := (List.forall₂_iff_get.mp hout).2 i hi hi'
    have hreplaced := (List.forall₂_iff_get.mp hrewritten).2 i hi hi'
    exact ⟨linePieces_eq hwrote hreplaced, _, hwrote, hreplaced⟩

/-- What is stored for a reference is what should be stored. -/
theorem stored_of_rewritten {written : List Written} {target : Reference}
    (hwrote : List.Forall₂ (Wrote fresh p base s) pieces written)
    (hreplaced : List.Forall₂ (Replaced p base s) pieces written)
    (hraw : .reference raw ∈ pieces) (htarget : resolve base raw = some target) :
    storedTarget p target = ⟨p.id, target.text⟩ := by
  obtain ⟨i, hi, hget⟩ := List.mem_iff_getElem.mp hraw
  have hi' : i < written.length := hwrote.length_eq ▸ hi
  have hw := (List.forall₂_iff_get.mp hwrote).2 i hi hi'
  have hw' := (List.forall₂_iff_get.mp hreplaced).2 i hi hi'
  rw [List.get_eq_getElem, hget] at hw hw'
  rcases hwritten : written.get ⟨i, hi'⟩ with c | token
  · rw [hwritten] at hw
    exact hw.elim
  · rw [hwritten] at hw hw'
    obtain ⟨target', n, htarget', -, -, hstored⟩ := hw
    obtain ⟨target'', htarget'', hstored'⟩ := hw'
    obtain rfl := Option.some.inj (htarget.symm.trans htarget')
    obtain rfl := Option.some.inj (htarget.symm.trans htarget'')
    exact Option.some.inj (hstored.symm.trans hstored')

/-- **Playlists are rewritten, exactly when** the quotes of every tag line are in step, and what is
stored is valid UTF-8. -/
theorem playlist_rewritten_iff (hfresh : Function.Injective fresh) {out : List (List Written)}
    (h : rewritePlaylist fresh p base body s = .ok (out, s')) :
    PlaylistRewritten p base body out s' ↔ Faithful p base body := by
  constructor
  · intro hrewritten
    refine ⟨fun line hline =>
      linePieces_eq_iff.mp (matched_of_rewritten hfresh h hrewritten hline).1, ?_⟩
    intro line hline raw target hraw htarget
    obtain ⟨heq, written, hwrote, hreplaced⟩ := matched_of_rewritten hfresh h hrewritten hline
    rw [heq] at hwrote
    exact storedTarget_eq_iff.mp (stored_of_rewritten hwrote hreplaced hraw htarget)
  · intro hfaithful
    rw [rewritePlaylist] at h
    split at h
    · cases h
    · obtain ⟨-, hout⟩ := wrote_rewriteLines hfresh h
      refine forall₂_of_mem hout fun line hline written hwrote => ?_
      rw [linePieces_eq_iff.mpr (hfaithful.inStep line hline)] at hwrote
      refine forall₂_of_mem hwrote fun piece hpiece w hw => replaced_of_wrote ?_ hw
      rintro raw target rfl htarget
      exact storedTarget_eq_iff.mpr (hfaithful.valid line hline raw target hpiece htarget)

/-! ## A name that ends in `URI=` -/

/-- The playlist of a channel. -/
def sampleBase : Reference :=
  { Reference.start (ascii "http") [] false with
    host := ascii "h"
    path := ascii "/a/b.m3u8" }

/-- Tokens that are written as many dashes. -/
def sampleFresh (n : ℕ) : Bytes := List.replicate n 45

theorem injective_sampleFresh : Function.Injective sampleFresh :=
  fun _ _ h => List.replicate_left_injective _ h

/-- A provider with the route `tv`. -/
def sampleOwner : Provider := ⟨ascii "p", [], ascii "tv", [], [], [], 1, 6⟩

/-- A tag with a name that ends in `URI=`. -/
def namedTag : Bytes := ascii "#EXT-X-MEDIA:NAME=\"URI=\",URI=\"a.m3u8\""

/-- No token is stored. -/
def noTokens : Tokens := ⟨0, fun _ => none⟩

theorem exists_ok {α : Type} {x : Except Error α} (h : x.isOk = true) : ∃ a, x = .ok a := by
  cases x with
  | error e => cases h
  | ok a => exact ⟨a, rfl⟩

/-- The text between the two values is replaced, and the reference is not. -/
theorem named_tag_not_rewritten :
    ∃ out s, rewritePlaylist sampleFresh sampleOwner sampleBase namedTag noTokens = .ok (out, s) ∧
      ¬ PlaylistRewritten sampleOwner sampleBase namedTag out s ∧
      render sampleOwner (ascii "http://app") out =
        ascii "#EXT-X-MEDIA:NAME=\"URI=\"http://app/tv/_hls/\"a.m3u8\"\n" := by
  have hok : (rewritePlaylist sampleFresh sampleOwner sampleBase namedTag noTokens).isOk = true := by
    decide
  have hrender : (rewritePlaylist sampleFresh sampleOwner sampleBase namedTag noTokens).toOption.map
      (fun result => render sampleOwner (ascii "http://app") result.1) =
        some (ascii "#EXT-X-MEDIA:NAME=\"URI=\"http://app/tv/_hls/\"a.m3u8\"\n") := by
    decide
  obtain ⟨⟨out, s⟩, hout⟩ := exists_ok hok
  rw [hout] at hrender
  refine ⟨out, s, hout, fun hrewritten => ?_, Option.some.inj hrender⟩
  have hline : namedTag ∈ playlistLines namedTag := by decide
  exact absurd (matched_of_rewritten injective_sampleFresh hout hrewritten hline).1
    (by decide)

/-- A tag with a name and a reference, and a segment. -/
def sampleBody : Bytes := ascii "#EXT-X-MEDIA:NAME=\"en\",URI=\"a.m3u8\"\nseg.ts"

theorem playlist_rewritten_sample :
    ∃ out s, rewritePlaylist sampleFresh sampleOwner sampleBase sampleBody noTokens =
      .ok (out, s) ∧ PlaylistRewritten sampleOwner sampleBase sampleBody out s := by
  have hok : (rewritePlaylist sampleFresh sampleOwner sampleBase sampleBody
      noTokens).isOk = true := by decide
  obtain ⟨⟨out, s⟩, hout⟩ := exists_ok hok
  have hreferences : ∀ line ∈ playlistLines sampleBody,
      ∀ piece ∈ linePieces sampleBase quotedPieces line, ∀ raw, piece = .reference raw →
        raw = ascii "a.m3u8" ∨ raw = ascii "seg.ts" := by
    have hall : ∀ line ∈ playlistLines sampleBody,
        ∀ piece ∈ linePieces sampleBase quotedPieces line, piece.byte = none →
          piece = .reference (ascii "a.m3u8") ∨ piece = .reference (ascii "seg.ts") := by
      decide
    rintro line hline piece hpiece raw rfl
    exact (hall line hline _ hpiece rfl).imp Piece.reference.inj Piece.reference.inj
  refine ⟨out, s, hout, (playlist_rewritten_iff injective_sampleFresh hout).mpr ⟨?_, ?_⟩⟩
  · decide
  · intro line hline raw target hraw htarget
    have hvalid : ∀ raw, raw = ascii "a.m3u8" ∨ raw = ascii "seg.ts" →
        (resolve sampleBase raw).all (fun target => decide (Utf8.Valid target.text)) = true := by
      rintro raw (rfl | rfl) <;> decide
    have htext := hvalid raw (hreferences line hline _ hraw raw rfl)
    rw [htarget] at htext
    exact ⟨by decide, of_decide_eq_true htext⟩

end IptvProxy.Media.Playlist
