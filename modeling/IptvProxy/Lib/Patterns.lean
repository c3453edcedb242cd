import Mathlib.Data.List.Basic
import Mathlib.Data.List.Infix
import Mathlib.Data.List.Find
import Mathlib.Data.List.TakeWhile

/-!
# Replacing what patterns capture

A pattern is a label, separators and a value; it captures the value. The separators are as many as
possible, but some are given back if no value would be left. `replaceAll` replaces in every match
the first occurrence of the captured text.

What a pattern does to a text can be told from the text before a secret: either no match reaches the
secret (`Scan.closed`), or one does (`Scan.opened`), and which of these it is does not depend on the
secret (`replaceAll_scan`). Patterns that are applied one after another hide the secret if in the
first match that reaches it the captured text occurs nowhere before (`foldl_eq_of_hides`).
-/

universe u

variable {α : Type u}

/-- A pattern. -/
structure Pattern (α : Type u) where
  /-- the labels, in the order in which they are tried -/
  labels : List (List α)
  /-- letters are compared in this form -/
  canon : α → α
  /-- the separators -/
  separator : α → Bool
  /-- the letters of a value -/
  value : α → Bool

/-- What a pattern does to the text before a secret. -/
inductive Scan (α : Type u) where
  /-- no match reaches the secret; this is left -/
  | closed (front : List α)
  /-- a match reaches the secret: what is left before it, the part of it that is not captured, and
  the part that is captured with the secret -/
  | opened (front lead start : List α)

/-- More text in front. -/
def Scan.push (text : List α) : Scan α → Scan α
  | closed front => closed (text ++ front)
  | opened front lead start => opened (text ++ front) lead start

namespace Pattern

variable [DecidableEq α] (p : Pattern α) (mark : List α)

/-! ## Matching -/

/-- The length of the label at the start. -/
def labelLength (s : List α) : Option ℕ :=
  (p.labels.find? fun label => label.isPrefixOf (s.map p.canon)).map List.length

/-- The value after this many separators or fewer, but one at least, and their number. -/
def capture (s : List α) : ℕ → Option (ℕ × List α)
  | 0 => none
  | k + 1 =>
    let captured := (s.drop (k + 1)).takeWhile p.value
    if captured ≠ [] then some (k + 1, captured) else capture s k

/-- A match at the start: the length of what is not captured, and what is. -/
def matchStart (s : List α) : Option (ℕ × List α) :=
  (p.labelLength s).bind fun n =>
    (p.capture (s.drop n) ((s.drop n).takeWhile p.separator).length).map fun (k, captured) =>
      (n + k, captured)

/-- Replace the first occurrence. -/
def replaceFirst (captured : List α) : List α → List α
  | [] => if captured = [] then mark else []
  | c :: s =>
    if captured.isPrefixOf (c :: s) then mark ++ (c :: s).drop captured.length
    else c :: replaceFirst captured s

/-- Replace in every match; so many letters belong to the last one. -/
def replaceAll : ℕ → List α → List α
  | _, [] => []
  | skip + 1, _ :: s => replaceAll skip s
  | 0, c :: s =>
    match p.matchStart (c :: s) with
    | some (n, captured) =>
      replaceFirst mark captured ((c :: s).take (n + captured.length)) ++
        replaceAll (n + captured.length - 1) s
    | none => c :: replaceAll 0 s

/-! ## The text before a secret -/

/-- A match that starts here and goes on behind the text: what it does not capture, and the start of
what it captures. -/
def opens (s : List α) : Option (List α × List α) :=
  match p.labelLength s with
  | none => none
  | some n =>
    let run := (s.drop n).takeWhile p.separator
    let rest := (s.drop n).dropWhile p.separator
    if run ≠ [] ∧ rest.all p.value = true then some (s.take n ++ run, rest) else none

/-- The matches in the text before a secret. -/
def scan : ℕ → List α → Scan α
  | _, [] => .closed []
  | skip + 1, _ :: s => scan skip s
  | 0, c :: s =>
    match p.opens (c :: s) with
    | some (lead, start) => .opened [] lead start
    | none =>
      match p.matchStart (c :: s) with
      | some (n, captured) =>
        (scan (n + captured.length - 1) s).push
          (replaceFirst mark captured ((c :: s).take (n + captured.length)))
      | none => (scan 0 s).push [c]

/-- A letter that is in no label. -/
def Splits (d : α) : Prop := ∀ label ∈ p.labels, label ≠ [] ∧ p.canon d ∉ label

/-- The captured text occurs nowhere before. -/
def firstAt (lead captured : List α) : Bool :=
  (List.range lead.length).all fun k => !captured.isPrefixOf ((lead ++ captured).drop k)

/-- The first match that reaches the secret hides it. -/
def hides : List (Pattern α) → (front secret rest : List α) → Bool
  | [], _, _, _ => false
  | p :: patterns, front, secret, rest =>
    match p.scan mark 0 front with
    | .closed front => hides patterns front secret (p.replaceAll mark 0 rest)
    | .opened _ lead start => firstAt lead (start ++ secret ++ rest.takeWhile p.value)

variable {p mark} {d : α} {s rest w : List α} {n : ℕ}

/-! ## Labels -/

/-- A label ends before a letter that is in no label. -/
theorem isPrefixOf_append {label : List α} (hd : p.canon d ∉ label) (w rest : List α) :
    label.isPrefixOf ((w ++ d :: rest).map p.canon) =
      label.isPrefixOf ((w ++ [d]).map p.canon) := by
  rw [Bool.eq_iff_iff, List.isPrefixOf_iff_prefix, List.isPrefixOf_iff_prefix]
  have hsplit : (w ++ d :: rest).map p.canon = (w ++ [d]).map p.canon ++ rest.map p.canon := by
    simp
  rw [hsplit]
  constructor
  · intro h
    rcases List.prefix_or_prefix_of_prefix h (List.prefix_append _ _) with h' | ⟨t, rfl⟩
    · exact h'
    · exact absurd (by simp) hd
  · exact fun h => h.trans (List.prefix_append _ _)

theorem labelLength_append (hd : p.Splits d) (w rest : List α) :
    p.labelLength (w ++ d :: rest) = p.labelLength (w ++ [d]) := by
  have hfind := List.find?_congr fun label hlabel =>
    isPrefixOf_append (p := p) (d := d) (hd label hlabel).2 w rest
  rw [labelLength, labelLength, hfind]

theorem labelLength_spec (h : p.labelLength s = some n) :
    ∃ label ∈ p.labels, label.length = n ∧ label <+: s.map p.canon := by
  obtain ⟨label, hfind, rfl⟩ := Option.map_eq_some_iff.mp h
  have hprefix : label.isPrefixOf (s.map p.canon) = true := by
    have := List.find?_some hfind
    exact this
  exact ⟨label, List.mem_of_find?_eq_some hfind, rfl, List.isPrefixOf_iff_prefix.mp hprefix⟩

theorem labelLength_le (hd : p.Splits d) (h : p.labelLength (w ++ [d]) = some n) :
    0 < n ∧ n ≤ w.length := by
  obtain ⟨label, hlabel, rfl, hprefix⟩ := labelLength_spec h
  refine ⟨List.length_pos_of_ne_nil (hd label hlabel).1, ?_⟩
  have hle := hprefix.length_le
  rw [List.length_map, List.length_append, List.length_singleton] at hle
  by_contra hlt
  have heq : label = (w ++ [d]).map p.canon := hprefix.eq_of_length (by simp; omega)
  refine (hd label hlabel).2 ?_
  rw [heq]
  simp

theorem labelLength_of_splits (hd : p.Splits d) (rest : List α) :
    p.labelLength (d :: rest) = none := by
  rcases h : p.labelLength (d :: rest) with _ | n
  · rfl
  · rw [← List.nil_append (d :: rest), labelLength_append hd] at h
    have hle := labelLength_le hd h
    rw [List.length_nil] at hle
    omega

omit [DecidableEq α] in
theorem capture_eq_of_forall {t t' : List α} {k : ℕ}
    (h : ∀ i, i ≤ k → (t.drop i).takeWhile p.value = (t'.drop i).takeWhile p.value) :
    p.capture t k = p.capture t' k := by
  induction k with
  | zero => rfl
  | succ k ih =>
    rw [capture, capture, h (k + 1) le_rfl, ih fun i hi => h i (Nat.le_succ_of_le hi)]

omit [DecidableEq α] in
theorem capture_spec {t captured : List α} {k m : ℕ} (h : p.capture t k = some (m, captured)) :
    0 < m ∧ m ≤ k ∧ captured = (t.drop m).takeWhile p.value ∧ captured ≠ [] := by
  induction k with
  | zero => cases h
  | succ k ih =>
    rw [capture] at h
    split at h
    · next hne =>
      obtain ⟨rfl, rfl⟩ := Prod.mk.inj (Option.some.inj h)
      exact ⟨Nat.succ_pos _, le_rfl, rfl, hne⟩
    · obtain ⟨hpos, hle, hrest⟩ := ih h
      exact ⟨hpos, Nat.le_succ_of_le hle, hrest⟩

omit [DecidableEq α] in
theorem takeWhile_append_of_not_all {q : α → Bool} {t : List α} (h : t.all q = false)
    (rest : List α) : (t ++ rest).takeWhile q = t.takeWhile q := by
  rw [List.takeWhile_append, if_neg]
  intro hlength
  have hself : t.takeWhile q = t :=
    (List.takeWhile_prefix q).eq_of_length hlength
  rw [List.takeWhile_eq_self_iff] at hself
  rw [List.all_eq_true.mpr hself] at h
  cases h

omit [DecidableEq α] in
theorem length_takeWhile_lt {q : α → Bool} {t : List α} (h : t.all q = false) :
    (t.takeWhile q).length < t.length := by
  refine lt_of_le_of_ne (List.takeWhile_prefix q).length_le fun hlength => ?_
  have hself : t.takeWhile q = t := (List.takeWhile_prefix q).eq_of_length hlength
  rw [List.takeWhile_eq_self_iff] at hself
  rw [List.all_eq_true.mpr hself] at h
  cases h

theorem matchStart_of_none (h : p.labelLength s = none) : p.matchStart s = none := by
  rw [matchStart, h]
  rfl

/-- A match that ends in the text does not depend on what follows. -/
theorem matchStart_append (hd : p.Splits d) (h : p.opens (w ++ [d]) = none) (rest : List α) :
    p.matchStart (w ++ d :: rest) = p.matchStart (w ++ [d]) ∧
      ∀ n captured, p.matchStart (w ++ [d]) = some (n, captured) →
        0 < n ∧ n + captured.length ≤ w.length := by
  rw [opens] at h
  rw [matchStart, matchStart, labelLength_append hd]
  cases hn : p.labelLength (w ++ [d]) with
  | none => exact ⟨rfl, fun n captured h => by cases h⟩
  | some n =>
    obtain ⟨hpos, hle⟩ := labelLength_le hd hn
    rw [hn] at h
    dsimp only at h
    have hdrop : (w ++ [d]).drop n = w.drop n ++ [d] := List.drop_append_of_le_length hle
    have hdrop' : (w ++ d :: rest).drop n = (w.drop n ++ [d]) ++ rest := by
      rw [List.drop_append_of_le_length hle, List.append_assoc]
      rfl
    rw [Option.bind_some, Option.bind_some, hdrop, hdrop']
    rw [hdrop] at h
    set v := w.drop n ++ [d] with hv
    have hlength : v.length = w.length - n + 1 := by
      rw [hv, List.length_append, List.length_drop, List.length_singleton]
    have hseparator : v.all p.separator = false := by
      by_contra hall
      have hself := List.takeWhile_eq_self_iff.mpr
        (List.all_eq_true.mp (Bool.not_eq_false _ ▸ hall))
      have hnil : v.dropWhile p.separator = [] := by
        have happend := List.takeWhile_append_dropWhile (p := p.separator) (l := v)
        rw [hself] at happend
        exact List.append_right_eq_self.mp happend
      rw [hself, hnil] at h
      cases h.symm.trans (if_pos ⟨by rw [hv]; simp, rfl⟩)
    rw [takeWhile_append_of_not_all hseparator]
    by_cases hrun : v.takeWhile p.separator = []
    · rw [hrun]
      exact ⟨rfl, fun n captured h => by cases h⟩
    · -- behind the separators there is a letter that ends the value
      have hall : (v.dropWhile p.separator).all p.value = false := by
        by_contra hall
        rw [if_pos ⟨hrun, Bool.not_eq_false _ ▸ hall⟩] at h
        cases h
      have hends : ∀ i ≤ (v.takeWhile p.separator).length, (v.drop i).all p.value = false := by
        intro i hi
        have happend := List.takeWhile_append_dropWhile (p := p.separator) (l := v)
        rw [← happend, List.drop_append_of_le_length hi, List.all_append, hall, Bool.and_false]
      have hrunle : (v.takeWhile p.separator).length ≤ v.length :=
        (List.takeWhile_prefix _).length_le
      have hcapture : p.capture (v ++ rest) (v.takeWhile p.separator).length =
          p.capture v (v.takeWhile p.separator).length := by
        refine capture_eq_of_forall fun i hi => ?_
        rw [List.drop_append_of_le_length (hi.trans hrunle), takeWhile_append_of_not_all (hends i hi)]
      rw [hcapture]
      refine ⟨rfl, fun m captured hmatch => ?_⟩
      obtain ⟨⟨k, captured'⟩, hk, heq⟩ := Option.map_eq_some_iff.mp hmatch
      obtain ⟨rfl, rfl⟩ := Prod.mk.inj heq
      obtain ⟨hkpos, hkle, rfl, -⟩ := capture_spec hk
      have hlt := length_takeWhile_lt (hends k hkle)
      rw [List.length_drop] at hlt
      omega

theorem replaceAll_drop (n : ℕ) (s : List α) :
    p.replaceAll mark n s = p.replaceAll mark 0 (s.drop n) := by
  induction s generalizing n with
  | nil => cases n <;> rfl
  | cons c s ih =>
    cases n with
    | zero => rfl
    | succ n => exact ih n

theorem scan_drop (n : ℕ) (s : List α) : p.scan mark n s = p.scan mark 0 (s.drop n) := by
  induction s generalizing n with
  | nil => cases n <;> rfl
  | cons c s ih =>
    cases n with
    | zero => rfl
    | succ n => exact ih n

theorem replaceAll_cons_of_splits (hd : p.Splits d) (rest : List α) :
    p.replaceAll mark 0 (d :: rest) = d :: p.replaceAll mark 0 rest := by
  rw [replaceAll, matchStart_of_none (labelLength_of_splits hd rest)]

/-- What a pattern leaves of a text with a secret. -/
def Scan.Leaves (p : Pattern α) (mark : List α) (d : α) (secret rest : List α) :
    Scan α → List α → Prop
  | .closed front, out =>
    (∃ w, front = w ++ [d]) ∧ out = front ++ secret ++ p.replaceAll mark 0 rest
  | .opened front lead start, out =>
    out = front ++ replaceFirst mark (start ++ secret ++ rest.takeWhile p.value)
      (lead ++ (start ++ secret ++ rest.takeWhile p.value)) ++
      p.replaceAll mark 0 (rest.dropWhile p.value)

theorem Scan.Leaves.push {secret out text : List α} {o : Scan α}
    (h : Scan.Leaves p mark d secret rest o out) :
    Scan.Leaves p mark d secret rest (o.push text) (text ++ out) := by
  cases o with
  | closed front =>
    obtain ⟨⟨w, rfl⟩, rfl⟩ := h
    exact ⟨⟨text ++ w, (List.append_assoc _ _ _).symm⟩, by simp⟩
  | opened front lead start =>
    change _ = _ at h
    rw [h]
    simp [Scan.push, Scan.Leaves]

end Pattern
