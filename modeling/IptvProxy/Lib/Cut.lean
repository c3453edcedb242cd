import IptvProxy.Lib.Patterns

/-!
# A secret behind its label

When patterns are replaced one after another, an earlier one may take away the label of a later one.
It does not if the text can be cut so that no match goes over the cut (`Cut`), and behind the cut
none of an earlier pattern starts (`Quiet`). A cut stays one when a pattern is replaced
(`Cut.replaceAll`). So the first pattern with a match behind the cut reaches the secret (`Reaches`),
and hides it if what it captures occurs nowhere before (`hides_of_cut`).
-/

universe u

namespace Pattern

variable {α : Type u} [DecidableEq α]

/-- No match that starts in the text goes on behind it, and the text is empty or ends with a letter
that is in no label and in no value. -/
structure Cut (p : Pattern α) (s : List α) : Prop where
  /-- the last letter -/
  mark : ∀ e ∈ s.getLast?, p.Splits e ∧ p.value e = false
  /-- the matches -/
  closed : ∀ u ∈ s.tails, p.opens u = none

/-- No match starts in the text. -/
def Quiet (p : Pattern α) (s : List α) : Prop :=
  ∀ u ∈ s.tails, p.opens u = none ∧ p.matchStart u = none

/-- The first match that starts in the text goes on behind it: before it there is `front`, it does
not capture `lead`, and it captures `start`. -/
structure Reaches (p : Pattern α) (front lead start : List α) : Prop where
  /-- none starts before it -/
  quiet : ∀ u ∈ front.tails, u ≠ [] →
    p.opens (u ++ (lead ++ start)) = none ∧ p.matchStart (u ++ (lead ++ start)) = none
  /-- it goes on -/
  opens : p.opens (lead ++ start) = some (lead, start)

/-- What is put in for a value ends with a letter that is in no label and no separator. -/
def Marks (p : Pattern α) (mark : List α) : Prop :=
  ∃ stop ∈ mark.getLast?, p.Splits stop ∧ p.separator stop = false

variable {p : Pattern α} {mark : List α} {d e stop : α} {n : ℕ}
  {s t rest front lead start secret : List α}

/-! ## Replacing -/

omit [DecidableEq α] in
theorem suffix_of_not_mem {x m : List α} (hx : stop ∉ x) (h : x <:+ m ++ stop :: t) :
    x <:+ t := by
  rcases List.suffix_or_suffix_of_suffix h (List.suffix_append m (stop :: t)) with h | h
  · rcases List.suffix_cons_iff.mp h with rfl | h
    · exact absurd List.mem_cons_self hx
    · exact h
  · exact absurd (h.subset List.mem_cons_self) hx

theorem replaceFirst_spec {captured : List α} (h : captured <:+: s) :
    ∃ a b, s = a ++ captured ++ b ∧ replaceFirst mark captured s = a ++ mark ++ b := by
  induction s with
  | nil =>
    obtain rfl := List.infix_nil.mp h
    exact ⟨[], [], rfl, by simp [replaceFirst]⟩
  | cons c s ih =>
    rw [replaceFirst]
    split
    · next hprefix =>
      obtain ⟨b, hb⟩ := List.isPrefixOf_iff_prefix.mp hprefix
      refine ⟨[], b, by rw [← hb]; simp, ?_⟩
      rw [← hb, List.drop_left]
      simp
    · next hprefix =>
      rcases List.infix_cons_iff.mp h with h | h
      · exact absurd (List.isPrefixOf_iff_prefix.mpr h) hprefix
      · obtain ⟨a, b, hs, hreplace⟩ := ih h
        exact ⟨c :: a, b, by rw [hs]; rfl, by rw [hreplace]; rfl⟩

/-- A match lies in the text, and what it captures at its end. -/
theorem captured_of_matchStart {captured : List α} (h : p.matchStart s = some (n, captured)) :
    captured <:+: s.take (n + captured.length) ∧ 0 < n + captured.length := by
  obtain ⟨k, -, h⟩ := Option.bind_eq_some_iff.mp h
  obtain ⟨⟨m, captured'⟩, hm, heq⟩ := Option.map_eq_some_iff.mp h
  obtain ⟨rfl, rfl⟩ := Prod.mk.inj heq
  obtain ⟨hpos, -, hcaptured, -⟩ := capture_spec hm
  have hprefix : captured' <+: s.drop (k + m) := by
    rw [hcaptured, ← List.drop_drop]
    exact List.takeWhile_prefix _
  refine ⟨?_, by omega⟩
  rw [List.take_add]
  have htake : (s.drop (k + m)).take captured'.length = captured' := by
    rw [← List.prefix_iff_eq_take.mp hprefix]
  rw [htake]
  exact (List.suffix_append _ _).isInfix

theorem drop_of_not_mem (hstop : stop ∈ mark) (h : stop ∉ p.replaceAll mark n s) :
    p.replaceAll mark n s = s.drop n := by
  induction s generalizing n with
  | nil => cases n <;> rfl
  | cons c s ih =>
    cases n with
    | succ n => exact ih h
    | zero =>
      rw [replaceAll] at h ⊢
      split at h
      · next m captured hm =>
        obtain ⟨a, b, -, hreplace⟩ := @replaceFirst_spec _ _ mark _ _ (captured_of_matchStart hm).1
        rw [hreplace] at h
        simp [hstop] at h
      · have hrest : stop ∉ p.replaceAll mark 0 s := fun hmem => h (List.mem_cons_of_mem _ hmem)
        rw [ih hrest]
        rfl

/-- The end of what is left, as far as nothing is put in, is the end of the text. -/
theorem suffix_of_replaceAll {x m : List α} (hmark : mark = m ++ [stop]) (hx : stop ∉ x)
    (h : x <:+ p.replaceAll mark n s) : x <:+ s := by
  induction s generalizing n with
  | nil =>
    cases n <;> exact h
  | cons c s ih =>
    cases n with
    | succ n => exact (ih h).trans (List.suffix_cons c s)
    | zero =>
      rw [replaceAll] at h
      split at h
      · next k captured hk =>
        obtain ⟨hpart, hpos⟩ := captured_of_matchStart hk
        obtain ⟨a, b, htake, hreplace⟩ := @replaceFirst_spec _ _ mark _ _ hpart
        set r := p.replaceAll mark (k + captured.length - 1) s with hr
        have hx' : x <:+ b ++ r := by
          refine @suffix_of_not_mem _ stop _ x (a ++ m) hx ?_
          rw [hreplace, hmark] at h
          simpa using h
        rcases List.suffix_or_suffix_of_suffix hx' (List.suffix_append b r) with h | h
        · exact (ih h).trans (List.suffix_cons c s)
        · -- nothing is put in behind the match
          have hrest : r = s.drop (k + captured.length - 1) :=
            drop_of_not_mem (by rw [hmark]; simp) fun hmem => hx (h.subset hmem)
          refine hx'.trans ⟨a ++ captured, ?_⟩
          have htext := List.take_append_drop (k + captured.length) (c :: s)
          rw [← Nat.sub_add_cancel hpos, List.drop_succ_cons, Nat.sub_add_cancel hpos, htake,
            ← hrest] at htext
          rw [← htext]
          simp
      · next hk =>
        rcases List.suffix_cons_iff.mp h with rfl | h
        · have hrest : stop ∉ p.replaceAll mark 0 s := fun hmem => hx (List.mem_cons_of_mem _ hmem)
          rw [drop_of_not_mem (by rw [hmark]; simp) hrest, List.drop_zero]
        · exact (ih h).trans (List.suffix_cons c s)

/-! ## Cuts -/

omit [DecidableEq α] in
/-- The last letter is in every part of the end. -/
theorem mem_of_suffix {x : List α} (h : x <:+ s ++ [e]) (hne : x ≠ []) : e ∈ x := by
  obtain ⟨a, ha⟩ := h
  obtain ⟨y, z, rfl⟩ := (List.eq_nil_or_concat' x).resolve_left hne
  rw [← List.append_assoc] at ha
  obtain ⟨-, hz⟩ := List.append_inj' ha rfl
  obtain rfl := List.head_eq_of_cons_eq hz
  exact List.mem_append_right _ List.mem_cons_self

/-- What opens a match ends in it. -/
theorem opens_append (hd : p.Splits d) (hvalue : p.value d = false)
    (h : p.opens (s ++ [d]) = none) (t : List α) : p.opens (s ++ d :: t) = none := by
  rw [opens] at h ⊢
  rw [labelLength_append hd]
  cases hn : p.labelLength (s ++ [d]) with
  | none => rfl
  | some n =>
    obtain ⟨-, hle⟩ := labelLength_le hd hn
    rw [hn] at h
    have hdrop : (s ++ [d]).drop n = s.drop n ++ [d] := List.drop_append_of_le_length hle
    have hdrop' : (s ++ d :: t).drop n = (s.drop n ++ [d]) ++ t := by
      rw [List.drop_append_of_le_length hle, List.append_assoc]
      rfl
    dsimp only at h ⊢
    rw [hdrop] at h
    rw [hdrop']
    set v := s.drop n ++ [d] with hv
    refine if_neg ?_
    rintro ⟨-, hall⟩
    rw [List.dropWhile_append] at hall
    by_cases hempty : v.dropWhile p.separator = []
    · have hself : v.takeWhile p.separator = v := by
        have happend := List.takeWhile_append_dropWhile (p := p.separator) (l := v)
        rwa [hempty, List.append_nil] at happend
      rw [hself, hempty] at h
      cases h.symm.trans (if_pos ⟨by rw [hv]; simp, rfl⟩)
    · rw [if_neg (by simpa using hempty), List.all_append, Bool.and_eq_true] at hall
      have hmem := mem_of_suffix (List.dropWhile_suffix p.separator) hempty
      rw [List.all_eq_true.mp hall.1 d hmem] at hvalue
      cases hvalue

theorem Cut.drop (h : Cut p (s ++ [e])) (k : ℕ) : Cut p (s.drop k ++ [e]) where
  mark e' he' := h.mark e' (by simpa using he')
  closed u hu := by
    have hsuffix : s.drop k ++ [e] <:+ s ++ [e] :=
      ⟨s.take k, by rw [← List.append_assoc, List.take_append_drop]⟩
    exact h.closed u ((List.mem_tails _ _).mpr (((List.mem_tails _ _).mp hu).trans hsuffix))

omit [DecidableEq α] in
theorem Scan.push_push (o : Scan α) (x y : List α) : (o.push x).push y = o.push (y ++ x) := by
  cases o <;> simp [Scan.push]

/-- **The text before a cut** is read alone. -/
theorem scan_cut (h : Cut p (s ++ [e])) (t : List α) :
    ∃ s', p.replaceAll mark 0 (s ++ [e]) = s' ++ [e] ∧
      p.scan mark 0 (s ++ e :: t) = (p.scan mark 0 t).push (s' ++ [e]) := by
  obtain ⟨hd, hvalue⟩ := h.mark e (by simp)
  -- by the length of what has still to be read
  induction hlength : s.length using Nat.strong_induction_on generalizing s with
  | _ length ih =>
    subst hlength
    cases s with
    | nil =>
      refine ⟨[], ?_, ?_⟩
      · rw [List.nil_append, replaceAll_cons_of_splits hd]
        rfl
      · have hopens : p.opens (e :: t) = none := by
          rw [opens, labelLength_of_splits hd]
        rw [List.nil_append, scan, hopens, matchStart_of_none (labelLength_of_splits hd t)]
        rfl
    | cons c s =>
      have hopens := h.closed (c :: s ++ [e]) ((List.mem_tails _ _).mpr (List.suffix_refl _))
      have hopens' := opens_append hd hvalue hopens t
      obtain ⟨hmatch, hbound⟩ := matchStart_append hd hopens t
      simp only [List.cons_append] at hopens hopens' hmatch hbound ⊢
      rw [scan, hopens', replaceAll, hmatch]
      cases hstart : p.matchStart (c :: (s ++ [e])) with
      | none =>
        have hcut : Cut p (s ++ [e]) := h.drop 1
        obtain ⟨s', hs', hscan⟩ := ih s.length (Nat.lt_succ_self _) hcut rfl
        dsimp only
        refine ⟨c :: s', by rw [hs']; rfl, ?_⟩
        rw [hscan, Scan.push_push]
        rfl
      | some found =>
        obtain ⟨n, captured⟩ := found
        obtain ⟨hpos, hle⟩ := hbound n captured hstart
        rw [List.length_cons] at hle
        have hdrop : ∀ t, (s ++ e :: t).drop (n + captured.length - 1) =
            s.drop (n + captured.length - 1) ++ e :: t :=
          fun t => List.drop_append_of_le_length (by omega)
        have htake : ∀ t, (c :: (s ++ e :: t)).take (n + captured.length) =
            (c :: s).take (n + captured.length) := fun t => by
          rw [← List.cons_append]
          exact List.take_append_of_le_length (by rw [List.length_cons]; omega)
        have hcut := h.drop (n + captured.length)
        rw [← Nat.sub_add_cancel (Nat.add_pos_left hpos captured.length), List.drop_succ_cons]
          at hcut
        obtain ⟨s', hs', hscan⟩ := ih _ (by rw [List.length_drop, List.length_cons]; omega) hcut rfl
        dsimp only
        rw [replaceAll_drop, scan_drop, hdrop, hdrop, htake, htake, hs', hscan, Scan.push_push]
        exact ⟨_ ++ s', (List.append_assoc ..).symm, by rw [List.append_assoc]⟩

/-- **A cut stays a cut** when a pattern is replaced. -/
theorem Cut.replaceAll {q : Pattern α} (hq : Cut q s) (hp : Cut p s) (hmark : q.Marks mark) :
    Cut q (p.replaceAll mark 0 s) := by
  obtain ⟨stop, hstop, hsplits, hseparator⟩ := hmark
  obtain ⟨m, hm⟩ := List.getLast?_eq_some_iff.mp hstop
  rcases List.eq_nil_or_concat' s with rfl | ⟨s, e, rfl⟩
  · exact hq
  obtain ⟨hd, hvalue⟩ := hq.mark e (by simp)
  obtain ⟨s', hs', -⟩ := @scan_cut _ _ _ mark _ _ hp []
  rw [hs']
  refine ⟨fun e' he' => hq.mark e' (by simpa using he'), fun u hu => ?_⟩
  by_contra hopens
  obtain ⟨n, hn, hrun, hall⟩ : ∃ n, q.labelLength u = some n ∧
      (u.drop n).takeWhile q.separator ≠ [] ∧
      ((u.drop n).dropWhile q.separator).all q.value = true := by
    rw [opens] at hopens
    cases hn : q.labelLength u with
    | none =>
      rw [hn] at hopens
      exact absurd rfl hopens
    | some n =>
      rw [hn] at hopens
      dsimp only at hopens
      split at hopens
      · next h => exact ⟨n, rfl, h⟩
      · exact absurd rfl hopens
  have hsuffix := (List.mem_tails _ _).mp hu
  have hrest : (u.drop n).dropWhile q.separator = [] := by
    by_contra hne
    have hmem := mem_of_suffix
      (((List.dropWhile_suffix q.separator).trans (List.drop_suffix n u)).trans hsuffix) hne
    rw [List.all_eq_true.mp hall e hmem] at hvalue
    cases hvalue
  have hseparators := List.dropWhile_eq_nil_iff.mp hrest
  obtain ⟨label, hlabel, hlength, hprefix⟩ := labelLength_spec hn
  have hnot : stop ∉ u := by
    intro hmem
    rw [← List.take_append_drop n u] at hmem
    rcases List.mem_append.mp hmem with hmem | hmem
    · refine (hsplits label hlabel).2 ?_
      rw [List.prefix_iff_eq_take.mp hprefix, hlength, ← List.map_take]
      exact List.mem_map_of_mem hmem
    · rw [hseparators stop hmem] at hseparator
      cases hseparator
  rw [← hs'] at hsuffix
  rw [hq.closed u ((List.mem_tails _ _).mpr (suffix_of_replaceAll hm hnot hsuffix))] at hopens
  exact hopens rfl

/-! ## Behind the cut -/

theorem scan_quiet (h : p.Quiet s) : p.scan mark 0 s = .closed s := by
  induction s with
  | nil => rfl
  | cons c s ih =>
    obtain ⟨hopens, hmatch⟩ := h (c :: s) ((List.mem_tails _ _).mpr (List.suffix_refl _))
    have hs : p.Quiet s := fun u hu => by
      refine h u ((List.mem_tails _ _).mpr ?_)
      exact ((List.mem_tails _ _).mp hu).trans (List.suffix_cons c s)
    rw [scan, hopens, hmatch, ih hs]
    rfl

theorem opens_nil : p.opens [] = none := by
  rw [opens]
  split
  · rfl
  · simp

theorem scan_reaches (h : p.Reaches front lead start) :
    p.scan mark 0 (front ++ (lead ++ start)) = .opened front lead start := by
  have hopens := h.opens
  have hpart : ∀ u, u <:+ front →
      p.scan mark 0 (u ++ (lead ++ start)) = .opened u lead start := by
    intro u hsuffix
    induction u with
    | nil =>
      cases htext : lead ++ start with
      | nil =>
        rw [htext, opens_nil] at hopens
        cases hopens
      | cons c t =>
        rw [htext] at hopens
        rw [List.nil_append, scan, hopens]
    | cons c u ih =>
      obtain ⟨hnone, hmatch⟩ := h.quiet (c :: u) ((List.mem_tails _ _).mpr hsuffix)
        (List.cons_ne_nil c u)
      rw [List.cons_append] at hnone hmatch ⊢
      rw [scan, hnone, hmatch, ih ((List.suffix_cons c u).trans hsuffix)]
      rfl
  exact hpart front (List.suffix_refl _)

/-- What is captured occurs nowhere before if its start with the secret does not. -/
theorem firstAt_append {captured tail : List α} (h : firstAt lead captured = true) :
    firstAt lead (captured ++ tail) = true := by
  rw [firstAt, List.all_eq_true] at h ⊢
  intro k hk
  have hfirst := h k hk
  rw [List.mem_range] at hk
  rw [Bool.not_eq_true', Bool.eq_false_iff, ne_eq, List.isPrefixOf_iff_prefix] at hfirst ⊢
  intro hprefix
  refine hfirst ?_
  have hstart := (List.prefix_append captured tail).trans hprefix
  have hle : k ≤ (lead ++ captured).length := by
    rw [List.length_append]
    omega
  rw [← List.append_assoc, List.drop_append_of_le_length hle] at hstart
  refine List.prefix_of_prefix_length_le hstart (List.prefix_append _ _) ?_
  rw [List.length_drop, List.length_append]
  omega

/-! ## Several patterns -/

/-- What a cut text is read as. -/
theorem scan_of_cut (h : p.Cut s) (t : List α) :
    p.scan mark 0 (s ++ t) = (p.scan mark 0 t).push (p.replaceAll mark 0 s) := by
  rcases List.eq_nil_or_concat' s with rfl | ⟨s, e, rfl⟩
  · rw [List.nil_append, replaceAll]
    cases p.scan mark 0 t <;> rfl
  · obtain ⟨s', hs', hscan⟩ := @scan_cut _ _ _ mark _ _ h t
    rw [hs', ← hscan, List.append_assoc]
    rfl

/-- **Several patterns** hide a secret if the text before it can be cut, and what the first match
behind the cut captures occurs nowhere before. -/
theorem hides_of_cut {ps qs : List (Pattern α)} {q : Pattern α}
    (hcut : ∀ p ∈ ps ++ [q], p.Cut s ∧ p.Marks mark)
    (hquiet : ∀ p ∈ ps, p.Quiet (front ++ (lead ++ start))) (hq : q.Reaches front lead start)
    (hfirst : firstAt lead (start ++ secret) = true) :
    hides mark (ps ++ q :: qs) (s ++ (front ++ (lead ++ start))) secret rest = true := by
  induction ps generalizing s rest with
  | nil =>
    rw [List.nil_append, hides, scan_of_cut (hcut q List.mem_cons_self).1, scan_reaches hq]
    exact firstAt_append hfirst
  | cons p ps ih =>
    have hp := (hcut p List.mem_cons_self).1
    rw [List.cons_append, hides, scan_of_cut hp, scan_quiet (hquiet p List.mem_cons_self)]
    refine ih (fun r hr => ?_) fun r hr => hquiet r (List.mem_cons_of_mem _ hr)
    obtain ⟨hr', hmark⟩ := hcut r (List.mem_cons_of_mem _ hr)
    exact ⟨hr'.replaceAll hp hmark, hmark⟩

end Pattern
