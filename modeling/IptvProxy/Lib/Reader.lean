import Mathlib.Data.List.Basic

/-!
# Readers

A reader hands out its elements in pieces: a read with room for `n` of them gets at most `n`, and
how many is the reader's choice. It ends, or it fails. The end may be reported together with the
last piece or by a read of its own.

`readAll` reads to the end, `readLimited` reads at most so many elements. Whatever room they offer
at each read, they get the contents (`readAll_eq`, `readLimited_spec`).
-/

universe u v

/-- A reader of elements `α` that may fail with `ε`. -/
inductive Reader (α : Type u) (ε : Type v) where
  /-- pieces, then the end or a failure; `eager` says that it is reported with the last piece -/
  | source (pieces : List (List α)) (fault : Option ε) (eager : Bool)
  /-- one reader after the other -/
  | append (first second : Reader α ε)

/-- Why there is nothing more. -/
inductive Reader.End (ε : Type v) where
  /-- the end -/
  | eof
  /-- a failure -/
  | fault (e : ε)

namespace Reader

variable {α : Type u} {ε : Type v}

/-- The end, unless there is a failure. -/
def End.of : Option ε → End ε
  | none => .eof
  | some e => .fault e

/-- The failure, if it is one. -/
def End.error : End ε → Option ε
  | eof => none
  | fault e => some e

/-- A reader of some elements. -/
def ofList (xs : List α) : Reader α ε := .source (if xs = [] then [] else [xs]) none false

/-- A read with room for `n` elements: what is got, whether that was all, and the reader then. -/
def read : Reader α ε → ℕ → List α × Option (End ε) × Reader α ε
  | source [] fault eager, _ => ([], some (.of fault), source [] fault eager)
  | source (p :: pieces) fault eager, n =>
    if p.length ≤ n then
      (p, if eager && pieces.isEmpty then some (.of fault) else none, source pieces fault eager)
    else (p.take n, none, source (p.drop n :: pieces) fault eager)
  | append first second, n =>
    match first.read n with
    | (xs, some .eof, _) => if xs = [] then second.read n else (xs, none, second)
    | (xs, e, first') => (xs, e, append first' second)

/-- How it ends. -/
def fault : Reader α ε → Option ε
  | source _ fault _ => fault
  | append first second => first.fault.or second.fault

/-- All elements before the end. -/
def contents : Reader α ε → List α
  | source pieces _ _ => pieces.flatten
  | append first second =>
    first.contents ++ if first.fault.isSome then [] else second.contents

/-- How many reads there can be, at most. -/
def size : Reader α ε → ℕ
  | source pieces _ _ => pieces.flatten.length + pieces.length
  | append first second => first.size + second.size + 1

/-- **What a read does**: what it gets and what is left are the contents, and if there is nothing
more, all has been read. -/
theorem read_spec (r : Reader α ε) (n : ℕ) :
    (r.read n).1.length ≤ n ∧ (r.read n).1 ++ (r.read n).2.2.contents = r.contents ∧
      (r.read n).2.2.fault = r.fault ∧
      (∀ e, (r.read n).2.1 = some e → e = .of r.fault ∧ (r.read n).2.2.contents = []) := by
  induction r with
  | source pieces fault eager =>
    cases pieces with
    | nil =>
      refine ⟨Nat.zero_le n, rfl, rfl, ?_⟩
      rintro e ⟨⟩
      exact ⟨rfl, rfl⟩
    | cons p pieces =>
      rw [read]
      split
      · next hle =>
        refine ⟨hle, rfl, rfl, ?_⟩
        intro e he
        dsimp only at he
        split at he
        · next hlast =>
          obtain rfl := Option.some.inj he
          rw [Bool.and_eq_true, List.isEmpty_iff] at hlast
          refine ⟨rfl, ?_⟩
          rw [hlast.2]
          rfl
        · cases he
      · refine ⟨List.length_take_le n p, ?_, rfl, ?_⟩
        · simp only [contents, List.flatten_cons, ← List.append_assoc, List.take_append_drop]
        · rintro e ⟨⟩
  | append first second ih₁ ih₂ =>
    obtain ⟨hlength, hcontents, hfault, hend⟩ := ih₁
    rw [read]
    split
    · next xs r' heq =>
      -- the first reader is at its end, so the second one follows
      rw [heq] at hlength hcontents hend
      obtain ⟨heof, hnil⟩ := hend .eof rfl
      have hnone : first.fault = none := by
        cases hf : first.fault with
        | none => rfl
        | some e =>
          rw [hf] at heof
          cases heof
      have hfirst : first.contents = xs := by
        rw [← hcontents]
        dsimp only
        rw [hnil, List.append_nil]
      have hall : (append first second).contents = xs ++ second.contents := by
        rw [contents, hfirst, hnone]
        rfl
      have hsecond : (append first second).fault = second.fault := by
        rw [fault, hnone]
        rfl
      rw [hall, hsecond]
      split
      · next hxs =>
        rw [hxs]
        exact ih₂
      · refine ⟨hlength, rfl, rfl, ?_⟩
        rintro e ⟨⟩
    · next xs e r' hne heq =>
      rw [heq] at hlength hcontents hfault hend
      dsimp only at hlength hcontents hfault hend ⊢
      refine ⟨hlength, ?_, ?_, ?_⟩
      · rw [contents, contents, hfault, ← hcontents, List.append_assoc]
      · rw [fault, fault, hfault]
      · -- an error other than the end is the fault of the first reader
        rintro e' rfl
        obtain ⟨he, hnil⟩ := hend e' rfl
        cases hf : first.fault with
        | none =>
          rw [hf] at he
          subst he
          exact (hne rfl).elim
        | some e₀ =>
          rw [hf] at he
          refine ⟨by rw [he, fault, hf]; rfl, ?_⟩
          rw [contents, hnil, hfault, hf]
          rfl

/-- A read that is offered room and is not the last one brings the end nearer. -/
theorem size_read (r : Reader α ε) (n : ℕ) (h : (r.read (n + 1)).2.1 = none) :
    (r.read (n + 1)).2.2.size < r.size := by
  induction r with
  | source pieces fault eager =>
    cases pieces with
    | nil => cases h
    | cons p pieces =>
      rw [read]
      split
      · simp only [size, List.flatten_cons, List.length_append, List.length_cons]
        omega
      · simp only [size, List.flatten_cons, List.length_append, List.length_cons, List.length_drop]
        omega
  | append first second ih₁ ih₂ =>
    rw [read] at h ⊢
    split
    · next xs r' heq =>
      rw [heq] at h
      dsimp only at h
      split
      · next hxs =>
        rw [if_pos hxs] at h
        have := ih₂ h
        simp only [size]
        omega
      · simp only [size]
        omega
    · next xs e r' hne heq =>
      rw [heq] at ih₁ h
      dsimp only at ih₁ h ⊢
      cases e with
      | none =>
        have := ih₁ rfl
        simp only [size]
        omega
      | some e =>
        cases e with
        | eof => exact (hne rfl).elim
        | fault e => cases h

/-! ## Reading on -/

/-- Read to the end, with room for `room k + 1` elements when there are `k` of them: what is got,
and how it ends. -/
def readAll (room : ℕ → ℕ) (r : Reader α ε) (got : List α) : List α × Option ε :=
  match _h : (r.read (room got.length + 1)).2.1 with
  | some e => (got ++ (r.read (room got.length + 1)).1, e.error)
  | none => readAll room (r.read (room got.length + 1)).2.2
      (got ++ (r.read (room got.length + 1)).1)
termination_by r.size
decreasing_by exact size_read r _ _h

/-- Read at most `limit` elements: what is got, the failure if there is one, and the reader then. -/
def readLimited (room : ℕ → ℕ) (limit : ℕ) (r : Reader α ε) (got : List α) :
    List α × Option ε × Reader α ε :=
  if limit ≤ got.length then (got, none, r)
  else
    match _h : (r.read (min (room got.length) (limit - got.length - 1) + 1)).2.1 with
    | some e =>
      (got ++ (r.read (min (room got.length) (limit - got.length - 1) + 1)).1, e.error,
        (r.read (min (room got.length) (limit - got.length - 1) + 1)).2.2)
    | none => readLimited room limit (r.read (min (room got.length) (limit - got.length - 1) + 1)).2.2
        (got ++ (r.read (min (room got.length) (limit - got.length - 1) + 1)).1)
termination_by r.size
decreasing_by exact size_read r _ _h

@[simp] theorem End.error_of (fault : Option ε) : (End.of fault).error = fault := by
  cases fault <;> rfl

/-- **Reading to the end gets everything**, whatever room is offered. -/
theorem readAll_eq (room : ℕ → ℕ) (r : Reader α ε) (got : List α) :
    r.readAll room got = (got ++ r.contents, r.fault) := by
  induction r, got using readAll.induct room with
  | case1 r got e he =>
    obtain ⟨-, hcontents, hfault, hend⟩ := r.read_spec (room got.length + 1)
    obtain ⟨rfl, hnil⟩ := hend e he
    rw [readAll]
    split
    · next e' he' =>
      rw [he] at he'
      obtain rfl := Option.some.inj he'
      rw [hnil, List.append_nil] at hcontents
      rw [hcontents, End.error_of]
    · next he' =>
      rw [he] at he'
      cases he'
  | case2 r got he ih =>
    obtain ⟨-, hcontents, hfault, -⟩ := r.read_spec (room got.length + 1)
    rw [readAll]
    split
    · next he' =>
      rw [he] at he'
      cases he'
    · rw [ih, hfault, List.append_assoc, hcontents]

/-- **Reading a part**: what is got and what is left are the contents, and if it does not fail, as
much is got as is asked for or is there. -/
theorem readLimited_spec (room : ℕ → ℕ) (limit : ℕ) (r : Reader α ε) (got : List α)
    (hgot : got.length ≤ limit) {xs : List α} {e : Option ε} {r' : Reader α ε}
    (h : r.readLimited room limit got = (xs, e, r')) :
    xs ++ r'.contents = got ++ r.contents ∧ r'.fault = r.fault ∧
      (e = none → xs = (got ++ r.contents).take limit) := by
  induction r, got using readLimited.induct room limit with
  | case1 r got hfull =>
    rw [readLimited, if_pos hfull] at h
    obtain ⟨rfl, rfl, rfl⟩ := by simpa using h
    refine ⟨rfl, rfl, fun _ => ?_⟩
    rw [List.take_append_of_le_length (by omega), List.take_of_length_le hgot]
  | case2 r got hroom e₀ he =>
    obtain ⟨hlength, hcontents, hfault, hend⟩ :=
      r.read_spec (min (room got.length) (limit - got.length - 1) + 1)
    obtain ⟨rfl, hnil⟩ := hend e₀ he
    rw [readLimited, if_neg hroom] at h
    split at h
    · next e' he' =>
      rw [he] at he'
      obtain rfl := Option.some.inj he'
      obtain ⟨rfl, rfl, rfl⟩ := by simpa using h
      have hall : got ++ (r.read (min (room got.length) (limit - got.length - 1) + 1)).1 =
          got ++ r.contents := by
        rw [← hcontents, hnil, List.append_nil]
      refine ⟨by rw [List.append_assoc, hcontents], hfault, fun _ => ?_⟩
      rw [hall, List.take_of_length_le]
      rw [← hall, List.length_append]
      omega
    · next he' =>
      rw [he] at he'
      cases he'
  | case3 r got hroom he ih =>
    obtain ⟨hlength, hcontents, hfault, -⟩ :=
      r.read_spec (min (room got.length) (limit - got.length - 1) + 1)
    rw [readLimited, if_neg hroom] at h
    split at h
    · next he' =>
      rw [he] at he'
      cases he'
    · have := ih (by rw [List.length_append]; omega) h
      rwa [List.append_assoc, hcontents, hfault] at this

end Reader
