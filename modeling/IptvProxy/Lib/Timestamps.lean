import IptvProxy.Lib.Percent

/-!
# Timestamps

Reading and writing times by a layout, a list of chunks. Reading is more liberal than writing, as
in Go's `time` package: an hour may have one digit, a second may have a fraction that the layout
does not have, one space of a layout stands for any number of them.

`parse_format` says what is left of a time that is written by a layout and read by the same one:
the fields the layout has.
-/

namespace Timestamps

/-- A time of day at an offset from UTC, in seconds. -/
structure Time where
  /-- the year -/
  year : ℕ
  /-- the month, from 1 -/
  month : ℕ
  /-- the day, from 1 -/
  day : ℕ
  /-- the hour -/
  hour : ℕ
  /-- the minute -/
  minute : ℕ
  /-- the second -/
  second : ℕ
  /-- the nanosecond -/
  nanos : ℕ
  /-- the offset -/
  offset : ℤ
  deriving DecidableEq

/-- What a layout does not have. -/
def Time.zero : Time := ⟨0, 1, 1, 0, 0, 0, 0, 0⟩

/-- Leap years. -/
def isLeap (year : ℕ) : Bool := year % 4 = 0 && (year % 100 ≠ 0 || year % 400 = 0)

/-- The days of a month. -/
def daysIn (month year : ℕ) : ℕ :=
  if month = 2 then if isLeap year then 29 else 28
  else if month = 4 ∨ month = 6 ∨ month = 9 ∨ month = 11 then 30
  else 31

/-- The days before a date. -/
def daysBefore (year month day : ℕ) : ℤ :=
  365 * year + (year + 3) / 4 - (year + 99) / 100 + (year + 399) / 400 +
    ((List.range (month - 1)).map fun m => (daysIn (m + 1) year : ℤ)).sum + day - 1

/-- The instant, in nanoseconds. -/
def Time.instant (t : Time) : ℤ :=
  ((daysBefore t.year t.month t.day * 24 + t.hour) * 60 + t.minute) * 60000000000 +
    t.second * 1000000000 + t.nanos - t.offset * 1000000000

/-- A time that can be read. -/
structure Time.Valid (t : Time) : Prop where
  /-- four digits -/
  year : t.year < 10000
  /-- the month -/
  month : 1 ≤ t.month ∧ t.month ≤ 12
  /-- the day -/
  day : 1 ≤ t.day ∧ t.day ≤ daysIn t.month t.year
  /-- the hour -/
  hour : t.hour < 24
  /-- the minute -/
  minute : t.minute < 60
  /-- the second -/
  second : t.second < 60
  /-- less than a second -/
  nanos : t.nanos < 1000000000

/-- A piece of a layout. -/
inductive Chunk where
  | year
  | month
  | day
  | hour
  | minute
  | second
  /-- `Z` or an offset with a colon -/
  | zone
  /-- a space -/
  | space
  /-- another byte -/
  | lit (b : Byte)
  deriving DecidableEq

/-! ## Numbers -/

/-- The digit of a number below ten. -/
def digit (n : ℕ) : Byte := Fin.ofNat 256 (48 + n)

/-- The number of a digit. -/
def digit? (c : Byte) : Option ℕ := if 48 ≤ c.val ∧ c.val ≤ 57 then some (c.val - 48) else none

/-- Two digits. -/
def two (n : ℕ) : Bytes := [digit (n / 10), digit (n % 10)]

/-- Four digits. -/
def four (n : ℕ) : Bytes := two (n / 100) ++ two (n % 100)

/-- Read exactly two digits. -/
def number2 : Bytes → Option (ℕ × Bytes)
  | c :: d :: rest => do
    let hi ← digit? c
    let lo ← digit? d
    some (10 * hi + lo, rest)
  | _ => none

/-- Read one or two digits. -/
def number1 : Bytes → Option (ℕ × Bytes)
  | [] => none
  | [c] => (digit? c).map fun n => (n, [])
  | c :: d :: rest => (digit? c).map fun hi =>
    match digit? d with
    | some lo => (10 * hi + lo, rest)
    | none => (hi, d :: rest)

/-- Read exactly four digits. -/
def number4 (s : Bytes) : Option (ℕ × Bytes) := do
  let (hi, rest) ← number2 s
  let (lo, rest) ← number2 rest
  some (100 * hi + lo, rest)

/-- Read an optional fraction of a second. -/
def fraction : Bytes → ℕ × Bytes
  | c :: d :: rest =>
    if (c = 46 ∨ c = 44) ∧ (digit? d).isSome then
      let digits := (d :: rest).takeWhile fun c => (digit? c).isSome
      let kept := digits.take 9
      ((kept.filterMap digit?).foldl (fun n d => 10 * n + d) 0 * 10 ^ (9 - kept.length),
        (d :: rest).dropWhile fun c => (digit? c).isSome)
    else (0, c :: d :: rest)
  | s => (0, s)

/-- Read a zone: the offset. -/
def zone : Bytes → Option (ℤ × Bytes)
  | 90 :: rest => some (0, rest)
  | sign :: h1 :: h2 :: c :: m1 :: m2 :: rest => do
    let (h, _) ← number2 [h1, h2]
    let (m, _) ← number2 [m1, m2]
    if c ≠ 58 ∨ 24 < h ∨ 60 < m then none
    else if sign = 43 then some ((h * 60 + m) * 60, rest)
    else if sign = 45 then some (-((h * 60 + m) * 60), rest)
    else none
  | _ => none

/-! ## Layouts -/

/-- Read one chunk. -/
def Chunk.parse (t : Time) (s : Bytes) : Chunk → Option (Time × Bytes)
  | year => (number4 s).map fun x => ({ t with year := x.1 }, x.2)
  | month => (number2 s).bind fun x =>
    if 1 ≤ x.1 ∧ x.1 ≤ 12 then some ({ t with month := x.1 }, x.2) else none
  | day => (number2 s).map fun x => ({ t with day := x.1 }, x.2)
  | hour => (number1 s).bind fun x => if x.1 < 24 then some ({ t with hour := x.1 }, x.2) else none
  | minute => (number2 s).bind fun x =>
    if x.1 < 60 then some ({ t with minute := x.1 }, x.2) else none
  | second => (number2 s).bind fun x =>
    if x.1 < 60 then some ({ t with second := x.1, nanos := (fraction x.2).1 }, (fraction x.2).2)
    else none
  | zone => (Timestamps.zone s).map fun x => ({ t with offset := x.1 }, x.2)
  | space =>
    match s with
    | [] => some (t, [])
    | c :: rest => if c = Percent.space then some (t, rest.dropWhile (· = Percent.space)) else none
  | lit b =>
    match s with
    | [] => none
    | c :: rest => if c = b then some (t, rest) else none

/-- Read chunks. -/
def parseChunks : List Chunk → Time → Bytes → Option (Time × Bytes)
  | [], t, s => some (t, s)
  | c :: L, t, s => (c.parse t s).bind fun x => parseChunks L x.1 x.2

/-- `time.Parse` -/
def parse (L : List Chunk) (s : Bytes) : Option Time :=
  (parseChunks L .zero s).bind fun x =>
    if x.2 = [] ∧ 1 ≤ x.1.day ∧ x.1.day ≤ daysIn x.1.month x.1.year then some x.1 else none

/-- Write one chunk. -/
def Chunk.format (t : Time) : Chunk → Bytes
  | year => four t.year
  | month => two t.month
  | day => two t.day
  | hour => two t.hour
  | minute => two t.minute
  | second => two t.second
  | zone =>
    if t.offset = 0 then [90]
    else (if t.offset < 0 then 45 else 43) :: two (t.offset.natAbs / 60 / 60) ++
      58 :: two (t.offset.natAbs / 60 % 60)
  | space => [Percent.space]
  | lit b => [b]

/-- `Time.Format` -/
def format (L : List Chunk) (t : Time) : Bytes := L.flatMap (Chunk.format t)

/-- The field that a chunk hands on. -/
def Chunk.copy (t acc : Time) : Chunk → Time
  | year => { acc with year := t.year }
  | month => { acc with month := t.month }
  | day => { acc with day := t.day }
  | hour => { acc with hour := t.hour }
  | minute => { acc with minute := t.minute }
  | second => { acc with second := t.second, nanos := 0 }
  | _ => acc

/-- The fields that a layout hands on. -/
def keep (L : List Chunk) (t acc : Time) : Time := L.foldl (fun acc c => c.copy t acc) acc

/-- The layout goes on with an hour. -/
def startsWithHour : List Chunk → Bool
  | .hour :: _ => true
  | _ => false

/-- The layout does not go on with what could be a fraction. -/
def noFraction : List Chunk → Bool
  | [] => true
  | .lit b :: _ => b ≠ 46 && b ≠ 44
  | _ => false

/-- A layout whose text can only be read in one way: no zone, no fraction after a second, and an
hour after a space. -/
def clean : List Chunk → Bool
  | [] => true
  | .zone :: _ => false
  | .second :: L => noFraction L && clean L
  | .space :: L => startsWithHour L && clean L
  | _ :: L => clean L

/-! ## Reading what was written -/

theorem digit?_digit : ∀ n < 10, digit? (digit n) = some n := by decide

variable {n : ℕ} {s : Bytes} {t acc : Time}

theorem number2_two (h : n < 100) : number2 (two n ++ s) = some (n, s) := by
  have hhi := digit?_digit (n / 10) (by omega)
  have hlo := digit?_digit (n % 10) (by omega)
  simp only [two, List.cons_append, List.nil_append, number2, hhi, hlo]
  simp only [Option.bind_eq_bind, Option.bind_some]
  rw [Nat.div_add_mod]

theorem number1_two (h : n < 100) : number1 (two n ++ s) = some (n, s) := by
  have hhi := digit?_digit (n / 10) (by omega)
  have hlo := digit?_digit (n % 10) (by omega)
  simp only [two, List.cons_append, List.nil_append, number1, hhi, hlo, Option.map_some]
  rw [Nat.div_add_mod]

theorem number4_four (h : n < 10000) : number4 (four n ++ s) = some (n, s) := by
  rw [number4, four, List.append_assoc, number2_two (by omega)]
  simp only [Option.bind_eq_bind, Option.bind_some]
  rw [number2_two (by omega)]
  simp only [Option.bind_some]
  rw [Nat.div_add_mod]

theorem fraction_of_ne {b : Byte} (h : b ≠ 46) (h' : b ≠ 44) :
    fraction (b :: s) = (0, b :: s) := by
  cases s with
  | nil => rfl
  | cons d s => simp [fraction, h, h']

/-- A chunk, written and read. -/
theorem Chunk.parse_format {c : Chunk} (ht : t.Valid) (hzone : c ≠ .zone)
    (hsecond : c = .second → fraction s = (0, s))
    (hspace : c = .space → s.dropWhile (· = Percent.space) = s) :
    c.parse acc (c.format t ++ s) = some (c.copy t acc, s) := by
  have := ht.month
  have := ht.hour
  have := ht.minute
  have := ht.second
  have hday : t.day < 100 := by
    have h := ht.day.2
    unfold daysIn at h
    split_ifs at h <;> omega
  cases c with
  | year => simp only [Chunk.parse, Chunk.format, number4_four ht.year, Option.map_some, Chunk.copy]
  | month =>
    simp only [Chunk.parse, Chunk.format, Option.bind_some, Chunk.copy,
      number2_two (show t.month < 100 by omega)]
    rw [if_pos ht.month]
  | day => simp only [Chunk.parse, Chunk.format, number2_two hday, Option.map_some, Chunk.copy]
  | hour =>
    simp only [Chunk.parse, Chunk.format, Option.bind_some, Chunk.copy,
      number1_two (show t.hour < 100 by omega)]
    rw [if_pos ht.hour]
  | minute =>
    simp only [Chunk.parse, Chunk.format, Option.bind_some, Chunk.copy,
      number2_two (show t.minute < 100 by omega)]
    rw [if_pos ht.minute]
  | second =>
    simp only [Chunk.parse, Chunk.format, Option.bind_some, Chunk.copy,
      number2_two (show t.second < 100 by omega)]
    rw [if_pos ht.second, hsecond rfl]
  | zone => exact absurd rfl hzone
  | space =>
    simp only [Chunk.parse, Chunk.format, List.singleton_append, if_true, Chunk.copy]
    rw [hspace rfl]
  | lit b => simp only [Chunk.parse, Chunk.format, List.singleton_append, if_true, Chunk.copy]

/-- A written number does not start with a space. -/
theorem dropWhile_two (h : n < 100) :
    (two n ++ s).dropWhile (· = Percent.space) = two n ++ s := by
  have hne : ∀ n < 10, digit n ≠ Percent.space := by decide
  simp [two, hne (n / 10) (by omega)]

theorem parseChunks_format {L : List Chunk} (hL : clean L = true) (ht : t.Valid) :
    parseChunks L acc (format L t) = some (keep L t acc, []) := by
  induction L generalizing acc with
  | nil => rfl
  | cons c L ih =>
    have hstep : clean L = true ∧ c ≠ .zone ∧
        (c = .second → fraction (format L t) = (0, format L t)) ∧
        (c = .space → (format L t).dropWhile (· = Percent.space) = format L t) := by
      cases c with
      | zone => cases hL
      | second =>
        obtain ⟨hfraction, hclean⟩ := Bool.and_eq_true_iff.mp hL
        refine ⟨hclean, by decide, fun _ => ?_, by rintro ⟨⟩⟩
        rcases L with _ | ⟨c, L⟩
        · rfl
        · cases c with
          | lit b =>
            obtain ⟨hdot, hcomma⟩ := Bool.and_eq_true_iff.mp hfraction
            exact fraction_of_ne (by simpa using hdot) (by simpa using hcomma)
          | _ => cases hfraction
      | space =>
        obtain ⟨hhour, hclean⟩ := Bool.and_eq_true_iff.mp hL
        refine ⟨hclean, by decide, by rintro ⟨⟩, fun _ => ?_⟩
        rcases L with _ | ⟨c, L⟩
        · cases hhour
        · cases c with
          | hour =>
            have := ht.hour
            exact dropWhile_two (by omega)
          | _ => cases hhour
      | _ => exact ⟨hL, by rintro ⟨⟩, by rintro ⟨⟩, by rintro ⟨⟩⟩
    obtain ⟨hclean, hzone, hsecond, hspace⟩ := hstep
    change (Chunk.parse acc (c.format t ++ format L t) c).bind _ = _
    rw [Chunk.parse_format ht hzone hsecond hspace, Option.bind_some, ih hclean]
    rfl

/-- **The round trip**: a time that is written and read by the same layout keeps the fields of the
layout. -/
theorem parse_format {L : List Chunk} (hL : clean L = true) (ht : t.Valid)
    (hday : (keep L t .zero).day = t.day) (hmonth : (keep L t .zero).month = t.month)
    (hyear : (keep L t .zero).year = t.year) : parse L (format L t) = some (keep L t .zero) := by
  rw [parse, parseChunks_format hL ht, Option.bind_some, if_pos]
  exact ⟨rfl, by rw [hday]; exact ht.day.1, by rw [hday, hmonth, hyear]; exact ht.day.2⟩

/-! ## Telling layouts apart -/

/-- A chunk whose text can be read whatever comes after it. -/
def plain : Chunk → Bool
  | .zone => false
  | .second => false
  | .space => false
  | _ => true

/-- A layout reads what was written by its first chunks. -/
theorem parseChunks_append {P : List Chunk} (L : List Chunk) (hP : P.all plain = true)
    (ht : t.Valid) :
    parseChunks (P ++ L) acc (format P t ++ s) = parseChunks L (keep P t acc) s := by
  induction P generalizing acc with
  | nil => rfl
  | cons c P ih =>
    obtain ⟨hc, hP⟩ := Bool.and_eq_true_iff.mp hP
    have hread : c.parse acc (c.format t ++ (format P t ++ s)) =
        some (c.copy t acc, format P t ++ s) := by
      apply Chunk.parse_format ht
      · rintro rfl
        cases hc
      · rintro rfl
        cases hc
      · rintro rfl
        cases hc
    change parseChunks (c :: (P ++ L)) acc (c.format t ++ format P t ++ s) = _
    rw [List.append_assoc, parseChunks, hread, Option.bind_some, ih hP]
    rfl

/-- Another byte than the layout has. -/
theorem parse_of_lit {P : List Chunk} {b c : Byte} (L : List Chunk) (hP : P.all plain = true)
    (ht : t.Valid) (h : c ≠ b) : parse (P ++ .lit b :: L) (format P t ++ c :: s) = none := by
  rw [parse, parseChunks_append _ hP ht, parseChunks, Chunk.parse, if_neg h]
  rfl

/-- Another byte than a digit where the layout has a month. -/
theorem parse_of_month {P : List Chunk} {c : Byte} (L : List Chunk) (hP : P.all plain = true)
    (ht : t.Valid) (h : digit? c = none) :
    parse (P ++ .month :: L) (format P t ++ c :: s) = none := by
  have hnumber : number2 (c :: s) = none := by
    rcases s with _ | ⟨d, s⟩
    · rfl
    · simp [number2, h]
  rw [parse, parseChunks_append _ hP ht, parseChunks, Chunk.parse, hnumber]
  rfl

/-! ## What cannot be read -/

/-- A byte that no chunk but itself reads. -/
def foreign (b : Byte) : Bool :=
  (digit? b).isNone && b ≠ 46 && b ≠ 44 && b ≠ 90 && b ≠ 43 && b ≠ 45 && b ≠ 58 &&
    b ≠ Percent.space

section Foreign

variable {b : Byte} {s' : Bytes}

theorem ne_of_digit? {c : Byte} (hb : digit? b = none) (h : digit? c = some n) : b ≠ c := by
  rintro rfl
  rw [hb] at h
  cases h

theorem mem_number2 (hb : digit? b = none) (h : number2 s = some (n, s')) (hmem : b ∈ s) :
    b ∈ s' := by
  rcases s with _ | ⟨c, _ | ⟨d, rest⟩⟩
  · cases h
  · cases h
  · obtain ⟨hi, hhi, h⟩ := Option.bind_eq_some_iff.mp h
    obtain ⟨lo, hlo, h⟩ := Option.bind_eq_some_iff.mp h
    obtain ⟨-, rfl⟩ := Prod.mk.inj (Option.some.inj h)
    rcases List.mem_cons.mp hmem with rfl | hmem
    · exact absurd rfl (ne_of_digit? hb hhi)
    · rcases List.mem_cons.mp hmem with rfl | hmem
      · exact absurd rfl (ne_of_digit? hb hlo)
      · exact hmem

theorem ne_of_number2 {c d : Byte} {x : ℕ × Bytes} (hb : digit? b = none)
    (h : number2 [c, d] = some x) : b ≠ c ∧ b ≠ d := by
  obtain ⟨hi, hhi, h⟩ := Option.bind_eq_some_iff.mp h
  obtain ⟨lo, hlo, -⟩ := Option.bind_eq_some_iff.mp h
  exact ⟨ne_of_digit? hb hhi, ne_of_digit? hb hlo⟩

theorem mem_number1 (hb : digit? b = none) (h : number1 s = some (n, s')) (hmem : b ∈ s) :
    b ∈ s' := by
  rcases s with _ | ⟨c, _ | ⟨d, rest⟩⟩
  · cases h
  · obtain ⟨hi, hhi, -⟩ := Option.map_eq_some_iff.mp h
    obtain rfl := List.mem_singleton.mp hmem
    exact absurd rfl (ne_of_digit? hb hhi)
  · obtain ⟨hi, hhi, h⟩ := Option.map_eq_some_iff.mp h
    rcases List.mem_cons.mp hmem with rfl | hmem
    · exact absurd rfl (ne_of_digit? hb hhi)
    · split at h
      · next lo hlo =>
        obtain ⟨-, rfl⟩ := Prod.mk.inj h
        rcases List.mem_cons.mp hmem with rfl | hmem
        · exact absurd rfl (ne_of_digit? hb hlo)
        · exact hmem
      · obtain ⟨-, rfl⟩ := Prod.mk.inj h
        exact hmem

theorem mem_number4 (hb : digit? b = none) (h : number4 s = some (n, s')) (hmem : b ∈ s) :
    b ∈ s' := by
  obtain ⟨⟨hi, rest⟩, hhi, h⟩ := Option.bind_eq_some_iff.mp h
  obtain ⟨⟨lo, rest'⟩, hlo, h⟩ := Option.bind_eq_some_iff.mp h
  obtain ⟨-, rfl⟩ := Prod.mk.inj (Option.some.inj h)
  exact mem_number2 hb hlo (mem_number2 hb hhi hmem)

theorem mem_dropWhile {p : Byte → Bool} (hp : p b = false) (hmem : b ∈ s) : b ∈ s.dropWhile p := by
  induction s with
  | nil => cases hmem
  | cons c s ih =>
    rw [List.dropWhile_cons]
    split
    · next hc =>
      rcases List.mem_cons.mp hmem with rfl | hmem
      · rw [hp] at hc
        cases hc
      · exact ih hmem
    · exact hmem

theorem mem_fraction (hb : digit? b = none) (hdot : b ≠ 46) (hcomma : b ≠ 44) (hmem : b ∈ s) :
    b ∈ (fraction s).2 := by
  rcases s with _ | ⟨c, _ | ⟨d, rest⟩⟩
  · cases hmem
  · exact hmem
  · rw [fraction]
    split
    · next hc =>
      rcases List.mem_cons.mp hmem with rfl | hmem
      · rcases hc.1 with h | h
        · exact absurd h hdot
        · exact absurd h hcomma
      · exact mem_dropWhile (by simp [hb]) hmem
    · exact hmem

theorem mem_zone {z : ℤ} (hb : foreign b = true) (h : zone s = some (z, s')) (hmem : b ∈ s) :
    b ∈ s' := by
  simp only [foreign, Bool.and_eq_true, Option.isNone_iff_eq_none, ne_eq, decide_not,
    Bool.not_eq_true', decide_eq_false_iff_not] at hb
  obtain ⟨⟨⟨⟨⟨⟨⟨hdigit, -⟩, -⟩, hz⟩, hplus⟩, hminus⟩, hcolon⟩, -⟩ := hb
  unfold zone at h
  split at h
  · next rest =>
    obtain ⟨-, rfl⟩ := Prod.mk.inj (Option.some.inj h)
    rcases List.mem_cons.mp hmem with hb | hmem
    · exact absurd hb hz
    · exact hmem
  · next sign h1 h2 c m1 m2 rest hsign =>
    obtain ⟨⟨hh, r⟩, hhour, h⟩ := Option.bind_eq_some_iff.mp h
    obtain ⟨⟨mm, r'⟩, hminute, h⟩ := Option.bind_eq_some_iff.mp h
    obtain ⟨hh1, hh2⟩ := ne_of_number2 hdigit hhour
    obtain ⟨hm1, hm2⟩ := ne_of_number2 hdigit hminute
    dsimp only at h
    split_ifs at h with hbad hsigned hsigned'
    · obtain ⟨-, rfl⟩ := Prod.mk.inj (Option.some.inj h)
      rw [not_or] at hbad
      obtain rfl := hsigned
      obtain rfl := not_not.mp hbad.1
      simpa [hplus, hh1, hh2, hcolon, hm1, hm2] using hmem
    · obtain ⟨-, rfl⟩ := Prod.mk.inj (Option.some.inj h)
      rw [not_or] at hbad
      obtain rfl := hsigned'
      obtain rfl := not_not.mp hbad.1
      simpa [hminus, hh1, hh2, hcolon, hm1, hm2] using hmem
  · cases h

theorem Chunk.mem_parse {t' : Time} {c : Chunk} (hb : foreign b = true) (hc : c ≠ .lit b)
    (h : c.parse t s = some (t', s')) (hmem : b ∈ s) : b ∈ s' := by
  have hb' := hb
  simp only [foreign, Bool.and_eq_true, Option.isNone_iff_eq_none, ne_eq, decide_not,
    Bool.not_eq_true', decide_eq_false_iff_not] at hb'
  obtain ⟨⟨⟨⟨⟨⟨⟨hdigit, hdot⟩, hcomma⟩, -⟩, -⟩, -⟩, -⟩, hspace⟩ := hb'
  -- no chunk reads a foreign byte, so it is still in the rest
  cases c with
  | year =>
    obtain ⟨⟨n, rest⟩, hn, h⟩ := Option.map_eq_some_iff.mp h
    obtain ⟨-, rfl⟩ := Prod.mk.inj h
    exact mem_number4 hdigit hn hmem
  | month =>
    obtain ⟨⟨n, rest⟩, hn, h⟩ := Option.bind_eq_some_iff.mp h
    split at h
    · obtain ⟨-, rfl⟩ := Prod.mk.inj (Option.some.inj h)
      exact mem_number2 hdigit hn hmem
    · cases h
  | day =>
    obtain ⟨⟨n, rest⟩, hn, h⟩ := Option.map_eq_some_iff.mp h
    obtain ⟨-, rfl⟩ := Prod.mk.inj h
    exact mem_number2 hdigit hn hmem
  | hour =>
    obtain ⟨⟨n, rest⟩, hn, h⟩ := Option.bind_eq_some_iff.mp h
    split at h
    · obtain ⟨-, rfl⟩ := Prod.mk.inj (Option.some.inj h)
      exact mem_number1 hdigit hn hmem
    · cases h
  | minute =>
    obtain ⟨⟨n, rest⟩, hn, h⟩ := Option.bind_eq_some_iff.mp h
    split at h
    · obtain ⟨-, rfl⟩ := Prod.mk.inj (Option.some.inj h)
      exact mem_number2 hdigit hn hmem
    · cases h
  | second =>
    obtain ⟨⟨n, rest⟩, hn, h⟩ := Option.bind_eq_some_iff.mp h
    split at h
    · obtain ⟨-, rfl⟩ := Prod.mk.inj (Option.some.inj h)
      exact mem_fraction hdigit hdot hcomma (mem_number2 hdigit hn hmem)
    · cases h
  | zone =>
    obtain ⟨⟨z, rest⟩, hz, h⟩ := Option.map_eq_some_iff.mp h
    obtain ⟨-, rfl⟩ := Prod.mk.inj h
    exact mem_zone hb hz hmem
  | space =>
    rcases s with _ | ⟨c, rest⟩
    · cases hmem
    · simp only [Chunk.parse] at h
      split at h
      · next hc =>
        obtain ⟨-, rfl⟩ := Prod.mk.inj (Option.some.inj h)
        rcases List.mem_cons.mp hmem with rfl | hmem
        · exact absurd hc hspace
        · exact mem_dropWhile (by simpa using hspace) hmem
      · cases h
  | lit d =>
    rcases s with _ | ⟨c, rest⟩
    · cases hmem
    · simp only [Chunk.parse] at h
      split at h
      · next hcd =>
        obtain ⟨-, rfl⟩ := Prod.mk.inj (Option.some.inj h)
        rcases List.mem_cons.mp hmem with rfl | hmem
        · exact absurd (by rw [hcd]) hc
        · exact hmem
      · cases h

/-- **A text with a foreign byte cannot be read.** -/
theorem not_mem_of_parse {L : List Chunk} (hb : foreign b = true) (hL : .lit b ∉ L)
    (h : parse L s = some t) : b ∉ s := by
  have hchunks : ∀ (L : List Chunk) (acc : Time) (s : Bytes) x, .lit b ∉ L →
      parseChunks L acc s = some x → b ∈ s → b ∈ x.2 := by
    intro L
    induction L with
    | nil =>
      rintro acc s x - h hmem
      obtain rfl := Option.some.inj h
      exact hmem
    | cons c L ih =>
      intro acc s x hL h hmem
      obtain ⟨hc, hL⟩ := List.ne_and_not_mem_of_not_mem_cons hL
      obtain ⟨⟨acc', s'⟩, hparse, h⟩ := Option.bind_eq_some_iff.mp h
      exact ih acc' s' x hL h (Chunk.mem_parse hb (Ne.symm hc) hparse hmem)
  intro hmem
  obtain ⟨x, hx, h⟩ := Option.bind_eq_some_iff.mp h
  split at h
  · next hrest =>
    have hmem := hchunks L .zero s x hL hx hmem
    rw [hrest.1] at hmem
    cases hmem
  · cases h

end Foreign

/-! ## What is read is valid -/

section Valid

variable {s' : Bytes}

theorem digit?_lt {c : Byte} (h : digit? c = some n) : n < 10 := by
  rw [digit?] at h
  split at h
  · obtain rfl := Option.some.inj h
    omega
  · cases h

theorem number2_lt (h : number2 s = some (n, s')) : n < 100 := by
  rcases s with _ | ⟨c, _ | ⟨d, rest⟩⟩
  · cases h
  · cases h
  · obtain ⟨hi, hhi, h⟩ := Option.bind_eq_some_iff.mp h
    obtain ⟨lo, hlo, h⟩ := Option.bind_eq_some_iff.mp h
    obtain ⟨rfl, -⟩ := Prod.mk.inj (Option.some.inj h)
    have := digit?_lt hhi
    have := digit?_lt hlo
    omega

theorem number4_lt (h : number4 s = some (n, s')) : n < 10000 := by
  obtain ⟨⟨hi, rest⟩, hhi, h⟩ := Option.bind_eq_some_iff.mp h
  obtain ⟨⟨lo, rest'⟩, hlo, h⟩ := Option.bind_eq_some_iff.mp h
  obtain ⟨rfl, -⟩ := Prod.mk.inj (Option.some.inj h)
  have := number2_lt hhi
  have := number2_lt hlo
  omega

theorem foldl_digits_lt (ds : List ℕ) (hds : ∀ d ∈ ds, d < 10) (n : ℕ) :
    ds.foldl (fun n d => 10 * n + d) n < (n + 1) * 10 ^ ds.length := by
  induction ds generalizing n with
  | nil => simp
  | cons d ds ih =>
    have hd := hds d List.mem_cons_self
    calc (d :: ds).foldl (fun n d => 10 * n + d) n
        < (10 * n + d + 1) * 10 ^ ds.length := ih (fun d hd => hds d (List.mem_cons_of_mem _ hd)) _
      _ ≤ (10 * n + 10) * 10 ^ ds.length := Nat.mul_le_mul_right _ (by omega)
      _ = (n + 1) * 10 ^ (d :: ds).length := by rw [List.length_cons, pow_succ]; ring

/-- A fraction of a second is less than a second. -/
theorem fraction_lt (s : Bytes) : (fraction s).1 < 1000000000 := by
  rcases s with _ | ⟨c, _ | ⟨d, rest⟩⟩
  · decide
  · simp [fraction]
  · rw [fraction]
    split
    · set kept := ((d :: rest).takeWhile fun c => (digit? c).isSome).take 9
      have hkept : kept.length ≤ 9 := by
        rw [List.length_take]
        exact Nat.min_le_left _ _
      have hlength : (kept.filterMap digit?).length ≤ kept.length := List.length_filterMap_le _ _
      have hdigits : ∀ n ∈ kept.filterMap digit?, n < 10 := by
        intro n hn
        obtain ⟨c, -, hc⟩ := List.mem_filterMap.mp hn
        exact digit?_lt hc
      have hvalue := foldl_digits_lt _ hdigits 0
      calc (kept.filterMap digit?).foldl (fun n d => 10 * n + d) 0 * 10 ^ (9 - kept.length)
          < 10 ^ (kept.filterMap digit?).length * 10 ^ (9 - kept.length) :=
            Nat.mul_lt_mul_of_pos_right (by simpa using hvalue) (by positivity)
        _ ≤ 10 ^ kept.length * 10 ^ (9 - kept.length) :=
            Nat.mul_le_mul_right _ (Nat.pow_le_pow_right (by decide) hlength)
        _ = 10 ^ 9 := by rw [← pow_add, Nat.add_sub_cancel' hkept]
        _ = 1000000000 := by norm_num
    · exact Nat.zero_lt_succ _

/-- The ranges that are checked chunk by chunk. -/
abbrev Time.InRange (t : Time) : Prop :=
  t.year < 10000 ∧ (1 ≤ t.month ∧ t.month ≤ 12) ∧ t.hour < 24 ∧ t.minute < 60 ∧ t.second < 60 ∧
    t.nanos < 1000000000

theorem Chunk.inRange_parse {t' : Time} {c : Chunk} (ht : t.InRange)
    (h : c.parse t s = some (t', s')) : t'.InRange := by
  obtain ⟨hyear, hmonth, hhour, hminute, hsecond, hnanos⟩ := ht
  cases c with
  | year =>
    obtain ⟨⟨n, rest⟩, hn, h⟩ := Option.map_eq_some_iff.mp h
    obtain ⟨rfl, -⟩ := Prod.mk.inj h
    exact ⟨number4_lt hn, hmonth, hhour, hminute, hsecond, hnanos⟩
  | month =>
    obtain ⟨⟨n, rest⟩, hn, h⟩ := Option.bind_eq_some_iff.mp h
    split at h
    · next hrange =>
      obtain ⟨rfl, -⟩ := Prod.mk.inj (Option.some.inj h)
      exact ⟨hyear, hrange, hhour, hminute, hsecond, hnanos⟩
    · cases h
  | day =>
    obtain ⟨⟨n, rest⟩, hn, h⟩ := Option.map_eq_some_iff.mp h
    obtain ⟨rfl, -⟩ := Prod.mk.inj h
    exact ⟨hyear, hmonth, hhour, hminute, hsecond, hnanos⟩
  | hour =>
    obtain ⟨⟨n, rest⟩, hn, h⟩ := Option.bind_eq_some_iff.mp h
    split at h
    · next hrange =>
      obtain ⟨rfl, -⟩ := Prod.mk.inj (Option.some.inj h)
      exact ⟨hyear, hmonth, hrange, hminute, hsecond, hnanos⟩
    · cases h
  | minute =>
    obtain ⟨⟨n, rest⟩, hn, h⟩ := Option.bind_eq_some_iff.mp h
    split at h
    · next hrange =>
      obtain ⟨rfl, -⟩ := Prod.mk.inj (Option.some.inj h)
      exact ⟨hyear, hmonth, hhour, hrange, hsecond, hnanos⟩
    · cases h
  | second =>
    obtain ⟨⟨n, rest⟩, hn, h⟩ := Option.bind_eq_some_iff.mp h
    split at h
    · next hrange =>
      obtain ⟨rfl, -⟩ := Prod.mk.inj (Option.some.inj h)
      exact ⟨hyear, hmonth, hhour, hminute, hrange, fraction_lt _⟩
    · cases h
  | zone =>
    obtain ⟨⟨z, rest⟩, hz, h⟩ := Option.map_eq_some_iff.mp h
    obtain ⟨rfl, -⟩ := Prod.mk.inj h
    exact ⟨hyear, hmonth, hhour, hminute, hsecond, hnanos⟩
  | space =>
    rcases s with _ | ⟨c, rest⟩
    · obtain ⟨rfl, -⟩ := Prod.mk.inj (Option.some.inj h)
      exact ⟨hyear, hmonth, hhour, hminute, hsecond, hnanos⟩
    · simp only [Chunk.parse] at h
      split at h
      · obtain ⟨rfl, -⟩ := Prod.mk.inj (Option.some.inj h)
        exact ⟨hyear, hmonth, hhour, hminute, hsecond, hnanos⟩
      · cases h
  | lit b =>
    rcases s with _ | ⟨c, rest⟩
    · cases h
    · simp only [Chunk.parse] at h
      split at h
      · obtain ⟨rfl, -⟩ := Prod.mk.inj (Option.some.inj h)
        exact ⟨hyear, hmonth, hhour, hminute, hsecond, hnanos⟩
      · cases h

/-- **What is read is a valid time.** -/
theorem valid_of_parse {L : List Chunk} (h : parse L s = some t) : t.Valid := by
  have hchunks : ∀ (L : List Chunk) (acc : Time) (s : Bytes) x, acc.InRange →
      parseChunks L acc s = some x → x.1.InRange := by
    intro L
    induction L with
    | nil =>
      rintro acc s x hacc h
      obtain rfl := Option.some.inj h
      exact hacc
    | cons c L ih =>
      intro acc s x hacc h
      obtain ⟨⟨acc', s'⟩, hparse, h⟩ := Option.bind_eq_some_iff.mp h
      exact ih acc' s' x (Chunk.inRange_parse hacc hparse) h
  obtain ⟨x, hx, h⟩ := Option.bind_eq_some_iff.mp h
  split at h
  · next hday =>
    obtain rfl := Option.some.inj h
    obtain ⟨hyear, hmonth, hhour, hminute, hsecond, hnanos⟩ := hchunks L .zero s x (by decide) hx
    exact ⟨hyear, hmonth, hday.2, hhour, hminute, hsecond, hnanos⟩
  · cases h

end Valid

end Timestamps
