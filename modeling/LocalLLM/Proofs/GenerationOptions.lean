/-
The codec of the generation options.

# What the schemas of the group accept

One lemma for each kind of schema says which values it accepts
(`accepts_integer`, `accepts_number`, `accepts_above`, `accepts_stops`,
`accepts_biases`). The validator compares numbers as doubles; the bounds of
the group are small, and rounding carries no number across them.

# Reading and writing

The reader takes a field from the document or from the group's default, and
what a schema accepts is read without loss. So a document that is accepted
is written back with its defaults filled in, and the options that can be
written are those within their ranges (`InRange`).
-/
import LocalLLM.Core.GenerationOptions
import LocalLLM.Proofs.Documents

namespace LocalLLM

open Json

variable {C : ParameterCatalog} {t : Patterns}

-- =================================================================== rounding

/-- A rational as the validator compares it. -/
def roundRat (q : ℚ) : ℚ := if q.den = 1 then roundInt q.num else q

/-- Comparing reads a number as the nearest double. -/
theorem rounded_finite (q : ℚ) :
    rounded (.number (.finite q)) = .finite (roundRat q) := by
  unfold rounded toDouble roundRat
  rfl

/-- Below 2^53 the numbers of a document are taken as exact, so rounding leaves
them alone. -/
theorem roundRat_small {q : ℚ} (h : |q| < 2 ^ 53) : roundRat q = q := by
  unfold roundRat
  by_cases hden : q.den = 1
  · have hq : (q.num : ℚ) = q := (Rat.den_eq_one_iff q).1 hden
    have hnum : q.num.natAbs < 2 ^ 53 := by
      rw [← hq] at h
      have habs : |q.num| < 2 ^ 53 := by exact_mod_cast h
      have hbounds := abs_lt.1 habs
      omega
    rw [if_pos hden, roundInt_small hnum, hq]
  · rw [if_neg hden]

/-- From 2^53 on, rounding does not bring an integer below it, since 2^53 is a
double itself. -/
theorem le_roundInt {n : Int} (h : 2 ^ 53 ≤ n) : 2 ^ 53 ≤ roundInt n := by
  have hround := le_roundNat (n := n.natAbs) (by omega)
  unfold roundInt
  rw [Int.sign_eq_one_of_pos (by omega)]
  omega

/-- The same on the other side of zero. -/
theorem roundInt_le {n : Int} (h : n ≤ -2 ^ 53) : roundInt n ≤ -2 ^ 53 := by
  have hround := le_roundNat (n := n.natAbs) (by omega)
  unfold roundInt
  rw [Int.sign_eq_neg_one_of_neg (by omega)]
  omega

/-- Rounding carries no number across a small bound, from below or above. -/
theorem roundRat_large {q : ℚ} :
    (2 ^ 53 ≤ q → 2 ^ 53 ≤ roundRat q)
      ∧ (q ≤ -2 ^ 53 → roundRat q ≤ -2 ^ 53) := by
  unfold roundRat
  by_cases hden : q.den = 1
  · have hq : (q.num : ℚ) = q := (Rat.den_eq_one_iff q).1 hden
    rw [if_pos hden, ← hq]
    constructor
    · intro h
      have hnum : 2 ^ 53 ≤ q.num := by exact_mod_cast h
      exact_mod_cast le_roundInt hnum
    · intro h
      have hnum : q.num ≤ -2 ^ 53 := by exact_mod_cast h
      exact_mod_cast roundInt_le hnum
  · rw [if_neg hden]
    exact ⟨id, id⟩

/-- So a small bound is passed by the rounded number just when it is passed by
the number itself, however large that is. -/
theorem le_roundRat {q b : ℚ} (hb : |b| < 2 ^ 53) :
    b ≤ roundRat q ↔ b ≤ q := by
  obtain ⟨hlow, hhigh⟩ := abs_lt.1 hb
  by_cases hq : |q| < 2 ^ 53
  · rw [roundRat_small hq]
  · rcases le_abs.1 (not_lt.1 hq) with hq | hq
    · have hround := roundRat_large.1 hq
      exact ⟨fun _ => by linarith, fun _ => by linarith⟩
    · have hround := (roundRat_large (q := q)).2 (by linarith)
      exact ⟨fun h => by linarith, fun h => by linarith⟩

/-- The same for a bound from above. -/
theorem roundRat_le {q b : ℚ} (hb : |b| < 2 ^ 53) :
    roundRat q ≤ b ↔ q ≤ b := by
  obtain ⟨hlow, hhigh⟩ := abs_lt.1 hb
  by_cases hq : |q| < 2 ^ 53
  · rw [roundRat_small hq]
  · rcases le_abs.1 (not_lt.1 hq) with hq | hq
    · have hround := roundRat_large.1 hq
      exact ⟨fun h => by linarith, fun h => by linarith⟩
    · have hround := (roundRat_large (q := q)).2 (by linarith)
      exact ⟨fun _ => by linarith, fun _ => by linarith⟩

-- ==================================================================== numbers

/-- A schema of numbers. -/
structure Numeric (schema : JsonObject) : Prop where
  nullable : lookup schema (qs "nullable") = none
  anyOf : contains schema (qs "anyOf") = false
  enum : contains schema (qs "enum") = false
  ref : contains schema (qs "ref") = false
  type : keywordText schema "type" = qs "integer"
    ∨ keywordText schema "type" = qs "number"

/-- It looks at the type and the bounds. -/
theorem accepts_numeric {schema : JsonObject} (h : Numeric schema) {n : Nat}
    {value : Json} :
    accepts C t (n + 1) schema value = true ↔
      acceptsType schema value = true ∧ acceptsBounds schema value = true := by
  have htypes : (keywordText schema "type" == qs "external") = false
      ∧ (keywordText schema "type" == qs "null") = false
      ∧ (keywordText schema "type" != qs "array") = true
      ∧ (keywordText schema "type" != qs "object") = true := by
    rcases h.type with htype | htype <;> rw [htype] <;> decide
  obtain ⟨hexternal, hnull, harray, hobject⟩ := htypes
  have hnumber : acceptsType schema value = true →
      isFiniteNumber value = true := by
    intro htype
    obtain ⟨-, -, hnumber, hinteger⟩ := acceptsType_eq_true.1 htype
    rcases h.type with htype | htype
    · exact (isInteger_eq_true.2 (hinteger htype)).1
    · exact hnumber htype
  show acceptsWith C t (accepts C t n) schema value = true ↔ _
  unfold acceptsWith acceptsAnyOf acceptsEnum acceptsContents
  dsimp only
  rw [h.nullable, h.anyOf, h.enum, h.ref, hexternal, hnull, harray, hobject]
  rw [if_neg (by simp [Json.toBool]), if_neg (by simp), if_neg (by simp),
    if_neg (by simp),
    if_neg (by simp), Bool.and_eq_true, Bool.and_eq_true]
  refine ⟨fun h => h.1, fun h => ⟨h, ?_⟩⟩
  have hfinite := hnumber h.1
  cases value with
  | number d => rfl
  | _ => cases hfinite

/-- Whole numbers between two bounds. -/
theorem accepts_integer {low high : Int} (hlow : |low| < 2 ^ 53)
    (hhigh : |high| < 2 ^ 53) {n : Nat} {value : Json} :
    accepts C t (n + 1) (integerSchema low high) value = true ↔
      ∃ k : Int, value = jsonInt k ∧ low ≤ k ∧ k ≤ high := by
  have hlow' : |(low : ℚ)| < 2 ^ 53 := by exact_mod_cast hlow
  have hhigh' : |(high : ℚ)| < 2 ^ 53 := by exact_mod_cast hhigh
  have hbounds : ∀ k : Int,
    acceptsBounds (integerSchema low high) (jsonInt k) = true ↔
      low ≤ k ∧ k ≤ high := by
    intro k
    show (!(rounded (jsonInt k)).lt (rounded (jsonInt low))
      && !(rounded (jsonInt high)).lt (rounded (jsonInt k)) && true && true)
        = true ↔ _
    simp only [jsonInt, rounded_finite, roundRat_small hlow',
      roundRat_small hhigh',
      Double.lt, Bool.and_true, Bool.and_eq_true, Bool.not_eq_true',
        decide_eq_false_iff_not,
      not_lt, le_roundRat hlow', roundRat_le hhigh']
    exact and_congr Int.cast_le Int.cast_le
  have htype : acceptsType (integerSchema low high) value = true ↔
      ∃ k : Int, value = jsonInt k ∧ -2 ^ 63 ≤ k ∧ k < 2 ^ 63 := by
    rw [← isInteger_eq_true, ← Bool.and_eq_true]
    rfl
  rw [accepts_numeric ⟨rfl, rfl, rfl, rfl, Or.inl rfl⟩, htype]
  constructor
  · rintro ⟨⟨k, rfl, -⟩, hk⟩
    exact ⟨k, rfl, (hbounds k).1 hk⟩
  · rintro ⟨k, rfl, hk⟩
    have hlow := abs_lt.1 hlow
    have hhigh := abs_lt.1 hhigh
    exact ⟨⟨k, rfl, by omega, by omega⟩, (hbounds k).2 hk⟩

/-- A value that is accepted for its type is a finite number. -/
theorem acceptsType_number {schema : JsonObject} {value : Json}
    (htype : keywordText schema "type" = qs "number") :
    acceptsType schema value = true ↔ ∃ q, value = .number (.finite q) := by
  have hboolean : keywordText schema "type"
    ≠ qs "boolean" := by rw [htype]; decide
  have hstring : keywordText schema "type"
    ≠ qs "string" := by rw [htype]; decide
  have hinteger : keywordText schema "type"
    ≠ qs "integer" := by rw [htype]; decide
  constructor
  · intro h
    have hfinite := (acceptsType_eq_true.1 h).2.2.1 htype
    cases value with
    | number d =>
        cases d with
        | finite q => exact ⟨q, rfl⟩
        | _ => cases hfinite
    | _ => cases hfinite
  · rintro ⟨q, rfl⟩
    exact acceptsType_eq_true.2 ⟨(absurd · hboolean),
      (absurd · hstring), fun _ => rfl,
      (absurd · hinteger)⟩

/-- Numbers between two bounds. -/
theorem accepts_number {low high : ℚ} (hlow : |low| < 2 ^ 53)
    (hhigh : |high| < 2 ^ 53) {n : Nat} {value : Json} :
    accepts C t (n + 1) (numberSchema low high) value = true ↔
      ∃ q, value = .number (.finite q) ∧ low ≤ q ∧ q ≤ high := by
  have hbounds : ∀ q : ℚ,
      acceptsBounds (numberSchema low high) (.number (.finite q)) = true ↔
        low ≤ q ∧ q ≤ high := by
    intro q
    show (!(rounded (.number (.finite q))).lt (rounded (.number (.finite low)))
      && !(rounded (.number (.finite high))).lt (rounded (.number (.finite q)))
      && true && true) = true ↔ _
    simp only [rounded_finite, roundRat_small hlow, roundRat_small hhigh,
      Double.lt, Bool.and_true, Bool.and_eq_true, Bool.not_eq_true',
        decide_eq_false_iff_not,
      not_lt, le_roundRat hlow, roundRat_le hhigh]
  rw [accepts_numeric ⟨rfl, rfl, rfl, rfl, Or.inr rfl⟩, acceptsType_number rfl]
  constructor
  · rintro ⟨⟨q, rfl⟩, hq⟩
    exact ⟨q, rfl, (hbounds q).1 hq⟩
  · rintro ⟨q, rfl, hq⟩
    exact ⟨⟨q, rfl⟩, (hbounds q).2 hq⟩

/-- Numbers above one bound, up to another. -/
theorem accepts_above {low high : ℚ} (hlow : |low| < 2 ^ 53)
    (hhigh : |high| < 2 ^ 53) {n : Nat} {value : Json} :
    accepts C t (n + 1) (aboveSchema low high) value = true ↔
      ∃ q, value = .number (.finite q) ∧ low < q ∧ q ≤ high := by
  have hbounds : ∀ q : ℚ,
      acceptsBounds (aboveSchema low high) (.number (.finite q)) = true ↔
        low < q ∧ q ≤ high := by
    intro q
    show (true && !(rounded (.number (.finite high))).lt
      (rounded (.number (.finite q)))
      && !(rounded (.number (.finite q))).le (rounded (.number (.finite low)))
      && true) = true ↔ _
    simp only [rounded_finite, roundRat_small hlow, roundRat_small hhigh,
      Double.lt, Double.le, Bool.and_true, Bool.true_and, Bool.and_eq_true,
      Bool.not_eq_true', decide_eq_false_iff_not, not_lt, roundRat_le hlow,
      roundRat_le hhigh, not_le]
    exact and_comm
  rw [accepts_numeric ⟨rfl, rfl, rfl, rfl, Or.inr rfl⟩, acceptsType_number rfl]
  constructor
  · rintro ⟨⟨q, rfl⟩, hq⟩
    exact ⟨q, rfl, (hbounds q).1 hq⟩
  · rintro ⟨q, rfl, hq⟩
    exact ⟨⟨q, rfl⟩, (hbounds q).2 hq⟩

-- ==================================================== stop strings and biases

/-- What a stop string may be. -/
def IsStop (s : QString) : Prop := 1 ≤ s.length ∧ s.length ≤ 1024

/-- A stop string has at least one unit and at most 1024. -/
theorem accepts_stop {n : Nat} {value : Json} :
    accepts C t (n + 1) stopSchema value = true
      ↔ ∃ s, value = .string s ∧ IsStop s := by
  cases value with
  | string s =>
      have haccepts : accepts C t (n + 1) stopSchema (.string s)
          = (decide ((1 : Int) ≤ s.length)
            && decide ((s.length : Int) ≤ 1024)) := by
        show (true && true && (true && true && true && true
          && (false || ((decide ((1 : Int) ≤ s.length)
            && decide ((s.length : Int) ≤ 1024))
            && true)))) = _
        simp
      rw [haccepts, Bool.and_eq_true, decide_eq_true_iff, decide_eq_true_iff]
      constructor
      · rintro ⟨hlow, hhigh⟩
        exact ⟨s, rfl, by omega, by omega⟩
      · rintro ⟨_, ⟨⟩, hlow, hhigh⟩
        exact ⟨by omega, by omega⟩
  | _ => exact iff_of_false (fun h => nomatch h) (fun ⟨_, h, _⟩ => nomatch h)

/-- A list of stops has at most sixteen of them, each a stop string. -/
theorem accepts_stops {n : Nat} {value : Json} :
    accepts C t (n + 2) stopsSchema value = true ↔
      ∃ stops : List QString, value = .array (stops.map .string)
        ∧ stops.length ≤ 16 ∧ ∀ s ∈ stops, IsStop s := by
  cases value with
  | array items =>
      have haccepts : accepts C t (n + 2) stopsSchema (.array items)
          = (decide ((items.length : Int) ≤ 16)
            && items.all fun item => accepts C t (n + 1) stopSchema item) := by
        show (true && true && (true
          && (false || (true && decide ((items.length : Int) ≤ 16)
          && ((false || items.all fun item => accepts C t
            (n + 1) stopSchema item) && true)))
          && true && true && true)) = _
        simp
      rw [haccepts, Bool.and_eq_true, decide_eq_true_iff, List.all_eq_true]
      simp only [accepts_stop]
      constructor
      · rintro ⟨hlength, hitems⟩
        obtain ⟨stops, rfl⟩ : ∃ stops :
            List QString, items = stops.map .string := by
          refine ⟨items.map fun item => toText (some item), ?_⟩
          rw [List.map_map]
          refine ((List.map_congr_left fun item hitem => ?_).trans
            (List.map_id items)).symm
          obtain ⟨s, rfl, -⟩ := hitems item hitem
          rfl
        refine ⟨stops, rfl, by simpa using hlength, fun s hs => ?_⟩
        obtain ⟨_, ⟨⟩, hstop⟩ := hitems _ (List.mem_map_of_mem hs)
        exact hstop
      · rintro ⟨stops, ⟨⟩, hlength, hstops⟩
        refine ⟨by simpa using hlength, fun item hitem => ?_⟩
        obtain ⟨s, hs, rfl⟩ := List.mem_map.1 hitem
        exact ⟨s, rfl, hstops s hs⟩
  | _ => exact iff_of_false (fun h => nomatch h) (fun ⟨_, h, _⟩ => nomatch h)

/-- What a bias may be. -/
def IsBias (value : Json) : Prop :=
  ∃ q, value = .number (.finite q) ∧ -100 ≤ q ∧ q ≤ 100

/-- Biases are an object whose members are numbers from -100 to 100; the keys
are left to `isTokenKey`. -/
theorem accepts_biases (hC : Loaded C t) {n : Nat} {value : Json} :
    accepts C t (n + 2) biasesSchema value = true ↔
      ∃ members, value = .object members ∧ ∀ m ∈ members, IsBias m.2 := by
  cases value with
  | object members =>
      have hundred : |(-100 : ℚ)| < 2 ^ 53
        ∧ |(100 : ℚ)| < 2 ^ 53 := by norm_num
      have hobject : acceptsObject C (accepts C t (n + 1)) biasesSchema members
          = members.all fun m => accepts C t (n + 1)
            (numberSchema (-100) 100) m.2 :=
        acceptsObject_of_noGroup hC.group?_nil
      have haccepts : accepts C t (n + 2) biasesSchema (.object members)
          = members.all fun m => accepts C t (n + 1)
            (numberSchema (-100) 100) m.2 := by
        show (true && true && (true && true && true && (false
          || acceptsObject C (accepts C t (n + 1)) biasesSchema members)
            && true)) = _
        rw [hobject]
        simp
      rw [haccepts, List.all_eq_true]
      simp only [accepts_number (C := C) (t := t) hundred.1 hundred.2]
      constructor
      · exact fun h => ⟨members, rfl, h⟩
      · rintro ⟨_, ⟨⟩, h⟩
        exact h
  | _ => exact iff_of_false (fun h => nomatch h) (fun ⟨_, h, _⟩ => nomatch h)

-- ================================================================== token ids

/-- The decimal digits of a number, the highest first. -/
def decimal (n : Nat) : List Nat := if n = 0 then [0]
    else (Nat.digits 10 n).reverse

/-- A natural number is written as its decimal digits. -/
theorem number_natCast (n : Nat) :
    QString.number n = (decimal n).map fun d => UInt16.ofNat (0x30 + d) := by
  unfold QString.number decimal
  simp

/-- A digit of ten. -/
theorem decimal_lt {n d : Nat} (hd : d ∈ decimal n) : d < 10 := by
  unfold decimal at hd
  by_cases hn : n = 0
  · rw [if_pos hn, List.mem_singleton] at hd
    omega
  · rw [if_neg hn, List.mem_reverse] at hd
    exact Nat.digits_lt_base (by decide) hd

/-- Even zero has a digit. -/
theorem decimal_ne_nil (n : Nat) : decimal n ≠ [] := by
  unfold decimal
  by_cases hn : n = 0
  · simp [hn]
  · simp [hn, Nat.digits_ne_nil_iff_ne_zero]

/-- The digits are of the number. -/
theorem foldl_decimal (n : Nat) :
    (decimal n).foldl (fun m d => m * 10 + d) 0 = n := by
  unfold decimal
  by_cases hn : n = 0
  · simp [hn]
  · rw [if_neg hn, List.foldl_reverse]
    calc (Nat.digits 10 n).foldr (fun d m => m * 10 + d) 0
        = Nat.ofDigits 10 (Nat.digits 10 n) := by
          rw [Nat.ofDigits_eq_foldr]
          congr 1
          funext d m
          simp [Nat.mul_comm, Nat.add_comm]
      _ = n := Nat.ofDigits_digits 10 n

/-- The units of digits are digits, and are neither space nor sign. -/
theorem digit_unit {d : Nat} (hd : d < 10) :
    isSpace (UInt16.ofNat (0x30 + d)) = false
      ∧ (0x30 ≤ UInt16.ofNat (0x30 + d) && UInt16.ofNat (0x30 + d) ≤ 0x39)
        = true
      ∧ (UInt16.ofNat (0x30 + d)).toNat - 0x30 = d
      ∧ UInt16.ofNat (0x30 + d) ≠ qc '-'
      ∧ UInt16.ofNat (0x30 + d) ≠ qc '+' := by
  interval_cases d <;> decide

/-- So reading them gives the number back. -/
theorem digitsValue_number (n : Nat) :
    QString.digitsValue (QString.number n) = some n := by
  have hall : ((decimal n).map fun d => UInt16.ofNat (0x30 + d)).all
      (fun u => 0x30 ≤ u && u ≤ 0x39) = true := by
    rw [List.all_map, List.all_eq_true]
    exact fun d hd => (digit_unit (decimal_lt hd)).2.1
  have hvalue : ((decimal n).map fun d => UInt16.ofNat (0x30 + d)).foldl
      (fun m u => m * 10 + (u.toNat - 0x30)) 0 = n := by
    rw [List.foldl_map]
    calc (decimal n).foldl
          (fun m d => m * 10 + ((UInt16.ofNat (0x30 + d)).toNat - 0x30)) 0
        = (decimal n).foldl (fun m d => m * 10 + d) 0 := by
          refine List.foldl_ext _ _ _ fun m d hd => ?_
          rw [(digit_unit (decimal_lt hd)).2.2.1]
      _ = n := foldl_decimal n
  rw [number_natCast]
  unfold QString.digitsValue
  rw [if_pos ⟨by simpa using decimal_ne_nil n, hall⟩, hvalue]

/-- Text without space is trimmed. -/
theorem trimmed_self {s : QString} (h : ∀ u ∈ s, isSpace u = false) :
    QString.trimmed s = s := by
  have hdrop : ∀ s : QString, (∀ u ∈ s, isSpace u = false) →
      s.dropWhile isSpace = s := by
    intro s h
    cases s with
    | nil => rfl
    | cons u rest =>
        rw [List.dropWhile_cons, h u List.mem_cons_self, if_neg (by decide)]
  unfold QString.trimmed
  rw [hdrop s h, hdrop s.reverse fun u hu => h u (List.mem_reverse.1 hu),
    List.reverse_reverse]

/-- And so does `toLongLong`, for numbers of 63 bits. -/
theorem toLongLong_number {n : Nat} (hn : n < 2 ^ 63) :
    QString.toLongLong (QString.number n) = some (n : Int) := by
  have hunits : ∀ u ∈ QString.number n, ∃ d < 10,
      u = UInt16.ofNat (0x30 + d) := by
    intro u hu
    rw [number_natCast] at hu
    obtain ⟨d, hd, rfl⟩ := List.mem_map.1 hu
    exact ⟨d, decimal_lt hd, rfl⟩
  have htrimmed : QString.trimmed (QString.number n) = QString.number n := by
    refine trimmed_self fun u hu => ?_
    obtain ⟨d, hd, rfl⟩ := hunits u hu
    exact (digit_unit hd).1
  have hsign : ∀ u, (QString.number n).head? = some u →
      u ≠ qc '-' ∧ u ≠ qc '+' := by
    intro u hu
    obtain ⟨d, hd, rfl⟩ := hunits u (List.mem_of_head? hu)
    exact (digit_unit hd).2.2.2
  unfold QString.toLongLong
  dsimp only
  rw [htrimmed, if_neg fun h => (hsign _ h).1 rfl, if_neg fun h =>
    (hsign _ h).2 rfl,
    digitsValue_number, Option.map_some, Option.filter_some,
      Int.ofNat_eq_natCast,
    if_pos (decide_eq_true ⟨by omega, by omega⟩)]

/-- A key is a token id when it is the decimal text of one. -/
theorem isTokenKey_iff {key : QString} :
    isTokenKey key = true ↔ ∃ n :
    Nat, n < 2 ^ 31 ∧ key = QString.number n := by
  unfold isTokenKey
  constructor
  · intro h
    cases hid : QString.toLongLong key with
    | none =>
        rw [hid] at h
        cases h
    | some id =>
        rw [hid] at h
        simp only [Bool.and_eq_true, decide_eq_true_eq, beq_iff_eq] at h
        obtain ⟨⟨hlow, hhigh⟩, hnumber⟩ := h
        refine ⟨id.toNat, by omega, ?_⟩
        rw [Int.toNat_of_nonneg hlow, hnumber]
  · rintro ⟨n, hn, rfl⟩
    rw [toLongLong_number (by omega)]
    simp only [Bool.and_eq_true, decide_eq_true_eq, beq_iff_eq, and_true]
    omega

-- ===================================================================== ranges

/-- A finite double between two bounds. -/
def Between (low high : ℚ) (d : Double) :
    Prop := ∃ q, d = .finite q ∧ low ≤ q ∧ q ≤ high

/-- A finite double above one bound, up to another. -/
def Above (low high : ℚ) (d : Double) :
    Prop := ∃ q, d = .finite q ∧ low < q ∧ q ≤ high

/-- The decimal text of a token id of 32 bits. -/
def IsToken (key : QString) : Prop := ∃ n :
    Nat, n < 2 ^ 31 ∧ key = QString.number n

/-- Every field is in its range; a seed of 32 bits always is. -/
structure InRange (o : GenerationOptions) : Prop where
  maxTokens : 1 ≤ o.maxTokens ∧ o.maxTokens ≤ 1048576
  temperature : Between 0 10 o.temperature
  topP : Above 0 1 o.topP
  topK : 0 ≤ o.topK ∧ o.topK ≤ 1000000
  stop : o.stop.length ≤ 16 ∧ ∀ s ∈ o.stop, IsStop s
  minP : Between 0 1 o.minP
  typicalP : Above 0 1 o.typicalP
  minKeep : 1 ≤ o.minKeep ∧ o.minKeep ≤ 1048576
  repetitionPenalty : Above 0 100 o.repetitionPenalty
  repetitionContextSize :
    -1 ≤ o.repetitionContextSize ∧ o.repetitionContextSize ≤ 1048576
  presencePenalty : Between (-2) 2 o.presencePenalty
  frequencyPenalty : Between (-2) 2 o.frequencyPenalty
  xtcProbability : Between 0 1 o.xtcProbability
  xtcThreshold : Between 0 (1 / 2) o.xtcThreshold
  logitBias : ∀ m ∈ o.logitBias, IsToken m.1 ∧ IsBias m.2

-- ======================================================= what is in the group

/-- No two fields of the group share a name. -/
theorem native_names :
    (nativeGroup.parameters.map ParameterDefinition.name).Nodup := by
  decide

/-- A field of the group can be set to what its schema accepts, since none is
read-only. -/
theorem settable_native (hg : C.group? (qs "iiLocalLLM.GenerationOptions")
    = some nativeGroup)
    {name nativeType : String} {default : Json} {schema : JsonObject}
    (hp : nativeField name nativeType default schema ∈ nativeGroup.parameters)
    (v : Json) :
    Settable C t (qs "iiLocalLLM.GenerationOptions") (qs name, v)
      ↔ accepts C t levels schema v = true := by
  have hfield := ParameterGroupDefinition.field?_name native_names hp
  constructor
  · rintro ⟨g, p, hg', hp', -, haccepts⟩
    obtain rfl : nativeGroup = g := Option.some.inj (hg.symm.trans hg')
    obtain rfl := Option.some.inj (hfield.symm.trans hp')
    exact haccepts
  · exact fun h => ⟨nativeGroup, _, hg, hfield, rfl, h⟩

/-- A field as it is read: from the document, or else its default. -/
def readField (values : JsonObject) (name : String) (default : Json) :
    Option Json :=
  (lookup values (qs name)).or (some default)

/-- Reading a field gives the member of the document, or the
default of the field. -/
theorem value_read (hg : C.group? (qs "iiLocalLLM.GenerationOptions")
    = some nativeGroup)
    {name nativeType : String} {default : Json} {schema : JsonObject}
    (hp : nativeField name nativeType default schema ∈ nativeGroup.parameters)
    (values : JsonObject) :
    ParameterObject.value C ⟨qs "iiLocalLLM.GenerationOptions", values⟩
      (qs name)
      = .ok (readField values name default) := by
  have hfield := ParameterGroupDefinition.field?_name native_names hp
  have hparameter := parameter_eq_ok.2 ⟨nativeGroup, hg, hfield⟩
  unfold ParameterObject.value readField
  show (do
    let p ← C.parameter (qs "iiLocalLLM.GenerationOptions")
      (nativeField name nativeType default schema).name
    pure (if contains values (qs name) = true then lookup values (qs name)
      else p.defaultValue)) = _
  rw [hparameter]
  show (pure (if contains values (qs name) = true then lookup values (qs name)
    else some default) : Except Exn (Option Json)) = _
  rw [contains_eq]
  cases lookup values (qs name) with
  | none => rfl
  | some v => rfl

/-- The options that a document is read as. -/
def readOptions (values : JsonObject) : GenerationOptions where
  maxTokens := toInt (readField values "max_tokens" (jsonInt 256))
  temperature := toDouble (.finite 0)
    (readField values "temperature" (.number (.finite (7 / 10))))
  topP := toDouble (.finite 0)
    (readField values "top_p" (.number (.finite (9 / 10))))
  topK := toInt (readField values "top_k" (jsonInt 40))
  seed := UInt32.ofInt (toInteger (readField values "seed" (jsonInt 0)))
  stop := (toArray (readField values "stop" (.array []))).map fun item =>
    toText (some item)
  minP := toDouble (.finite 0) (readField values "min_p" (jsonInt 0))
  typicalP := toDouble (.finite 0) (readField values "typical_p" (jsonInt 1))
  minKeep := toInt (readField values "min_keep" (jsonInt 1))
  repetitionPenalty := toDouble (.finite 0)
    (readField values "repetition_penalty" (jsonInt 1))
  repetitionContextSize :=
    toInt (readField values "repetition_context_size" (jsonInt 64))
  presencePenalty := toDouble (.finite 0)
    (readField values "presence_penalty" (jsonInt 0))
  frequencyPenalty := toDouble (.finite 0)
    (readField values "frequency_penalty" (jsonInt 0))
  xtcProbability := toDouble (.finite 0)
    (readField values "xtc_probability" (jsonInt 0))
  xtcThreshold := toDouble (.finite 0)
    (readField values "xtc_threshold" (.number (.finite (1 / 10))))
  logitBias := toObject (readField values "logit_bias" (.object []))

/-- The fields, by their place. -/
theorem native_mem (i : Fin 16) :
    nativeGroup.parameters.get i ∈ nativeGroup.parameters := List.get_mem _ _

/-- What follows the import of a document. -/
theorem generationOptionsFromJson_eq
    (hg : C.group? (qs "iiLocalLLM.GenerationOptions") = some nativeGroup)
    {values members : JsonObject}
    (himport : ParameterObject.fromNativeJson C t
      (qs "iiLocalLLM.GenerationOptions") values
      = .ok ⟨qs "iiLocalLLM.GenerationOptions", members⟩) :
    generationOptionsFromJson C t values = (do
      each (fun m => orFail (isTokenKey m.1 = true)
          (qs
            "logit_bias keys must be canonical non-negative int32 token IDs"))
        (readOptions members).logitBias
      return readOptions members) := by
  unfold generationOptionsFromJson
  rw [himport]
  simp only [ok_bind, value_read hg (native_mem 0),
    value_read hg (native_mem 1),
    value_read hg (native_mem 2), value_read hg (native_mem 3),
    value_read hg (native_mem 4),
    value_read hg (native_mem 5), value_read hg (native_mem 6),
    value_read hg (native_mem 7),
    value_read hg (native_mem 8), value_read hg (native_mem 9),
    value_read hg (native_mem 10),
    value_read hg (native_mem 11), value_read hg (native_mem 12),
    value_read hg (native_mem 13),
    value_read hg (native_mem 14), value_read hg (native_mem 15)]
  rfl

/-- A document is read when each of its members can be set and the biases are
for token ids; what is read is then a matter of lookups alone. -/
theorem generationOptionsFromJson_eq_ok
    (hg : C.group? (qs "iiLocalLLM.GenerationOptions") = some nativeGroup)
    {values : JsonObject} {o : GenerationOptions} :
    generationOptionsFromJson C t values = .ok o ↔
      (∀ m ∈ values, Settable C t (qs "iiLocalLLM.GenerationOptions") m)
      ∧ (∀ m ∈ o.logitBias, IsToken m.1)
      ∧ o = readOptions (ofMembers values) := by
  have hkeys : ∀ u : Unit, each (fun m => orFail (isTokenKey m.1 = true)
      (qs "logit_bias keys must be canonical non-negative int32 token IDs"))
        (readOptions (ofMembers values)).logitBias = .ok u
      ↔ ∀ m ∈ (readOptions (ofMembers values)).logitBias, IsToken m.1 := by
    intro u
    rw [each_eq_ok]
    exact forall₂_congr fun m _ => orFail_eq_ok.trans isTokenKey_iff
  constructor
  · intro h
    have hcopy := h
    unfold generationOptionsFromJson at hcopy
    obtain ⟨p, himport, -⟩ := bind_eq_ok.1 hcopy
    obtain ⟨-, hsettable, -, rfl⟩ :=
      ParameterObject.fromNativeJson_eq_ok.1 himport
    rw [generationOptionsFromJson_eq hg himport] at h
    obtain ⟨u, heach, h⟩ := bind_eq_ok.1 h
    injection h with h
    subst h
    exact ⟨hsettable, (hkeys u).1 heach, rfl⟩
  · rintro ⟨hsettable, htokens, rfl⟩
    have hgroup : (C.group? (qs "iiLocalLLM.GenerationOptions")).isSome
        = true := by
      rw [hg]
      rfl
    have himport := (ParameterObject.fromNativeJson_eq_ok (C := C) (t := t)).2
      ⟨hgroup, hsettable, (fun h => nomatch h.1), rfl⟩
    rw [generationOptionsFromJson_eq hg himport, bind_eq_ok]
    exact ⟨(), (hkeys ()).2 htokens, rfl⟩

-- ============================================================ kinds of fields

section Kinds

variable {low high : ℚ} {m n k : Int} {value : Json}

/-- For an integer with small bounds, the schema says what its bounds say. -/
theorem integer_iff (hm : |m| < 2 ^ 53) (hn : |n| < 2 ^ 53) :
    accepts C t levels (integerSchema m n) (jsonInt k) = true
      ↔ m ≤ k ∧ k ≤ n := by
  refine (accepts_integer (n := 32) hm hn).trans ?_
  constructor
  · rintro ⟨k', hk', hbounds⟩
    obtain rfl : k = k' := by simpa [jsonInt] using hk'
    exact hbounds
  · exact fun h => ⟨k, rfl, h⟩

/-- The same for a number between two bounds. -/
theorem number_iff (hlow : |low| < 2 ^ 53) (hhigh : |high| < 2 ^ 53)
    {d : Double} :
    accepts C t levels (numberSchema low high) (.number d) = true
      ↔ Between low high d := by
  refine (accepts_number (n := 32) hlow hhigh).trans ?_
  simp [Between]

/-- And for one that must be above the lower bound. -/
theorem above_iff (hlow : |low| < 2 ^ 53) (hhigh : |high| < 2 ^ 53)
    {d : Double} :
    accepts C t levels (aboveSchema low high) (.number d) = true
      ↔ Above low high d := by
  refine (accepts_above (n := 32) hlow hhigh).trans ?_
  simp [Above]

/-- The schema of `stop` accepts a written list of stops just
when it is in range. -/
theorem stops_iff {stops : List QString} :
    accepts C t levels stopsSchema (.array (stops.map .string)) = true ↔
      stops.length ≤ 16 ∧ ∀ s ∈ stops, IsStop s := by
  have hinjective : Function.Injective (Json.string : QString → Json) :=
    fun _ _ h => Json.string.inj h
  refine (accepts_stops (n := 31)).trans ?_
  constructor
  · rintro ⟨stops', hstops, h⟩
    obtain rfl := hinjective.list_map (Json.array.inj hstops)
    exact h
  · exact fun h => ⟨stops, rfl, h⟩

/-- And the schema of `logit_bias` looks at the values of an object only. -/
theorem biases_iff (hC : Loaded C t) {members : JsonObject} :
    accepts C t levels biasesSchema (.object members) = true
      ↔ ∀ m ∈ members, IsBias m.2 := by
  refine (accepts_biases (n := 31) hC).trans ?_
  constructor
  · rintro ⟨_, ⟨⟩, h⟩
    exact h
  · exact fun h => ⟨members, rfl, h⟩

-- What a schema accepts is read and written back.

/-- An `int` is read back from the number it is written as. -/
theorem toInt_jsonInt (h : -2 ^ 31 ≤ k ∧ k < 2 ^ 31) :
    toInt (some (jsonInt k)) = k :=
  if_pos ⟨Rat.den_intCast k, by simpa using h.1, by simpa using h.2⟩

/-- And an accepted integer of 32 bits is the number that what is read of it is
written as. -/
theorem integer_back (hm : -2 ^ 31 ≤ m ∧ m < 2 ^ 31)
    (hn : -2 ^ 31 ≤ n ∧ n < 2 ^ 31)
    (h : accepts C t levels (integerSchema m n) value = true) :
    jsonInt (toInt (some value)) = value := by
  have habs : |m| < 2 ^ 53 ∧ |n| < 2 ^ 53 := by
    rw [abs_lt, abs_lt]
    omega
  obtain ⟨k, rfl, hlow, hhigh⟩ := (accepts_integer (n := 32) habs.1 habs.2).1 h
  rw [toInt_jsonInt ⟨by omega, by omega⟩]

/-- A small finite number is read as it stands. -/
theorem toDouble_small {q : ℚ} (h : |q| < 2 ^ 53) :
    toDouble (.finite 0) (some (.number (.finite q))) = .finite q := by
  have hround := rounded_finite q
  rwa [roundRat_small h] at hround

/-- So an accepted number is written as it was. -/
theorem number_back (hlow : |low| < 2 ^ 53) (hhigh : |high| < 2 ^ 53)
    (h : accepts C t levels (numberSchema low high) value = true) :
    .number (toDouble (.finite 0) (some value)) = value := by
  obtain ⟨q, rfl, hq, hq'⟩ := (accepts_number (n := 32) hlow hhigh).1 h
  rw [toDouble_small (abs_lt.2 ⟨(abs_lt.1 hlow).1.trans_le hq,
    hq'.trans_lt (abs_lt.1 hhigh).2⟩)]

/-- And so is one above a bound. -/
theorem above_back (hlow : |low| < 2 ^ 53) (hhigh : |high| < 2 ^ 53)
    (h : accepts C t levels (aboveSchema low high) value = true) :
    .number (toDouble (.finite 0) (some value)) = value := by
  obtain ⟨q, rfl, hq, hq'⟩ := (accepts_above (n := 32) hlow hhigh).1 h
  rw [toDouble_small (abs_lt.2 ⟨(abs_lt.1 hlow).1.trans hq,
    hq'.trans_lt (abs_lt.1 hhigh).2⟩)]

/-- A `qint64` is read back from its number, too. -/
theorem toInteger_jsonInt (h : -2 ^ 63 ≤ k ∧ k < 2 ^ 63) :
    toInteger (some (jsonInt k)) = k :=
  if_pos ⟨Rat.den_intCast k, by simpa using h.1, by simpa using h.2⟩

/-- The seed goes through 64 bits and is cut to 32; an accepted
one has no more. -/
theorem seed_back (h : accepts C t levels (integerSchema 0 4294967295) value
    = true) :
    jsonInt (UInt32.ofInt (toInteger (some value))).toNat = value := by
  obtain ⟨k, rfl, hlow, hhigh⟩ :=
    (accepts_integer (n := 32) (by decide) (by decide)).1 h
  rw [toInteger_jsonInt ⟨by omega, by omega⟩]
  have hseed : ((UInt32.ofInt k).toNat : Int) = k := by
    show ((UInt32.ofNat (k % 2 ^ 32).toNat).toNat : Int) = k
    rw [UInt32.toNat_ofNat']
    omega
  rw [hseed]

/-- The stops are read as texts and written as texts. -/
theorem stops_back (h : accepts C t levels stopsSchema value = true) :
    .array (((toArray (some value)).map fun item => toText (some item)).map
      .string) = value := by
  obtain ⟨stops, rfl, -⟩ := (accepts_stops (n := 31)).1 h
  have htexts : (stops.map Json.string).map (fun item => toText (some item))
      = stops := by
    rw [List.map_map]
    exact List.map_id stops
  show Json.array (((stops.map Json.string).map fun item =>
    toText (some item)).map .string) = _
  rw [htexts]

/-- The biases are kept as the object they are. -/
theorem biases_back (hC : Loaded C t)
    (h : accepts C t levels biasesSchema value = true) :
    .object (toObject (some value)) = value := by
  obtain ⟨members, rfl, -⟩ := (accepts_biases (n := 31) hC).1 h
  rfl

end Kinds

-- ================================================================== the codec

/-- An object with the defaults of a group for what it leaves out. -/
def completed (g : ParameterGroupDefinition) (values : JsonObject) :
    JsonObject :=
  g.parameters.foldl (fun object p => match lookup object p.name,
    p.defaultValue with
    | none, some v => insert object p.name v
    | _, _ => object) values

/-- Nothing of the group is read-only. -/
theorem native_shown {p : ParameterDefinition}
    (hp : p ∈ nativeGroup.parameters) : p.shownDefault = p.defaultValue := by
  have hwritable : ∀ p ∈ nativeGroup.parameters, p.readOnly = false := by
    simp [nativeGroup, nativeField]
  unfold ParameterDefinition.shownDefault
  rw [if_neg (by simp [hwritable p hp])]

/-- So an export with defaults completes. -/
theorem completed_native (values : JsonObject) :
    completed nativeGroup values
      = nativeGroup.parameters.foldl
        (ParameterObject.exportField C true false) values := by
  refine List.foldl_ext _ _ _ fun object p hp => ?_
  have hexport := ParameterObject.exportField_defaults (C := C) object p
  rw [native_shown hp] at hexport
  exact hexport.symm

/-- A completed document has what the document has, and the defaults of the
fields that it leaves out. -/
theorem lookup_completed (values : JsonObject) (key : QString) :
    lookup (completed nativeGroup values) key = (lookup values key).or
      ((nativeGroup.field? key).bind ParameterDefinition.defaultValue) := by
  rw [completed_native (C := {}),
    ParameterObject.lookup_exportFields key native_names]
  refine congrArg _ (Option.bind_congr fun p hp => ?_)
  exact native_shown (ParameterGroupDefinition.field?_some hp).1

/-- The defaults of the group are accepted by its schemas. -/
theorem native_defaults (hC : Loaded C t) :
    ∀ p ∈ nativeGroup.parameters, ∀ v, p.defaultValue = some v →
      accepts C t levels p.schema v = true := by
  have hstops : accepts C t levels stopsSchema
      (.array (([] : List QString).map .string)) = true :=
    stops_iff.2 ⟨by decide, List.forall_mem_nil _⟩
  have hbiases : accepts C t levels biasesSchema (.object []) = true :=
    (biases_iff hC).2 (List.forall_mem_nil _)
  have hinteger : ∀ {m n k : Int}, |m| < 2 ^ 53 → |n| < 2 ^ 53 →
    m ≤ k → k ≤ n →
      accepts C t levels (integerSchema m n) (jsonInt k) = true :=
    fun hm hn hlow hhigh => (integer_iff hm hn).2 ⟨hlow, hhigh⟩
  have hnumber : ∀ {low high q : ℚ}, |low| < 2 ^ 53 → |high| < 2 ^ 53 →
    low ≤ q → q ≤ high →
      accepts C t levels (numberSchema low high) (.number (.finite q))
        = true :=
    fun hm hn hlow hhigh => (number_iff hm hn).2 ⟨_, rfl, hlow, hhigh⟩
  have habove : ∀ {low high q : ℚ}, |low| < 2 ^ 53 → |high| < 2 ^ 53 →
    low < q → q ≤ high →
      accepts C t levels (aboveSchema low high) (.number (.finite q)) = true :=
    fun hm hn hlow hhigh => (above_iff hm hn).2 ⟨_, rfl, hlow, hhigh⟩
  simp only [nativeGroup, nativeField, List.forall_mem_cons,
    Option.some.injEq, forall_eq',
    jsonInt]
  refine ⟨hinteger ?_ ?_ ?_ ?_, hnumber ?_ ?_ ?_ ?_, habove ?_ ?_ ?_ ?_,
    hinteger ?_ ?_ ?_ ?_,
    hinteger ?_ ?_ ?_ ?_, hstops, hnumber ?_ ?_ ?_ ?_, habove ?_ ?_ ?_ ?_,
    hinteger ?_ ?_ ?_ ?_,
    habove ?_ ?_ ?_ ?_, hinteger ?_ ?_ ?_ ?_, hnumber ?_ ?_ ?_ ?_,
      hnumber ?_ ?_ ?_ ?_,
    hnumber ?_ ?_ ?_ ?_, hnumber ?_ ?_ ?_ ?_, hbiases, List.forall_mem_nil _⟩
      <;> norm_num

/-- The members, by their place. -/
theorem written_mem (o : GenerationOptions) (i : Fin 16) :
    (optionMembers o).get i ∈ optionMembers o := List.get_mem _ _

/-- A written document has each name once, since the group has. -/
theorem written_names (o : GenerationOptions) :
    ((optionMembers o).map Prod.fst).Nodup := native_names

/-- The members that options are written to are settable when the options
are in their ranges. -/
theorem settable_iff_inRange (hC : Loaded C t)
    (hg : C.group? (qs "iiLocalLLM.GenerationOptions") = some nativeGroup)
    (o : GenerationOptions) :
    ((∀ m ∈ generationOptionsToJson o,
        Settable C t (qs "iiLocalLLM.GenerationOptions") m)
      ∧ ∀ m ∈ o.logitBias, IsToken m.1) ↔ InRange o := by
  have hseed : (0 : Int) ≤ o.seed.toNat
      ∧ (o.seed.toNat : Int) ≤ 4294967295 := by
    have hlt := o.seed.toNat_lt
    omega
  unfold generationOptionsToJson
  rw [forall_ofMembers (written_names o)]
  unfold optionMembers
  simp only [List.forall_mem_cons,
    settable_native hg (native_mem 0), settable_native hg (native_mem 1),
    settable_native hg (native_mem 2), settable_native hg (native_mem 3),
    settable_native hg (native_mem 4), settable_native hg (native_mem 5),
    settable_native hg (native_mem 6), settable_native hg (native_mem 7),
    settable_native hg (native_mem 8), settable_native hg (native_mem 9),
    settable_native hg (native_mem 10), settable_native hg (native_mem 11),
    settable_native hg (native_mem 12), settable_native hg (native_mem 13),
    settable_native hg (native_mem 14), settable_native hg (native_mem 15)]
  simp (disch := norm_num) only [integer_iff, number_iff, above_iff, stops_iff,
    biases_iff hC]
  constructor
  · rintro ⟨⟨h0, h1, h2, h3, -, h5, h6, h7, h8, h9, h10, h11, h12, h13, h14,
      h15, -⟩, htokens⟩
    exact ⟨h0, h1, h2, h3, h5, h6, h7, h8, h9, h10, h11, h12, h13, h14,
      fun m hm => ⟨htokens m hm, h15 m hm⟩⟩
  · intro h
    exact ⟨⟨h.maxTokens, h.temperature, h.topP, h.topK, hseed, h.stop,
      h.minP, h.typicalP,
      h.minKeep, h.repetitionPenalty, h.repetitionContextSize,
        h.presencePenalty,
      h.frequencyPenalty, h.xtcProbability, h.xtcThreshold, fun m hm =>
        (h.logitBias m hm).2,
      List.forall_mem_nil _⟩, fun m hm => (h.logitBias m hm).1⟩

-- =========================================================== written and read

/-- So each member is found under its name. -/
theorem lookup_written {o : GenerationOptions} {name : String} {v : Json}
    (hmem : (qs name, v) ∈ optionMembers o) :
    lookup (generationOptionsToJson o) (qs name) = some v := by
  unfold generationOptionsToJson
  rw [lookup_ofMembers]
  refine lookup_of_mem ?_ (List.mem_reverse.2 hmem)
  rw [List.map_reverse, List.nodup_reverse]
  exact written_names o

/-- And is what is read there, whatever the default. -/
theorem readField_written {o : GenerationOptions} {name : String} {v : Json}
    (hmem : (qs name, v) ∈ optionMembers o) (default : Json) :
    readField (generationOptionsToJson o) name default = some v := by
  unfold readField
  rw [lookup_written hmem, Option.some_or]

/-- A number in a small range is read as it stands. -/
theorem Between.read {low high : ℚ} {d : Double} (h : Between low high d)
    (hlow : -2 ^ 53 < low) (hhigh : high < 2 ^ 53) :
    toDouble (.finite 0) (some (.number d)) = d := by
  obtain ⟨q, rfl, hq, hq'⟩ := h
  exact toDouble_small (abs_lt.2 ⟨hlow.trans_le hq, hq'.trans_lt hhigh⟩)

/-- What is above the lower bound is between the bounds. -/
theorem Above.between {low high : ℚ} {d : Double} (h : Above low high d) :
    Between low high d := by
  obtain ⟨q, rfl, hq, hq'⟩ := h
  exact ⟨q, rfl, hq.le, hq'⟩

/-- A seed of 32 bits comes back through the 64 bits it is read with. -/
theorem seed_read (seed : UInt32) :
    UInt32.ofInt (toInteger (some (jsonInt seed.toNat))) = seed := by
  have hlt := seed.toNat_lt
  rw [toInteger_jsonInt ⟨by omega, by omega⟩]
  refine UInt32.toNat_inj.1 ?_
  show (UInt32.ofNat ((seed.toNat : Int) % 2 ^ 32).toNat).toNat = seed.toNat
  rw [UInt32.toNat_ofNat']
  omega

/-- Options in their ranges are read as they were written: in its range, each
number survives the way through the document. -/
theorem InRange.read {o : GenerationOptions} (h : InRange o) :
    readOptions (generationOptionsToJson o) = o := by
  have hstops : (o.stop.map Json.string).map (fun item => toText (some item))
      = o.stop := by
    rw [List.map_map]
    exact List.map_id o.stop
  have hstops' : toArray (some (.array (o.stop.map Json.string)))
    = o.stop.map Json.string := rfl
  unfold readOptions
  rw [readField_written (written_mem o 0), readField_written (written_mem o 1),
    readField_written (written_mem o 2), readField_written (written_mem o 3),
    readField_written (written_mem o 4), readField_written (written_mem o 5),
    readField_written (written_mem o 6), readField_written (written_mem o 7),
    readField_written (written_mem o 8), readField_written (written_mem o 9),
    readField_written (written_mem o 10), readField_written (written_mem o 11),
    readField_written (written_mem o 12), readField_written (written_mem o 13),
    readField_written (written_mem o 14), readField_written (written_mem o 15)]
  rw [toInt_jsonInt
    ⟨by have := h.maxTokens; omega, by have := h.maxTokens; omega⟩,
    toInt_jsonInt ⟨by have := h.topK; omega, by have := h.topK; omega⟩,
    toInt_jsonInt ⟨by have := h.minKeep; omega, by have := h.minKeep; omega⟩,
    toInt_jsonInt ⟨by have := h.repetitionContextSize; omega,
      by have := h.repetitionContextSize; omega⟩,
    seed_read, hstops', hstops, h.temperature.read (by norm_num) (by norm_num),
    h.topP.between.read (by norm_num) (by norm_num), h.minP.read (by norm_num)
      (by norm_num),
    h.typicalP.between.read (by norm_num) (by norm_num),
    h.repetitionPenalty.between.read (by norm_num) (by norm_num),
    h.presencePenalty.read (by norm_num) (by norm_num),
    h.frequencyPenalty.read (by norm_num) (by norm_num),
    h.xtcProbability.read (by norm_num) (by norm_num),
    h.xtcThreshold.read (by norm_num) (by norm_num)]
  rfl

/-- What is read is accepted, be it a member or a default. -/
theorem readField_accepted (hC : Loaded C t)
    (hg : C.group? (qs "iiLocalLLM.GenerationOptions") = some nativeGroup)
    {values : JsonObject}
    (hsettable : ∀ m ∈ values,
      Settable C t (qs "iiLocalLLM.GenerationOptions") m)
    {name nativeType : String} {default : Json} {schema : JsonObject}
    (hp : nativeField name nativeType default schema
      ∈ nativeGroup.parameters) :
    ∃ v, readField values name default = some v
      ∧ accepts C t levels schema v = true := by
  unfold readField
  cases hv : lookup values (qs name) with
  | some v =>
      exact ⟨v, rfl, (settable_native hg hp v).1
        (hsettable _ (mem_of_lookup hv))⟩
  | none => exact ⟨default, rfl, native_defaults hC _ hp default rfl⟩

/-- A field that is written as it was read. -/
theorem field_back {schema : JsonObject} {r : Option Json}
    (f : Option Json → Json)
    (hread : ∃ v, r = some v ∧ accepts C t levels schema v = true)
    (hback : ∀ {v}, accepts C t levels schema v = true → f (some v) = v) :
    some (f r) = r := by
  obtain ⟨v, rfl, haccepts⟩ := hread
  rw [hback haccepts]

/-- Every field of the group is written back as it was read. The options are
fixed records, so this is one equation for each field. -/
theorem fields_back (hC : Loaded C t)
    (hg : C.group? (qs "iiLocalLLM.GenerationOptions") = some nativeGroup)
    {values : JsonObject}
    (hsettable : ∀ m ∈ values,
      Settable C t (qs "iiLocalLLM.GenerationOptions") m) :
    ∀ p ∈ nativeGroup.parameters,
      lookup (generationOptionsToJson (readOptions values)) p.name
        = (lookup values p.name).or p.defaultValue := by
  have hinteger : ∀ {m n : Int} {r : Option Json}, -2 ^ 31 ≤ m ∧ m < 2 ^ 31 →
      -2 ^ 31 ≤ n ∧ n < 2 ^ 31 →
      (∃ v, r = some v ∧ accepts C t levels (integerSchema m n) v = true) →
      some (jsonInt (toInt r)) = r :=
    fun hm hn h => field_back (fun r => jsonInt (toInt r)) h
      (integer_back hm hn)
  have hnumber : ∀ {low high : ℚ} {r : Option Json}, |low| < 2 ^ 53 →
    |high| < 2 ^ 53 →
      (∃ v, r = some v ∧ accepts C t levels (numberSchema low high) v = true) →
      some (Json.number (toDouble (.finite 0) r)) = r :=
    fun hlow hhigh h => field_back
      (fun r => .number (toDouble (.finite 0) r)) h
      (number_back hlow hhigh)
  have habove : ∀ {low high : ℚ} {r : Option Json}, |low| < 2 ^ 53 →
    |high| < 2 ^ 53 →
      (∃ v, r = some v ∧ accepts C t levels (aboveSchema low high) v = true) →
      some (Json.number (toDouble (.finite 0) r)) = r :=
    fun hlow hhigh h => field_back
      (fun r => .number (toDouble (.finite 0) r)) h
      (above_back hlow hhigh)
  have hread : ∀ {name nativeType : String} {default : Json}
    {schema : JsonObject},
      nativeField name nativeType default schema ∈ nativeGroup.parameters →
      ∃ v, readField values name default = some v
        ∧ accepts C t levels schema v = true :=
    readField_accepted hC hg hsettable
  have hwritten : ∀ {name : String} {v : Json},
    (qs name, v) ∈ optionMembers (readOptions values) →
      lookup (generationOptionsToJson (readOptions values)) (qs name)
        = some v := lookup_written
  have hmem := written_mem (readOptions values)
  unfold nativeGroup
  simp only [List.forall_mem_cons]
  refine ⟨?_, ?_, ?_, ?_, ?_, ?_, ?_, ?_, ?_, ?_, ?_, ?_, ?_, ?_, ?_, ?_,
    List.forall_mem_nil _⟩
  · exact (hwritten (hmem 0)).trans
      (hinteger (by decide) (by decide) (hread (native_mem 0)))
  · exact (hwritten (hmem 1)).trans
      (hnumber (by norm_num) (by norm_num) (hread (native_mem 1)))
  · exact (hwritten (hmem 2)).trans
      (habove (by norm_num) (by norm_num) (hread (native_mem 2)))
  · exact (hwritten (hmem 3)).trans
      (hinteger (by decide) (by decide) (hread (native_mem 3)))
  · exact (hwritten (hmem 4)).trans
      (field_back (fun r => jsonInt (UInt32.ofInt (toInteger r)).toNat)
      (hread (native_mem 4)) seed_back)
  · exact (hwritten (hmem 5)).trans (field_back
      (fun r =>
        .array (((toArray r).map fun item => toText (some item)).map .string))
      (hread (native_mem 5)) stops_back)
  · exact (hwritten (hmem 6)).trans
      (hnumber (by norm_num) (by norm_num) (hread (native_mem 6)))
  · exact (hwritten (hmem 7)).trans
      (habove (by norm_num) (by norm_num) (hread (native_mem 7)))
  · exact (hwritten (hmem 8)).trans
      (hinteger (by decide) (by decide) (hread (native_mem 8)))
  · exact (hwritten (hmem 9)).trans
      (habove (by norm_num) (by norm_num) (hread (native_mem 9)))
  · exact (hwritten (hmem 10)).trans
      (hinteger (by decide) (by decide) (hread (native_mem 10)))
  · exact (hwritten (hmem 11)).trans
      (hnumber (by norm_num) (by norm_num) (hread (native_mem 11)))
  · exact (hwritten (hmem 12)).trans
      (hnumber (by norm_num) (by norm_num) (hread (native_mem 12)))
  · exact (hwritten (hmem 13)).trans
      (hnumber (by norm_num) (by norm_num) (hread (native_mem 13)))
  · exact (hwritten (hmem 14)).trans
      (hnumber (by norm_num) (by norm_num) (hread (native_mem 14)))
  · exact (hwritten (hmem 15)).trans
      (field_back (fun r => .object (toObject r)) (hread (native_mem 15))
      (biases_back hC))

/-- A document that is read is written back with its defaults filled in. What
it left out is shown as the default that reading took for it. -/
theorem written_back (hC : Loaded C t)
    (hg : C.group? (qs "iiLocalLLM.GenerationOptions") = some nativeGroup)
    {values : JsonObject} (hsorted : Sorted values)
    (hsettable : ∀ m ∈ values,
      Settable C t (qs "iiLocalLLM.GenerationOptions") m) :
    generationOptionsToJson (readOptions values)
      = completed nativeGroup values := by
  have hcompleted : Sorted (completed nativeGroup values) := by
    rw [completed_native (C := C)]
    exact ParameterObject.sorted_exportFields _ _ hsorted
  refine Sorted.ext (sorted_ofMembers _) hcompleted fun key => ?_
  rw [lookup_completed]
  cases hp : nativeGroup.field? key with
  | some p =>
      obtain ⟨hmem, rfl⟩ := ParameterGroupDefinition.field?_some hp
      exact fields_back hC hg hsettable p hmem
  | none =>
      -- Only the sixteen fields are read, and only they are written.
      have hfields : ∀ p ∈ nativeGroup.parameters, p.name ≠ key := by
        rintro p hmem rfl
        rw [ParameterGroupDefinition.field?_name native_names hmem] at hp
        cases hp
      have hread : lookup values key = none := by
        by_contra hsome
        obtain ⟨v, hv⟩ := Option.ne_none_iff_exists'.1 hsome
        obtain ⟨g, p, hg', hfield, -⟩ := hsettable _ (mem_of_lookup hv)
        obtain rfl : nativeGroup = g := Option.some.inj (hg.symm.trans hg')
        rw [hp] at hfield
        cases hfield
      have hwritten : lookup (generationOptionsToJson (readOptions values)) key
          = none := by
        by_contra hsome
        obtain ⟨v, hv⟩ := Option.ne_none_iff_exists'.1 hsome
        have hkey : key ∈ (optionMembers (readOptions values)).map Prod.fst :=
          List.mem_map.2 ⟨(key, v), mem_ofMembers (mem_of_lookup hv), rfl⟩
        have hkey : key ∈ nativeGroup.parameters.map
          ParameterDefinition.name := hkey
        obtain ⟨p, hmem, hname⟩ := List.mem_map.1 hkey
        exact hfields p hmem hname
      rw [hwritten, hread]
      rfl

/-- What is read of a written document has the biases that were written. -/
theorem biases_written (o : GenerationOptions) :
    (readOptions (generationOptionsToJson o)).logitBias = o.logitBias := by
  unfold readOptions
  dsimp only
  rw [readField_written (written_mem o 15)]
  rfl

/-- The options that are valid are those in their ranges, these are read as
they were written, and what is read from a document is written as the
document with its defaults. -/
theorem generation_codec {document : JsonObject}
    (hC : ParameterCatalog.fromJson t document = .ok C)
    (hg : C.group? (qs "iiLocalLLM.GenerationOptions") = some nativeGroup) :
    (∀ o, validateGenerationOptions C t o [] = .ok () ↔ InRange o)
    ∧ (∀ o, InRange o → generationOptionsFromJson C t
      (generationOptionsToJson o) = .ok o)
    ∧ ∀ j o, Sorted j → generationOptionsFromJson C t j = .ok o →
      generationOptionsToJson o = completed nativeGroup j := by
  have hC := ParameterCatalog.fromJson_loaded hC
  have hwritten : ∀ o, ofMembers (generationOptionsToJson o)
      = generationOptionsToJson o :=
    fun o => (sorted_ofMembers _).ofMembers_self
  have hread : ∀ o, InRange o →
      generationOptionsFromJson C t (generationOptionsToJson o) = .ok o := by
    intro o h
    obtain ⟨hsettable, htokens⟩ := (settable_iff_inRange hC hg o).2 h
    rw [generationOptionsFromJson_eq_ok hg, hwritten, h.read]
    exact ⟨hsettable, htokens, rfl⟩
  refine ⟨fun o => ⟨fun h => ?_, fun h => ?_⟩, hread, fun j o hj h => ?_⟩
  · unfold validateGenerationOptions at h
    obtain ⟨o', ho', -⟩ := bind_eq_ok.1 h
    obtain ⟨hsettable, htokens, rfl⟩ :=
      (generationOptionsFromJson_eq_ok hg).1 ho'
    rw [hwritten] at htokens
    refine (settable_iff_inRange hC hg o).1 ⟨hsettable, ?_⟩
    rwa [biases_written] at htokens
  · have hmlx : ¬ (([] : QString) = qs "mlx" ∧ o.typicalP ≠ .finite 1) := by
      rintro ⟨h, -⟩
      revert h
      decide
    refine bind_eq_ok.2 ⟨o, hread o h,
      bind_eq_ok.2 ⟨(), if_pos (Or.inl rfl), ?_⟩⟩
    exact if_neg hmlx
  · obtain ⟨hsettable, -, rfl⟩ := (generationOptionsFromJson_eq_ok hg).1 h
    rw [hj.ofMembers_self]
    exact written_back hC hg hj hsettable

namespace Sample

/-- A field of the group, as a catalog has it. -/
def nativeDefinition (p : ParameterDefinition) : Json :=
  .object
    [(qs "default", p.defaultValue.getD .null),
     (qs "description", .string (qs "A generation option.")),
     (qs "name", .string p.name),
     (qs "native_type", .string p.nativeType),
     (qs "required", .bool false),
     (qs "schema", .object p.schema)]

def nativeDocument : JsonObject :=
  oneGroup "iiLocalLLM.GenerationOptions" "generation"
    (nativeGroup.parameters.map nativeDefinition)

end Sample

/-- A document with the group loads as a catalog that has just this group. -/
theorem native_loaded :
    ParameterCatalog.fromJson Sample.patterns Sample.nativeDocument
    = .ok ⟨[nativeGroup]⟩ := by
  rfl

/-- The options as they are constructed are in their ranges. -/
theorem inRange_default : InRange {} := by
  refine ⟨?_, ⟨7 / 10, rfl, ?_⟩, ⟨9 / 10, rfl, ?_⟩, ?_, ?_, ⟨0, rfl, ?_⟩,
    ⟨1, rfl, ?_⟩, ?_,
    ⟨1, rfl, ?_⟩, ?_, ⟨0, rfl, ?_⟩, ⟨0, rfl, ?_⟩, ⟨0, rfl, ?_⟩,
      ⟨1 / 10, rfl, ?_⟩, ?_⟩
    <;> norm_num

namespace Sample

/-- Two stops, and a token that is made likelier. -/
def steered : GenerationOptions where
  stop := [qs "END", qs "###"]
  logitBias := [(qs "42", .number (.finite (3 / 2)))]

/-- The document that leaves out what it does not change. -/
def steeredDocument : JsonObject :=
  [(qs "logit_bias", .object steered.logitBias),
   (qs "stop", .array [.string (qs "END"), .string (qs "###")])]

theorem steered_inRange : InRange steered :=
  { inRange_default with
    stop := ⟨by decide, fun s hs => by
      rcases List.mem_pair.1 hs with rfl | rfl
      · exact ⟨by decide, by decide⟩
      · exact ⟨by decide, by decide⟩⟩
    logitBias := fun m hm => by
      rw [List.mem_singleton.1 hm]
      exact ⟨⟨42, by norm_num, by decide⟩,
        ⟨3 / 2, rfl, by norm_num, by norm_num⟩⟩ }

theorem steered_sorted : Sorted steeredDocument :=
  List.pairwise_pair.2 (by decide)

theorem steered_read :
    generationOptionsFromJson ⟨[nativeGroup]⟩ patterns steeredDocument
    = .ok steered := by
  refine (generationOptionsFromJson_eq_ok rfl).2 ⟨fun m hm => ?_,
    fun m hm => (steered_inRange.logitBias m hm).1, ?_⟩
  · rcases List.mem_pair.1 hm with rfl | rfl
    · exact (settable_native rfl (native_mem 15) _).2 (by decide +kernel)
    · exact (settable_native rfl (native_mem 5) _).2 (by decide +kernel)
  · rw [steered_sorted.ofMembers_self]
    unfold readOptions steered
    congr 1 <;> decide +kernel

end Sample

/-- Options with stops and a bias, the document they are written to, and a
document with two fields that is completed to it. -/
theorem generation_codec_default :
    validateGenerationOptions ⟨[nativeGroup]⟩ Sample.patterns Sample.steered []
      = .ok ()
    ∧ generationOptionsFromJson ⟨[nativeGroup]⟩ Sample.patterns
      (generationOptionsToJson Sample.steered) = .ok Sample.steered
    ∧ generationOptionsToJson Sample.steered
      = completed nativeGroup Sample.steeredDocument := by
  obtain ⟨hvalid, hread, hwritten⟩ := generation_codec native_loaded rfl
  exact ⟨(hvalid _).2 Sample.steered_inRange, hread _ Sample.steered_inRange,
    hwritten Sample.steeredDocument Sample.steered Sample.steered_sorted
      Sample.steered_read⟩

end LocalLLM
