/-
What a lifetime is read as.

A lifetime denotes an exact number of milliseconds (`denoted`), and what is
read went through two roundings. They cannot turn it into another whole
number: what is read is closer to what is denoted than a millionth of a
millisecond, so a lifetime of whole milliseconds is read as it is or is
refused. Whole numbers of any unit are not refused; fractions can be, even
where they denote whole milliseconds.
-/
import LocalLLM.Hardware.KeepAlive
import LocalLLM.Proofs.GenerationOptions

namespace LocalLLM

open Json

-- =============================================================== what is read

/-- The milliseconds a lifetime denotes. -/
def denoted : Json → Option ℚ
  | .number d => match toDouble (.finite 0) (some (.number d)) with
      | .finite q => some (q * 1000)
      | _ => none
  | .string text => (lifetimeText text).map fun l => l.1 * l.2
  | _ => none

theorem parseKeepAlive_eq_ok {v : Json} {n : Int} :
    parseKeepAlive (some v) = .ok n ↔
      lifetimeOf v = .finite n ∧ 0 ≤ n ∧ n ≤ 604800000 := by
  unfold parseKeepAlive
  dsimp only
  cases lifetimeOf v with
  | finite q =>
      dsimp only
      constructor
      · intro h
        split_ifs at h with hq
        injection h with h
        obtain ⟨hlow, hhigh, hwhole⟩ := hq
        have heq : q = n := by
          rw [← h]
          exact (Rat.den_eq_one_iff q).1 hwhole |>.symm
        rw [heq] at hlow hhigh ⊢
        exact ⟨rfl, by exact_mod_cast hlow, by exact_mod_cast hhigh⟩
      · rintro ⟨h, hlow, hhigh⟩
        injection h with h
        subst h
        rw [if_pos ⟨by exact_mod_cast hlow, by exact_mod_cast hhigh, rfl⟩]
        rfl
  | infinite => simp
  | nan => simp

theorem ofRat_eq {q r : ℚ} (h : Double.ofRat q = .finite r) :
    r = binary64.round q := by
  unfold Double.ofRat at h
  split_ifs at h
  injection h with h
  exact h.symm

theorem unitFactor_le {unit : QString} {factor : Nat}
    (h : unitFactor unit = some factor) : factor ≤ 3600000 := by
  unfold unitFactor at h
  split_ifs at h <;> · injection h with h; omega

theorem lifetimeText_eq_some {text : QString} {value : ℚ} {factor : Nat}
    (h : lifetimeText text = some (value, factor)) :
    0 ≤ value ∧ factor ≤ 3600000 := by
  unfold lifetimeText at h
  dsimp only at h
  split_ifs at h
  cases hdigits : QString.digitsValue
      ((lifetimeParts text).1 ++ (lifetimeParts text).2.1) with
  | none =>
      rw [hdigits] at h
      cases h
  | some n =>
      cases hunit : unitFactor (lifetimeParts text).2.2 with
      | none =>
          rw [hdigits, hunit] at h
          cases h
      | some u =>
          rw [hdigits, hunit] at h
          injection h with h
          injection h with hvalue hfactor
          subst hvalue hfactor
          exact ⟨by positivity, unitFactor_le hunit⟩

/-- The errors of a lifetime in its range are small. -/
theorem error_small {n : Int} {u : ℚ} (hn : 0 ≤ n) (hmax : n ≤ 604800000)
    (hu : u ≤ 3600000) :
    6 * |(n : ℚ)| / 2 ^ binary64.precision + (2 + u) * 2 ^ binary64.low
      < 1 / 1000000 := by
  have hmax' : (n : ℚ) ≤ 604800000 := by exact_mod_cast hmax
  have htiny : (2 : ℚ) ^ binary64.low ≤ 1 / 2 ^ 60 := by
    calc (2 : ℚ) ^ (-1074 : Int) ≤ 2 ^ (-60 : Int) :=
          zpow_le_zpow_right₀ (by norm_num) (by norm_num)
      _ = 1 / 2 ^ 60 := by norm_num
  have hpos : (0 : ℚ) < 2 ^ binary64.low := by positivity
  rw [abs_of_nonneg (show (0 : ℚ) ≤ n by exact_mod_cast hn)]
  have hfirst : 6 * (n : ℚ) / 2 ^ binary64.precision
      ≤ 6 * 604800000 / 2 ^ 53 :=
    div_le_div_of_nonneg_right (by linarith) (by norm_num)
  calc _ ≤ (6 * 604800000 / 2 ^ 53 : ℚ) + 3600002 * 2 ^ binary64.low :=
        add_le_add hfirst (mul_le_mul_of_nonneg_right (by linarith) hpos.le)
    _ ≤ (6 * 604800000 / 2 ^ 53 : ℚ) + 3600002 * (1 / 2 ^ 60) := by linarith
    _ < 1 / 1000000 := by norm_num

/-- What is read is what is denoted, but for the last bits. Two roundings stand
between them: of the number and of its product with the unit. -/
theorem parseKeepAlive_close {v : Json} {n : Int}
    (h : parseKeepAlive (some v) = .ok n) : (0 ≤ n ∧ n ≤ 604800000)
      ∧ ∃ x, denoted v = some x ∧ |(n : ℚ) - x| < 1 / 1000000 := by
  obtain ⟨hvalue, hlow, hhigh⟩ := parseKeepAlive_eq_ok.1 h
  have hnonneg : (0 : ℚ) ≤ n := by exact_mod_cast hlow
  have hother : ∀ {d : Double}, d = .finite (-1) → d ≠ .finite n := by
    rintro d rfl heq
    injection heq with heq
    rw [← heq] at hnonneg
    norm_num at hnonneg
  refine ⟨⟨hlow, hhigh⟩, ?_⟩
  cases v with
  | number d =>
      change Double.scaled 1000 (toDouble (.finite 0) (some (.number d))) = _
        at hvalue
      unfold denoted
      dsimp only
      cases hd : toDouble (.finite 0) (some (.number d)) with
      | finite q =>
          rw [hd] at hvalue
          have hround : (n : ℚ) = binary64.round (q * 1000) := ofRat_eq hvalue
          refine ⟨q * 1000, rfl, ?_⟩
          have herror := Rounding.Format.round_back_error (f := binary64)
            (by decide) (q * 1000)
          rw [← hround] at herror
          have hsmall := error_small (u := 0) hlow hhigh (by norm_num)
          have hpos : (0 : ℚ) < 2 ^ binary64.low := by positivity
          have hdouble : 2 * |(n : ℚ)| / 2 ^ binary64.precision
              ≤ 6 * |(n : ℚ)| / 2 ^ binary64.precision := by
            have hn := abs_nonneg (n : ℚ)
            exact div_le_div_of_nonneg_right (by linarith) (by norm_num)
          linarith
      | infinite negative =>
          rw [hd] at hvalue
          cases hvalue
      | nan =>
          rw [hd] at hvalue
          cases hvalue
  | string text =>
      unfold lifetimeOf at hvalue
      unfold denoted
      dsimp only at hvalue ⊢
      cases htext : lifetimeText text with
      | none =>
          rw [htext] at hvalue
          exact absurd hvalue (hother rfl)
      | some l =>
          obtain ⟨value, factor⟩ := l
          rw [htext] at hvalue
          dsimp only at hvalue
          have hfactor : (factor : ℚ) ≤ 3600000 := by
            exact_mod_cast (lifetimeText_eq_some htext).2
          cases hrounded : Double.ofRat value with
          | finite r =>
              rw [hrounded] at hvalue
              have hround : (n : ℚ) = binary64.round (r * factor) :=
                ofRat_eq hvalue
              rw [ofRat_eq hrounded] at hround
              refine ⟨value * factor, rfl, ?_⟩
              have herror := Rounding.Format.round_mul_error
                (f := binary64) (by decide)
                value (u := factor) (by positivity)
              rw [← hround] at herror
              exact herror.trans_lt (error_small hlow hhigh hfactor)
          | infinite negative =>
              rw [hrounded] at hvalue
              cases hvalue
          | nan =>
              rw [hrounded] at hvalue
              cases hvalue
  | null => exact absurd hvalue (hother rfl)
  | bool b => exact absurd hvalue (hother rfl)
  | array items => exact absurd hvalue (hother rfl)
  | object members => exact absurd hvalue (hother rfl)

-- ============================================================ whole amounts

theorem ofRat_natCast {n : Nat} (hn : n < 2 ^ 53) :
    Double.ofRat n = .finite n := by
  have hself : binary64.round ((n : Int) : ℚ) = (n : Int) :=
    (Rounding.Format.represents_intCast (by decide) (by
      show |(n : Int)| < 2 ^ 53
      rw [Nat.abs_cast]
      exact_mod_cast hn)).round_self
  rw [Int.cast_natCast] at hself
  unfold Double.ofRat
  rw [hself, if_pos]
  rw [Nat.abs_cast]
  calc (n : ℚ) < 2 ^ 53 := by exact_mod_cast hn
    _ < 2 ^ 1024 := pow_lt_pow_right₀ (by norm_num) (by norm_num)

/-- A product of whole numbers needs no rounding. -/
theorem scaled_whole {n factor : Nat} (h : n * factor ≤ 604800000) :
    Double.scaled factor (.finite n) = .finite (n * factor : Nat) := by
  show Double.ofRat ((n : ℚ) * factor) = _
  rw [← Nat.cast_mul]
  exact ofRat_natCast (by omega)

theorem isDigit_number (n : Nat) :
    ∀ u ∈ QString.number n, isDigit u = true := by
  intro u hu
  rw [number_natCast] at hu
  obtain ⟨d, hd, rfl⟩ := List.mem_map.1 hu
  exact (digit_unit (decimal_lt hd)).2.1

theorem number_ne_nil (n : Nat) : QString.number n ≠ [] := by
  rw [number_natCast]
  simpa using decimal_ne_nil n

/-- Digits before something else. -/
theorem takeWhile_digits {digits rest : QString}
    (hdigits : ∀ u ∈ digits, isDigit u = true)
    (hrest : ∀ u, rest.head? = some u → isDigit u = false) :
    (digits ++ rest).takeWhile isDigit = digits
      ∧ (digits ++ rest).dropWhile isDigit = rest := by
  have hstop : rest.takeWhile isDigit = []
      ∧ rest.dropWhile isDigit = rest := by
    cases rest with
    | nil => exact ⟨rfl, rfl⟩
    | cons u rest =>
        rw [List.takeWhile_cons, List.dropWhile_cons, hrest u rfl]
        exact ⟨rfl, rfl⟩
  rw [List.takeWhile_append_of_pos hdigits,
    List.dropWhile_append_of_pos hdigits,
    hstop.1, hstop.2, List.append_nil]
  exact ⟨rfl, rfl⟩

/-- A unit, by its text. -/
theorem unit_cases {unit : QString} {factor : Nat}
    (h : unitFactor unit = some factor) :
    (∀ u, unit.head? = some u → isDigit u = false) ∧ unit.head? ≠ some (qc '.')
      ∧ unit.getLast? ≠ some (qc '\n') := by
  unfold unitFactor at h
  have hletter : ∀ {c : QChar} {rest : QString}, isDigit c = false →
      ∀ u, (c :: rest).head? = some u → isDigit u = false := by
    intro c rest hc u hu
    injection hu with hu
    exact hu ▸ hc
  split_ifs at h with hms hm hh hs
  · rw [hms]
    exact ⟨hletter (by decide), by decide, by decide⟩
  · rw [hm]
    exact ⟨hletter (by decide), by decide, by decide⟩
  · rw [hh]
    exact ⟨hletter (by decide), by decide, by decide⟩
  · rcases hs with hs | hs
    · rw [hs]
      exact ⟨hletter (by decide), by decide, by decide⟩
    · rw [hs]
      exact ⟨fun u hu => (by cases hu), by decide, by decide⟩

/-- A whole number and its unit. -/
theorem lifetimeText_whole (n : Nat) {unit : QString} {factor : Nat}
    (h : unitFactor unit = some factor) :
    lifetimeText (QString.number n ++ unit) = some ((n : ℚ), factor) := by
  obtain ⟨hhead, hpoint, hlast⟩ := unit_cases h
  have hbody : dollarBody (QString.number n ++ unit)
      = QString.number n ++ unit := by
    unfold dollarBody
    rw [if_neg]
    intro hfeed
    cases hunit : unit.getLast? with
    | some u =>
        rw [List.getLast?_append, hunit, Option.some_or] at hfeed
        exact hlast (hunit.trans hfeed)
    | none =>
        rw [List.getLast?_append, hunit, Option.none_or] at hfeed
        have hdigit := isDigit_number n _ (List.mem_of_getLast? hfeed)
        revert hdigit
        decide
  have hparts : lifetimeParts (QString.number n ++ unit)
      = (QString.number n, [], unit) := by
    obtain ⟨hdigits, hrest⟩ := takeWhile_digits (isDigit_number n) hhead
    unfold lifetimeParts
    dsimp only
    rw [hbody, hdigits, hrest, if_neg fun hdot => hpoint hdot.1]
  unfold lifetimeText
  rw [hparts]
  dsimp only
  rw [if_neg (number_ne_nil n), List.append_nil, digitsValue_number, h]
  simp

/-- Whole amounts in any unit are read as they are. -/
theorem parseKeepAlive_whole {n factor : Nat} {unit : QString}
    (hunit : unitFactor unit = some factor) (hmax : n * factor ≤ 604800000) :
    parseKeepAlive (some (.string (QString.number n ++ unit)))
      = .ok (n * factor : Nat) := by
  refine parseKeepAlive_eq_ok.2 ⟨?_, by positivity, by exact_mod_cast hmax⟩
  have hpos : 1 ≤ factor := by
    unfold unitFactor at hunit
    split_ifs at hunit <;> · injection hunit with hunit; omega
  have hsmall : n < 2 ^ 53 := by nlinarith
  unfold lifetimeOf
  dsimp only
  rw [lifetimeText_whole n hunit]
  dsimp only
  rw [ofRat_natCast hsmall, scaled_whole hmax]
  rfl

/-- And so are whole seconds. -/
theorem parseKeepAlive_seconds {n : Nat} (hmax : n ≤ 604800) :
    parseKeepAlive (some (jsonInt n)) = .ok (n * 1000 : Nat) := by
  refine parseKeepAlive_eq_ok.2 ⟨?_, by positivity, by omega⟩
  have hread : toDouble (.finite 0) (some (jsonInt n)) = .finite (n : ℚ) := by
    have hdouble := toDouble_small (q := n) (by
      rw [Nat.abs_cast]
      exact_mod_cast lt_of_le_of_lt hmax (by norm_num))
    exact_mod_cast hdouble
  show Double.scaled 1000 (toDouble (.finite 0) (some (jsonInt n))) = _
  rw [hread, scaled_whole (by omega)]
  rfl

/-- **A lifetime is read as it is meant.** What is accepted is within
a millionth of a millisecond of what it denotes, and whole amounts in
any unit are accepted. Fractions may be refused, for the product with
the unit is a double. -/
theorem keep_alive_exact :
    (∀ v n, parseKeepAlive (some v) = .ok n → (0 ≤ n ∧ n ≤ maxKeepAliveMs)
      ∧ ∃ x, denoted v = some x ∧ |(n : ℚ) - x| < 1 / 1000000)
    ∧ (∀ (n factor : Nat) unit, unitFactor unit = some factor →
      (n * factor : Nat) ≤ maxKeepAliveMs →
      parseKeepAlive (some (.string (QString.number n ++ unit)))
        = .ok (n * factor : Nat))
    ∧ ∀ n : Nat, (n * 1000 : Nat) ≤ maxKeepAliveMs →
      parseKeepAlive (some (jsonInt n)) = .ok (n * 1000 : Nat) := by
  have hmax : maxKeepAliveMs = 604800000 := by decide
  rw [hmax]
  refine ⟨fun v n h => parseKeepAlive_close h, fun n factor unit hunit h => ?_,
    fun n h => ?_⟩
  · exact parseKeepAlive_whole hunit (by exact_mod_cast h)
  · exact parseKeepAlive_seconds (by omega)

/-- A quarter of a second is within a millionth of what it denotes; five
minutes and three seconds are read exactly. -/
theorem keep_alive_exact_minutes :
    (∃ x, denoted (.number (.finite (1 / 4))) = some x
      ∧ |((250 : Int) : ℚ) - x| < 1 / 1000000)
    ∧ parseKeepAlive (some (.string (QString.number 5 ++ qs "m"))) = .ok 300000
    ∧ parseKeepAlive (some (jsonInt 3)) = .ok 3000 :=
  ⟨(keep_alive_exact.1 (.number (.finite (1 / 4))) 250 (by decide +kernel)).2,
    keep_alive_exact.2.1 5 60000 (qs "m") (by decide) (by decide),
    keep_alive_exact.2.2 3 (by decide)⟩

/-- A fraction of a second that a double misses from below is refused. -/
example : parseKeepAlive (some (.string (qs "1.001")))
    = .error badLifetime := by
  decide +kernel

end LocalLLM
