/-
What a key/value cache takes (`runtimes/MemoryEstimate.h`): two bytes for
every layer, head, dimension, token and slot. The dimensions come out of a
model file that nobody has checked, so each multiplication is preceded by a
division that tells whether the product still fits.

# Overview

`takeFactors_eq` is the loop: over factors none of which is zero the
division says exactly whether the running product stays under 2 ^ 64, and
an induction over the factors carries the exact product along. The order
of the factors is nowhere used, so it does not matter.
-/
import LocalLLM.Hardware.Memory

namespace LocalLLM

/-- One turn of the loop: the factor is refused when the product with it
needs more than 64 bits. -/
def takeFactor (bytes factor : UInt64) : Except Exn UInt64 :=
  if UInt64.ofNat MemoryEstimate.maxBytes / bytes < factor then
    .error (err .ResourceLimit "Context memory estimate overflows")
  else .ok (bytes * factor)

/-- The loop over the factors. It starts from 2, the bytes of an f16. -/
def takeFactors (factors : List UInt64) : Except Exn UInt64 :=
  factors.foldlM takeFactor 2

/-- `quint64(n)` of an `int`. -/
def toQuint64 (n : Int32) : UInt64 := n.toInt64.toUInt64

/-- The factors in the order of the source. The sum is a 64-bit one. -/
def kvFactors (layers heads key value : UInt64) (tokens contextSlots : Int32) :
    List UInt64 :=
  [layers, heads, key + value, toQuint64 tokens, toQuint64 contextSlots]

/-- `detail::kvReservation`. -/
def kvReservation (layers heads key value : UInt64)
    (tokens contextSlots : Int32) : Except Exn UInt64 :=
  if tokens < 1 ∨ contextSlots < 1 then
    .error (err .InvalidArgument
      "Context reservation dimensions must be positive")
  else if layers = 0 ∨ heads = 0 ∨ key = 0 ∨ value = 0 then .ok 0
  else if 1048576 < key ∨ 1048576 < value then
    .error (err .ResourceLimit "Invalid attention dimensions")
  else takeFactors (kvFactors layers heads key value tokens contextSlots)

namespace MemoryEstimate

-- ===================================================== exact products

/-- An outcome that is the exact number `exact` where 64 bits hold it and
the refusal `refusal` where they do not. -/
structure Exactly (outcome : Except Exn UInt64) (exact : Nat) (refusal : Exn) :
    Prop where
  returns : ∀ n, outcome = .ok n ↔ n.toNat = exact
  throws : ∀ e, outcome = .error e ↔ e = refusal ∧ 2 ^ 64 ≤ exact

/-- An outcome written with one test on the exact number. -/
theorem Exactly.of_eq {outcome : Except Exn UInt64} {exact : Nat}
    {refusal : Exn}
    (heq : outcome = if exact < 2 ^ 64 then .ok (UInt64.ofNat exact)
      else .error refusal) : Exactly outcome exact refusal := by
  by_cases hfits : exact < 2 ^ 64
  · rw [if_pos hfits] at heq
    refine ⟨fun n => ?_, fun e => ?_⟩
    · have hexact : (UInt64.ofNat exact).toNat = exact := by
        simpa [UInt64.toNat_ofNat'] using hfits
      simp only [heq, Except.ok.injEq, ← UInt64.toNat_inj, hexact]
      exact eq_comm
    · simp only [heq, reduceCtorEq, false_iff, not_and]
      omega
  · rw [if_neg hfits] at heq
    refine ⟨fun n => ?_, fun e => ?_⟩
    · have hn := n.toNat_lt
      simp only [heq, reduceCtorEq, false_iff]
      omega
    · simp only [heq, Except.error.injEq]
      exact ⟨fun he => ⟨he.symm, by omega⟩, fun he => he.1.symm⟩

/-- The division before a multiplication tells whether it fits. -/
theorem takeFactor_eq {bytes factor : UInt64} (hbytes : bytes ≠ 0) :
    takeFactor bytes factor
      = if bytes.toNat * factor.toNat < 2 ^ 64 then .ok (bytes * factor)
        else .error (err .ResourceLimit
            "Context memory estimate overflows") := by
  have hpos : 0 < bytes.toNat :=
    Nat.pos_of_ne_zero fun h => hbytes (UInt64.toNat_inj.1 h)
  have hquotient : (UInt64.ofNat maxBytes / bytes < factor)
      ↔ 2 ^ 64 ≤ bytes.toNat * factor.toNat := by
    rw [UInt64.lt_iff_toNat_lt, UInt64.toNat_div, UInt64.toNat_ofNat',
      Nat.div_lt_iff_lt_mul hpos, Nat.mul_comm factor.toNat]
    unfold maxBytes
    omega
  unfold takeFactor
  by_cases hfits : bytes.toNat * factor.toNat < 2 ^ 64
  · rw [if_pos hfits, if_neg (by rw [hquotient]; omega)]
  · rw [if_neg hfits, if_pos (hquotient.2 (by omega))]

/-- The factors of the loop multiplied as natural numbers. -/
def exactProduct (factors : List UInt64) : Nat :=
  (factors.map UInt64.toNat).prod

theorem exactProduct_pos {factors : List UInt64} (h : ∀ f ∈ factors, f ≠ 0) :
    0 < exactProduct factors := by
  refine List.prod_pos fun n hn => ?_
  rcases List.mem_map.1 hn with ⟨f, hf, rfl⟩
  exact Nat.pos_of_ne_zero fun h0 => h f hf (UInt64.toNat_inj.1 h0)

/-- From any running product on, the loop ends with the exact product or
says that it does not fit. -/
theorem foldlM_takeFactor {factors : List UInt64} (h : ∀ f ∈ factors, f ≠ 0)
    {bytes : UInt64} (hbytes : bytes ≠ 0) :
    factors.foldlM takeFactor bytes
      = if bytes.toNat * exactProduct factors < 2 ^ 64 then
          .ok (UInt64.ofNat (bytes.toNat * exactProduct factors))
        else .error (err .ResourceLimit
            "Context memory estimate overflows") := by
  induction factors generalizing bytes with
  | nil =>
      have hlt := bytes.toNat_lt
      simp only [exactProduct, List.map_nil, List.prod_nil, Nat.mul_one]
      rw [if_pos hlt, UInt64.ofNat_toNat]
      rfl
  | cons factor rest ih =>
      have hfactor : factor ≠ 0 := h factor (by simp)
      have hrest : ∀ f ∈ rest, f ≠ 0 := fun f hf => h f (by simp [hf])
      have hpos := exactProduct_pos hrest
      have hsplit : bytes.toNat * exactProduct (factor :: rest)
          = bytes.toNat * factor.toNat * exactProduct rest := by
        simp [exactProduct, Nat.mul_assoc]
      rw [List.foldlM_cons, takeFactor_eq hbytes, hsplit]
      by_cases hfits : bytes.toNat * factor.toNat < 2 ^ 64
      · have hmul : (bytes * factor).toNat = bytes.toNat * factor.toNat := by
          rw [UInt64.toNat_mul, Nat.mod_eq_of_lt hfits]
        have hne : bytes * factor ≠ 0 := by
          intro h0
          rw [h0] at hmul
          rcases Nat.mul_eq_zero.1 hmul.symm with h1 | h1
          · exact hbytes (UInt64.toNat_inj.1 h1)
          · exact hfactor (UInt64.toNat_inj.1 h1)
        rw [if_pos hfits, ← hmul]
        exact ih hrest hne
      · -- the later factors only make the product larger
        have hover : ¬ bytes.toNat * factor.toNat * exactProduct rest
            < 2 ^ 64 := by
          have := Nat.le_mul_of_pos_right (bytes.toNat * factor.toNat) hpos
          omega
        rw [if_neg hfits, if_neg hover]
        rfl

theorem takeFactors_eq {factors : List UInt64} (h : ∀ f ∈ factors, f ≠ 0) :
    takeFactors factors
      = if 2 * exactProduct factors < 2 ^ 64 then
          .ok (UInt64.ofNat (2 * exactProduct factors))
        else .error (err .ResourceLimit "Context memory estimate overflows") :=
  foldlM_takeFactor h (by decide)

/-- The loop does not depend on the order of its factors. -/
theorem takeFactors_perm {factors factors' : List UInt64}
    (h : ∀ f ∈ factors, f ≠ 0) (hperm : factors'.Perm factors) :
    takeFactors factors' = takeFactors factors := by
  have hprod : exactProduct factors' = exactProduct factors :=
    (hperm.map UInt64.toNat).prod_eq
  rw [takeFactors_eq h, takeFactors_eq fun f hf =>
    h f (hperm.mem_iff.1 hf), hprod]

-- ======================================================= reservations

/-- What the cache takes, as a natural number. -/
def exactReservation (layers heads key value : UInt64)
    (tokens contextSlots : Int32) : Nat :=
  2 * layers.toNat * heads.toNat * (key.toNat + value.toNat)
    * tokens.toInt.toNat * contextSlots.toInt.toNat

/-- A positive `int` keeps its value as a `quint64`. -/
theorem toNat_toQuint64 {n : Int32} (h : 1 ≤ n) :
    0 < (toQuint64 n).toNat ∧ (toQuint64 n).toNat = n.toInt.toNat := by
  have hpos : 1 ≤ n.toInt := Int32.le_iff_toInt_le.1 h
  have hwide : n.toInt64.toInt = n.toInt := Int32.toInt_toInt64 n
  -- both read the same 64 bits, one of them with a sign
  have hbits : n.toInt64.toInt = (toQuint64 n).toBitVec.toInt := rfl
  have hnat : (toQuint64 n).toBitVec.toNat = (toQuint64 n).toNat := rfl
  rw [BitVec.toInt_eq_toNat_cond, hnat] at hbits
  have hlt := (toQuint64 n).toNat_lt
  split at hbits
  · omega
  · omega

/-- The sum of two dimensions that passed the check is the exact one. -/
theorem toNat_dimensions {key value : UInt64} (hkeyMax : key ≤ 1048576)
    (hvalueMax : value ≤ 1048576) :
    (key + value).toNat = key.toNat + value.toNat := by
  have hk : key.toNat ≤ 1048576 := UInt64.le_iff_toNat_le.1 hkeyMax
  have hv : value.toNat ≤ 1048576 := UInt64.le_iff_toNat_le.1 hvalueMax
  rw [UInt64.toNat_add]
  omega

/-- No factor is zero once the checks in front of the loop have passed. -/
theorem kvFactors_ne_zero {layers heads key value : UInt64}
    {tokens contextSlots : Int32} (htokens : 1 ≤ tokens)
    (hslots : 1 ≤ contextSlots)
    (hlayers : layers ≠ 0) (hheads : heads ≠ 0) (hkey : key ≠ 0)
    (hkeyMax : key ≤ 1048576) (hvalueMax : value ≤ 1048576) :
    ∀ f ∈ kvFactors layers heads key value tokens contextSlots, f ≠ 0 := by
  have hsum := toNat_dimensions hkeyMax hvalueMax
  have hkeyPos : key.toNat ≠ 0 := fun h => hkey (UInt64.toNat_inj.1 h)
  intro f hf hzero
  subst hzero
  simp only [kvFactors, List.mem_cons, List.not_mem_nil, or_false] at hf
  rcases hf with h | h | h | h | h
  · exact hlayers h.symm
  · exact hheads h.symm
  · rw [← h] at hsum
    simp at hsum
    omega
  · have := (toNat_toQuint64 htokens).1
    simp [← h] at this
  · have := (toNat_toQuint64 hslots).1
    simp [← h] at this

/-- The loop's exact product is the reservation. -/
theorem exactProduct_kvFactors {layers heads key value : UInt64}
    {tokens contextSlots : Int32} (htokens : 1 ≤ tokens)
    (hslots : 1 ≤ contextSlots)
    (hkeyMax : key ≤ 1048576) (hvalueMax : value ≤ 1048576) :
    2 * exactProduct (kvFactors layers heads key value tokens contextSlots)
      = exactReservation layers heads key value tokens contextSlots := by
  simp only [exactProduct, kvFactors, exactReservation, List.map_cons,
    List.map_nil, List.prod_cons, List.prod_nil, Nat.mul_one,
    toNat_dimensions hkeyMax hvalueMax, (toNat_toQuint64 htokens).2,
    (toNat_toQuint64 hslots).2]
  simp only [Nat.mul_assoc]

/-- For positive tokens and slots the reservation is 0 when there is
nothing to reserve, is refused for dimensions no model has, and is the
exact product otherwise: 64 bits hold it or it is refused, whatever the
order in which the factors are taken. The parts of an estimate are summed
just as exactly. -/
theorem reservation_exact (layers heads key value : UInt64)
    (tokens contextSlots : Int32) (htokens : 1 ≤ tokens)
    (hslots : 1 ≤ contextSlots) :
    (layers = 0 ∨ heads = 0 ∨ key = 0 ∨ value = 0 →
      kvReservation layers heads key value tokens contextSlots = .ok 0)
    ∧ (layers ≠ 0 → heads ≠ 0 → key ≠ 0 → value ≠ 0 →
      (1048576 < key ∨ 1048576 < value →
        kvReservation layers heads key value tokens contextSlots
          = .error (err .ResourceLimit "Invalid attention dimensions"))
      ∧ (key ≤ 1048576 → value ≤ 1048576 →
        Exactly (kvReservation layers heads key value tokens contextSlots)
          (exactReservation layers heads key value tokens contextSlots)
          (err .ResourceLimit "Context memory estimate overflows")
        ∧ ∀ factors,
          factors.Perm (kvFactors layers heads key value tokens contextSlots) →
          takeFactors factors
            = kvReservation layers heads key value tokens contextSlots))
    ∧ ∀ e : MemoryEstimate, Exactly e.totalBytes e.exactBytes
        (err .ResourceLimit "Model memory estimate overflows") := by
  have hpositive : ¬ (tokens < 1 ∨ contextSlots < 1) := by
    simp only [not_or, Int32.not_lt]
    exact ⟨htokens, hslots⟩
  refine ⟨fun hzero => ?_, fun hlayers hheads hkey hvalue => ⟨fun hlarge => ?_,
    fun hkeyMax hvalueMax => ?_⟩, fun e => .of_eq e.totalBytes_eq⟩
  · simp only [kvReservation, if_neg hpositive, if_pos hzero]
  · simp only [kvReservation, if_neg hpositive, hlayers, hheads, hkey, hvalue,
      or_self, if_false, if_pos hlarge]
  · have hsmall : ¬ (1048576 < key ∨ 1048576 < value) := by
      simp only [not_or, UInt64.not_lt]
      exact ⟨hkeyMax, hvalueMax⟩
    have hloop : kvReservation layers heads key value tokens contextSlots
        = takeFactors (kvFactors layers heads key value tokens
          contextSlots) := by
      simp only [kvReservation, if_neg hpositive, hlayers,
        hheads, hkey, hvalue,
        or_self, if_false, if_neg hsmall]
    have hfactors := kvFactors_ne_zero htokens hslots hlayers hheads hkey
      hkeyMax hvalueMax
    rw [hloop]
    refine ⟨.of_eq ?_, fun factors hperm => takeFactors_perm hfactors hperm⟩
    rw [← exactProduct_kvFactors htokens hslots hkeyMax hvalueMax]
    exact takeFactors_eq hfactors

/-- A model of 32 layers and 8 heads of dimension 128 at 4096 tokens. -/
theorem reservation_exact_sample :
    kvReservation 32 8 128 128 4096 1 = .ok 536870912
    ∧ kvReservation 0 8 128 128 4096 1 = .ok 0 := by
  have h := reservation_exact 32 8 128 128 4096 1 (by decide) (by decide)
  have hnone := reservation_exact 0 8 128 128 4096 1 (by decide) (by decide)
  refine ⟨?_, hnone.1 (.inl rfl)⟩
  refine ((((h.2.1 (by decide) (by decide) (by decide) (by decide)).2
    (by decide) (by decide)).1).returns _).2 ?_
  decide

end MemoryEstimate

end LocalLLM
