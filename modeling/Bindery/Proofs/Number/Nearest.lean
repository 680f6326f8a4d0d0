import Bindery.Number.Double
import Mathlib.Algebra.Order.Group.Unbundled.Abs
import Mathlib.Tactic.Ring

/-!
# The double nearest to an integer

An integer is equal to a double if it is a number of at most 53 binary digits
times a power of two that is not too large.  Every other integer is rounded: the
conversion finds a whole number that is equal to a double, and no double is
nearer.  Integers from halfway between the greatest double and the next power of
two on have no double.
-/

namespace Bindery.Double

/-- The integers that are equal to a double. -/
def Holds (n : Int) : Prop :=
  ∃ mantissa exponent : Nat, mantissa < Nat.pow 2 precision ∧ (exponent : Int) ≤ greatestExponent ∧
    n.natAbs = mantissa * 2 ^ exponent

/-- A whole number is equal to a double, and no double is nearer to the given integer. -/
structure IsNearest (given whole : Int) : Prop where
  holds : Holds whole
  least : ∀ other, Holds other → (given - whole).natAbs ≤ (given - other).natAbs

/-- An integer is its own nearest double exactly if it is equal to one. -/
theorem IsNearest.eq_iff {given whole : Int} (nearest : IsNearest given whole) :
    whole = given ↔ Holds given := by
  constructor
  · rintro rfl
    exact nearest.holds
  · intro held
    have apart := nearest.least given held
    omega

/-- The least absolute value of the integers that have no double. -/
def overflow : Nat := (2 ^ 54 - 1) * 2 ^ 970

/-- No multiple of the unit is nearer than the rounded quotient. -/
theorem roundQuotient_near (n other : Nat) {unit : Nat} (positive : 0 < unit) :
    ((n : Int) - (roundQuotient n unit * unit : Nat)).natAbs ≤
      ((n : Int) - (other * unit : Nat)).natAbs := by
  have parts := Nat.div_add_mod' n unit
  have small := Nat.mod_lt n positive
  have next : (n / unit + 1) * unit = n / unit * unit + unit := Nat.succ_mul _ _
  -- the multiples at or below the quotient, and those above it
  have sides : other * unit ≤ n / unit * unit ∨ (n / unit + 1) * unit ≤ other * unit := by
    rcases Nat.lt_or_ge (n / unit) other with above | below
    · exact .inr (Nat.mul_le_mul_right unit above)
    · exact .inl (Nat.mul_le_mul_right unit below)
  simp only [roundQuotient]
  split_ifs <;> omega

theorem roundQuotient_bounds {n unit low high : Nat} (positive : 0 < unit) (above : low * unit ≤ n)
    (below : n < high * unit) : low ≤ roundQuotient n unit ∧ roundQuotient n unit ≤ high := by
  have least : low ≤ n / unit := (Nat.le_div_iff_mul_le positive).mpr above
  have most : n / unit < high := (Nat.div_lt_iff_lt_mul positive).mpr below
  simp only [roundQuotient]
  split_ifs <;> omega

/-- A quotient is rounded up to an even number from halfway below it on. -/
theorem le_roundQuotient_iff {n half high : Nat} (positive : 0 < half) (even : (high + 1) % 2 = 0) :
    high + 1 ≤ roundQuotient n (2 * half) ↔ (2 * high + 1) * half ≤ n := by
  have parts := Nat.div_add_mod' n (2 * half)
  have small := Nat.mod_lt n (Nat.mul_pos Nat.two_pos positive)
  have middle : (2 * high + 1) * half = high * (2 * half) + half := by ring
  rw [middle]
  rcases Nat.lt_trichotomy (n / (2 * half)) high with below | same | above
  · have bound := Nat.mul_le_mul_right (2 * half) below
    rw [Nat.succ_mul] at bound
    simp only [roundQuotient]
    split_ifs <;> omega
  · rw [same] at parts
    simp only [roundQuotient, same]
    split_ifs <;> omega
  · have bound := Nat.mul_le_mul_right (2 * half) above
    rw [Nat.succ_mul] at bound
    simp only [roundQuotient]
    split_ifs <;> omega

theorem roundQuotient_one (n : Nat) : roundQuotient n 1 = n := by
  simp [roundQuotient, Nat.mod_one]

/-! ## Rounding a natural number -/

/-- What remains of a conversion once the power of two is known. -/
theorem ofFraction_fitted (negative : Bool) {n a d : Nat} (positive : n ≠ 0)
    (scaled : scale n 1 (52 - (n.log2 : Int)) = (a, d)) (fits : 2 ^ 52 ≤ a / d) :
    ofFraction negative n 1 =
      if roundQuotient a d = Nat.pow 2 precision then
        if greatestExponent < (n.log2 : Int) - 52 + 1 then .infinity negative
        else .finite negative (Nat.pow 2 (precision - 1)) ((n.log2 : Int) - 52 + 1)
      else if greatestExponent < (n.log2 : Int) - 52 then .infinity negative
      else .finite negative (roundQuotient a d) ((n.log2 : Int) - 52) := by
  have one : (Nat.log2 1 : Int) = 0 := by decide
  have guess : (n.log2 : Int) - (Nat.log2 1 : Int) - ((precision : Int) - 1) = n.log2 - 52 := by
    rw [one, precision]
    omega
  have least : max ((n.log2 : Int) - 52) leastExponent = n.log2 - 52 := by
    rw [leastExponent]
    omega
  have opposite : -((n.log2 : Int) - 52) = 52 - n.log2 := by omega
  have enough : ¬a / d < Nat.pow 2 (precision - 1) := Nat.not_lt.mpr fits
  rw [ofFraction, if_neg positive]
  simp only [guess, opposite, scaled, if_neg enough, least]
  by_cases carried : roundQuotient a d = Nat.pow 2 precision
  · simp only [if_pos carried]
  · simp only [if_neg carried]

/-- A number of at most 53 binary digits is taken as it is. -/
theorem ofFraction_small (negative : Bool) {n : Nat} (positive : n ≠ 0) (small : n.log2 ≤ 52) :
    ofFraction negative n 1 =
      .finite negative (n * 2 ^ (52 - n.log2)) (-((52 - n.log2 : Nat) : Int)) := by
  have scaled : scale n 1 (52 - (n.log2 : Int)) = (n * 2 ^ (52 - n.log2), 1) := by
    have power : (52 - (n.log2 : Int)).natAbs = 52 - n.log2 := by omega
    rw [scale, if_neg (by omega), power]
    rfl
  have split : 2 ^ n.log2 * 2 ^ (52 - n.log2) = 2 ^ 52 := by
    rw [← Nat.pow_add, Nat.add_sub_cancel' small]
  have above : 2 ^ 52 ≤ n * 2 ^ (52 - n.log2) := by
    rw [← split]
    exact Nat.mul_le_mul_right _ (Nat.log2_self_le positive)
  have below : n * 2 ^ (52 - n.log2) < 2 ^ 53 := by
    have doubled : 2 ^ (n.log2 + 1) * 2 ^ (52 - n.log2) = 2 ^ 53 := by
      rw [Nat.pow_succ, Nat.mul_right_comm, split]
      rfl
    rw [← doubled]
    exact Nat.mul_lt_mul_of_pos_right Nat.lt_log2_self (Nat.two_pow_pos _)
  rw [ofFraction_fitted negative positive scaled (by rw [Nat.div_one]; exact above),
    roundQuotient_one, if_neg (show _ ≠ Nat.pow 2 precision from Nat.ne_of_lt below),
    if_neg (by rw [greatestExponent]; omega), Nat.cast_sub small, neg_sub]
  rfl

/-- A longer number is rounded to 53 binary digits. -/
theorem ofFraction_large (negative : Bool) {n exponent : Nat} (nonzero : n ≠ 0)
    (positive : 0 < exponent) (length : n.log2 = exponent + 52) :
    (roundQuotient n (2 ^ exponent) = 2 ^ 53 → ofFraction negative n 1 =
      if 971 < exponent + 1 then .infinity negative
      else .finite negative (2 ^ 52) (exponent + 1 : Nat)) ∧
    (roundQuotient n (2 ^ exponent) ≠ 2 ^ 53 → ofFraction negative n 1 =
      if 971 < exponent then .infinity negative
      else .finite negative (roundQuotient n (2 ^ exponent)) exponent) := by
  have scaled : scale n 1 (52 - (n.log2 : Int)) = (n, 2 ^ exponent) := by
    have power : (52 - (n.log2 : Int)).natAbs = exponent := by omega
    rw [scale, if_pos (by omega), power, Nat.one_mul]
    rfl
  have above : 2 ^ 52 * 2 ^ exponent ≤ n := by
    rw [← Nat.pow_add, Nat.add_comm, ← length]
    exact Nat.log2_self_le nonzero
  have shifted : (n.log2 : Int) - 52 = exponent := by omega
  rw [ofFraction_fitted negative nonzero scaled
    ((Nat.le_div_iff_mul_le (Nat.two_pow_pos _)).mpr above), shifted]
  have limit (power : Nat) : greatestExponent < (power : Int) ↔ 971 < power := by
    rw [greatestExponent]
    omega
  constructor
  · intro carried
    rw [if_pos (show _ = Nat.pow 2 precision from carried)]
    simp only [← limit, Nat.cast_succ]
    rfl
  · intro exact'
    rw [if_neg (show _ ≠ Nat.pow 2 precision from exact')]
    simp only [← limit]

/-! ## The nearest double -/

theorem holds_neg {n : Int} : Holds (-n) ↔ Holds n := by
  rw [Holds, Holds, Int.natAbs_neg]

theorem holds_of_small {n : Int} (small : n.natAbs < 2 ^ 53) : Holds n :=
  ⟨n.natAbs, 0, small, by decide, by rw [Nat.pow_zero, Nat.mul_one]⟩

theorem isNearest_self {n : Int} (holds : Holds n) : IsNearest n n where
  holds := holds
  least := fun other _ => by
    rw [Int.sub_self]
    exact Nat.zero_le _

theorem IsNearest.neg {given whole : Int} (nearest : IsNearest given whole) :
    IsNearest (-given) (-whole) where
  holds := holds_neg.mpr nearest.holds
  least := fun other held => by
    have apart := nearest.least (-other) (holds_neg.mpr held)
    omega

/-- The number that a longer number is rounded to is nearest, if it is not too large. -/
theorem isNearest_rounded {n exponent : Nat} (above : 2 ^ 52 * 2 ^ exponent ≤ n)
    (holds : Holds (roundQuotient n (2 ^ exponent) * 2 ^ exponent : Nat)) :
    IsNearest n (roundQuotient n (2 ^ exponent) * 2 ^ exponent : Nat) := by
  refine ⟨holds, ?_⟩
  rintro other ⟨mantissa, power, short, -, size⟩
  rcases Nat.lt_or_ge power exponent with finer | coarser
  · -- a finer double is less than the least multiple of the unit with 53 digits
    have near := roundQuotient_near n (2 ^ 52) (Nat.two_pow_pos exponent)
    have less : mantissa * 2 ^ power ≤ 2 ^ 52 * 2 ^ exponent := by
      calc mantissa * 2 ^ power ≤ 2 ^ 53 * 2 ^ power := Nat.mul_le_mul_right _ (Nat.le_of_lt short)
        _ = 2 ^ 52 * 2 ^ (power + 1) := by ring
        _ ≤ 2 ^ 52 * 2 ^ exponent :=
          Nat.mul_le_mul_left _ (Nat.pow_le_pow_right Nat.two_pos finer)
    omega
  · have multiple : other.natAbs = mantissa * 2 ^ (power - exponent) * 2 ^ exponent := by
      rw [size, Nat.mul_assoc, ← Nat.pow_add, Nat.sub_add_cancel coarser]
    have near := roundQuotient_near n (mantissa * 2 ^ (power - exponent)) (Nat.two_pow_pos exponent)
    omega

theorem rounded_bounds {n exponent : Nat} (nonzero : n ≠ 0) (length : n.log2 = exponent + 52) :
    2 ^ 52 * 2 ^ exponent ≤ n ∧ n < 2 ^ 53 * 2 ^ exponent := by
  have least := Nat.log2_self_le nonzero
  have most : n < 2 ^ (n.log2 + 1) := Nat.lt_log2_self
  rw [length] at least most
  constructor
  · calc 2 ^ 52 * 2 ^ exponent = 2 ^ (exponent + 52) := by ring
      _ ≤ n := least
  · calc n < 2 ^ (exponent + 52 + 1) := most
      _ = 2 ^ 53 * 2 ^ exponent := by ring

/-- A rounded number needs a greater power of two exactly from halfway below it on. -/
theorem halfway_le_iff {n exponent : Nat} (top : Nat) (nonzero : n ≠ 0)
    (length : n.log2 = exponent + 52) :
    (2 ^ 54 - 1) * 2 ^ top ≤ n ↔
      top + 1 < exponent ∨ exponent = top + 1 ∧ roundQuotient n (2 ^ exponent) = 2 ^ 53 := by
  obtain ⟨above, below⟩ := rounded_bounds nonzero length
  rcases Nat.lt_trichotomy exponent (top + 1) with less | rfl | more
  · have power : 2 ^ exponent ≤ 2 ^ top := Nat.pow_le_pow_right Nat.two_pos (by omega)
    omega
  · have carried := roundQuotient_bounds (Nat.two_pow_pos (top + 1)) above below
    have halfway := @le_roundQuotient_iff n (2 ^ top) (2 ^ 53 - 1) (Nat.two_pow_pos top) (by decide)
    have unit : 2 * 2 ^ top = 2 ^ (top + 1) := Nat.pow_succ'.symm
    have bound : 2 * (2 ^ 53 - 1) + 1 = 2 ^ 54 - 1 := rfl
    rw [unit, bound] at halfway
    rw [← halfway]
    omega
  · have power : 2 ^ (top + 2) ≤ 2 ^ exponent := Nat.pow_le_pow_right Nat.two_pos more
    rw [Nat.pow_add] at power
    omega

theorem toInt?_multiple (negative : Bool) (mantissa exponent : Nat) :
    toInt? (.finite negative mantissa exponent) =
      some (if negative then -((mantissa * 2 ^ exponent : Nat) : Int)
        else (mantissa * 2 ^ exponent : Nat)) := by
  rw [toInt?, if_pos (Int.natCast_nonneg exponent), Int.natAbs_natCast]
  rfl

theorem toInt?_scaled (negative : Bool) (n scale : Nat) :
    toInt? (.finite negative (n * 2 ^ scale) (-(scale : Int))) =
      some (if negative then -(n : Int) else n) := by
  cases scale with
  | zero => simpa using toInt?_multiple negative n 0
  | succ power =>
    have exact' : n * 2 ^ (power + 1) % Nat.pow 2 (power + 1) = 0 := Nat.mul_mod_left _ _
    have quotient : n * 2 ^ (power + 1) / Nat.pow 2 (power + 1) = n :=
      Nat.mul_div_cancel _ (Nat.two_pow_pos _)
    rw [toInt?, if_neg (by omega), Int.natAbs_neg, Int.natAbs_natCast]
    simp only [exact', quotient, if_true]

/-- The conversion of a number gives the nearest whole number. -/
theorem ofFraction_nearest (negative : Bool) {n : Nat} (small : n < overflow) :
    ∃ mantissa exponent, ∃ whole : Nat,
      ofFraction negative n 1 = .finite negative mantissa exponent ∧
      toInt? (.finite negative mantissa exponent) =
        some (if negative then -(whole : Int) else whole) ∧
      IsNearest n whole := by
  by_cases zero : n = 0
  · subst zero
    have value := toInt?_scaled negative 0 1074
    rw [Nat.zero_mul] at value
    exact ⟨_, _, 0, rfl, value, isNearest_self (holds_of_small (by decide))⟩
  rcases Nat.lt_or_ge 52 n.log2 with large | short
  · obtain ⟨exponent, positive, length⟩ : ∃ exponent, 0 < exponent ∧ n.log2 = exponent + 52 :=
      ⟨n.log2 - 52, by omega, by omega⟩
    obtain ⟨above, below⟩ := rounded_bounds zero length
    obtain ⟨carries, stays⟩ := ofFraction_large negative zero positive length
    have most := (roundQuotient_bounds (Nat.two_pow_pos exponent) above below).2
    have fits := mt (halfway_le_iff 970 zero length).mpr (Nat.not_le.mpr small)
    by_cases carried : roundQuotient n (2 ^ exponent) = 2 ^ 53
    · have value : 2 ^ 52 * 2 ^ (exponent + 1) = 2 ^ 53 * 2 ^ exponent := by ring
      refine ⟨_, _, _, (carries carried).trans (if_neg (by omega)), toInt?_multiple negative _ _, ?_⟩
      rw [value, ← carried]
      refine isNearest_rounded above ⟨2 ^ 52, exponent + 1, by decide, ?_, ?_⟩
      · rw [greatestExponent]
        omega
      · rw [value, carried]
        rfl
    · refine ⟨_, _, _, (stays carried).trans (if_neg (by omega)), toInt?_multiple negative _ _, ?_⟩
      refine isNearest_rounded above ⟨_, exponent, Nat.lt_of_le_of_ne most carried, ?_, rfl⟩
      rw [greatestExponent]
      omega
  · refine ⟨_, _, n, ofFraction_small negative zero short, toInt?_scaled negative n _, ?_⟩
    refine isNearest_self (holds_of_small ?_)
    rw [Int.natAbs_natCast]
    exact Nat.lt_of_lt_of_le Nat.lt_log2_self (Nat.pow_le_pow_right Nat.two_pos (by omega))

theorem ofFraction_overflow (negative : Bool) {n : Nat} (large : overflow ≤ n) :
    ofFraction negative n 1 = .infinity negative := by
  have many : 52 < n.log2 := by
    by_contra few
    have short : n < 2 ^ 53 :=
      Nat.lt_of_lt_of_le Nat.lt_log2_self (Nat.pow_le_pow_right Nat.two_pos (by omega))
    have power := Nat.two_pow_pos 970
    rw [overflow] at large
    omega
  obtain ⟨exponent, positive, length⟩ : ∃ exponent, 0 < exponent ∧ n.log2 = exponent + 52 :=
    ⟨n.log2 - 52, by omega, by omega⟩
  have nonzero : n ≠ 0 := by
    rintro rfl
    exact absurd many (by decide)
  obtain ⟨carries, stays⟩ := ofFraction_large negative nonzero positive length
  have beyond := (halfway_le_iff 970 nonzero length).mp large
  by_cases carried : roundQuotient n (2 ^ exponent) = 2 ^ 53
  · rw [carries carried, if_pos (by omega)]
  · rw [stays carried, if_pos (by omega)]

theorem ofInt?_nearest {n : Int} (small : n.natAbs < overflow) :
    ∃ double whole, ofInt? n = some double ∧ double.toInt? = some whole ∧ IsNearest n whole := by
  obtain ⟨mantissa, exponent, whole, converted, value, nearest⟩ :=
    ofFraction_nearest (n < 0) small
  refine ⟨_, _, by rw [ofInt?, converted], value, ?_⟩
  by_cases negative : n < 0
  · have sign : n = -(n.natAbs : Int) := by omega
    rw [decide_eq_true negative, if_pos rfl, sign]
    exact nearest.neg
  · have sign : n = (n.natAbs : Int) := by omega
    rw [decide_eq_false negative, if_neg Bool.false_ne_true, sign]
    exact nearest

theorem ofInt?_overflow {n : Int} (large : overflow ≤ n.natAbs) : ofInt? n = none := by
  rw [ofInt?, ofFraction_overflow _ large]

end Bindery.Double
