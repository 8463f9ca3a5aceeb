import Mathlib.Data.Int.Log
import Mathlib.Data.Rat.Floor
import Mathlib.Tactic.Linarith
import Mathlib.Tactic.Positivity

/-!
# Rounding

`roundHalfEven n q` is the multiple of `10 ^ -n` nearest to `q`; a tie goes to the even multiple.
`toDouble q` is the floating-point number with 53 binary digits nearest to `q`, and `pyRound n x` is
Python's `round(x, n)` of such a number.
-/

/-- The integer nearest to `q`, a tie going to the even one. -/
def roundHalfEvenInt (q : ℚ) : Int :=
  if q - ⌊q⌋ < 1 / 2 then ⌊q⌋
  else if 1 / 2 < q - ⌊q⌋ then ⌊q⌋ + 1
  else if ⌊q⌋ % 2 = 0 then ⌊q⌋ else ⌊q⌋ + 1

def roundHalfEven (n : Nat) (q : ℚ) : ℚ := roundHalfEvenInt (q * 10 ^ n) / 10 ^ n

theorem floor_le_roundHalfEvenInt (q : ℚ) : ⌊q⌋ ≤ roundHalfEvenInt q := by
  unfold roundHalfEvenInt
  split_ifs <;> omega

theorem roundHalfEvenInt_le_floor_add_one (q : ℚ) : roundHalfEvenInt q ≤ ⌊q⌋ + 1 := by
  unfold roundHalfEvenInt
  split_ifs <;> omega

theorem roundHalfEvenInt_mono {p q : ℚ} (h : p ≤ q) : roundHalfEvenInt p ≤ roundHalfEvenInt q := by
  rcases (Int.floor_mono h).lt_or_eq with hlt | heq
  · have hp := roundHalfEvenInt_le_floor_add_one p
    have hq := floor_le_roundHalfEvenInt q
    omega
  · -- between the same two integers only the distance to the lower one counts
    unfold roundHalfEvenInt
    rw [heq]
    split_ifs <;> first | omega | linarith

theorem roundHalfEvenInt_intCast (k : Int) : roundHalfEvenInt k = k := by
  simp [roundHalfEvenInt]

theorem roundHalfEven_mono (n : Nat) {p q : ℚ} (h : p ≤ q) :
    roundHalfEven n p ≤ roundHalfEven n q := by
  have hscaled : p * 10 ^ n ≤ q * 10 ^ n := mul_le_mul_of_nonneg_right h (by positivity)
  exact div_le_div_of_nonneg_right (Int.cast_le.mpr (roundHalfEvenInt_mono hscaled)) (by positivity)

/-- A multiple of `10 ^ -n` stays as it is. -/
theorem roundHalfEven_of_scaled {n : Nat} {q : ℚ} {k : Int} (h : q * 10 ^ n = k) :
    roundHalfEven n q = q := by
  rw [roundHalfEven, h, roundHalfEvenInt_intCast, ← h]
  field_simp

theorem roundHalfEven_nonneg (n : Nat) {q : ℚ} (h : 0 ≤ q) : 0 ≤ roundHalfEven n q := by
  have h0 : roundHalfEven n 0 = 0 := roundHalfEven_of_scaled (k := 0) (by simp)
  exact h0 ▸ roundHalfEven_mono n h

theorem roundHalfEven_mem_unit (n : Nat) {q : ℚ} (h : 0 ≤ q ∧ q ≤ 1) :
    0 ≤ roundHalfEven n q ∧ roundHalfEven n q ≤ 1 := by
  have h1 : roundHalfEven n 1 = 1 := roundHalfEven_of_scaled (k := 10 ^ n) (by simp)
  exact ⟨roundHalfEven_nonneg n h.1, h1 ▸ roundHalfEven_mono n h.2⟩

/-! ## Doubles -/

/-- The unit of the last one of the 53 binary digits of `q`. -/
def lastPlace (q : ℚ) : ℚ := 2 ^ (Int.log 2 |q| - 52)

/-- The double nearest to `q`, a tie going to the even one: the value of a division of integers or
of a decimal literal. The exponent has no bounds, so no value is subnormal or infinite. -/
def toDouble (q : ℚ) : ℚ := roundHalfEvenInt (q / lastPlace q) * lastPlace q

/-- `round(x, n)`: the exact value of the double is rounded to a decimal, which is read as a double
again. -/
def pyRound (n : Nat) (x : ℚ) : ℚ := toDouble (roundHalfEven n x)

-- the double below 0.0375 is no tie
example : pyRound 3 (toDouble (3 / 80)) = toDouble (37 / 1000) := by decide +kernel

theorem lastPlace_pos (q : ℚ) : 0 < lastPlace q := zpow_pos two_pos _

theorem toDouble_zero : toDouble 0 = 0 := by
  have h : roundHalfEvenInt 0 = 0 := roundHalfEvenInt_intCast 0
  rw [toDouble, zero_div, h, Int.cast_zero, zero_mul]

theorem toDouble_pos {q : ℚ} (h : 0 < q) : 0 < toDouble q := by
  have hlast : lastPlace q ≤ q := by
    calc lastPlace q
      _ ≤ 2 ^ Int.log 2 |q| := zpow_le_zpow_right₀ one_le_two (by omega)
      _ = 2 ^ Int.log 2 q := by rw [abs_of_pos h]
      _ ≤ q := by exact_mod_cast Int.zpow_log_le_self one_lt_two h
  have hscaled : (1 : ℤ) ≤ roundHalfEvenInt (q / lastPlace q) := by
    rw [← roundHalfEvenInt_intCast 1]
    exact roundHalfEvenInt_mono (by simpa using (one_le_div (lastPlace_pos q)).mpr hlast)
  exact mul_pos (Int.cast_pos.mpr (by omega)) (lastPlace_pos q)

theorem toDouble_nonneg {q : ℚ} (h : 0 ≤ q) : 0 ≤ toDouble q := by
  rcases h.eq_or_lt with rfl | hpos
  · exact toDouble_zero.ge
  · exact (toDouble_pos hpos).le

theorem toDouble_one : toDouble 1 = 1 := by
  decide +kernel

/-- A fraction below one is rounded to at most the next power of two. -/
theorem toDouble_le_one {q : ℚ} (h : 0 ≤ q) (h1 : q ≤ 1) : toDouble q ≤ 1 := by
  rcases h.eq_or_lt with rfl | hpos
  · exact toDouble_zero.trans_le zero_le_one
  rcases h1.eq_or_lt with rfl | hlt
  · exact toDouble_one.le
  set n := Int.log 2 q with hn
  have hplace : lastPlace q = 2 ^ (n - 52) := by rw [lastPlace, abs_of_pos hpos]
  have hneg : n < 0 := by
    by_contra hnonneg
    have hle : (2 : ℚ) ^ n ≤ q := by exact_mod_cast Int.zpow_log_le_self one_lt_two hpos
    exact absurd ((one_le_zpow₀ one_le_two (not_lt.mp hnonneg)).trans hle) (not_le.mpr hlt)
  have hscaled : q / lastPlace q ≤ ((2 ^ 53 : ℤ) : ℚ) := by
    have hbelow : q < 2 ^ (n + 1) := by exact_mod_cast Int.lt_zpow_succ_log_self one_lt_two q
    rw [div_le_iff₀ (lastPlace_pos q), hplace]
    refine hbelow.le.trans_eq ?_
    rw [Int.cast_pow, Int.cast_ofNat, ← zpow_natCast, ← zpow_add₀ two_ne_zero]
    congr 1
    omega
  have hrounded : (roundHalfEvenInt (q / lastPlace q) : ℚ) ≤ 2 ^ (53 : ℤ) := by
    have hmono := roundHalfEvenInt_mono hscaled
    rw [roundHalfEvenInt_intCast] at hmono
    exact_mod_cast hmono
  calc toDouble q
    _ ≤ 2 ^ (53 : ℤ) * lastPlace q := mul_le_mul_of_nonneg_right hrounded (lastPlace_pos q).le
    _ = 2 ^ (n + 1) := by
      rw [hplace, ← zpow_add₀ two_ne_zero]
      congr 1
      omega
    _ ≤ 1 := zpow_le_one_of_nonpos₀ one_le_two (by omega)

theorem toDouble_mem_unit {q : ℚ} (h : 0 ≤ q ∧ q ≤ 1) : 0 ≤ toDouble q ∧ toDouble q ≤ 1 :=
  ⟨toDouble_nonneg h.1, toDouble_le_one h.1 h.2⟩

theorem pyRound_mem_unit (n : Nat) {x : ℚ} (h : 0 ≤ x ∧ x ≤ 1) :
    0 ≤ pyRound n x ∧ pyRound n x ≤ 1 := toDouble_mem_unit (roundHalfEven_mem_unit n h)

theorem pyRound_zero (n : Nat) : pyRound n 0 = 0 := by
  rw [pyRound, roundHalfEven_of_scaled (k := 0) (by simp), toDouble_zero]
