import Distsys.Lib.Bytes
import Mathlib.Data.Nat.Digits.Defs
import Mathlib.Data.Nat.Digits.Lemmas
import Mathlib.Tactic.IntervalCases
import Mathlib.Tactic.Ring

/-! Decimal numbers in texts: how `printf` writes one, the value that a run of digits has, and the
    32-bit `int` that C arithmetic leaves of a number. -/

namespace Distsys

/-- The `int` that is left of a number: its residue modulo 2 ^ 32, from -2 ^ 31 on. -/
def wrap32 (z : Int) : Int := z.bmod (2 ^ 32)

def INT_MAX : Nat := 2 ^ 31 - 1

def digitValue (c : UInt8) : Nat := (c - 0x30).toNat

/-- The value of a run of digits. -/
def value (w : Bytes) : Nat := w.foldl (fun v c => 10 * v + digitValue c) 0

/-- A natural number as `%d` prints it. -/
def decimal (n : Nat) : Bytes := if n = 0 then [0x30] else (Nat.digits 10 n).reverse.map fun d => 0x30 + d.toUInt8

/-- An integer as `%d` and `%lld` print it. -/
def decimalInt (z : Int) : Bytes := if z < 0 then 0x2D :: decimal z.natAbs else decimal z.toNat

/-! ### 32-bit numbers -/

theorem wrap32_of_mem {z : Int} (h₁ : -2 ^ 31 ≤ z) (h₂ : z < 2 ^ 31) : wrap32 z = z :=
  Int.bmod_eq_of_le (by omega) (by omega)

theorem wrap32_natCast {n : Nat} (h : n ≤ INT_MAX) : wrap32 n = n :=
  wrap32_of_mem (by omega) (by unfold INT_MAX at h; omega)

theorem wrap32_pred {n : Nat} (h : 1 ≤ n) (hn : n ≤ INT_MAX) : wrap32 ((n : Int) - 1) = (n - 1 : Nat) := by
  have hpred : (n : Int) - 1 = (n - 1 : Nat) := by omega
  rw [hpred, wrap32_natCast (by omega)]

theorem wrap32_add_wrap32 (a b : Int) : wrap32 (wrap32 a + b) = wrap32 (a + b) := Int.bmod_add_bmod

theorem wrap32_mul_wrap32 (a b : Int) : wrap32 (a * wrap32 b) = wrap32 (a * b) := Int.mul_bmod_bmod

/-! ### The value of digits -/

section Value
variable {u w : Bytes} {c : UInt8} {n m k : Nat}

theorem digitValue_le (h : isdigit c = true) : digitValue c ≤ 9 := by
  simp only [isdigit, Bool.and_eq_true, decide_eq_true_eq, UInt8.le_iff_toNat_le, UInt8.reduceToNat] at h
  unfold digitValue
  have hle : (0x30 : UInt8) ≤ c := by simpa [UInt8.le_iff_toNat_le] using h.1
  rw [UInt8.toNat_sub_of_le _ _ hle]
  simp only [UInt8.reduceToNat]
  omega

theorem foldl_value (v : Nat) : w.foldl (fun v c => 10 * v + digitValue c) v = v * 10 ^ w.length + value w := by
  induction w generalizing v with
  | nil => simp [value]
  | cons c w ih =>
    unfold value
    simp only [List.foldl_cons, List.length_cons]
    rw [ih, ih (10 * 0 + digitValue c)]
    ring

theorem value_append : value (u ++ w) = value u * 10 ^ w.length + value w := by
  conv_lhs => unfold value
  rw [List.foldl_append, foldl_value]
  rfl

theorem value_singleton : value [c] = digitValue c := by simp [value]

theorem value_lt (hw : ∀ c ∈ w, isdigit c = true) : value w < 10 ^ w.length := by
  induction w with
  | nil => simp [value]
  | cons c w ih =>
    have h₁ := ih fun x hx => hw x (List.mem_cons_of_mem _ hx)
    have h₂ := digitValue_le (hw c List.mem_cons_self)
    have h₃ : value (c :: w) = digitValue c * 10 ^ w.length + value w := by
      rw [← List.singleton_append, value_append, value_singleton]
    have h₄ : digitValue c * 10 ^ w.length ≤ 9 * 10 ^ w.length := Nat.mul_le_mul_right _ h₂
    rw [h₃, List.length_cons, Nat.pow_succ]
    omega

theorem takeWhile_digits {t : Bytes} (hw : ∀ c ∈ w, isdigit c = true) (ht : ∀ c ∈ t.head?, isdigit c = false) :
    (w ++ t).takeWhile isdigit = w := by
  have hstop : t.takeWhile isdigit = [] := by
    cases t with
    | nil => rfl
    | cons d t => simp [ht d (by simp)]
  rw [List.takeWhile_append_of_pos hw, hstop, List.append_nil]

/-! ### Printed numbers -/

theorem digit_of_lt {d : Nat} (hd : d < 10) : isdigit (0x30 + d.toUInt8) = true ∧
    digitValue (0x30 + d.toUInt8) = d := by
  interval_cases d <;> decide

theorem isdigit_of_mem_decimal (h : c ∈ decimal n) : isdigit c = true := by
  unfold decimal at h
  split at h
  · obtain rfl := List.mem_singleton.mp h
    decide
  · obtain ⟨d, hd, rfl⟩ := List.mem_map.mp h
    exact (digit_of_lt (Nat.digits_lt_base (by omega) (List.mem_reverse.mp hd))).1

theorem decimal_ne_nil (n : Nat) : decimal n ≠ [] := by
  unfold decimal
  split
  · simp
  · next h => simpa [Nat.digits_ne_nil_iff_ne_zero] using h

theorem value_map_digits : ∀ {l : List Nat}, (∀ d ∈ l, d < 10) →
    value (l.reverse.map fun d => 0x30 + d.toUInt8) = Nat.ofDigits 10 l
  | [], _ => rfl
  | d :: l, h => by
    have ih := value_map_digits fun x hx => h x (List.mem_cons_of_mem _ hx)
    rw [List.reverse_cons, List.map_append, value_append, ih, Nat.ofDigits_cons]
    simp [value_singleton, (digit_of_lt (h d List.mem_cons_self)).2]
    ring

theorem value_decimal (n : Nat) : value (decimal n) = n := by
  unfold decimal
  split
  · next h => simp [h, value, digitValue]
  · rw [value_map_digits fun d hd => Nat.digits_lt_base (by omega) hd, Nat.ofDigits_digits]

theorem decimal_inj : decimal n = decimal m ↔ n = m :=
  ⟨fun h => by rw [← value_decimal n, h, value_decimal], fun h => h ▸ rfl⟩

theorem length_decimal_le (hk : 0 < k) : (decimal n).length ≤ k ↔ n < 10 ^ k := by
  unfold decimal
  split
  · next h => simp [h]; omega
  · rw [List.length_map, List.length_reverse]
    exact Nat.digits_length_le_iff (by omega) n

theorem value_take_decimal (hk : 0 < k) : value ((decimal n).take k) = n ↔ n < 10 ^ k := by
  constructor
  · intro h
    rw [← h]
    refine Nat.lt_of_lt_of_le (value_lt fun c hc => isdigit_of_mem_decimal (List.mem_of_mem_take hc)) ?_
    exact Nat.pow_le_pow_right (by omega) (List.length_take_le _ _)
  · intro h
    rw [List.take_of_length_le ((length_decimal_le hk).mpr h), value_decimal]

theorem decimalInt_natCast : decimalInt n = decimal n := by
  simp [decimalInt]

theorem length_decimalInt_natCast (hk : 0 < k) : (decimalInt n).length ≤ k ↔ n < 10 ^ k := by
  rw [decimalInt_natCast, length_decimal_le hk]

end Value

end Distsys
