import Distsys.Lib.Decimal

/-! Reading numbers back: texts of literals with a number behind each, as `printf` writes them, and the
    reading of such a text as `scanf` does it. -/

namespace Distsys

/-- The digits at the start of a text as a number, and what follows them. -/
def scanDigits (s : Bytes) : Option (Nat × Bytes) :=
  if s.takeWhile isdigit = [] then none else some (value (s.takeWhile isdigit), s.dropWhile isdigit)

/-- The number at the start of a text, and what follows it. -/
def scanInt : Bytes → Option (Int × Bytes)
  | 0x2D :: s => (scanDigits s).map fun p => (-(p.1 : Int), p.2)
  | s => (scanDigits s).map fun p => ((p.1 : Int), p.2)

/-- The numbers behind the literals. -/
def scanInts : List Bytes → Bytes → Option (List Int)
  | [], _ => some []
  | literal :: literals, s =>
    if literal.isPrefixOf s then
      (scanInt (s.drop literal.length)).bind fun p => (scanInts literals p.2).map fun zs => p.1 :: zs
    else none

/-- The text does not go on with a digit. -/
def StopsDigits (s : Bytes) : Prop := ∀ c ∈ s.head?, isdigit c = false

instance (s : Bytes) : Decidable (StopsDigits s) := inferInstanceAs (Decidable (∀ c ∈ s.head?, isdigit c = false))

/-- A printed number: a text that is read as its value wherever it stops. -/
structure Numeral where
  text : Bytes
  val : Int
  reads : ∀ {t : Bytes}, StopsDigits t → scanInt (text ++ t) = some (val, t)

/-- The text of literals with a number behind each. -/
def printFields (fields : List (Bytes × Numeral)) : Bytes := fields.flatMap fun f => f.1 ++ f.2.text

section Scan
variable {t w : Bytes} {n : Nat} {z : Int} {fields : List (Bytes × Numeral)}

theorem scanInt_digits (hw : ∀ c ∈ w, isdigit c = true) (hne : w ≠ []) (ht : StopsDigits t) :
    scanDigits (w ++ t) = some (value w, t) ∧ scanInt (w ++ t) = some ((value w : Int), t) := by
  have htake : (w ++ t).takeWhile isdigit = w := takeWhile_digits hw ht
  have hdrop : (w ++ t).dropWhile isdigit = t := by
    have h := List.takeWhile_append_dropWhile (p := isdigit) (l := w ++ t)
    rw [htake] at h
    exact List.append_cancel_left h
  have hscan : scanDigits (w ++ t) = some (value w, t) := by
    unfold scanDigits
    rw [htake, if_neg hne, hdrop]
  refine ⟨hscan, ?_⟩
  obtain ⟨c, u, rfl⟩ := List.exists_cons_of_ne_nil hne
  -- A digit is no sign.
  have hsign : c ≠ 0x2D := ne_of_class (hw c List.mem_cons_self) (by decide)
  rw [List.cons_append] at hscan ⊢
  unfold scanInt
  split
  · next heq => exact absurd (List.cons.inj heq).1 hsign
  · rw [hscan, Option.map_some]

theorem scanInt_decimalInt (ht : StopsDigits t) : scanInt (decimalInt z ++ t) = some (z, t) := by
  have hdecimal (n : Nat) := scanInt_digits (fun _ => isdigit_of_mem_decimal) (decimal_ne_nil n) ht
  unfold decimalInt
  split
  · have habs : -((z.natAbs : Nat) : Int) = z := by omega
    simp only [List.cons_append, scanInt, (hdecimal _).1, Option.map_some, value_decimal, habs]
  · have hnat : ((z.toNat : Nat) : Int) = z := by omega
    rw [(hdecimal _).2, value_decimal, hnat]

theorem scanDigits_eq_some (h : scanDigits w = some (n, t)) :
    ∃ u, w = u ++ t ∧ u ≠ [] ∧ ∀ c ∈ u, isdigit c = true := by
  unfold scanDigits at h
  split at h
  · cases h
  · next hne =>
    cases h
    exact ⟨w.takeWhile isdigit, List.takeWhile_append_dropWhile.symm, hne, List.all_eq_true.mp List.all_takeWhile⟩

/-- What is read as a number: digits, perhaps with a sign. -/
theorem scanInt_eq_some (h : scanInt w = some (z, t)) :
    ∃ sign u, w = sign ++ u ++ t ∧ (sign = [] ∨ sign = [0x2D]) ∧ u ≠ [] ∧ ∀ c ∈ u, isdigit c = true := by
  unfold scanInt at h
  split at h
  · obtain ⟨p, hp, heq⟩ := Option.map_eq_some_iff.mp h
    cases heq
    obtain ⟨u, rfl, hne, hu⟩ := scanDigits_eq_some hp
    exact ⟨[0x2D], u, rfl, Or.inr rfl, hne, hu⟩
  · obtain ⟨p, hp, heq⟩ := Option.map_eq_some_iff.mp h
    cases heq
    obtain ⟨u, rfl, hne, hu⟩ := scanDigits_eq_some hp
    exact ⟨[], u, rfl, Or.inl rfl, hne, hu⟩

/-- A number as `%d` prints it. -/
def Numeral.decimal (z : Int) : Numeral := ⟨decimalInt z, z, scanInt_decimalInt⟩

theorem stopsDigits_printFields (hf : ∀ l ∈ fields.map Prod.fst, l ≠ [] ∧ StopsDigits l) (ht : StopsDigits t) :
    StopsDigits (printFields fields ++ t) := by
  cases fields with
  | nil => exact ht
  | cons f fields =>
    obtain ⟨hne, hstop⟩ := hf f.1 List.mem_cons_self
    obtain ⟨c, u, hc⟩ := List.exists_cons_of_ne_nil hne
    rw [hc] at hstop
    intro d hd
    rw [printFields, List.flatMap_cons, hc] at hd
    exact hstop d hd

/-- The numbers of a text are read back, where no literal, and nothing behind the text, goes on with a digit. -/
theorem scanInts_printFields (ht : StopsDigits t) : ∀ fields : List (Bytes × Numeral),
    (∀ l ∈ fields.map Prod.fst, l ≠ [] ∧ StopsDigits l) →
      scanInts (fields.map Prod.fst) (printFields fields ++ t) = some (fields.map fun f => f.2.val)
  | [], _ => rfl
  | f :: fields, hf => by
    have hrest : ∀ l ∈ fields.map Prod.fst, l ≠ [] ∧ StopsDigits l := fun l hl => hf l (List.mem_cons_of_mem _ hl)
    have ih := scanInts_printFields ht fields hrest
    have hsplit : printFields (f :: fields) ++ t = f.1 ++ (f.2.text ++ (printFields fields ++ t)) := by
      simp [printFields]
    rw [hsplit, List.map_cons, List.map_cons, scanInts, if_pos (by simp), List.drop_left,
      f.2.reads (stopsDigits_printFields hrest ht), Option.bind_some, ih, Option.map_some]

end Scan
end Distsys
