import Mathlib.Data.List.TakeWhile
import Mathlib.Tactic.Common

/-! The tokenizer of the C library. `strtok` keeps a position in the string; each call skips
    delimiters, takes the symbols up to the next one, and leaves the position after that one. The
    position is passed explicitly here, as the rest of the string. -/

namespace Distsys
variable {α : Type}

/-- One call: the token and the rest of the string, or no token when only delimiters are left. -/
def strtok (delim : α → Bool) (s : List α) : Option (List α × List α) :=
  match s.dropWhile delim with
  | [] => none
  | c :: t => some ((c :: t).takeWhile (!delim ·), ((c :: t).dropWhile (!delim ·)).tail)

/-- The tokens of at most `n` calls. -/
def tokensUpTo (delim : α → Bool) : Nat → List α → List (List α)
  | 0, _ => []
  | n + 1, s => match strtok delim s with
    | none => []
    | some (t, rest) => t :: tokensUpTo delim n rest

/-- All tokens of a string: a loop over `strtok` until it finds none. -/
def tokens (delim : α → Bool) (s : List α) : List (List α) := tokensUpTo delim s.length s

section Strtok
variable {delim : α → Bool} {s t w rest : List α} {d : α}

theorem strtok_eq_some (h : strtok delim s = some (t, rest)) :
    t ≠ [] ∧ (∀ c ∈ t, delim c = false) ∧ ∃ lead sep, (∀ c ∈ lead, delim c = true) ∧
      s = lead ++ t ++ sep ∧ rest = sep.tail := by
  unfold strtok at h
  split at h
  · cases h
  · next c u hd =>
    cases h
    have hc : delim c = false := by
      have := List.head?_dropWhile_not delim s
      rw [hd] at this
      simpa using this
    refine ⟨by simp [hc], fun x hx => ?_, s.takeWhile delim,
      (c :: u).dropWhile (!delim ·), fun x hx => List.mem_takeWhile_imp hx, ?_, rfl⟩
    · simpa using List.mem_takeWhile_imp hx
    · rw [List.append_assoc, List.takeWhile_append_dropWhile, ← hd, List.takeWhile_append_dropWhile]

theorem strtok_length (h : strtok delim s = some (t, rest)) : rest.length < s.length := by
  obtain ⟨hne, -, lead, sep, -, rfl, rfl⟩ := strtok_eq_some h
  have := List.length_pos_iff.mpr hne
  simp only [List.length_append, List.length_tail]
  omega

theorem append_cons_inj {u : List α} {e : α} (hu : ∀ c ∈ u, delim c = false) (hw : ∀ c ∈ w, delim c = false)
    (hd : delim d = true) (he : delim e = true) (h : u ++ d :: s = w ++ e :: t) : u = w ∧ d = e ∧ s = t := by
  rcases List.append_eq_append_iff.mp h with ⟨v, rfl, hv⟩ | ⟨v, rfl, hv⟩
  · cases v with
    | nil => simpa using hv
    | cons c v =>
      obtain ⟨rfl, -⟩ := List.cons.inj hv
      simp [hw d (by simp)] at hd
  · cases v with
    | nil => simpa [eq_comm] using hv
    | cons c v =>
      obtain ⟨rfl, -⟩ := List.cons.inj hv
      simp [hu e (by simp)] at he

theorem strtok_append (hw : ∀ c ∈ w, delim c = false) (hne : w ≠ []) (hd : delim d = true) :
    strtok delim (w ++ d :: rest) = some (w, rest) := by
  obtain ⟨c, u, rfl⟩ := List.exists_cons_of_ne_nil hne
  have hc : delim c = false := hw c List.mem_cons_self
  have hneg : ∀ x ∈ c :: u, (!delim x) = true := fun x hx => by simp [hw x hx]
  have hstop : (d :: rest).takeWhile (!delim ·) = [] ∧ (d :: rest).dropWhile (!delim ·) = d :: rest := by
    simp [hd]
  have hdrop : (c :: u ++ d :: rest).dropWhile delim = c :: (u ++ d :: rest) := by simp [hc]
  unfold strtok
  rw [hdrop]
  simp only [← List.cons_append]
  rw [List.takeWhile_append_of_pos hneg, List.dropWhile_append_of_pos hneg, hstop.1, hstop.2]
  simp

/-- The first delimiter ends the token; any other symbol goes on with it. -/
theorem strtok_cases (hw : ∀ c ∈ w, delim c = false) (hne : w ≠ []) (h : strtok delim (w ++ d :: s) = some (t, rest)) :
    delim d = true ∧ t = w ∧ rest = s ∨ delim d = false ∧ ∃ u, t = w ++ d :: u := by
  cases hd : delim d with
  | true =>
    rw [strtok_append hw hne hd] at h
    simp only [Option.some.injEq, Prod.mk.injEq] at h
    exact Or.inl ⟨rfl, h.1.symm, h.2.symm⟩
  | false =>
    obtain ⟨c, u, rfl⟩ := List.exists_cons_of_ne_nil hne
    have hc : delim c = false := hw c List.mem_cons_self
    have hneg : ∀ x ∈ c :: u, (!delim x) = true := fun x hx => by simp [hw x hx]
    have hdrop : (c :: u ++ d :: s).dropWhile delim = c :: (u ++ d :: s) := by simp [hc]
    unfold strtok at h
    rw [hdrop] at h
    simp only [← List.cons_append, Option.some.injEq, Prod.mk.injEq] at h
    rw [List.takeWhile_append_of_pos hneg] at h
    exact Or.inr ⟨rfl, s.takeWhile (!delim ·), by simpa [hd] using h.1.symm⟩

theorem strtok_all (hw : ∀ c ∈ w, delim c = false) (hne : w ≠ []) : strtok delim w = some (w, []) := by
  obtain ⟨c, u, rfl⟩ := List.exists_cons_of_ne_nil hne
  have hc : delim c = false := hw c List.mem_cons_self
  have hneg : ∀ x ∈ c :: u, (!delim x) = true := fun x hx => by simp [hw x hx]
  have hdrop : (c :: u).dropWhile delim = c :: u := by simp [hc]
  unfold strtok
  rw [hdrop]
  have h₁ : (c :: u).takeWhile (fun x => !delim x) = c :: u := List.takeWhile_eq_self_iff.mpr hneg
  have h₂ : (c :: u).dropWhile (fun x => !delim x) = [] := List.dropWhile_eq_nil_iff.mpr hneg
  simp only [h₁, h₂, List.tail_nil]

theorem strtok_cons_delim (hd : delim d = true) : strtok delim (d :: s) = strtok delim s := by
  simp [strtok, hd]

theorem strtok_lead : ∀ {lead : List α}, (∀ c ∈ lead, delim c = true) → strtok delim (lead ++ s) = strtok delim s
  | [], _ => rfl
  | d :: lead, h => by
    rw [List.cons_append, strtok_cons_delim (h d List.mem_cons_self)]
    exact strtok_lead fun c hc => h c (List.mem_cons_of_mem _ hc)

theorem tokensUpTo_stable : ∀ {n m : Nat} {s : List α}, s.length ≤ n → s.length ≤ m →
    tokensUpTo delim n s = tokensUpTo delim m s := by
  -- A string of length 0 has no token, so a missing call is one that finds none.
  have none_nil : ∀ m, tokensUpTo delim m ([] : List α) = [] := fun m => by
    cases m <;> simp [tokensUpTo, strtok]
  intro n
  induction n with
  | zero =>
    intro m s hn _
    obtain rfl := List.length_eq_zero_iff.mp (Nat.le_zero.mp hn)
    rw [none_nil, none_nil]
  | succ n ih =>
    intro m s hn hm
    cases m with
    | zero =>
      obtain rfl := List.length_eq_zero_iff.mp (Nat.le_zero.mp hm)
      rw [none_nil, none_nil]
    | succ m =>
      unfold tokensUpTo
      cases h : strtok delim s with
      | none => rfl
      | some p =>
        have : p.2.length < s.length := strtok_length h
        simp only [ih (m := m) (s := p.2) (by omega) (by omega)]

theorem tokens_eq : tokens delim s = match strtok delim s with
    | none => []
    | some (t, rest) => t :: tokens delim rest := by
  unfold tokens
  cases h : strtok delim s with
  | none =>
    cases hs : s.length with
    | zero => rfl
    | succ n => simp [tokensUpTo, h]
  | some p =>
    have hlt : p.2.length < s.length := strtok_length h
    obtain ⟨n, hn⟩ : ∃ n, s.length = n + 1 := ⟨s.length - 1, by omega⟩
    rw [hn]
    simp only [tokensUpTo, h]
    rw [tokensUpTo_stable (n := n) (m := p.2.length) (by omega) (Nat.le_refl _)]

theorem infix_of_mem_tokens : ∀ {n : Nat} {s : List α}, t ∈ tokensUpTo delim n s → t <:+: s
  | n + 1, s, h => by
    unfold tokensUpTo at h
    split at h
    · simp at h
    · next u rest hs =>
      obtain ⟨-, -, lead, sep, -, rfl, rfl⟩ := strtok_eq_some hs
      rcases List.mem_cons.mp h with rfl | h
      · exact ⟨lead, sep, rfl⟩
      · exact (infix_of_mem_tokens h).trans ((List.tail_suffix sep).trans (List.suffix_append _ _)).isInfix

theorem tokens_nil : tokens delim ([] : List α) = [] := rfl

theorem tokens_cons_delim (hd : delim d = true) : tokens delim (d :: s) = tokens delim s := by
  rw [tokens_eq, strtok_cons_delim hd, ← tokens_eq]

theorem tokens_line (hw : ∀ c ∈ w, delim c = false) (hd : delim d = true) :
    tokens delim (w ++ d :: rest) = if w = [] then tokens delim rest else w :: tokens delim rest := by
  by_cases hne : w = []
  · subst hne
    rw [List.nil_append, tokens_cons_delim hd]
    simp
  · rw [tokens_eq, strtok_append hw hne hd]
    simp [hne]

theorem tokens_all (hw : ∀ c ∈ w, delim c = false) : tokens delim w = if w = [] then [] else [w] := by
  by_cases hne : w = []
  · subst hne
    simp [tokens_nil]
  · rw [tokens_eq, strtok_all hw hne]
    simp [hne, tokens_nil]

theorem exists_line (delim : α → Bool) (s : List α) : (∀ c ∈ s, delim c = false) ∨
    ∃ w d rest, s = w ++ d :: rest ∧ (∀ c ∈ w, delim c = false) ∧ delim d = true := by
  have hw : ∀ c ∈ s.takeWhile (!delim ·), delim c = false := fun c hc => by
    simpa using List.mem_takeWhile_imp hc
  cases hd : s.dropWhile (!delim ·) with
  | nil =>
    left
    rw [← List.takeWhile_append_dropWhile (p := (!delim ·)) (l := s), hd, List.append_nil]
    exact hw
  | cons d rest =>
    right
    refine ⟨s.takeWhile (!delim ·), d, rest, ?_, hw, ?_⟩
    · rw [← hd, List.takeWhile_append_dropWhile]
    · have := List.head?_dropWhile_not (!delim ·) s
      rw [hd] at this
      simpa using this

theorem tokens_append (hd : delim d = true) : tokens delim (s ++ d :: rest) = tokens delim s ++ tokens delim rest := by
  induction hn : s.length using Nat.strongRecOn generalizing s with
  | ind n ih =>
    rcases exists_line delim s with hs | ⟨w, e, t, rfl, hw, he⟩
    · rw [tokens_line hs hd, tokens_all hs]
      split <;> simp
    · have ih := ih t.length (by subst hn; simp; omega) (s := t) rfl
      rw [List.append_assoc, List.cons_append, tokens_line hw he, tokens_line hw he, ih]
      split <;> simp

theorem strtok_end (h : strtok delim s = some (t, rest)) : ∃ lead, (∀ c ∈ lead, delim c = true) ∧
    (rest = [] ∧ s = lead ++ t ∨ ∃ d, delim d = true ∧ s = lead ++ (t ++ d :: rest)) := by
  obtain ⟨ht, hw, lead, sep, hlead, rfl, rfl⟩ := strtok_eq_some h
  refine ⟨lead, hlead, ?_⟩
  cases sep with
  | nil => exact Or.inl ⟨rfl, List.append_nil _⟩
  | cons d sep =>
    rw [List.append_assoc, strtok_lead hlead, List.tail_cons] at h
    rcases strtok_cases hw ht h with ⟨hd, -⟩ | ⟨-, v, hv⟩
    · exact Or.inr ⟨d, hd, List.append_assoc ..⟩
    · exact absurd (congrArg List.length hv) (by simp)

theorem strtok_append_right (u : List α) (h : strtok delim s = some (t, rest)) (hne : rest ≠ []) :
    strtok delim (s ++ u) = some (t, rest ++ u) := by
  obtain ⟨ht, hw, -⟩ := strtok_eq_some h
  obtain ⟨lead, hlead, ⟨hnil, -⟩ | ⟨d, hd, rfl⟩⟩ := strtok_end h
  · exact absurd hnil hne
  · rw [List.append_assoc, List.append_assoc, strtok_lead hlead, List.cons_append, strtok_append hw ht hd]

/-- What follows the delimiter behind a token does not matter to the token. -/
theorem strtok_split (h : strtok delim s = some (t, rest)) (hne : rest ≠ []) : ∃ lead d, delim d = true ∧
    s = lead ++ d :: rest ∧ ∀ u, strtok delim (lead ++ d :: u) = some (t, u) := by
  obtain ⟨ht, hw, -⟩ := strtok_eq_some h
  obtain ⟨lead, hlead, ⟨hnil, -⟩ | ⟨d, hd, rfl⟩⟩ := strtok_end h
  · exact absurd hnil hne
  · refine ⟨lead ++ t, d, hd, (List.append_assoc ..).symm, fun u => ?_⟩
    rw [List.append_assoc, strtok_lead hlead, strtok_append hw ht hd]

theorem getLast?_of_strtok (h : strtok delim s = some (t, rest)) (hne : rest ≠ []) : rest.getLast? = s.getLast? := by
  obtain ⟨-, -, lead, sep, -, rfl, rfl⟩ := strtok_eq_some h
  cases sep with
  | nil => exact absurd rfl hne
  | cons d sep =>
    rw [List.tail_cons] at hne ⊢
    rw [List.getLast?_append, List.getLast?_cons_of_ne_nil hne, List.getLast?_eq_some_getLast hne, Option.some_or]

end Strtok

end Distsys
