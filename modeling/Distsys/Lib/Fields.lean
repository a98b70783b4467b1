import Mathlib.Data.List.Basic
import Mathlib.Tactic.Common

/-! Texts of fields: what stands before the first and behind the last of a delimiter, and the entries of a file that
    each end in one. -/

namespace Distsys

section Fields
variable {α : Type} [DecidableEq α]

/-- What stands before the first `d`, and what follows it. -/
def cut (d : α) : List α → Option (List α × List α)
  | [] => none
  | c :: s => if c = d then some ([], s) else (cut d s).map fun p => (c :: p.1, p.2)

/-- What stands before the last `d`, and what follows it. -/
def cutLast (d : α) (s : List α) : Option (List α × List α) := (cut d s.reverse).map fun p => (p.2.reverse, p.1.reverse)

/-- The entries that are complete, without the delimiter. -/
def entries (d : α) (s : List α) : List (List α) := (s.splitOn d).dropLast

variable {d : α} {s t : List α}

theorem cut_append (hs : d ∉ s) : cut d (s ++ d :: t) = some (s, t) := by
  induction s with
  | nil => simp [cut]
  | cons c s ih =>
    have hc : c ≠ d := fun h => hs (by simp [h])
    have hrest : cut d (s ++ d :: t) = some (s, t) := ih fun h => hs (List.mem_cons_of_mem _ h)
    simp [cut, hc, hrest]

theorem cutLast_append (ht : d ∉ t) : cutLast d (s ++ d :: t) = some (s, t) := by
  have hrev : (s ++ d :: t).reverse = t.reverse ++ d :: s.reverse := by simp
  rw [cutLast, hrev, cut_append (by simpa using ht)]
  simp

theorem cut_eq_some {u v : List α} (h : cut d s = some (u, v)) : s = u ++ d :: v := by
  induction s generalizing u with
  | nil => cases h
  | cons c s ih =>
    rw [cut] at h
    split at h
    · next hc =>
      cases h
      rw [hc, List.nil_append]
    · obtain ⟨p, hp, heq⟩ := Option.map_eq_some_iff.mp h
      cases heq
      rw [List.cons_append, ← ih hp]

theorem cutLast_eq_some {u v : List α} (h : cutLast d s = some (u, v)) : s = u ++ d :: v := by
  obtain ⟨⟨a, b⟩, hp, heq⟩ := Option.map_eq_some_iff.mp h
  cases heq
  rw [← List.reverse_reverse s, cut_eq_some hp]
  simp

theorem dropPrefix_append (s t : List α) : (s ++ t).dropPrefix? s = some t := List.dropPrefix?_append_of_beq t BEq.rfl

theorem dropSuffix_append (s t : List α) : (s ++ t).dropSuffix? t = some s :=
  List.dropSuffix?_eq_some_iff.mpr ⟨t, rfl, BEq.rfl⟩

theorem entries_append_cons (s t : List α) : entries d (s ++ d :: t) = s.splitOn d ++ entries d t := by
  rw [entries, List.splitOn_append_cons_self, List.dropLast_append_of_ne_nil (List.splitOn_ne_nil d t), entries]

omit [DecidableEq α] in
theorem exists_last (hs : d ∈ s) : ∃ u v, s = u ++ d :: v ∧ d ∉ v := by
  obtain ⟨v, u, hsplit, hv⟩ := List.eq_append_cons_of_mem (List.mem_reverse.mpr hs)
  refine ⟨u.reverse, v.reverse, ?_, by simpa using hv⟩
  rw [← List.reverse_reverse s, hsplit]
  simp

/-- The pieces of a text: those of its first part, the last of which may have the second part behind it. -/
theorem mem_splitOn_append {p : List α} (ht : d ∉ t) (hp : p ∈ (s ++ t).splitOn d) :
    p ∈ s.splitOn d ∨ ∃ f ∈ s.splitOn d, p = f ++ t := by
  by_cases hs : d ∈ s
  · obtain ⟨u, v, rfl, hv⟩ := exists_last hs
    have hvt : d ∉ v ++ t := by simp [hv, ht]
    rw [List.append_assoc, List.cons_append, List.splitOn_append_cons_self, List.splitOn_eq_singleton hvt] at hp
    rw [List.splitOn_append_cons_self, List.splitOn_eq_singleton hv]
    rcases List.mem_append.mp hp with hp | hp
    · exact Or.inl (List.mem_append_left _ hp)
    · exact Or.inr ⟨v, by simp, List.mem_singleton.mp hp⟩
  · have hst : d ∉ s ++ t := by simp [hs, ht]
    rw [List.splitOn_eq_singleton hst] at hp
    rw [List.splitOn_eq_singleton hs]
    exact Or.inr ⟨s, by simp, List.mem_singleton.mp hp⟩

theorem mem_of_mem_splitOn {p : List α} {c : α} (hp : p ∈ s.splitOn d) (hc : c ∈ p) : c ∈ s := by
  induction hn : s.length using Nat.strongRecOn generalizing s with
  | ind n ih =>
    by_cases hs : d ∈ s
    · obtain ⟨u, v, rfl, hu⟩ := List.eq_append_cons_of_mem hs
      rw [List.splitOn_append_cons_self_of_not_mem hu] at hp
      rcases List.mem_cons.mp hp with rfl | hp
      · exact List.mem_append_left _ hc
      · have hv : c ∈ v := ih v.length (by simp [← hn]; omega) hp rfl
        exact List.mem_append_right _ (List.mem_cons_of_mem _ hv)
    · rw [List.splitOn_eq_singleton hs, List.mem_singleton] at hp
      exact hp ▸ hc

theorem length_splitOn (d : α) (s : List α) : (s.splitOn d).length = s.count d + 1 := by
  induction hn : s.length using Nat.strongRecOn generalizing s with
  | ind n ih =>
    by_cases hs : d ∈ s
    · obtain ⟨u, v, rfl, hu⟩ := List.eq_append_cons_of_mem hs
      have hv := ih v.length (by simp [← hn]; omega) v rfl
      rw [List.splitOn_append_cons_self_of_not_mem hu, List.length_cons, hv, List.count_append, List.count_cons_self,
        List.count_eq_zero_of_not_mem hu]
      omega
    · rw [List.splitOn_eq_singleton hs, List.count_eq_zero_of_not_mem hs, List.length_singleton]

/-- There are as many entries as delimiters. -/
theorem length_entries (d : α) (s : List α) : (entries d s).length = s.count d := by
  rw [entries, List.length_dropLast, length_splitOn, Nat.add_sub_cancel]

end Fields

end Distsys
