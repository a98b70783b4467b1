import Mathlib.Data.Nat.Find
import Mathlib.Tactic.Common

/-! Systems that take step after step: several parties and the kernel under them, in any order that the
    actions allow. A property of every run is an invariant: it holds at the start, and each action keeps
    it. -/

namespace Distsys

/-- The start, the actions that a state allows, and the state after an action. -/
structure System (σ α : Type) where
  init : σ
  enabled : σ → α → Prop
  next : σ → α → σ

namespace System
variable {σ α : Type}

/-- The states at the end of the runs all of whose steps meet a condition. -/
inductive ReachesBy (S : System σ α) (ok : σ → α → Prop) : σ → Prop
  | init : ReachesBy S ok S.init
  | step {s : σ} {a : α} : ReachesBy S ok s → S.enabled s a → ok s a → ReachesBy S ok (S.next s a)

/-- The states at the end of all runs. -/
def Reaches (S : System σ α) (s : σ) : Prop := S.ReachesBy (fun _ _ => True) s

/-- The actions can be taken one after the other, and meet the condition. -/
def Allows (S : System σ α) (ok : σ → α → Prop) : σ → List α → Prop
  | _, [] => True
  | s, a :: as => S.enabled s a ∧ ok s a ∧ S.Allows ok (S.next s a) as

instance decidableAllows (S : System σ α) (ok : σ → α → Prop) [∀ s a, Decidable (S.enabled s a)]
    [∀ s a, Decidable (ok s a)] : ∀ s as, Decidable (S.Allows ok s as)
  | _, [] => .isTrue trivial
  | s, a :: as =>
    have := decidableAllows S ok (S.next s a) as
    inferInstanceAs (Decidable (S.enabled s a ∧ ok s a ∧ S.Allows ok (S.next s a) as))

/-- The state after the actions. -/
def after (S : System σ α) (as : List α) : σ := as.foldl S.next S.init

section Runs
variable {S : System σ α} {ok : σ → α → Prop} {P : σ → Prop} {s : σ}

/-- The rule of invariants, for runs under a condition. -/
theorem ReachesBy.invariant (start : P S.init) (step : ∀ s a, P s → S.enabled s a → ok s a → P (S.next s a))
    (h : S.ReachesBy ok s) : P s := by
  induction h with
  | init => exact start
  | step _ he ho ih => exact step _ _ ih he ho

theorem Reaches.invariant (start : P S.init) (step : ∀ s a, P s → S.enabled s a → P (S.next s a)) (h : S.Reaches s) :
    P s :=
  ReachesBy.invariant start (fun s a hs he _ => step s a hs he) h

theorem reachesBy_foldl : ∀ (as : List α) {s : σ}, S.ReachesBy ok s → S.Allows ok s as →
    S.ReachesBy ok (as.foldl S.next s)
  | [], _, h, _ => h
  | _ :: as, _, h, ha => reachesBy_foldl as (h.step ha.1 ha.2.1) ha.2.2

theorem reachesBy_after {as : List α} (h : S.Allows ok S.init as) : S.ReachesBy ok (S.after as) :=
  reachesBy_foldl as .init h

theorem allows_append : ∀ {as bs : List α} {s : σ}, S.Allows ok s (as ++ bs) ↔
    S.Allows ok s as ∧ S.Allows ok (as.foldl S.next s) bs
  | [], _, _ => ⟨fun h => ⟨trivial, h⟩, fun h => h.2⟩
  | a :: as, bs, s => by
    show _ ∧ _ ∧ S.Allows ok (S.next s a) (as ++ bs) ↔ (_ ∧ _ ∧ _) ∧ _
    rw [allows_append, and_assoc, and_assoc]
    rfl

theorem after_concat {as : List α} {a : α} : S.after (as ++ [a]) = S.next (S.after as) a := by
  unfold after
  rw [List.foldl_append]
  rfl

/-- The rule of invariants that also say something about the actions taken so far. -/
theorem foldl_invariant {Q : σ → List α → Prop}
    (step : ∀ s taken a, Q s taken → S.enabled s a → ok s a → Q (S.next s a) (taken ++ [a])) :
    ∀ (as : List α) {s : σ} {taken : List α}, Q s taken → S.Allows ok s as → Q (as.foldl S.next s) (taken ++ as)
  | [], _, taken, hq, _ => by rwa [List.append_nil]
  | a :: as, s, taken, hq, ha => by
    have h := foldl_invariant step as (step s taken a hq ha.1 ha.2.1) ha.2.2
    rwa [List.append_assoc] at h

theorem after_invariant {Q : σ → List α → Prop} (start : Q S.init [])
    (step : ∀ s taken a, Q s taken → S.enabled s a → ok s a → Q (S.next s a) (taken ++ [a])) {as : List α}
    (h : S.Allows ok S.init as) : Q (S.after as) as := foldl_invariant step as start h

/-- The rule for what no action of a run does from some state on. -/
theorem Allows.forall_mem {C : α → Prop} (step : ∀ s a, P s → S.enabled s a → ok s a → C a ∧ P (S.next s a)) :
    ∀ {as : List α} {s : σ}, P s → S.Allows ok s as → ∀ a ∈ as, C a
  | [], _, _, _ => nofun
  | a :: as, s, hs, ⟨he, ho, hrest⟩ => by
    obtain ⟨ha, hnext⟩ := step s a hs he ho
    intro b hb
    rcases List.mem_cons.mp hb with rfl | hb
    · exact ha
    · exact Allows.forall_mem step hnext hrest b hb

end Runs

/-! ### Runs without an end -/

/-- The state after the first `n` of endlessly many actions. -/
def stateAt (S : System σ α) (f : ℕ → α) : ℕ → σ
  | 0 => S.init
  | n + 1 => S.next (S.stateAt f n) (f n)

/-- No run under the condition goes on for ever. -/
def Terminates (S : System σ α) (ok : σ → α → Prop) : Prop :=
  ∀ f : ℕ → α, ∃ n, ¬(S.enabled (S.stateAt f n) (f n) ∧ ok (S.stateAt f n) (f n))

section Endless
variable {S : System σ α} {ok : σ → α → Prop} {P : σ → Prop}

theorem after_range (f : ℕ → α) : ∀ n, S.after ((List.range n).map f) = S.stateAt f n
  | 0 => rfl
  | n + 1 => by
    rw [List.range_succ, List.map_append, List.map_singleton, after_concat, after_range f n]
    rfl

theorem allows_range {f : ℕ → α} {n : ℕ} (h : ∀ m < n, S.enabled (S.stateAt f m) (f m) ∧ ok (S.stateAt f m) (f m)) :
    S.Allows ok S.init ((List.range n).map f) := by
  induction n with
  | zero => trivial
  | succ n ih =>
    have hlast := h n (Nat.lt_succ_self n)
    rw [List.range_succ, List.map_append, List.map_singleton, allows_append]
    refine ⟨ih fun m hm => h m (Nat.lt_succ_of_lt hm), ?_⟩
    show S.Allows ok (S.after ((List.range n).map f)) [f n]
    rw [after_range]
    exact ⟨hlast.1, hlast.2, trivial⟩

/-- An endless sequence of actions is a run up to the first that does not go on. -/
theorem Terminates.exists_end (h : S.Terminates ok) (f : ℕ → α) : ∃ n, S.Allows ok S.init ((List.range n).map f) ∧
    ¬(S.enabled (S.stateAt f n) (f n) ∧ ok (S.stateAt f n) (f n)) := by
  classical
  exact ⟨Nat.find (h f), allows_range fun m hm => not_not.mp (Nat.find_min (h f) hm), Nat.find_spec (h f)⟩

/-- A measure that goes down with every action, as long as an invariant holds. -/
theorem terminates_of_measure (m : σ → ℕ) (start : P S.init)
    (step : ∀ s a, P s → S.enabled s a → ok s a → P (S.next s a) ∧ m (S.next s a) < m s) : S.Terminates ok := by
  intro f
  by_contra hno
  have hrun : ∀ n, P (S.stateAt f n) ∧ m (S.stateAt f n) + n ≤ m S.init := by
    intro n
    induction n with
    | zero => exact ⟨start, Nat.le_refl _⟩
    | succ n ih =>
      have hn : S.enabled (S.stateAt f n) (f n) ∧ ok (S.stateAt f n) (f n) := by
        by_contra hn
        exact hno ⟨n, hn⟩
      obtain ⟨hp, hlt⟩ := step _ _ ih.1 hn.1 hn.2
      refine ⟨hp, ?_⟩
      show m (S.next (S.stateAt f n) (f n)) + (n + 1) ≤ m S.init
      have hle := ih.2
      omega
  have hle := (hrun (m S.init + 1)).2
  omega

/-- One action that is always possible again goes on for ever. -/
theorem not_terminates (a : α) (start : P S.init)
    (step : ∀ s, P s → S.enabled s a ∧ ok s a ∧ P (S.next s a)) : ¬S.Terminates ok := by
  intro h
  obtain ⟨n, hn⟩ := h fun _ => a
  have hrun : ∀ n, P (S.stateAt (fun _ => a) n) := by
    intro n
    induction n with
    | zero => exact start
    | succ n ih => exact (step _ ih).2.2
  obtain ⟨he, ho, -⟩ := step _ (hrun n)
  exact hn ⟨he, ho⟩

end Endless

/-! ### Goals that every run comes to -/

/-- Whatever actions of a kind are taken, and however they turn out: none of them is ruled out, and the goal
    is reached after finitely many. -/
inductive Leads (S : System σ α) (kind : α → Prop) (safe : α → Prop) (goal : σ → Prop) : σ → Prop
  | here {s : σ} : goal s → Leads S kind safe goal s
  | step {s : σ} : (∃ a, kind a ∧ S.enabled s a) → (∀ a, kind a → S.enabled s a → safe a) →
    (∀ a, kind a → S.enabled s a → Leads S kind safe goal (S.next s a)) → Leads S kind safe goal s

/-- The rule for `Leads`: a measure that goes down until the goal is reached. -/
theorem Leads.of_measure {S : System σ α} {kind safe : α → Prop} {goal P : σ → Prop} (m : σ → ℕ)
    (possible : ∀ s, P s → goal s ∨ ∃ a, kind a ∧ S.enabled s a)
    (step : ∀ s a, P s → ¬goal s → kind a → S.enabled s a → safe a ∧ P (S.next s a) ∧ m (S.next s a) < m s) :
    ∀ {s : σ}, P s → S.Leads kind safe goal s := by
  intro s
  induction hm : m s using Nat.strongRecOn generalizing s with
  | ind n ih =>
    intro hs
    by_cases hg : goal s
    · exact .here hg
    · refine .step ((possible s hs).resolve_left hg) (fun a hk he => (step s a hs hg hk he).1) fun a hk he => ?_
      obtain ⟨-, hp, hlt⟩ := step s a hs hg hk he
      exact ih _ (hm ▸ hlt) rfl hp

/-! ### Views

A system seen from another one: each step is an action there, or it does not show. -/

section View
variable {τ β : Type} {S : System σ α} {T : System τ β}

end View

end System

end Distsys
