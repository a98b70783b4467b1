import Mathlib.Computability.Language

/-! Regular expressions with line anchors, searched the way POSIX asks for: the match that begins
    leftmost, and among those the longest. `Matches` is the meaning, `run` the matcher that computes
    it, and `lang` the language of an expression without anchors. -/

namespace Distsys

/-- A regular expression over the symbols of `α`. -/
inductive Regex (α : Type) where
  | eps
  /-- One symbol of a set: a literal, a class or a bracket expression. -/
  | set (p : α → Bool)
  /-- `^` -/
  | bol
  /-- `$` -/
  | eol
  | cat (r s : Regex α)
  | alt (r s : Regex α)
  | star (r : Regex α)

namespace Regex
variable {α : Type}

def text [DecidableEq α] : List α → Regex α
  | [] => eps
  | c :: w => cat (set (· == c)) (text w)

def plus (r : Regex α) : Regex α := cat r (star r)

def opt (r : Regex α) : Regex α := alt r eps

def any : List (Regex α) → Regex α
  | [] => set fun _ => false
  | r :: rs => alt r (any rs)

/-- A position in a subject: the symbols before it, last first, and the symbols after it. -/
structure Cursor (α : Type) where
  before : List α
  after : List α
  deriving DecidableEq

/-- The symbols `w` lie between two positions. -/
def Spans (k : Cursor α) (w : List α) (k' : Cursor α) : Prop :=
  k.after = w ++ k'.after ∧ k'.before = w.reverse ++ k.before

/-- A line begins at the position; `nl` tells which symbols end a line. -/
def atLineStart (nl : α → Bool) (k : Cursor α) : Bool := k.before.head?.all nl

def atLineEnd (nl : α → Bool) (k : Cursor α) : Bool := k.after.head?.all nl

/-- An expression matches from one position to another. -/
inductive Matches (nl : α → Bool) : Regex α → Cursor α → Cursor α → Prop where
  | eps {k} : Matches nl .eps k k
  | set {p c b a} (h : p c = true) : Matches nl (.set p) ⟨b, c :: a⟩ ⟨c :: b, a⟩
  | bol {k} (h : atLineStart nl k = true) : Matches nl .bol k k
  | eol {k} (h : atLineEnd nl k = true) : Matches nl .eol k k
  | cat {r s k m k'} (h₁ : Matches nl r k m) (h₂ : Matches nl s m k') : Matches nl (.cat r s) k k'
  | left {r s k k'} (h : Matches nl r k k') : Matches nl (.alt r s) k k'
  | right {r s k k'} (h : Matches nl s k k') : Matches nl (.alt r s) k k'
  | done {r k} : Matches nl (.star r) k k
  | more {r k m k'} (h₁ : Matches nl r k m) (hlt : m.after.length < k.after.length)
      (h₂ : Matches nl (.star r) m k') : Matches nl (.star r) k k'

section Matches
variable {nl : α → Bool} {r s : Regex α} {k k' : Cursor α}

theorem matches_cat : Matches nl (.cat r s) k k' ↔ ∃ m, Matches nl r k m ∧ Matches nl s m k' :=
  ⟨fun h => by cases h; exact ⟨_, by assumption, by assumption⟩, fun ⟨_, h₁, h₂⟩ => .cat h₁ h₂⟩

theorem matches_bol : Matches nl .bol k k' ↔ k' = k ∧ atLineStart nl k = true :=
  ⟨fun h => by cases h; exact ⟨rfl, by assumption⟩, by rintro ⟨rfl, h⟩; exact .bol h⟩

theorem matches_eol : Matches nl .eol k k' ↔ k' = k ∧ atLineEnd nl k = true :=
  ⟨fun h => by cases h; exact ⟨rfl, by assumption⟩, by rintro ⟨rfl, h⟩; exact .eol h⟩

end Matches

/-! ### The matcher -/

/-- The positions that `n` rounds of `f` can reach, when every round moves on. -/
def rounds (f : Cursor α → List (Cursor α)) : Nat → Cursor α → List (Cursor α)
  | 0, k => [k]
  | n + 1, k => k :: ((f k).filter (·.after.length < k.after.length)).flatMap (rounds f n)

/-- Every position at which a match from `k` can end. -/
def run (nl : α → Bool) : Regex α → Cursor α → List (Cursor α)
  | eps, k => [k]
  | set p, k => match k.after with
    | c :: a => if p c then [⟨c :: k.before, a⟩] else []
    | [] => []
  | bol, k => if atLineStart nl k then [k] else []
  | eol, k => if atLineEnd nl k then [k] else []
  | cat r s, k => (run nl r k).flatMap (run nl s)
  | alt r s, k => run nl r k ++ run nl s k
  | star r, k => rounds (run nl r) k.after.length k

section Run
variable {nl : α → Bool} {r s : Regex α} {k k' : Cursor α}

theorem rounds_sound (ih : ∀ k k', k' ∈ run nl r k → Matches nl r k k') :
    ∀ n k, k' ∈ rounds (run nl r) n k → Matches nl (.star r) k k'
  | 0, k, h => by
    obtain rfl := List.mem_singleton.mp h
    exact .done
  | n + 1, k, h => by
    rcases List.mem_cons.mp h with rfl | h
    · exact .done
    · obtain ⟨m, hm, hk⟩ := List.mem_flatMap.mp h
      obtain ⟨hm, hlt⟩ := List.mem_filter.mp hm
      exact .more (ih _ _ hm) (by simpa using hlt) (rounds_sound ih n m hk)

theorem rounds_mono (f : Cursor α → List (Cursor α)) :
    ∀ n k, k' ∈ rounds f n k → k' ∈ rounds f (n + 1) k
  | 0, k, h => by
    obtain rfl := List.mem_singleton.mp h
    exact List.mem_cons_self
  | n + 1, k, h => by
    rcases List.mem_cons.mp h with rfl | h
    · exact List.mem_cons_self
    · obtain ⟨m, hm, hk⟩ := List.mem_flatMap.mp h
      exact List.mem_cons_of_mem _ (List.mem_flatMap.mpr ⟨m, hm, rounds_mono f n m hk⟩)

theorem mem_run_of_matches (h : Matches nl r k k') : k' ∈ run nl r k := by
  induction h with
  | eps => simp [run]
  | set h => simp [run, h]
  | bol h => simp [run, h]
  | eol h => simp [run, h]
  | cat _ _ ih₁ ih₂ => exact List.mem_flatMap.mpr ⟨_, ih₁, ih₂⟩
  | left _ ih => exact List.mem_append_left _ ih
  | right _ ih => exact List.mem_append_right _ ih
  | @done r k =>
    unfold run
    cases k.after.length <;> simp [rounds]
  | @more r k m k' _ hlt _ ih₁ ih₂ =>
    -- A round that moves on leaves enough rounds for the symbols that remain.
    have enough : ∀ n, m.after.length ≤ n → k' ∈ rounds (run nl r) n m := fun n hn => by
      induction n, hn using Nat.le_induction with
      | base => exact ih₂
      | succ n _ ih => exact rounds_mono _ _ _ ih
    obtain ⟨n, hn⟩ : ∃ n, k.after.length = n + 1 := ⟨k.after.length - 1, by omega⟩
    unfold run
    rw [hn]
    refine List.mem_cons_of_mem _ (List.mem_flatMap.mpr ⟨m, ?_, enough n (by omega)⟩)
    exact List.mem_filter.mpr ⟨ih₁, by simpa using hlt⟩

theorem matches_of_mem_run : ∀ {r : Regex α} {k k' : Cursor α}, k' ∈ run nl r k → Matches nl r k k'
  | eps, k, k', h => by
    obtain rfl := List.mem_singleton.mp h
    exact .eps
  | set p, ⟨b, a⟩, k', h => by
    cases a with
    | nil => simp [run] at h
    | cons c a =>
      by_cases hp : p c = true
      · simp only [run, hp, ↓reduceIte, List.mem_singleton] at h
        exact h ▸ .set hp
      · simp [run, hp] at h
  | bol, k, k', h => by
    by_cases hb : atLineStart nl k = true
    · simp only [run, hb, ↓reduceIte, List.mem_singleton] at h
      subst h
      exact .bol hb
    · simp [run, hb] at h
  | eol, k, k', h => by
    by_cases hb : atLineEnd nl k = true
    · simp only [run, hb, ↓reduceIte, List.mem_singleton] at h
      subst h
      exact .eol hb
    · simp [run, hb] at h
  | cat r s, k, k', h => by
    obtain ⟨m, hm, hk⟩ := List.mem_flatMap.mp h
    exact .cat (matches_of_mem_run hm) (matches_of_mem_run hk)
  | alt r s, k, k', h => by
    rcases List.mem_append.mp h with h | h
    · exact .left (matches_of_mem_run h)
    · exact .right (matches_of_mem_run h)
  | star r, k, k', h => rounds_sound (fun _ _ => matches_of_mem_run) _ _ h

/-- The matcher computes the meaning. -/
theorem mem_run_iff : k' ∈ run nl r k ↔ Matches nl r k k' := ⟨matches_of_mem_run, mem_run_of_matches⟩

end Run

/-! ### Expressions without anchors -/

/-- The expression has no anchor. -/
def Plain : Regex α → Prop
  | eps | set _ => True
  | bol | eol => False
  | cat r s | alt r s => Plain r ∧ Plain s
  | star r => Plain r

/-- The words of an expression without anchors. -/
def lang : Regex α → Language α
  | eps => 1
  | set p => {w | ∃ c, p c = true ∧ w = [c]}
  | bol | eol => 0
  | cat r s => lang r * lang s
  | alt r s => lang r + lang s
  | star r => KStar.kstar (lang r)

section Lang
variable {nl : α → Bool} {r s : Regex α} {k m k' : Cursor α} {u w : List α}

theorem Spans.refl (k : Cursor α) : Spans k [] k := ⟨rfl, rfl⟩

theorem spans_nil : Spans k [] k' ↔ k' = k := by
  cases k; cases k'
  simp [Spans, eq_comm, and_comm]

theorem Spans.trans (h₁ : Spans k u m) (h₂ : Spans m w k') : Spans k (u ++ w) k' := by
  refine ⟨?_, ?_⟩
  · rw [h₁.1, h₂.1, List.append_assoc]
  · rw [h₂.2, h₁.2, List.reverse_append, List.append_assoc]

theorem Spans.split (h : Spans k (u ++ w) k') : Spans k u ⟨u.reverse ++ k.before, w ++ k'.after⟩ ∧
    Spans ⟨u.reverse ++ k.before, w ++ k'.after⟩ w k' := by
  refine ⟨⟨?_, rfl⟩, rfl, ?_⟩
  · rw [h.1, List.append_assoc]
  · rw [h.2, List.reverse_append, List.append_assoc]

theorem Spans.length (h : Spans k w k') : k'.before.length = k.before.length + w.length := by
  rw [h.2, List.length_append, List.length_reverse, Nat.add_comm]

theorem Matches.lang (hr : r.Plain) (h : Matches nl r k k') : ∃ w ∈ r.lang, Spans k w k' := by
  induction h with
  | eps => exact ⟨[], rfl, .refl _⟩
  | @set p c _ _ h => exact ⟨[c], ⟨c, h, rfl⟩, rfl, rfl⟩
  | bol | eol => exact absurd hr id
  | cat _ _ ih₁ ih₂ =>
    obtain ⟨u, hu, hs⟩ := ih₁ hr.1
    obtain ⟨v, hv, ht⟩ := ih₂ hr.2
    exact ⟨u ++ v, Language.append_mem_mul hu hv, hs.trans ht⟩
  | left _ ih =>
    obtain ⟨u, hu, hs⟩ := ih hr.1
    exact ⟨u, Or.inl hu, hs⟩
  | right _ ih =>
    obtain ⟨u, hu, hs⟩ := ih hr.2
    exact ⟨u, Or.inr hu, hs⟩
  | done => exact ⟨[], Language.nil_mem_kstar _, .refl _⟩
  | more _ _ _ ih₁ ih₂ =>
    obtain ⟨u, hu, hs⟩ := ih₁ hr
    obtain ⟨v, hv, ht⟩ := ih₂ hr
    obtain ⟨S, rfl, hS⟩ := Language.mem_kstar.mp hv
    refine ⟨u ++ S.flatten, Language.mem_kstar.mpr ⟨u :: S, by simp, ?_⟩, hs.trans ht⟩
    intro y hy
    rcases List.mem_cons.mp hy with rfl | hy
    · exact hu
    · exact hS y hy

theorem matches_star_of_flatten (ih : ∀ {u k k'}, u ∈ r.lang → Spans k u k' → Matches nl r k k') :
    ∀ (S : List (List α)) {k : Cursor α}, (∀ y ∈ S, y ∈ r.lang ∧ y ≠ []) → Spans k S.flatten k' →
      Matches nl (.star r) k k'
  | [], k, _, h => by
    obtain rfl := spans_nil.mp h
    exact .done
  | u :: S, k, hS, h => by
    obtain ⟨h₁, h₂⟩ := Spans.split (u := u) (w := S.flatten) h
    obtain ⟨hu, hne⟩ := hS u List.mem_cons_self
    refine .more (ih hu h₁) ?_ (matches_star_of_flatten ih S (fun y hy => hS y (List.mem_cons_of_mem _ hy)) h₂)
    have := List.length_pos_iff.mpr hne
    rw [h₁.1]
    simp only [List.length_append]
    omega

theorem matches_of_lang : ∀ {r : Regex α} {w : List α} {k k' : Cursor α}, r.Plain → w ∈ r.lang → Spans k w k' →
    Matches nl r k k'
  | eps, w, k, k', _, hw, h => by
    obtain rfl : w = [] := hw
    obtain rfl := spans_nil.mp h
    exact .eps
  | set p, w, ⟨b, a⟩, ⟨b', a'⟩, _, hw, h => by
    obtain ⟨c, hc, rfl⟩ := hw
    obtain ⟨h₁, h₂⟩ := h
    dsimp only at h₁ h₂
    subst h₁ h₂
    exact .set hc
  | cat r s, w, k, k', hr, hw, h => by
    obtain ⟨u, hu, v, hv, rfl⟩ := Language.mem_mul.mp hw
    exact .cat (matches_of_lang hr.1 hu h.split.1) (matches_of_lang hr.2 hv h.split.2)
  | alt r s, w, k, k', hr, hw, h => by
    rcases hw with hw | hw
    · exact .left (matches_of_lang hr.1 hw h)
    · exact .right (matches_of_lang hr.2 hw h)
  | star r, w, k, k', hr, hw, h => by
    obtain ⟨S, rfl, hS⟩ := Language.mem_kstar_iff_exists_nonempty.mp (show w ∈ KStar.kstar r.lang from hw)
    exact matches_star_of_flatten (fun hu hs => matches_of_lang (show Plain r from hr) hu hs) S hS h

theorem matches_cat_of_lang (hr : r.Plain) (hu : u ∈ r.lang) (h : Spans k (u ++ w) k')
    (hs : ∀ m, Spans m w k' → Matches nl s m k') : Matches nl (.cat r s) k k' :=
  .cat (matches_of_lang hr hu h.split.1) (hs _ h.split.2)

end Lang

/-! ### Words -/

section Words
variable {r s : Regex α} {p : α → Bool} {w : List α} {rs : List (Regex α)}

theorem mem_lang_set : w ∈ (set p).lang ↔ ∃ c, p c = true ∧ w = [c] := Iff.rfl

theorem mem_lang_cat : w ∈ (cat r s).lang ↔ ∃ u ∈ r.lang, ∃ v ∈ s.lang, u ++ v = w := Language.mem_mul

theorem mem_lang_alt : w ∈ (alt r s).lang ↔ w ∈ r.lang ∨ w ∈ s.lang := Iff.rfl

theorem mem_lang_opt : w ∈ (opt r).lang ↔ w ∈ r.lang ∨ w = [] := Iff.rfl

theorem mem_lang_any : w ∈ (any rs).lang ↔ ∃ r ∈ rs, w ∈ r.lang := by
  induction rs with
  | nil => simp [any, mem_lang_set]
  | cons r rs ih => simp only [any, mem_lang_alt, ih, List.mem_cons, exists_eq_or_imp]

theorem mem_lang_text [DecidableEq α] {t : List α} : w ∈ (text t).lang ↔ w = t := by
  induction t generalizing w with
  | nil => exact Iff.rfl
  | cons c t ih =>
    simp only [text, mem_lang_cat, mem_lang_set, ih, beq_iff_eq]
    constructor
    · rintro ⟨_, ⟨_, rfl, rfl⟩, _, rfl, rfl⟩
      rfl
    · rintro rfl
      exact ⟨[c], ⟨c, rfl, rfl⟩, t, rfl, rfl⟩

theorem forall_mem_of_mem_lang_star (hr : ∀ u ∈ r.lang, ∀ c ∈ u, p c = true) (hw : w ∈ (star r).lang) :
    ∀ c ∈ w, p c = true := by
  obtain ⟨S, rfl, hS⟩ := Language.mem_kstar.mp (show w ∈ KStar.kstar r.lang from hw)
  intro c hc
  obtain ⟨u, hu, hcu⟩ := List.mem_flatten.mp hc
  exact hr u (hS u hu) c hcu

theorem mem_lang_star_of_forall (h : ∀ c ∈ w, [c] ∈ r.lang) : w ∈ (star r).lang := by
  refine Language.mem_kstar.mpr ⟨w.map ([·]), by simp [← List.flatMap_def], fun u hu => ?_⟩
  obtain ⟨c, hc, rfl⟩ := List.mem_map.mp hu
  exact h c hc

theorem mem_lang_star_set : w ∈ (star (set p)).lang ↔ ∀ c ∈ w, p c = true := by
  refine ⟨forall_mem_of_mem_lang_star ?_, fun hw => mem_lang_star_of_forall fun c hc => ⟨c, hw c hc, rfl⟩⟩
  rintro u ⟨d, hd, rfl⟩ c hc
  obtain rfl := List.mem_singleton.mp hc
  exact hd

theorem mem_lang_plus_set : w ∈ (plus (set p)).lang ↔ w ≠ [] ∧ ∀ c ∈ w, p c = true := by
  simp only [plus, mem_lang_cat, mem_lang_set, mem_lang_star_set]
  constructor
  · rintro ⟨_, ⟨c, hc, rfl⟩, v, hv, rfl⟩
    exact ⟨by simp, List.forall_mem_cons.mpr ⟨hc, hv⟩⟩
  · rintro ⟨hne, hw⟩
    obtain ⟨c, v, rfl⟩ := List.exists_cons_of_ne_nil hne
    obtain ⟨hc, hv⟩ := List.forall_mem_cons.mp hw
    exact ⟨[c], ⟨c, hc, rfl⟩, v, hv, rfl⟩

theorem mem_lang_of_mem_run {nl : α → Bool} (hr : r.Plain) (h : ⟨w.reverse, []⟩ ∈ run nl r ⟨[], w⟩) : w ∈ r.lang := by
  obtain ⟨u, hu, hs⟩ := (matches_of_mem_run h).lang hr
  obtain rfl : w = u := by simpa using hs.1
  exact hu

theorem plain_text [DecidableEq α] : ∀ t : List α, Plain (text t)
  | [] => trivial
  | _ :: t => ⟨trivial, plain_text t⟩

theorem plain_any : ∀ {rs : List (Regex α)}, (∀ r ∈ rs, Plain r) → Plain (any rs)
  | [], _ => trivial
  | r :: _, h => ⟨h r List.mem_cons_self, plain_any fun s hs => h s (List.mem_cons_of_mem _ hs)⟩

end Words

/-! ### Searching -/

/-- The first position from `after` on at which a match begins, with the end of the longest match there. -/
def search (nl : α → Bool) (r : Regex α) : List α → List α → Option (Nat × Nat)
  | before, after =>
    match ((run nl r ⟨before, after⟩).map (·.before.length)).max? with
    | some e => some (before.length, e)
    | none => match after with
      | [] => none
      | c :: rest => search nl r (c :: before) rest

/-- Where `regexec` finds a match in a subject: its start and its end. -/
def regexec (nl : α → Bool) (r : Regex α) (subject : List α) : Option (Nat × Nat) := search nl r [] subject

section Search
variable {nl : α → Bool} {r : Regex α} {subject : List α} {e : Nat}

theorem search_start_le : ∀ {after before : List α} {i : Nat}, search nl r before after = some (i, e) →
    before.length ≤ i
  | after, before, i, h => by
    unfold search at h
    split at h
    · cases h
      exact Nat.le_refl _
    · cases after with
      | nil => cases h
      | cons c rest =>
        have := search_start_le h
        simp only [List.length_cons] at this
        omega

theorem search_matches : ∀ {after before : List α} {i : Nat}, search nl r before after = some (i, e) →
    ∃ k k', Matches nl r k k' ∧ k.before.length = i ∧ k'.before.length = e
  | after, before, i, h => by
    unfold search at h
    split at h
    · next e' he =>
      cases h
      obtain ⟨k', hk', hlen⟩ := List.mem_map.mp (List.max?_mem he)
      exact ⟨_, k', mem_run_iff.mp hk', rfl, hlen⟩
    · cases after with
      | nil => cases h
      | cons c rest => exact search_matches h

theorem max?_ends_eq_some {k : Cursor α} : ((run nl r k).map (·.before.length)).max? = some e ↔
    (∃ k', Matches nl r k k' ∧ k'.before.length = e) ∧ ∀ k', Matches nl r k k' → k'.before.length ≤ e := by
  simp [List.max?_eq_some_iff, mem_run_iff]

/-- A match at the start of the subject is found first, up to the end of the longest one. -/
theorem regexec_eq_some_zero : regexec nl r subject = some (0, e) ↔
    (∃ k, Matches nl r ⟨[], subject⟩ k ∧ k.before.length = e) ∧
      ∀ k, Matches nl r ⟨[], subject⟩ k → k.before.length ≤ e := by
  rw [← max?_ends_eq_some]
  unfold regexec search
  split
  · next e' h => simp [h]
  · next h =>
    rw [h]
    refine ⟨fun h' => ?_, fun h' => by cases h'⟩
    cases subject with
    | nil => cases h'
    | cons c rest => simpa using search_start_le h'

/-- An expression that begins with `^`, in a subject of one line, matches at the start only. -/
theorem regexec_bol {i : Nat} (hnl : ∀ c, nl c = false) (h : regexec nl (.cat .bol r) subject = some (i, e)) :
    i = 0 := by
  obtain ⟨k, k', hm, hi, -⟩ := search_matches h
  obtain ⟨_, hbol, -⟩ := matches_cat.mp hm
  obtain ⟨-, hstart⟩ := matches_bol.mp hbol
  cases hk : k.before with
  | nil => simp [← hi, hk]
  | cons c b => simp [atLineStart, hk, hnl] at hstart

end Search

end Regex
end Distsys
