import Mathlib.Data.List.TakeWhile
import Distsys.Lib.Bytes

/-! `getopt_long`: the options of an argument vector, one call after the other. Letters stand behind one hyphen and a
    name behind two, and `--` ends the options. Other elements are passed over; under `POSIXLY_CORRECT` the first one
    ends the options. -/

namespace Distsys.Getopt

/-- A long option: its name, whether it takes an argument, and the value that is returned for it. -/
structure LongOption where
  name : Bytes
  hasArg : Bool
  val : Int
  deriving DecidableEq

/-- The options that a program declares: letters, with a colon behind each that takes an argument, and names. No
    argument is optional, and the letters begin with none of `+`, `-` and `:`. -/
structure Declarations where
  optstring : Bytes
  longopts : List LongOption

/-- What a call finds: an option with its argument, or something that was not declared so. -/
inductive Found where
  | short (c : UInt8) (optarg : Option Bytes)
  | long (o : LongOption) (optarg : Option Bytes)
  | bad
  deriving DecidableEq

/-- What the call returns. -/
def Found.code : Found → Int
  | .short c _ => c.toNat
  | .long o _ => o.val
  | .bad => '?'.toNat

def Found.optarg : Found → Option Bytes
  | .short _ optarg | .long _ optarg => optarg
  | .bad => none

def Found.isShort : Found → Bool
  | .short _ _ => true
  | .long _ _ | .bad => false

def Found.isLong : Found → Bool
  | .long _ _ => true
  | .short _ _ | .bad => false

/-- Where the scan is: the letters that are left of an element, and the elements behind it. -/
structure Position where
  nextchar : Bytes
  args : List Bytes

/-- The number of bytes that are left to scan. -/
def Position.size (s : Position) : Nat := s.nextchar.length + s.args.flatten.length

/-- Whether a letter takes an argument, if it is declared. -/
def shortOption (optstring : Bytes) (c : UInt8) : Option Bool :=
  if c = 0x3A ∨ c = 0x3B then none
  else match optstring.dropWhile (· != c) with
    | [] => none
    | _ :: rest => some (rest.head? == some 0x3A)

/-- The option of that name, or the only one whose name begins so. -/
def longOption (longopts : List LongOption) (name : Bytes) : Option LongOption :=
  match longopts.find? fun o => o.name == name with
  | some o => some o
  | none => match longopts.filter fun o => name.isPrefixOf o.name with
    | [o] => some o
    | _ => none

/-- A letter; its argument is the rest of the element or the next element. -/
def takeShort (optstring : Bytes) (c : UInt8) (cs : Bytes) (args : List Bytes) : Found × Position :=
  match shortOption optstring c with
  | none => (.bad, ⟨cs, args⟩)
  | some false => (.short c none, ⟨cs, args⟩)
  | some true =>
    if cs ≠ [] then (.short c (some cs), ⟨[], args⟩)
    else match args with
      | [] => (.bad, ⟨[], []⟩)
      | arg :: args => (.short c (some arg), ⟨[], args⟩)

/-- A name; its argument stands behind an equals sign or is the next element. -/
def takeLong (longopts : List LongOption) (text : Bytes) (args : List Bytes) : Found × Position :=
  match longOption longopts (text.takeWhile (· != 0x3D)), text.dropWhile (· != 0x3D) with
  | none, _ => (.bad, ⟨[], args⟩)
  | some o, _ :: value => (if o.hasArg then .long o (some value) else .bad, ⟨[], args⟩)
  | some o, [] =>
    if o.hasArg then match args with
      | [] => (.bad, ⟨[], []⟩)
      | arg :: args => (.long o (some arg), ⟨[], args⟩)
    else (.long o none, ⟨[], args⟩)

/-- The next element with an option. -/
def nextElement (d : Declarations) (posixlyCorrect : Bool) : List Bytes → Option (Found × Position)
  | [] => none
  | arg :: args => match arg with
    | [0x2D, 0x2D] => none
    | 0x2D :: 0x2D :: text => some (takeLong d.longopts text args)
    | 0x2D :: c :: cs => some (takeShort d.optstring c cs args)
    | _ => if posixlyCorrect then none else nextElement d posixlyCorrect args

/-- One call of `getopt_long`: what it finds and where the next call goes on, or nothing for -1. -/
def getoptLong (d : Declarations) (posixlyCorrect : Bool) (s : Position) : Option (Found × Position) :=
  match s.nextchar with
  | c :: cs => some (takeShort d.optstring c cs s.args)
  | [] => nextElement d posixlyCorrect s.args

/-- What at most `n` calls find. -/
def optionsUpTo (d : Declarations) (posixlyCorrect : Bool) : Nat → Position → List Found
  | 0, _ => []
  | n + 1, s => match getoptLong d posixlyCorrect s with
    | none => []
    | some (found, s) => found :: optionsUpTo d posixlyCorrect n s

/-- All options from a position on. -/
def options (d : Declarations) (posixlyCorrect : Bool) (s : Position) : List Found :=
  optionsUpTo d posixlyCorrect s.size s

/-- An option is declared, with an argument exactly if it takes one. -/
def Found.IsDeclared (d : Declarations) : Found → Prop
  | .short c optarg => shortOption d.optstring c = some optarg.isSome
  | .long o optarg => o ∈ d.longopts ∧ o.hasArg = optarg.isSome
  | .bad => True

section Calls
variable {d : Declarations} {posixlyCorrect : Bool} {s : Position} {r : Found × Position}

theorem size_takeShort_lt {optstring cs : Bytes} {c : UInt8} {args : List Bytes} :
    (takeShort optstring c cs args).2.size < (Position.mk (c :: cs) args).size := by
  unfold takeShort Position.size
  split
  · simp
  · simp
  · split
    · simp only [List.length_cons, List.length_nil]
      omega
    · cases args <;> simp only [List.length_cons, List.length_nil, List.flatten_cons, List.flatten_nil,
        List.length_append] <;>
        omega

theorem size_takeLong_le {longopts : List LongOption} {text : Bytes} {args : List Bytes} :
    (takeLong longopts text args).2.size ≤ args.flatten.length := by
  unfold takeLong Position.size
  split
  · simp
  · simp
  · split
    · cases args <;> simp
    · simp

/-- What is found behind elements that are passed over: a name behind two hyphens, or a letter behind one. -/
theorem nextElement_cases : ∀ {args : List Bytes}, nextElement d posixlyCorrect args = some r →
    ∃ skipped arg rest, args = skipped ++ arg :: rest ∧
      ((∃ text, arg = 0x2D :: 0x2D :: text ∧ r = takeLong d.longopts text rest) ∨
        ∃ c cs, arg = 0x2D :: c :: cs ∧ r = takeShort d.optstring c cs rest)
  | [], h => by cases h
  | arg :: args, h => by
    simp only [nextElement] at h
    split at h
    · cases h
    · exact ⟨[], _, args, rfl, Or.inl ⟨_, rfl, (Option.some.inj h).symm⟩⟩
    · exact ⟨[], _, args, rfl, Or.inr ⟨_, _, rfl, (Option.some.inj h).symm⟩⟩
    · split at h
      · cases h
      · obtain ⟨skipped, arg', rest, rfl, hfound⟩ := nextElement_cases h
        exact ⟨arg :: skipped, arg', rest, rfl, hfound⟩

theorem size_getoptLong_lt (h : getoptLong d posixlyCorrect s = some r) : r.2.size < s.size := by
  obtain ⟨nextchar, args⟩ := s
  unfold getoptLong at h
  cases nextchar with
  | cons c cs =>
    obtain rfl := Option.some.inj h
    exact size_takeShort_lt
  | nil =>
    have hsize (skipped : List Bytes) (arg : Bytes) (rest : List Bytes) :
        arg.length + rest.flatten.length ≤ (Position.mk [] (skipped ++ arg :: rest)).size := by
      simp only [Position.size, List.length_nil, List.flatten_append, List.flatten_cons, List.length_append]
      omega
    obtain ⟨skipped, arg, rest, rfl, ⟨text, rfl, rfl⟩ | ⟨c, cs, rfl, rfl⟩⟩ := nextElement_cases h
    · have hle : (takeLong d.longopts text rest).2.size ≤ rest.flatten.length := size_takeLong_le
      have hsize := hsize skipped (0x2D :: 0x2D :: text) rest
      simp only [List.length_cons] at hsize
      omega
    · have hlt : (takeShort d.optstring c cs rest).2.size < (Position.mk (c :: cs) rest).size := size_takeShort_lt
      have hsize := hsize skipped (0x2D :: c :: cs) rest
      simp only [Position.size, List.length_cons] at hlt hsize ⊢
      omega

/-- More calls than there are letters find nothing more. -/
theorem optionsUpTo_stable : ∀ {n m : Nat} {s : Position}, s.size ≤ n → s.size ≤ m →
    optionsUpTo d posixlyCorrect n s = optionsUpTo d posixlyCorrect m s
  | 0, 0, _, _, _ => rfl
  | 0, m + 1, s, hn, _ => by
    rw [optionsUpTo, optionsUpTo]
    cases h : getoptLong d posixlyCorrect s with
    | none => rfl
    | some r => exact absurd (size_getoptLong_lt h) (by omega)
  | n + 1, 0, s, _, hm => by
    rw [optionsUpTo, optionsUpTo]
    cases h : getoptLong d posixlyCorrect s with
    | none => rfl
    | some r => exact absurd (size_getoptLong_lt h) (by omega)
  | n + 1, m + 1, s, hn, hm => by
    rw [optionsUpTo, optionsUpTo]
    cases h : getoptLong d posixlyCorrect s with
    | none => rfl
    | some r =>
      have hlt := size_getoptLong_lt h
      simp only
      rw [optionsUpTo_stable (n := n) (m := m) (by omega) (by omega)]

theorem options_eq : options d posixlyCorrect s = match getoptLong d posixlyCorrect s with
    | none => []
    | some (found, s') => found :: options d posixlyCorrect s' := by
  have hmore : options d posixlyCorrect s = optionsUpTo d posixlyCorrect (s.size + 1) s :=
    optionsUpTo_stable (Nat.le_refl _) (Nat.le_succ _)
  rw [hmore, optionsUpTo]
  cases h : getoptLong d posixlyCorrect s with
  | none => rfl
  | some r => exact congrArg (r.1 :: ·) (optionsUpTo_stable (Nat.le_of_lt (size_getoptLong_lt h)) (Nat.le_refl _))

/-! ### What is found -/

theorem mem_of_shortOption {optstring : Bytes} {c : UInt8} {takesArg : Bool}
    (h : shortOption optstring c = some takesArg) :
    c ∈ optstring := by
  unfold shortOption at h
  split at h
  · cases h
  · by_contra hmem
    have hnil : optstring.dropWhile (· != c) = [] :=
      List.dropWhile_eq_nil_iff.mpr fun d hd => by simpa using ne_of_mem_of_not_mem hd hmem
    rw [hnil] at h
    cases h

theorem longOption_mem {longopts : List LongOption} {name : Bytes} {o : LongOption}
    (h : longOption longopts name = some o) :
    o ∈ longopts := by
  unfold longOption at h
  split at h
  · next o' hfind =>
    obtain rfl := Option.some.inj h
    exact List.mem_of_find?_eq_some hfind
  · split at h
    · next o' hfilter =>
      obtain rfl := Option.some.inj h
      exact List.mem_of_mem_filter (hfilter ▸ List.mem_singleton_self _)
    · cases h

theorem isDeclared_takeShort {cs : Bytes} {c : UInt8} {args : List Bytes} :
    (takeShort d.optstring c cs args).1.IsDeclared d := by
  unfold takeShort
  split
  · trivial
  · assumption
  · split
    · assumption
    · cases args with
      | nil => trivial
      | cons arg args => assumption

theorem isDeclared_takeLong {text : Bytes} {args : List Bytes} : (takeLong d.longopts text args).1.IsDeclared d := by
  unfold takeLong
  split
  · trivial
  · next o _ value hoption _ =>
    simp only
    split
    · exact ⟨longOption_mem hoption, by assumption⟩
    · trivial
  · next o hoption _ =>
    split
    · cases args with
      | nil => trivial
      | cons arg args => exact ⟨longOption_mem hoption, by assumption⟩
    · exact ⟨longOption_mem hoption, by simpa using ‹¬o.hasArg = true›⟩

theorem isDeclared_getoptLong (h : getoptLong d posixlyCorrect s = some r) : r.1.IsDeclared d := by
  unfold getoptLong at h
  split at h
  · obtain rfl := Option.some.inj h
    exact isDeclared_takeShort
  · obtain ⟨-, -, -, -, ⟨text, -, rfl⟩ | ⟨c, cs, -, rfl⟩⟩ := nextElement_cases h
    · exact isDeclared_takeLong
    · exact isDeclared_takeShort

theorem isDeclared_of_mem_options : ∀ {n : Nat} {s : Position}, ∀ found ∈ optionsUpTo d posixlyCorrect n s,
    found.IsDeclared d
  | 0, _, _, h => by cases h
  | n + 1, s, found, h => by
    rw [optionsUpTo] at h
    split at h
    · cases h
    · next s' hcall =>
      rcases List.mem_cons.mp h with rfl | h
      · exact isDeclared_getoptLong hcall
      · exact isDeclared_of_mem_options found h

end Calls

end Distsys.Getopt
