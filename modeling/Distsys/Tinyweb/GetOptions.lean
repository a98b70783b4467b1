import Mathlib.Data.List.Induction
import Distsys.Lib.Getopt

/-! The command line (`get_options` in `src/tinyweb.c`). `main` takes every result other than 0 for success, and goes on
    with the directory and the address. -/

namespace Distsys.Tinyweb
open Getopt

/-- What `getaddrinfo` finds for a port: the first address of its list, by the port in it. -/
structure AddrInfo where
  port : Nat
  deriving DecidableEq

/-- What the options depend on beside the arguments: whether `POSIXLY_CORRECT` is set, which sizes `malloc` has memory
    for, and the addresses of the ports that resolve. -/
structure Startup where
  posixlyCorrect : Bool
  malloc : Nat → Bool
  getaddrinfo : Bytes → Option AddrInfo

/-- `prog_options_t` without `log_fd`, which `open_logfile` sets. A null pointer is `none`. -/
structure ProgOptions where
  progname : Option Bytes
  rootDir : Option Bytes
  logFilename : Option Bytes
  verbose : Bool
  timeout : Nat
  serverAddr : Option AddrInfo
  serverPort : Int
  deriving DecidableEq

/-- What `get_options` returns for a port that does not resolve. -/
def EXIT_FAILURE : Int := 1

def declaredOptions : Declarations where
  optstring := str "f:p:d:hv"
  longopts := [⟨str "file", true, 0⟩, ⟨str "port", true, 0⟩, ⟨str "dir", true, 0⟩, ⟨str "verbose", false, 0⟩,
    ⟨str "debug", false, 0⟩]

/-- `malloc` and `strcpy`. -/
def Startup.copy (env : Startup) (s : Bytes) : Option Bytes := if env.malloc (s.length + 1) then some s else none

/-- How a turn of the loop ends: with `success`, or with a `return`. -/
inductive OptionTurn where
  | next (success : Bool) (opt : ProgOptions)
  | exit (retcode : Int) (opt : ProgOptions)

/-- The `switch` over the value of `getopt_long`. -/
def optionCase (env : Startup) (c : Int) (optarg : Option Bytes) (opt : ProgOptions) : Except Fault OptionTurn :=
  if c = 'f'.toNat then match optarg with
    | none => .error .nullPointer
    | some arg =>
      let opt := { opt with logFilename := env.copy arg }
      .ok (if opt.logFilename.isSome then .next true opt else .exit EXIT_FAILURE opt)
  else if c = 'p'.toNat then match optarg with
    | none => .error .nullPointer
    | some arg => match env.getaddrinfo arg with
      | none => .ok (.exit EXIT_FAILURE opt)
      | some addr => .ok (.next true { opt with serverAddr := some addr, serverPort := addr.port })
  else if c = 'd'.toNat then match optarg with
    | none => .error .nullPointer
    | some arg =>
      let opt := { opt with rootDir := env.copy arg }
      .ok (if opt.rootDir.isSome then .next true opt else .exit EXIT_FAILURE opt)
  else if c = 'h'.toNat then .ok (.next true opt)
  else if c = 'v'.toNat then .ok (.next true { opt with verbose := true })
  else .ok (.next false opt)

/-- The result behind the loop. -/
def requireOptions (success : Bool) (opt : ProgOptions) : Int :=
  if success ∧ opt.serverAddr.isSome ∧ opt.rootDir.isSome then 1 else 0

/-- The loop, for at most `n` options. -/
def optionLoop (env : Startup) : Nat → Position → ProgOptions → Except Fault (Int × ProgOptions)
  | 0, _, opt => .ok (requireOptions true opt, opt)
  | n + 1, s, opt => match getoptLong declaredOptions env.posixlyCorrect s with
    | none => .ok (requireOptions true opt, opt)
    | some (found, s) => match optionCase env found.code found.optarg opt with
      | .error f => .error f
      | .ok (.exit retcode opt) => .ok (retcode, opt)
      | .ok (.next true opt) => optionLoop env n s opt
      | .ok (.next false opt) => .ok (requireOptions false opt, opt)

/-- What follows the last slash. -/
def baseName (path : Bytes) : Bytes := (path.reverse.takeWhile (· != 0x2F)).reverse

/-- `get_options`: its result and the options, of which `opt` is what the memory of `main` had before. -/
def getOptions (env : Startup) (argv : List Bytes) (opt : ProgOptions) : Except Fault (Int × ProgOptions) :=
  match argv with
  | [] => .error .nullPointer
  | name :: args => match env.copy (baseName name) with
    | none => .ok (EXIT_FAILURE, { opt with progname := none })
    | some progname =>
      let s : Position := ⟨[], args⟩
      optionLoop env s.size s { opt with progname := some progname, logFilename := none, rootDir := none,
                                         serverAddr := none, verbose := false, timeout := 120 }

/-! ### What is asked for -/

/-- The options of an argument vector. -/
def given (env : Startup) (argv : List Bytes) : List Found := options declaredOptions env.posixlyCorrect ⟨[], argv.tail⟩

/-- The argument of one option, in its short form or its long one. -/
def argumentOf (letter : UInt8) (name : Bytes) : Found → Option Bytes
  | .short c optarg => if c = letter then optarg else none
  | .long o optarg => if o.name = name then optarg else none
  | .bad => none

def portOf : Found → Option Bytes := argumentOf 0x70 (str "port")

def dirOf : Found → Option Bytes := argumentOf 0x64 (str "dir")

/-- The argument of the last option that has one. -/
def lastArgument (argument : Found → Option Bytes) (found : List Found) : Option Bytes :=
  (found.filterMap argument).getLast?

/-- The port of an option resolves, if it has one. -/
def Resolves (env : Startup) (found : Found) : Prop := ∀ port ∈ portOf found, (env.getaddrinfo port).isSome = true

instance (env : Startup) (found : Found) : Decidable (Resolves env found) := inferInstanceAs (Decidable (∀ _ ∈ _, _))

/-- Every option is declared and has its argument, every port resolves, and there are a port and a directory. -/
structure Usable (env : Startup) (argv : List Bytes) : Prop where
  declared : .bad ∉ given env argv
  resolves : ∀ found ∈ given env argv, Resolves env found
  port : ∃ found ∈ given env argv, (portOf found).isSome = true
  dir : ∃ found ∈ given env argv, (dirOf found).isSome = true

/-- The result is not 0 exactly for usable arguments, and then directory and address are those of the last options. -/
structure OptionsRight (env : Startup) (argv : List Bytes) (opt : ProgOptions) : Prop where
  nonzero_iff : (∃ retcode opt', getOptions env argv opt = .ok (retcode, opt') ∧ retcode ≠ 0) ↔ Usable env argv
  pointers : ∀ retcode opt', getOptions env argv opt = .ok (retcode, opt') → retcode ≠ 0 →
    ∃ dir port addr, lastArgument dirOf (given env argv) = some dir ∧ lastArgument portOf (given env argv) = some port ∧
      env.getaddrinfo port = some addr ∧ opt'.rootDir = some dir ∧ opt'.serverAddr = some addr

/-! ### The loop over the options -/

/-- The loop on the options that `getopt_long` finds one by one. -/
def optionRun (env : Startup) : List Found → ProgOptions → Except Fault (Int × ProgOptions)
  | [], opt => .ok (requireOptions true opt, opt)
  | found :: rest, opt => match optionCase env found.code found.optarg opt with
    | .error f => .error f
    | .ok (.exit retcode opt) => .ok (retcode, opt)
    | .ok (.next true opt) => optionRun env rest opt
    | .ok (.next false opt) => .ok (requireOptions false opt, opt)

section Loop
variable {env : Startup} {c : UInt8} {takesArg : Bool} {found : Found} {fs : List Found} {opt : ProgOptions}

theorem optionLoop_eq : ∀ {n : Nat} {s : Position} {opt : ProgOptions}, s.size ≤ n →
    optionLoop env n s opt = optionRun env (options declaredOptions env.posixlyCorrect s) opt
  | 0, s, opt, hn => by
    rw [options_eq, optionLoop]
    cases hcall : getoptLong declaredOptions env.posixlyCorrect s with
    | none => rfl
    | some r => exact absurd (size_getoptLong_lt hcall) (by omega)
  | n + 1, s, opt, hn => by
    rw [options_eq, optionLoop]
    cases hcall : getoptLong declaredOptions env.posixlyCorrect s with
    | none => rfl
    | some r =>
      have hlt := size_getoptLong_lt hcall
      simp only [optionRun]
      split
      · rfl
      · rfl
      · exact optionLoop_eq (by omega)
      · rfl

theorem shortOption_cases (h : shortOption declaredOptions.optstring c = some takesArg) :
    (takesArg = true ∧ (c = 0x66 ∨ c = 0x70 ∨ c = 0x64)) ∨ (takesArg = false ∧ (c = 0x68 ∨ c = 0x76)) := by
  have hstring : declaredOptions.optstring = [0x66, 0x3A, 0x70, 0x3A, 0x64, 0x3A, 0x68, 0x76] := by decide
  have hmem := mem_of_shortOption h
  rw [hstring] at hmem
  simp only [List.mem_cons, List.not_mem_nil, or_false] at hmem
  rcases hmem with rfl | rfl | rfl | rfl | rfl | rfl | rfl | rfl
  · exact Or.inl ⟨(Option.some.inj h).symm, Or.inl rfl⟩
  · cases h
  · exact Or.inl ⟨(Option.some.inj h).symm, Or.inr (Or.inl rfl)⟩
  · cases h
  · exact Or.inl ⟨(Option.some.inj h).symm, Or.inr (Or.inr rfl)⟩
  · cases h
  · exact Or.inr ⟨(Option.some.inj h).symm, Or.inl rfl⟩
  · exact Or.inr ⟨(Option.some.inj h).symm, Or.inr rfl⟩

/-- The options that the loop goes on from: letters, and ports that resolve. -/
def Taken (env : Startup) (found : Found) : Prop := found.isShort = true ∧ Resolves env found

instance (env : Startup) (found : Found) : Decidable (Taken env found) := inferInstanceAs (Decidable (_ ∧ _))

theorem optionCase_of_taken (opt : ProgOptions) (hmalloc : ∀ n, env.malloc n = true)
    (hd : found.IsDeclared declaredOptions) (h : Taken env found) : ∃ opt',
      optionCase env found.code found.optarg opt = .ok (.next true opt') ∧ opt'.rootDir = (dirOf found).or opt.rootDir ∧
      opt'.serverAddr = ((portOf found).bind env.getaddrinfo).or opt.serverAddr := by
  obtain ⟨hshort, hresolves⟩ := h
  cases found with
  | long o optarg => cases hshort
  | bad => cases hshort
  | short c optarg =>
    have hcopy (s : Bytes) : env.copy s = some s := if_pos (hmalloc _)
    rcases shortOption_cases hd with ⟨hsome, rfl | rfl | rfl⟩ | ⟨-, rfl | rfl⟩
    · obtain ⟨arg, rfl⟩ := Option.isSome_iff_exists.mp hsome
      refine ⟨{ opt with logFilename := some arg }, ?_, rfl, rfl⟩
      simp only [optionCase, Found.optarg, hcopy]
      rfl
    · obtain ⟨port, rfl⟩ := Option.isSome_iff_exists.mp hsome
      obtain ⟨addr, haddr⟩ := Option.isSome_iff_exists.mp (hresolves port rfl)
      have hport : (portOf (.short 0x70 (some port))).bind env.getaddrinfo = some addr := haddr
      refine ⟨{ opt with serverAddr := some addr, serverPort := addr.port }, ?_, rfl, by rw [hport]; rfl⟩
      simp only [optionCase, Found.optarg, haddr]
      rfl
    · obtain ⟨dir, rfl⟩ := Option.isSome_iff_exists.mp hsome
      refine ⟨{ opt with rootDir := some dir }, ?_, rfl, rfl⟩
      simp only [optionCase, Found.optarg, hcopy]
      rfl
    · exact ⟨opt, rfl, rfl, rfl⟩
    · exact ⟨{ opt with verbose := true }, rfl, rfl, rfl⟩

/-- Where the loop stops: at a port that does not resolve with a result that is not 0, at any other option with 0. -/
theorem optionCase_of_not_taken (opt : ProgOptions) (hd : found.IsDeclared declaredOptions) (h : ¬Taken env found) :
    (found.isShort = true ∧ ¬Resolves env found ∧
      optionCase env found.code found.optarg opt = .ok (.exit EXIT_FAILURE opt)) ∨
    (found.isShort = false ∧ optionCase env found.code found.optarg opt = .ok (.next false opt)) := by
  cases found with
  | bad => exact Or.inr ⟨rfl, rfl⟩
  | long o optarg =>
    have hval : o.val = 0 := by
      have hall : ∀ o ∈ declaredOptions.longopts, o.val = 0 := by decide
      exact hall o hd.1
    refine Or.inr ⟨rfl, ?_⟩
    simp only [Found.code, hval]
    rfl
  | short c optarg =>
    have hresolves : ¬Resolves env (.short c optarg) := fun hresolves => h ⟨rfl, hresolves⟩
    obtain ⟨port, hport, hnone⟩ : ∃ port, portOf (.short c optarg) = some port ∧ env.getaddrinfo port = none := by
      simpa [Resolves] using hresolves
    have hport : (if c = 0x70 then optarg else none) = some port := hport
    split at hport
    · next hc =>
      subst hc hport
      refine Or.inl ⟨rfl, hresolves, ?_⟩
      simp only [optionCase, Found.optarg, hnone]
      rfl
    · cases hport

theorem lastArgument_append {argument : Found → Option Bytes} : lastArgument argument (fs ++ [found]) =
    (argument found).or (lastArgument argument fs) := by
  unfold lastArgument
  rw [List.filterMap_append, List.filterMap_cons]
  cases argument found <;> simp

theorem exists_of_lastArgument {argument : Found → Option Bytes} {arg : Bytes}
    (h : lastArgument argument fs = some arg) :
    ∃ found ∈ fs, argument found = some arg :=
  List.mem_filterMap.mp (List.mem_of_getLast? h)

theorem lastArgument_isSome {argument : Found → Option Bytes} : (lastArgument argument fs).isSome = true ↔
    ∃ found ∈ fs, (argument found).isSome = true := by
  unfold lastArgument
  rw [List.getLast?_isSome, ne_eq, List.filterMap_eq_nil_iff]
  simp only [not_forall, Option.isSome_iff_ne_none, exists_prop]

/-- What the loop has behind options that it goes on from: the directory and the address of the last ones. -/
theorem optionRun_of_taken (hmalloc : ∀ n, env.malloc n = true) (hroot : opt.rootDir = none)
    (haddr : opt.serverAddr = none) (hd : ∀ found ∈ fs, found.IsDeclared declaredOptions)
    (h : ∀ found ∈ fs, Taken env found) :
    ∃ opt', (∀ rest, optionRun env (fs ++ rest) opt = optionRun env rest opt') ∧
      opt'.rootDir = lastArgument dirOf fs ∧ opt'.serverAddr = (lastArgument portOf fs).bind env.getaddrinfo := by
  induction fs using List.reverseRecOn with
  | nil => exact ⟨opt, fun rest => rfl, hroot, haddr⟩
  | append_singleton fs found ih =>
    obtain ⟨opt₁, hrun, hroot₁, haddr₁⟩ := ih (fun x hx => hd x (List.mem_append_left _ hx)) fun x hx =>
      h x (List.mem_append_left _ hx)
    have htaken : Taken env found := h found (by simp)
    obtain ⟨opt₂, hcase, hroot₂, haddr₂⟩ := optionCase_of_taken opt₁ hmalloc (hd found (by simp)) htaken
    refine ⟨opt₂, fun rest => ?_, ?_, ?_⟩
    · rw [List.append_assoc, hrun, List.singleton_append, optionRun, hcase]
    · rw [hroot₂, hroot₁, lastArgument_append]
    · rw [haddr₂, haddr₁, lastArgument_append]
      cases hport : portOf found with
      | none => rfl
      | some port =>
        obtain ⟨addr, haddr⟩ := Option.isSome_iff_exists.mp (htaken.2 port hport)
        simp [haddr]

end Loop

section Options
variable {env : Startup} {argv : List Bytes} {opt : ProgOptions}

theorem given_isDeclared : ∀ found ∈ given env argv, found.IsDeclared declaredOptions := isDeclared_of_mem_options

theorem getOptions_nil : ¬∃ retcode opt', getOptions env [] opt = .ok (retcode, opt') := by
  rintro ⟨retcode, opt', h⟩
  cases h

/-- With memory for its copies the function runs the loop, without a directory and an address at first. -/
theorem getOptions_run (opt : ProgOptions) (hmalloc : ∀ n, env.malloc n = true) (hargv : argv ≠ []) :
    ∃ opt₀ : ProgOptions, opt₀.rootDir = none ∧ opt₀.serverAddr = none ∧
      getOptions env argv opt = optionRun env (given env argv) opt₀ := by
  obtain ⟨name, args, rfl⟩ := List.exists_cons_of_ne_nil hargv
  have hcopy : env.copy (baseName name) = some (baseName name) := if_pos (hmalloc _)
  refine ⟨{ opt with
    progname := some (baseName name), logFilename := none, rootDir := none, serverAddr := none, verbose := false,
    timeout := 120 }, rfl, rfl, ?_⟩
  simp only [getOptions, hcopy]
  exact optionLoop_eq (Nat.le_refl _)

/-- How the function returns, with memory for its copies: behind the loop, or from the first option that stops it. -/
theorem getOptions_cases (opt : ProgOptions) (hmalloc : ∀ n, env.malloc n = true) (hargv : argv ≠ []) :
    (∃ opt', (∀ found ∈ given env argv, Taken env found) ∧
      getOptions env argv opt = .ok (requireOptions true opt', opt') ∧
      opt'.rootDir = lastArgument dirOf (given env argv) ∧
      opt'.serverAddr = (lastArgument portOf (given env argv)).bind env.getaddrinfo) ∨
    ∃ pre found post opt', given env argv = pre ++ found :: post ∧ (∀ x ∈ pre, Taken env x) ∧
      ((found.isShort = true ∧ ¬Resolves env found ∧ getOptions env argv opt = .ok (EXIT_FAILURE, opt')) ∨
        (found.isShort = false ∧ getOptions env argv opt = .ok (0, opt'))) := by
  obtain ⟨opt₀, hroot, haddr, hrun⟩ := getOptions_run opt hmalloc hargv
  have hd : ∀ found ∈ given env argv, found.IsDeclared declaredOptions := given_isDeclared
  cases hfind : (given env argv).find? fun found => ¬Taken env found with
  | none =>
    have hall : ∀ found ∈ given env argv, Taken env found := fun found h => by
      simpa using List.find?_eq_none.mp hfind found h
    obtain ⟨opt', hloop, hroot', haddr'⟩ := optionRun_of_taken hmalloc hroot haddr hd hall
    refine Or.inl ⟨opt', hall, ?_, hroot', haddr'⟩
    have hend := hloop []
    rw [List.append_nil] at hend
    rw [hrun, hend, optionRun]
  | some found =>
    obtain ⟨hnot, pre, post, hsplit, hpre⟩ := List.find?_eq_some_iff_append.mp hfind
    have htaken : ∀ x ∈ pre, Taken env x := fun x hx => by simpa using hpre x hx
    rw [hsplit] at hd
    obtain ⟨opt', hloop, -, -⟩ :=
      optionRun_of_taken hmalloc hroot haddr (fun x hx => hd x (List.mem_append_left _ hx)) htaken
    have hfound : found.IsDeclared declaredOptions := hd found (by simp)
    refine Or.inr ⟨pre, found, post, opt', hsplit, htaken, ?_⟩
    rw [hrun, hsplit, hloop, optionRun]
    rcases optionCase_of_not_taken opt' hfound (by simpa using hnot) with ⟨hshort, hresolves, hcase⟩ | ⟨hshort, hcase⟩
    · exact Or.inl ⟨hshort, hresolves, by rw [hcase]⟩
    · exact Or.inr ⟨hshort, by rw [hcase]; rfl⟩

theorem requireOptions_ne_zero : requireOptions true opt ≠ 0 ↔ opt.serverAddr.isSome = true ∧
    opt.rootDir.isSome = true := by
  unfold requireOptions
  split
  · next h => exact iff_of_true (by decide) ⟨h.2.1, h.2.2⟩
  · next h => exact iff_of_false (by simp) fun hset => h ⟨rfl, hset⟩

/-- Where the loop goes through all options, the result is right. -/
theorem optionsRight_of_taken {opt' : ProgOptions} (hall : ∀ found ∈ given env argv, Taken env found)
    (hresult : getOptions env argv opt = .ok (requireOptions true opt', opt'))
    (hroot : opt'.rootDir = lastArgument dirOf (given env argv))
    (haddr : opt'.serverAddr = (lastArgument portOf (given env argv)).bind env.getaddrinfo) :
      OptionsRight env argv opt := by
  have hresolves : ∀ port, lastArgument portOf (given env argv) = some port → (env.getaddrinfo port).isSome = true := by
    intro port hport
    obtain ⟨found, hfound, hport⟩ := exists_of_lastArgument hport
    exact (hall found hfound).2 port hport
  have hset : requireOptions true opt' ≠ 0 ↔ (lastArgument portOf (given env argv)).isSome = true ∧
      (lastArgument dirOf (given env argv)).isSome = true := by
    rw [requireOptions_ne_zero, hroot, haddr]
    cases hport : lastArgument portOf (given env argv) with
    | none => rfl
    | some port => simp [hresolves port hport]
  constructor
  · constructor
    · rintro ⟨retcode, opt'', h, hne⟩
      cases hresult.symm.trans h
      obtain ⟨hport, hdir⟩ := hset.mp hne
      exact ⟨fun hbad => absurd (hall _ hbad).1 (by decide), fun found h => (hall found h).2,
        lastArgument_isSome.mp hport, lastArgument_isSome.mp hdir⟩
    · intro h
      exact ⟨_, opt', hresult, hset.mpr ⟨lastArgument_isSome.mpr h.port, lastArgument_isSome.mpr h.dir⟩⟩
  · intro retcode opt'' h hne
    cases hresult.symm.trans h
    obtain ⟨hport, hdir⟩ := hset.mp hne
    obtain ⟨port, hport⟩ := Option.isSome_iff_exists.mp hport
    obtain ⟨dir, hdir⟩ := Option.isSome_iff_exists.mp hdir
    obtain ⟨addr, hresolved⟩ := Option.isSome_iff_exists.mp (hresolves port hport)
    refine ⟨dir, port, addr, hdir, hport, hresolved, hroot.trans hdir, ?_⟩
    rw [haddr, hport]
    exact hresolved

/-- Where the result is 0, it is right exactly for arguments that are not usable. -/
theorem optionsRight_of_zero (hresult : ∀ retcode opt', getOptions env argv opt = .ok (retcode, opt') → retcode = 0) :
    OptionsRight env argv opt ↔ ¬Usable env argv := by
  constructor
  · intro h husable
    obtain ⟨retcode, opt', hok, hne⟩ := h.nonzero_iff.mpr husable
    exact hne (hresult retcode opt' hok)
  · intro h
    constructor
    · exact iff_of_false (fun ⟨retcode, opt', hok, hne⟩ => hne (hresult retcode opt' hok)) h
    · exact fun retcode opt' hok hne => absurd (hresult retcode opt' hok) hne

/-- The function is right exactly if every port in front of the first long option, or the first that is not declared,
    resolves, and no long option is among usable arguments. -/
theorem optionsRight_iff (hmalloc : ∀ n, env.malloc n = true) : OptionsRight env argv opt ↔
    (∀ found ∈ (given env argv).takeWhile Found.isShort, Resolves env found) ∧
      ((∃ found ∈ given env argv, found.isLong = true) → ¬Usable env argv) := by
  by_cases hargv : argv = []
  · subst hargv
    have hnil : given env [] = [] := rfl
    have husable : ¬Usable env [] := fun h => by simpa [hnil] using h.port
    have hzero : OptionsRight env [] opt ↔ ¬Usable env [] :=
      optionsRight_of_zero fun retcode opt' h => absurd ⟨retcode, opt', h⟩ getOptions_nil
    exact iff_of_true (hzero.mpr husable) ⟨by simp [hnil], fun _ => husable⟩
  rcases getOptions_cases opt hmalloc hargv with ⟨opt', hall, hresult, hroot, haddr⟩ |
    ⟨pre, found, post, opt', hsplit, hpre, ⟨hshort, hport, hresult⟩ | ⟨hshort, hresult⟩⟩
  · refine iff_of_true (optionsRight_of_taken hall hresult hroot haddr) ⟨fun found h => ?_, ?_⟩
    · exact (hall found (List.takeWhile_subset _ h)).2
    · rintro ⟨found, hfound, hlong⟩
      have hshort := (hall found hfound).1
      cases found with
      | long o optarg => cases hshort
      | short c optarg => cases hlong
      | bad => cases hlong
  · -- The result is EXIT_FAILURE, and `main` does not stop.
    have hfound : found ∈ given env argv := by simp [hsplit]
    refine iff_of_false (fun h => ?_) fun h => hport (h.1 found ?_)
    · have husable := h.nonzero_iff.mp ⟨_, opt', hresult, by decide⟩
      exact hport (husable.resolves found hfound)
    · rw [hsplit, List.takeWhile_append_of_pos fun x hx => (hpre x hx).1, List.takeWhile_cons_of_pos hshort]
      simp
  · have hzero : ∀ retcode opt'', getOptions env argv opt = .ok (retcode, opt'') → retcode = 0 :=
      fun retcode opt'' h => by
      cases hresult.symm.trans h
      rfl
    have htake : (given env argv).takeWhile Found.isShort = pre := by
      rw [hsplit, List.takeWhile_append_of_pos fun x hx => (hpre x hx).1, List.takeWhile_cons_of_neg (by simp [hshort]),
        List.append_nil]
    rw [optionsRight_of_zero hzero, htake]
    constructor
    · exact fun h => ⟨fun x hx => (hpre x hx).2, fun _ => h⟩
    · rintro ⟨-, hlong⟩ husable
      have hfound : found ∈ given env argv := by simp [hsplit]
      cases found with
      | short c optarg => cases hshort
      | long o optarg => exact hlong ⟨_, hfound, rfl⟩ husable
      | bad => exact husable.declared hfound

end Options

/-- Of the ports only 8080 resolves. -/
def onePort : Startup := ⟨false, fun _ => true, fun port => if port = str "8080" then some ⟨8080⟩ else none⟩

def noOptions : ProgOptions := ⟨none, none, none, false, 0, none, 0⟩

/-- Letters in one element, an argument behind its letter and an element that is no option. -/
theorem optionsRight_iff_example :
    OptionsRight onePort [str "./tinyweb", str "-d", str "old", str "-vp8080", str "web", str "-d", str "web"]
      noOptions :=
  (optionsRight_iff fun _ => rfl).mpr ⟨by decide +kernel, fun hlong => absurd hlong (by decide +kernel)⟩

/-- A port that does not resolve is a success, without an address; the long options are a failure. -/
theorem badPort_succeeds : ¬OptionsRight onePort [str "tinyweb", str "-d", str "web", str "-p", str "http"] noOptions ∧
    ¬OptionsRight onePort [str "tinyweb", str "--port", str "8080", str "--dir", str "web"] noOptions := by
  constructor
  · intro h
    have hone : getOptions onePort [str "tinyweb", str "-d", str "web", str "-p", str "http"] noOptions =
        .ok (EXIT_FAILURE, { noOptions with
          progname := some (str "tinyweb"), rootDir := some (str "web"), timeout := 120 }) := rfl
    obtain ⟨-, -, addr, -, -, -, -, haddr⟩ := h.pointers _ _ hone (by decide)
    cases haddr
  · intro h
    have hzero : getOptions onePort [str "tinyweb", str "--port", str "8080", str "--dir", str "web"] noOptions =
        .ok (0, { noOptions with progname := some (str "tinyweb"), timeout := 120 }) := rfl
    have husable : Usable onePort [str "tinyweb", str "--port", str "8080", str "--dir", str "web"] :=
      ⟨by decide +kernel, by decide +kernel, by decide +kernel, by decide +kernel⟩
    obtain ⟨retcode, opt', hok, hne⟩ := h.nonzero_iff.mpr husable
    cases hzero.symm.trans hok
    exact hne rfl

end Distsys.Tinyweb
