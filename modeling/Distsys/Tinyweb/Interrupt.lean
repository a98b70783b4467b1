import Mathlib.Data.Set.Finite.Basic
import Distsys.Tinyweb.MainLoop

/-! The end of the server by SIGINT (`src/tinyweb.c`): which points of the loop of `main` it may come at for
    the server to accept no one else and to return 0. -/

namespace Distsys.Tinyweb

/-- What `main` returns if it leaves the loop at its next test: -1 and a new connection put aside. -/
def MainLoop.leavesWith (s : MainLoop) : Option Int :=
  match s.position with
  | .loopHead | .behind => some s.retcode
  | .accepted nsd | .forked nsd | .returning nsd => some nsd
  | .returned retcode => some retcode
  | .calling | .accepting | .failed | .exited _ => none

/-- No `accept` of a client. -/
def MainAction.acceptsNone : MainAction → Prop
  | .accept (some _) => False
  | _ => True

/-- The server goes on by itself to `return` from `main` with 0, and accepts no client before. -/
def Stops (fds : Finset Nat) (s : MainLoop) : Prop :=
  (mainSystem fds).Leads (· ≠ .sigint) MainAction.acceptsNone (·.position = .returned 0) s

/-- The steps from here to the end of `main`. -/
def MainPosition.distance : MainPosition → Nat
  | .accepted _ => 5
  | .forked _ => 4
  | .returning _ => 3
  | .loopHead => 2
  | .behind => 1
  | _ => 0

section Stop
variable {fds : Finset Nat} {s : MainLoop} {a : MainAction} {c : Int}

/-- Outside `accept`, a server that has been told to stop goes towards its end. -/
theorem leavesWith_next (hrun : s.serverRunning = false) (hc : s.leavesWith = some c)
    (he : (mainSystem fds).enabled s a) (ha : a ≠ .sigint) : a.acceptsNone ∧
      ((mainSystem fds).next s a).serverRunning = false ∧
      ((mainSystem fds).next s a).leavesWith = some c ∧
      ((mainSystem fds).next s a).position.distance < s.position.distance := by
  obtain ⟨running, retcode, position, fds'⟩ := s
  cases hrun
  match a with
  | .loop | .leave | .ret _ | .close _ _ | .fork _ true | .fork _ false =>
    cases he
    exact ⟨trivial, rfl, hc, Nat.le_of_ble_eq_true rfl⟩
  | .call | .accept none | .exit =>
    cases he
    cases hc
  | .accept (some _) =>
    cases he.1
    cases hc
  | .sigint => exact absurd rfl ha

/-- In front of an `accept` or behind a failure there is no way to a `return`. -/
theorem leavesWith_none (hc : s.leavesWith = none) (he : (mainSystem fds).enabled s a) (ha : a ≠ .sigint)
    (hsafe : a.acceptsNone) (hpos : s.position ≠ .accepting) : ((mainSystem fds).next s a).leavesWith = none := by
  obtain ⟨running, retcode, position, fds'⟩ := s
  match a with
  | .loop | .leave | .ret _ | .close _ _ | .fork _ _ =>
    cases he
    cases hc
  | .call | .exit =>
    cases he
    rfl
  | .accept none => exact absurd he hpos
  | .accept (some _) => cases hsafe
  | .sigint => exact absurd rfl ha

theorem possible_of_leavesWith (hc : s.leavesWith = some c) (hne : ∀ c, s.position ≠ .returned c) :
    ∃ a, a ≠ .sigint ∧ (mainSystem fds).enabled s a := by
  obtain ⟨running, retcode, position, fds'⟩ := s
  cases position with
  | loopHead => exact ⟨.loop, nofun, rfl⟩
  | calling | accepting | failed | exited => cases hc
  | accepted nsd => exact ⟨.fork nsd true, nofun, rfl⟩
  | forked nsd => exact ⟨.close nsd true, nofun, rfl⟩
  | returning nsd => exact ⟨.ret nsd, nofun, rfl⟩
  | behind => exact ⟨.leave, nofun, rfl⟩
  | returned retcode => exact absurd rfl (hne retcode)

theorem serverRunning_next (ha : a ≠ .sigint) : ((mainSystem fds).next s a).serverRunning = s.serverRunning := by
  match a with
  | .loop | .call | .accept none | .accept (some _) | .fork _ _ | .close _ _ | .ret _ | .exit | .leave => rfl
  | .sigint => exact absurd rfl ha

/-- A server that has been told to stop does so exactly from the points that `main` returns 0 from. -/
theorem stops_iff_leavesWith (hrun : s.serverRunning = false) : Stops fds s ↔ s.leavesWith = some 0 := by
  constructor
  · intro h
    induction h with
    | @here s hgoal =>
      unfold MainLoop.leavesWith
      rw [hgoal]
    | @step s hex hsafe _ ih =>
      obtain ⟨a, ha, he⟩ := hex
      have hnext := ih a ha he ((serverRunning_next ha).trans hrun)
      cases hc : s.leavesWith with
      | some c =>
        obtain ⟨-, -, hc', -⟩ := leavesWith_next hrun hc he ha
        exact hc'.symm.trans hnext
      | none =>
        -- Some descriptor is free, so a blocked `accept` may return it.
        have hpos : s.position ≠ .accepting := by
          intro hpos
          obtain ⟨nsd, hnew⟩ := Infinite.exists_notMem_finset s.fds
          exact hsafe (.accept (some nsd)) nofun ⟨hpos, hnew⟩
        rw [leavesWith_none hc he ha (hsafe a ha he) hpos] at hnext
        cases hnext
  · intro hc
    refine System.Leads.of_measure (P := fun s => s.serverRunning = false ∧ s.leavesWith = some 0) (·.position.distance)
      (fun s hs => ?_) (fun s a hs _ ha he => ?_) ⟨hrun, hc⟩
    · by_cases hret : ∃ c, s.position = .returned c
      · obtain ⟨c, hret⟩ := hret
        refine Or.inl ?_
        have hc := hs.2
        unfold MainLoop.leavesWith at hc
        rw [hret] at hc
        rw [hret, Option.some.inj hc]
      · exact Or.inr (possible_of_leavesWith hs.2 fun c hret' => hret ⟨c, hret'⟩)
    · obtain ⟨hsafe, hrun', hc', hlt⟩ := leavesWith_next hs.1 hs.2 he ha
      exact ⟨hsafe, ⟨hrun', hc'⟩, hlt⟩

end Stop

/-- At every point: SIGINT makes the server stop without another client and return 0 exactly if it is between
    the return of an `accept` and the next test, or before the first, and `main` has 0 to return. -/
theorem stops_iff {fds : Finset Nat} {s : MainLoop} :
    Stops fds ((mainSystem fds).next s .sigint) ↔ s.leavesWith = some 0 := by
  have hleaves : ((mainSystem fds).next s .sigint).leavesWith = s.leavesWith := by
    unfold MainLoop.leavesWith mainSystem
    dsimp only
    by_cases hp : s.position = .accepting
    · simp [hp]
    · simp [hp]
  rw [stops_iff_leavesWith rfl, hleaves]

/-- SIGINT while the server waits for a client: `accept_client` fails, and the process exits with -1. -/
theorem blockedAccept_exits : (mainSystem {0, 1, 2, 3}).Allows (fun _ _ => True)
    (mainSystem {0, 1, 2, 3}).init [.loop, .call, .sigint, .exit] ∧
    ((mainSystem {0, 1, 2, 3}).after [.loop, .call, .sigint, .exit]).position = .exited (-1) ∧
    ¬Stops {0, 1, 2, 3} ((mainSystem {0, 1, 2, 3}).after [.loop, .call, .sigint]) := by
  refine ⟨by decide, by decide, fun h => ?_⟩
  cases (stops_iff_leavesWith rfl).mp h

end Distsys.Tinyweb
