import Mathlib.Data.Finset.Card
import Distsys.Lib.System

/-! The loop of the server: `main` and `accept_client` in `src/tinyweb.c`, with the descriptors of the
    server process, and with SIGINT at any point. -/

namespace Distsys.Tinyweb

/-- Where the server process is. -/
inductive MainPosition where
  /-- Before the test of `server_running`. -/
  | loopHead
  /-- In `accept_client`, before `accept`. -/
  | calling
  /-- Blocked in `accept`. -/
  | accepting
  /-- Behind an `accept` that has failed. -/
  | failed
  /-- Before `fork`. -/
  | accepted (nsd : Nat)
  /-- The parent of a new process, before `close`. -/
  | forked (nsd : Nat)
  /-- Before the end of `accept_client`. -/
  | returning (nsd : Nat)
  /-- Behind the loop. -/
  | behind
  /-- `return` of `main`. -/
  | returned (retcode : Int)
  /-- `exit` in the loop. -/
  | exited (retcode : Int)
  deriving DecidableEq, Repr

/-- The process is over. -/
def MainPosition.isOver : MainPosition → Bool
  | .returned _ | .exited _ => true
  | _ => false

/-- The server process in the loop of `main`. -/
structure MainLoop where
  serverRunning : Bool
  retcode : Int
  position : MainPosition
  /-- The open descriptors. -/
  fds : Finset Nat
  deriving DecidableEq

/-- The steps of the loop with the results of its calls, and the signal. -/
inductive MainAction where
  /-- The test of `server_running`. -/
  | loop
  | call
  /-- `accept` returns a new descriptor, or -1. -/
  | accept (nsd : Option Nat)
  | fork (nsd : Nat) (ok : Bool)
  /-- The result of `close` is only reported; an error may leave the descriptor open or not. -/
  | close (nsd : Nat) (released : Bool)
  | ret (nsd : Nat)
  /-- `exit` after a failure of `accept_client`. -/
  | exit
  | leave
  | sigint
  deriving DecidableEq, Repr

/-- The loop from its start on. SIGCHLD does not show: its handler restarts `accept`. -/
def mainSystem (fds : Finset Nat) : System MainLoop MainAction where
  init := ⟨true, 0, .loopHead, fds⟩
  enabled
    | s, .loop => s.position = .loopHead
    | s, .call => s.position = .calling
    | s, .accept none => s.position = .accepting
    | s, .accept (some nsd) => s.position = .accepting ∧ nsd ∉ s.fds
    | s, .fork nsd _ => s.position = .accepted nsd
    | s, .close nsd _ => s.position = .forked nsd
    | s, .ret nsd => s.position = .returning nsd
    | s, .exit => s.position = .failed
    | s, .leave => s.position = .behind
    | s, .sigint => s.position.isOver = false
  next
    | s, .loop => { s with position := if s.serverRunning then .calling else .behind }
    | s, .call => { s with position := .accepting }
    | s, .accept none => { s with position := .failed }
    | s, .accept (some nsd) => { s with position := .accepted nsd, fds := insert nsd s.fds }
    | s, .fork nsd ok => { s with position := if ok then .forked nsd else .returning nsd }
    | s, .close nsd released =>
      { s with position := .returning nsd, fds := if released then s.fds.erase nsd else s.fds }
    | s, .ret nsd => { s with position := .loopHead, retcode := nsd }
    | s, .exit => { s with position := .exited (-1) }
    | s, .leave => { s with position := .returned s.retcode }
    -- `sig_handler` is installed without SA_RESTART: a blocked `accept` fails with EINTR.
    | s, .sigint => { s with
        serverRunning := false
        position := if s.position = .accepting then .failed else s.position }

instance (fds : Finset Nat) (s : MainLoop) : ∀ a, Decidable ((mainSystem fds).enabled s a)
  | .loop | .call | .accept none | .fork _ _ | .close _ _ | .ret _ | .exit | .leave | .sigint =>
    inferInstanceAs (Decidable (_ = _))
  | .accept (some nsd) => inferInstanceAs (Decidable (_ ∧ nsd ∉ s.fds))

/-! ### Descriptors -/

/-- The step leaves the socket of a client open. -/
def MainAction.leaks : MainAction → Bool
  | .fork _ false | .close _ false => true
  | _ => false

/-- The socket of the client that is being handed over. -/
def MainPosition.socket : MainPosition → Finset Nat
  | .accepted nsd | .forked nsd => {nsd}
  | _ => ∅

/-- The server has the descriptors it began with, that socket, and as many more as were left open. -/
structure MainLoop.Holds (fds : Finset Nat) (s : MainLoop) (leaks : Nat) : Prop where
  kept : fds ⊆ s.fds
  socket : s.position.socket ⊆ s.fds \ fds
  card : s.fds.card = fds.card + s.position.socket.card + leaks

section Descriptors
variable {fds : Finset Nat} {s t : MainLoop} {a : MainAction} {n nsd : Nat} {p q : MainPosition}

theorem MainLoop.Holds.move (h : s.Holds fds n) (hp : s.position = p) (hq : t.position = q) (hfds : t.fds = s.fds)
    (hsocket : q.socket = p.socket) : t.Holds fds n := by
  obtain ⟨hkept, hsub, hcard⟩ := h
  rw [hp] at hsub hcard
  exact ⟨by rwa [hfds], by rwa [hq, hsocket, hfds], by rwa [hq, hsocket, hfds]⟩

theorem MainLoop.Holds.accept (h : s.Holds fds n) (hp : s.position = .accepting) (hnew : nsd ∉ s.fds) :
    ((mainSystem fds).next s (.accept (some nsd))).Holds fds n where
  kept := h.kept.trans (Finset.subset_insert _ _)
  socket := by
    show {nsd} ⊆ insert nsd s.fds \ fds
    rw [Finset.singleton_subset_iff, Finset.mem_sdiff]
    exact ⟨Finset.mem_insert_self _ _, fun hmem => hnew (h.kept hmem)⟩
  card := by
    show (insert nsd s.fds).card = fds.card + 1 + n
    have hcard := h.card
    rw [hp] at hcard
    rw [Finset.card_insert_of_notMem hnew, hcard]
    show fds.card + 0 + n + 1 = _
    omega

/-- The server gives up on a socket that it still has open. -/
theorem MainLoop.Holds.leak (h : s.Holds fds n) (hp : s.position.socket = {nsd}) (hq : t.position.socket = ∅)
    (hfds : t.fds = s.fds) : t.Holds fds (n + 1) where
  kept := hfds ▸ h.kept
  socket := by
    rw [hq]
    exact Finset.empty_subset _
  card := by
    have hcard := h.card
    rw [hp, Finset.card_singleton] at hcard
    rw [hfds, hcard, hq, Finset.card_empty]
    omega

theorem MainLoop.Holds.close (h : s.Holds fds n) (hp : s.position = .forked nsd) :
    ((mainSystem fds).next s (.close nsd true)).Holds fds n := by
  obtain ⟨hkept, hsub, hcard⟩ := h
  rw [hp] at hsub hcard
  obtain ⟨hmem, hnot⟩ := Finset.mem_sdiff.mp (Finset.singleton_subset_iff.mp hsub)
  refine ⟨?_, Finset.empty_subset _, ?_⟩
  · show fds ⊆ s.fds.erase nsd
    exact Finset.subset_erase.mpr ⟨hkept, hnot⟩
  · show (s.fds.erase nsd).card = fds.card + 0 + n
    rw [Finset.card_erase_of_mem hmem, hcard]
    show fds.card + 1 + n - 1 = _
    omega

theorem MainLoop.Holds.next (h : s.Holds fds n) (he : (mainSystem fds).enabled s a) :
    ((mainSystem fds).next s a).Holds fds (n + if a.leaks then 1 else 0) := by
  match a with
  | .loop =>
    cases hrun : s.serverRunning with
    | true => exact h.move (q := .calling) he (by simp [mainSystem, hrun]) rfl rfl
    | false => exact h.move (q := .behind) he (by simp [mainSystem, hrun]) rfl rfl
  | .call => exact h.move (q := .accepting) he rfl rfl rfl
  | .accept none => exact h.move (q := .failed) he rfl rfl rfl
  | .accept (some _) => exact h.accept he.1 he.2
  | .fork nsd true => exact h.move (q := .forked nsd) he rfl rfl rfl
  | .fork nsd false => exact h.leak (show s.position.socket = {nsd} by rw [he]; rfl) rfl rfl
  | .close _ true => exact h.close he
  | .close nsd false => exact h.leak (show s.position.socket = {nsd} by rw [he]; rfl) rfl rfl
  | .ret _ => exact h.move (q := .loopHead) he rfl rfl rfl
  | .exit => exact h.move (q := .exited (-1)) he rfl rfl rfl
  | .leave => exact h.move (q := .returned s.retcode) he rfl rfl rfl
  | .sigint =>
    by_cases hp : s.position = .accepting
    · exact h.move (q := .failed) hp (by simp [mainSystem, hp]) rfl rfl
    · exact h.move (q := s.position) rfl (by simp [mainSystem, hp]) rfl rfl

theorem holds_after {as : List MainAction} (h : (mainSystem fds).Allows (fun _ _ => True) (mainSystem fds).init as) :
    ((mainSystem fds).after as).Holds fds (as.countP MainAction.leaks) := by
  refine System.after_invariant (Q := fun s taken => s.Holds fds (taken.countP MainAction.leaks))
    ⟨Finset.Subset.refl _, Finset.empty_subset _, rfl⟩ (fun s taken a hs he _ => ?_) h
  rw [List.countP_append, List.countP_singleton]
  exact hs.next he

end Descriptors

/-- For every run that is back at the head of the loop, from whatever descriptors it began with: the server has
    exactly these open if and only if every fork succeeded and every `close` released the socket. -/
theorem descriptors_iff {fds : Finset Nat} {as : List MainAction}
    (h : (mainSystem fds).Allows (fun _ _ => True) (mainSystem fds).init as)
    (hhead : ((mainSystem fds).after as).position = .loopHead) :
    ((mainSystem fds).after as).fds = fds ↔ ∀ a ∈ as, a.leaks = false := by
  obtain ⟨hkept, -, hcard⟩ := holds_after h
  rw [hhead] at hcard
  have hleaks : ((mainSystem fds).after as).fds = fds ↔ as.countP MainAction.leaks = 0 := by
    constructor
    · intro heq
      rw [heq] at hcard
      change fds.card = fds.card + 0 + _ at hcard
      omega
    · intro hzero
      rw [hzero] at hcard
      exact (Finset.eq_of_subset_of_card_le hkept (Nat.le_of_eq hcard)).symm
  rw [hleaks, List.countP_eq_zero]
  simp

/-- A client is served, and no process can be made for a second one. -/
def failedFork : List MainAction :=
  [.loop, .call, .accept (some 4), .fork 4 true, .close 4 true, .ret 4,
    .loop, .call, .accept (some 4), .fork 4 false, .ret 4]

theorem descriptors_iff_example : ((mainSystem {0, 1, 2, 3}).after failedFork).fds = {0, 1, 2, 3} ↔
    ∀ a ∈ failedFork, a.leaks = false :=
  descriptors_iff (by decide) (by decide)

/-- The server is back at the head of its loop, with the socket of the second client open. -/
theorem failedFork_leaks : ((mainSystem {0, 1, 2, 3}).after failedFork).position = .loopHead ∧
    ((mainSystem {0, 1, 2, 3}).after failedFork).retcode = 4 ∧
    ((mainSystem {0, 1, 2, 3}).after failedFork).fds = {0, 1, 2, 3, 4} ∧
    ¬(∀ fds as, (mainSystem fds).Allows (fun _ _ => True) (mainSystem fds).init as →
      ((mainSystem fds).after as).position = .loopHead → ((mainSystem fds).after as).fds = fds) := by
  refine ⟨by decide, by decide, by decide, fun h => ?_⟩
  exact absurd (h {0, 1, 2, 3} failedFork (by decide) (by decide)) (by decide)

end Distsys.Tinyweb
