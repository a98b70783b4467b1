import Distsys.Echod.Connections

/-! What the echo server reads and sends on its connections (`echod.c`): the threads run side by side in any order, and
    each connection gets what the loop of one thread makes of the calls on it. -/

namespace Distsys.Echod

/-- A thread before its first turn. -/
def Slave.looping : Slave := ⟨.reading false, [], []⟩

/-- A thread without its buffer has not come to its first turn. -/
def Phase.looped : Phase → Phase
  | .starting => .reading false
  | p => p

/-- The chunk that the thread is still writing. -/
def Phase.pending : Phase → Bytes
  | .writing _ left => left
  | _ => []

section Streams
variable {ι κ : Type} [DecidableEq ι] [DecidableEq κ] {w v : World ι κ} {e : Step ι κ} {fds : Finset Nat}
  {nsd : Nat} {i j : ι} {k : κ} {peer : Nat → κ} {c : SysCall}

/-- The calls on each connection are those of one thread, which has got from the start of its loop to where it is. -/
structure World.Streamed (w : World ι κ) : Prop where
  unseen : ∀ k, k ∉ w.seen → w.calls k = []
  fits : ∀ k, Slave.looping.Fits (w.calls k)
  received : ∀ k, w.received k = (Slave.looping.after (w.calls k)).received
  echoed : ∀ k, w.echoed k = (Slave.looping.after (w.calls k)).echoed
  serves : ∀ i, w.Live i → (Slave.looping.after (w.calls (w.peer (w.sd i)))).phase = (w.phase i).looped
  hand : ∀ fd, w.nsd = some fd → w.calls (w.peer fd) = []
  writing : ∀ k, (Slave.looping.after (w.calls k)).phase.pending ≠ [] → ∃ i, w.Live i ∧ w.peer (w.sd i) = k

omit [DecidableEq ι] [DecidableEq κ] in
theorem looped_of_awaits {p : Phase} (h : p.awaits c = true) : p.looped = p := by
  cases p <;> first | rfl | (cases c <;> cases h)

theorem looped_call {s : Slave} (h : s.phase.looped = s.phase) : (s.call c).phase.looped = (s.call c).phase := by
  unfold Slave.call
  split <;> first | exact h | rfl | (split <;> first | rfl | (split <;> rfl))

omit [DecidableEq ι] [DecidableEq κ] in
/-- A step that leaves the connections where they are, and each thread in its place. -/
theorem World.Streamed.frame (h : w.Streamed) (hseen : v.seen = w.seen) (hcalls : v.calls = w.calls)
    (hreceived : v.received = w.received) (hechoed : v.echoed = w.echoed) (hsd : v.sd = w.sd) (hpeer : v.peer = w.peer)
    (hnsd : ∀ fd, v.nsd = some fd → w.nsd = some fd) (hlive : ∀ i, v.Live i ↔ w.Live i)
    (hphase : ∀ i, v.Live i → (v.phase i).looped = (w.phase i).looped) : v.Streamed where
  unseen k hk := by
    rw [hcalls]
    exact h.unseen k (hseen ▸ hk)
  fits := hcalls ▸ h.fits
  received := by
    rw [hreceived, hcalls]
    exact h.received
  echoed := by
    rw [hechoed, hcalls]
    exact h.echoed
  serves i hi := by
    rw [hcalls, hpeer, hsd, hphase i hi]
    exact h.serves i ((hlive i).mp hi)
  hand fd hfd := by
    rw [hcalls, hpeer]
    exact h.hand fd (hnsd fd hfd)
  writing k hk := by
    rw [hcalls] at hk
    obtain ⟨i, hi, hik⟩ := h.writing k hk
    rw [hpeer, hsd]
    exact ⟨i, (hlive i).mpr hi, hik⟩

theorem World.Streamed.connection (h : w.Streamed) (ho : w.Owned fds) (hnew : nsd ∉ w.descriptors) (hk : k ∉ w.seen) :
    (w.next (.connection nsd k)).Streamed where
  unseen k' hk' := h.unseen k' fun hmem => hk' (Finset.mem_insert_of_mem hmem)
  fits := h.fits
  received := h.received
  echoed := h.echoed
  serves i hi := by
    have hpeer : (w.next (.connection nsd k)).peer (w.sd i) = w.peer (w.sd i) :=
      Function.update_of_ne (ne_of_mem_of_not_mem (ho.live i hi).1 hnew) _ _
    show (Slave.looping.after (w.calls ((w.next (.connection nsd k)).peer (w.sd i)))).phase = _
    rw [hpeer]
    exact h.serves i hi
  hand fd hfd := by
    obtain rfl := Option.some.inj hfd
    show w.calls (Function.update w.peer nsd k nsd) = []
    rw [Function.update_self]
    exact h.unseen k hk
  writing k' hk' := by
    obtain ⟨i, hi, hik⟩ := h.writing k' hk'
    refine ⟨i, hi, ?_⟩
    show Function.update w.peer nsd k (w.sd i) = k'
    rw [Function.update_of_ne (ne_of_mem_of_not_mem (ho.live i hi).1 hnew)]
    exact hik

theorem World.Streamed.create (h : w.Streamed) (hnsd : w.nsd = some nsd) (hi : i ∉ w.server.threads) :
    (w.next (.create (some i))).Streamed := by
  rw [next_create hnsd]
  refine ⟨h.unseen, h.fits, h.received, h.echoed, fun j hj => ?_, nofun, fun k hk => ?_⟩
  · show (Slave.looping.after (w.calls (w.peer (Function.update w.sd i nsd j)))).phase =
      (Function.update w.phase i .starting j).looped
    have hlive : j = i ∨ j ≠ i ∧ w.Live j := live_create hnsd (by rw [next_create hnsd]; exact hj)
    rcases hlive with rfl | ⟨hne, hlive⟩
    · rw [Function.update_self, Function.update_self, h.hand nsd hnsd]
      rfl
    · rw [Function.update_of_ne hne, Function.update_of_ne hne]
      exact h.serves j hlive
  · obtain ⟨j, hj, hjk⟩ := h.writing k hk
    have hne : j ≠ i := ne_of_mem_of_not_mem hj.1 hi
    refine ⟨j, ⟨Finset.mem_insert_of_mem hj.1, ?_⟩, ?_⟩
    · show Function.update w.phase i .starting j ≠ .closed
      rw [Function.update_of_ne hne]
      exact hj.2
    · show w.peer (Function.update w.sd i nsd j) = k
      rw [Function.update_of_ne hne]
      exact hjk

omit [DecidableEq ι] [DecidableEq κ] in
theorem World.Streamed.slave (h : w.Streamed) (hi : w.Live i) (hawaits : (w.phase i).awaits c = true) :
    w.slave i = Slave.looping.after (w.calls (w.peer (w.sd i))) := by
  have hphase := h.serves i hi
  rw [looped_of_awaits hawaits] at hphase
  unfold World.slave
  rw [← hphase, h.received, h.echoed]

omit [DecidableEq ι] [DecidableEq κ] in
/-- The other threads and the acceptor have other connections. -/
theorem World.Owned.peer_ne (ho : w.Owned fds) (hi : w.Live i) :
    (∀ j, w.Live j → j ≠ i → w.peer (w.sd j) ≠ w.peer (w.sd i)) ∧ ∀ fd, w.nsd = some fd →
      w.peer fd ≠ w.peer (w.sd i) := by
  obtain ⟨hopen, hother⟩ := ho.live i hi
  constructor
  · intro j hj hne heq
    obtain ⟨hopen', hother'⟩ := ho.live j hj
    exact hne (ho.distinct j i hj hi (ho.peers _ hopen' _ hopen hother' hother heq))
  · intro fd hfd heq
    obtain ⟨⟨hopen', hother'⟩, hhand⟩ := ho.hand fd hfd
    exact hhand i hi (ho.peers _ hopen' _ hopen hother' hother heq).symm

/-- A call leaves the other connections as they are. -/
theorem call_frame (hk : k ≠ w.peer (w.sd i)) : (w.next (.call i c)).calls k = w.calls k ∧
    (w.next (.call i c)).received k = w.received k ∧ (w.next (.call i c)).echoed k = w.echoed k :=
  ⟨Function.update_of_ne hk _ _, Function.update_of_ne hk _ _, Function.update_of_ne hk _ _⟩

/-- The calls on the connection of the thread are one more, and it is one that the thread waits for. -/
theorem World.Streamed.call_own (h : w.Streamed) (hi : w.Live i) (hawaits : (w.phase i).awaits c = true) :
    Slave.looping.Fits ((w.next (.call i c)).calls (w.peer (w.sd i))) ∧
      Slave.looping.after ((w.next (.call i c)).calls (w.peer (w.sd i))) = (w.slave i).call c := by
  have hslave := h.slave hi hawaits
  have hcalls : (w.next (.call i c)).calls (w.peer (w.sd i)) = w.calls (w.peer (w.sd i)) ++ [c] :=
    Function.update_self _ _ _
  rw [hcalls, fits_append, after_append, ← hslave]
  exact ⟨⟨h.fits _, hawaits, trivial⟩, rfl⟩

theorem World.Streamed.call (h : w.Streamed) (ho : w.Owned fds) (hi : i ∈ w.server.threads)
    (hawaits : (w.phase i).awaits c = true) : (w.next (.call i c)).Streamed := by
  have hlive : w.Live i := ⟨hi, fun hclosed => by rw [hclosed] at hawaits; cases c <;> cases hawaits⟩
  obtain ⟨hfits, hcall⟩ := h.call_own hlive hawaits
  obtain ⟨hothers, hhand⟩ := ho.peer_ne hlive
  obtain ⟨hopen, hother⟩ := ho.live i hlive
  exact {
    unseen := fun k hk => by
      rw [(call_frame (ne_of_mem_of_not_mem (ho.seen _ hopen hother) hk).symm).1]
      exact h.unseen k hk
    fits := fun k => by
      by_cases hk : k = w.peer (w.sd i)
      · exact hk ▸ hfits
      · rw [(call_frame hk).1]
        exact h.fits k
    received := fun k => by
      by_cases hk : k = w.peer (w.sd i)
      · subst hk
        rw [hcall]
        exact Function.update_self _ _ _
      · rw [(call_frame hk).1, (call_frame hk).2.1]
        exact h.received k
    echoed := fun k => by
      by_cases hk : k = w.peer (w.sd i)
      · subst hk
        rw [hcall]
        exact Function.update_self _ _ _
      · rw [(call_frame hk).1, (call_frame hk).2.2]
        exact h.echoed k
    serves := fun j hj => by
      have hj : w.Live j := (live_call hawaits).mp hj
      by_cases hji : j = i
      · subst hji
        have hphase : (w.next (.call j c)).phase j = ((w.slave j).call c).phase := Function.update_self _ _ _
        rw [hphase, looped_call (looped_of_awaits (p := (w.slave j).phase) hawaits)]
        exact congrArg Slave.phase hcall
      · have hphase : (w.next (.call i c)).phase j = w.phase j := Function.update_of_ne hji _ _
        rw [hphase, ← h.serves j hj]
        exact congrArg (fun sched => (Slave.looping.after sched).phase) (call_frame (hothers j hj hji)).1
    hand := fun fd hfd => (call_frame (hhand fd hfd)).1.trans (h.hand fd hfd)
    writing := fun k hk => by
      by_cases hki : k = w.peer (w.sd i)
      · exact ⟨i, (live_call hawaits).mpr hlive, hki.symm⟩
      · rw [(call_frame hki).1] at hk
        obtain ⟨j, hj, hjk⟩ := h.writing k hk
        exact ⟨j, (live_call hawaits).mpr hj, hjk⟩ }

theorem World.Streamed.close {released : Bool} (h : w.Streamed) (hi : w.Live i) (hp : w.phase i = .closing) :
    (w.next (.close i released)).Streamed where
  unseen := h.unseen
  fits := h.fits
  received := h.received
  echoed := h.echoed
  serves j hj := by
    obtain ⟨hj, hji⟩ := live_close hj
    have hphase : (w.next (.close i released)).phase j = w.phase j := Function.update_of_ne hji _ _
    rw [hphase]
    exact h.serves j hj
  hand := h.hand
  writing k hk := by
    obtain ⟨j, hj, hjk⟩ := h.writing k hk
    have hji : j ≠ i := by
      rintro rfl
      -- A thread that closes its connection writes nothing.
      have hpending : (Slave.looping.after (w.calls k)).phase.pending ≠ [] := hk
      rw [← hjk, h.serves j hj, hp] at hpending
      exact hpending rfl
    refine ⟨j, ⟨hj.1, ?_⟩, hjk⟩
    show Function.update w.phase i .closed j ≠ .closed
    rw [Function.update_of_ne hji]
    exact hj.2

/-- A step of the acceptor, or of a thread outside its loop. -/
theorem World.Streamed.move (h : w.Streamed) (hmove : w.move e = w) (hlive : ∀ i, (w.next e).Live i ↔ w.Live i) :
    (w.next e).Streamed := by
  have hnext : w.next e = { w with server := e.action.elim w.server w.server.next } := by rw [World.next, hmove]
  rw [hnext] at hlive ⊢
  exact h.frame rfl rfl rfl rfl rfl rfl (fun _ hfd => hfd) hlive fun _ _ => rfl

theorem World.Streamed.next (h : w.Streamed) (ho : w.Owned fds) (he : (connectionSystem ι κ fds peer).enabled w e) :
    (w.next e).Streamed := by
  obtain ⟨-, hserver, hguard⟩ := he
  cases e with
  | loop | wake | exit i | ret => exact h.move rfl fun _ => Iff.rfl
  | count =>
    refine h.move rfl fun i => ?_
    show i ∈ (w.server.next .count).threads ∧ _ ↔ _
    rw [next_count.1]
    exact Iff.rfl
  | connection nsd k => exact h.connection ho hguard.1 hguard.2
  | refused interrupted => cases interrupted <;> exact h.move rfl fun _ => Iff.rfl
  | malloc ok =>
    cases ok with
    | true => exact h.move rfl fun _ => Iff.rfl
    | false => exact h.frame rfl rfl rfl rfl rfl rfl nofun (fun _ => Iff.rfl) fun _ _ => rfl
  | create thread =>
    cases thread with
    | none => exact h.frame rfl rfl rfl rfl rfl rfl nofun (fun _ => Iff.rfl) fun _ _ => rfl
    | some i =>
      have hp : w.server.position = .allocated ∧ i ∉ w.server.threads := hserver _ rfl
      obtain ⟨nsd, hnsd⟩ := Option.isSome_iff_exists.mp (ho.holds.trans (by rw [hp.1]; rfl))
      exact h.create hnsd hp.2
  | start i =>
    refine h.frame rfl rfl rfl rfl rfl rfl (fun _ hfd => hfd) (fun _ => live_start hguard.2) fun j _ => ?_
    show (Function.update w.phase i (.reading false) j).looped = _
    by_cases hj : j = i
    · rw [hj, Function.update_self, hguard.2]
      rfl
    · rw [Function.update_of_ne hj]
  | call i c => exact h.call ho hguard.1 hguard.2
  | close i released => exact h.close ⟨hguard.1, by rw [hguard.2]; exact nofun⟩ hguard.2
  | leave i => exact h.move rfl fun _ => live_leave_iff hguard

theorem streamed_of_reaches (h : (connectionSystem ι κ fds peer).Reaches w) : w.Streamed := by
  have start : (connectionSystem ι κ fds peer).init.Streamed := {
    unseen := fun _ _ => rfl
    fits := fun _ => trivial
    received := fun _ => rfl
    echoed := fun _ => rfl
    serves := fun _ hi => absurd hi.1 (Finset.notMem_empty _)
    hand := nofun
    writing := fun _ hk => absurd rfl hk }
  refine (h.invariant (P := fun w => w.Owned fds ∧ w.Streamed) ⟨owned_of_reaches .init, start⟩ fun w e hw he => ?_).2
  exact ⟨hw.1.next he, hw.2.next hw.1 he⟩

end Streams

/-- In every run, whatever the other threads do: what is read from a connection and what is echoed on it are what the
    function of a thread makes of the calls on this connection alone, and so is what the thread that serves it has left
    to do. -/
theorem streams_isolated {ι κ : Type} [DecidableEq ι] [DecidableEq κ] {fds : Finset Nat} {peer : Nat → κ}
    {w : World ι κ} (h : (connectionSystem ι κ fds peer).Reaches w) (k : κ) :
    w.received k = bytesRead (slaveThread (w.calls k)) ∧ w.echoed k = bytesEchoed (slaveThread (w.calls k)) ∧
      ∀ i, w.Live i → w.peer (w.sd i) = k → (w.phase i).looped = (Slave.looping.after (w.calls k)).phase := by
  have hw := streamed_of_reaches h
  obtain ⟨hreceived, hechoed⟩ := after_eq (s := .looping) rfl (hw.fits k)
  refine ⟨(hw.received k).trans hreceived, (hw.echoed k).trans hechoed, ?_⟩
  rintro i hi rfl
  exact (hw.serves i hi).symm

/-- Two threads take turns; the second client has got a part of its chunk. -/
def twoEchoes : List (Step Nat Nat) := [.loop, .count, .connection 4 0, .malloc true, .create (some 1), .loop, .count,
  .connection 5 1, .malloc true, .create (some 2), .start 2, .start 1, .call 1 (.select (.ret 1)),
  .call 2 (.select (.ret 1)), .call 2 (.recv (.data (str "you"))), .call 1 (.recv (.data (str "me"))),
  .call 1 (.select (.ret 1)), .call 2 (.select (.ret 1)), .call 2 (.write (.ret 1)), .call 1 (.write (.ret 2))]

def twoEchoesWorld : World Nat Nat := (connectionSystem Nat Nat openBefore id).after twoEchoes

theorem streams_isolated_example :
    (twoEchoesWorld.received 1 = bytesRead (slaveThread (twoEchoesWorld.calls 1)) ∧
      twoEchoesWorld.echoed 1 = bytesEchoed (slaveThread (twoEchoesWorld.calls 1)) ∧
      ∀ i, twoEchoesWorld.Live i → twoEchoesWorld.peer (twoEchoesWorld.sd i) = 1 →
        (twoEchoesWorld.phase i).looped = (Slave.looping.after (twoEchoesWorld.calls 1)).phase) ∧
    twoEchoesWorld.Live 2 ∧ twoEchoesWorld.peer (twoEchoesWorld.sd 2) = 1 ∧
    twoEchoesWorld.phase 2 = .writing false (str "ou") :=
  ⟨streams_isolated (System.reachesBy_after (by decide +kernel)) 1,
    ⟨by decide +kernel, by decide +kernel⟩, by decide +kernel, by decide +kernel⟩

/-! ### The echo -/

section Echo
variable {s : Slave} {c : SysCall} {sched : Schedule}

/-- As long as no call fails, a thread has echoed what it has read, but for the chunk that it is writing. -/
theorem pending_call (hc : c.Succeeds) (hs : s.received = s.echoed ++ s.phase.pending) :
    (s.call c).received = (s.call c).echoed ++ (s.call c).phase.pending := by
  have idle {p : Phase} (hp : s.phase = p) (hnil : p.pending = []) : s.received = s.echoed := by
    rw [hs, hp, hnil, List.append_nil]
  unfold Slave.call
  split
  case h_1 | h_7 | h_13 => exact hs
  case h_2 _ hp | h_3 _ _ _ hp | h_4 hp | h_5 hp => exact (idle hp rfl).trans (List.append_nil _).symm
  case h_6 bytes hp =>
    have hread := idle hp rfl
    split
    · exact hread.trans (List.append_nil _).symm
    · exact congrArg (· ++ _) hread
  case h_8 left n hp | h_10 left hp =>
    rw [hp] at hs
    exact hs
  case h_9 r heintr hret _ =>
    -- A select that fails.
    rcases hc with hc | ⟨n, hc, hn⟩
    · exact (heintr hc).elim
    · obtain ⟨m, rfl⟩ : ∃ m, n = m + 1 := ⟨n - 1, by omega⟩
      exact (hret m hc).elim
  case h_11 => rcases hc with hc | ⟨n, hc, -⟩ <;> cases hc
  case h_12 left n hp =>
    rw [hp] at hs
    have hpos : 0 < n := by
      rcases hc with hc | ⟨m, hc, hm⟩ <;> cases hc
      exact hm
    split
    · next htake =>
      have hleft : left = [] := (List.take_eq_nil_iff.mp htake).resolve_left (Nat.ne_of_gt hpos)
      rw [hleft] at hs
      exact hs
    · split
      · exact hs.trans (List.append_nil _).symm
      · show s.received = s.echoed ++ left.take n ++ left.drop n
        rw [List.append_assoc, List.take_append_drop]
        exact hs

theorem pending_after : ∀ {sched : Schedule} {s : Slave}, (∀ c ∈ sched, c.Succeeds) →
    s.received = s.echoed ++ s.phase.pending →
    (s.after sched).received = (s.after sched).echoed ++ (s.after sched).phase.pending
  | [], _, _, hs => hs
  | c :: sched, s, hall, hs => by
    have hcall := pending_call (hall c List.mem_cons_self) hs
    exact pending_after (s := s.call c) (fun d hd => hall d (List.mem_cons_of_mem _ hd)) hcall

theorem pending_looped (p : Phase) : p.looped.pending = p.pending := by
  cases p <;> rfl

end Echo

/-- In every run: where no call on a connection has failed, its client has got back what was read from it, but for what
    the thread that serves the connection is writing. -/
theorem echo_back {ι κ : Type} [DecidableEq ι] [DecidableEq κ] {fds : Finset Nat} {peer : Nat → κ} {w : World ι κ}
    (h : (connectionSystem ι κ fds peer).Reaches w) {k : κ} (hall : ∀ c ∈ w.calls k, c.Succeeds) : ∃ left,
    w.received k = w.echoed k ++ left ∧ (left ≠ [] → ∃ i, w.Live i ∧ w.peer (w.sd i) = k ∧
      (w.phase i).pending = left) := by
  have hw := streamed_of_reaches h
  refine ⟨(Slave.looping.after (w.calls k)).phase.pending, ?_, fun hne => ?_⟩
  · rw [hw.received, hw.echoed]
    exact pending_after hall rfl
  · obtain ⟨i, hi, rfl⟩ := hw.writing k hne
    refine ⟨i, hi, rfl, ?_⟩
    rw [hw.serves i hi, pending_looped]

theorem echo_back_example : ∃ left, twoEchoesWorld.received 1 = twoEchoesWorld.echoed 1 ++ left ∧
    (left ≠ [] → ∃ i, twoEchoesWorld.Live i ∧ twoEchoesWorld.peer (twoEchoesWorld.sd i) = 1 ∧
      (twoEchoesWorld.phase i).pending = left) := by
  have hcalls : twoEchoesWorld.calls 1 = [.select (.ret 1), .recv (.data (str "you")), .select (.ret 1),
      .write (.ret 1)] := by
    decide +kernel
  have hall : ∀ c ∈ twoEchoesWorld.calls 1, c.Succeeds := by
    rw [hcalls]
    simp [SysCall.Succeeds]
  exact echo_back (System.reachesBy_after (by decide +kernel)) hall

end Distsys.Echod
