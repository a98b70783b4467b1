import Distsys.Echod.Slots
import Distsys.Echod.SlaveSteps

/-! The echo server with its connections (`echod.c`): the acceptor, the slave threads call by call, and the descriptors
    of the process. Each descriptor leads to the connection that it was returned for, whoever uses it. -/

namespace Distsys.Echod

/-- A server, and what the kernel keeps of the connections that it has accepted. -/
structure World (ι κ : Type) where
  server : Server ι
  /-- `nsd` of `accept_clients`, until a thread has it. -/
  nsd : Option Nat
  /-- `from_info->sd` of a thread. -/
  sd : ι → Nat
  phase : ι → Phase
  descriptors : Finset Nat
  /-- The connection behind a descriptor. -/
  peer : Nat → κ
  seen : Finset κ
  /-- What was read from a connection and what it has accepted, and the outcomes of the calls on it. -/
  received : κ → Bytes
  echoed : κ → Bytes
  calls : κ → Schedule

/-- The steps of the acceptor, of the threads and of the calls they wait for. -/
inductive Step (ι κ : Type) where
  | loop
  | count
  | wake
  /-- `accept` returns a new descriptor. -/
  | connection (nsd : Nat) (k : κ)
  /-- `accept` returns -1, for a signal or another reason. -/
  | refused (interrupted : Bool)
  | malloc (ok : Bool)
  | create (thread : Option ι)
  /-- A slave thread has its buffer. -/
  | start (i : ι)
  | call (i : ι) (c : SysCall)
  /-- `close`, whose result is not looked at; an error may leave the descriptor open. -/
  | close (i : ι) (released : Bool)
  | leave (i : ι)
  | exit (i : ι)
  | ret

/-- The step of the acceptor or of its counter that this is. -/
def Step.action {ι κ : Type} : Step ι κ → Option (Action ι)
  | .loop => some .loop
  | .count => some .count
  | .wake => some .wake
  | .connection _ _ => some (.accept .connection)
  | .refused interrupted => some (.accept (if interrupted then .eintr else .error))
  | .malloc ok => some (.malloc ok)
  | .create thread => some (.pthreadCreate thread)
  | .start _ | .call _ _ | .close _ _ => none
  | .leave i => some (.leave i)
  | .exit i => some (.exit i)
  | .ret => some .ret

section Steps
variable {ι κ : Type} [DecidableEq ι] [DecidableEq κ]

/-- What a step asks of the threads and the kernel. -/
def World.Guard (w : World ι κ) : Step ι κ → Prop
  | .connection nsd k => nsd ∉ w.descriptors ∧ k ∉ w.seen
  | .start i => i ∈ w.server.threads ∧ w.phase i = .starting
  | .call i c => i ∈ w.server.threads ∧ (w.phase i).awaits c = true
  | .close i _ => i ∈ w.server.threads ∧ w.phase i = .closing
  | .leave i => w.phase i = .closed
  | .exit i => w.phase i = .starting
  | .loop | .count | .wake | .refused _ | .malloc _ | .create _ | .ret => True

/-- The thread `i` and the connection behind its descriptor. -/
def World.slave (w : World ι κ) (i : ι) : Slave where
  phase := w.phase i
  received := w.received (w.peer (w.sd i))
  echoed := w.echoed (w.peer (w.sd i))

/-- What a step changes beside the server. -/
def World.move (w : World ι κ) : Step ι κ → World ι κ
  | .connection nsd k => { w with
      nsd := some nsd
      descriptors := insert nsd w.descriptors
      peer := Function.update w.peer nsd k
      seen := insert k w.seen }
  | .malloc false | .create none => { w with nsd := none }
  | .create (some i) => match w.nsd with
    | none => w
    | some nsd => { w with
        nsd := none
        sd := Function.update w.sd i nsd
        phase := Function.update w.phase i .starting }
  | .start i => { w with phase := Function.update w.phase i (.reading false) }
  | .call i c =>
    let k := w.peer (w.sd i)
    let s := (w.slave i).call c
    { w with
      phase := Function.update w.phase i s.phase
      received := Function.update w.received k s.received
      echoed := Function.update w.echoed k s.echoed
      calls := Function.update w.calls k (w.calls k ++ [c]) }
  | .close i released => { w with
      phase := Function.update w.phase i .closed
      descriptors := if released then w.descriptors.erase (w.sd i) else w.descriptors }
  | .malloc true | .loop | .count | .wake | .refused _ | .leave _ | .exit _ | .ret => w

/-- A step, in the server and beside it. -/
def World.next (w : World ι κ) (e : Step ι κ) : World ι κ :=
  { w.move e with server := e.action.elim w.server w.server.next }

/-- From the start of the loop on, with the passive socket and whatever else is open then. -/
def connectionSystem (ι κ : Type) [DecidableEq ι] [DecidableEq κ] (fds : Finset Nat) (peer : Nat → κ) :
    System (World ι κ) (Step ι κ) where
  init := {
    server := (echodSystem ι).init
    nsd := none
    sd := fun _ => 0
    phase := fun _ => .closed
    descriptors := fds
    peer := peer
    seen := ∅
    received := fun _ => []
    echoed := fun _ => []
    calls := fun _ => [] }
  enabled w e := w.server.alive = true ∧ (∀ a ∈ e.action, w.server.Enabled a) ∧ w.Guard e
  next := World.next

instance (w : World ι κ) : ∀ e, Decidable (w.Guard e)
  | .connection nsd k => inferInstanceAs (Decidable (nsd ∉ w.descriptors ∧ k ∉ w.seen))
  | .start _ | .call _ _ | .close _ _ => inferInstanceAs (Decidable (_ ∧ _))
  | .leave _ | .exit _ => inferInstanceAs (Decidable (_ = _))
  | .loop | .count | .wake | .refused _ | .malloc _ | .create _ | .ret => .isTrue trivial

instance (fds : Finset Nat) (peer : Nat → κ) (w : World ι κ) (e : Step ι κ) :
    Decidable ((connectionSystem ι κ fds peer).enabled w e) :=
  inferInstanceAs (Decidable (_ ∧ (∀ a ∈ e.action, w.server.Enabled a) ∧ w.Guard e))

/-- The acceptor has a connection that no thread has yet. -/
def AcceptorPosition.holds : AcceptorPosition → Bool
  | .accepted | .allocated => true
  | .loopHead | .testing | .waiting _ | .counted | .left => false

/-- The thread has been created and has not closed its connection. -/
def World.Live (w : World ι κ) (i : ι) : Prop := i ∈ w.server.threads ∧ w.phase i ≠ .closed

/-- The acceptor and the threads have open descriptors beside those of the start, each another one, and no two of these
    lead to one connection. -/
structure World.Owned (fds : Finset Nat) (w : World ι κ) : Prop where
  holds : w.nsd.isSome = w.server.position.holds
  kept : fds ⊆ w.descriptors
  hand : ∀ fd, w.nsd = some fd → (fd ∈ w.descriptors ∧ fd ∉ fds) ∧ ∀ i, w.Live i → w.sd i ≠ fd
  live : ∀ i, w.Live i → w.sd i ∈ w.descriptors ∧ w.sd i ∉ fds
  distinct : ∀ i j, w.Live i → w.Live j → w.sd i = w.sd j → i = j
  seen : ∀ fd ∈ w.descriptors, fd ∉ fds → w.peer fd ∈ w.seen
  peers : ∀ fd ∈ w.descriptors, ∀ fd' ∈ w.descriptors, fd ∉ fds → fd' ∉ fds → w.peer fd = w.peer fd' → fd = fd'

variable {w v : World ι κ} {e : Step ι κ} {fds : Finset Nat} {nsd : Nat} {i j : ι} {k : κ} {peer : Nat → κ}

omit [DecidableEq ι] [DecidableEq κ] in
/-- A step that leaves the descriptors where they are. -/
theorem World.Owned.frame (h : w.Owned fds) (hnsd : v.nsd = w.nsd) (hsd : v.sd = w.sd)
    (hdesc : v.descriptors = w.descriptors) (hpeer : v.peer = w.peer) (hseen : v.seen = w.seen)
    (hlive : ∀ i, v.Live i → w.Live i) (hpos : v.server.position.holds = w.server.position.holds) : v.Owned fds where
  holds := by rw [hnsd, hpos, h.holds]
  kept := hdesc ▸ h.kept
  hand fd hfd := by
    obtain ⟨hopen, hother⟩ := h.hand fd (hnsd ▸ hfd)
    rw [hdesc, hsd]
    exact ⟨hopen, fun i hi => hother i (hlive i hi)⟩
  live i hi := by
    rw [hsd, hdesc]
    exact h.live i (hlive i hi)
  distinct i j hi hj := by
    rw [hsd]
    exact h.distinct i j (hlive i hi) (hlive j hj)
  seen := by
    rw [hdesc, hpeer, hseen]
    exact h.seen
  peers := by
    rw [hdesc, hpeer]
    exact h.peers

theorem live_call {c : SysCall} (hi : (w.phase i).awaits c = true) : (w.next (.call i c)).Live j ↔ w.Live j := by
  by_cases hij : j = i
  · subst hij
    have hopen : w.phase j ≠ .closed := by
      intro hj
      rw [hj] at hi
      cases hi
    have hnext : (w.next (.call j c)).phase j ≠ .closed := by
      show Function.update w.phase j _ j ≠ .closed
      rw [Function.update_self]
      exact call_ne_closed (s := w.slave j) hopen
    exact ⟨fun h => ⟨h.1, hopen⟩, fun h => ⟨h.1, hnext⟩⟩
  · have hphase : (w.next (.call i c)).phase j = w.phase j := Function.update_of_ne hij _ _
    rw [World.Live, hphase]
    exact Iff.rfl

theorem live_start (hi : w.phase i = .starting) : (w.next (.start i)).Live j ↔ w.Live j := by
  by_cases hij : j = i
  · subst hij
    have hnext : (w.next (.start j)).phase j = .reading false := Function.update_self _ _ _
    rw [World.Live, World.Live, hnext, hi]
    exact and_congr_right fun _ => iff_of_true nofun nofun
  · have hphase : (w.next (.start i)).phase j = w.phase j := Function.update_of_ne hij _ _
    rw [World.Live, hphase]
    exact Iff.rfl

theorem live_close {released : Bool} (h : (w.next (.close i released)).Live j) : w.Live j ∧ j ≠ i := by
  have hij : j ≠ i := by
    rintro rfl
    exact h.2 (Function.update_self _ _ _)
  have hphase : (w.next (.close i released)).phase j = w.phase j := Function.update_of_ne hij _ _
  exact ⟨⟨h.1, fun hj => h.2 (hphase.trans hj)⟩, hij⟩

theorem live_leave (h : (w.next (.leave i)).Live j) : w.Live j := ⟨Finset.mem_of_mem_erase h.1, h.2⟩

theorem next_create (hnsd : w.nsd = some nsd) : w.next (.create (some i)) = { w with
    server := w.server.next (.pthreadCreate (some i))
    nsd := none
    sd := Function.update w.sd i nsd
    phase := Function.update w.phase i .starting } := by
  unfold World.next World.move
  rw [hnsd]
  rfl

theorem live_create (hnsd : w.nsd = some nsd) (h : (w.next (.create (some i))).Live j) : j = i ∨ j ≠ i ∧ w.Live j := by
  rw [next_create hnsd] at h
  by_cases hij : j = i
  · exact Or.inl hij
  · have hmem : j ∈ w.server.threads := (Finset.mem_insert.mp h.1).resolve_left hij
    have hphase : Function.update w.phase i .starting j ≠ .closed := h.2
    rw [Function.update_of_ne hij] at hphase
    exact Or.inr ⟨hij, hmem, hphase⟩

/-! #### What a step keeps -/

theorem World.Owned.connection (h : w.Owned fds) (hnew : nsd ∉ w.descriptors)
    (hk : k ∉ w.seen) : (w.next (.connection nsd k)).Owned fds := by
  have hne : ∀ fd ∈ w.descriptors, fd ≠ nsd := fun fd hfd => ne_of_mem_of_not_mem hfd hnew
  -- Only the new descriptor leads to the new connection.
  have hpeer : ∀ fd ∈ w.descriptors, (w.next (.connection nsd k)).peer fd = w.peer fd := fun fd hfd =>
    Function.update_of_ne (hne fd hfd) _ _
  have hpeer' : (w.next (.connection nsd k)).peer nsd = k := Function.update_self _ _ _
  have hcases : ∀ {fd}, fd ∈ (w.next (.connection nsd k)).descriptors → fd = nsd ∨ fd ∈ w.descriptors := fun hfd =>
    Finset.mem_insert.mp hfd
  refine ⟨rfl, h.kept.trans (Finset.subset_insert _ _), ?_, ?_, h.distinct, ?_, ?_⟩
  · intro fd hfd
    obtain rfl := Option.some.inj hfd
    refine ⟨⟨Finset.mem_insert_self _ _, fun hmem => hnew (h.kept hmem)⟩, fun i hi => hne _ (h.live i hi).1⟩
  · intro i hi
    obtain ⟨hopen, hother⟩ := h.live i hi
    exact ⟨Finset.mem_insert_of_mem hopen, hother⟩
  · intro fd hfd hother
    rcases hcases hfd with rfl | hopen
    · rw [hpeer']
      exact Finset.mem_insert_self _ _
    · rw [hpeer fd hopen]
      exact Finset.mem_insert_of_mem (h.seen fd hopen hother)
  · intro fd hfd fd' hfd' hother hother' heq
    rcases hcases hfd with rfl | hopen <;> rcases hcases hfd' with rfl | hopen'
    · rfl
    · rw [hpeer', hpeer fd' hopen'] at heq
      exact absurd (heq ▸ h.seen fd' hopen' hother') hk
    · rw [hpeer', hpeer fd hopen] at heq
      exact absurd (heq ▸ h.seen fd hopen hother) hk
    · rw [hpeer fd hopen, hpeer fd' hopen'] at heq
      exact h.peers fd hopen fd' hopen' hother hother' heq

omit [DecidableEq ι] [DecidableEq κ] in
/-- The acceptor gives its connection up. -/
theorem World.Owned.drop (h : w.Owned fds) (hnsd : v.nsd = none) (hsd : v.sd = w.sd)
    (hdesc : v.descriptors = w.descriptors) (hpeer : v.peer = w.peer) (hseen : v.seen = w.seen)
    (hlive : ∀ i, v.Live i → w.Live i) (hpos : v.server.position.holds = false) : v.Owned fds where
  holds := by rw [hnsd, hpos]; rfl
  kept := hdesc ▸ h.kept
  hand fd hfd := by
    rw [hnsd] at hfd
    cases hfd
  live i hi := by
    rw [hsd, hdesc]
    exact h.live i (hlive i hi)
  distinct i j hi hj := by
    rw [hsd]
    exact h.distinct i j (hlive i hi) (hlive j hj)
  seen := by
    rw [hdesc, hpeer, hseen]
    exact h.seen
  peers := by
    rw [hdesc, hpeer]
    exact h.peers

theorem World.Owned.create (h : w.Owned fds) (hnsd : w.nsd = some nsd) : (w.next (.create (some i))).Owned fds := by
  obtain ⟨⟨hopen, hother⟩, hhand⟩ := h.hand nsd hnsd
  have hlive {j : ι} (hj : (w.next (.create (some i))).Live j) : j = i ∨ j ≠ i ∧ w.Live j := live_create hnsd hj
  have hself : (w.next (.create (some i))).sd i = nsd := by
    rw [next_create hnsd]
    exact Function.update_self _ _ _
  have helse {j : ι} (hj : j ≠ i) : (w.next (.create (some i))).sd j = w.sd j := by
    rw [next_create hnsd]
    exact Function.update_of_ne hj _ _
  have hdesc : (w.next (.create (some i))).descriptors = w.descriptors := by rw [next_create hnsd]
  have hpeer : (w.next (.create (some i))).peer = w.peer := by rw [next_create hnsd]
  have hseen : (w.next (.create (some i))).seen = w.seen := by rw [next_create hnsd]
  refine ⟨by rw [next_create hnsd]; rfl, hdesc ▸ h.kept, ?_, ?_, ?_, ?_, ?_⟩
  · intro fd hfd
    rw [next_create hnsd] at hfd
    cases hfd
  · intro j hj
    rw [hdesc]
    rcases hlive hj with rfl | ⟨hji, hj⟩
    · exact hself ▸ ⟨hopen, hother⟩
    · exact helse hji ▸ h.live j hj
  · intro j j' hj hj' heq
    rcases hlive hj with hji | ⟨hji, hlj⟩ <;> rcases hlive hj' with hji' | ⟨hji', hlj'⟩
    · rw [hji, hji']
    · rw [hji, hself, helse hji'] at heq
      exact absurd heq.symm (hhand j' hlj')
    · rw [hji', hself, helse hji] at heq
      exact absurd heq (hhand j hlj)
    · rw [helse hji, helse hji'] at heq
      exact h.distinct j j' hlj hlj' heq
  · rw [hdesc, hpeer, hseen]
    exact h.seen
  · rw [hdesc, hpeer]
    exact h.peers

theorem World.Owned.close {released : Bool} (h : w.Owned fds) (hi : w.Live i) :
    (w.next (.close i released)).Owned fds := by
  have hsub : (w.next (.close i released)).descriptors ⊆ w.descriptors := by
    cases released
    · exact Finset.Subset.refl _
    · exact Finset.erase_subset _ _
  have hkept : ∀ {fd}, fd ∈ w.descriptors → fd ≠ w.sd i → fd ∈ (w.next (.close i released)).descriptors := by
    intro fd hfd hne
    cases released
    · exact hfd
    · exact Finset.mem_erase_of_ne_of_mem hne hfd
  refine ⟨h.holds, fun fd hfd => hkept (h.kept hfd) (ne_of_mem_of_not_mem hfd (h.live i hi).2), ?_, ?_, ?_, ?_, ?_⟩
  · intro fd hfd
    obtain ⟨⟨hopen, hother⟩, hhand⟩ := h.hand fd hfd
    exact ⟨⟨hkept hopen (Ne.symm (hhand i hi)), hother⟩, fun j hj => hhand j (live_close hj).1⟩
  · intro j hj
    obtain ⟨hj, hji⟩ := live_close hj
    obtain ⟨hopen, hother⟩ := h.live j hj
    exact ⟨hkept hopen fun heq => hji (h.distinct j i hj hi heq), hother⟩
  · exact fun j j' hj hj' => h.distinct j j' (live_close hj).1 (live_close hj').1
  · exact fun fd hfd => h.seen fd (hsub hfd)
  · exact fun fd hfd fd' hfd' => h.peers fd (hsub hfd) fd' (hsub hfd')

omit [DecidableEq ι] in
theorem holds_signal {p : AcceptorPosition} : p.signal.holds = p.holds := by
  cases p <;> rfl

omit [DecidableEq κ] in
theorem holds_leave : (w.server.next (.leave i)).position.holds = w.server.position.holds := by
  unfold Server.next
  dsimp only
  split
  · exact holds_signal
  · rfl

/-- A step of the acceptor that leaves the connections alone. -/
theorem World.Owned.move (h : w.Owned fds) (hmove : w.move e = w)
    (hthreads : (w.next e).server.threads = w.server.threads)
    (hpos : (w.next e).server.position.holds = w.server.position.holds) : (w.next e).Owned fds := by
  have hnext : w.next e = { w with server := e.action.elim w.server w.server.next } := by rw [World.next, hmove]
  refine h.frame (by rw [hnext]) (by rw [hnext]) (by rw [hnext]) (by rw [hnext]) (by rw [hnext]) (fun i hi => ?_) hpos
  have hphase := hi.2
  rw [hnext] at hphase
  exact ⟨hthreads ▸ hi.1, hphase⟩

omit [DecidableEq κ] in
/-- The test of the counter: the acceptor waits, or it has a slot. -/
theorem next_count : (w.server.next .count).threads = w.server.threads ∧
    (w.server.next .count).position.holds = false := by
  unfold Server.next
  dsimp only
  split <;> exact ⟨rfl, rfl⟩

theorem World.Owned.next (h : w.Owned fds) (he : (connectionSystem ι κ fds peer).enabled w e) :
    (w.next e).Owned fds := by
  obtain ⟨-, hserver, hguard⟩ := he
  cases e with
  | loop =>
    have hp : w.server.position = .loopHead := hserver _ rfl
    refine h.move rfl rfl ?_
    show (if w.server.serverRunning then AcceptorPosition.testing else .left).holds = _
    rw [hp]
    split <;> rfl
  | count =>
    have hp : w.server.position = .testing := hserver _ rfl
    exact h.move rfl next_count.1 (by rw [hp]; exact next_count.2)
  | wake =>
    have hp : w.server.position = .waiting true ∨ w.server.position = .waiting false := hserver _ rfl
    refine h.move rfl rfl ?_
    rcases hp with hp | hp <;> rw [hp] <;> rfl
  | connection nsd k => exact h.connection hguard.1 hguard.2
  | refused interrupted =>
    have hp : w.server.position = .counted := hserver _ rfl
    cases interrupted <;> exact h.move rfl rfl (by rw [hp]; rfl)
  | malloc ok =>
    have hp : w.server.position = .accepted := hserver _ rfl
    cases ok with
    | true => exact h.move rfl rfl (by rw [hp]; rfl)
    | false => exact h.drop rfl rfl rfl rfl rfl (fun _ hi => hi) rfl
  | create thread =>
    cases thread with
    | none => exact h.drop rfl rfl rfl rfl rfl (fun _ hi => hi) rfl
    | some i =>
      have hp : w.server.position = .allocated ∧ i ∉ w.server.threads := hserver _ rfl
      have hnsd : w.nsd.isSome = true := by rw [h.holds, hp.1]; rfl
      obtain ⟨nsd, hnsd⟩ := Option.isSome_iff_exists.mp hnsd
      exact h.create hnsd
  | start i => exact h.frame rfl rfl rfl rfl rfl (fun j hj => (live_start hguard.2).mp hj) rfl
  | call i c => exact h.frame rfl rfl rfl rfl rfl (fun j hj => (live_call hguard.2).mp hj) rfl
  | close i released => exact h.close ⟨hguard.1, by rw [hguard.2]; decide⟩
  | leave i => exact h.frame rfl rfl rfl rfl rfl (fun j hj => live_leave hj) holds_leave
  | exit i => exact h.frame rfl rfl rfl rfl rfl (fun _ hj => hj) rfl
  | ret => exact h.frame rfl rfl rfl rfl rfl (fun _ hj => hj) rfl

theorem owned_of_reaches (h : (connectionSystem ι κ fds peer).Reaches w) : w.Owned fds := by
  have start : (connectionSystem ι κ fds peer).init.Owned fds := {
    holds := rfl
    kept := Finset.Subset.refl _
    hand := fun _ hfd => nomatch hfd
    live := fun _ hi => absurd hi.1 (Finset.notMem_empty _)
    distinct := fun _ _ hi => absurd hi.1 (Finset.notMem_empty _)
    seen := fun _ hfd hnot => absurd hfd hnot
    peers := fun _ hfd _ _ hnot => absurd hfd hnot }
  exact h.invariant start fun _ _ hw he => hw.next he

/-! ### How many descriptors there are -/

/-- The connection is given up with its descriptor open. -/
def Step.leaks : Step ι κ → Bool
  | .malloc false | .create none | .close _ false => true
  | _ => false

theorem live_leave_iff (hi : w.phase i = .closed) : (w.next (.leave i)).Live j ↔ w.Live j := by
  refine ⟨live_leave, fun h => ⟨Finset.mem_erase_of_ne_of_mem ?_ h.1, h.2⟩⟩
  rintro rfl
  exact h.2 hi

end Steps

/-- The standard streams and the passive socket. -/
def openBefore : Finset Nat := {0, 1, 2, 3}

end Distsys.Echod
