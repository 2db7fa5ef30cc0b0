import ZipLog.System.Registration

set_option autoImplicit false

namespace ZipLog.System

open ZipLog.Network

-- A process that has gone through its list of storage servers.
def Startup.Settled (s : Startup) (number : Nat) (places : List Place) : Prop :=
  ∃ process : Process, s.processes[number]? = some process ∧ 0 < process.told ∧ process.connecting = [] ∧ process.role.places ⊆ places

theorem settled_same (s next : Startup) (number : Nat) (places : List Place) (same : next.processes[number]? = s.processes[number]?)
    (settled : s.Settled number places) : next.Settled number places := by
  unfold Startup.Settled
  rw [same]
  exact settled

-- Another process changes.
theorem settled_other (s : Startup) (number other : Nat) (places : List Place) (process : Process) (different : other ≠ number)
    (settled : s.Settled number places) : (s.setProcess other process).Settled number places :=
  settled_same s _ number places (List.getElem?_set_ne different) settled

theorem settled_introduce (s next : Startup) (inv : s.Inv) (accepted : Accepted) (waiting : s.accepted = some accepted) (number : Nat)
    (places : List Place) (settled : s.Settled number places) (stepped : s.introduce accepted = some next) : next.Settled number places := by
  have delivered : ∀ (after : Startup) (infos : List (List Place)), after.Settled number places → after.processes = s.processes →
      (after.deliver accepted.peer infos).Settled number places := by
    intro after infos still processes
    have pending := inv.pending accepted waiting
    unfold Startup.deliver
    unfold Startup.Pending at pending
    split
    · exact still
    · rename_i other peer
      rw [peer] at pending
      obtain ⟨newcomer, present, _, _, untold⟩ := pending
      rw [processes, present]
      -- The process that is being introduced has not been told anything.
      refine settled_other after number other places _ ?_ still
      rintro rfl
      obtain ⟨process, there, told, _⟩ := settled
      rw [present] at there
      cases there
      omega
  unfold Startup.introduce at stepped
  split at stepped
  · cases stepped
    exact delivered _ _ (settled_same s _ number places rfl settled) rfl
  · cases stepped
    exact delivered _ _ (settled_same s _ number places rfl settled) rfl
  · obtain ⟨order, _, result⟩ := Option.map_eq_some_iff.mp stepped
    rw [← result]
    exact settled_same s _ number places rfl settled
  · cases stepped
    exact settled_same s _ number places rfl settled

theorem settled_connect (s next : Startup) (number other : Nat) (contact : Contact) (places : List Place)
    (settled : s.Settled number places) (stepped : s.connect other contact = some next) : next.Settled number places := by
  unfold Startup.connect at stepped
  split at stepped
  · cases stepped
  · rename_i process present
    have different : process.connecting ≠ [] → other ≠ number := by
      rintro busy rfl
      obtain ⟨mine, there, _, idle, _⟩ := settled
      rw [present] at there
      cases there
      exact busy idle
    split at stepped
    · cases stepped
    · rename_i address rest connecting
      cases stepped
      exact settled_other s number other places _ (different (by rw [connecting]; exact List.cons_ne_nil _ _)) settled
    · rename_i address rest place returned connecting
      split at stepped
      · cases stepped
      · obtain ⟨_, result⟩ := Option.ite_none_right_eq_some.mp stepped
        cases result
        exact settled_other _ number other places _ (different (by rw [connecting]; exact List.cons_ne_nil _ _))
          (settled_same s _ number places rfl settled)

-- A process that is not told again has no list left to go through.
theorem settled_inform (s : Startup) (inv : s.Inv) (number other : Nat) (places : List Place) (settled : s.Settled number places)
    (process after : Process) (present : s.processes[other]? = some process) (info : List SocketAddress)
    (rest : List (List SocketAddress)) (inbox : process.inbox = info :: rest) : (s.setProcess other after).Settled number places := by
  refine settled_other s number other places _ ?_ settled
  rintro rfl
  obtain ⟨mine, there, told, _⟩ := settled
  rw [present] at there
  cases there
  have once := (inv.processes other process present).once
  rw [inbox, List.length_cons] at once
  omega

theorem settled_role (s : Startup) (number other : Nat) (places : List Place) (settled : s.Settled number places) (process : Process)
    (present : s.processes[other]? = some process) (role : Role) (lessens : process.role.Lessens role) :
    (s.setProcess other { process with role := role }).Settled number places := by
  by_cases same : other = number
  · subst same
    obtain ⟨mine, there, told, idle, fewer⟩ := settled
    rw [present] at there
    cases there
    exact ⟨_, set_there _ _ _ _ present, told, idle, List.Subset.trans lessens.places fewer⟩
  · exact settled_other s number other places _ same settled

theorem launch_settled (s next : Startup) (ip : Nat) (role : Role) (introduction : Message) (number : Nat) (places : List Place)
    (settled : s.Settled number places) (launched : s.launch ip role introduction = some next) : next.Settled number places := by
  obtain ⟨_, result⟩ := Option.ite_none_right_eq_some.mp launched
  cases result
  obtain ⟨process, there, rest⟩ := settled
  exact ⟨process, snoc_there _ _ _ _ there, rest⟩

theorem step_settled (s next : Startup) (event : StartupEvent) (inv : s.Inv) (number : Nat) (places : List Place)
    (settled : s.Settled number places) (stepped : s.step event = some next) : next.Settled number places := by
  cases event with
  | launchStorage site =>
      obtain ⟨_, result⟩ := Option.ite_none_right_eq_some.mp stepped
      cases result
      exact settled_same s _ number places rfl settled
  | launchClient ip clientId shardId failures numSlots =>
      exact launch_settled s next ip _ _ number places settled (Option.ite_none_right_eq_some.mp stepped).2
  | launchSubscriber ip subscriberId pollingThreads =>
      exact launch_settled s next ip _ _ number places settled (Option.ite_none_right_eq_some.mp stepped).2
  | introduce =>
      obtain ⟨accepted, waiting, result⟩ := Option.bind_eq_some_iff.mp stepped
      exact settled_introduce s next inv accepted waiting number places settled result
  | bind station =>
      obtain ⟨_, _, result⟩ := Option.map_eq_some_iff.mp stepped
      rw [← result]
      exact settled_same s _ number places rfl settled
  | inform other =>
      simp only [Startup.step] at stepped
      split at stepped
      · cases stepped
      · rename_i process present
        split at stepped
        · rename_i info rest _ inbox
          cases stepped
          exact settled_inform s inv number other places settled process _ present info rest inbox
        · cases stepped
  | connect other contact => exact settled_connect s next number other contact places settled stepped
  | receive station =>
      simp only [Startup.step] at stepped
      split at stepped
      · cases stepped
      · split at stepped
        · cases stepped
        · obtain ⟨_, _, result⟩ := Option.map_eq_some_iff.mp stepped
          rw [← result]
          exact settled_same s _ number places rfl settled
  | order event =>
      obtain ⟨_, stepped⟩ := Option.ite_none_left_eq_some.mp stepped
      obtain ⟨order, _, result⟩ := Option.map_eq_some_iff.mp stepped
      rw [← result]
      exact settled_same s _ number places rfl settled
  | client other event =>
      obtain ⟨process, shutdown, after, present, role, uninformed, turned, rfl⟩ := client_step_cases s next other event stepped
      exact settled_role s number other places settled process present _
        (by rw [role]; exact shutdown_lessens shutdown after event uninformed turned)
  | subscriber other event =>
      obtain ⟨process, control, after, present, role, uninformed, turned, rfl⟩ := subscriber_step_cases s next other event stepped
      exact settled_role s number other places settled process present _
        (by rw [role]; exact control_lessens control after event uninformed turned)

-- The main result. A client or a subscriber tries a storage server once: to one that did
-- not listen yet it never gets a queue.
theorem contacts_final (numShards : Nat) (events later : List StartupEvent) (s next : Startup)
    (ran : Machine.run Startup.step (Startup.init numShards) events = some s) (continued : Machine.run Startup.step s later = some next)
    (number : Nat) (process : Process) (present : s.processes[number]? = some process) (told : 0 < process.told)
    (idle : process.connecting = []) :
    ∃ after : Process, next.processes[number]? = some after ∧ after.connecting = [] ∧ after.inbox = [] ∧
      after.role.places ⊆ process.role.places := by
  have kept : next.Inv ∧ next.Settled number process.role.places :=
    Machine.run_preserves Startup.step (fun s => s.Inv ∧ s.Settled number process.role.places)
      (fun s event next before stepped =>
        ⟨step_inv s before.1 next event stepped, step_settled s next event before.1 number process.role.places before.2 stepped⟩)
      s next ⟨startup_run numShards events s ran, process, present, told, idle, List.Subset.refl _⟩ later continued
  obtain ⟨inv, after, there, still, finished, fewer⟩ := kept
  refine ⟨after, there, finished, List.eq_nil_of_length_eq_zero ?_, fewer⟩
  have once := (inv.processes number after there).once
  omega

-- A subscriber then reaches the second storage server, and the client does not.
def enrolledLater : List StartupEvent :=
  [.launchSubscriber 4 5 1, .introduce, .inform 1, .connect 1 .failed, .connect 1 (.accepted 1 true), .receive 1]

theorem contacts_final_one_client : ∃ (s next : Startup) (after : Process),
    Machine.run Startup.step (Startup.init 1) enrolment = some s ∧ Machine.run Startup.step s enrolledLater = some next ∧
      next.processes[0]? = some after ∧ after.connecting = [] ∧ after.inbox = [] ∧ after.role.places ⊆ [(0, 0)] ∧
      next.processes.map (fun process => process.role.places) = [[(0, 0)], [(0, 1)]] := by
  have enabled : (Machine.run Startup.step (Startup.init 1) enrolment).bind (fun s => (Machine.run Startup.step s enrolledLater).map (fun next =>
      decide (s.processes.map (fun process => (process.told, process.connecting, process.role.places)) = [(1, [], [(0, 0)])] ∧
        next.processes.map (fun process => process.role.places) = [[(0, 0)], [(0, 1)]]))) = some true := by
    decide +kernel
  obtain ⟨s, ran, enabled⟩ := Option.bind_eq_some_iff.mp enabled
  obtain ⟨next, continued, seen⟩ := Option.map_eq_some_iff.mp enabled
  obtain ⟨before, last⟩ := of_decide_eq_true seen
  obtain ⟨process, rest, shape, here, _⟩ := List.map_eq_cons_iff.mp before
  have present : s.processes[0]? = some process := by rw [shape]; rfl
  obtain ⟨told, idle, places⟩ := Prod.mk.inj here |>.imp id Prod.mk.inj
  obtain ⟨after, there, finished, empty, fewer⟩ :=
    contacts_final 1 enrolment enrolledLater s next ran continued 0 process present (by rw [told]; exact Nat.one_pos) idle
  exact ⟨s, next, after, ran, continued, there, finished, empty, places ▸ fewer, last⟩

end ZipLog.System
