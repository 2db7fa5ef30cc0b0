import ZipLog.Lib.Run
import ZipLog.Network.Messages
import Mathlib.Logic.Function.Basic

set_option autoImplicit false

namespace ZipLog.Network

-- The types of an ibv_async_event that process_failure knows, and the others.
inductive EventType where
  | qpFatal
  | qpReqErr
  | qpAccessErr
  | pathMigErr
  | other (code : Nat)
deriving DecidableEq, Repr

def EventType.failure : EventType → Bool
  | .qpFatal => true
  | .qpReqErr => true
  | .qpAccessErr => true
  | .pathMigErr => true
  | .other _ => false

structure AsyncEvent where
  type : EventType
  qp : Nat
deriving DecidableEq, Repr

-- The queue pairs of a manager with their qp_context, a place in handshakes_, or
-- nullptr. attaching are those of the accept or connect that is setting contexts,
-- async what ibv_get_async_event has yet to return. owners, raised and processed are
-- history: the handshake message that came with a queue pair, the events, and for
-- each event that was processed what the callback was called with.
structure Monitor where
  queuePairs : Nat → Option (Option Nat)
  handshakes : List Bytes
  attaching : List Nat
  async : List AsyncEvent
  events : List AsyncEvent
  owners : Nat → Option Bytes
  raised : List AsyncEvent
  processed : List (AsyncEvent × Option Bytes)

def Monitor.init : Monitor := ⟨fun _ => none, [], [], [], [], fun _ => none, [], []⟩

inductive MonitorStep where
  | create (qp : Nat)
  | receive (qps : List Nat) (message : Bytes)
  | attach
  | destroy (qp : Nat)
  | raise (event : AsyncEvent)
  | poll
  | process
deriving DecidableEq, Repr

-- process_failure. Nothing where a queue pair is read that has been destroyed.
def Monitor.process (s : Monitor) : Option Monitor :=
  match s.events with
  | [] => some s
  | event :: rest =>
      if event.type.failure then
        match s.queuePairs event.qp with
        | none => none
        | some context => some { s with events := rest, processed := s.processed ++ [(event, context.bind (fun place => s.handshakes[place]?))] }
      else some { s with events := rest, processed := s.processed ++ [(event, none)] }

-- A queue pair has an address that none had before. accept and connect hold the
-- handshake lock from the copy of the message until all contexts are set; the
-- device raises events for queue pairs that exist.
def Monitor.step (s : Monitor) : MonitorStep → Option Monitor
  | .create qp =>
      if s.queuePairs qp = none ∧ s.owners qp = none then some { s with queuePairs := Function.update s.queuePairs qp (some none) } else none
  | .receive qps message =>
      if s.attaching = [] ∧ qps.Nodup ∧ ∀ qp ∈ qps, s.queuePairs qp = some none ∧ s.owners qp = none then
        some { s with
          handshakes := s.handshakes ++ [message]
          attaching := qps
          owners := fun qp => if qp ∈ qps then some message else s.owners qp }
      else none
  | .attach =>
      match s.attaching with
      | [] => none
      | qp :: rest => some { s with
          queuePairs := Function.update s.queuePairs qp (some (some (s.handshakes.length - 1)))
          attaching := rest }
  | .destroy qp =>
      if (s.queuePairs qp).isSome ∧ qp ∉ s.attaching then some { s with queuePairs := Function.update s.queuePairs qp none } else none
  | .raise event =>
      if (s.queuePairs event.qp).isSome then some { s with async := s.async ++ [event], raised := s.raised ++ [event] } else none
  | .poll =>
      match s.async with
      | [] => none
      | event :: rest => some { s with async := rest, events := s.events ++ [event] }
  | .process => s.process

-- The callback of failure_apply with the one handler that its callers give: the
-- client that is taken for failed.
def failureApply (message : Bytes) : Option Nat :=
  match apply (buffer message) message.length [MessageType.clientIntro.format] with
  | .handled _ =>
      match MessageType.clientIntro.read (buffer message) with
      | some (.clientIntro clientId _ _) => some clientId
      | _ => none
  | _ => none

-- What a context leads to: the message that came with the queue pair, once its
-- context is set.
structure Monitor.Inv (s : Monitor) : Prop where
  order : s.raised = s.processed.map Prod.fst ++ s.events ++ s.async
  nodup : s.attaching.Nodup
  attaching : ∀ qp ∈ s.attaching, s.queuePairs qp = some none ∧ s.owners qp = s.handshakes.getLast? ∧ s.handshakes ≠ []
  context : ∀ qp place, s.queuePairs qp = some (some place) → place < s.handshakes.length ∧ s.owners qp = s.handshakes[place]?
  unset : ∀ qp, s.queuePairs qp = some none → s.owners qp = none ∨ qp ∈ s.attaching
  attributed : ∀ event message, (event, some message) ∈ s.processed → event.type.failure = true ∧ s.owners event.qp = some message

theorem monitor_init : Monitor.init.Inv := by
  constructor
  · rfl
  · exact List.nodup_nil
  · intro qp member
    cases member
  · intro qp place there
    cases there
  · intro qp there
    cases there
  · intro event message member
    cases member

theorem monitor_create (s : Monitor) (inv : s.Inv) (qp : Nat) (fresh : s.queuePairs qp = none) (unknown : s.owners qp = none) :
    ({ s with queuePairs := Function.update s.queuePairs qp (some none) } : Monitor).Inv := by
  refine ⟨inv.order, inv.nodup, ?_, ?_, ?_, inv.attributed⟩
  · intro other member
    have old := inv.attaching other member
    have different : other ≠ qp := by
      intro same
      rw [same, fresh] at old
      cases old.1
    exact ⟨(Function.update_of_ne different _ _).trans old.1, old.2⟩
  · intro other place there
    dsimp only at there
    by_cases same : other = qp
    · subst same
      rw [Function.update_self] at there
      cases there
    · rw [Function.update_of_ne same] at there
      exact inv.context other place there
  · intro other there
    dsimp only at there
    by_cases same : other = qp
    · rw [same]
      exact Or.inl unknown
    · rw [Function.update_of_ne same] at there
      exact inv.unset other there

theorem monitor_receive (s : Monitor) (inv : s.Inv) (qps : List Nat) (message : Bytes) (idle : s.attaching = []) (nodup : qps.Nodup)
    (fresh : ∀ qp ∈ qps, s.queuePairs qp = some none ∧ s.owners qp = none) :
    ({ s with
      handshakes := s.handshakes ++ [message]
      attaching := qps
      owners := fun qp => if qp ∈ qps then some message else s.owners qp } : Monitor).Inv := by
  refine ⟨inv.order, nodup, ?_, ?_, ?_, ?_⟩
  · intro qp member
    refine ⟨(fresh qp member).1, ?_, by simp⟩
    rw [List.getLast?_concat]
    exact if_pos member
  · intro qp place there
    obtain ⟨inside, owner⟩ := inv.context qp place there
    have other : qp ∉ qps := by
      intro member
      rw [(fresh qp member).1] at there
      cases there
    refine ⟨by rw [List.length_append]; exact Nat.lt_add_right _ inside, ?_⟩
    rw [List.getElem?_append_left inside, ← owner]
    exact if_neg other
  · intro qp there
    by_cases member : qp ∈ qps
    · exact Or.inr member
    · cases inv.unset qp there with
      | inl unknown => exact Or.inl ((if_neg member).trans unknown)
      | inr attaching =>
          rw [idle] at attaching
          cases attaching
  · intro event found member
    obtain ⟨failure, owner⟩ := inv.attributed event found member
    refine ⟨failure, ?_⟩
    have other : event.qp ∉ qps := by
      intro inside
      rw [(fresh event.qp inside).2] at owner
      cases owner
    exact (if_neg other).trans owner

theorem monitor_attach (s : Monitor) (inv : s.Inv) (qp : Nat) (rest : List Nat) (next : s.attaching = qp :: rest) :
    ({ s with
      queuePairs := Function.update s.queuePairs qp (some (some (s.handshakes.length - 1)))
      attaching := rest } : Monitor).Inv := by
  have nodup := inv.nodup
  rw [next, List.nodup_cons] at nodup
  obtain ⟨_, owner, nonempty⟩ := inv.attaching qp (by rw [next]; exact List.mem_cons_self ..)
  have length := List.length_pos_iff.mpr nonempty
  refine ⟨inv.order, nodup.2, ?_, ?_, ?_, inv.attributed⟩
  · intro other member
    have old := inv.attaching other (by rw [next]; exact List.mem_cons_of_mem _ member)
    have different : other ≠ qp := fun same => nodup.1 (same ▸ member)
    exact ⟨(Function.update_of_ne different _ _).trans old.1, old.2⟩
  · intro other place there
    dsimp only at there
    by_cases same : other = qp
    · subst same
      rw [Function.update_self] at there
      cases there
      exact ⟨Nat.sub_lt length Nat.one_pos, owner.trans List.getLast?_eq_getElem?⟩
    · rw [Function.update_of_ne same] at there
      exact inv.context other place there
  · intro other there
    dsimp only at there
    by_cases same : other = qp
    · subst same
      rw [Function.update_self] at there
      cases there
    · rw [Function.update_of_ne same] at there
      cases inv.unset other there with
      | inl unknown => exact Or.inl unknown
      | inr attaching =>
          rw [next] at attaching
          exact Or.inr ((List.mem_cons.mp attaching).resolve_left same)

theorem monitor_destroy (s : Monitor) (inv : s.Inv) (qp : Nat) (done : qp ∉ s.attaching) :
    ({ s with queuePairs := Function.update s.queuePairs qp none } : Monitor).Inv := by
  refine ⟨inv.order, inv.nodup, ?_, ?_, ?_, inv.attributed⟩
  · intro other member
    have old := inv.attaching other member
    have different : other ≠ qp := fun same => done (same ▸ member)
    exact ⟨(Function.update_of_ne different _ _).trans old.1, old.2⟩
  · intro other place there
    dsimp only at there
    by_cases same : other = qp
    · subst same
      rw [Function.update_self] at there
      cases there
    · rw [Function.update_of_ne same] at there
      exact inv.context other place there
  · intro other there
    dsimp only at there
    by_cases same : other = qp
    · subst same
      rw [Function.update_self] at there
      cases there
    · rw [Function.update_of_ne same] at there
      exact inv.unset other there

theorem monitor_raise (s : Monitor) (inv : s.Inv) (event : AsyncEvent) :
    ({ s with async := s.async ++ [event], raised := s.raised ++ [event] } : Monitor).Inv := by
  refine ⟨?_, inv.nodup, inv.attaching, inv.context, inv.unset, inv.attributed⟩
  rw [inv.order, List.append_assoc _ s.async]

theorem monitor_poll (s : Monitor) (inv : s.Inv) (event : AsyncEvent) (rest : List AsyncEvent) (next : s.async = event :: rest) :
    ({ s with async := rest, events := s.events ++ [event] } : Monitor).Inv := by
  refine ⟨?_, inv.nodup, inv.attaching, inv.context, inv.unset, inv.attributed⟩
  have order := inv.order
  rw [next] at order
  rw [order]
  simp only [List.append_assoc, List.singleton_append]

-- What the callback is called with, read off the owner of the queue pair instead of
-- its context.
def Monitor.blamed (s : Monitor) (event : AsyncEvent) : Option Bytes :=
  if event.type.failure = true ∧ event.qp ∉ s.attaching then s.owners event.qp else none

theorem context_blamed (s : Monitor) (inv : s.Inv) (event : AsyncEvent) (failure : event.type.failure = true) (context : Option Nat)
    (there : s.queuePairs event.qp = some context) : context.bind (fun place => s.handshakes[place]?) = s.blamed event := by
  unfold Monitor.blamed
  cases context with
  | none =>
      cases inv.unset event.qp there with
      | inl unknown => rw [unknown, ite_self, Option.bind_none]
      | inr attaching => rw [if_neg (fun both => both.2 attaching), Option.bind_none]
  | some place =>
      have free : event.qp ∉ s.attaching := by
        intro member
        rw [(inv.attaching event.qp member).1] at there
        cases there
      rw [if_pos ⟨failure, free⟩, (inv.context event.qp place there).2, Option.bind_some]

theorem process_blamed (s : Monitor) (inv : s.Inv) (event : AsyncEvent) (rest : List AsyncEvent) (next : s.events = event :: rest) :
    s.process = if event.type.failure = true ∧ s.queuePairs event.qp = none then none
      else some { s with events := rest, processed := s.processed ++ [(event, s.blamed event)] } := by
  rw [Monitor.process, next]
  dsimp only
  by_cases failure : event.type.failure = true
  · rw [if_pos failure]
    cases there : s.queuePairs event.qp with
    | none => rw [if_pos ⟨failure, rfl⟩]
    | some context =>
        dsimp only
        rw [if_neg (fun both => (by cases both.2)), context_blamed s inv event failure context there]
  · rw [if_neg failure, if_neg (fun both => failure both.1), Monitor.blamed, if_neg (fun both => failure both.1)]

theorem monitor_blamed (s : Monitor) (inv : s.Inv) (event : AsyncEvent) (rest : List AsyncEvent) (next : s.events = event :: rest) :
    ({ s with events := rest, processed := s.processed ++ [(event, s.blamed event)] } : Monitor).Inv := by
  refine ⟨?_, inv.nodup, inv.attaching, inv.context, inv.unset, ?_⟩
  · rw [inv.order, next, List.map_append, List.append_cons]
    rfl
  · intro seen message member
    cases List.mem_append.mp member with
    | inl old => exact inv.attributed seen message old
    | inr new =>
        obtain ⟨same, blamed⟩ := Prod.mk.inj (List.mem_singleton.mp new)
        rw [same]
        obtain ⟨reached, owner⟩ := Option.ite_none_right_eq_some.mp blamed.symm
        exact ⟨reached.1, owner⟩

theorem monitor_step (s next : Monitor) (inv : s.Inv) (label : MonitorStep) (stepped : s.step label = some next) : next.Inv := by
  cases label with
  | create qp =>
      obtain ⟨⟨fresh, unknown⟩, same⟩ := Option.ite_none_right_eq_some.mp stepped
      cases same
      exact monitor_create s inv qp fresh unknown
  | receive qps message =>
      obtain ⟨⟨idle, nodup, fresh⟩, same⟩ := Option.ite_none_right_eq_some.mp stepped
      cases same
      exact monitor_receive s inv qps message idle nodup fresh
  | attach =>
      rw [Monitor.step] at stepped
      split at stepped
      · cases stepped
      · rename_i qp rest attaching
        cases stepped
        exact monitor_attach s inv qp rest attaching
  | destroy qp =>
      obtain ⟨⟨_, done⟩, same⟩ := Option.ite_none_right_eq_some.mp stepped
      cases same
      exact monitor_destroy s inv qp done
  | raise event =>
      obtain ⟨_, same⟩ := Option.ite_none_right_eq_some.mp stepped
      cases same
      exact monitor_raise s inv event
  | poll =>
      rw [Monitor.step] at stepped
      split at stepped
      · cases stepped
      · rename_i event rest waiting
        cases stepped
        exact monitor_poll s inv event rest waiting
  | process =>
      rw [Monitor.step] at stepped
      cases waiting : s.events with
      | nil =>
          rw [Monitor.process, waiting] at stepped
          cases stepped
          exact inv
      | cons event rest =>
          rw [process_blamed s inv event rest waiting] at stepped
          obtain ⟨_, same⟩ := Option.ite_none_left_eq_some.mp stepped
          cases same
          exact monitor_blamed s inv event rest waiting

theorem monitor_inv (steps : List MonitorStep) (s : Monitor) (ran : Machine.run Monitor.step Monitor.init steps = some s) : s.Inv :=
  Machine.run_preserves Monitor.step Monitor.Inv (fun s label next inv stepped => monitor_step s next inv label stepped)
    Monitor.init s monitor_init steps ran

theorem read_buffer (bytes : Bytes) : Ring.read (buffer bytes) 0 bytes.length = bytes := by
  apply List.ext_getElem
  · rw [Sections.read_length]
  · intro place _ inside
    simp only [Ring.read, buffer, List.getElem_map, List.getElem_range, Nat.zero_add, List.getD_eq_getElem?_getD,
      List.getElem?_eq_getElem inside, Option.getD_some]

-- A handshake message is taken for a client exactly if a client has sent it.
theorem failure_apply_intro (message : Message) (fits : message.Fits) (clientId : Nat) :
    failureApply message.encode = some clientId ↔ ∃ shardId numSlots, message = .clientIntro clientId shardId numSlots := by
  have stored := encode_stored message fits (buffer message.encode) (read_buffer message.encode)
  have applied := stored_apply message fits _ stored [.clientIntro]
  have seen := stored_read message _ stored
  rw [List.map_singleton] at applied
  unfold failureApply
  rw [applied]
  by_cases client : message.type = .clientIntro
  · rw [client] at seen
    rw [if_pos (List.mem_singleton.mpr client), seen]
    cases message <;> cases client
    simp
  · rw [if_neg (fun member => client (List.mem_singleton.mp member))]
    refine ⟨fun none => (by cases none), ?_⟩
    rintro ⟨shardId, numSlots, rfl⟩
    exact absurd rfl client

-- The main result on failures. Every event is kept in order until it is processed.
-- The callback of a failure gets the handshake message that came with the queue pair,
-- and only a client's message names a failed client. A failure is passed over exactly
-- if the connection was not complete, and the context is read after its queue pair
-- was destroyed exactly if the event is a failure of that queue pair.
theorem failures_attributed (steps : List MonitorStep) (s : Monitor) (ran : Machine.run Monitor.step Monitor.init steps = some s) :
    s.raised = s.processed.map Prod.fst ++ s.events ++ s.async ∧
    (∀ event bytes, (event, some bytes) ∈ s.processed → event.type.failure = true ∧ s.owners event.qp = some bytes ∧
      ∀ message : Message, message.Fits → bytes = message.encode → ∀ clientId,
        failureApply bytes = some clientId ↔ ∃ shardId numSlots, message = .clientIntro clientId shardId numSlots) ∧
    ∀ event rest, s.events = event :: rest → s.step .process =
      if event.type.failure = true ∧ s.queuePairs event.qp = none then none
      else some { s with events := rest, processed := s.processed ++ [(event, s.blamed event)] } := by
  have inv := monitor_inv steps s ran
  refine ⟨inv.order, ?_, process_blamed s inv⟩
  intro event bytes member
  obtain ⟨failure, owner⟩ := inv.attributed event bytes member
  refine ⟨failure, owner, ?_⟩
  rintro message fits rfl clientId
  exact failure_apply_intro message fits clientId

-- A client fails whose two queue pairs stand beside those of a storage server.
def twoPeers : List MonitorStep :=
  [.create 1, .create 2, .receive [1, 2] (Message.encode (.clientIntro 7 0 100)), .attach, .attach,
    .create 3, .create 4, .receive [3, 4] (Message.encode (.storageIntro 0 0 1 2021)), .attach, .raise ⟨.qpFatal, 4⟩, .raise ⟨.qpFatal, 1⟩,
    .poll, .poll, .process, .process]

theorem failures_attributed_client : ∃ s, Machine.run Monitor.step Monitor.init twoPeers = some s ∧
    s.processed.map Prod.snd = [none, some (Message.encode (.clientIntro 7 0 100))] ∧
    failureApply (Message.encode (.clientIntro 7 0 100)) = some 7 := by
  have enabled : (Machine.run Monitor.step Monitor.init twoPeers).map (fun s =>
      decide (s.processed = [(⟨.qpFatal, 4⟩, none), (⟨.qpFatal, 1⟩, some (Message.encode (.clientIntro 7 0 100)))])) = some true := by
    decide +kernel
  obtain ⟨s, ran, seen⟩ := Option.map_eq_some_iff.mp enabled
  have processed := of_decide_eq_true seen
  have fits : Message.Fits (.clientIntro 7 0 100) := by
    refine ⟨by decide, ?_, by decide⟩
    intro widths array
    cases array
  obtain ⟨_, attributed, _⟩ := failures_attributed twoPeers s ran
  obtain ⟨_, _, named⟩ := attributed ⟨.qpFatal, 1⟩ _ (by rw [processed]; exact List.mem_cons_of_mem _ (List.mem_singleton_self _))
  exact ⟨s, ran, by rw [processed]; rfl, (named (.clientIntro 7 0 100) fits rfl 7).mpr ⟨0, 100, rfl⟩⟩

end ZipLog.Network
