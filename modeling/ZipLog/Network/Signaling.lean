import ZipLog.Network.Outstanding

set_option autoImplicit false

namespace ZipLog.Network

-- The capacities that create_queues asks for.
def maxSendRequests : Nat := maxOutstandingRequests
def completionQueueSize : Nat := 1

theorem outstanding_pos : 0 < maxOutstandingRequests := by decide

def Sender.setMaxOutstanding (sender : Sender) (limit : Nat) : Option Sender :=
  if limit ≤ maxOutstandingRequests then some { sender with maxOutstanding := limit } else none

-- A call of one of the two overloads of send.
structure SendCall where
  buffered : Bool
  data : Bytes
  destination : Nat
  synchronize : Bool
deriving DecidableEq, Repr

-- Every verbs call succeeds.
def SendCall.sending (call : SendCall) : Sending := ⟨call.buffered, call.data, call.destination, call.synchronize, .completed, true, .completed⟩

section

variable {ω : Type}

-- Where the sending thread is: between calls, in the poll before the post of a call,
-- or in the poll after it. A tag says what the request of a call reads.
inductive Phase (ω : Type) where
  | idle
  | waiting (tag : ω) (call : SendCall)
  | synchronizing
deriving DecidableEq, Repr

-- A send_queue and its device. incomplete lists the posted requests that are not
-- complete, completions counts the entries of the completion queue, and posted
-- records every request.
structure Pipeline (ω : Type) where
  sender : Sender
  incomplete : List (ω × Request)
  completions : Nat
  phase : Phase ω
  posted : List (ω × Request)
deriving DecidableEq, Repr

def Pipeline.init (sender : Sender) : Pipeline ω := ⟨{ sender with sentMessages := 0 }, [], 0, .idle, []⟩

def Pipeline.post (s : Pipeline ω) (tag : ω) (synchronize : Bool) (prepared : Sender × Request) : Pipeline ω :=
  { s with
    sender := prepared.1
    incomplete := s.incomplete ++ [(tag, prepared.2)]
    phase := if synchronize then .synchronizing else .idle
    posted := s.posted ++ [(tag, prepared.2)] }

def Pipeline.submit (s : Pipeline ω) (tag : ω) (call : SendCall) : Pipeline ω :=
  s.post tag call.synchronize (s.sender.prepare call.sending)

-- The start of send, up to the first poll if there is one.
def Pipeline.call (s : Pipeline ω) (tag : ω) (call : SendCall) : Option (Pipeline ω) :=
  match s.phase with
  | .idle =>
      if call.sending.limit < call.data.length then none
      else if s.sender.maxOutstanding ≤ s.sender.sentMessages then some { s with phase := .waiting tag call }
      else some (s.submit tag call)
  | _ => none

def Pipeline.consume (s : Pipeline ω) : Pipeline ω :=
  { s with sender := { s.sender with sentMessages := 0 }, completions := s.completions - 1 }

-- One ibv_poll_cq of detail::poll, with what send does when it finds an entry.
def Pipeline.poll (s : Pipeline ω) : Option (Pipeline ω) :=
  match s.phase with
  | .idle => none
  | .waiting tag call => if s.completions = 0 then some s else some (s.consume.submit tag call)
  | .synchronizing => if s.completions = 0 then some s else some { s.consume with phase := .idle }

-- The device completes the requests in the order in which they were posted.
def Pipeline.complete (s : Pipeline ω) : Option (Pipeline ω) :=
  match s.incomplete with
  | [] => none
  | (_, request) :: rest => some { s with
      incomplete := rest
      completions := if request.signaled then s.completions + 1 else s.completions }

inductive PipelineEvent (ω : Type) where
  | call (tag : ω) (call : SendCall)
  | poll
  | complete
deriving DecidableEq, Repr

def Pipeline.step (s : Pipeline ω) : PipelineEvent ω → Option (Pipeline ω)
  | .call tag call => s.call tag call
  | .poll => s.poll
  | .complete => s.complete

-- The signaled completions that no poll has consumed.
def Pipeline.due (s : Pipeline ω) : Nat := (s.incomplete.filter (fun entry => entry.2.signaled)).length + s.completions

-- No request asks for a completion, or the last one does.
def Pipeline.Quiet (s : Pipeline ω) : Prop := s.completions = 0 ∧ ∀ entry ∈ s.incomplete, entry.2.signaled = false

def Pipeline.Closing (s : Pipeline ω) : Prop :=
  (s.incomplete = [] ∧ s.completions = 1) ∨
    (s.completions = 0 ∧ ∃ before last, s.incomplete = before ++ [last] ∧ last.2.signaled = true ∧
      ∀ entry ∈ before, entry.2.signaled = false)

-- How sent_messages_ counts what the device holds.
def Pipeline.Counted (s : Pipeline ω) : Prop :=
  match s.phase with
  | .idle => (s.sender.sentMessages < s.sender.maxOutstanding ∧ s.Quiet ∧ s.incomplete.length ≤ s.sender.sentMessages) ∨
      (s.sender.sentMessages = s.sender.maxOutstanding ∧ s.Closing ∧ s.incomplete.length ≤ s.sender.sentMessages)
  | .waiting _ _ =>
      s.sender.sentMessages = s.sender.maxOutstanding ∧ s.Closing ∧ s.incomplete.length ≤ s.sender.sentMessages
  | .synchronizing => s.sender.sentMessages < s.sender.maxOutstanding ∧ s.Closing ∧ s.incomplete.length ≤ s.sender.sentMessages + 1

structure Pipeline.Inv (limit : Nat) (s : Pipeline ω) : Prop where
  limited : s.sender.maxOutstanding = limit
  positive : 0 < limit
  counted : s.Counted
  recorded : s.incomplete <:+ s.posted

-- A call is made between calls. It waits if the bound has been reached, and else posts.
theorem call_cases (s next : Pipeline ω) (tag : ω) (call : SendCall) (called : s.call tag call = some next) : s.phase = .idle ∧
    (s.sender.maxOutstanding ≤ s.sender.sentMessages ∧ next = { s with phase := .waiting tag call } ∨
      ¬ s.sender.maxOutstanding ≤ s.sender.sentMessages ∧ next = s.submit tag call) := by
  unfold Pipeline.call at called
  cases phase : s.phase with
  | idle =>
      rw [phase] at called
      obtain ⟨-, rest⟩ := Option.ite_none_left_eq_some.mp called
      refine ⟨rfl, ?_⟩
      by_cases full : s.sender.maxOutstanding ≤ s.sender.sentMessages
      · rw [if_pos full] at rest
        exact Or.inl ⟨full, (Option.some.inj rest).symm⟩
      · rw [if_neg full] at rest
        exact Or.inr ⟨full, (Option.some.inj rest).symm⟩
  | waiting other earlier =>
      rw [phase] at called
      cases called
  | synchronizing =>
      rw [phase] at called
      cases called

-- A poll finds nothing, or the entry that the post or the end of a call waits for.
theorem poll_cases (s next : Pipeline ω) (polled : s.poll = some next) : next = s ∨ s.completions ≠ 0 ∧
    ((∃ tag call, s.phase = .waiting tag call ∧ next = s.consume.submit tag call) ∨
      s.phase = .synchronizing ∧ next = { s.consume with phase := .idle }) := by
  unfold Pipeline.poll at polled
  cases phase : s.phase with
  | idle =>
      rw [phase] at polled
      cases polled
  | waiting tag call =>
      rw [phase] at polled
      by_cases none_ : s.completions = 0
      · exact Or.inl (Option.some.inj ((if_pos none_).symm.trans polled)).symm
      · exact Or.inr ⟨none_, Or.inl ⟨tag, call, rfl, (Option.some.inj ((if_neg none_).symm.trans polled)).symm⟩⟩
  | synchronizing =>
      rw [phase] at polled
      by_cases none_ : s.completions = 0
      · exact Or.inl (Option.some.inj ((if_pos none_).symm.trans polled)).symm
      · exact Or.inr ⟨none_, Or.inr ⟨rfl, (Option.some.inj ((if_neg none_).symm.trans polled)).symm⟩⟩

theorem init_signaling (sender : Sender) (positive : 0 < sender.maxOutstanding) :
    (Pipeline.init (ω := ω) sender).Inv sender.maxOutstanding := by
  refine ⟨rfl, positive, ?_, List.suffix_refl _⟩
  apply Or.inl
  refine ⟨positive, ⟨rfl, ?_⟩, Nat.le_refl _⟩
  intro entry member
  cases member

theorem quiet_due (s : Pipeline ω) (quiet : s.Quiet) : s.due = 0 := by
  obtain ⟨none_, plain⟩ := quiet
  have empty : s.incomplete.filter (fun entry => entry.2.signaled) = [] := by
    rw [List.filter_eq_nil_iff]
    intro entry member
    rw [plain entry member]
    exact Bool.false_ne_true
  rw [Pipeline.due, empty, none_]
  rfl

theorem closing_due (s : Pipeline ω) (closing : s.Closing) : s.due = 1 := by
  obtain ⟨empty, one⟩ | ⟨none_, before, last, split, signaled, plain⟩ := closing
  · rw [Pipeline.due, empty, one]
    rfl
  · have quiet : before.filter (fun entry => entry.2.signaled) = [] := by
      rw [List.filter_eq_nil_iff]
      intro entry member
      rw [plain entry member]
      exact Bool.false_ne_true
    have one : [last].filter (fun entry => entry.2.signaled) = [last] := List.filter_cons_of_pos signaled
    rw [Pipeline.due, split, List.filter_append, quiet, one, none_]
    rfl

-- The completion that a poll finds is the last thing the device has to tell.
theorem closing_poll (s : Pipeline ω) (closing : s.Closing) (found : s.completions ≠ 0) :
    s.incomplete = [] ∧ s.consume.completions = 0 := by
  obtain ⟨empty, one⟩ | ⟨none_, -⟩ := closing
  · refine ⟨empty, ?_⟩
    rw [Pipeline.consume, one]
  · exact absurd none_ found

theorem post_inv (limit : Nat) (s : Pipeline ω) (tag : ω) (synchronize : Bool) (prepared : Sender × Request)
    (limited : s.sender.maxOutstanding = limit) (below : s.sender.sentMessages < limit) (quiet : s.Quiet)
    (counted : s.incomplete.length ≤ s.sender.sentMessages) (recorded : s.incomplete <:+ s.posted)
    (most : prepared.1.maxOutstanding = s.sender.maxOutstanding)
    (sent : prepared.1.sentMessages = if synchronize then s.sender.sentMessages else s.sender.sentMessages + 1)
    (signaled : prepared.2.signaled = (synchronize || decide (s.sender.maxOutstanding ≤ s.sender.sentMessages + 1))) :
    (s.post tag synchronize prepared).Inv limit := by
  have length : (s.incomplete ++ [(tag, prepared.2)]).length = s.incomplete.length + 1 := List.length_append
  refine ⟨most.trans limited, Nat.zero_lt_of_lt below, ?_, ?_⟩
  · cases synchronize with
    | true =>
        rw [if_pos rfl] at sent
        rw [Bool.true_or] at signaled
        refine ⟨?_, Or.inr ⟨quiet.1, s.incomplete, _, rfl, signaled, quiet.2⟩, ?_⟩
        · change prepared.1.sentMessages < prepared.1.maxOutstanding
          omega
        · change (s.incomplete ++ [(tag, prepared.2)]).length ≤ prepared.1.sentMessages + 1
          omega
    | false =>
        rw [if_neg Bool.false_ne_true] at sent
        rw [Bool.false_or] at signaled
        have fits : (s.incomplete ++ [(tag, prepared.2)]).length ≤ prepared.1.sentMessages := by omega
        by_cases full : s.sender.maxOutstanding ≤ s.sender.sentMessages + 1
        · rw [decide_eq_true full] at signaled
          refine Or.inr ⟨?_, Or.inr ⟨quiet.1, s.incomplete, _, rfl, signaled, quiet.2⟩, fits⟩
          change prepared.1.sentMessages = prepared.1.maxOutstanding
          omega
        · rw [decide_eq_false full] at signaled
          refine Or.inl ⟨?_, ⟨quiet.1, ?_⟩, fits⟩
          · change prepared.1.sentMessages < prepared.1.maxOutstanding
            omega
          · intro entry member
            obtain member | member := List.mem_append.mp member
            · exact quiet.2 entry member
            · rw [List.mem_singleton.mp member]
              exact signaled
  · obtain ⟨earlier, same⟩ := recorded
    refine ⟨earlier, ?_⟩
    change earlier ++ (s.incomplete ++ [(tag, prepared.2)]) = s.posted ++ [(tag, prepared.2)]
    rw [← List.append_assoc, same]

theorem submit_inv (limit : Nat) (s : Pipeline ω) (tag : ω) (call : SendCall) (limited : s.sender.maxOutstanding = limit)
    (below : s.sender.sentMessages < limit) (quiet : s.Quiet) (counted : s.incomplete.length ≤ s.sender.sentMessages)
    (recorded : s.incomplete <:+ s.posted) : (s.submit tag call).Inv limit := by
  obtain ⟨most, sent, signaled⟩ := prepare_sent s.sender call.sending
  exact post_inv limit s tag call.synchronize _ limited below quiet counted recorded most sent signaled

theorem call_inv (limit : Nat) (s next : Pipeline ω) (tag : ω) (call : SendCall) (inv : s.Inv limit)
    (called : s.call tag call = some next) : next.Inv limit := by
  obtain ⟨idle, outcome⟩ := call_cases s next tag call called
  have counted := inv.counted
  unfold Pipeline.Counted at counted
  rw [idle] at counted
  obtain ⟨full, rfl⟩ | ⟨room, rfl⟩ := outcome
  · obtain ⟨below, -⟩ | closing := counted
    · exact absurd full (Nat.not_le.mpr below)
    · exact ⟨inv.limited, inv.positive, closing, inv.recorded⟩
  · obtain ⟨below, quiet, fits⟩ | ⟨reached, -⟩ := counted
    · exact submit_inv limit s tag call inv.limited (inv.limited ▸ below) quiet fits inv.recorded
    · exact absurd (Nat.le_of_eq reached.symm) room

theorem consume_quiet (s : Pipeline ω) (closing : s.Closing) (found : s.completions ≠ 0) :
    s.consume.Quiet ∧ s.consume.incomplete = [] := by
  obtain ⟨empty, none_⟩ := closing_poll s closing found
  refine ⟨⟨none_, ?_⟩, empty⟩
  intro entry member
  change entry ∈ s.incomplete at member
  rw [empty] at member
  cases member

theorem poll_inv (limit : Nat) (s next : Pipeline ω) (inv : s.Inv limit) (polled : s.poll = some next) : next.Inv limit := by
  have counted := inv.counted
  unfold Pipeline.Counted at counted
  obtain rfl | ⟨found, ⟨tag, call, phase, rfl⟩ | ⟨phase, rfl⟩⟩ := poll_cases s next polled
  · exact inv
  · rw [phase] at counted
    obtain ⟨quiet, empty⟩ := consume_quiet s counted.2.1 found
    refine submit_inv limit s.consume tag call inv.limited inv.positive quiet ?_ inv.recorded
    rw [empty]
    exact Nat.zero_le _
  · rw [phase] at counted
    obtain ⟨quiet, empty⟩ := consume_quiet s counted.2.1 found
    refine ⟨inv.limited, inv.positive, Or.inl ⟨?_, quiet, ?_⟩, inv.recorded⟩
    · exact Nat.lt_of_lt_of_eq inv.positive inv.limited.symm
    · change s.incomplete.length ≤ 0
      rw [show s.incomplete = [] from empty]
      exact Nat.le_refl _

theorem complete_quiet (s next : Pipeline ω) (quiet : s.Quiet) (completed : s.complete = some next) : next.Quiet := by
  unfold Pipeline.complete at completed
  cases held : s.incomplete with
  | nil =>
      rw [held] at completed
      cases completed
  | cons entry rest =>
      rw [held] at completed
      obtain rfl := Option.some.inj completed
      have plain := quiet.2 entry (by rw [held]; exact List.mem_cons_self)
      refine ⟨?_, fun other member => quiet.2 other (by rw [held]; exact List.mem_cons_of_mem _ member)⟩
      change (if entry.2.signaled then s.completions + 1 else s.completions) = 0
      rw [plain, if_neg Bool.false_ne_true]
      exact quiet.1

theorem complete_closing (s next : Pipeline ω) (closing : s.Closing) (completed : s.complete = some next) : next.Closing := by
  unfold Pipeline.complete at completed
  obtain ⟨empty, -⟩ | ⟨none_, before, last, split, signaled, plain⟩ := closing
  · rw [empty] at completed
    cases completed
  · rw [split] at completed
    cases before with
    | nil =>
        obtain rfl := Option.some.inj completed
        refine Or.inl ⟨rfl, ?_⟩
        change (if last.2.signaled then s.completions + 1 else s.completions) = 1
        rw [signaled, if_pos rfl, none_]
    | cons entry before =>
        obtain rfl := Option.some.inj completed
        refine Or.inr ⟨?_, before, last, rfl, signaled, fun other member => plain other (List.mem_cons_of_mem _ member)⟩
        change (if entry.2.signaled then s.completions + 1 else s.completions) = 0
        rw [plain entry List.mem_cons_self, if_neg Bool.false_ne_true]
        exact none_

-- A completion takes the oldest request and leaves the sender alone.
theorem complete_frame (s next : Pipeline ω) (completed : s.complete = some next) :
    next.sender = s.sender ∧ next.phase = s.phase ∧ next.posted = s.posted ∧ ∃ entry, s.incomplete = entry :: next.incomplete := by
  unfold Pipeline.complete at completed
  cases held : s.incomplete with
  | nil =>
      rw [held] at completed
      cases completed
  | cons entry rest =>
      rw [held] at completed
      obtain rfl := Option.some.inj completed
      exact ⟨rfl, rfl, rfl, entry, rfl⟩

theorem complete_inv (limit : Nat) (s next : Pipeline ω) (inv : s.Inv limit) (completed : s.complete = some next) :
    next.Inv limit := by
  obtain ⟨sender, phase, posted, entry, held⟩ := complete_frame s next completed
  have shorter : next.incomplete.length ≤ s.incomplete.length := by
    rw [held]
    exact Nat.le_succ _
  have counted := inv.counted
  unfold Pipeline.Counted at counted
  refine ⟨sender ▸ inv.limited, inv.positive, ?_, ?_⟩
  · unfold Pipeline.Counted
    rw [phase, sender]
    cases here : s.phase with
    | idle =>
        rw [here] at counted
        obtain ⟨below, quiet, fits⟩ | ⟨reached, closing, fits⟩ := counted
        · exact Or.inl ⟨below, complete_quiet s next quiet completed, Nat.le_trans shorter fits⟩
        · exact Or.inr ⟨reached, complete_closing s next closing completed, Nat.le_trans shorter fits⟩
    | waiting tag call =>
        rw [here] at counted
        exact ⟨counted.1, complete_closing s next counted.2.1 completed, Nat.le_trans shorter counted.2.2⟩
    | synchronizing =>
        rw [here] at counted
        exact ⟨counted.1, complete_closing s next counted.2.1 completed, Nat.le_trans shorter counted.2.2⟩
  · rw [posted]
    exact (held ▸ List.suffix_cons entry next.incomplete).trans inv.recorded

theorem signaling_step (limit : Nat) (s next : Pipeline ω) (event : PipelineEvent ω) (inv : s.Inv limit)
    (stepped : s.step event = some next) : next.Inv limit := by
  cases event with
  | call tag call => exact call_inv limit s next tag call inv stepped
  | poll => exact poll_inv limit s next inv stepped
  | complete => exact complete_inv limit s next inv stepped

-- The tags of the calls so far, with the call that waits for its post.
def Phase.tags : Phase ω → List ω
  | .waiting tag _ => [tag]
  | _ => []

def Pipeline.called (s : Pipeline ω) : List ω := s.posted.map Prod.fst ++ s.phase.tags

theorem submit_called (s : Pipeline ω) (tag : ω) (call : SendCall) :
    (s.submit tag call).called = s.posted.map Prod.fst ++ [tag] ∧ (s.submit tag call).phase.tags = [] := by
  have posted : (s.submit tag call).posted = s.posted ++ [(tag, (s.sender.prepare call.sending).2)] := rfl
  have plain : (s.submit tag call).phase.tags = [] := by
    change (if call.synchronize then Phase.synchronizing else Phase.idle).tags = []
    split <;> rfl
  refine ⟨?_, plain⟩
  rw [Pipeline.called, posted, plain, List.map_append, List.append_nil]
  rfl

theorem idle_called (s : Pipeline ω) (idle : s.phase = .idle) : s.called = s.posted.map Prod.fst := by
  rw [Pipeline.called, idle]
  exact List.append_nil _

theorem call_called (s next : Pipeline ω) (tag : ω) (call : SendCall) (called : s.call tag call = some next) :
    next.called = s.called ++ [tag] := by
  obtain ⟨idle, ⟨-, rfl⟩ | ⟨-, rfl⟩⟩ := call_cases s next tag call called
  · rw [idle_called s idle]
    rfl
  · rw [idle_called s idle]
    exact (submit_called s tag call).1

theorem poll_called (s next : Pipeline ω) (polled : s.poll = some next) : next.called = s.called := by
  obtain rfl | ⟨-, ⟨tag, call, phase, rfl⟩ | ⟨phase, rfl⟩⟩ := poll_cases s next polled
  · rfl
  · rw [(submit_called _ tag call).1, Pipeline.called, phase]
    rfl
  · rw [Pipeline.called, Pipeline.called, phase]
    rfl

theorem complete_called (s next : Pipeline ω) (completed : s.complete = some next) : next.called = s.called := by
  obtain ⟨-, phase, posted, -⟩ := complete_frame s next completed
  rw [Pipeline.called, Pipeline.called, phase, posted]

-- What the invariant says of the two limits of the device.
theorem inv_limits (limit : Nat) (s : Pipeline ω) (inv : s.Inv limit) :
    s.incomplete.length ≤ limit ∧ s.due ≤ 1 ∧ (s.phase ≠ .idle → s.due = 1) ∧
      (s.phase = .idle → s.incomplete.length ≤ s.sender.sentMessages) := by
  have counted := inv.counted
  have limited := inv.limited
  unfold Pipeline.Counted at counted
  cases phase : s.phase with
  | idle =>
      rw [phase] at counted
      obtain ⟨below, quiet, fits⟩ | ⟨reached, closing, fits⟩ := counted
      · have none_ := quiet_due s quiet
        exact ⟨by omega, by omega, fun busy => absurd rfl busy, fun _ => fits⟩
      · have one := closing_due s closing
        exact ⟨by omega, by omega, fun busy => absurd rfl busy, fun _ => fits⟩
  | waiting tag call =>
      rw [phase] at counted
      obtain ⟨reached, closing, fits⟩ := counted
      have one := closing_due s closing
      exact ⟨by omega, Nat.le_of_eq one, fun _ => one, fun idle => by cases idle⟩
  | synchronizing =>
      rw [phase] at counted
      obtain ⟨below, closing, fits⟩ := counted
      have one := closing_due s closing
      exact ⟨by omega, Nat.le_of_eq one, fun _ => one, fun idle => by cases idle⟩

end

-- The main result. What a queue has posted and the device has not completed stays
-- within max_send_wr and the completion queue, and no poll waits for nothing.
theorem signaling_within_limits {ω : Type} (sender opened : Sender) (limit : Nat) (positive : 1 ≤ limit)
    (set : sender.setMaxOutstanding limit = some opened) (events : List (PipelineEvent ω)) (s : Pipeline ω)
    (ran : Machine.run Pipeline.step (Pipeline.init opened) events = some s) :
    s.incomplete.length ≤ limit ∧ s.incomplete.length ≤ maxSendRequests ∧
      s.due ≤ completionQueueSize ∧ (s.phase ≠ .idle → s.due = 1) ∧
      (s.phase = .idle → s.incomplete <:+ s.posted ∧ s.incomplete.length ≤ s.sender.sentMessages) := by
  obtain ⟨bounded, same⟩ := Option.ite_none_right_eq_some.mp set
  have limited : opened.maxOutstanding = limit := by rw [← Option.some.inj same]
  have start : (Pipeline.init (ω := ω) opened).Inv limit := limited ▸ init_signaling opened (by omega)
  have inv := Machine.run_preserves Pipeline.step (Pipeline.Inv limit)
    (fun s event next before stepped => signaling_step limit s next event before stepped) _ s start events ran
  obtain ⟨few, due, polls, between⟩ := inv_limits limit s inv
  exact ⟨few, Nat.le_trans few bounded, due, polls, fun idle => ⟨inv.recorded, between idle⟩⟩

-- Three calls with a bound of two: the third waits for the request of the second.
def thirdWaits : List (PipelineEvent Nat) :=
  [.call 0 ⟨true, [1], 0, false⟩, .call 1 ⟨true, [2], 0, false⟩, .call 2 ⟨true, [3], 0, true⟩, .complete]

theorem signaling_within_limits_waiting : ∃ s, Machine.run Pipeline.step (Pipeline.init spareSender) thirdWaits = some s ∧
    s.phase ≠ .idle ∧ s.due = 1 ∧ s.incomplete.length ≤ maxSendRequests := by
  have reached : (Machine.run Pipeline.step (Pipeline.init spareSender) thirdWaits).map (fun s => decide (s.phase ≠ .idle)) =
      some true := by decide +kernel
  obtain ⟨s, ran, busy⟩ := Option.map_eq_some_iff.mp reached
  obtain ⟨-, few, -, polls, -⟩ := signaling_within_limits spareSender spareSender 2 (by decide) rfl thirdWaits s ran
  exact ⟨s, ran, of_decide_eq_true busy, polls (of_decide_eq_true busy), few⟩

end ZipLog.Network
