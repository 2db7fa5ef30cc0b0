import ZipLog.Lib.Run
import ZipLog.Network.SendQueue

set_option autoImplicit false

namespace ZipLog.Network

-- What a poll of the completion queue finds: the completion of a signaled request,
-- without or with an error, or the error of another request.
inductive Polled where
  | completed
  | failed
  | flushed
deriving DecidableEq, Repr

-- A call of send for a buffer or for a void*. posted tells whether ibv_post_send
-- succeeds, waited and answered what the two polls find if they are made.
structure Sending where
  buffered : Bool
  data : Bytes
  destination : Nat
  synchronize : Bool
  waited : Polled
  posted : Bool
  answered : Polled
deriving DecidableEq, Repr

def Sending.limit (call : Sending) : Nat := if call.buffered then sendBufferSize else maxInlineData

def Sending.inlined (call : Sending) : Bool := if call.buffered then decide (call.data.length ≤ maxInlineData) else true

-- A send_queue that does not assert on failures, with the numbers of requests that
-- were posted and whose completion no poll has returned.
structure Outstanding where
  sender : Sender
  signaled : Nat
  unsignaled : Nat
deriving DecidableEq, Repr

def Outstanding.init (sender : Sender) : Outstanding := ⟨{ sender with sentMessages := 0 }, 0, 0⟩

def Outstanding.reset (s : Outstanding) : Outstanding := { s with sender := { s.sender with sentMessages := 0 } }

-- detail::poll. none is a wait that does not find this; the flag is false for an error.
def Outstanding.poll (s : Outstanding) : Polled → Option (Outstanding × Bool)
  | .completed => if 0 < s.signaled then some ({ s with signaled := s.signaled - 1 }, true) else none
  | .failed => if 0 < s.signaled then some ({ s with signaled := s.signaled - 1 }, false) else none
  | .flushed => if 0 < s.unsignaled then some ({ s with unsignaled := s.unsignaled - 1 }, false) else none

-- From the flags to the work request.
def Sender.prepare (sender : Sender) (call : Sending) : Sender × Request :=
  let signaled := call.synchronize || decide (sender.maxOutstanding ≤ sender.sentMessages + 1)
  let offset := if sender.offset + call.data.length ≤ receiveBufferSize then sender.offset else 0
  ({ sender with
      offset := align messageAlignment (offset + call.data.length)
      sentMessages := if call.synchronize then sender.sentMessages else sender.sentMessages + 1 },
    ⟨offset, immediate sender.index offset, call.data, call.inlined, signaled, call.destination % sender.numQueues⟩)

def Outstanding.post (s : Outstanding) (prepared : Sender × Request) : Outstanding :=
  if prepared.2.signaled then { s with sender := prepared.1, signaled := s.signaled + 1 }
  else { s with sender := prepared.1, unsignaled := s.unsignaled + 1 }

def Outstanding.finish (polled : Outstanding × Bool) : Outstanding := if polled.2 then polled.1.reset else polled.1

def Outstanding.submit (s : Outstanding) (call : Sending) : Option Outstanding :=
  if call.posted then
    if call.synchronize then ((s.post (s.sender.prepare call)).poll call.answered).map Outstanding.finish
    else some (s.post (s.sender.prepare call))
  else some { s with sender := (s.sender.prepare call).1 }

-- A call that returns. An error of the first poll returns at once.
def Outstanding.step (s : Outstanding) (call : Sending) : Option Outstanding :=
  if call.limit < call.data.length then none
  else if s.sender.maxOutstanding ≤ s.sender.sentMessages then
    match s.poll call.waited with
    | none => none
    | some (polled, true) => polled.reset.submit call
    | some (polled, false) => some polled
  else s.submit call

-- The states in which a call enters detail::poll.
def Outstanding.synchronizes (s : Outstanding) (call : Sending) : List Outstanding :=
  if call.posted ∧ call.synchronize then [s.post (s.sender.prepare call)] else []

def Outstanding.waits (s : Outstanding) (call : Sending) : List Outstanding :=
  if call.limit < call.data.length then []
  else if s.sender.maxOutstanding ≤ s.sender.sentMessages then
    match s.poll call.waited with
    | some (polled, true) => s :: polled.reset.synchronizes call
    | _ => [s]
  else s.synchronizes call

-- Every wait of a run is for a signaled request that was posted.
def WaitsAnswered (start : Outstanding) (calls : List Sending) : Prop :=
  ∀ before call after s, calls = before ++ call :: after → Machine.run Outstanding.step start before = some s →
    ∀ entered ∈ s.waits call, 0 < entered.signaled

-- The last signaled completion is an error that the first poll returns, or the post
-- fails for the request that was to be signaled because of the count. The count
-- starts again after a poll.
structure Outstanding.Derails (s : Outstanding) (call : Sending) : Prop where
  last : s.signaled ≤ if s.sender.maxOutstanding ≤ s.sender.sentMessages then 1 else 0
  error : (s.sender.maxOutstanding ≤ s.sender.sentMessages ∧ call.waited = .failed) ∨
    (call.posted = false ∧ call.synchronize = false ∧ (s.sender.maxOutstanding ≤ s.sender.sentMessages → call.waited = .completed) ∧
      s.sender.maxOutstanding ≤ (if s.sender.maxOutstanding ≤ s.sender.sentMessages then 0 else s.sender.sentMessages) + 1)

-- No call derails the queue, unless no other call follows.
def NeverDerails (start : Outstanding) (calls : List Sending) : Prop :=
  ∀ before call next after s, calls = before ++ call :: next :: after → Machine.run Outstanding.step start before = some s →
    (s.step call).isSome → next.data.length ≤ next.limit → ¬ s.Derails call

def Outstanding.Covered (s : Outstanding) : Prop := s.sender.maxOutstanding ≤ s.sender.sentMessages → 0 < s.signaled

theorem sender_counted (sender : Sender) (offset sentMessages : Nat) :
    ({ sender with offset := offset, sentMessages := sentMessages } : Sender).maxOutstanding = sender.maxOutstanding := rfl

theorem prepare_sent (sender : Sender) (call : Sending) :
    (sender.prepare call).1.maxOutstanding = sender.maxOutstanding ∧
      (sender.prepare call).1.sentMessages = (if call.synchronize then sender.sentMessages else sender.sentMessages + 1) ∧
      (sender.prepare call).2.signaled = (call.synchronize || decide (sender.maxOutstanding ≤ sender.sentMessages + 1)) := by
  unfold Sender.prepare
  exact ⟨sender_counted sender _ _, rfl, rfl⟩

theorem post_sender (s : Outstanding) (prepared : Sender × Request) : (s.post prepared).sender = prepared.1 := by
  unfold Outstanding.post
  split <;> rfl

theorem poll_sender (s polled : Outstanding) (found : Polled) (ok : Bool) (done : s.poll found = some (polled, ok)) :
    polled.sender = s.sender := by
  cases found <;>
    (obtain ⟨-, same⟩ := Option.ite_none_right_eq_some.mp done
     cases same
     rfl)

theorem poll_flag (s polled : Outstanding) (found : Polled) (ok : Bool) (done : s.poll found = some (polled, ok)) :
    (ok = true ↔ found = .completed) ∧ polled.signaled = (if found = .flushed then s.signaled else s.signaled - 1) := by
  cases found <;>
    (obtain ⟨-, same⟩ := Option.ite_none_right_eq_some.mp done
     cases same
     simp)

-- A call that waits at its end leaves a count below the bound.
theorem finish_covered (s polled : Outstanding) (found : Polled) (ok : Bool) (done : s.poll found = some (polled, ok))
    (below : s.sender.sentMessages < s.sender.maxOutstanding) : (Outstanding.finish (polled, ok)).Covered := by
  have sender := poll_sender s polled found ok done
  intro full
  cases ok with
  | true =>
      have count : s.sender.maxOutstanding ≤ 0 := by
        rw [← sender]
        exact full
      omega
  | false =>
      have count : s.sender.maxOutstanding ≤ s.sender.sentMessages := by
        rw [← sender]
        exact full
      omega

theorem submit_covered (s next : Outstanding) (call : Sending) (below : s.sender.sentMessages < s.sender.maxOutstanding)
    (submitted : s.submit call = some next) :
    next.Covered ↔ ¬ (s.signaled = 0 ∧ call.posted = false ∧ call.synchronize = false ∧
      s.sender.maxOutstanding ≤ s.sender.sentMessages + 1) := by
  obtain ⟨most, sent, signaled⟩ := prepare_sent s.sender call
  unfold Outstanding.submit at submitted
  cases posts : call.posted with
  | false =>
      rw [posts, if_neg Bool.false_ne_true] at submitted
      obtain rfl := Option.some.inj submitted
      unfold Outstanding.Covered
      dsimp only
      rw [most, sent]
      cases synchronizes : call.synchronize with
      | true =>
          simp only [if_true, Bool.true_eq_false, false_and, and_false, not_false_eq_true, iff_true]
          omega
      | false =>
          simp only [Bool.false_eq_true, if_false, true_and]
          omega
  | true =>
      rw [posts, if_pos rfl] at submitted
      simp only [Bool.true_eq_false, false_and, and_false, not_false_eq_true, iff_true]
      cases synchronizes : call.synchronize with
      | true =>
          rw [synchronizes, if_pos rfl] at submitted
          obtain ⟨⟨polled, ok⟩, done, rfl⟩ := Option.map_eq_some_iff.mp submitted
          apply finish_covered _ polled call.answered ok done
          rw [post_sender, most, sent, synchronizes]
          exact below
      | false =>
          rw [synchronizes, if_neg Bool.false_ne_true] at submitted
          obtain rfl := Option.some.inj submitted
          intro full
          rw [post_sender, most, sent, synchronizes, if_neg Bool.false_ne_true] at full
          rw [synchronizes, Bool.false_or] at signaled
          rw [Outstanding.post, signaled, if_pos (decide_eq_true full)]
          exact Nat.succ_pos _

theorem submit_most (s next : Outstanding) (call : Sending) (submitted : s.submit call = some next) :
    next.sender.maxOutstanding = s.sender.maxOutstanding := by
  have most := (prepare_sent s.sender call).1
  unfold Outstanding.submit at submitted
  split at submitted
  · split at submitted
    · obtain ⟨⟨polled, ok⟩, done, rfl⟩ := Option.map_eq_some_iff.mp submitted
      have sender := poll_sender _ polled call.answered ok done
      rw [post_sender] at sender
      rw [← most, ← sender]
      cases ok <;> rfl
    · obtain rfl := Option.some.inj submitted
      rw [post_sender, most]
  · obtain rfl := Option.some.inj submitted
    exact most

-- What a call that returns does: an error of the first poll, or the rest of it from
-- a count below the bound.
theorem step_cases (s next : Outstanding) (call : Sending) (stepped : s.step call = some next) :
    call.data.length ≤ call.limit ∧
    ((s.sender.maxOutstanding ≤ s.sender.sentMessages ∧ call.waited ≠ .completed ∧ next.sender = s.sender ∧
        next.signaled = (if call.waited = .flushed then s.signaled else s.signaled - 1)) ∨
      (s.sender.maxOutstanding ≤ s.sender.sentMessages ∧ call.waited = .completed ∧
        ∃ polled : Outstanding, polled.sender = s.sender ∧ polled.signaled = s.signaled - 1 ∧ polled.reset.submit call = some next) ∨
      (s.sender.sentMessages < s.sender.maxOutstanding ∧ s.submit call = some next)) := by
  unfold Outstanding.step at stepped
  obtain ⟨short, rest⟩ := Option.ite_none_left_eq_some.mp stepped
  refine ⟨Nat.le_of_not_lt short, ?_⟩
  by_cases full : s.sender.maxOutstanding ≤ s.sender.sentMessages
  · rw [if_pos full] at rest
    cases done : s.poll call.waited with
    | none =>
        rw [done] at rest
        cases rest
    | some pair =>
        obtain ⟨polled, ok⟩ := pair
        obtain ⟨flag, signaled⟩ := poll_flag s polled call.waited ok done
        have sender := poll_sender s polled call.waited ok done
        rw [done] at rest
        cases ok with
        | true =>
            have completed := flag.mp rfl
            rw [completed, if_neg (by decide)] at signaled
            exact Or.inr (Or.inl ⟨full, completed, polled, sender, signaled, rest⟩)
        | false =>
            obtain rfl := Option.some.inj rest
            exact Or.inl ⟨full, fun completed => Bool.false_ne_true (flag.mpr completed), sender, signaled⟩
  · rw [if_neg full] at rest
    exact Or.inr (Or.inr ⟨Nat.lt_of_not_le full, rest⟩)

theorem posted_sender (s next : Outstanding) (call : Sending) (prepared : Sender × Request) (answered : call.answered = .completed)
    (sent : prepared.1.sentMessages = if call.synchronize then s.sender.sentMessages else s.sender.sentMessages + 1)
    (posted : (if call.synchronize then ((s.post prepared).poll call.answered).map Outstanding.finish else some (s.post prepared)) = some next) :
    next.sender = { prepared.1 with sentMessages := if call.synchronize then 0 else s.sender.sentMessages + 1 } := by
  cases synchronizes : call.synchronize with
  | true =>
      rw [if_pos synchronizes] at posted
      obtain ⟨⟨polled, ok⟩, done, rfl⟩ := Option.map_eq_some_iff.mp posted
      have sender := poll_sender _ polled call.answered ok done
      obtain rfl := (poll_flag _ polled call.answered ok done).1.mpr answered
      rw [post_sender] at sender
      rw [if_pos rfl, ← sender]
      rfl
  | false =>
      rw [synchronizes, if_neg Bool.false_ne_true] at posted sent
      obtain rfl := Option.some.inj posted
      rw [post_sender, if_neg Bool.false_ne_true, ← sent]

theorem submit_posts (s next : Outstanding) (call : Sending) (posted : call.posted = true) (answered : call.answered = .completed)
    (submitted : s.submit call = some next) :
    next.sender = { (s.sender.prepare call).1 with sentMessages := if call.synchronize then 0 else s.sender.sentMessages + 1 } := by
  rw [Outstanding.submit, if_pos posted] at submitted
  exact posted_sender s next call _ answered (prepare_sent s.sender call).2.1 submitted

theorem prepare_sender (sender : Sender) (call : Sending) :
    ∃ sentMessages, (sender.prepare call).1 = { sender with
      offset := align messageAlignment
        ((if sender.offset + call.data.length ≤ receiveBufferSize then sender.offset else 0) + call.data.length)
      sentMessages := sentMessages } := by
  unfold Sender.prepare
  exact ⟨_, rfl⟩

theorem prepare_reset (sender : Sender) (call : Sending) (count : Nat) :
    ({ (Sender.prepare { sender with sentMessages := 0 } call).1 with sentMessages := count } : Sender) =
      { (sender.prepare call).1 with sentMessages := count } := by
  obtain ⟨first, reset⟩ := prepare_sender { sender with sentMessages := 0 } call
  obtain ⟨second, same⟩ := prepare_sender sender call
  rw [reset, same]

theorem post_counted (sender : Sender) (call : Sending) (short : call.data.length ≤ call.limit) (count : Nat)
    (counted : (if sender.maxOutstanding ≤ sender.sentMessages then 0 else sender.sentMessages) = count) :
    ∃ request, sender.post call.limit call.inlined call.data call.destination call.synchronize =
      some ({ (sender.prepare call).1 with sentMessages := if call.synchronize then 0 else count + 1 }, request) := by
  obtain ⟨sentMessages, same⟩ := prepare_sender sender call
  rw [Sender.post, if_neg (Nat.not_lt.mpr short), counted, same]
  dsimp only
  generalize align messageAlignment _ = offset
  exact ⟨_, rfl⟩

-- With a post that succeeds and polls without an error a call is that of SendQueue.
theorem step_posts (s next : Outstanding) (call : Sending) (posted : call.posted = true) (waited : call.waited = .completed)
    (answered : call.answered = .completed) (stepped : s.step call = some next) :
    ∃ request, (if call.buffered then s.sender.sendBuffer call.data call.destination call.synchronize
      else s.sender.sendInline call.data call.destination call.synchronize) = some (next.sender, request) := by
  have same : (if call.buffered then s.sender.sendBuffer call.data call.destination call.synchronize
      else s.sender.sendInline call.data call.destination call.synchronize) =
        s.sender.post call.limit call.inlined call.data call.destination call.synchronize := by
    unfold Sending.limit Sending.inlined
    cases call.buffered <;> rfl
  obtain ⟨short, ⟨-, notDone, -⟩ | ⟨full, -, polled, sender, -, submitted⟩ | ⟨below, submitted⟩⟩ := step_cases s next call stepped
  · exact absurd waited notDone
  · obtain ⟨request, done⟩ := post_counted s.sender call short 0 (if_pos full)
    refine ⟨request, ?_⟩
    rw [same, done, submit_posts _ next call posted answered submitted]
    have start : polled.reset.sender = { s.sender with sentMessages := 0 } := by rw [Outstanding.reset, sender]
    have zero : polled.reset.sender.sentMessages = 0 := rfl
    rw [zero, start, prepare_reset]
  · obtain ⟨request, done⟩ := post_counted s.sender call short _ (if_neg (Nat.not_le.mpr below))
    exact ⟨request, by rw [same, done, submit_posts s next call posted answered submitted]⟩

theorem step_most (s next : Outstanding) (call : Sending) (stepped : s.step call = some next) :
    next.sender.maxOutstanding = s.sender.maxOutstanding := by
  obtain ⟨-, ⟨-, -, sender, -⟩ | ⟨-, -, polled, sender, -, submitted⟩ | ⟨-, submitted⟩⟩ := step_cases s next call stepped
  · rw [sender]
  · rw [submit_most _ next call submitted, ← sender]
    rfl
  · exact submit_most s next call submitted

-- A call leaves the queue without a completion to wait for if and only if it derails it.
theorem step_covered (s next : Outstanding) (call : Sending) (positive : 0 < s.sender.maxOutstanding) (covered : s.Covered)
    (stepped : s.step call = some next) : next.Covered ↔ ¬ s.Derails call := by
  obtain ⟨-, ⟨full, notDone, sender, signaled⟩ | ⟨full, completed, polled, sender, signaled, submitted⟩ | ⟨below, submitted⟩⟩ :=
    step_cases s next call stepped
  · have some_ := covered full
    unfold Outstanding.Covered
    rw [sender, signaled]
    constructor
    · intro stays derails
      obtain ⟨last, error⟩ := derails
      rw [if_pos full] at last
      have failed : call.waited = .failed := by
        cases error with
        | inl error => exact error.2
        | inr error => exact absurd (error.2.2.1 full) notDone
      have left := stays full
      rw [failed, if_neg (by decide)] at left
      omega
    · intro fine _
      by_cases flushed : call.waited = .flushed
      · rwa [if_pos flushed]
      · rw [if_neg flushed]
        have failed : call.waited = .failed := by
          cases found : call.waited with
          | completed => exact absurd found notDone
          | failed => rfl
          | flushed => exact absurd found flushed
        by_contra none_
        exact fine ⟨by rw [if_pos full]; omega, Or.inl ⟨full, failed⟩⟩
  · have some_ := covered full
    have most : polled.reset.sender.maxOutstanding = s.sender.maxOutstanding := by
      rw [← sender]
      rfl
    have step := submit_covered polled.reset next call (by rw [most]; exact positive) submitted
    rw [step, most]
    apply not_congr
    constructor
    · rintro ⟨empty, posted, plain, count⟩
      have last : s.signaled - 1 = 0 := signaled.symm.trans empty
      refine ⟨by rw [if_pos full]; omega, Or.inr ⟨posted, plain, fun _ => completed, ?_⟩⟩
      rw [if_pos full]
      exact count
    · rintro ⟨last, ⟨-, failed⟩ | ⟨posted, plain, -, count⟩⟩
      · rw [completed] at failed
        cases failed
      · rw [if_pos full] at last count
        have empty : polled.reset.signaled = s.signaled - 1 := signaled
        exact ⟨by omega, posted, plain, count⟩
  · have room : ¬ s.sender.maxOutstanding ≤ s.sender.sentMessages := by omega
    rw [submit_covered s next call below submitted]
    apply not_congr
    constructor
    · rintro ⟨empty, posted, plain, count⟩
      refine ⟨by rw [if_neg room]; omega, Or.inr ⟨posted, plain, fun full => absurd full room, ?_⟩⟩
      rw [if_neg room]
      exact count
    · rintro ⟨last, ⟨full, -⟩ | ⟨posted, plain, -, count⟩⟩
      · exact absurd full room
      · rw [if_neg room] at last count
        exact ⟨by omega, posted, plain, count⟩

theorem synchronizes_posted (s entered : Outstanding) (call : Sending) (member : entered ∈ s.synchronizes call) : 0 < entered.signaled := by
  unfold Outstanding.synchronizes at member
  split at member
  · rename_i both
    obtain rfl := List.mem_singleton.mp member
    have signaled := (prepare_sent s.sender call).2.2
    rw [both.2, Bool.true_or] at signaled
    rw [Outstanding.post, if_pos signaled]
    exact Nat.succ_pos _
  · cases member

theorem waits_covered (s : Outstanding) (call : Sending) (short : call.data.length ≤ call.limit) :
    (∀ entered ∈ s.waits call, 0 < entered.signaled) ↔ s.Covered := by
  unfold Outstanding.waits
  rw [if_neg (Nat.not_lt.mpr short)]
  constructor
  · intro answered full
    rw [if_pos full] at answered
    cases done : s.poll call.waited with
    | none =>
        rw [done] at answered
        exact answered s List.mem_cons_self
    | some pair =>
        obtain ⟨polled, ok⟩ := pair
        rw [done] at answered
        cases ok <;> exact answered s List.mem_cons_self
  · intro covered entered member
    by_cases full : s.sender.maxOutstanding ≤ s.sender.sentMessages
    · rw [if_pos full] at member
      cases done : s.poll call.waited with
      | none =>
          rw [done] at member
          obtain rfl := List.mem_singleton.mp member
          exact covered full
      | some pair =>
          obtain ⟨polled, ok⟩ := pair
          rw [done] at member
          cases ok with
          | true =>
              cases member with
              | head => exact covered full
              | tail _ later => exact synchronizes_posted polled.reset entered call later
          | false =>
              obtain rfl := List.mem_singleton.mp member
              exact covered full
    · rw [if_neg full] at member
      exact synchronizes_posted s entered call member

theorem run_most (start s : Outstanding) (calls : List Sending) (ran : Machine.run Outstanding.step start calls = some s) :
    s.sender.maxOutstanding = start.sender.maxOutstanding :=
  Machine.run_preserves Outstanding.step (fun s => s.sender.maxOutstanding = start.sender.maxOutstanding)
    (fun s call next before stepped => (step_most s next call stepped).trans before) start s rfl calls ran

theorem run_covered (sender : Sender) (positive : 0 < sender.maxOutstanding) (calls before after : List Sending) (call : Sending)
    (s : Outstanding) (never : NeverDerails (Outstanding.init sender) calls) (short : call.data.length ≤ call.limit)
    (split : calls = before ++ call :: after) (ran : Machine.run Outstanding.step (Outstanding.init sender) before = some s) :
    s.Covered := by
  induction before using List.reverseRecOn generalizing s call after with
  | nil =>
      obtain rfl := Option.some.inj ran
      intro full
      exact absurd full (Nat.not_le.mpr positive)
  | append_singleton before previous ih =>
      rw [List.append_assoc, List.singleton_append] at split
      obtain ⟨middle, earlier, stepped⟩ := Machine.run_snoc_some ran
      have fits := (step_cases middle s previous stepped).1
      have covered := ih (call :: after) previous middle fits split earlier
      have most := run_most _ middle before earlier
      exact (step_covered middle s previous (most ▸ positive) covered stepped).mpr
        (never before previous call after middle split earlier (by rw [stepped]; rfl) short)

-- The main result. With max_outstanding_ at least one, every wait has a completion
-- to come if and only if no call derails the queue.
theorem waits_answered_iff (sender : Sender) (positive : 0 < sender.maxOutstanding) (calls : List Sending) :
    WaitsAnswered (Outstanding.init sender) calls ↔ NeverDerails (Outstanding.init sender) calls := by
  constructor
  · intro answered before call next after s split ran returns short derails
    obtain ⟨later, stepped⟩ := Option.isSome_iff_exists.mp returns
    have fits := (step_cases s later call stepped).1
    have covered := (waits_covered s call fits).mp (answered before call (next :: after) s split ran)
    have most := run_most _ s before ran
    have ran' : Machine.run Outstanding.step (Outstanding.init sender) (before ++ [call]) = some later := by
      rw [Machine.run_snoc, ran, Option.bind_some, stepped]
    have split' : calls = (before ++ [call]) ++ next :: after := by rw [split, List.append_assoc, List.singleton_append]
    have stays := (waits_covered later next short).mp (answered (before ++ [call]) next after later split' ran')
    exact (step_covered s later call (most ▸ positive) covered stepped).mp stays derails
  · intro never before call after s split ran
    by_cases short : call.data.length ≤ call.limit
    · exact (waits_covered s call short).mpr (run_covered sender positive calls before after call s never short split ran)
    · intro entered member
      rw [Outstanding.waits, if_pos (Nat.lt_of_not_le short)] at member
      cases member

-- A post that fails before the count is reached does no harm.
def spareSender : Sender := ⟨3, 0, 0, 2, 1⟩

def sendTo (posted : Bool) : Sending := ⟨true, [1], 0, false, .completed, posted, .completed⟩

theorem waits_answered_spared : WaitsAnswered (Outstanding.init spareSender) [sendTo false, sendTo true] := by
  apply (waits_answered_iff spareSender (by decide) _).mpr
  intro before call next after s split ran _ _ derails
  cases before with
  | nil =>
      obtain rfl := Option.some.inj ran
      cases split
      cases derails.error with
      | inl error => exact absurd error.1 (by decide)
      | inr error => exact absurd error.2.2.2 (by decide)
  | cons first before =>
      have lengths := congrArg List.length split
      simp only [List.length_cons, List.length_append, List.length_nil] at lengths
      omega

-- With one outstanding message the first post fails: the second call waits although
-- nothing was posted, and no poll ever finds a completion.
def singleSender : Sender := ⟨3, 0, 0, 1, 1⟩

theorem unposted_waited_for : ¬ WaitsAnswered (Outstanding.init singleSender) [sendTo false, sendTo true] ∧
    ∃ s, Machine.run Outstanding.step (Outstanding.init singleSender) [sendTo false] = some s ∧
      s.waits (sendTo true) = [s] ∧ ∀ found, s.poll found = none := by
  have stuck : (Machine.run Outstanding.step (Outstanding.init singleSender) [sendTo false]).map
      (fun s => (decide (s.waits (sendTo true) = [s]), s.signaled, s.unsignaled)) = some (true, 0, 0) := by decide +kernel
  obtain ⟨s, ran, same⟩ := Option.map_eq_some_iff.mp stuck
  obtain ⟨entered, none_⟩ := Prod.mk.inj same
  obtain ⟨signaled, unsignaled⟩ := Prod.mk.inj none_
  have waits := of_decide_eq_true entered
  refine ⟨?_, s, ran, waits, ?_⟩
  · intro answered
    have some_ := answered [sendTo false] (sendTo true) [] s rfl ran s (by rw [waits]; exact List.mem_cons_self)
    omega
  · intro found
    cases found <;> simp [Outstanding.poll, signaled, unsignaled]

end ZipLog.Network
