import ZipLog.Lib.Ring
import ZipLog.Network.Signaling
import Mathlib.Data.List.Nodup
import Mathlib.Data.List.ReduceOption
import Mathlib.Data.Nat.ModEq

set_option autoImplicit false

namespace ZipLog.Network

-- util::wraparound_iterator over a container of the given size; the position is the
-- size for the end.
structure Wraparound where
  size : Nat
  position : Nat
deriving DecidableEq, Repr

def Wraparound.init (size : Nat) : Wraparound := ⟨size, size⟩

def Wraparound.getAndIncrement (it : Wraparound) : Nat × Wraparound :=
  let position := if it.position = it.size then 0 else it.position
  (position, { it with position := position + 1 })

-- After the given number of calls.
structure Wraparound.Taken (it : Wraparound) (rounds : Nat) : Prop where
  positive : 0 < it.size
  next : it.getAndIncrement.1 = rounds % it.size

theorem init_taken (size : Nat) (positive : 0 < size) : (Wraparound.init size).Taken 0 := by
  refine ⟨positive, ?_⟩
  rw [Nat.zero_mod]
  exact if_pos rfl

theorem get_taken (it : Wraparound) (rounds : Nat) (taken : it.Taken rounds) : it.getAndIncrement.2.Taken (rounds + 1) := by
  have here := taken.next
  have below := Nat.mod_lt rounds taken.positive
  refine ⟨taken.positive, ?_⟩
  change (if it.getAndIncrement.1 + 1 = it.size then 0 else it.getAndIncrement.1 + 1) = (rounds + 1) % it.size
  have turn : (rounds + 1) % it.size = (rounds % it.size + 1) % it.size := (Nat.mod_add_mod rounds it.size 1).symm
  rw [here, turn]
  by_cases last : rounds % it.size + 1 = it.size
  · rw [if_pos last, last, Nat.mod_self]
  · rw [if_neg last]
    exact (Nat.mod_eq_of_lt (Nat.lt_of_le_of_ne below last)).symm

-- A message that a thread has still to send. A rotating one is in the buffer that
-- was filled last.
structure Outgoing where
  queue : Nat
  rotating : Bool
  call : SendCall
deriving DecidableEq, Repr

-- A thread that sends the messages of a list one after the other, with its queues.
-- The tag of a request is the place of the rotating buffer that it reads, none for
-- other memory.
structure Fanout where
  current : Nat
  members : List Nat
  pipelines : Nat → Pipeline (Option Nat)
  sends : List Outgoing

def Fanout.init (unset : Sender) : Fanout := ⟨0, [], fun _ => Pipeline.init unset, []⟩

def Fanout.update (s : Fanout) (queue : Nat) (pipeline : Pipeline (Option Nat)) : Fanout :=
  { s with pipelines := Function.update s.pipelines queue pipeline }

def Fanout.join (s : Fanout) (queue : Nat) (sender : Sender) : Fanout :=
  { s.update queue (Pipeline.init sender) with members := s.members ++ [queue] }

def Fanout.drop (s : Fanout) (queue : Nat) : Fanout := { s with members := s.members.filter (fun other => other ≠ queue) }

-- The thread is in no call of send.
def Fanout.Idle (s : Fanout) : Prop := ∀ queue ∈ s.members, (s.pipelines queue).phase = .idle

instance (s : Fanout) : Decidable s.Idle := inferInstanceAs (Decidable (∀ queue ∈ s.members, _))

def Fanout.Free (s : Fanout) : Prop := s.sends = [] ∧ s.Idle

instance (s : Fanout) : Decidable s.Free := inferInstanceAs (Decidable (_ ∧ _))

def Fanout.tag (s : Fanout) (outgoing : Outgoing) : Option Nat := if outgoing.rotating then some s.current else none

def Fanout.send (s : Fanout) : Option Fanout :=
  match s.sends with
  | [] => none
  | outgoing :: rest =>
      if s.Idle ∧ outgoing.queue ∈ s.members then
        ((s.pipelines outgoing.queue).call (s.tag outgoing) outgoing.call).map (fun pipeline =>
          { s.update outgoing.queue pipeline with sends := rest })
      else none

def Fanout.poll (s : Fanout) (queue : Nat) : Option Fanout :=
  if queue ∈ s.members then (s.pipelines queue).poll.map (s.update queue) else none

def Fanout.complete (s : Fanout) (queue : Nat) : Option Fanout :=
  if queue ∈ s.members then (s.pipelines queue).complete.map (s.update queue) else none

-- The thread starts to send the buffer at the place, or another message.
def Fanout.publish (s : Fanout) (place : Nat) (targets : List (Nat × SendCall)) : Fanout :=
  { s with current := place, sends := targets.map (fun target => ⟨target.1, true, target.2⟩) }

def Fanout.notify (s : Fanout) (targets : List (Nat × SendCall)) : Fanout :=
  { s with sends := targets.map (fun target => ⟨target.1, false, target.2⟩) }

-- The places that the calls on a queue have read are those of the last rounds.
def Served (size rounds : Nat) (pipeline : Pipeline (Option Nat)) : Prop :=
  ∃ start count, start + count = rounds ∧ pipeline.called.reduceOption = Ring.places size start count

-- The queues that have still to be sent the current buffer.
def Fanout.behind (s : Fanout) : List Nat := (s.sends.filter Outgoing.rotating).map Outgoing.queue

structure Fanout.Inv (depth rounds : Nat) (s : Fanout) : Prop where
  unique : s.members.Nodup
  limited : ∀ queue ∈ s.members, ∃ limit, limit ≤ depth ∧ (s.pipelines queue).Inv limit
  once : s.behind.Nodup
  current : s.behind ≠ [] → ∃ before, before + 1 = rounds ∧ s.current = before % (depth + 1)
  served : ∀ queue ∈ s.members, ∃ before, before + (if queue ∈ s.behind then 1 else 0) = rounds ∧
    Served (depth + 1) before (s.pipelines queue)

-- Some queue has not posted the current buffer yet.
def Fanout.Delivering (s : Fanout) : Prop :=
  s.behind ≠ [] ∨ ∃ queue ∈ s.members, (s.pipelines queue).phase.tags.reduceOption ≠ []

theorem served_call (size rounds : Nat) (pipeline next : Pipeline (Option Nat)) (tag : Option Nat)
    (called : next.called = pipeline.called ++ [tag]) (served : Served size rounds pipeline) :
    (tag = none → Served size rounds next) ∧ (tag = some (rounds % size) → Served size (rounds + 1) next) := by
  obtain ⟨start, count, reached, read⟩ := served
  constructor
  · rintro rfl
    refine ⟨start, count, reached, ?_⟩
    rw [called, List.reduceOption_append, read]
    exact List.append_nil _
  · rintro rfl
    refine ⟨start, count + 1, by omega, ?_⟩
    rw [called, List.reduceOption_append, read, Ring.places_snoc, reached]
    rfl

theorem served_same (size rounds : Nat) (pipeline next : Pipeline (Option Nat)) (called : next.called = pipeline.called)
    (served : Served size rounds pipeline) : Served size rounds next := by
  unfold Served at *
  rw [called]
  exact served

-- A queue has no incomplete request for the next place: those for the place are
-- at least as many calls ago as the queue may have incomplete requests.
theorem served_unread (depth rounds limit : Nat) (pipeline : Pipeline (Option Nat)) (short : limit ≤ depth) (inv : pipeline.Inv limit)
    (posted : pipeline.phase.tags.reduceOption = []) (served : Served (depth + 1) rounds pipeline) :
    ∀ entry ∈ pipeline.incomplete, entry.1 ≠ some (rounds % (depth + 1)) := by
  obtain ⟨start, count, rfl, read⟩ := served
  intro entry member same
  rw [Pipeline.called, List.reduceOption_append, posted, List.append_nil] at read
  have suffix : (pipeline.incomplete.map Prod.fst).reduceOption <:+ Ring.places (depth + 1) start count := by
    rw [← read]
    exact (inv.recorded.map Prod.fst).filterMap id
  have few := (inv_limits limit pipeline inv).1
  have length : (pipeline.incomplete.map Prod.fst).reduceOption.length < depth + 1 := by
    have whole := List.reduceOption_length_le (pipeline.incomplete.map Prod.fst)
    rw [List.length_map] at whole
    omega
  apply Ring.places_recent (depth + 1) start count _ suffix length
  rw [List.reduceOption_mem_iff, ← same]
  exact List.mem_map_of_mem member

-- The next call of the list goes to its queue.
theorem send_cases (s next : Fanout) (sent : s.send = some next) : ∃ outgoing rest pipeline, s.sends = outgoing :: rest ∧
    outgoing.queue ∈ s.members ∧ (s.pipelines outgoing.queue).call (s.tag outgoing) outgoing.call = some pipeline ∧
      next = { s.update outgoing.queue pipeline with sends := rest } := by
  unfold Fanout.send at sent
  cases sends : s.sends with
  | nil =>
      rw [sends] at sent
      cases sent
  | cons outgoing rest =>
      rw [sends] at sent
      obtain ⟨allowed, done⟩ := Option.ite_none_right_eq_some.mp sent
      obtain ⟨pipeline, calls, same⟩ := Option.map_eq_some_iff.mp done
      exact ⟨outgoing, rest, pipeline, rfl, allowed.2, calls, same.symm⟩

theorem notify_behind (s : Fanout) (targets : List (Nat × SendCall)) : (s.notify targets).behind = [] := by
  have plain : (targets.map (fun target => (⟨target.1, false, target.2⟩ : Outgoing))).filter Outgoing.rotating = [] := by
    rw [List.filter_eq_nil_iff]
    intro outgoing member
    obtain ⟨target, -, rfl⟩ := List.mem_map.mp member
    exact Bool.false_ne_true
  rw [Fanout.behind, Fanout.notify, plain]
  rfl

theorem free_delivering (s : Fanout) (free : s.Free) : ¬ s.Delivering := by
  obtain ⟨done, idle⟩ := free
  rintro (behind | ⟨queue, member, busy⟩)
  · rw [Fanout.behind, done] at behind
    exact behind rfl
  · rw [idle queue member] at busy
    exact busy rfl

section

variable (depth rounds : Nat) (s next : Fanout) (inv : s.Inv depth rounds)

include inv

-- With every queue up to date no request reads the buffer of the next round.
theorem fanout_unread (posted : ¬ s.Delivering) :
    ∀ queue ∈ s.members, ∀ entry ∈ (s.pipelines queue).incomplete, entry.1 ≠ some (rounds % (depth + 1)) := by
  intro queue member
  obtain ⟨limit, short, within⟩ := inv.limited queue member
  obtain ⟨before, reached, served⟩ := inv.served queue member
  have none_ : s.behind = [] := by
    by_contra some_
    exact posted (Or.inl some_)
  have tags : (s.pipelines queue).phase.tags.reduceOption = [] := by
    by_contra some_
    exact posted (Or.inr ⟨queue, member, some_⟩)
  rw [none_, if_neg List.not_mem_nil] at reached
  exact served_unread depth rounds limit _ short within tags (reached ▸ served)

theorem update_limited (queue : Nat) (pipeline : Pipeline (Option Nat))
    (keeps : ∀ limit, (s.pipelines queue).Inv limit → pipeline.Inv limit) :
    ∀ other ∈ s.members, ∃ limit, limit ≤ depth ∧ (Function.update s.pipelines queue pipeline other).Inv limit := by
  intro other member
  obtain ⟨limit, short, within⟩ := inv.limited other member
  refine ⟨limit, short, ?_⟩
  by_cases same : other = queue
  · subst same
    rw [Function.update_self]
    exact keeps limit within
  · rw [Function.update_of_ne same]
    exact within

-- A step of one queue that is no call.
theorem update_inv (queue : Nat) (pipeline : Pipeline (Option Nat)) (keeps : ∀ limit, (s.pipelines queue).Inv limit → pipeline.Inv limit)
    (called : pipeline.called = (s.pipelines queue).called) : (s.update queue pipeline).Inv depth rounds := by
  refine ⟨inv.unique, update_limited depth rounds s inv queue pipeline keeps, inv.once, inv.current, ?_⟩
  intro other member
  obtain ⟨before, reached, served⟩ := inv.served other member
  refine ⟨before, reached, ?_⟩
  change Served (depth + 1) before (Function.update s.pipelines queue pipeline other)
  by_cases same : other = queue
  · subst same
    rw [Function.update_self]
    exact served_same _ before _ pipeline called served
  · rw [Function.update_of_ne same]
    exact served

theorem fanout_poll (queue : Nat) (polled : s.poll queue = some next) : next.Inv depth rounds := by
  obtain ⟨-, done⟩ := Option.ite_none_right_eq_some.mp polled
  obtain ⟨pipeline, polls, rfl⟩ := Option.map_eq_some_iff.mp done
  exact update_inv depth rounds s inv queue pipeline (fun limit within => poll_inv limit _ pipeline within polls)
    (poll_called _ pipeline polls)

theorem fanout_complete (queue : Nat) (completed : s.complete queue = some next) : next.Inv depth rounds := by
  obtain ⟨-, done⟩ := Option.ite_none_right_eq_some.mp completed
  obtain ⟨pipeline, completes, rfl⟩ := Option.map_eq_some_iff.mp done
  exact update_inv depth rounds s inv queue pipeline (fun limit within => complete_inv limit _ pipeline within completes)
    (complete_called _ pipeline completes)

theorem fanout_send (sent : s.send = some next) : next.Inv depth rounds := by
  obtain ⟨outgoing, rest, pipeline, sends, -, calls, rfl⟩ := send_cases s next sent
  have called := call_called _ pipeline _ outgoing.call calls
  have limited := update_limited depth rounds s inv outgoing.queue pipeline
    (fun limit within => call_inv limit _ pipeline _ outgoing.call within calls)
  have once := inv.once
  have current := inv.current
  have served := inv.served
  unfold Fanout.behind at once current served
  rw [sends] at once current served
  cases rotating : outgoing.rotating with
  | false =>
      rw [List.filter_cons_of_neg (by rw [rotating]; exact Bool.false_ne_true)] at once current served
      rw [Fanout.tag, rotating, if_neg Bool.false_ne_true] at called
      refine ⟨inv.unique, limited, once, current, ?_⟩
      intro other member
      obtain ⟨before, reached, holds⟩ := served other member
      refine ⟨before, reached, ?_⟩
      change Served (depth + 1) before (Function.update s.pipelines outgoing.queue pipeline other)
      by_cases same : other = outgoing.queue
      · subst same
        rw [Function.update_self]
        exact (served_call _ before _ pipeline none called holds).1 rfl
      · rw [Function.update_of_ne same]
        exact holds
  | true =>
      rw [List.filter_cons_of_pos rotating, List.map_cons] at once current served
      rw [Fanout.tag, rotating, if_pos rfl] at called
      obtain ⟨apart, once⟩ := List.nodup_cons.mp once
      obtain ⟨before, reached, place⟩ := current (List.cons_ne_nil _ _)
      refine ⟨inv.unique, limited, once, fun _ => ⟨before, reached, place⟩, ?_⟩
      intro other member
      obtain ⟨seen, counted, holds⟩ := served other member
      change ∃ seen, seen + (if other ∈ (rest.filter Outgoing.rotating).map Outgoing.queue then 1 else 0) = rounds ∧
        Served (depth + 1) seen (Function.update s.pipelines outgoing.queue pipeline other)
      by_cases same : other = outgoing.queue
      · subst same
        rw [if_pos List.mem_cons_self] at counted
        obtain rfl : seen = before := by omega
        refine ⟨rounds, by rw [if_neg apart]; rfl, ?_⟩
        rw [Function.update_self, ← reached]
        exact (served_call _ seen _ pipeline _ called holds).2 (by rw [place])
      · have there : (other ∈ outgoing.queue :: (rest.filter Outgoing.rotating).map Outgoing.queue) ↔
            other ∈ (rest.filter Outgoing.rotating).map Outgoing.queue := by rw [List.mem_cons, or_iff_right same]
        rw [Function.update_of_ne same]
        simp only [there] at counted
        exact ⟨seen, counted, holds⟩

theorem free_served (done : s.sends = []) : ∀ queue ∈ s.members, Served (depth + 1) rounds (s.pipelines queue) := by
  intro queue member
  obtain ⟨before, reached, served⟩ := inv.served queue member
  have none_ : s.behind = [] := by rw [Fanout.behind, done]; rfl
  rw [none_, if_neg List.not_mem_nil] at reached
  exact reached ▸ served

theorem notify_inv (done : s.sends = []) (targets : List (Nat × SendCall)) : (s.notify targets).Inv depth rounds := by
  have none_ := notify_behind s targets
  refine ⟨inv.unique, inv.limited, none_ ▸ List.nodup_nil, fun some_ => absurd none_ some_, ?_⟩
  intro queue member
  refine ⟨rounds, ?_, free_served depth rounds s inv done queue member⟩
  rw [none_, if_neg List.not_mem_nil]
  rfl

theorem publish_inv (done : s.sends = []) (targets : List (Nat × SendCall)) (every : (targets.map Prod.fst).Perm s.members) :
    (s.publish (rounds % (depth + 1)) targets).Inv depth (rounds + 1) := by
  have names : (s.publish (rounds % (depth + 1)) targets).behind = targets.map Prod.fst := by
    have all : (targets.map (fun target => (⟨target.1, true, target.2⟩ : Outgoing))).filter Outgoing.rotating =
        targets.map (fun target => ⟨target.1, true, target.2⟩) := by
      rw [List.filter_eq_self]
      intro outgoing member
      obtain ⟨target, -, rfl⟩ := List.mem_map.mp member
      rfl
    rw [Fanout.behind, Fanout.publish, all, List.map_map]
    rfl
  refine ⟨inv.unique, inv.limited, names ▸ every.nodup_iff.mpr inv.unique, fun _ => ⟨rounds, rfl, rfl⟩, ?_⟩
  intro queue member
  refine ⟨rounds, ?_, free_served depth rounds s inv done queue member⟩
  rw [names, if_pos (every.mem_iff.mpr member)]

theorem drop_inv (queue : Nat) : (s.drop queue).Inv depth rounds := by
  refine ⟨inv.unique.filter _, fun other member => inv.limited other (List.mem_of_mem_filter member), inv.once, inv.current, ?_⟩
  exact fun other member => inv.served other (List.mem_of_mem_filter member)

theorem join_inv (queue : Nat) (sender : Sender) (fresh : queue ∉ s.members) (done : s.sends = []) (positive : 0 < sender.maxOutstanding)
    (short : sender.maxOutstanding ≤ depth) : (s.join queue sender).Inv depth rounds := by
  have others : ∀ other ∈ s.members ++ [queue], other = queue ∨ (other ≠ queue ∧ other ∈ s.members) := by
    intro other member
    by_cases same : other = queue
    · exact Or.inl same
    · exact Or.inr ⟨same, (List.mem_append.mp member).resolve_right (fun last => same (List.mem_singleton.mp last))⟩
  refine ⟨?_, ?_, inv.once, inv.current, ?_⟩
  · refine List.nodup_append.mpr ⟨inv.unique, List.nodup_singleton _, ?_⟩
    intro other member last single same
    rw [same, List.mem_singleton.mp single] at member
    exact fresh member
  · intro other member
    change ∃ limit, limit ≤ depth ∧ (Function.update s.pipelines queue (Pipeline.init sender) other).Inv limit
    obtain rfl | ⟨apart, old⟩ := others other member
    · rw [Function.update_self]
      exact ⟨_, short, init_signaling sender positive⟩
    · rw [Function.update_of_ne apart]
      exact inv.limited other old
  · intro other member
    change ∃ before, before + (if other ∈ s.behind then 1 else 0) = rounds ∧
      Served (depth + 1) before (Function.update s.pipelines queue (Pipeline.init sender) other)
    have none_ : s.behind = [] := by rw [Fanout.behind, done]; rfl
    rw [none_, if_neg List.not_mem_nil]
    refine ⟨rounds, rfl, ?_⟩
    obtain rfl | ⟨apart, old⟩ := others other member
    · rw [Function.update_self]
      exact ⟨rounds, 0, rfl, rfl⟩
    · rw [Function.update_of_ne apart]
      exact free_served depth rounds s inv done other old

end

theorem init_fanout (depth : Nat) (unset : Sender) : (Fanout.init unset).Inv depth 0 :=
  ⟨List.nodup_nil, fun _ member => absurd member List.not_mem_nil, List.nodup_nil, fun some_ => absurd rfl some_,
    fun _ member => absurd member List.not_mem_nil⟩

-- A call that waits is one that has just been made.
theorem call_tags {ω : Type} (s next : Pipeline ω) (tag : ω) (call : SendCall) (called : s.call tag call = some next) :
    s.phase = .idle ∧ (next.phase = .waiting tag call ∨ next.phase.tags = []) := by
  obtain ⟨idle, ⟨-, rfl⟩ | ⟨-, rfl⟩⟩ := call_cases s next tag call called
  · exact ⟨idle, Or.inl rfl⟩
  · exact ⟨idle, Or.inr (submit_called s tag call).2⟩

theorem poll_tags {ω : Type} (s next : Pipeline ω) (polled : s.poll = some next) :
    next.phase = s.phase ∨ next.phase.tags = [] := by
  obtain rfl | ⟨-, ⟨tag, call, -, rfl⟩ | ⟨-, rfl⟩⟩ := poll_cases s next polled
  · exact Or.inl rfl
  · exact Or.inr (submit_called s.consume tag call).2
  · exact Or.inr rfl

-- Only publish makes a thread deliver.
theorem update_delivering (s : Fanout) (queue : Nat) (pipeline : Pipeline (Option Nat))
    (kept : pipeline.phase.tags.reduceOption ≠ [] → s.Delivering) (delivering : (s.update queue pipeline).Delivering) : s.Delivering := by
  obtain behind | ⟨other, member, busy⟩ := delivering
  · exact Or.inl behind
  · change (Function.update s.pipelines queue pipeline other).phase.tags.reduceOption ≠ [] at busy
    by_cases same : other = queue
    · rw [same, Function.update_self] at busy
      exact kept busy
    · rw [Function.update_of_ne same] at busy
      exact Or.inr ⟨other, member, busy⟩

theorem send_delivering (s next : Fanout) (sent : s.send = some next) (delivering : next.Delivering) : s.Delivering := by
  obtain ⟨outgoing, rest, pipeline, sends, -, calls, rfl⟩ := send_cases s next sent
  by_cases rotating : outgoing.rotating
  · apply Or.inl
    rw [Fanout.behind, sends, List.filter_cons_of_pos rotating]
    exact List.cons_ne_nil _ _
  · have same : s.behind = (rest.filter Outgoing.rotating).map Outgoing.queue := by
      rw [Fanout.behind, sends, List.filter_cons_of_neg rotating]
    apply update_delivering s outgoing.queue pipeline
    · intro busy
      rw [Fanout.tag, if_neg rotating] at calls
      obtain waits | posted := (call_tags _ pipeline none outgoing.call calls).2
      · rw [waits] at busy
        exact absurd rfl busy
      · rw [posted] at busy
        exact absurd rfl busy
    · obtain behind | busy := delivering
      · exact Or.inl (same ▸ behind)
      · exact Or.inr busy

theorem poll_delivering (s next : Fanout) (queue : Nat) (polled : s.poll queue = some next) (delivering : next.Delivering) :
    s.Delivering := by
  obtain ⟨member, done⟩ := Option.ite_none_right_eq_some.mp polled
  obtain ⟨pipeline, polls, rfl⟩ := Option.map_eq_some_iff.mp done
  apply update_delivering s queue pipeline _ delivering
  intro busy
  obtain same | posted := poll_tags _ pipeline polls
  · exact Or.inr ⟨queue, member, same ▸ busy⟩
  · rw [posted] at busy
    exact absurd rfl busy

theorem complete_delivering (s next : Fanout) (queue : Nat) (completed : s.complete queue = some next) (delivering : next.Delivering) :
    s.Delivering := by
  obtain ⟨member, done⟩ := Option.ite_none_right_eq_some.mp completed
  obtain ⟨pipeline, completes, rfl⟩ := Option.map_eq_some_iff.mp done
  apply update_delivering s queue pipeline _ delivering
  intro busy
  rw [(complete_frame _ pipeline completes).2.1] at busy
  exact Or.inr ⟨queue, member, busy⟩

-- The requests that read a rotating buffer are copied when they are posted.
structure Pipeline.Copies (s : Pipeline (Option Nat)) : Prop where
  held : ∀ entry ∈ s.incomplete, entry.1 ≠ none → entry.2.inlined = true
  waiting : ∀ tag call, s.phase = .waiting tag call → tag ≠ none → call.sending.inlined = true

structure Fanout.Copies (s : Fanout) : Prop where
  sends : ∀ outgoing ∈ s.sends, outgoing.rotating = true → outgoing.call.sending.inlined = true
  queues : ∀ queue ∈ s.members, (s.pipelines queue).Copies

theorem prepare_inlined (sender : Sender) (call : Sending) : (sender.prepare call).2.inlined = call.inlined := by
  unfold Sender.prepare
  rfl

theorem submit_copies (s : Pipeline (Option Nat)) (tag : Option Nat) (call : SendCall)
    (held : ∀ entry ∈ s.incomplete, entry.1 ≠ none → entry.2.inlined = true) (copied : tag ≠ none → call.sending.inlined = true) :
    (s.submit tag call).Copies := by
  refine ⟨?_, ?_⟩
  · intro entry member
    obtain old | new := List.mem_append.mp member
    · exact held entry old
    · rw [List.mem_singleton.mp new]
      intro some_
      exact (prepare_inlined s.sender call.sending).trans (copied some_)
  · intro other earlier waits
    have posted := (submit_called s tag call).2
    rw [waits] at posted
    cases posted

theorem call_copies (s next : Pipeline (Option Nat)) (tag : Option Nat) (call : SendCall) (copies : s.Copies)
    (copied : tag ≠ none → call.sending.inlined = true) (called : s.call tag call = some next) : next.Copies := by
  obtain ⟨-, ⟨-, rfl⟩ | ⟨-, rfl⟩⟩ := call_cases s next tag call called
  · refine ⟨copies.held, ?_⟩
    intro other later waits
    cases waits
    exact copied
  · exact submit_copies s tag call copies.held copied

theorem poll_copies (s next : Pipeline (Option Nat)) (copies : s.Copies) (polled : s.poll = some next) : next.Copies := by
  obtain rfl | ⟨-, ⟨tag, call, phase, rfl⟩ | ⟨-, rfl⟩⟩ := poll_cases s next polled
  · exact copies
  · exact submit_copies s.consume tag call copies.held (copies.waiting tag call phase)
  · refine ⟨copies.held, ?_⟩
    intro tag call waits
    cases waits

theorem complete_copies (s next : Pipeline (Option Nat)) (copies : s.Copies) (completed : s.complete = some next) : next.Copies := by
  obtain ⟨-, phase, -, entry, held⟩ := complete_frame s next completed
  refine ⟨fun other member => copies.held other (by rw [held]; exact List.mem_cons_of_mem _ member), ?_⟩
  rw [phase]
  exact copies.waiting

theorem update_copies (s : Fanout) (queue : Nat) (pipeline : Pipeline (Option Nat)) (copies : s.Copies) (copied : pipeline.Copies) :
    (s.update queue pipeline).Copies := by
  refine ⟨copies.sends, ?_⟩
  intro other member
  change (Function.update s.pipelines queue pipeline other).Copies
  by_cases same : other = queue
  · rw [same, Function.update_self]
    exact copied
  · rw [Function.update_of_ne same]
    exact copies.queues other member

theorem send_copies (s next : Fanout) (copies : s.Copies) (sent : s.send = some next) : next.Copies := by
  obtain ⟨outgoing, rest, pipeline, sends, member, calls, rfl⟩ := send_cases s next sent
  have copied : s.tag outgoing ≠ none → outgoing.call.sending.inlined = true := by
    intro some_
    apply copies.sends outgoing (by rw [sends]; exact List.mem_cons_self)
    by_contra plain
    exact some_ (if_neg plain)
  have updated := update_copies s outgoing.queue pipeline copies
    (call_copies _ pipeline _ outgoing.call (copies.queues outgoing.queue member) copied calls)
  exact ⟨fun other member => copies.sends other (by rw [sends]; exact List.mem_cons_of_mem _ member), updated.queues⟩

theorem fanout_poll_copies (s next : Fanout) (queue : Nat) (copies : s.Copies) (polled : s.poll queue = some next) : next.Copies := by
  obtain ⟨member, done⟩ := Option.ite_none_right_eq_some.mp polled
  obtain ⟨pipeline, polls, rfl⟩ := Option.map_eq_some_iff.mp done
  exact update_copies s queue pipeline copies (poll_copies _ pipeline (copies.queues queue member) polls)

theorem fanout_complete_copies (s next : Fanout) (queue : Nat) (copies : s.Copies) (completed : s.complete queue = some next) :
    next.Copies := by
  obtain ⟨member, done⟩ := Option.ite_none_right_eq_some.mp completed
  obtain ⟨pipeline, completes, rfl⟩ := Option.map_eq_some_iff.mp done
  exact update_copies s queue pipeline copies (complete_copies _ pipeline (copies.queues queue member) completes)

end ZipLog.Network
