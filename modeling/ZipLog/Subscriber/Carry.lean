import ZipLog.Subscriber.Placement

set_option autoImplicit false

namespace ZipLog.Subscriber

-- A polling thread only holds copies of what it has received. genuine is what
-- is known about every message, whatever the replica and the count.
structure Poller.Carries (genuine : SubscriberLogEntry → Prop) (poller : Poller) : Prop where
  requests : ∀ gsn entry, poller.currentRequests gsn = some entry → entry.gsn = gsn ∧ genuine entry
  inserting : ∀ entry, poller.inserting = some entry → genuine entry

def limit (gsn : Nat) : Option Nat := if gsn = uint64Max then none else some gsn

-- Every position stands at the last GSN that was inserted with it. While an
-- insert is under way latest_gsn is ahead of its position.
def Poller.Stands (log : Log) (poller : Poller) : Prop :=
  ∀ at_key, ∃ last, Placed log (poller.shardInfo at_key).2 last ∧
    ((∃ entry, poller.inserting = some entry ∧ key entry = at_key ∧ (poller.shardInfo at_key).1 = entry.gsn ∧ above last entry.gsn) ∨
      ((∀ entry, poller.inserting = some entry → key entry ≠ at_key) ∧ last = limit (poller.shardInfo at_key).1))

theorem carries_mono (genuine other : SubscriberLogEntry → Prop) (poller : Poller) (more : ∀ entry, genuine entry → other entry)
    (carries : poller.Carries genuine) : poller.Carries other :=
  ⟨fun gsn entry found => ⟨(carries.requests gsn entry found).1, more entry (carries.requests gsn entry found).2⟩,
    fun entry busy => more entry (carries.inserting entry busy)⟩

theorem init_carries (genuine : SubscriberLogEntry → Prop) : Poller.init.Carries genuine := by
  constructor
  · intro gsn entry found
    cases found
  · intro entry busy
    cases busy

theorem init_stands (log : Log) : Poller.init.Stands log := by
  intro at_key
  refine ⟨none, init_placed log, Or.inr ⟨?_, rfl⟩⟩
  intro entry busy
  cases busy

theorem stands_grow (log next : Log) (poller : Poller) (more : log.numBlocks ≤ next.numBlocks) (stands : poller.Stands log) :
    poller.Stands next := by
  intro at_key
  obtain ⟨last, placed, state⟩ := stands at_key
  exact ⟨last, placed_grow log next _ _ more placed, state⟩

-- What one message does: nothing, or a copy of it is counted.
theorem poll_cases (failures : Nat) (poller : Poller) (current : SubscriberLogEntry) :
    poller.poll failures current = poller ∨ ∃ entry, poller.poll failures current = poller.counted failures current entry ∧
      above (limit (poller.shardInfo (key current)).1) current.gsn ∧ key entry = key current ∧
      (entry = { current with replicaId := 0 } ∨ poller.currentRequests current.gsn = some entry) := by
  unfold Poller.poll
  dsimp only
  split
  · exact Or.inl rfl
  · rename_i fresh
    have later : above (limit (poller.shardInfo (key current)).1) current.gsn := by
      intro before same
      unfold limit at same
      split at same
      · cases same
      · rename_i some_gsn
        cases same
        by_contra stale
        exact fresh ⟨some_gsn, Nat.le_of_not_lt stale⟩
    split
    · exact Or.inr ⟨_, rfl, later, rfl, Or.inl rfl⟩
    · rename_i entry found
      split
      · exact Or.inl rfl
      · rename_i same
        have agree : entry.shardId = current.shardId ∧ entry.threadId = current.threadId := by
          constructor
          · by_contra different
            exact same (Or.inl different)
          · by_contra different
            exact same (Or.inr (Or.inr (Or.inl different)))
        exact Or.inr ⟨entry, rfl, later, by rw [key, key, agree.1, agree.2], Or.inr found⟩

section

variable (genuine : SubscriberLogEntry → Prop) (blind : ∀ entry count, genuine entry → genuine { entry with replicaId := count })

include blind

theorem poll_carries (failures : Nat) (poller : Poller) (current : SubscriberLogEntry) (idle : poller.inserting = none)
    (received : genuine current) (carries : poller.Carries genuine) : (poller.poll failures current).Carries genuine := by
  obtain nothing | ⟨entry, counted, _, _, source⟩ := poll_cases failures poller current
  · rw [nothing]
    exact carries
  · have origin : entry.gsn = current.gsn ∧ genuine entry := by
      cases source with
      | inl copy =>
          rw [copy]
          exact ⟨rfl, blind current 0 received⟩
      | inr found => exact carries.requests _ entry found
    have more := blind entry (entry.replicaId + 1) origin.2
    rw [counted]
    constructor
    · intro gsn other found
      rw [counted_requests] at found
      by_cases same : gsn = current.gsn
      · subst same
        rw [Function.update_self] at found
        split at found
        · cases found
        · cases found
          exact ⟨origin.1, more⟩
      · rw [Function.update_of_ne same] at found
        exact carries.requests gsn other found
    · intro other busy
      rw [counted_inserting _ _ _ _ idle] at busy
      split at busy
      · cases busy
        exact more
      · cases busy

end

theorem poll_stands (genuine : SubscriberLogEntry → Prop) (log : Log) (failures : Nat) (poller : Poller) (current : SubscriberLogEntry)
    (idle : poller.inserting = none) (carries : poller.Carries genuine) (stands : poller.Stands log) :
    (poller.poll failures current).Stands log := by
  obtain nothing | ⟨entry, counted, later, same_key, source⟩ := poll_cases failures poller current
  · rw [nothing]
    exact stands
  · have origin : entry.gsn = current.gsn := by
      cases source with
      | inl copy => rw [copy]
      | inr found => exact (carries.requests _ entry found).1
    rw [counted]
    intro at_key
    obtain ⟨last, placed, state⟩ := stands at_key
    have resting : last = limit (poller.shardInfo at_key).1 := by
      cases state with
      | inl busy =>
          obtain ⟨other, busy, _⟩ := busy
          rw [idle] at busy
          cases busy
      | inr free => exact free.2
    rw [counted_info, counted_inserting _ _ _ _ idle]
    by_cases enough : failures < entry.replicaId + 1
    · rw [if_pos enough, if_pos enough]
      by_cases mine : at_key = key current
      · subst mine
        rw [Function.update_self]
        refine ⟨last, placed, Or.inl ⟨_, rfl, same_key, origin.symm, ?_⟩⟩
        rw [resting]
        change above _ entry.gsn
        rw [origin]
        exact later
      · rw [Function.update_of_ne mine]
        refine ⟨last, placed, Or.inr ⟨?_, resting⟩⟩
        intro other busy
        cases busy
        intro here
        exact mine (here.symm.trans same_key)
    · rw [if_neg enough, if_neg enough]
      refine ⟨last, placed, Or.inr ⟨?_, resting⟩⟩
      intro other busy
      cases busy

-- The insert that a thread is in returns.
theorem store_stands (genuine : SubscriberLogEntry → Prop) (small : ∀ entry, genuine entry → entry.gsn < uint64Max) (log after : Log)
    (inserted : List SubscriberLogEntry) (poller moved : Poller) (entry : SubscriberLogEntry) (busy : poller.inserting = some entry)
    (carries : poller.Carries genuine) (stands : poller.Stands log) (sound : Sound log inserted)
    (ran : poller.store log = some (after, moved)) :
    Sound after (inserted ++ [entry]) ∧ moved.Stands after ∧ moved.Carries genuine ∧ after.numBlocks = log.numBlocks := by
  obtain ⟨position, _, stored, rfl⟩ := poller_store_cases log after poller moved entry busy ran
  obtain ⟨last, placed, state⟩ := stands (key entry)
  have current : (poller.shardInfo (key entry)).1 = entry.gsn ∧ above last entry.gsn := by
    cases state with
    | inl mine =>
        obtain ⟨other, same, _, gsn, later⟩ := mine
        rw [busy] at same
        cases same
        exact ⟨gsn, later⟩
    | inr free => exact absurd rfl (free.1 entry busy)
  obtain ⟨next, there, blocks⟩ := insert_sound log after inserted _ position last entry sound placed current.2 stored
  have resting : ∀ at_key, ∀ other, (none : Option SubscriberLogEntry) = some other → key other ≠ at_key := by
    intro at_key other none
    cases none
  refine ⟨next, ?_, ⟨carries.requests, fun other none => by cases none⟩, blocks⟩
  intro at_key
  by_cases mine : at_key = key entry
  · subst mine
    simp only [Function.update_self]
    refine ⟨some entry.gsn, there, Or.inr ⟨resting _, ?_⟩⟩
    have bound := small entry (carries.inserting entry busy)
    rw [current.1, limit, if_neg (by omega)]
  · simp only [Function.update_of_ne mine]
    obtain ⟨last', placed', state'⟩ := stands at_key
    refine ⟨last', placed_grow log after _ _ (Nat.le_of_eq blocks.symm) placed', Or.inr ⟨resting _, ?_⟩⟩
    cases state' with
    | inl other =>
        obtain ⟨other, same, here, _⟩ := other
        rw [busy] at same
        cases same
        exact absurd here.symm mine
    | inr free => exact free.2

end ZipLog.Subscriber
