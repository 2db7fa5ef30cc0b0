import ZipLog.Lib.Quorum
import ZipLog.Lib.Run
import ZipLog.Client.Loop
import Mathlib.Data.List.GetD
import Mathlib.Data.List.TakeWhile

set_option autoImplicit false

namespace ZipLog.Client

open Quorum

-- The state of the ACK handler in closed form. sent holds the response of every
-- request in the order of sending, received how many ACKs of each replica have
-- been handled, and gsn the GSN of each request that some ACK has named.
structure Matched (replicas : List Nat) (received : Nat → Nat) (sent : List (Option Nat)) (gsn : Nat → Nat) (client : Loop)
    (delivered : Nat) : Prop where
  bounded : ∀ r ∈ replicas, received r ≤ sent.length
  quorum : ∀ k, k < delivered ↔ client.failures < count replicas received k
  ordered : ∀ i j, i < j → 0 < count replicas received j → gsn i < gsn j
  small : ∀ k, 0 < count replicas received k → gsn k < uint64Max
  latest : client.latestGsn = if delivered = 0 then uint64Max else gsn (delivered - 1)
  outstanding : ∀ i : Nat, client.outstanding[i]? = sent[delivered + i]?.map (fun response =>
    ⟨response, if 0 < count replicas received (delivered + i) then gsn (delivered + i) else uint64Max,
      count replicas received (delivered + i)⟩)
  stored : client.stored = (List.range delivered).filterMap (fun k => sent[k]?.join.map (fun response => (response, gsn k)))

theorem matched_init (replicas : List Nat) (client : Loop) (gsn : Nat → Nat) (fresh : client.outstanding = [])
    (latest : client.latestGsn = uint64Max) (stored : client.stored = []) :
    Matched replicas (fun _ => 0) [] gsn client 0 := by
  refine ⟨fun _ _ => Nat.le_refl 0, ?_, ?_, ?_, latest, ?_, stored⟩
  · intro k
    simp [count_none]
  · intro i j _ heard
    simp [count_none] at heard
  · intro k heard
    simp [count_none] at heard
  · intro i
    simp [fresh]

theorem matched_beyond (replicas : List Nat) (received : Nat → Nat) (sent : List (Option Nat)) (gsn : Nat → Nat) (client : Loop)
    (delivered : Nat) (matched : Matched replicas received sent gsn client delivered) (k : Nat) (beyond : sent.length ≤ k) :
    count replicas received k = 0 :=
  count_zero replicas received k (fun r inside => Nat.le_trans (matched.bounded r inside) beyond)

theorem matched_reach (replicas : List Nat) (received : Nat → Nat) (sent : List (Option Nat)) (gsn : Nat → Nat) (client : Loop)
    (delivered : Nat) (matched : Matched replicas received sent gsn client delivered) : delivered ≤ sent.length := by
  by_contra beyond
  have enough := (matched.quorum sent.length).mp (by omega)
  rw [matched_beyond replicas received sent gsn client delivered matched _ (Nat.le_refl _)] at enough
  omega

-- Only outstanding, latest_gsn, failures and the stores matter.
theorem matched_congr (replicas : List Nat) (received : Nat → Nat) (sent : List (Option Nat)) (gsn : Nat → Nat)
    (client other : Loop) (delivered : Nat) (matched : Matched replicas received sent gsn client delivered)
    (failures : other.failures = client.failures) (latest : other.latestGsn = client.latestGsn)
    (outstanding : other.outstanding = client.outstanding) (stored : other.stored = client.stored) :
    Matched replicas received sent gsn other delivered := by
  refine ⟨matched.bounded, ?_, matched.ordered, matched.small, latest.trans matched.latest, ?_, stored.trans matched.stored⟩
  · rw [failures]
    exact matched.quorum
  · rw [outstanding]
    exact matched.outstanding

theorem matched_progress (replicas : List Nat) (received other : Nat → Nat) (sent : List (Option Nat)) (gsn : Nat → Nat)
    (client : Loop) (delivered : Nat) (matched : Matched replicas received sent gsn client delivered)
    (same : ∀ r ∈ replicas, other r = received r) : Matched replicas other sent gsn client delivered := by
  have counts : ∀ k, count replicas other k = count replicas received k := fun k => count_congr replicas _ _ k same
  refine ⟨?_, ?_, ?_, ?_, matched.latest, ?_, matched.stored⟩
  · intro r inside
    rw [same r inside]
    exact matched.bounded r inside
  · simp only [counts]
    exact matched.quorum
  · simp only [counts]
    exact matched.ordered
  · simp only [counts]
    exact matched.small
  · simp only [counts]
    exact matched.outstanding

theorem matched_send (replicas : List Nat) (received : Nat → Nat) (sent : List (Option Nat)) (gsn : Nat → Nat)
    (client other : Loop) (delivered : Nat) (response : Option Nat) (matched : Matched replicas received sent gsn client delivered)
    (failures : other.failures = client.failures) (latest : other.latestGsn = client.latestGsn)
    (outstanding : other.outstanding = client.outstanding ++ [⟨response, uint64Max, 0⟩]) (stored : other.stored = client.stored) :
    Matched replicas received (sent ++ [response]) gsn other delivered := by
  have reach := matched_reach _ _ _ _ _ _ matched
  have length : client.outstanding.length = sent.length - delivered := by
    apply Nat.le_antisymm
    · have stop := matched.outstanding (sent.length - delivered)
      have beyond : sent[delivered + (sent.length - delivered)]? = none := List.getElem?_eq_none (by omega)
      rw [beyond] at stop
      exact List.getElem?_eq_none_iff.mp stop
    · by_contra short
      have stop := matched.outstanding client.outstanding.length
      rw [List.getElem?_eq_none (Nat.le_refl _), List.getElem?_eq_getElem (by omega)] at stop
      cases stop
  refine ⟨?_, ?_, matched.ordered, matched.small, latest.trans matched.latest, ?_, ?_⟩
  · intro r inside
    have := matched.bounded r inside
    rw [List.length_append]
    omega
  · rw [failures]
    exact matched.quorum
  · intro i
    rw [outstanding]
    rcases Nat.lt_trichotomy i (sent.length - delivered) with before | here | after
    · rw [List.getElem?_append_left (by omega), List.getElem?_append_left (by omega)]
      exact matched.outstanding i
    · have unheard := matched_beyond _ _ _ _ _ _ matched (delivered + i) (by omega)
      rw [List.getElem?_append_right (by omega), List.getElem?_append_right (by omega), unheard, length, here]
      simp [show delivered + (sent.length - delivered) - sent.length = 0 by omega]
    · rw [List.getElem?_eq_none (by simp only [List.length_append, List.length_singleton]; omega),
        List.getElem?_eq_none (by simp only [List.length_append, List.length_singleton]; omega)]
      rfl
  · rw [stored, matched.stored]
    apply List.filterMap_congr
    intro k member
    rw [List.getElem?_append_left (Nat.lt_of_lt_of_le (List.mem_range.mp member) reach)]

theorem find_first (elems : List Outstanding) (matching : Outstanding → Bool) (index : Nat) (elem : Outstanding)
    (here : elems[index]? = some elem) (found : matching elem = true)
    (first : ∀ (j : Nat) other, j < index → elems[j]? = some other → matching other = false) :
    elems.findIdx? matching = some index := by
  obtain ⟨bound, value⟩ := List.getElem?_eq_some_iff.mp here
  refine List.findIdx?_eq_some_iff_getElem.mpr ⟨bound, by rw [value]; exact found, ?_⟩
  intro j less
  rw [first j _ less (List.getElem?_eq_getElem (Nat.lt_trans less bound))]
  exact Bool.false_ne_true

-- A request whose GSN nobody has named yet may get any GSN in the description.
theorem matched_name (replicas : List Nat) (received : Nat → Nat) (sent : List (Option Nat)) (gsn : Nat → Nat) (client : Loop)
    (delivered k value : Nat) (matched : Matched replicas received sent gsn client delivered)
    (agrees : 0 < count replicas received k → value = gsn k) :
    Matched replicas received sent (Function.update gsn k value) client delivered := by
  by_cases heard : 0 < count replicas received k
  · rw [agrees heard, Function.update_eq_self]
    exact matched
  · have below : ∀ j, 0 < count replicas received j → j < k := by
      intro j named
      by_contra beyond
      have := count_antitone replicas received k j (by omega)
      omega
    have kept : ∀ j, j < k → Function.update gsn k value j = gsn j := fun j less => Function.update_of_ne (Nat.ne_of_lt less) _ _
    have early : ∀ j, j < delivered → j < k := fun j less =>
      below j (Nat.lt_of_le_of_lt (Nat.zero_le _) ((matched.quorum j).mp less))
    refine ⟨matched.bounded, matched.quorum, ?_, ?_, ?_, ?_, ?_⟩
    · intro i j less named
      have before := below j named
      rw [kept i (by omega), kept j before]
      exact matched.ordered i j less named
    · intro j named
      rw [kept j (below j named)]
      exact matched.small j named
    · rw [matched.latest]
      by_cases none : delivered = 0
      · rw [if_pos none, if_pos none]
      · rw [if_neg none, if_neg none, kept _ (early _ (by omega))]
    · intro i
      rw [matched.outstanding i]
      by_cases named : 0 < count replicas received (delivered + i)
      · simp only [if_pos named, kept _ (below _ named)]
      · simp only [if_neg named]
    · rw [matched.stored]
      apply List.filterMap_congr
      intro j member
      rw [kept j (early j (List.mem_range.mp member))]

-- A late ACK: the request has been delivered already.
theorem ack_late (replicas : List Nat) (received : Nat → Nat) (sent : List (Option Nat)) (gsn : Nat → Nat) (client : Loop)
    (delivered : Nat) (matched : Matched replicas received sent gsn client delivered) (replicaId k : Nat) (late : k < delivered) :
    client.clientInsertAck ⟨replicaId, gsn k⟩ = client := by
  have heard : 0 < count replicas received (delivered - 1) :=
    Nat.lt_of_le_of_lt (Nat.zero_le _) ((matched.quorum (delivered - 1)).mp (by omega))
  have last := matched.small (delivered - 1) heard
  have order : gsn k ≤ gsn (delivered - 1) := by
    rcases Nat.lt_or_eq_of_le (show k ≤ delivered - 1 by omega) with less | same
    · exact Nat.le_of_lt (matched.ordered k (delivered - 1) less heard)
    · rw [same]
  rw [Loop.clientInsertAck, if_pos]
  rw [matched.latest, if_neg (by omega)]
  exact ⟨Nat.ne_of_lt last, order⟩

-- An ACK for a request that is still outstanding finds that request.
theorem ack_found (replicas : List Nat) (received : Nat → Nat) (sent : List (Option Nat)) (gsn : Nat → Nat) (client : Loop)
    (delivered r : Nat) (response : Option Nat) (matched : Matched replicas received sent gsn client delivered) (inside : r ∈ replicas)
    (current : delivered ≤ received r) (present : sent[received r]? = some response)
    (above : ∀ i, i < received r → gsn i < gsn (received r)) :
    client.outstanding.findIdx? (Outstanding.matching (gsn (received r))) = some (received r - delivered) ∧
      client.outstanding[received r - delivered]? = some ⟨response,
        if 0 < count replicas received (received r) then gsn (received r) else uint64Max, count replicas received (received r)⟩ := by
  have here := matched.outstanding (received r - delivered)
  rw [Nat.add_sub_cancel' current, present, Option.map_some] at here
  refine ⟨find_first _ _ _ _ here ?_ ?_, here⟩
  · simp only [Outstanding.matching, decide_eq_true_eq]
    split
    · exact Or.inr rfl
    · exact Or.inl rfl
  · intro j other less access
    have earlier := matched.outstanding j
    have heard : 0 < count replicas received (delivered + j) := count_pos _ _ _ r inside (by omega)
    rw [access, if_pos heard] at earlier
    obtain ⟨response', _, value⟩ := Option.map_eq_some_iff.mp earlier.symm
    have small := matched.small _ heard
    have below := above (delivered + j) (by omega)
    rw [← value]
    simp only [Outstanding.matching, decide_eq_false_iff_not]
    omega

theorem ack_elapsed (replicas : List Nat) (received : Nat → Nat) (sent : List (Option Nat)) (gsn : Nat → Nat) (client : Loop)
    (delivered k : Nat) (matched : Matched replicas received sent gsn client delivered) (current : delivered ≤ k)
    (above : ∀ i, i < k → gsn i < gsn k) : ¬ (client.latestGsn ≠ uint64Max ∧ gsn k ≤ client.latestGsn) := by
  rw [matched.latest]
  by_cases none : delivered = 0
  · rw [if_pos none]
    exact fun both => both.1 rfl
  · rw [if_neg none]
    intro both
    have := above (delivered - 1) (by omega)
    omega

-- The counts after the next ACK of one replica.
theorem heard_advance (replicas : List Nat) (received : Nat → Nat) (r k : Nat) (nodup : replicas.Nodup) (inside : r ∈ replicas)
    (heard : 0 < count replicas (advance received r) k) : 0 < count replicas received k ∨ k = received r := by
  rw [count_advance replicas received r k nodup inside] at heard
  by_cases same : k = received r
  · exact Or.inr same
  · rw [if_neg same] at heard
    exact Or.inl heard

section

variable (replicas : List Nat) (received : Nat → Nat) (sent : List (Option Nat)) (gsn : Nat → Nat) (client : Loop)
  (delivered r : Nat) (nodup : replicas.Nodup) (matched : Matched replicas received sent gsn client delivered) (inside : r ∈ replicas)

include nodup inside

theorem count_here : count replicas (advance received r) (received r) = count replicas received (received r) + 1 := by
  rw [count_advance replicas received r _ nodup inside, if_pos rfl]

theorem count_elsewhere (k : Nat) (different : k ≠ received r) :
    count replicas (advance received r) k = count replicas received k := by
  rw [count_advance replicas received r k nodup inside, if_neg different, Nat.add_zero]

include matched

omit nodup inside in
theorem advance_bounded (pending : received r < sent.length) : ∀ other ∈ replicas, advance received r other ≤ sent.length := by
  intro other member
  by_cases same : other = r
  · subst same
    rw [advance, Function.update_self]
    exact pending
  · rw [advance, Function.update_of_ne same]
    exact matched.bounded other member

theorem advance_ordered (above : ∀ i, i < received r → gsn i < gsn (received r)) :
    ∀ i j, i < j → 0 < count replicas (advance received r) j → gsn i < gsn j := by
  intro i j less heard
  rcases heard_advance replicas received r j nodup inside heard with old | new
  · exact matched.ordered i j less old
  · rw [new]
    exact above i (new ▸ less)

theorem advance_small (small : gsn (received r) < uint64Max) :
    ∀ k, 0 < count replicas (advance received r) k → gsn k < uint64Max := by
  intro k heard
  rcases heard_advance replicas received r k nodup inside heard with old | new
  · exact matched.small k old
  · rw [new]
    exact small

-- Only the request that the replica answers can reach its quorum.
theorem advance_quorum (after : Nat) (others : ∀ k, k ≠ received r → (k < after ↔ k < delivered))
    (own : received r < after ↔ client.failures < count replicas received (received r) + 1) :
    ∀ k, k < after ↔ client.failures < count replicas (advance received r) k := by
  intro k
  by_cases same : k = received r
  · rw [same, count_here replicas received r nodup inside]
    exact own
  · rw [count_elsewhere replicas received r nodup inside k same]
    exact (others k same).trans (matched.quorum k)

end

theorem ack_matched_known (replicas : List Nat) (received : Nat → Nat) (sent : List (Option Nat)) (gsn : Nat → Nat) (client : Loop)
    (delivered r replicaId : Nat) (nodup : replicas.Nodup) (matched : Matched replicas received sent gsn client delivered)
    (inside : r ∈ replicas) (pending : received r < sent.length) (above : ∀ i, i < received r → gsn i < gsn (received r))
    (small : gsn (received r) < uint64Max) :
    ∃ delivered', Matched replicas (advance received r) sent gsn (client.clientInsertAck ⟨replicaId, gsn (received r)⟩) delivered' := by
  have here := count_here replicas received r nodup inside
  have elsewhere := count_elsewhere replicas received r nodup inside
  have bounded := advance_bounded replicas received sent gsn client delivered r matched pending
  have ordered := advance_ordered replicas received sent gsn client delivered r nodup matched inside above
  have smaller := advance_small replicas received sent gsn client delivered r nodup matched inside small
  have quorum := advance_quorum replicas received sent gsn client delivered r nodup matched inside
  rcases Nat.lt_or_ge (received r) delivered with late | current
  · rw [ack_late replicas received sent gsn client delivered matched replicaId _ late]
    refine ⟨delivered, bounded, ?_, ordered, smaller, matched.latest, ?_, matched.stored⟩
    · have before := (matched.quorum (received r)).mp late
      exact quorum delivered (fun _ _ => Iff.rfl) ⟨fun _ => Nat.lt_succ_of_lt before, fun _ => late⟩
    · intro i
      rw [matched.outstanding i, elsewhere (delivered + i) (by omega)]
  · obtain ⟨response, present⟩ := Option.isSome_iff_exists.mp (by simpa using pending : (sent[received r]?).isSome = true)
    obtain ⟨index, found⟩ := ack_found replicas received sent gsn client delivered r response matched inside current present above
    have fewer : count replicas received (received r) ≤ client.failures := by
      by_contra more
      have := (matched.quorum (received r)).mpr (by omega)
      omega
    have named : (if (if 0 < count replicas received (received r) then gsn (received r) else uint64Max) = uint64Max then gsn (received r)
        else if 0 < count replicas received (received r) then gsn (received r) else uint64Max) = gsn (received r) := by
      by_cases heard : 0 < count replicas received (received r)
      · rw [if_pos heard, if_neg (Nat.ne_of_lt small)]
      · rw [if_neg heard, if_pos rfl]
    rw [Loop.clientInsertAck, if_neg (ack_elapsed replicas received sent gsn client delivered _ matched current above)]
    simp only [index, found, Outstanding.counted, named]
    by_cases enough : client.failures < count replicas received (received r) + 1
    · -- The last missing ACK. Every replica that answered this request has
      -- answered the ones before it, so it is the oldest outstanding one.
      have oldest : received r = delivered :=
        (threshold_oldest replicas received r client.failures delivered nodup inside matched.quorum (by omega)).symm
      rw [if_pos enough]
      refine ⟨delivered + 1, bounded, ?_, ordered, smaller, ?_, ?_, ?_⟩
      · exact quorum (delivered + 1) (fun k different => by omega) ⟨fun _ => enough, fun _ => by omega⟩
      · rw [if_neg (Nat.succ_ne_zero delivered), Nat.add_sub_cancel, oldest]
      · intro i
        have after := matched.outstanding (i + 1)
        have shift : delivered + 1 + i = delivered + (i + 1) := by omega
        have gone : received r - delivered = 0 := by omega
        simp only [gone, List.eraseIdx_zero, List.getElem?_tail]
        rw [after, elsewhere (delivered + 1 + i) (by omega), shift]
      · rw [matched.stored, List.range_succ, List.filterMap_append, ← oldest]
        cases response <;> simp [present]
    · rw [if_neg enough]
      refine ⟨delivered, bounded, ?_, ordered, smaller, matched.latest, ?_, matched.stored⟩
      · exact quorum delivered (fun _ _ => Iff.rfl) ⟨fun less => absurd less (Nat.not_lt.mpr current), fun more => absurd more enough⟩
      · intro i
        by_cases same : i = received r - delivered
        · subst same
          have bound := (List.getElem?_eq_some_iff.mp found).1
          rw [List.getElem?_set_self bound, Nat.add_sub_cancel' current, present, here, if_pos (Nat.succ_pos _)]
          rfl
        · rw [List.getElem?_set_ne (Ne.symm same), matched.outstanding i, elsewhere (delivered + i) (by omega)]

theorem ack_matched (replicas : List Nat) (received : Nat → Nat) (sent : List (Option Nat)) (gsn : Nat → Nat) (client : Loop)
    (delivered r replicaId value : Nat) (nodup : replicas.Nodup) (matched : Matched replicas received sent gsn client delivered)
    (inside : r ∈ replicas) (pending : received r < sent.length)
    (agrees : 0 < count replicas received (received r) → value = gsn (received r))
    (above : ∀ i, i < received r → gsn i < value) (small : value < uint64Max) :
    ∃ delivered', Matched replicas (advance received r) sent (Function.update gsn (received r) value)
      (client.clientInsertAck ⟨replicaId, value⟩) delivered' := by
  have named := matched_name replicas received sent gsn client delivered (received r) value matched agrees
  have value_eq : Function.update gsn (received r) value (received r) = value := Function.update_self _ _ _
  have result := ack_matched_known replicas received sent _ client delivered r replicaId nodup named inside pending
    (fun i less => by rw [value_eq, Function.update_of_ne (Nat.ne_of_lt less)]; exact above i less) (by rw [value_eq]; exact small)
  rwa [value_eq] at result

-- The requests whose GSN is known come first.
theorem matched_earlier (replicas : List Nat) (received : Nat → Nat) (sent : List (Option Nat)) (gsn : Nat → Nat) (client : Loop)
    (delivered : Nat) (matched : Matched replicas received sent gsn client delivered) :
    ∃ known unknown, client.outstanding = known ++ unknown ∧ (∀ elem ∈ known, elem.gsn ≠ uint64Max) ∧
      ∀ elem ∈ unknown, elem.gsn = uint64Max := by
  have sorted : client.outstanding.Pairwise (fun a b => a.gsn = uint64Max → b.gsn = uint64Max) := by
    refine List.pairwise_iff_getElem.mpr ?_
    intro i j firstBound secondBound less unnamed
    have first := matched.outstanding i
    have second := matched.outstanding j
    rw [List.getElem?_eq_getElem firstBound] at first
    rw [List.getElem?_eq_getElem secondBound] at second
    obtain ⟨_, _, atFirst⟩ := Option.map_eq_some_iff.mp first.symm
    obtain ⟨_, _, atSecond⟩ := Option.map_eq_some_iff.mp second.symm
    rw [← atFirst] at unnamed
    rw [← atSecond]
    have fewer := count_antitone replicas received (delivered + i) (delivered + j) (by omega)
    by_cases heard : 0 < count replicas received (delivered + i)
    · have small := matched.small _ heard
      rw [if_pos heard] at unnamed
      exact absurd unnamed (Nat.ne_of_lt small)
    · exact if_neg (by omega)
  refine ⟨client.outstanding.takeWhile (fun elem => elem.gsn ≠ uint64Max),
    client.outstanding.dropWhile (fun elem => elem.gsn ≠ uint64Max), List.takeWhile_append_dropWhile.symm, ?_, ?_⟩
  · intro elem member
    simpa using List.mem_takeWhile_imp member
  · intro elem member
    have rest := sorted.sublist (List.dropWhile_sublist (fun elem => decide (elem.gsn ≠ uint64Max)))
    cases tail : client.outstanding.dropWhile (fun elem => elem.gsn ≠ uint64Max) with
    | nil =>
        rw [tail] at member
        cases member
    | cons head others =>
        have stopped : head.gsn = uint64Max := by
          have := List.head?_dropWhile_not (fun elem : Outstanding => decide (elem.gsn ≠ uint64Max)) client.outstanding
          rw [tail] at this
          simpa using this
        rw [tail] at member rest
        cases member with
        | head => exact stopped
        | tail _ later => exact (List.pairwise_cons.mp rest).1 elem later stopped

-- A client connected to its replicas. gsns are the GSNs that the storage servers
-- give to its requests, one after the other.
structure Session where
  client : Loop
  sent : List (Option Nat)
  received : Nat → Nat

inductive Action where
  | insert (data : Bytes) (response : Nat)
  | newEpoch (beginning numSlots : Nat)
  | switchEpoch (now : Nat)
  | send (now : Nat)
  | ack (replicaId : Nat)
deriving DecidableEq, Repr

def Session.init (replicas : List Nat) (clientId shardId failures : Nat) : Session :=
  ⟨(Loop.init clientId shardId failures).clientStorageInfo replicas, [], fun _ => 0⟩

def Session.step (replicas gsns : List Nat) (s : Session) : Action → Option Session
  | .insert data response => some { s with client := s.client.insert data response }
  | .newEpoch beginning numSlots => some { s with client := s.client.clientNewEpoch beginning numSlots }
  | .switchEpoch now => some { s with client := s.client.switchEpoch now }
  | .send now =>
      match s.client.send now with
      | (client, none) => some { s with client := client }
      | (client, some _) =>
          some { s with client := client, sent := s.sent ++ [client.outstanding.getLast?.bind Outstanding.response] }
  | .ack replicaId =>
      if replicaId ∈ replicas ∧ s.received replicaId < s.sent.length then
        match gsns[s.received replicaId]? with
        | none => none
        | some gsn => some { s with
            client := s.client.clientInsertAck ⟨replicaId, gsn⟩
            received := advance s.received replicaId }
      else none

-- The send branch either does nothing or appends one unanswered request.
theorem send_cases (client : Loop) (now : Nat) :
    client.send now = (client, none) ∨ ∃ message response other, client.send now = (other, some message) ∧
      1 ≤ message.numSlots ∧ message.clientId = client.clientId ∧ other.failures = client.failures ∧
      other.latestGsn = client.latestGsn ∧ other.stored = client.stored ∧
      other.outstanding = client.outstanding ++ [⟨response, uint64Max, 0⟩] := by
  unfold Loop.send
  split
  · rename_i allowed
    have behind := allowed.2.1
    dsimp only
    split
    · rename_i data response requests _
      refine Or.inr ⟨_, some response, _, rfl, ?_, rfl, rfl, rfl, rfl, rfl⟩
      change 1 ≤ client.ideal now - client.consumed
      omega
    · split
      · rename_i idle
        refine Or.inr ⟨_, none, _, rfl, ?_, rfl, rfl, rfl, rfl, ?_⟩
        · change 1 ≤ client.ideal now - client.consumed
          omega
        · rw [idle]
          rfl
      · exact Or.inl rfl
  · exact Or.inl rfl

theorem switch_epoch_same (client : Loop) (now : Nat) :
    (client.switchEpoch now).failures = client.failures ∧ (client.switchEpoch now).latestGsn = client.latestGsn ∧
      (client.switchEpoch now).outstanding = client.outstanding ∧ (client.switchEpoch now).stored = client.stored := by
  unfold Loop.switchEpoch
  split
  · exact ⟨rfl, rfl, rfl, rfl⟩
  · split
    · exact ⟨rfl, rfl, rfl, rfl⟩
    · exact ⟨rfl, rfl, rfl, rfl⟩

theorem insert_ack_failures (client : Loop) (ack : ClientInsertAck) : (client.clientInsertAck ack).failures = client.failures := by
  unfold Loop.clientInsertAck
  split
  · rfl
  · split
    · rfl
    · split
      · rfl
      · dsimp only
        split
        · rfl
        · rfl

structure Session.Inv (replicas gsns : List Nat) (failures : Nat) (s : Session) (delivered : Nat) : Prop where
  matched : Matched replicas s.received s.sent (fun k => gsns.getD k 0) s.client delivered
  failures : s.client.failures = failures

theorem increasing_getD (gsns : List Nat) (increasing : gsns.Pairwise (· < ·)) (k : Nat) (bound : k < gsns.length) :
    ∀ i, i < k → gsns.getD i 0 < gsns.getD k 0 := by
  intro i less
  rw [List.getD_eq_getElem _ _ (Nat.lt_trans less bound), List.getD_eq_getElem _ _ bound]
  exact List.pairwise_iff_getElem.mp increasing i k _ bound less

theorem session_step (replicas gsns : List Nat) (failures : Nat) (nodup : replicas.Nodup) (increasing : gsns.Pairwise (· < ·))
    (small : ∀ gsn ∈ gsns, gsn < uint64Max) (s next : Session) (action : Action)
    (inv : ∃ delivered, s.Inv replicas gsns failures delivered) (stepped : s.step replicas gsns action = some next) :
    ∃ delivered, next.Inv replicas gsns failures delivered := by
  obtain ⟨delivered, inv⟩ := inv
  cases action with
  | insert data response =>
      obtain rfl := Option.some.inj stepped
      exact ⟨delivered, matched_congr _ _ _ _ _ _ _ inv.matched rfl rfl rfl rfl, inv.failures⟩
  | newEpoch beginning numSlots =>
      obtain rfl := Option.some.inj stepped
      exact ⟨delivered, matched_congr _ _ _ _ _ _ _ inv.matched rfl rfl rfl rfl, inv.failures⟩
  | switchEpoch now =>
      obtain rfl := Option.some.inj stepped
      obtain ⟨failures', latest, outstanding, stored⟩ := switch_epoch_same s.client now
      exact ⟨delivered, matched_congr _ _ _ _ _ _ _ inv.matched failures' latest outstanding stored, failures'.trans inv.failures⟩
  | send now =>
      simp only [Session.step] at stepped
      rcases send_cases s.client now with nothing | ⟨message, response, other, sent, _, _, failures', latest, stored, outstanding⟩
      · rw [nothing] at stepped
        obtain rfl := Option.some.inj stepped
        exact ⟨delivered, inv.matched, inv.failures⟩
      · rw [sent] at stepped
        obtain rfl := Option.some.inj stepped
        refine ⟨delivered, ?_, failures'.trans inv.failures⟩
        have last : other.outstanding.getLast?.bind Outstanding.response = response := by simp [outstanding]
        simp only [last]
        exact matched_send _ _ _ _ _ _ _ _ inv.matched failures' latest outstanding stored
  | ack replicaId =>
      simp only [Session.step] at stepped
      split at stepped
      · rename_i allowed
        cases access : gsns[s.received replicaId]? with
        | none =>
            rw [access] at stepped
            cases stepped
        | some gsn =>
            rw [access] at stepped
            obtain rfl := Option.some.inj stepped
            obtain ⟨bound, value⟩ := List.getElem?_eq_some_iff.mp access
            have named : gsns.getD (s.received replicaId) 0 = gsn := by rw [List.getD_eq_getElem _ _ bound, value]
            obtain ⟨delivered', matched⟩ := ack_matched_known replicas s.received s.sent (fun k => gsns.getD k 0) s.client delivered
              replicaId replicaId nodup inv.matched allowed.1 allowed.2 (increasing_getD gsns increasing _ bound)
              (by rw [named]; exact small gsn (value ▸ List.getElem_mem bound))
            rw [named] at matched
            exact ⟨delivered', matched, (insert_ack_failures _ _).trans inv.failures⟩
      · cases stepped

theorem session_run (replicas gsns : List Nat) (clientId shardId failures : Nat) (nodup : replicas.Nodup)
    (increasing : gsns.Pairwise (· < ·)) (small : ∀ gsn ∈ gsns, gsn < uint64Max) (actions : List Action) (s : Session)
    (ran : Machine.run (Session.step replicas gsns) (Session.init replicas clientId shardId failures) actions = some s) :
    ∃ delivered, s.Inv replicas gsns failures delivered := by
  refine Machine.run_preserves (Session.step replicas gsns) (fun s => ∃ delivered, s.Inv replicas gsns failures delivered)
    (fun s action next before stepped => session_step replicas gsns failures nodup increasing small s next action before stepped)
    _ s ⟨0, matched_init replicas _ _ rfl rfl rfl, rfl⟩ actions ran

-- In every state the k-th request has counted the ACKs of exactly the replicas
-- that have answered it, and an ACK stores the response of its own request when
-- it is the one that is missing, and otherwise nothing.
theorem acks_attributed (replicas : List Nat) (nodup : replicas.Nodup) (clientId shardId failures : Nat) (gsns : List Nat)
    (increasing : gsns.Pairwise (· < ·)) (small : ∀ gsn ∈ gsns, gsn < uint64Max) (actions : List Action) (s : Session)
    (ran : Machine.run (Session.step replicas gsns) (Session.init replicas clientId shardId failures) actions = some s) :
    ∃ delivered,
      (∀ k, k < delivered ↔ failures < (replicas.filter (fun r => k < s.received r)).length) ∧
      (∀ i : Nat, s.client.outstanding[i]? = s.sent[delivered + i]?.map (fun response =>
        ⟨response,
          if ∃ r ∈ replicas, delivered + i < s.received r then gsns.getD (delivered + i) 0 else uint64Max,
          (replicas.filter (fun r => delivered + i < s.received r)).length⟩)) ∧
      s.client.stored =
        (List.range delivered).filterMap (fun k => s.sent[k]?.join.map (fun response => (response, gsns.getD k 0))) ∧
      (∃ known unknown, s.client.outstanding = known ++ unknown ∧ (∀ elem ∈ known, elem.gsn ≠ uint64Max) ∧
        ∀ elem ∈ unknown, elem.gsn = uint64Max) ∧
      ∀ r next, s.step replicas gsns (.ack r) = some next →
        (failures < (replicas.filter (fun r' => s.received r < s.received r')).length → next.client = s.client) ∧
        next.client.stored = s.client.stored ++
          (if (replicas.filter (fun r' => s.received r < s.received r')).length = failures then
            (s.sent[s.received r]?.join.map (fun response => (response, gsns.getD (s.received r) 0))).toList
          else []) := by
  obtain ⟨delivered, inv⟩ := session_run replicas gsns clientId shardId failures nodup increasing small actions s ran
  have counted : ∀ k, count replicas s.received k = (replicas.filter (fun r => k < s.received r)).length :=
    fun k => List.countP_eq_length_filter
  have heard : ∀ k, (∃ r ∈ replicas, k < s.received r) ↔ 0 < count replicas s.received k := by
    intro k
    simp [count, List.countP_pos_iff]
  refine ⟨delivered, ?_, ?_, inv.matched.stored, matched_earlier _ _ _ _ _ _ inv.matched, ?_⟩
  · intro k
    rw [inv.matched.quorum k, inv.failures, counted]
  · intro i
    rw [inv.matched.outstanding i]
    simp only [heard, counted]
  · intro r next stepped
    obtain ⟨delivered', inv'⟩ := session_step replicas gsns failures nodup increasing small s next (.ack r) ⟨delivered, inv⟩ stepped
    simp only [Session.step] at stepped
    split at stepped
    · rename_i allowed
      cases access : gsns[s.received r]? with
      | none =>
          rw [access] at stepped
          cases stepped
      | some gsn =>
          rw [access] at stepped
          obtain rfl := Option.some.inj stepped
          have named : gsns.getD (s.received r) 0 = gsn := by simp [List.getD, access]
          have quorum := inv.matched.quorum
          have quorum' := inv'.matched.quorum
          rw [inv.failures] at quorum
          rw [inv'.failures] at quorum'
          have more := threshold_unique _ _ _ quorum'
            (threshold_step replicas s.received r failures delivered nodup allowed.1 quorum)
          have oldest := threshold_oldest replicas s.received r failures delivered nodup allowed.1 quorum
          rw [← counted]
          refine ⟨?_, ?_⟩
          · intro enough
            have late := ack_late replicas s.received s.sent _ s.client delivered inv.matched r _ ((quorum (s.received r)).mpr enough)
            rw [named] at late
            exact late
          · have after := inv'.matched.stored
            rw [after, more, inv.matched.stored]
            by_cases completes : count replicas s.received (s.received r) = failures
            · rw [if_pos completes, if_pos completes, List.range_succ, List.filterMap_append, oldest completes]
              cases response : s.sent[s.received r]?.join <;> simp [response]
            · rw [if_neg completes, if_neg completes, Nat.add_zero, List.append_nil]
    · cases stepped

theorem acks_attributed_three_replicas : ∃ s, Machine.run (Session.step [0, 1, 4] [3, 7])
    (Session.init [0, 1, 4] 9 0 1) [.insert [1] 50, .newEpoch 0 200, .switchEpoch 0, .send 1000000, .insert [2] 60, .send 2000000,
      .ack 4, .ack 4, .ack 0, .ack 1] = some s ∧ s.client.stored = [(50, 3)] ∧
      ∃ known unknown, s.client.outstanding = known ++ unknown ∧ (∀ elem ∈ known, elem.gsn ≠ uint64Max) ∧
        ∀ elem ∈ unknown, elem.gsn = uint64Max := by
  have stores : (Machine.run (Session.step [0, 1, 4] [3, 7])
      (Session.init [0, 1, 4] 9 0 1) [.insert [1] 50, .newEpoch 0 200, .switchEpoch 0, .send 1000000, .insert [2] 60, .send 2000000,
        .ack 4, .ack 4, .ack 0, .ack 1]).map (fun s => s.client.stored) = some [(50, 3)] := by decide +kernel
  obtain ⟨s, ran, stored⟩ := Option.map_eq_some_iff.mp stores
  obtain ⟨_, _, _, _, known, _⟩ := acks_attributed [0, 1, 4] (by decide) 9 0 1 [3, 7] (by decide) (by decide) _ s ran
  exact ⟨s, ran, stored, known⟩

end ZipLog.Client
