import ZipLog.Storage.Refinement

set_option autoImplicit false

namespace ZipLog.Storage

theorem push_push (contents : Contents) (client : Nat) (first second : List Bytes) :
    (contents.push client first).push client second = contents.push client (first ++ second) := by
  simp [Contents.push]

theorem push_nil (contents : Contents) (client : Nat) : contents.push client [] = contents := by
  simp [Contents.push]

theorem push_slots (contents : Contents) (client : Nat) (payloads : List Bytes) :
    (contents.push client payloads).slots = contents.slots := rfl

theorem push_fills_same (contents : Contents) (client : Nat) (payloads : List Bytes) :
    (contents.push client payloads).fills client = contents.fills client ++ payloads := by
  simp [Contents.push]

theorem push_fills_other (contents : Contents) (client other : Nat) (payloads : List Bytes) (different : other ≠ client) :
    (contents.push client payloads).fills other = contents.fills other := by
  simp [Contents.push, different]

theorem cursor_push (contents : Contents) (client : Nat) (payloads : List Bytes) (moved : payloads ≠ []) :
    (contents.push client payloads).cursor client =
      (chain contents.slots client)[(contents.fills client).length + payloads.length - 1]? := by
  simp [Contents.cursor, push_fills_same, push_slots, moved]

theorem cursor_push_other (contents : Contents) (client other : Nat) (payloads : List Bytes) (different : other ≠ client) :
    (contents.push client payloads).cursor other = contents.cursor other := by
  simp only [Contents.cursor, push_fills_other contents client other payloads different, push_slots]

theorem push_elsewhere (contents : Contents) (client : Nat) (payload : Bytes) (owner rank : Nat)
    (apart : owner ≠ client ∨ rank ≠ (contents.fills client).length) :
    ((contents.push client [payload]).fills owner).getD rank [] = (contents.fills owner).getD rank [] ∧
    (rank < ((contents.push client [payload]).fills owner).length ↔ rank < (contents.fills owner).length) := by
  by_cases mine : owner = client
  · subst owner
    have different : rank ≠ (contents.fills client).length := apart.resolve_left (fun other => other rfl)
    rw [push_fills_same, List.length_append, List.length_singleton]
    refine ⟨?_, by omega⟩
    rcases Nat.lt_or_gt_of_ne different with before | after
    · exact List.getD_append _ _ _ _ before
    · rw [List.getD_eq_default _ _ (by simp only [List.length_append, List.length_singleton]; omega),
        List.getD_eq_default _ _ (by omega)]
  · rw [push_fills_other _ _ _ _ mine]
    exact ⟨rfl, Iff.rfl⟩

-- Both closing a slot and storing a request fill the client's first unset slot:
-- they differ in the payload only.
theorem fill_represents (log : Log) (contents : Contents) (client index : Nat) (payload : Bytes) (change : Entry → Entry)
    (rep : Represents log contents)
    (here : (chain contents.slots client)[(contents.fills client).length]? = some index)
    (kept : ∀ e, (change e).gsn = e.gsn ∧ (change e).clientId = e.clientId ∧ (change e).next = e.next ∧
      (change e).prev = e.prev ∧ (change e).set = true)
    (stored : ∀ e, e.dataLength = 0 → (change e).dataLength = payload.length ∧ (change e).payload = payload) :
    Represents (log.modify (ptr index) change) (contents.push client [payload]) := by
  refine ⟨?_, rep.entry, rep.size, rep.count, ?_, ?_, rep.first, rep.last, ?_⟩
  · simpa [Log.modify] using rep.blocks
  · intro owner rank other access
    rw [push_slots] at access
    obtain ⟨entry, read, cell⟩ := rep.cells owner rank other access
    by_cases same : index = other
    · subst other
      obtain rfl := chain_owner_unique _ _ _ _ _ _ here access
      obtain rfl := chain_rank_unique _ _ _ _ _ here access
      obtain ⟨gsn, ownerId, next, prev, set⟩ := kept entry
      have blank : entry.dataLength = 0 := by
        rw [cell.length, List.getD_eq_default _ _ (Nat.le_refl _)]
        rfl
      have value : ((contents.push client [payload]).fills client).getD (contents.fills client).length [] = payload := by
        simp [push_fills_same]
      refine ⟨change entry, by rw [read_modify_same, read]; rfl, ⟨?_, ?_, ?_, ?_, ?_, ?_, ?_⟩⟩
      · rw [gsn]
        exact cell.slot
      · rw [ownerId]
        exact cell.owner
      · rw [next]
        exact cell.next
      · rw [prev]
        exact cell.prev
      · rw [set, push_fills_same]
        simp
      · rw [value]
        exact (stored entry blank).1
      · rw [value]
        exact (stored entry blank).2
    · have apart : owner ≠ client ∨ rank ≠ (contents.fills client).length := by
        by_contra both
        push Not at both
        obtain ⟨rfl, rfl⟩ := both
        exact same (Option.some.inj (here.symm.trans access))
      obtain ⟨value, filled⟩ := push_elsewhere contents client payload owner rank apart
      refine ⟨entry, by rw [read_modify_other _ _ _ _ (ptr_ne _ _ same), read], ?_⟩
      refine ⟨cell.slot, cell.owner, cell.next, cell.prev, ?_, ?_, ?_⟩
      · rw [cell.set]
        exact decide_eq_decide.mpr filled.symm
      · rw [value]
        exact cell.length
      · rw [value]
        exact cell.payload
  · intro slot lower upper
    have later : ptr index ≠ ⟨log.block, slot⟩ := by
      rw [← ptr_mul_add log.block slot upper]
      have bound := chain_bound _ _ _ _ here
      have size := rep.size
      exact ptr_ne _ _ (by simp only [Log.modify] at lower; omega)
    change (log.modify (ptr index) change).read ⟨log.block, slot⟩ = _
    rw [read_modify_other _ _ _ _ later]
    exact rep.spare slot lower upper
  · intro owner
    by_cases mine : owner = client
    · subst owner
      have bound := (List.getElem?_eq_some_iff.mp here).1
      rw [push_fills_same, push_slots, List.length_append, List.length_singleton]
      omega
    · rw [push_fills_other _ _ _ _ mine]
      exact rep.filled owner

theorem fill_final (log : Log) (contents : Contents) (client index : Nat) (change : Entry → Entry)
    (rep : Represents log contents)
    (here : (chain contents.slots client)[(contents.fills client).length]? = some index) :
    Final log (log.modify (ptr index) change) := by
  obtain ⟨entry, read, cell⟩ := rep.cells client _ index here
  exact final_modify_unset log (ptr index) change entry read (by rw [cell.set]; simp)

theorem close_represents (log : Log) (contents : Contents) (client index : Nat) (rep : Represents log contents)
    (here : (chain contents.slots client)[(contents.fills client).length]? = some index) :
    Represents (log.modify (ptr index) Entry.close) (contents.push client [[]]) := by
  refine fill_represents log contents client index [] Entry.close rep here (fun e => ⟨rfl, rfl, rfl, rfl, rfl⟩) ?_
  intro e blank
  refine ⟨blank, ?_⟩
  cases data : e.data <;> simp [Entry.payload, Entry.close, data, blank]

-- A word of up to eight bytes is read back without what lay beyond it.
theorem fill_payload (buffer : Buffer) (e : Entry) : (e.fill buffer).payload = buffer.data := by
  unfold Entry.fill Entry.payload allocCopy
  by_cases long : 8 < buffer.data.length
  · simp [long]
  · by_cases some : 0 < buffer.data.length
    · have short : buffer.data.length ≤ 8 := Nat.le_of_not_lt long
      simp [long, some, List.take_take, Nat.min_eq_left short]
    · have empty : buffer.data = [] := List.length_eq_zero_iff.mp (Nat.eq_zero_of_not_pos some)
      simp [empty]

theorem store_represents (log : Log) (contents : Contents) (client index : Nat) (buffer : Buffer)
    (rep : Represents log contents)
    (here : (chain contents.slots client)[(contents.fills client).length]? = some index) :
    ∃ next gsn, log.store (ptr index) buffer = .ok ⟨next, ptr index, gsn⟩ ∧
      contents.slots[index]? = some (gsn, client) ∧ Represents next (contents.push client [buffer.data]) ∧
      Final log next := by
  obtain ⟨entry, read, cell⟩ := rep.cells client _ index here
  refine ⟨_, entry.gsn, by rw [Log.store, read], cell.slot, ?_, fill_final log contents client index _ rep here⟩
  exact fill_represents log contents client index buffer.data (Entry.fill buffer) rep here
    (fun e => ⟨rfl, rfl, rfl, rfl, rfl⟩) (fun e _ => ⟨rfl, fill_payload buffer e⟩)

theorem follow_chain (log : Log) (contents : Contents) (client rank index : Nat) (rep : Represents log contents)
    (here : (chain contents.slots client)[rank]? = some index) :
    log.follow (ptr index) = (chain contents.slots client)[rank + 1]?.map ptr := by
  obtain ⟨entry, read, cell⟩ := rep.cells client rank index here
  rw [Log.follow, read]
  exact cell.next

-- The cursor and the first entry together always lead to the next unset slot.
theorem seek_chain (log : Log) (contents : Contents) (client : Nat) (rep : Represents log contents) :
    log.seek client ((contents.cursor client).map ptr) =
      (chain contents.slots client)[(contents.fills client).length]?.map ptr := by
  unfold Contents.cursor
  by_cases fresh : contents.fills client = []
  · rw [if_pos fresh, fresh]
    exact rep.first client
  · have filled := rep.filled client
    have moved : 0 < (contents.fills client).length := List.length_pos_iff.mpr fresh
    have bound : (contents.fills client).length - 1 < (chain contents.slots client).length := by omega
    have here := List.getElem?_eq_getElem bound
    rw [if_neg fresh, here]
    have after := follow_chain log contents client _ _ rep here
    rwa [Nat.sub_add_cancel moved] at after

theorem close_slots_represents (count : Nat) (log : Log) (contents : Contents) (client index last : Nat)
    (rep : Represents log contents)
    (here : (chain contents.slots client)[(contents.fills client).length]? = some index)
    (there : (chain contents.slots client)[(contents.fills client).length + count]? = some last) :
    ∃ next, log.closeSlots count (ptr index) = .ok (next, ptr last) ∧
      Represents next (contents.push client (List.replicate count [])) ∧ Final log next := by
  induction count generalizing log contents index with
  | zero =>
      have same : index = last := Option.some.inj (here.symm.trans there)
      exact ⟨log, by rw [Log.closeSlots, same], by simpa [push_nil] using rep, final_refl log⟩
  | succ count ih =>
      have closed := close_represents log contents client index rep here
      have length : ((contents.push client [[]]).fills client).length = (contents.fills client).length + 1 := by
        simp [push_fills_same]
      have bound : (contents.fills client).length + 1 < (chain contents.slots client).length := by
        have := (List.getElem?_eq_some_iff.mp there).1
        omega
      have after := List.getElem?_eq_getElem bound
      obtain ⟨next, ran, repNext, final⟩ := ih (log.modify (ptr index) Entry.close) (contents.push client [[]]) _ closed
        (by rw [length]; exact after) (by rw [length, Nat.add_right_comm, Nat.add_assoc]; exact there)
      refine ⟨next, ?_, ?_, final_trans _ _ _ (fill_final log contents client index Entry.close rep here) final⟩
      · have step := follow_chain _ _ client _ index closed here
        rw [push_slots, after] at step
        simp only [Log.closeSlots, step]
        exact ran
      · rw [push_push] at repNext
        exact repNext

theorem close_slots_fault (count : Nat) (log : Log) (contents : Contents) (client index : Nat)
    (rep : Represents log contents)
    (here : (chain contents.slots client)[(contents.fills client).length]? = some index)
    (short : (chain contents.slots client).length ≤ (contents.fills client).length + count) :
    log.closeSlots count (ptr index) = .error .assertNotNull := by
  induction count generalizing log contents index with
  | zero =>
      have bound := (List.getElem?_eq_some_iff.mp here).1
      omega
  | succ count ih =>
      have closed := close_represents log contents client index rep here
      have length : ((contents.push client [[]]).fills client).length = (contents.fills client).length + 1 := by
        simp [push_fills_same]
      have step := follow_chain _ _ client _ index closed here
      rw [push_slots] at step
      cases after : (chain contents.slots client)[(contents.fills client).length + 1]? with
      | none =>
          rw [after] at step
          simp only [Log.closeSlots, step]
          rfl
      | some following =>
          rw [after] at step
          simp only [Log.closeSlots, step]
          exact ih _ _ following closed (by rw [length]; exact after) (by rw [length, push_slots]; omega)

-- position::insert, when the client owns enough slots and when it does not.
theorem insert_represents (log : Log) (contents : Contents) (client last : Nat) (buffer : Buffer) (close : Nat)
    (rep : Represents log contents) (positive : 1 ≤ close)
    (there : (chain contents.slots client)[(contents.fills client).length + close - 1]? = some last) :
    ∃ next gsn, log.insert client ((contents.cursor client).map ptr) buffer close = .ok ⟨next, ptr last, gsn⟩ ∧
      contents.slots[last]? = some (gsn, client) ∧
      Represents next (contents.push client (List.replicate (close - 1) [] ++ [buffer.data])) ∧ Final log next := by
  have steps : decrement close = close - 1 := if_neg (by omega)
  have bound : (contents.fills client).length < (chain contents.slots client).length := by
    have := (List.getElem?_eq_some_iff.mp there).1
    omega
  have here := List.getElem?_eq_getElem bound
  rw [Nat.add_sub_assoc positive] at there
  obtain ⟨closed, ran, repClosed, early⟩ := close_slots_represents (close - 1) log contents client _ last rep here there
  obtain ⟨next, gsn, stored, slot, repNext, late⟩ := store_represents closed _ client last buffer repClosed
    (by simpa [push_fills_same, push_slots] using there)
  refine ⟨next, gsn, ?_, slot, ?_, final_trans _ _ _ early late⟩
  · rw [Log.insert, seek_chain log contents client rep, here, steps]
    simp only [Option.map_some, ran, bind, Except.bind]
    exact stored
  · rwa [push_push] at repNext

theorem insert_fault (log : Log) (contents : Contents) (client : Nat) (buffer : Buffer) (close : Nat)
    (rep : Represents log contents)
    (short : (chain contents.slots client).length ≤ (contents.fills client).length + decrement close) :
    log.insert client ((contents.cursor client).map ptr) buffer close = .error .assertNotNull := by
  rw [Log.insert, seek_chain log contents client rep]
  cases here : (chain contents.slots client)[(contents.fills client).length]? with
  | none => rfl
  | some first =>
      simp only [Option.map_some, close_slots_fault _ log contents client first rep here short]
      rfl

theorem insert_ok (log : Log) (contents : Contents) (client : Nat) (buffer : Buffer) (close : Nat) (result : Inserted)
    (rep : Represents log contents) (positive : 1 ≤ close)
    (ran : log.insert client ((contents.cursor client).map ptr) buffer close = .ok result) :
    ∃ last, (chain contents.slots client)[(contents.fills client).length + close - 1]? = some last ∧
      result.current = ptr last ∧ contents.slots[last]? = some (result.gsn, client) ∧
      Represents result.log (contents.push client (List.replicate (close - 1) [] ++ [buffer.data])) ∧
      Final log result.log := by
  have steps : decrement close = close - 1 := if_neg (by omega)
  rcases Nat.lt_or_ge ((contents.fills client).length + close - 1) (chain contents.slots client).length with enough | short
  · have there := List.getElem?_eq_getElem enough
    obtain ⟨next, gsn, done, slot, repNext, final⟩ :=
      insert_represents log contents client _ buffer close rep positive there
    rw [done] at ran
    cases ran
    exact ⟨_, there, rfl, slot, repNext, final⟩
  · rw [insert_fault log contents client buffer close rep (by rw [steps]; omega)] at ran
    cases ran

theorem chain_length_le (slots : List (Nat × Nat)) (client : Nat) : (chain slots client).length ≤ slots.length := by
  simp only [chain, List.length_findIdxs]
  exact List.countP_le_length

-- GSNs grow with the log index, so they also grow along a chain.
def Increasing (slots : List (Nat × Nat)) : Prop := slots.Pairwise (fun a b => a.1 < b.1)

theorem increasing_chain (slots : List (Nat × Nat)) (client lower upper first second : Nat) (a b : Nat × Nat)
    (increasing : Increasing slots) (less : lower < upper)
    (left : (chain slots client)[lower]? = some first) (right : (chain slots client)[upper]? = some second)
    (atFirst : slots[first]? = some a) (atSecond : slots[second]? = some b) : a.1 < b.1 := by
  obtain ⟨lowerBound, rfl⟩ := List.getElem?_eq_some_iff.mp left
  obtain ⟨upperBound, rfl⟩ := List.getElem?_eq_some_iff.mp right
  have order : (chain slots client)[lower] < (chain slots client)[upper] :=
    List.pairwise_iff_getElem.mp List.pairwise_findIdxs lower upper lowerBound upperBound less
  obtain ⟨firstBound, rfl⟩ := List.getElem?_eq_some_iff.mp atFirst
  obtain ⟨secondBound, rfl⟩ := List.getElem?_eq_some_iff.mp atSecond
  exact List.pairwise_iff_getElem.mp increasing _ _ firstBound secondBound order

theorem close_below_represents (distance : Nat) (log : Log) (contents : Contents) (client index last gsn fuel : Nat)
    (rep : Represents log contents) (increasing : Increasing contents.slots)
    (here : (chain contents.slots client)[(contents.fills client).length]? = some index)
    (there : (chain contents.slots client)[(contents.fills client).length + distance]? = some last)
    (target : contents.slots[last]? = some (gsn, client)) (enough : distance < fuel) :
    ∃ next, log.closeBelow gsn fuel (ptr index) = .ok (next, ptr last) ∧
      Represents next (contents.push client (List.replicate distance [])) ∧ Final log next := by
  induction distance generalizing log contents index fuel with
  | zero =>
      obtain ⟨fuel, rfl⟩ := Nat.exists_eq_succ_of_ne_zero (Nat.ne_of_gt enough)
      have same : index = last := Option.some.inj (here.symm.trans there)
      subst same
      obtain ⟨entry, read, cell⟩ := rep.cells client _ index here
      have equal : entry.gsn = gsn := (Prod.mk.inj (Option.some.inj (cell.slot.symm.trans target))).1
      refine ⟨log, ?_, by simpa [push_nil] using rep, final_refl log⟩
      simp [Log.closeBelow, read, equal]
  | succ distance ih =>
      obtain ⟨fuel, rfl⟩ := Nat.exists_eq_succ_of_ne_zero (Nat.ne_of_gt (Nat.lt_trans (Nat.succ_pos _) enough))
      obtain ⟨entry, read, cell⟩ := rep.cells client _ index here
      have less : entry.gsn < gsn :=
        increasing_chain _ client _ _ _ _ _ _ increasing (by omega) here there cell.slot target
      have closed := close_represents log contents client index rep here
      have length : ((contents.push client [[]]).fills client).length = (contents.fills client).length + 1 := by
        simp [push_fills_same]
      have bound : (contents.fills client).length + 1 < (chain contents.slots client).length := by
        have := (List.getElem?_eq_some_iff.mp there).1
        omega
      have after := List.getElem?_eq_getElem bound
      obtain ⟨next, ran, repNext, final⟩ := ih (log.modify (ptr index) Entry.close) (contents.push client [[]]) _ fuel
        closed increasing (by rw [length]; exact after) (by rw [length, Nat.add_right_comm, Nat.add_assoc]; exact there)
        target (by omega)
      refine ⟨next, ?_, ?_, final_trans _ _ _ (fill_final log contents client index Entry.close rep here) final⟩
      · have step := follow_chain _ _ client _ index closed here
        rw [push_slots, after] at step
        simp only [Log.closeBelow, read, if_pos less, step]
        exact ran
      · rw [push_push] at repNext
        exact repNext

-- position::patch, for the GSN of a slot the client has not filled yet.
theorem patch_represents (log : Log) (contents : Contents) (client rank last gsn : Nat) (buffer : Buffer)
    (rep : Represents log contents) (increasing : Increasing contents.slots)
    (ahead : (contents.fills client).length ≤ rank) (there : (chain contents.slots client)[rank]? = some last)
    (target : contents.slots[last]? = some (gsn, client)) :
    ∃ next, log.patch client ((contents.cursor client).map ptr) buffer gsn = .ok ⟨next, ptr last, gsn⟩ ∧
      Represents next
        (contents.push client (List.replicate (rank - (contents.fills client).length) [] ++ [buffer.data])) ∧
      Final log next := by
  have reached := (List.getElem?_eq_some_iff.mp there).1
  have bound : (contents.fills client).length < (chain contents.slots client).length := by omega
  have here := List.getElem?_eq_getElem bound
  have total := chain_length_le contents.slots client
  have distance : (contents.fills client).length + (rank - (contents.fills client).length) = rank := by omega
  obtain ⟨closed, ran, repClosed, early⟩ := close_below_represents (rank - (contents.fills client).length) log contents client _
    last gsn log.currentEntries rep increasing here (by rw [distance]; exact there) target (by rw [rep.count]; omega)
  have atLast : (chain (contents.push client (List.replicate (rank - (contents.fills client).length) [])).slots client)[
      ((contents.push client (List.replicate (rank - (contents.fills client).length) [])).fills client).length]? = some last := by
    rw [push_slots, push_fills_same, List.length_append, List.length_replicate, distance]
    exact there
  obtain ⟨next, gsn', stored, slot, repNext, late⟩ := store_represents closed _ client last buffer repClosed atLast
  obtain ⟨entry, read, cell⟩ := repClosed.cells client _ last atLast
  have same : entry.gsn = gsn := (Prod.mk.inj (Option.some.inj (cell.slot.symm.trans target))).1
  have returned : gsn' = gsn := (Prod.mk.inj (Option.some.inj (slot.symm.trans target))).1
  refine ⟨next, ?_, ?_, final_trans _ _ _ early late⟩
  · rw [Log.patch, seek_chain log contents client rep, here]
    simp only [Option.map_some, ran, bind, Except.bind, read, same, if_true]
    rw [stored, returned]
  · rwa [push_push] at repNext

-- What position::close leaves behind: every slot the client owns so far is set.
def Contents.seal (contents : Contents) (client : Nat) : Contents :=
  contents.push client (List.replicate ((chain contents.slots client).length - (contents.fills client).length) [])

theorem seal_fills_length (contents : Contents) (client : Nat)
    (filled : (contents.fills client).length ≤ (chain contents.slots client).length) :
    ((contents.seal client).fills client).length = (chain contents.slots client).length := by
  rw [Contents.seal, push_fills_same, List.length_append, List.length_replicate]
  omega

theorem seal_push (contents : Contents) (client : Nat)
    (room : (contents.fills client).length < (chain contents.slots client).length) :
    (contents.push client [[]]).seal client = contents.seal client := by
  have count : (chain contents.slots client).length - (contents.fills client).length =
      ((chain contents.slots client).length - ((contents.fills client).length + 1)) + 1 := by omega
  rw [Contents.seal, Contents.seal, push_push, push_slots, push_fills_same, count, List.replicate_succ]
  simp

theorem close_rest_represents (remaining : Nat) (log : Log) (contents : Contents) (client index fuel : Nat)
    (rep : Represents log contents) (moved : 0 < (contents.fills client).length)
    (here : (chain contents.slots client)[(contents.fills client).length - 1]? = some index)
    (left : (chain contents.slots client).length = (contents.fills client).length + remaining)
    (enough : remaining < fuel) :
    ∃ next last, log.closeRest fuel (ptr index) = .ok (next, ptr last) ∧
      (contents.seal client).cursor client = some last ∧ Represents next (contents.seal client) ∧ Final log next := by
  induction remaining generalizing log contents index fuel with
  | zero =>
      obtain ⟨fuel, rfl⟩ := Nat.exists_eq_succ_of_ne_zero (Nat.ne_of_gt enough)
      have unchanged : contents.seal client = contents := by
        rw [Contents.seal, left]
        simp [push_nil]
      have stop := follow_chain log contents client _ index rep here
      rw [Nat.sub_add_cancel moved, List.getElem?_eq_none (by omega)] at stop
      refine ⟨log, index, by simp only [Log.closeRest, stop]; rfl, ?_, by rw [unchanged]; exact rep, final_refl log⟩
      rw [unchanged, Contents.cursor, if_neg (List.length_pos_iff.mp moved)]
      exact here
  | succ remaining ih =>
      obtain ⟨fuel, rfl⟩ := Nat.exists_eq_succ_of_ne_zero (Nat.ne_of_gt (Nat.lt_trans (Nat.succ_pos _) enough))
      have bound : (contents.fills client).length < (chain contents.slots client).length := by omega
      have after := List.getElem?_eq_getElem bound
      have step := follow_chain log contents client _ index rep here
      rw [Nat.sub_add_cancel moved, after] at step
      have closed := close_represents log contents client _ rep after
      have length : ((contents.push client [[]]).fills client).length = (contents.fills client).length + 1 := by
        simp [push_fills_same]
      obtain ⟨next, last, ran, cursor, repNext, final⟩ := ih _ _ _ fuel closed (by omega)
        (by rw [length]; exact after) (by rw [length, push_slots]; omega) (by omega)
      rw [seal_push contents client bound] at cursor repNext
      refine ⟨next, last, ?_, cursor, repNext,
        final_trans _ _ _ (fill_final log contents client _ Entry.close rep after) final⟩
      simp only [Log.closeRest, step]
      exact ran

-- position::close never fails, and leaves the cursor on the client's last slot.
theorem close_seals (log : Log) (contents : Contents) (client : Nat) (rep : Represents log contents) :
    ∃ next, log.close client ((contents.cursor client).map ptr) =
        .ok (next, ((contents.seal client).cursor client).map ptr) ∧ Represents next (contents.seal client) ∧
      Final log next := by
  have total := chain_length_le contents.slots client
  have filled := rep.filled client
  by_cases fresh : contents.fills client = []
  · have start : contents.cursor client = none := if_pos fresh
    cases head : (chain contents.slots client)[0]? with
    | none =>
        have empty : (chain contents.slots client).length = 0 := by simpa using head
        have unchanged : contents.seal client = contents := by
          rw [Contents.seal, empty]
          simp [push_nil]
        have absent : log.firstEntry client = none := by rw [rep.first client, head]; rfl
        exact ⟨log, by simp [Log.close, start, absent, unchanged], by rw [unchanged]; exact rep, final_refl log⟩
    | some first =>
        have present : log.firstEntry client = some (ptr first) := by rw [rep.first client, head]; rfl
        have bound : 0 < (chain contents.slots client).length := (List.getElem?_eq_some_iff.mp head).1
        have unset : (chain contents.slots client)[(contents.fills client).length]? = some first := by
          simpa [fresh] using head
        have closed := close_represents log contents client first rep unset
        have length : ((contents.push client [[]]).fills client).length = 1 := by simp [push_fills_same, fresh]
        obtain ⟨next, last, ran, cursor, repNext, final⟩ := close_rest_represents ((chain contents.slots client).length - 1) _ _
          client first log.currentEntries closed (by omega) (by rw [length]; exact head)
          (by rw [length, push_slots]; omega) (by rw [rep.count]; omega)
        rw [seal_push contents client (by simpa [fresh] using bound)] at cursor repNext
        refine ⟨next, ?_, repNext, final_trans _ _ _ (fill_final log contents client first Entry.close rep unset) final⟩
        simp only [Log.close, start, present, Option.map_none]
        have count : (log.modify (ptr first) Entry.close).currentEntries = log.currentEntries := rfl
        rw [count, ran, cursor]
        rfl
  · have moved : 0 < (contents.fills client).length := List.length_pos_iff.mpr fresh
    have bound : (contents.fills client).length - 1 < (chain contents.slots client).length := by omega
    have here := List.getElem?_eq_getElem bound
    have start : contents.cursor client = some _ := (if_neg fresh).trans here
    obtain ⟨next, last, ran, cursor, repNext, final⟩ := close_rest_represents
      ((chain contents.slots client).length - (contents.fills client).length) log contents client _ log.currentEntries rep
      moved here (by omega) (by rw [rep.count]; omega)
    refine ⟨next, ?_, repNext, final⟩
    simp only [Log.close, start, Option.map_some]
    rw [ran, cursor]
    rfl

theorem suffix_from_chain (rank : Nat) (log : Log) (contents : Contents) (client fuel beginGsn : Nat)
    (rep : Represents log contents) (bound : rank ≤ (chain contents.slots client).length) (enough : rank ≤ fuel) :
    log.suffixFrom beginGsn fuel ((if rank = 0 then none else (chain contents.slots client)[rank - 1]?).map ptr) =
      .ok ((((chain contents.slots client).take rank).reverse.takeWhile (fun index =>
        decide (beginGsn = uint64Max ∨ beginGsn < ((contents.slots[index]?).map Prod.fst).getD 0))).map ptr) := by
  induction rank generalizing fuel with
  | zero => cases fuel <;> simp [Log.suffixFrom]
  | succ rank ih =>
      obtain ⟨fuel, rfl⟩ := Nat.exists_eq_succ_of_ne_zero (Nat.ne_of_gt (Nat.lt_of_lt_of_le (Nat.succ_pos _) enough))
      have inside : rank < (chain contents.slots client).length := bound
      have here := List.getElem?_eq_getElem inside
      obtain ⟨entry, read, cell⟩ := rep.cells client rank _ here
      have value : ((contents.slots[(chain contents.slots client)[rank]]?).map Prod.fst).getD 0 = entry.gsn := by
        rw [cell.slot]
        rfl
      have previous : entry.prev = (if rank = 0 then none else (chain contents.slots client)[rank - 1]?).map ptr := by
        rw [cell.prev]
        split <;> rfl
      have rest := ih fuel (Nat.le_of_lt inside) (by omega)
      rw [if_neg (Nat.succ_ne_zero rank), Nat.add_sub_cancel, here]
      simp only [Option.map_some, Log.suffixFrom, read, previous, rest, bind, Except.bind, pure, Except.pure]
      rw [List.take_succ_eq_append_getElem inside, List.reverse_append, List.reverse_singleton, List.singleton_append,
        List.takeWhile_cons, value]
      by_cases wanted : beginGsn = uint64Max ∨ beginGsn < entry.gsn
      · rw [if_pos wanted, if_pos (by simpa using wanted)]
        rfl
      · rw [if_neg wanted, if_neg (by simpa using wanted)]
        rfl

-- position::suffix always ends. It returns the client's set entries, newest
-- first, down to the first whose GSN is not above the one asked for.
theorem suffix_chain (log : Log) (contents : Contents) (client beginGsn : Nat) (rep : Represents log contents) :
    log.suffix ((contents.cursor client).map ptr) beginGsn =
      .ok ((((chain contents.slots client).take (contents.fills client).length).reverse.takeWhile (fun index =>
        decide (beginGsn = uint64Max ∨ beginGsn < ((contents.slots[index]?).map Prod.fst).getD 0))).map ptr) := by
  have filled := rep.filled client
  have total := chain_length_le contents.slots client
  rw [← suffix_from_chain (contents.fills client).length log contents client log.currentEntries beginGsn rep filled
    (by rw [rep.count]; omega), Log.suffix, Contents.cursor]
  simp only [List.length_eq_zero_iff]

-- Only add_entries publishes entries to the subscriber threads.
theorem close_slots_published (count : Nat) (log next : Log) (current last : Ptr)
    (ran : log.closeSlots count current = .ok (next, last)) : next.numEntries = log.numEntries := by
  induction count generalizing log current with
  | zero =>
      cases ran
      rfl
  | succ count ih =>
      simp only [Log.closeSlots] at ran
      split at ran
      · cases ran
      · have kept := ih _ _ ran
        exact kept

theorem insert_published (log : Log) (clientId : Nat) (current : Option Ptr) (buffer : Buffer) (close : Nat) (result : Inserted)
    (ran : log.insert clientId current buffer close = .ok result) : result.log.numEntries = log.numEntries := by
  unfold Log.insert at ran
  split at ran
  · cases ran
  · rename_i first _
    cases closed : log.closeSlots (decrement close) first with
    | error fault =>
        rw [closed] at ran
        cases ran
    | ok reached =>
        obtain ⟨next, last⟩ := reached
        have kept := close_slots_published _ log next first last closed
        simp only [closed, bind, Except.bind, Log.store] at ran
        split at ran
        · cases ran
        · cases ran
          exact kept

theorem close_rest_published (fuel : Nat) (log next : Log) (current last : Ptr)
    (ran : log.closeRest fuel current = .ok (next, last)) : next.numEntries = log.numEntries := by
  induction fuel generalizing log current with
  | zero => cases ran
  | succ fuel ih =>
      simp only [Log.closeRest] at ran
      split at ran
      · cases ran
        rfl
      · have kept := ih _ _ ran
        exact kept

-- A client without entries has nothing to close; else what follows the cursor is
-- closed, or the first entry and what follows it.
theorem close_cases (log next : Log) (clientId : Nat) (current last : Option Ptr)
    (ran : log.close clientId current = .ok (next, last)) :
    (current = none ∧ log.firstEntry clientId = none ∧ next = log ∧ last = none) ∨
    ∃ start here final, start.closeRest start.currentEntries here = .ok (next, final) ∧ last = some final ∧
      (current = some here ∧ start = log ∨
        current = none ∧ log.firstEntry clientId = some here ∧ start = log.modify here Entry.close) := by
  have rest (start : Log) (here : Ptr)
      (closed : (start.closeRest start.currentEntries here >>= fun pair => pure (pair.1, some pair.2)) = Except.ok (next, last)) :
      ∃ final, start.closeRest start.currentEntries here = .ok (next, final) ∧ last = some final := by
    cases result : start.closeRest start.currentEntries here with
    | error fault =>
        rw [result] at closed
        cases closed
    | ok pair =>
        rw [result] at closed
        cases closed
        exact ⟨pair.2, rfl, rfl⟩
  simp only [Log.close] at ran
  cases current with
  | some here =>
      obtain ⟨final, closed, stop⟩ := rest log here ran
      exact .inr ⟨log, here, final, closed, stop, .inl ⟨rfl, rfl⟩⟩
  | none =>
      cases first : log.firstEntry clientId with
      | none =>
          rw [first] at ran
          cases ran
          exact .inl ⟨rfl, rfl, rfl, rfl⟩
      | some here =>
          rw [first] at ran
          obtain ⟨final, closed, stop⟩ := rest _ here ran
          exact .inr ⟨_, here, final, closed, stop, .inr ⟨rfl, rfl, rfl⟩⟩

theorem close_published (log next : Log) (clientId : Nat) (current last : Option Ptr)
    (ran : log.close clientId current = .ok (next, last)) : next.numEntries = log.numEntries := by
  obtain ⟨-, -, same, -⟩ | ⟨start, here, final, closed, -, started⟩ := close_cases log next clientId current last ran
  · rw [same]
  · have kept := close_rest_published _ start next here final closed
    cases started with
    | inl found => exact found.2 ▸ kept
    | inr first => rw [kept, first.2.2, Log.modify]

end ZipLog.Storage
