import ZipLog.Lib.Spread
import ZipLog.Storage.Position

set_option autoImplicit false

namespace ZipLog.Storage

-- The assignments in the order in which add_entries yields a slot for them.
def schedule (assignments : List Assignment) : List Assignment :=
  generateSlots (fun assignment order => order ++ [assignment]) assignments []

theorem foldl_collect (mask : Assignment → Assignment) (order start : List Assignment) :
    order.foldl (fun s a => s ++ [mask a]) start = start ++ order.map mask := by
  induction order generalizing start with
  | nil => simp
  | cons head tail ih => rw [List.foldl_cons, ih, List.map_cons, List.append_assoc, List.singleton_append]

theorem secondary_loop_order (primary : Nat) (assignments : List Assignment) (errors : List Int) :
    ∃ (next : List Int) (order : List Assignment), ∀ (τ : Type) (yield : Assignment → τ → τ) (state : τ),
      secondaryLoop yield primary assignments errors state = (next, order.foldl (fun s a => yield a s) state) := by
  induction assignments generalizing errors with
  | nil => exact ⟨[], [], fun _ _ _ => rfl⟩
  | cons assignment assignments ih =>
      cases errors with
      | nil => exact ⟨[], [], fun _ _ _ => rfl⟩
      | cons error errors =>
          obtain ⟨next, order, rest⟩ := ih errors
          by_cases negative : longLong (error - assignment.numSlots) < 0
          · refine ⟨longLong (longLong (error - assignment.numSlots) + primary) :: next, assignment :: order, ?_⟩
            intro τ yield state
            simp only [secondaryLoop, if_pos negative, rest, List.foldl_cons]
          · refine ⟨longLong (error - assignment.numSlots) :: next, order, ?_⟩
            intro τ yield state
            simp only [secondaryLoop, if_neg negative, rest]

theorem slot_loop_order (primary : Assignment) (secondary : List Assignment) (rounds : Nat) (errors : List Int) :
    ∃ order : List Assignment, ∀ (τ : Type) (yield : Assignment → τ → τ) (state : τ),
      slotLoop yield primary secondary rounds errors state = order.foldl (fun s a => yield a s) state := by
  induction rounds generalizing errors with
  | zero => exact ⟨[], fun _ _ _ => rfl⟩
  | succ rounds ih =>
      obtain ⟨next, inner, once⟩ := secondary_loop_order primary.numSlots secondary errors
      obtain ⟨order, rest⟩ := ih next
      refine ⟨primary :: (inner ++ order), ?_⟩
      intro τ yield state
      simp only [slotLoop, once, rest, List.foldl_cons, List.foldl_append]

-- The loops never look at what yield does, so running them is running yield
-- along the schedule.
theorem generate_slots_schedule {τ : Type} (yield : Assignment → τ → τ) (assignments : List Assignment) (state : τ) :
    generateSlots yield assignments state = (schedule assignments).foldl (fun s a => yield a s) state := by
  have exists_order : ∃ order : List Assignment, ∀ (τ : Type) (yield : Assignment → τ → τ) (state : τ),
      generateSlots yield assignments state = order.foldl (fun s a => yield a s) state := by
    cases assignments with
    | nil => exact ⟨[], fun _ _ _ => rfl⟩
    | cons primary secondary => exact slot_loop_order primary secondary primary.numSlots _
  obtain ⟨order, along⟩ := exists_order
  have same : schedule assignments = order := by
    rw [schedule, along]
    simpa using foldl_collect id order []
  rw [along, same]

-- Replacing client IDs, as order does for the clients of other shards, leaves
-- the schedule where it was.
theorem secondary_loop_map {τ : Type} (yield : Assignment → τ → τ) (mask : Assignment → Assignment)
    (kept : ∀ a, (mask a).numSlots = a.numSlots) (primary : Nat) (assignments : List Assignment) (errors : List Int) (state : τ) :
    secondaryLoop yield primary (assignments.map mask) errors state =
      secondaryLoop (fun a s => yield (mask a) s) primary assignments errors state := by
  induction assignments generalizing errors state with
  | nil => rfl
  | cons assignment assignments ih =>
      cases errors with
      | nil => rfl
      | cons error errors => simp only [List.map_cons, secondaryLoop, kept, ih]

theorem slot_loop_map {τ : Type} (yield : Assignment → τ → τ) (mask : Assignment → Assignment)
    (kept : ∀ a, (mask a).numSlots = a.numSlots) (primary : Assignment) (secondary : List Assignment)
    (rounds : Nat) (errors : List Int) (state : τ) :
    slotLoop yield (mask primary) (secondary.map mask) rounds errors state =
      slotLoop (fun a s => yield (mask a) s) primary secondary rounds errors state := by
  induction rounds generalizing errors state with
  | zero => rfl
  | succ rounds ih => simp only [slotLoop, kept, secondary_loop_map yield mask kept, ih]

theorem schedule_map (mask : Assignment → Assignment) (kept : ∀ a, (mask a).numSlots = a.numSlots)
    (assignments : List Assignment) : schedule (assignments.map mask) = (schedule assignments).map mask := by
  have mapped : schedule (assignments.map mask) =
      generateSlots (fun a order => order ++ [mask a]) assignments [] := by
    cases assignments with
    | nil => rfl
    | cons primary secondary =>
        simp only [schedule, generateSlots, List.map_cons, List.length_cons, List.length_map, kept,
          slot_loop_map _ mask kept]
  rw [mapped, generate_slots_schedule, foldl_collect]
  rfl

def tally (wanted : Assignment → Bool) (assignment : Assignment) (count : Nat) : Nat :=
  if wanted assignment then count + 1 else count

-- How many slots the wanted secondary clients still get in the given rounds.
def outstandingSlots (wanted : Assignment → Bool) (limit rounds : Nat) : List Assignment → List Int → Nat
  | assignment :: assignments, error :: errors =>
      (if wanted assignment then Spread.served limit assignment.numSlots rounds error else 0) +
        outstandingSlots wanted limit rounds assignments errors
  | _, _ => 0

theorem secondary_loop_tally (wanted : Assignment → Bool) (limit rounds : Nat) (small : limit < 2 ^ 63)
    (assignments : List Assignment) (errors : List Int) (count : Nat)
    (fits : ∀ a ∈ assignments, a.numSlots ≤ limit) (within : ∀ e ∈ errors, Spread.Within limit e)
    (aligned : errors.length = assignments.length) :
    (∀ e ∈ (secondaryLoop (tally wanted) limit assignments errors count).1, Spread.Within limit e) ∧
    (secondaryLoop (tally wanted) limit assignments errors count).1.length = assignments.length ∧
    (secondaryLoop (tally wanted) limit assignments errors count).2 +
        outstandingSlots wanted limit rounds assignments (secondaryLoop (tally wanted) limit assignments errors count).1 =
      count + outstandingSlots wanted limit (rounds + 1) assignments errors := by
  induction assignments generalizing errors count with
  | nil => simp [secondaryLoop, outstandingSlots]
  | cons assignment assignments ih =>
      cases errors with
      | nil => simp at aligned
      | cons error errors =>
          have fit := fits assignment (by simp)
          have inside := within error (by simp)
          have restFits : ∀ a ∈ assignments, a.numSlots ≤ limit := fun a member => fits a (by simp [member])
          have restWithin : ∀ e ∈ errors, Spread.Within limit e := fun e member => within e (by simp [member])
          have restAligned : errors.length = assignments.length := by simpa using aligned
          obtain ⟨lower, upper⟩ := inside
          have exactSub : longLong (error - assignment.numSlots) = error - assignment.numSlots :=
            long_long_exact _ (by omega) (by omega)
          by_cases negative : error - assignment.numSlots < 0
          · have exactAdd : longLong (error - assignment.numSlots + limit) = error - assignment.numSlots + limit :=
              long_long_exact _ (by omega) (by omega)
            obtain ⟨rangeRest, lengthRest, sumRest⟩ := ih errors (tally wanted assignment count) restFits restWithin restAligned
            simp only [secondaryLoop, exactSub, if_pos negative, exactAdd]
            refine ⟨?_, by simp [lengthRest], ?_⟩
            · intro e member
              rcases List.mem_cons.mp member with rfl | later
              · exact Spread.within_served limit assignment.numSlots error ⟨lower, upper⟩ fit negative
              · exact rangeRest e later
            · simp only [outstandingSlots, Spread.served, if_pos negative]
              cases chosen : wanted assignment <;>
                simp only [tally, chosen, if_true, Bool.false_eq_true, if_false] at sumRest ⊢ <;> omega
          · obtain ⟨rangeRest, lengthRest, sumRest⟩ := ih errors count restFits restWithin restAligned
            simp only [secondaryLoop, exactSub, if_neg negative]
            refine ⟨?_, by simp [lengthRest], ?_⟩
            · intro e member
              rcases List.mem_cons.mp member with rfl | later
              · exact Spread.within_skipped limit assignment.numSlots error ⟨lower, upper⟩ negative
              · exact rangeRest e later
            · simp only [outstandingSlots, Spread.served, if_neg negative]
              omega

theorem slot_loop_tally (wanted : Assignment → Bool) (primary : Assignment) (secondary : List Assignment)
    (rounds : Nat) (small : primary.numSlots < 2 ^ 63) (errors : List Int) (count : Nat)
    (fits : ∀ a ∈ secondary, a.numSlots ≤ primary.numSlots)
    (within : ∀ e ∈ errors, Spread.Within primary.numSlots e) (aligned : errors.length = secondary.length) :
    slotLoop (tally wanted) primary secondary rounds errors count =
      count + (if wanted primary then rounds else 0) +
        outstandingSlots wanted primary.numSlots rounds secondary errors := by
  induction rounds generalizing errors count with
  | zero =>
      have none (assignments : List Assignment) (errors : List Int) :
          outstandingSlots wanted primary.numSlots 0 assignments errors = 0 := by
        induction assignments generalizing errors with
        | nil => rfl
        | cons assignment assignments ih =>
            cases errors with
            | nil => rfl
            | cons error errors => simp [outstandingSlots, Spread.served, ih]
      simp [slotLoop, none]
  | succ rounds ih =>
      obtain ⟨range, length, sum⟩ := secondary_loop_tally wanted primary.numSlots rounds small secondary errors
        (tally wanted primary count) fits within aligned
      rw [slotLoop, ih _ _ range length]
      cases chosen : wanted primary <;>
        simp only [tally, chosen, if_true, Bool.false_eq_true, if_false] at sum ⊢ <;> omega

theorem outstanding_slots_full (wanted : Assignment → Bool) (limit : Nat) (error : Int) (within : Spread.Within limit error)
    (assignments : List Assignment) (fits : ∀ a ∈ assignments, a.numSlots ≤ limit) :
    outstandingSlots wanted limit limit assignments (List.replicate assignments.length error) =
      ((assignments.filter wanted).map Assignment.numSlots).sum := by
  induction assignments with
  | nil => rfl
  | cons assignment assignments ih =>
      have share := Spread.served_full limit assignment.numSlots error within (fits assignment (by simp))
      have rest := ih (fun a member => fits a (by simp [member]))
      rw [List.length_cons, List.replicate_succ, outstandingSlots, rest, share]
      cases chosen : wanted assignment <;> simp [chosen]

-- The counting result: whatever clients are looked at, the loop yields exactly
-- the slots assigned to them. order sends the largest assignment first.
theorem schedule_count (wanted : Assignment → Bool) (assignments : List Assignment)
    (fits : ∀ a ∈ assignments, a.numSlots ≤ (assignments.head?.map Assignment.numSlots).getD 0)
    (small : (assignments.head?.map Assignment.numSlots).getD 0 < 2 ^ 63) :
    (schedule assignments).countP wanted = ((assignments.filter wanted).map Assignment.numSlots).sum := by
  have counted (order : List Assignment) (count : Nat) :
      order.foldl (fun s a => tally wanted a s) count = count + order.countP wanted := by
    induction order generalizing count with
    | nil => simp
    | cons head tail ih =>
        rw [List.foldl_cons, ih]
        cases chosen : wanted head <;>
          simp only [tally, chosen, List.countP_cons, if_true, Bool.false_eq_true, if_false] <;> omega
  have start : (schedule assignments).countP wanted = generateSlots (tally wanted) assignments 0 := by
    rw [generate_slots_schedule, counted, Nat.zero_add]
  rw [start]
  cases assignments with
  | nil => rfl
  | cons primary secondary =>
      have below : primary.numSlots < 2 ^ 63 := small
      have rest : ∀ a ∈ secondary, a.numSlots ≤ primary.numSlots := fun a member => fits a (by simp [member])
      rcases Nat.eq_zero_or_pos primary.numSlots with none | some
      · have zero : ∀ a ∈ secondary, a.numSlots = 0 := fun a member => by
          have := rest a member
          omega
        have sum : ((secondary.filter wanted).map Assignment.numSlots).sum = 0 := by
          apply List.sum_eq_zero
          intro n member
          obtain ⟨a, kept, rfl⟩ := List.mem_map.mp member
          exact zero a (List.mem_filter.mp kept).1
        simp only [generateSlots, none, slotLoop]
        cases chosen : wanted primary <;> simp [chosen, sum, none]
      · cases secondary with
        | nil =>
            simp only [generateSlots, List.length_nil, List.replicate_zero]
            rw [slot_loop_tally wanted primary [] primary.numSlots below [] 0 (by simp) (by simp) rfl]
            cases chosen : wanted primary <;> simp [chosen, outstandingSlots]
        | cons second others =>
            have less := Nat.div_lt_self some (show 1 < (primary :: second :: others).length by simp)
            simp only [generateSlots]
            generalize primary.numSlots / (primary :: second :: others).length = share at less
            have error : longLong (share : Nat) = share := long_long_exact _ (by omega) (by omega)
            have within : Spread.Within primary.numSlots (share : Nat) := by constructor <;> omega
            rw [error, slot_loop_tally wanted primary (second :: others) primary.numSlots below _ 0 rest
              (fun e member => (List.eq_of_mem_replicate member) ▸ within) (by simp),
              outstanding_slots_full wanted primary.numSlots _ within (second :: others) rest]
            cases chosen : wanted primary <;> simp [chosen]

-- The slots a message creates in the log of one shard: slots of other shards
-- take a GSN and leave no entry.
def ownSlots : Nat → List Assignment → List (Nat × Nat)
  | _, [] => []
  | gsn, assignment :: rest =>
      if assignment.clientId = uint64Max then ownSlots (uint64 (gsn + 1)) rest
      else (gsn, assignment.clientId) :: ownSlots (uint64 (gsn + 1)) rest

def newSlots (slots : StorageSlots) : List (Nat × Nat) := ownSlots slots.startGsn (schedule slots.assignments)

theorem extend_nil (contents : Contents) : contents.extend [] = contents := by
  simp [Contents.extend]

theorem extend_extend (contents : Contents) (first second : List (Nat × Nat)) :
    (contents.extend first).extend second = contents.extend (first ++ second) := by
  simp [Contents.extend]

-- New slots come behind the old ones, so no cursor moves.
theorem cursor_extend (contents : Contents) (more : List (Nat × Nat)) (client : Nat)
    (filled : (contents.fills client).length ≤ (chain contents.slots client).length) :
    (contents.extend more).cursor client = contents.cursor client := by
  obtain ⟨rest, grown⟩ := chain_append contents.slots more client
  simp only [Contents.cursor, Contents.extend, grown]
  by_cases fresh : contents.fills client = []
  · rw [if_pos fresh, if_pos fresh]
  · have positive := List.length_pos_iff.mpr fresh
    rw [if_neg fresh, if_neg fresh, List.getElem?_append_left (by omega)]

theorem yield_slots_represents (order : List Assignment) (log : Log) (gsn : Nat) (contents : Contents)
    (rep : Represents log contents) :
    Represents (order.foldl (fun s a => yieldSlot zeroed a s) (log, gsn)).1 (contents.extend (ownSlots gsn order)) ∧
      Final log (order.foldl (fun s a => yieldSlot zeroed a s) (log, gsn)).1 := by
  induction order generalizing log gsn contents with
  | nil => exact ⟨by simpa [ownSlots, extend_nil] using rep, final_refl log⟩
  | cons assignment order ih =>
      rw [List.foldl_cons]
      by_cases foreign : assignment.clientId = uint64Max
      · have step : yieldSlot zeroed assignment (log, gsn) = (log, uint64 (gsn + 1)) := by simp [yieldSlot, foreign]
        rw [step, ownSlots, if_pos foreign]
        exact ih log (uint64 (gsn + 1)) contents rep
      · have step : yieldSlot zeroed assignment (log, gsn) =
            (log.yield zeroed gsn assignment.clientId, uint64 (gsn + 1)) := by simp [yieldSlot, foreign]
        have yielded := yield_represents log contents gsn assignment.clientId rep
        obtain ⟨repNext, final⟩ := ih _ (uint64 (gsn + 1)) _ yielded
        rw [extend_extend, List.singleton_append] at repNext
        rw [step, ownSlots, if_neg foreign]
        exact ⟨repNext, final_trans _ _ _ (yield_final log contents gsn assignment.clientId rep) final⟩

theorem represents_published (log : Log) (contents : Contents) (published : Nat) (rep : Represents log contents) :
    Represents { log with numEntries := published } contents :=
  ⟨rep.blocks, rep.entry, rep.size, rep.count, rep.cells, rep.spare, rep.first, rep.last, rep.filled⟩

-- add_entries: the log grows by the slots of the message and nothing else.
theorem add_entries_represents (log : Log) (contents : Contents) (slots : StorageSlots) (rep : Represents log contents) :
    Represents (log.addEntries zeroed slots) (contents.extend (newSlots slots)) ∧ Final log (log.addEntries zeroed slots) := by
  obtain ⟨repNext, final⟩ := yield_slots_represents (schedule slots.assignments) log slots.startGsn contents rep
  have along := generate_slots_schedule (yieldSlot zeroed) slots.assignments (log, slots.startGsn)
  simp only [Log.addEntries, along]
  exact ⟨represents_published _ _ _ repNext, final_congr _ _ _ rfl final⟩

-- Without a wrap the m-th slot of the schedule has GSN start_gsn + m.
theorem own_slots_exact (gsn : Nat) (order : List Assignment) (fits : gsn + order.length ≤ 2 ^ 64) :
    ownSlots gsn order =
      ((order.zipIdx gsn).filter (fun slot => slot.1.clientId ≠ uint64Max)).map (fun slot => (slot.2, slot.1.clientId)) := by
  induction order generalizing gsn with
  | nil => rfl
  | cons assignment order ih =>
      rw [List.length_cons] at fits
      rw [ownSlots, List.zipIdx_cons]
      cases order with
      | nil => by_cases foreign : assignment.clientId = uint64Max <;> simp [foreign, ownSlots]
      | cons second others =>
          rw [List.length_cons] at fits
          rw [uint64_of_lt (by omega), ih (gsn + 1) (by rw [List.length_cons]; omega)]
          by_cases foreign : assignment.clientId = uint64Max
          · rw [if_pos foreign, List.filter_cons_of_neg (by simpa using foreign)]
          · rw [if_neg foreign, List.filter_cons_of_pos (by simpa using foreign), List.map_cons]

theorem own_slots_range (gsn : Nat) (order : List Assignment) (fits : gsn + order.length ≤ 2 ^ 64) :
    ∀ slot ∈ ownSlots gsn order, gsn ≤ slot.1 ∧ slot.1 < gsn + order.length := by
  intro slot member
  rw [own_slots_exact gsn order fits] at member
  obtain ⟨⟨assignment, index⟩, kept, rfl⟩ := List.mem_map.mp member
  obtain ⟨lower, upper, _⟩ := List.mem_zipIdx (List.mem_filter.mp kept).1
  exact ⟨lower, upper⟩

theorem own_slots_increasing (gsn : Nat) (order : List Assignment) (fits : gsn + order.length ≤ 2 ^ 64) :
    Increasing (ownSlots gsn order) := by
  induction order generalizing gsn with
  | nil => exact List.Pairwise.nil
  | cons assignment order ih =>
      rw [List.length_cons] at fits
      cases order with
      | nil => by_cases foreign : assignment.clientId = uint64Max <;> simp [Increasing, ownSlots, foreign]
      | cons second others =>
          rw [List.length_cons] at fits
          have rest : gsn + 1 + (second :: others).length ≤ 2 ^ 64 := by rw [List.length_cons]; omega
          rw [ownSlots, uint64_of_lt (by omega)]
          split
          · exact ih (gsn + 1) rest
          · refine List.Pairwise.cons ?_ (ih (gsn + 1) rest)
            intro slot member
            exact (own_slots_range (gsn + 1) _ rest slot member).1

theorem increasing_append (first second : List (Nat × Nat)) (bound : Nat) (left : Increasing first) (right : Increasing second)
    (below : ∀ slot ∈ first, slot.1 < bound) (above : ∀ slot ∈ second, bound ≤ slot.1) : Increasing (first ++ second) := by
  refine List.pairwise_append.mpr ⟨left, right, ?_⟩
  intro a before b after
  exact Nat.lt_of_lt_of_le (below a before) (above b after)

end ZipLog.Storage
