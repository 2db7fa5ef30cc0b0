import ZipLog.System.Progress

set_option autoImplicit false

namespace ZipLog.System

open Storage

section

variable (replicas : Nat → List Nat)

def AllFrozen (s : Cluster) (shard client : Nat) : Prop :=
  ∀ replica ∈ replicas shard, .clientFreeze client ∈ s.seen (shard, replica)

-- Some replica of the shard has this payload of the client.
def Held (s : Cluster) (shard client gsn : Nat) (data : Bytes) : Prop :=
  ∃ replica ∈ replicas shard, Recorded (slotsIn (s.seen (shard, replica))) (s.received (shard, replica) client) client gsn data

structure ClientOk (s : Cluster) (client : Nat) (state : Order.ClientState) : Prop where
  asked : state.requested = true → AllFrozen replicas s state.shardId client
  nodup : (state.cuts.map Prod.fst).Nodup
  cuts : ∀ replica ∈ state.cuts.map Prod.fst,
    replica ∈ replicas state.shardId ∧ .clientFreeze client ∈ s.seen (state.shardId, replica)
  data : ∀ item ∈ state.data, Held replicas s state.shardId client item.1 item.2

def MessageOk (s : Cluster) (shard : Nat) : StorageControl → Prop
  | .slots _ => True
  | .clientFreeze _ => True
  | .clientCut req => AllFrozen replicas s shard req.clientId
  | .clientPatch patch => AllFrozen replicas s shard patch.clientId ∧ Held replicas s shard patch.clientId patch.gsn patch.data
  | .clientFinalize client => AllFrozen replicas s shard client

def ReportOk (s : Cluster) (place : Place) : OrderControl → Prop
  | .clientFreeze _ => True
  | .clientCut cut => cut.shardId = place.1 ∧ cut.replicaId = place.2 ∧ .clientFreeze cut.clientId ∈ s.seen place
  | .clientData data => data.shardId = place.1 ∧ (data.gsn = uint64Max ∨
      Recorded (slotsIn (s.seen place)) (s.received place data.clientId) data.clientId data.gsn data.data)

-- The recovery of the failed clients: freeze, cut, data, patch and finalize.
structure Recovering (s : Cluster) (history : Nat → List StorageControl) : Prop where
  ordered : s.Ordered replicas history
  clients : ∀ client state, s.order.clientState client = some state → ClientOk replicas s client state
  messages : ∀ shard, ∀ message ∈ history shard, MessageOk replicas s shard message
  reports : ∀ place : Place, place.2 ∈ replicas place.1 → ∀ report ∈ s.reports place, ReportOk s place report
  serving : ∀ place : Place, place.2 ∈ replicas place.1 → s.Serving place
  fault : s.fault = false

theorem init_recovering (numShards : Nat) : Recovering replicas (Cluster.init numShards replicas) (fun _ => []) := by
  constructor
  · exact init_ordered numShards replicas
  · intro client state present
    cases present
  · intro shard message member
    cases member
  · intro place _ report member
    cases member
  · intro place _
    exact init_serving numShards replicas place
  · rfl

end

theorem recorded_mono (slots more : List (Nat × Nat)) (received later : List StorageInsert) (client gsn : Nat) (data : Bytes)
    (slotsGrow : slots <+: more) (insertsGrow : received <+: later) (recorded : Recorded slots received client gsn data) :
    Recorded more later client gsn data := by
  obtain ⟨rank, slot, fill, nonempty⟩ := recorded
  exact ⟨rank, prefix_access _ _ (gsns_grow _ _ client slotsGrow) rank gsn slot,
    prefix_access _ _ (filled_by_grows _ _ insertsGrow) rank data fill, nonempty⟩

section

variable (replicas : Nat → List Nat) (s next : Cluster) (progress : Progresses s next)

include progress

theorem all_frozen_mono (shard client : Nat) (frozen : AllFrozen replicas s shard client) : AllFrozen replicas next shard client := by
  intro replica member
  exact (progress.seen _).subset (frozen replica member)

theorem held_mono (shard client gsn : Nat) (data : Bytes) (held : Held replicas s shard client gsn data) :
    Held replicas next shard client gsn data := by
  obtain ⟨replica, member, recorded⟩ := held
  exact ⟨replica, member, recorded_mono _ _ _ _ client gsn data (slots_in_grow _ _ (progress.seen _))
    (progress.received _ client) recorded⟩

theorem client_ok_mono (client : Nat) (state : Order.ClientState) (ok : ClientOk replicas s client state) :
    ClientOk replicas next client state := by
  constructor
  · intro asked
    exact all_frozen_mono replicas s next progress _ _ (ok.asked asked)
  · exact ok.nodup
  · intro replica member
    exact ⟨(ok.cuts replica member).1, (progress.seen _).subset (ok.cuts replica member).2⟩
  · intro item member
    exact held_mono replicas s next progress _ _ _ _ (ok.data item member)

theorem message_ok_mono (shard : Nat) (message : StorageControl) (ok : MessageOk replicas s shard message) :
    MessageOk replicas next shard message := by
  cases message with
  | slots slots => trivial
  | clientFreeze client => trivial
  | clientCut req => exact all_frozen_mono replicas s next progress _ _ ok
  | clientPatch patch =>
      exact ⟨all_frozen_mono replicas s next progress _ _ ok.1, held_mono replicas s next progress _ _ _ _ ok.2⟩
  | clientFinalize client => exact all_frozen_mono replicas s next progress _ _ ok

theorem report_ok_mono (place : Place) (report : OrderControl) (ok : ReportOk s place report) : ReportOk next place report := by
  cases report with
  | clientFreeze client => trivial
  | clientCut cut => exact ⟨ok.1, ok.2.1, (progress.seen place).subset ok.2.2⟩
  | clientData data =>
      refine ⟨ok.1, ?_⟩
      cases ok.2 with
      | inl flush => exact Or.inl flush
      | inr recorded =>
          exact Or.inr (recorded_mono _ _ _ _ _ _ _ (slots_in_grow _ _ (progress.seen place))
            (progress.received place data.clientId) recorded)

-- A step of the ordering service.
theorem order_recovering (history extended : Nat → List StorageControl) (rec : Recovering replicas s history)
    (ordered : next.Ordered replicas extended) (reports : next.reports = s.reports) (fault : next.fault = s.fault)
    (serving : ∀ place : Place, place.2 ∈ replicas place.1 → next.Serving place)
    (clients : ∀ client state, next.order.clientState client = some state → ClientOk replicas next client state)
    (messages : ∀ shard, ∀ message ∈ extended shard, MessageOk replicas next shard message) : Recovering replicas next extended := by
  refine ⟨ordered, clients, messages, ?_, serving, fault.trans rec.fault⟩
  intro place member report inside
  rw [reports] at inside
  exact report_ok_mono s next progress place report (rec.reports place member report inside)

-- A step of the server at here.
theorem server_recovering (history : Nat → List StorageControl) (rec : Recovering replicas s history) (here : Place)
    (order : next.order = s.order) (homes : next.homes = s.homes) (control : next.control = s.control)
    (fault : next.fault = s.fault) (serving : ∀ place : Place, place.2 ∈ replicas place.1 → next.Serving place)
    (others : ∀ place, place ≠ here → next.reports place = s.reports place)
    (reports : here.2 ∈ replicas here.1 → ∀ report ∈ next.reports here, report ∈ s.reports here ∨ ReportOk next here report) :
    Recovering replicas next history := by
  refine ⟨ordered_congr replicas s next history rec.ordered order homes control, ?_, ?_, ?_, serving, fault.trans rec.fault⟩
  · intro client state present
    rw [order] at present
    exact client_ok_mono replicas s next progress client state (rec.clients client state present)
  · intro shard message member
    exact message_ok_mono replicas s next progress shard message (rec.messages shard message member)
  · intro place member report inside
    by_cases same : place = here
    · subst same
      cases reports member report inside with
      | inl old => exact report_ok_mono s next progress place report (rec.reports place member report old)
      | inr new => exact new
    · rw [others place same] at inside
      exact report_ok_mono s next progress place report (rec.reports place member report inside)

end

-- The step of one client's recovery at the ordering service.
theorem moves_recovering (replicas : Nat → List Nat) (s next : Cluster) (history : Nat → List StorageControl) (state : Order.State)
    (sent : List Order.Sent) (clientId shard : Nat) (messages : List StorageControl) (nodup : ∀ shard, (replicas shard).Nodup)
    (rec : Recovering replicas s history) (halting : s.Halting) (moves : s.order.Moves state sent clientId shard messages)
    (reported : next = s.ordered (state, sent) ∨ ∃ taken, next = { s.ordered (state, sent) with reported := taken })
    (client : ∀ new, state.clientState clientId = some new → ClientOk replicas s clientId new)
    (ok : ∀ message ∈ messages, MessageOk replicas s shard message) :
    Recovering replicas next (extended history shard messages) := by
  have same : next.order = state ∧ next.homes = s.homes ∧ next.control = (s.ordered (state, sent)).control ∧
      next.reports = s.reports ∧ next.fault = s.fault ∧ next.servers = s.servers ∧ next.handled = s.handled ∧
      next.received = s.received := by
    cases reported with
    | inl plain =>
        rw [plain]
        exact ⟨rfl, rfl, rfl, rfl, rfl, rfl, rfl, rfl⟩
    | inr taken =>
        obtain ⟨count, plain⟩ := taken
        rw [plain]
        exact ⟨rfl, rfl, rfl, rfl, rfl, rfl, rfl, rfl⟩
  obtain ⟨order, homes, control, reports, fault, servers, handled, received⟩ := same
  have grown : ∀ place, s.control place <+: next.control place := by
    intro place
    rw [control]
    exact List.prefix_append _ _
  have progress : Progresses s next := progresses_of_server s next halting grown handled received
    (fun place client before => by rw [servers]; exact before)
  refine order_recovering replicas s next progress history _ rec ?_ reports fault ?_ ?_ ?_
  · exact ordered_congr replicas (s.ordered (state, sent)) next _
      (moves_ordered replicas s history state sent clientId shard messages nodup rec.ordered moves) order homes control
  · intro place member
    exact serving_congr s next place (rec.serving place member) (congrFun servers place) (congrFun handled place)
      (congrFun received place) (grown place)
  · intro other new present
    rw [order] at present
    apply client_ok_mono replicas s next progress
    by_cases mine : other = clientId
    · subst mine
      exact client new present
    · rw [moves.others other mine] at present
      exact rec.clients other new present
  · intro at_shard message member
    apply message_ok_mono replicas s next progress
    rw [extended_eq] at member
    cases List.mem_append.mp member with
    | inl old => exact rec.messages at_shard message old
    | inr new =>
        split at new
        · rename_i here
          rw [here]
          exact ok message new
        · cases new


section Handlers

set_option linter.unusedSectionVars false

variable (replicas : Nat → List Nat) (nodup : ∀ shard, (replicas shard).Nodup) (s : Cluster) (history : Nat → List StorageControl)
  (rec : Recovering replicas s history) (halting : s.Halting)

include nodup rec halting

theorem rate_recovering (clientId numSlots : Nat) :
    ∃ after, Recovering replicas (s.ordered (s.order.clientRate clientId numSlots, [])) after := by
  unfold Order.State.clientRate
  cases present : s.order.clientState clientId with
  | none =>
      exact ⟨_, moves_recovering replicas s _ history s.order [] clientId 0 [] nodup rec halting
        (Order.moves_nothing s.order clientId 0) (Or.inl rfl) (fun new found => rec.clients clientId new found)
        (fun message member => absurd member List.not_mem_nil)⟩
  | some client =>
      refine ⟨_, moves_recovering replicas s _ history _ _ clientId client.shardId [] nodup rec halting
        (Order.moves_update s.order clientId client { client with numSlots := Order.align minSlots (max 1 numSlots) } [] present rfl id
          (fun message member => absurd member List.not_mem_nil)) (Or.inl rfl) ?_ (fun message member => absurd member List.not_mem_nil)⟩
      intro new found
      rw [Order.set_client_state_same] at found
      cases found
      have ok := rec.clients clientId client present
      exact ⟨ok.asked, ok.nodup, ok.cuts, ok.data⟩

theorem freeze_recovering (next : Cluster) (clientId : Nat)
    (reported : next = s.ordered (s.order.clientFreeze clientId) ∨
      ∃ taken, next = { s.ordered (s.order.clientFreeze clientId) with reported := taken }) :
    ∃ after, Recovering replicas next after := by
  obtain nothing | ⟨client, present, alive, failed⟩ := Order.client_freeze_cases s.order clientId
  · rw [nothing] at reported
    exact ⟨_, moves_recovering replicas s next history s.order [] clientId 0 [] nodup rec halting
      (Order.moves_nothing s.order clientId 0) reported (fun new found => rec.clients clientId new found)
      (fun message member => absurd member List.not_mem_nil)⟩
  · rw [failed] at reported
    have moves := Order.moves_update s.order clientId client { client with failed := true } [.clientFreeze clientId] present rfl
      (fun _ => rfl) (fun message member => Or.inl ⟨List.mem_singleton.mp member, rfl⟩)
    rw [List.flatMap_singleton] at moves
    refine ⟨_, moves_recovering replicas s next history _ _ clientId client.shardId _ nodup rec halting moves reported ?_ ?_⟩
    · intro new found
      rw [Order.set_client_state_same] at found
      cases found
      have ok := rec.clients clientId client present
      exact ⟨ok.asked, ok.nodup, ok.cuts, ok.data⟩
    · intro message member
      rw [List.mem_singleton.mp member]
      trivial

-- The order sees a cut of a replica that has stopped taking inserts.
theorem with_cut_ok (cut : OrderClientCut) (place : Place) (client : Order.ClientState) (member : place.2 ∈ replicas place.1)
    (ok : ReportOk s place (.clientCut cut)) (present : s.order.clientState cut.clientId = some client)
    (shard : client.shardId = cut.shardId) (fresh : cut.replicaId ∉ client.cuts.map Prod.fst) :
    ClientOk replicas s cut.clientId (s.order.withCut client cut).1 := by
  have before := rec.clients cut.clientId client present
  have keys : ((s.order.withCut client cut).1.cuts.map Prod.fst).Perm (cut.replicaId :: client.cuts.map Prod.fst) :=
    (Order.insert_key_perm cut.replicaId cut.latestGsn client.cuts).map Prod.fst
  refine ⟨before.asked, ?_, ?_, before.data⟩
  · exact keys.nodup_iff.mpr (List.nodup_cons.mpr ⟨fresh, before.nodup⟩)
  · intro replica inside
    cases List.mem_cons.mp (keys.mem_iff.mp inside) with
    | inr old => exact before.cuts replica old
    | inl new =>
        change replica ∈ replicas client.shardId ∧ .clientFreeze cut.clientId ∈ s.seen (client.shardId, replica)
        rw [new, shard, ok.1, ok.2.1]
        exact ⟨member, ok.2.2⟩

theorem cuts_complete (clientId : Nat) (client : Order.ClientState) (ok : ClientOk replicas s clientId client)
    (complete : client.cuts.length = (replicas client.shardId).length) : AllFrozen replicas s client.shardId clientId := by
  intro replica member
  have inside : client.cuts.map Prod.fst ⊆ replicas client.shardId := fun other found => (ok.cuts other found).1
  have perm := (List.subperm_of_subset ok.nodup inside).perm_of_length_le (by rw [List.length_map, complete])
  exact (ok.cuts replica (perm.mem_iff.mpr member)).2

theorem cut_recovering (next : Cluster) (cut : OrderClientCut) (place : Place) (member : place.2 ∈ replicas place.1)
    (ok : ReportOk s place (.clientCut cut)) (taken : Place → Nat)
    (reported : next = { s.ordered (s.order.clientCut cut) with reported := taken }) : ∃ after, Recovering replicas next after := by
  obtain nothing | ⟨client, present, failed, shard, fresh, recorded⟩ := Order.client_cut_cases s.order cut
  · rw [nothing] at reported
    exact ⟨_, moves_recovering replicas s next history s.order [] cut.clientId 0 [] nodup rec halting
      (Order.moves_nothing s.order cut.clientId 0) (Or.inr ⟨taken, reported⟩) (fun new found => rec.clients cut.clientId new found)
      (fun message member => absurd member List.not_mem_nil)⟩
  · have kept := with_cut_ok replicas nodup s history rec halting cut place client member ok present shard fresh
    obtain recorded | ⟨idle, complete, final | asked⟩ := recorded
    · rw [recorded] at reported
      refine ⟨_, moves_recovering replicas s next history _ _ cut.clientId client.shardId [] nodup rec halting
        (Order.moves_update s.order cut.clientId client (s.order.withCut client cut).1 [] present rfl id
          (fun message member => absurd member List.not_mem_nil)) (Or.inr ⟨taken, reported⟩) ?_
        (fun message member => absurd member List.not_mem_nil)⟩
      intro new found
      rw [Order.set_client_state_same] at found
      cases found
      exact kept
    · rw [rec.ordered.queues] at complete
      have frozen := cuts_complete replicas nodup s history rec halting cut.clientId _ kept complete
      rw [final] at reported
      have moves := Order.moves_finalized s.order (s.order.withCut client cut).2 cut.clientId (s.order.withCut client cut).1 client [] present rfl
        (Or.inr ⟨_, rfl⟩) (fun item member => absurd member List.not_mem_nil)
      refine ⟨_, moves_recovering replicas s next history _ _ cut.clientId client.shardId _ nodup rec halting moves
        (Or.inr ⟨taken, reported⟩) ?_ ?_⟩
      · intro new found
        rw [(moves.finalizes cut.clientId (by simp)).2] at found
        cases found
      · intro message inside
        cases List.mem_append.mp inside with
        | inl patch =>
            obtain ⟨requested, _⟩ := Order.patch_member _ _ _ patch
            change client.requested = true at requested
            rw [idle] at requested
            cases requested
        | inr last =>
            rw [List.mem_singleton.mp last]
            exact frozen
    · rw [rec.ordered.queues] at complete
      have frozen := cuts_complete replicas nodup s history rec halting cut.clientId _ kept complete
      rw [asked] at reported
      simp only [Order.State.withCut, Order.requested_eq] at reported
      refine ⟨_, moves_recovering replicas s next history _ _ cut.clientId client.shardId [.clientCut _] nodup rec halting
        (Order.moves_update s.order cut.clientId client { (s.order.withCut client cut).1 with requested := true } _ present rfl id
          (fun message member => Or.inr ⟨_, List.mem_singleton.mp member⟩)) (Or.inr ⟨taken, reported⟩) ?_ ?_⟩
      · intro new found
        rw [Order.set_client_state_same] at found
        cases found
        exact ⟨fun _ => frozen, kept.nodup, kept.cuts, kept.data⟩
      · intro message inside
        rw [List.mem_singleton.mp inside]
        exact frozen

theorem data_recovering (next : Cluster) (data : OrderClientData) (place : Place) (member : place.2 ∈ replicas place.1)
    (ok : ReportOk s place (.clientData data)) (taken : Place → Nat)
    (reported : next = { s.ordered (s.order.clientData data) with reported := taken }) : ∃ after, Recovering replicas next after := by
  obtain nothing | ⟨client, present, requested, shard, handled⟩ := Order.client_data_cases s.order data
  · rw [nothing] at reported
    exact ⟨_, moves_recovering replicas s next history s.order [] data.clientId 0 [] nodup rec halting
      (Order.moves_nothing s.order data.clientId 0) (Or.inr ⟨taken, reported⟩) (fun new found => rec.clients data.clientId new found)
      (fun message member => absurd member List.not_mem_nil)⟩
  · have before := rec.clients data.clientId client present
    have frozen := before.asked requested
    obtain flushed | final | ⟨value, stored⟩ := handled
    · rw [flushed] at reported
      refine ⟨_, moves_recovering replicas s next history _ _ data.clientId client.shardId [] nodup rec halting
        (Order.moves_update s.order data.clientId client (s.order.withFlush client data).1 [] present rfl id
          (fun message member => absurd member List.not_mem_nil)) (Or.inr ⟨taken, reported⟩) ?_
        (fun message member => absurd member List.not_mem_nil)⟩
      intro new found
      rw [Order.set_client_state_same] at found
      cases found
      exact ⟨before.asked, before.nodup, before.cuts, before.data⟩
    · rw [final] at reported
      have moves := Order.moves_finalized s.order (s.order.withFlush client data).2 data.clientId (s.order.withFlush client data).1 client [] present rfl
        (Or.inr ⟨_, rfl⟩) (fun item member => absurd member List.not_mem_nil)
      refine ⟨_, moves_recovering replicas s next history _ _ data.clientId client.shardId _ nodup rec halting moves
        (Or.inr ⟨taken, reported⟩) ?_ ?_⟩
      · intro new found
        rw [(moves.finalizes data.clientId (by simp)).2] at found
        cases found
      · intro message inside
        cases List.mem_append.mp inside with
        | inl patch =>
            obtain ⟨_, item, kept, rfl⟩ := Order.patch_member _ _ _ patch
            exact ⟨frozen, before.data item kept⟩
        | inr last =>
            rw [List.mem_singleton.mp last]
            exact frozen
    · rw [stored] at reported
      refine ⟨_, moves_recovering replicas s next history _ _ data.clientId client.shardId [] nodup rec halting
        (Order.moves_update s.order data.clientId client { client with data := Order.insertKey data.gsn data.data client.data } []
          present rfl id
          (fun message member => absurd member List.not_mem_nil)) (Or.inr ⟨taken, reported⟩) ?_
        (fun message member => absurd member List.not_mem_nil)⟩
      intro new found
      rw [Order.set_client_state_same] at found
      cases found
      refine ⟨before.asked, before.nodup, before.cuts, ?_⟩
      intro item inside
      cases List.mem_cons.mp ((Order.insert_key_perm data.gsn data.data client.data).mem_iff.mp inside) with
      | inr old => exact before.data item old
      | inl new =>
          have recorded := ok.2.resolve_left value
          rw [new]
          refine ⟨place.2, ?_, ?_⟩
          · change place.2 ∈ replicas client.shardId
            rw [shard, ok.1]
            exact member
          · change Recorded (slotsIn (s.seen (client.shardId, place.2))) (s.received (client.shardId, place.2) data.clientId) _ _ _
            rw [shard, ok.1]
            exact recorded

end Handlers

end ZipLog.System
