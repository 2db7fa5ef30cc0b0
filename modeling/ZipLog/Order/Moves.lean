import ZipLog.Order.Partition

set_option autoImplicit false

namespace ZipLog.Order

-- What a handler of the loop, add_client and the epoch branch apart, can do. It
-- works on one client; the servers of one shard are all sent the same messages.
structure State.Moves (state next : State) (sent : List Sent) (clientId shardId : Nat) (messages : List StorageControl) : Prop where
  keeps : state.Keeps next
  others : ∀ other, other ≠ clientId → next.clientState other = state.clientState other
  sent : ∃ front : List Sent, sent = front ++ messages.flatMap (state.broadcast shardId) ∧
    ∀ item ∈ front, ∃ other message, item = .client other message
  quiet : ∀ message ∈ messages, ∀ slots, message ≠ .slots slots
  last : messages.Pairwise (fun earlier _ => ∀ other, earlier ≠ .clientFinalize other)
  home : messages ≠ [] → ∃ client, state.clientState clientId = some client ∧ client.shardId = shardId
  freezes : ∀ other, .clientFreeze other ∈ messages →
    other = clientId ∧ ∃ client, next.clientState clientId = some client ∧ client.failed = true
  finalizes : ∀ other, .clientFinalize other ∈ messages → other = clientId ∧ next.clientState clientId = none
  stays : ∀ new, next.clientState clientId = some new → ∃ client, state.clientState clientId = some client ∧
    new.shardId = client.shardId ∧ (client.failed = true → new.failed = true)

theorem moves_nothing (state : State) (clientId shardId : Nat) : state.Moves state [] clientId shardId [] := by
  constructor
  · exact keeps_refl state
  · intro other _
    rfl
  · exact ⟨[], rfl, fun item member => by cases member⟩
  · intro message member
    cases member
  · exact List.Pairwise.nil
  · intro some
    exact absurd rfl some
  · intro other member
    cases member
  · intro other member
    cases member
  · intro new present
    exact ⟨new, present, rfl, id⟩

theorem moves_update (state : State) (clientId : Nat) (client new : ClientState) (messages : List StorageControl)
    (present : state.clientState clientId = some client) (shard : new.shardId = client.shardId)
    (failed : client.failed = true → new.failed = true)
    (kind : ∀ message ∈ messages, (message = .clientFreeze clientId ∧ new.failed = true) ∨ ∃ cut, message = .clientCut cut) :
    state.Moves (state.setClientState clientId (some new)) (messages.flatMap (state.broadcast client.shardId)) clientId
      client.shardId messages := by
  have here : (state.setClientState clientId (some new)).clientState clientId = some new := set_client_state_same _ _ _
  constructor
  · exact keeps_update state clientId client new present shard
  · intro other different
    exact set_client_state_other _ _ _ _ different
  · exact ⟨[], rfl, fun item member => by cases member⟩
  · intro message member slots same
    obtain ⟨freeze, _⟩ | ⟨cut, request⟩ := kind message member
    · rw [freeze] at same
      cases same
    · rw [request] at same
      cases same
  · apply List.pairwise_of_forall_mem_list
    intro earlier first _ _ other same
    obtain ⟨freeze, _⟩ | ⟨cut, request⟩ := kind earlier first
    · rw [freeze] at same
      cases same
    · rw [request] at same
      cases same
  · intro _
    exact ⟨client, present, rfl⟩
  · intro other member
    obtain ⟨freeze, gone⟩ | ⟨cut, request⟩ := kind _ member
    · cases freeze
      exact ⟨rfl, new, here, gone⟩
    · cases request
  · intro other member
    obtain ⟨freeze, _⟩ | ⟨cut, request⟩ := kind _ member
    · cases freeze
    · cases request
  · intro found same
    rw [here] at same
    cases same
    exact ⟨client, present, shard, failed⟩

def patches (clientId : Nat) (client : ClientState) : List StorageControl :=
  if client.requested then client.data.map (fun data => .clientPatch ⟨clientId, data.1, data.2⟩) else []

theorem finalized_sent (state : State) (clientId : Nat) (client : ClientState) :
    (state.finalized clientId client).2 =
      (patches clientId client ++ [StorageControl.clientFinalize clientId]).flatMap (state.broadcast client.shardId) := by
  rw [List.flatMap_append, List.flatMap_singleton, State.finalized, patches]
  split
  · rw [List.flatMap_map]
  · rfl

theorem patch_member (clientId : Nat) (client : ClientState) (message : StorageControl) (member : message ∈ patches clientId client) :
    client.requested = true ∧ ∃ data ∈ client.data, message = .clientPatch ⟨clientId, data.1, data.2⟩ := by
  unfold patches at member
  split at member
  · rename_i asked
    obtain ⟨data, inside, rfl⟩ := List.mem_map.mp member
    exact ⟨asked, data, inside, rfl⟩
  · cases member

-- The handlers finalize a client whose own fields they have just changed.
theorem moves_finalized (state before : State) (clientId : Nat) (client old : ClientState) (front : List Sent)
    (present : state.clientState clientId = some old) (shard : client.shardId = old.shardId)
    (before_eq : before = state ∨ ∃ new, before = state.setClientState clientId (some new))
    (talk : ∀ item ∈ front, ∃ other message, item = .client other message) :
    state.Moves (before.finalized clientId client).1 (front ++ (before.finalized clientId client).2) clientId old.shardId
      (patches clientId client ++ [.clientFinalize clientId]) := by
  have gone : (before.finalized clientId client).1.clientState clientId = none := set_client_state_same _ _ _
  have cast : before.broadcast client.shardId = state.broadcast old.shardId := by
    cases before_eq with
    | inl same => rw [same, shard]
    | inr changed =>
        obtain ⟨new, same⟩ := changed
        rw [same, shard]
        rfl
  have result : (before.finalized clientId client).1 = state.setClientState clientId none := by
    cases before_eq with
    | inl same => rw [same]; rfl
    | inr changed =>
        obtain ⟨new, same⟩ := changed
        rw [same]
        simp [State.finalized, State.setClientState]
  constructor
  · rw [result]
    exact keeps_erase state clientId
  · intro other different
    rw [result]
    exact set_client_state_other _ _ _ _ different
  · refine ⟨front, ?_, talk⟩
    rw [finalized_sent, cast]
  · intro message member slots same
    rw [same] at member
    cases List.mem_append.mp member with
    | inl patch =>
        obtain ⟨_, data, _, other⟩ := patch_member _ _ _ patch
        cases other
    | inr last => simp at last
  · apply List.pairwise_append.mpr
    refine ⟨?_, List.pairwise_singleton _ _, ?_⟩
    · apply List.pairwise_of_forall_mem_list
      intro earlier first _ _ other same
      obtain ⟨_, data, _, patch⟩ := patch_member _ _ _ first
      rw [patch] at same
      cases same
    · intro earlier first _ _ other same
      obtain ⟨_, data, _, patch⟩ := patch_member _ _ _ first
      rw [patch] at same
      cases same
  · intro _
    exact ⟨old, present, rfl⟩
  · intro other member
    cases List.mem_append.mp member with
    | inl patch =>
        obtain ⟨_, data, _, same⟩ := patch_member _ _ _ patch
        cases same
    | inr last => simp at last
  · intro other member
    cases List.mem_append.mp member with
    | inl patch =>
        obtain ⟨_, data, _, same⟩ := patch_member _ _ _ patch
        cases same
    | inr last =>
        simp only [List.mem_singleton, StorageControl.clientFinalize.injEq] at last
        exact ⟨last, gone⟩
  · intro new same
    rw [gone] at same
    cases same

def State.withCut (state : State) (client : ClientState) (cut : OrderClientCut) : ClientState × State :=
  let client := { client with cuts := insertKey cut.replicaId cut.latestGsn client.cuts }
  (client, state.setClientState cut.clientId (some client))

-- What order_client_cut does.
theorem client_cut_cases (state : State) (cut : OrderClientCut) :
    state.clientCut cut = (state, []) ∨ ∃ client, state.clientState cut.clientId = some client ∧ client.failed = true ∧
      client.shardId = cut.shardId ∧ cut.replicaId ∉ client.cuts.map Prod.fst ∧
      (state.clientCut cut = ((state.withCut client cut).2, []) ∨
        client.requested = false ∧ (state.withCut client cut).1.cuts.length = (state.storageQueues client.shardId).length ∧
          (state.clientCut cut = (state.withCut client cut).2.finalized cut.clientId (state.withCut client cut).1 ∨
            state.clientCut cut = (state.withCut client cut).2.requested cut.clientId (state.withCut client cut).1
              (minCut (state.withCut client cut).1.cuts))) := by
  unfold State.clientCut
  cases present : state.clientState cut.clientId with
  | none => exact Or.inl rfl
  | some client =>
      dsimp only
      by_cases alive : client.failed = false
      · exact Or.inl (if_pos alive)
      · rw [if_neg alive]
        by_cases wrong : client.shardId ≠ cut.shardId ∨ cut.replicaId ∈ client.cuts.map Prod.fst
        · exact Or.inl (if_pos wrong)
        · rw [if_neg wrong]
          push Not at wrong
          refine Or.inr ⟨client, rfl, by simpa using alive, wrong.1, wrong.2, ?_⟩
          split
          · rename_i complete
            refine Or.inr ⟨complete.1, complete.2, ?_⟩
            split
            · exact Or.inl rfl
            · exact Or.inr rfl
          · exact Or.inl rfl

def State.withFlush (state : State) (client : ClientState) (data : OrderClientData) : ClientState × State :=
  let client := { client with flushed := client.flushed ++ [data.replicaId] }
  (client, state.setClientState data.clientId (some client))

-- What order_client_data does.
theorem client_data_cases (state : State) (data : OrderClientData) :
    state.clientData data = (state, []) ∨ ∃ client, state.clientState data.clientId = some client ∧ client.requested = true ∧
      client.shardId = data.shardId ∧
      (state.clientData data = ((state.withFlush client data).2, []) ∨
        state.clientData data = (state.withFlush client data).2.finalized data.clientId (state.withFlush client data).1 ∨
        data.gsn ≠ uint64Max ∧ state.clientData data = (state.setClientState data.clientId
          (some { client with data := insertKey data.gsn data.data client.data }), [])) := by
  unfold State.clientData
  cases present : state.clientState data.clientId with
  | none => exact Or.inl rfl
  | some client =>
      dsimp only
      by_cases idle : client.requested = false
      · exact Or.inl (if_pos idle)
      · rw [if_neg idle]
        by_cases wrong : client.shardId ≠ data.shardId ∨ data.replicaId ∈ client.flushed
        · exact Or.inl (if_pos wrong)
        · rw [if_neg wrong]
          push Not at wrong
          by_cases flush : data.gsn = uint64Max
          · refine Or.inr ⟨client, rfl, by simpa using idle, wrong.1, ?_⟩
            rw [if_pos flush]
            split
            · exact Or.inr (Or.inl rfl)
            · exact Or.inl rfl
          · rw [if_neg flush]
            by_cases known : data.gsn ∈ client.data.map Prod.fst
            · exact Or.inl (if_pos known)
            · exact Or.inr ⟨client, rfl, by simpa using idle, wrong.1, Or.inr (Or.inr ⟨flush, if_neg known⟩)⟩

theorem client_freeze_cases (state : State) (clientId : Nat) :
    state.clientFreeze clientId = (state, []) ∨ ∃ client, state.clientState clientId = some client ∧ client.failed = false ∧
      state.clientFreeze clientId = state.failed clientId client := by
  unfold State.clientFreeze
  cases present : state.clientState clientId with
  | none => exact Or.inl rfl
  | some client =>
      dsimp only
      by_cases gone : client.failed
      · exact Or.inl (if_pos gone)
      · exact Or.inr ⟨client, rfl, by simpa using gone, if_neg gone⟩

theorem requested_eq (state : State) (clientId : Nat) (client new : ClientState) (cut : Nat) :
    (state.setClientState clientId (some new)).requested clientId client cut =
      (state.setClientState clientId (some { client with requested := true }),
        ([.clientCut ⟨clientId, cut⟩] : List StorageControl).flatMap (state.broadcast client.shardId)) := by
  rw [List.flatMap_singleton]
  simp only [State.requested, State.setClientState, Function.update_idem]
  rfl

theorem moves_client_cut (state : State) (cut : OrderClientCut) : ∃ shardId messages,
    state.Moves (state.clientCut cut).1 (state.clientCut cut).2 cut.clientId shardId messages := by
  obtain nothing | ⟨client, present, failed, _, _, recorded | ⟨_, _, final | asked⟩⟩ := client_cut_cases state cut
  · rw [nothing]
    exact ⟨0, [], moves_nothing state cut.clientId 0⟩
  · rw [recorded]
    exact ⟨client.shardId, [], moves_update state cut.clientId client (state.withCut client cut).1 [] present rfl id
      (fun message member => by cases member)⟩
  · rw [final]
    exact ⟨_, _, moves_finalized state _ cut.clientId (state.withCut client cut).1 client [] present rfl (Or.inr ⟨_, rfl⟩)
      (fun item member => by cases member)⟩
  · rw [asked]
    simp only [State.withCut, requested_eq]
    exact ⟨_, _, moves_update state cut.clientId client _ [.clientCut _] present rfl id
      (fun message member => Or.inr ⟨_, List.mem_singleton.mp member⟩)⟩

theorem moves_client_data (state : State) (data : OrderClientData) : ∃ shardId messages,
    state.Moves (state.clientData data).1 (state.clientData data).2 data.clientId shardId messages := by
  obtain nothing | ⟨client, present, _, _, flushed | final | ⟨_, stored⟩⟩ := client_data_cases state data
  · rw [nothing]
    exact ⟨0, [], moves_nothing state data.clientId 0⟩
  · rw [flushed]
    exact ⟨client.shardId, [], moves_update state data.clientId client (state.withFlush client data).1 [] present rfl id
      (fun message member => by cases member)⟩
  · rw [final]
    exact ⟨_, _, moves_finalized state _ data.clientId (state.withFlush client data).1 client [] present rfl (Or.inr ⟨_, rfl⟩)
      (fun item member => by cases member)⟩
  · rw [stored]
    exact ⟨client.shardId, [], moves_update state data.clientId client _ [] present rfl id (fun message member => by cases member)⟩

theorem moves_client_freeze (state : State) (clientId : Nat) : ∃ shardId messages,
    state.Moves (state.clientFreeze clientId).1 (state.clientFreeze clientId).2 clientId shardId messages := by
  obtain nothing | ⟨client, present, _, failed⟩ := client_freeze_cases state clientId
  · rw [nothing]
    exact ⟨0, [], moves_nothing state clientId 0⟩
  · rw [failed]
    have moves := moves_update state clientId client { client with failed := true } [.clientFreeze clientId] present rfl
      (fun _ => rfl) (fun message member => Or.inl ⟨List.mem_singleton.mp member, rfl⟩)
    rw [List.flatMap_singleton] at moves
    exact ⟨_, _, moves⟩

theorem moves_client_rate (state : State) (clientId numSlots : Nat) : ∃ shardId messages,
    state.Moves (state.clientRate clientId numSlots) [] clientId shardId messages := by
  unfold State.clientRate
  cases present : state.clientState clientId with
  | none => exact ⟨0, [], moves_nothing state clientId 0⟩
  | some client =>
      exact ⟨client.shardId, [], moves_update state clientId client _ [] present rfl id (fun message member => by cases member)⟩

theorem moves_client_finished (state : State) (clientId : Nat) : ∃ shardId messages,
    state.Moves (state.clientFinished clientId).1 (state.clientFinished clientId).2 clientId shardId messages := by
  unfold State.clientFinished
  cases present : state.clientState clientId with
  | none => exact ⟨0, [], moves_nothing state clientId 0⟩
  | some client =>
      have moves := moves_finalized state state clientId client client [.client clientId .orderFinished] present rfl (Or.inl rfl)
        (fun item member => ⟨clientId, .orderFinished, List.mem_singleton.mp member⟩)
      exact ⟨_, _, moves⟩

-- A client of whom no data was requested is finalized without patches.
theorem moves_client_finished_alive (state : State) (clientId : Nat)
    (alive : ∀ client, state.clientState clientId = some client → client.requested = false) : ∃ shardId messages,
    state.Moves (state.clientFinished clientId).1 (state.clientFinished clientId).2 clientId shardId messages ∧
      ∀ message ∈ messages, message = .clientFinalize clientId := by
  unfold State.clientFinished
  cases present : state.clientState clientId with
  | none => exact ⟨0, [], moves_nothing state clientId 0, fun message member => absurd member List.not_mem_nil⟩
  | some client =>
      refine ⟨_, _, moves_finalized state state clientId client client [.client clientId .orderFinished] present rfl
        (Or.inl rfl) (fun item member => ⟨clientId, .orderFinished, List.mem_singleton.mp member⟩), ?_⟩
      intro message member
      rw [patches, if_neg (by rw [alive client present]; exact Bool.false_ne_true), List.nil_append] at member
      exact List.mem_singleton.mp member

theorem insert_key_perm {ν : Type} (key : Nat) (value : ν) (items : List (Nat × ν)) :
    (insertKey key value items).Perm ((key, value) :: items) := by
  induction items with
  | nil => exact List.Perm.refl _
  | cons head rest ih =>
      unfold insertKey
      split
      · exact List.Perm.refl _
      · exact (ih.cons head).trans (List.Perm.swap (key, value) head rest)

end ZipLog.Order
