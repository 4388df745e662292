import PolkadotApi.ObjectRuns

set_option autoImplicit false

namespace PolkadotApi.BlockNumberSharing
open StatefulActions MachineModel JsonValues StorageKeys Notifications Subscriptions
open SubscriptionFrames CallSpecifications ObjectRuns StepRuns

abbrev blockNumber : Topic := .slot .blockNumber

abbrev eraAndSession : Topic := .slot .eraAndSession

def Mixes : Operation → Prop
  | .subscribeBlockNumber _ => True
  | .unsubscribeBlockNumber => True
  | .subscribeEraAndSession _ => True
  | .unsubscribeEraAndSession => True
  | .notify _ _ => True
  | _ => False

/-- The block number function that the client has registered and not taken back. -/
def register (user : Option ℕ) : Operation → Option ℕ
  | .subscribeBlockNumber tag => some tag
  | .unsubscribeBlockNumber => none
  | _ => user

def registered (es : List Event) : Option ℕ := es.foldl (fun user e => register user e.op) none

/-- The subscription is open, and every new head is handed to the function. -/
def Receives (w : World) (tag : ℕ) : Prop :=
  ∃ id, subscription w.api blockNumber = some id ∧ ∀ message n,
    newHead message = .ok (.blockNumber n) → ∃ w', handleWsMessage w id message = .ok w' ∧
      w'.log = w.log ++ [.handled id message, .invoked id (.client tag) (.blockNumber n)]

def Tracks (w : World) : Prop :=
  ∃ id, subscription w.api blockNumber = some id ∧ ∀ message n,
    newHead message = .ok (.blockNumber n) → ∃ w', handleWsMessage w id message = .ok w' ∧
      w'.api.bestBlockNum = n

def isClient : Callback → Bool
  | .client _ => true
  | _ => false

/-- The client leaves the block number subscription alone while era-and-session is
open, and the other way round. -/
def Separate (w : World) (e : Event) : Prop :=
  Served e ∧
    match e.op with
    | .subscribeBlockNumber _ => subscription w.api eraAndSession = none
    | .unsubscribeBlockNumber => subscription w.api eraAndSession = none
    | .subscribeEraAndSession _ => ∀ f ∈ w.api.subscriber blockNumber, isClient f = false
    | .unsubscribeEraAndSession => ∀ f ∈ w.api.subscriber blockNumber, isClient f = false
    | _ => True

instance (w : World) (e : Event) : Decidable (Separate w e) := by
  unfold Separate
  split <;> infer_instance

section Delivery

variable {w : World} {id : ℤ} {callback : Callback} {message : Json} {n : ℤ}

theorem route_blockNumber (h : subscription w.api blockNumber = some id) :
    route w.api id = some blockNumber := by
  have hid : (w.api.slot .blockNumber).id = id := by
    simp only [subscription] at h
    split_ifs at h
    exact Option.some.inj h
  simp [route, tests, slotTopic, hid]

theorem handle_newHead {w₁ : World} (h : subscription w.api blockNumber = some id)
    (hsubscriber : w.api.subscriber blockNumber = some callback)
    (hmessage : newHead message = .ok (.blockNumber n))
    (hcall : call (w.record (.handled id message)) (.blockNumber n) callback = .ok w₁) :
    handleWsMessage w id message = .ok (w₁.record (.invoked id callback (.blockNumber n))) := by
  have hpayload : payload w.api blockNumber message = .ok (some (.blockNumber n)) := by
    change (newHead message).map some = _
    rw [hmessage]
    rfl
  rw [handleWsMessage_invokes (route_blockNumber h) hpayload hsubscriber hcall,
    update_complete_of_ne (by decide)]

end Delivery

section Sharing

variable {lib : Libraries} {user : Option ℕ} {w w' : World} {e : Event} {callback : Callback}

def Nonzero (w : World) : Prop := ∀ id ∈ subscribedIds w.log, id ≠ 0

theorem Nonzero.of_prefix (h : Nonzero w') (hlog : w.log <+: w'.log) : Nonzero w := by
  intro id hid
  exact h id ((hlog.sublist.filterMap _).subset hid)

theorem Nonzero.of_subscribed {topic : Topic} {q : Json} {id : ℤ}
    (h : Nonzero (w.record (.subscribed topic q id))) : id ≠ 0 := by
  apply h id
  rw [subscribedIds, World.record, List.filterMap_append]
  exact List.mem_append_right _ List.mem_cons_self

def Used (callback : Callback) (w : World) : Prop :=
  Nonzero w → subscription w.api blockNumber ≠ none ∧ w.api.subscriber blockNumber = some callback

theorem used_quiet : Quiet (Used callback) := by
  refine ⟨fun w h => h, ?_⟩
  intro w w' id message h hhandle hnonzero
  have hh := handleWsMessage_handled hhandle
  obtain ⟨l, hl, -⟩ := hh.log
  rw [hh.subscription_eq (by decide), hh.subscriber_eq (by decide)]
  exact h (hnonzero.of_prefix (by rw [hl]; exact List.prefix_append _ _))

theorem supplied_ignores (topic : Topic) : Ignores Supplied topic :=
  ⟨⟨fun _ h _ => h, fun _ _ _ h => h, fun _ _ _ h _ _ => h, fun _ h _ => h⟩, fun _ _ h => h⟩

theorem era_closed_ignores :
    Ignores (fun w => subscription w.api eraAndSession = none) blockNumber :=
  ignores_of_ne (F := fun id _ => id = none) (by decide)

theorem subscribe_used {F : World → Prop} (callback : Callback) (hF : Quiet F) (hi : Ignores F blockNumber)
    (q : Api → Json) :
    Triple (fun w => Supplied w ∧ F w) (subscribeSlot .blockNumber q callback)
      (fun _ w => Supplied w ∧ F w ∧ Used callback w) fun halt _ => ∀ x, halt ≠ .thrown x := by
  have hquiet : Quiet fun w =>
      (Supplied w ∧ F w) ∧ w.api.subscriber blockNumber = some callback := by
    apply (supplied_quiet.and hF).and
    exact quiet_view (F := fun _ subscriber => subscriber = some callback) (by decide)
  apply (subscribeSlot_triple hquiet ?_).post
  · intro _ w' h
    rcases h with ⟨⟨h, hcallback⟩, hopen⟩ | ⟨w, q, json, ⟨h, hcallback⟩, -, -, rfl⟩
    · exact ⟨h.1, h.2, fun _ => ⟨hopen, hcallback⟩⟩
    · refine ⟨h.1, hi.opened w q _ h.2, ?_⟩
      intro hnonzero
      have hid : json.intValue ≠ 0 := Nonzero.of_subscribed hnonzero
      change subscription (setSubscription blockNumber _ w.api) blockNumber ≠ none ∧
        (setSubscription blockNumber _ w.api).subscriber blockNumber = some callback
      rw [subscription_setSubscription_self hid, subscriber_setSubscription]
      exact ⟨by simp, hcallback⟩
  · intro halt w h
    exact not_refused h.2 fun w h => h.1.1
  · intro w h
    refine ⟨⟨h.1, hi.callback w callback h.2⟩, ?_⟩
    change (setCallback blockNumber callback w.api).subscriber blockNumber = some callback
    exact subscriber_setCallback_self

theorem subscribeEraAndSession_used {tag : ℕ} :
    Triple Supplied (subscribeEraAndSession (.client tag)) (fun _ => Used .updateBestBlock)
      fun halt _ => ∀ x, halt ≠ .thrown x := by
  apply Triple.bind (Q := fun _ => Supplied)
  · exact triple_modify fun _ h => h
  intro _
  apply Triple.bind (Q := fun _ w => Supplied w ∧ Used .updateBestBlock w)
  · apply ((subscribe_used _ true_quiet (true_ignores _) _).pre fun w h => ⟨h, trivial⟩).post
    · intro _ w h
      exact ⟨h.1, h.2.2⟩
    · intro halt w h
      exact h
  intro _
  apply Triple.bind (Q := fun _ => Used .updateBestBlock)
  · apply (openSlot_triple (supplied_quiet.and used_quiet) .eraAndSession eraQuery).post
    · intro _ w' h
      rcases h with h | ⟨w, q, json, h, -, -, rfl⟩
      · exact h.1.2
      · intro hnonzero
        have hused := h.2 (Nonzero.of_prefix hnonzero (List.prefix_append _ _))
        exact (ignores_of_ne (F := fun id subscriber => id ≠ none ∧ subscriber = some .updateBestBlock)
          (show blockNumber ≠ eraAndSession by decide)).opened w q _ hused
    · intro halt w h
      exact not_refused h.2 fun w h => h.1
  · intro _
    exact triple_pure fun _ h => h

theorem unsubscribeBlockNumber_closed :
    Triple (fun w => Supplied w ∧ subscription w.api eraAndSession = none) unsubscribeBlockNumber
      (fun _ w => subscription w.api eraAndSession = none) fun halt _ => ∀ x, halt ≠ .thrown x := by
  have hquiet := supplied_quiet.and (quiet_closed eraAndSession)
  have hkeeps := (supplied_ignores blockNumber).toKeeps.and era_closed_ignores.toKeeps
  apply (unsubscribeSlot_triple hquiet (by decide) _).post
  · intro _ w h
    exact (hkeeps.of_released h).1.2
  · intro halt w h
    exact not_refused h.2 fun w h => h.1

theorem unsubscribeEraAndSession_closed :
    Triple Supplied unsubscribeEraAndSession
      (fun _ w => subscription w.api eraAndSession = none) fun halt _ => ∀ x, halt ≠ .thrown x := by
  apply Triple.bind (Q := fun _ w => Supplied w ∧ subscription w.api eraAndSession = none)
  · apply (closeSlot_triple supplied_quiet (by decide) _).post
    · intro _ w h
      exact (supplied_ignores eraAndSession).toKeeps.of_released h
    · intro halt w h
      exact not_refused h.2 fun w h => h
  intro _
  apply unsubscribeBlockNumber_closed.bind
  intro _
  exact triple_pure fun _ h => h

structure Shared (user : Option ℕ) (w : World) : Prop where
  client : ∀ tag, user = some tag → Used (.client tag) w
  era : subscription w.api eraAndSession ≠ none → Used .updateBestBlock w

theorem Used.receives {tag : ℕ} (h : Used (.client tag) w) (hnonzero : Nonzero w) :
    Receives w tag := by
  have hused := h hnonzero
  obtain ⟨id, hid⟩ := Option.ne_none_iff_exists'.1 hused.1
  refine ⟨id, hid, ?_⟩
  intro message n hmessage
  refine ⟨_, handle_newHead hid hused.2 hmessage rfl, ?_⟩
  simp [World.record]

theorem Used.tracks (h : Used .updateBestBlock w) (hnonzero : Nonzero w) : Tracks w := by
  have hused := h hnonzero
  obtain ⟨id, hid⟩ := Option.ne_none_iff_exists'.1 hused.1
  refine ⟨id, hid, ?_⟩
  intro message n hmessage
  exact ⟨_, handle_newHead hid hused.2 hmessage rfl, rfl⟩

theorem Shared.user_none (h : Shared user w)
    (hown : ∀ f ∈ w.api.subscriber blockNumber, isClient f = false) (hnonzero : Nonzero w) :
    user = none := by
  cases user with
  | none => rfl
  | some tag => cases hown _ (h.client tag rfl hnonzero).2

theorem shared_quiet : Quiet (Shared user) := by
  constructor
  · intro w h
    exact ⟨h.client, h.era⟩
  · intro w w' id message h hhandle
    have hera := (handleWsMessage_handled hhandle).subscription_eq
      (show eraAndSession ≠ .slot .transactionCompletion by decide)
    constructor
    · intro tag htag
      exact used_quiet.handle w w' id message (h.client tag htag) hhandle
    · intro hopen
      rw [hera] at hopen
      exact used_quiet.handle w w' id message (h.era hopen) hhandle

theorem step_shared (hmix : Mixes e.op) (hseparate : Separate w e) (h : Shared user w)
    (hstep : step lib w e = some w') : Nonzero w' → Shared (register user e.op) w' := by
  intro hnonzero
  have hbefore := hnonzero.of_prefix (step_log hstep)
  have hsupplied : Supplied (meets w e) := hseparate.1
  obtain ⟨op, answers, incoming⟩ := e
  cases op with
  | subscribeBlockNumber tag =>
    have htriple := subscribe_used (.client tag) (quiet_closed eraAndSession) era_closed_ignores
      fun _ => query "chain_subscribeNewHead" (.array [])
    have hafter := step_of_triple (triple_discard htriple) (fun _ _ hr => absurd rfl (hr _))
      ⟨hsupplied, hseparate.2⟩ hstep
    constructor
    · intro tag' htag
      cases htag
      exact hafter.2.2
    · intro hopen
      exact absurd hafter.2.1 hopen
  | unsubscribeBlockNumber =>
    have hafter := step_of_triple (triple_discard unsubscribeBlockNumber_closed)
      (fun _ _ hr => absurd rfl (hr _)) ⟨hsupplied, hseparate.2⟩ hstep
    constructor
    · intro tag htag
      cases htag
    · intro hopen
      exact absurd hafter hopen
  | subscribeEraAndSession tag =>
    have hafter := step_of_triple (triple_discard subscribeEraAndSession_used)
      (fun _ _ hr => absurd rfl (hr _)) hsupplied hstep
    constructor
    · intro tag' htag
      rw [h.user_none hseparate.2 hbefore] at htag
      cases htag
    · intro _
      exact hafter
  | unsubscribeEraAndSession =>
    have hafter := step_of_triple (triple_discard unsubscribeEraAndSession_closed)
      (fun _ _ hr => absurd rfl (hr _)) hsupplied hstep
    constructor
    · intro tag htag
      rw [h.user_none hseparate.2 hbefore] at htag
      cases htag
    · intro hopen
      exact absurd hafter hopen
  | notify id message =>
    have hquiet : Quiet (Shared user) := shared_quiet
    exact step_of_triple (meanwhile_triple hquiet.handle _) (fun _ _ hr => hr.1) ⟨h.client, h.era⟩ hstep
  | _ => exact hmix.elim

theorem run_shared {es : List Event} (hmix : ∀ e ∈ es, Mixes e.op)
    (hseparate : Along (step lib) Separate w es) (h : Shared user w)
    (hrun : run (step lib) w es = some w') (hnonzero : Nonzero w') :
    Shared (es.foldl (fun user e => register user e.op) user) w' := by
  induction es generalizing w user with
  | nil =>
    cases hrun
    exact h
  | cons e es ih =>
    obtain ⟨t, ht, hrest⟩ := run_cons.1 hrun
    have hmiddle := step_shared (hmix e List.mem_cons_self) hseparate.1 h ht
      (hnonzero.of_prefix (run_log hrest))
    exact ih (fun e' he' => hmix e' (List.mem_cons_of_mem e he')) (hseparate.2 t ht) hmiddle hrest

end Sharing

/-- In a run that keeps the two uses apart, the client's function and the best
block number get every new head. -/
theorem new_heads_delivered (lib : Libraries) (api : Api)
    (hera : subscription api eraAndSession = none) (es : List Event) (w : World)
    (hmix : ∀ e ∈ es, Mixes e.op) (hseparate : Along (step lib) Separate (start api) es)
    (hrun : run (step lib) (start api) es = some w) (hids : ∀ id ∈ subscribedIds w.log, id ≠ 0) :
    (∀ tag, registered es = some tag → Receives w tag) ∧
      (subscription w.api eraAndSession ≠ none → Tracks w) := by
  have hstart : Shared none (start api) := by
    constructor
    · intro tag htag
      cases htag
    · intro hopen
      exact absurd hera hopen
  have hshared := run_shared hmix hseparate hstart hrun hids
  exact ⟨fun tag htag => (hshared.client tag htag).receives hids,
    fun hopen => (hshared.era hopen).tracks hids⟩

def watchHeads : List Event :=
  [⟨.subscribeBlockNumber 1, [answered 5], []⟩, ⟨.notify 5 (newHeadOf "0x07"), [], []⟩]

def thenEra : List Event :=
  watchHeads ++ [⟨.unsubscribeBlockNumber, [confirmed], []⟩,
    ⟨.subscribeEraAndSession 2, [answered 6, answered 7], []⟩]

theorem new_heads_delivered_in_turn :
    (registered watchHeads = some 1 ∧ Receives (after (start connectedApi) watchHeads) 1) ∧
      subscription (after (start connectedApi) thenEra).api eraAndSession ≠ none ∧
        Tracks (after (start connectedApi) thenEra) := by
  have hheads := new_heads_delivered sampleLibraries connectedApi rfl watchHeads _
    (by simp [watchHeads, Mixes]) (by decide +kernel) (run_after _ _ (by decide +kernel))
    (by decide +kernel)
  have hera := new_heads_delivered sampleLibraries connectedApi rfl thenEra _
    (by simp [thenEra, watchHeads, Mixes]) (by decide +kernel) (run_after _ _ (by decide +kernel))
    (by decide +kernel)
  have hopen : subscription (after (start connectedApi) thenEra).api eraAndSession ≠ none := by
    decide +kernel
  exact ⟨⟨rfl, hheads.1 1 rfl⟩, hopen, hera.2 hopen⟩

def eraOnTop : List Event :=
  watchHeads ++ [⟨.subscribeEraAndSession 2, [answered 6], []⟩]

theorem new_heads_delivered_fails :
    ¬ ∀ lib api, subscription api eraAndSession = none → ∀ es w, (∀ e ∈ es, Mixes e.op) →
      run (step lib) (start api) es = some w → (∀ id ∈ subscribedIds w.log, id ≠ 0) →
      (∀ tag, registered es = some tag → Receives w tag) ∧
        (subscription w.api eraAndSession ≠ none → Tracks w) := by
  intro hall
  obtain ⟨id, hid, hreceives⟩ := (hall sampleLibraries connectedApi rfl eraOnTop _
    (by simp [eraOnTop, watchHeads, Mixes]) (run_after _ _ (by decide +kernel))
    (by decide +kernel)).1 1 rfl
  have hfive : subscription (after (start connectedApi) eraOnTop).api blockNumber = some 5 := by
    decide +kernel
  cases hid.symm.trans hfive
  obtain ⟨w', hhandle, hlog⟩ := hreceives (newHeadOf "0x08") 8 (by decide +kernel)
  have hother : (handleWsMessage (after (start connectedApi) eraOnTop) 5 (newHeadOf "0x08")).map
      (fun w => w.log.getLast?) =
      .ok (some (.invoked 5 .updateBestBlock (.blockNumber 8))) := by
    decide +kernel
  rw [hhandle] at hother
  have hlast : w'.log.getLast? = some (.invoked 5 .updateBestBlock (.blockNumber 8)) :=
    Except.ok.inj hother
  rw [hlog, List.getLast?_append] at hlast
  cases hlast

end PolkadotApi.BlockNumberSharing
