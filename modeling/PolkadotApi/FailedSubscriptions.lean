import PolkadotApi.Reconnection

set_option autoImplicit false

namespace PolkadotApi.FailedSubscriptions
open StatefulActions MachineModel JsonValues StorageKeys Subscriptions SubscriptionFrames
open CallSpecifications ObjectRuns Reconnection

section Members

/-- The members for subscriptions are those of `api`, but for a transfer whose
final status was handled after `w`. -/
structure Left (api : Api) (w w' : World) : Prop where
  log : w.log <+: w'.log
  slot : ∀ kind, kind ≠ .transactionCompletion → w'.api.slot kind = api.slot kind
  keyed : w'.api.keyed = api.keyed
  transfer : w'.api.slot .transactionCompletion = api.slot .transactionCompletion ∨
    w'.api.slot .transactionCompletion = ⟨none, 0⟩ ∧
      ∃ id message, Final message ∧ .handled id message ∈ w'.log.drop w.log.length

def Unchanged (w w' : World) : Prop := Left w.api w w'

variable {api : Api} {w u u' : World} {topic : Topic} {callback : Callback}

theorem left_refl (w : World) : Left w.api w w :=
  ⟨List.prefix_rfl, fun _ _ => rfl, rfl, Or.inl rfl⟩

theorem Left.subscriber (h : Left api w u) (htopic : topic ≠ .slot .transactionCompletion) :
    u.api.subscriber topic = api.subscriber topic := by
  cases topic with
  | slot kind =>
    have hkind : kind ≠ .transactionCompletion := fun hk => htopic (by rw [hk])
    simp only [Api.subscriber, h.slot kind hkind]
  | keyed kind key => simp only [Api.subscriber, h.keyed]

theorem Left.record (h : Left api w u) (e : Entry) : Left api w (u.record e) := by
  refine ⟨h.log.trans (List.prefix_append _ _), h.slot, h.keyed, ?_⟩
  rcases h.transfer with ht | ⟨ht, id, message, hfinal, hmem⟩
  · exact Or.inl ht
  · refine Or.inr ⟨ht, id, message, hfinal, ?_⟩
    rw [record_log, List.drop_append_of_le_length h.log.length_le]
    exact List.mem_append_left _ hmem

theorem Left.setSlot {kind : SlotKind} {f : Slot → Slot} (hkind : kind ≠ .transactionCompletion)
    (h : Left api w u) :
    Left (api.setSlot kind (f (api.slot kind))) w
      (u.update fun a => a.setSlot kind (f (a.slot kind))) := by
  refine ⟨h.log, ?_, h.keyed, ?_⟩
  · intro k hk
    by_cases hne : k = kind
    · subst k
      rw [update_api, setSlot_self, setSlot_self, h.slot kind hkind]
    · rw [update_api, setSlot_of_ne hne, setSlot_of_ne hne, h.slot k hk]
  · rw [update_api, setSlot_of_ne hkind.symm, setSlot_of_ne hkind.symm]
    exact h.transfer

theorem Left.setCallback (htopic : topic ≠ .slot .transactionCompletion) (callback : Callback)
    (h : Left api w u) :
    Left (setCallback topic callback api) w (u.update (setCallback topic callback)) := by
  cases topic with
  | slot kind =>
    have hkind : kind ≠ .transactionCompletion := fun hk => htopic (by rw [hk])
    exact h.setSlot (f := fun s => { s with subscriber := some callback }) hkind
  | keyed kind key =>
    refine ⟨h.log, h.slot, ?_, h.transfer⟩
    change Function.update u.api.keyed _ _ = Function.update api.keyed _ _
    rw [h.keyed]

theorem Left.setKeyId {kind : KeyedKind} {key : Str} (id : ℤ) (h : Left api w u) :
    Left (api.setKeyId kind key id) w (u.update fun a => a.setKeyId kind key id) := by
  refine ⟨h.log, h.slot, ?_, h.transfer⟩
  change Function.update u.api.keyed _ _ = Function.update api.keyed _ _
  rw [h.keyed]

theorem Left.handle {id : ℤ} {message : Json} (h : Left api w u)
    (hhandle : handleWsMessage u id message = .ok u') : Left api w u' := by
  have hh := handleWsMessage_handled hhandle
  obtain ⟨l, hl, -⟩ := handleWsMessage_appends hhandle
  have hdrop : u'.log.drop w.log.length = u.log.drop w.log.length ++ .handled id message :: l := by
    rw [hl, List.drop_append_of_le_length h.log.length_le]
  refine ⟨h.log.trans (hl ▸ List.prefix_append _ _), ?_, hh.keyed.trans h.keyed, ?_⟩
  · intro kind hkind
    rcases hh.slot kind with hs | hs
    · exact hs.trans (h.slot kind hkind)
    · exact absurd hs.1 hkind
  rw [hdrop]
  rcases handleWsMessage_slot hhandle with ⟨hs, -⟩ | ⟨-, hfinal, hs⟩
  · rw [hs]
    rcases h.transfer with ht | ⟨ht, id', message', hfinal, hmem⟩
    · exact Or.inl ht
    · exact Or.inr ⟨ht, id', message', hfinal, List.mem_append_left _ hmem⟩
  · refine Or.inr ⟨by rw [hs, Function.update_self], id, message, hfinal, ?_⟩
    exact List.mem_append_right _ List.mem_cons_self

theorem Left.handleAll {notifications : List (ℤ × Json)} (h : Left api w u.popped)
    (hall : handleAll u.popped notifications = .ok u') : Left api w u' :=
  handleAll_induction (fun _ _ _ _ hw hh => hw.handle hh) h hall

theorem Left.popped (h : Left api w u) : Left api w u.popped :=
  ⟨h.log, h.slot, h.keyed, h.transfer⟩

theorem setSlot_eq_self {kind : SlotKind} : api.setSlot kind (api.slot kind) = api := by
  unfold Api.setSlot
  rw [Function.update_eq_self]

theorem setCallback_of_subscriber (h : api.subscriber topic = some callback) :
    setCallback topic callback api = api := by
  cases topic with
  | slot kind =>
    change api.setSlot kind { api.slot kind with subscriber := some callback } = api
    rw [← show (api.slot kind).subscriber = some callback from h]
    exact setSlot_eq_self
  | keyed kind key =>
    change api.setKeyed kind { api.keyed kind with subscribers := _ } = api
    have hinsert : (api.keyed kind).subscribers.insert key callback = (api.keyed kind).subscribers := by
      apply Std.ExtTreeMap.ext_getElem?
      intro k
      by_cases hk : k = key
      · subst k
        rw [Std.ExtTreeMap.getElem?_insert_self]
        exact h.symm
      · rw [getElem?_insert_ne hk]
    rw [hinsert]
    unfold Api.setKeyed
    rw [Function.update_eq_self]

end Members

section Inversions

variable {w w' : World} {entry : Json → Entry} {exception : Exception} {kind : SlotKind}
variable {q : Api → Json}

theorem request_eq_thrown (h : (request entry).run w = .error (.thrown exception) w') :
    handleAll w.popped w.answer.during = .ok w' ∧ w.answer.reply = .error exception := by
  rcases run_bind_eq_error h with h | ⟨answer, u, hanswer, h⟩
  · cases h
  cases hanswer
  rcases run_bind_eq_error h with h | ⟨done, u, hmeanwhile, h⟩
  · cases hall : handleAll w.popped w.answer.during with
    | ok u =>
      rw [run_meanwhile_ok hall] at h
      cases h
    | error halt =>
      rw [run_meanwhile_error hall] at h
      cases h
      exact absurd rfl (handleAll_error hall exception)
  · cases hall : handleAll w.popped w.answer.during with
    | ok u' =>
      rw [run_meanwhile_ok hall] at hmeanwhile
      cases hmeanwhile
      cases hreply : w.answer.reply with
      | ok json =>
        rw [hreply] at h
        cases h
      | error e =>
        rw [hreply] at h
        cases h
        exact ⟨rfl, rfl⟩
    | error halt =>
      rw [run_meanwhile_error hall] at hmeanwhile
      cases hmeanwhile

theorem request_eq_ok {json : Json} (h : (request entry).run w = .ok json w') :
    ∃ u, handleAll w.popped w.answer.during = .ok u ∧ w.answer.reply = .ok json ∧
      w' = u.record (entry json) := by
  obtain ⟨answer, u, hanswer, h⟩ := run_bind_eq_ok h
  cases hanswer
  obtain ⟨done, u, hmeanwhile, h⟩ := run_bind_eq_ok h
  cases hall : handleAll w.popped w.answer.during with
  | ok u' =>
    rw [run_meanwhile_ok hall] at hmeanwhile
    cases hmeanwhile
    cases hreply : w.answer.reply with
    | ok json' =>
      rw [hreply] at h
      cases h
      exact ⟨u, rfl, rfl, rfl⟩
    | error e =>
      rw [hreply] at h
      cases h
  | error halt =>
    rw [run_meanwhile_error hall] at hmeanwhile
    cases hmeanwhile

theorem subscribeWs_eq_thrown {topic : Topic} {json : Json}
    (h : (subscribeWs topic json).run w = .error (.thrown exception) w') :
    handleAll w.popped w.answer.during = .ok w' ∧ w.answer.reply = .error exception := by
  rcases run_bind_eq_error h with h | ⟨answer, u, -, h⟩
  · exact request_eq_thrown h
  · cases h

theorem openSlot_eq_thrown (h : (openSlot kind q).run w = .error (.thrown exception) w') :
    (w.api.slot kind).id = 0 ∧ handleAll w.popped w.answer.during = .ok w' ∧
      w.answer.reply = .error exception := by
  rcases run_bind_eq_error h with h | ⟨u, v, hget, h⟩
  · cases h
  cases hget
  by_cases hid : (w.api.slot kind).id = 0
  · rw [if_pos hid] at h
    rcases run_bind_eq_error h with h | ⟨id, u, -, h⟩
    · exact ⟨hid, subscribeWs_eq_thrown h⟩
    · cases h
  · rw [if_neg hid] at h
    cases h

theorem openSlot_eq_ok (h : (openSlot kind q).run w = .ok () w') :
    (w.api.slot kind).id ≠ 0 ∧ w' = w ∨
      ∃ u json, (w.api.slot kind).id = 0 ∧ handleAll w.popped w.answer.during = .ok u ∧
        w.answer.reply = .ok json ∧
        w' = (u.record (.subscribed (.slot kind) (q w.api) json.intValue)).update fun api =>
          api.setId kind json.intValue := by
  obtain ⟨u, v, hget, h⟩ := run_bind_eq_ok h
  cases hget
  by_cases hid : (w.api.slot kind).id = 0
  · rw [if_pos hid] at h
    obtain ⟨id, u, hsubscribe, h⟩ := run_bind_eq_ok h
    obtain ⟨json, u', hrequest, hid'⟩ := run_bind_eq_ok hsubscribe
    obtain ⟨u, hall, hreply, rfl⟩ := request_eq_ok hrequest
    cases hid'
    cases h
    exact Or.inr ⟨u, json, hid, hall, hreply, rfl⟩
  · rw [if_neg hid] at h
    cases h
    exact Or.inl ⟨hid, rfl⟩

theorem liftResult_state {α : Type} {r : Result α} {halt : Halt}
    (h : (liftResult r).run w = .error halt w') : w' = w := by
  cases r with
  | ok a => cases h
  | error fault => cases fault <;> cases h <;> rfl

theorem liftResult_eq_ok {α : Type} {r : Result α} {a : α}
    (h : (liftResult r).run w = .ok a w') : r = .ok a ∧ w' = w := by
  cases r with
  | ok a =>
    cases h
    exact ⟨rfl, rfl⟩
  | error fault => cases fault <;> cases h

def entered (kind : KeyedKind) (key : Str) (w : World) : World :=
  w.update fun api => api.setKeyId kind key 0

variable {keyedKind : KeyedKind} {storageKey : Api → Result Str} {key : Str}

theorem openKeyed_eq_thrown
    (h : (openKeyed keyedKind storageKey key).run w = .error (.thrown exception) w') :
    (w.api.keyed keyedKind).ids[key]? = none ∧
      (w' = w ∧ (storageKey w.api).isOk = false ∨
        (storageKey w.api).isOk ∧
          handleAll (entered keyedKind key w).popped w.answer.during = .ok w' ∧
          w.answer.reply = .error exception) := by
  rcases run_bind_eq_error h with h | ⟨u, v, hget, h⟩
  · cases h
  cases hget
  by_cases hid : (w.api.keyed keyedKind).ids[key]? = none
  · refine ⟨hid, ?_⟩
    rw [if_pos hid] at h
    rcases run_bind_eq_error h with h | ⟨text, u, hkey, h⟩
    · refine Or.inl ⟨liftResult_state h, ?_⟩
      cases hkey : storageKey w.api with
      | ok text =>
        rw [hkey] at h
        cases h
      | error fault => rfl
    · have htext := (liftResult_eq_ok hkey).1
      cases (liftResult_eq_ok hkey).2
      refine Or.inr ⟨by rw [htext]; rfl, ?_⟩
      rcases run_bind_eq_error h with h | ⟨done, v, hentry, h⟩
      · cases h
      cases hentry
      rcases run_bind_eq_error h with h | ⟨id, v, -, h⟩
      · exact subscribeWs_eq_thrown h
      · cases h
  · rw [if_neg hid] at h
    cases h

theorem openKeyed_eq_ok (h : (openKeyed keyedKind storageKey key).run w = .ok () w') :
    (w.api.keyed keyedKind).ids[key]? ≠ none ∧ w' = w ∨
      ∃ u json text q, (w.api.keyed keyedKind).ids[key]? = none ∧ storageKey w.api = .ok text ∧
        handleAll (entered keyedKind key w).popped w.answer.during = .ok u ∧
        w.answer.reply = .ok json ∧
        w' = (u.record (.subscribed (.keyed keyedKind key) q json.intValue)).update fun api =>
          api.setKeyId keyedKind key json.intValue := by
  obtain ⟨u, v, hget, h⟩ := run_bind_eq_ok h
  cases hget
  by_cases hid : (w.api.keyed keyedKind).ids[key]? = none
  · rw [if_pos hid] at h
    obtain ⟨text, u, hkey, h⟩ := run_bind_eq_ok h
    have htext := (liftResult_eq_ok hkey).1
    cases (liftResult_eq_ok hkey).2
    obtain ⟨done, v, hentry, h⟩ := run_bind_eq_ok h
    cases hentry
    obtain ⟨id, v, hsubscribe, h⟩ := run_bind_eq_ok h
    obtain ⟨json, u', hrequest, hid'⟩ := run_bind_eq_ok hsubscribe
    obtain ⟨u, hall, hreply, rfl⟩ := request_eq_ok hrequest
    cases hid'
    cases h
    exact Or.inr ⟨u, json, text, _, hid, htext, hall, hreply, rfl⟩
  · rw [if_neg hid] at h
    cases h
    exact Or.inl ⟨hid, rfl⟩

end Inversions

section Thrown

variable {w w' : World} {exception : Exception} {callback : Callback}

theorem subscribeSlot_left {kind : SlotKind} {q : Api → Json}
    (hkind : kind ≠ .transactionCompletion)
    (h : (subscribeSlot kind q callback).run w = .error (.thrown exception) w') :
    Left (setCallback (.slot kind) callback w.api) w w' := by
  rcases run_bind_eq_error h with h | ⟨done, u, hset, h⟩
  · cases h
  cases hset
  rcases run_bind_eq_error h with h | ⟨done, u, hopen, h⟩
  · have hall := (openSlot_eq_thrown h).2.1
    have htopic : Topic.slot kind ≠ .slot .transactionCompletion := by simpa using hkind
    have hset := (left_refl w).setCallback htopic callback
    exact hset.popped.handleAll hall
  · cases h

theorem subscribeKeyed_left {kind : KeyedKind} {storageKey : Api → Result Str} {key : Str}
    (hkey : ∀ api, storageKey (setCallback (.keyed kind key) callback api) = storageKey api)
    (h : (subscribeKeyed kind storageKey key callback).run w = .error (.thrown exception) w') :
    subscription w.api (.keyed kind key) = none ∧
      ((storageKey w.api).isOk = false ∧ Left (setCallback (.keyed kind key) callback w.api) w w' ∨
        (storageKey w.api).isOk ∧
          Left ((setCallback (.keyed kind key) callback w.api).setKeyId kind key 0) w w') := by
  rcases run_bind_eq_error h with h | ⟨done, u, hset, h⟩
  · cases h
  cases hset
  have htopic : Topic.keyed kind key ≠ .slot .transactionCompletion := by simp
  have hset := (left_refl w).setCallback htopic callback
  rcases run_bind_eq_error h with h | ⟨done, u, hopen, h⟩
  · obtain ⟨hid, hwhy⟩ := openKeyed_eq_thrown h
    have hclosed : subscription (setCallback (.keyed kind key) callback w.api) (.keyed kind key) =
        none := hid
    rw [subscription_setCallback] at hclosed
    refine ⟨hclosed, ?_⟩
    rw [← hkey]
    rcases hwhy with ⟨rfl, hnone⟩ | ⟨hok, hall, -⟩
    · exact Or.inl ⟨hnone, hset⟩
    · exact Or.inr ⟨hok, (hset.setKeyId 0).popped.handleAll hall⟩
  · cases h

def takeOver (callback : Callback) (api : Api) : Api :=
  setCallback (.slot .blockNumber) .updateBestBlock (setCallback (.slot .eraAndSession) callback api)

theorem subscribeEraAndSession_left
    (h : (subscribeEraAndSession callback).run w = .error (.thrown exception) w') :
    ((w.api.slot .blockNumber).id ≠ 0 ∨ w.answer.reply = .error exception) ∧
        Left (takeOver callback w.api) w w' ∨
      ∃ json, (w.api.slot .blockNumber).id = 0 ∧ w.answer.reply = .ok json ∧
        Left ((takeOver callback w.api).setId .blockNumber json.intValue) w w' := by
  rcases run_bind_eq_error h with h | ⟨done, u, hset, h⟩
  · cases h
  cases hset
  have hera : Left (setCallback (.slot .eraAndSession) callback w.api) w _ :=
    (left_refl w).setCallback (by decide) callback
  have hset : Left (takeOver callback w.api) w _ :=
    hera.setCallback (show Topic.slot .blockNumber ≠ .slot .transactionCompletion by decide)
      .updateBestBlock
  rcases run_bind_eq_error h with h | ⟨code, u, hblock, h⟩
  · rcases run_bind_eq_error h with h | ⟨done, u, hu, h⟩
    · cases h
    cases hu
    rcases run_bind_eq_error h with h | ⟨done, u, hopen, h⟩
    · obtain ⟨-, hall, hreply⟩ := openSlot_eq_thrown h
      exact Or.inl ⟨Or.inr hreply, hset.popped.handleAll hall⟩
    · cases h
  · obtain ⟨done, v, hv, hblock⟩ := run_bind_eq_ok hblock
    cases hv
    obtain ⟨done, v, hopen, hblock⟩ := run_bind_eq_ok hblock
    cases hblock
    have hall : handleAll u.popped u.answer.during = .ok w' := by
      rcases run_bind_eq_error h with h | ⟨done, v, hv, h⟩
      · exact (openSlot_eq_thrown h).2.1
      · cases h
    rcases openSlot_eq_ok hopen with ⟨hid, rfl⟩ | ⟨v, json, hid, hheads, hreply, rfl⟩
    · exact Or.inl ⟨Or.inl hid, hset.popped.handleAll hall⟩
    · have hopened := ((hset.popped.handleAll hheads).record (.subscribed (.slot .blockNumber)
        (query "chain_subscribeNewHead" (.array [])) json.intValue)).setSlot
          (f := fun s => { s with id := json.intValue })
          (show SlotKind.blockNumber ≠ .transactionCompletion by decide)
      exact Or.inr ⟨json, hid, hreply, hopened.popped.handleAll hall⟩

end Thrown

section Requests

def unopened (api : Api) (topic : Topic) : List Topic :=
  if subscription api topic = none then [topic] else []

/-- A key is only asked for when the storage key can be computed. -/
def unopenedKey (api : Api) (topic : Topic) (storageKey : Api → Result Str) : List Topic :=
  if (storageKey api).isOk then unopened api topic else []

def requests (lib : Libraries) (api : Api) : Operation → List Topic
  | .subscribeBlockNumber _ => unopened api (.slot .blockNumber)
  | .subscribeFinalizedBlock _ => unopened api (.slot .finalizedBlock)
  | .subscribeRuntimeVersion _ => unopened api (.slot .runtimeVersion)
  | .subscribeEraAndSession _ =>
    unopened api (.slot .blockNumber) ++ unopened api (.slot .eraAndSession)
  | .subscribeBalance address _ =>
    unopenedKey api (.keyed .balance address) (addressKey lib "Balances FreeBalance" address)
  | .subscribeAccountNonce address _ =>
    unopenedKey api (.keyed .accountNonce address) (addressKey lib "System AccountNonce" address)
  | .subscribeStorage key _ => unopenedKey api (.keyed .storage key) fun _ => .ok key
  | _ => []

end Requests

section Conditions

variable {lib : Libraries} {w w' : World} {exception : Exception} {callback : Callback}
  {topic : Topic}

def stored : Operation → List (Topic × Callback)
  | .subscribeBlockNumber tag => [(.slot .blockNumber, .client tag)]
  | .subscribeFinalizedBlock tag => [(.slot .finalizedBlock, .client tag)]
  | .subscribeRuntimeVersion tag => [(.slot .runtimeVersion, .client tag)]
  | .subscribeEraAndSession tag =>
    [(.slot .eraAndSession, .client tag), (.slot .blockNumber, .updateBestBlock)]
  | .subscribeBalance address tag => [(.keyed .balance address, .client tag)]
  | .subscribeAccountNonce address tag => [(.keyed .accountNonce address, .client tag)]
  | .subscribeStorage key tag => [(.keyed .storage key, .client tag)]
  | _ => []

def OpensHeads (w : World) : Operation → Prop
  | .subscribeEraAndSession _ =>
    (w.api.slot .blockNumber).id = 0 ∧ ∃ json, w.answer.reply = .ok json ∧ json.intValue ≠ 0
  | _ => False

/-- The call asks for a new key, whose entry is made before the request. -/
def MakesEntry (lib : Libraries) (w : World) (op : Operation) : Prop :=
  ∃ kind key, .keyed kind key ∈ requests lib w.api op

/-- The callbacks that the call stores are there already, and it stores nothing else. -/
def Settled (lib : Libraries) (w : World) (op : Operation) : Prop :=
  (∀ p ∈ stored op, w.api.subscriber p.1 = some p.2) ∧ ¬ OpensHeads w op ∧ ¬ MakesEntry lib w op

theorem unchanged_iff_of_left (htopic : topic ≠ .slot .transactionCompletion)
    (h : Left (setCallback topic callback w.api) w w') :
    Unchanged w w' ↔ w.api.subscriber topic = some callback := by
  constructor
  · intro hsame
    rw [← hsame.subscriber htopic, h.subscriber htopic, subscriber_setCallback_self]
  · intro hthere
    rw [setCallback_of_subscriber hthere] at h
    exact h

theorem subscriber_takeOver (callback : Callback) (api : Api) :
    (takeOver callback api).subscriber (.slot .eraAndSession) = some callback ∧
      (takeOver callback api).subscriber (.slot .blockNumber) = some .updateBestBlock := by
  refine ⟨?_, subscriber_setCallback_self⟩
  rw [takeOver, (setCallback_view_of_ne (by decide)).2, subscriber_setCallback_self]

theorem takeOver_of_subscribers {api : Api}
    (hera : api.subscriber (.slot .eraAndSession) = some callback)
    (hheads : api.subscriber (.slot .blockNumber) = some .updateBestBlock) :
    takeOver callback api = api := by
  rw [takeOver, setCallback_of_subscriber hera, setCallback_of_subscriber hheads]

theorem unchanged_iff_of_era (tag : ℕ)
    (h : (subscribeEraAndSession (.client tag)).run w = .error (.thrown exception) w') :
    Unchanged w w' ↔ Settled lib w (.subscribeEraAndSession tag) := by
  have hslots : ¬ MakesEntry lib w (.subscribeEraAndSession tag) := by
    rintro ⟨kind, key, hmem⟩
    simp only [requests, unopened] at hmem
    split_ifs at hmem <;> simp at hmem
  have hsubscribers : ∀ api, Left api w w' →
      (∀ topic, api.subscriber topic = (takeOver (.client tag) w.api).subscriber topic) →
      Unchanged w w' → ∀ p ∈ stored (.subscribeEraAndSession tag), w.api.subscriber p.1 = some p.2 := by
    intro api hleft hapi hsame p hp
    obtain ⟨hera, hheads⟩ := subscriber_takeOver (.client tag) w.api
    simp only [stored, List.mem_cons, List.not_mem_nil, or_false] at hp
    rcases hp with rfl | rfl
    · rw [← hsame.subscriber (by simp), hleft.subscriber (by simp), hapi, hera]
    · rw [← hsame.subscriber (by simp), hleft.subscriber (by simp), hapi, hheads]
  have htakeOver : (∀ p ∈ stored (.subscribeEraAndSession tag), w.api.subscriber p.1 = some p.2) →
      takeOver (.client tag) w.api = w.api := fun hall =>
    takeOver_of_subscribers (hall (.slot .eraAndSession, .client tag) (by simp [stored]))
      (hall (.slot .blockNumber, .updateBestBlock) (by simp [stored]))
  rcases subscribeEraAndSession_left h with ⟨hfirst, hleft⟩ | ⟨json, hid, hreply, hleft⟩
  · have hnot : ¬ OpensHeads w (.subscribeEraAndSession tag) := by
      rintro ⟨hid, json, hreply, -⟩
      rcases hfirst with hopen | herror
      · exact hopen hid
      · cases hreply.symm.trans herror
    constructor
    · intro hsame
      exact ⟨hsubscribers _ hleft (fun _ => rfl) hsame, hnot, hslots⟩
    · intro hsettled
      rw [htakeOver hsettled.1] at hleft
      exact hleft
  · have hblock : ∀ id, ((takeOver (.client tag) w.api).setId .blockNumber id).slot .blockNumber =
        ⟨some .updateBestBlock, id⟩ := by
      intro id
      rw [Api.setId, setSlot_self]
      rfl
    constructor
    · intro hsame
      have hview : ∀ t, (setSubscription (.slot .blockNumber) json.intValue
          (takeOver (.client tag) w.api)).subscriber t = (takeOver (.client tag) w.api).subscriber t :=
        fun _ => subscriber_setSubscription
      refine ⟨hsubscribers _ hleft hview hsame, ?_, hslots⟩
      rintro ⟨-, json', hreply', hne⟩
      cases hreply.symm.trans hreply'
      have hslot := (hsame.slot .blockNumber (by decide)).symm.trans
        (hleft.slot .blockNumber (by decide))
      rw [hslot, hblock] at hid
      exact hne hid
    · intro hsettled
      have hzero : json.intValue = 0 := by
        by_contra hne
        exact hsettled.2.1 ⟨hid, json, hreply, hne⟩
      rw [htakeOver hsettled.1, hzero, ← hid] at hleft
      change Left (w.api.setSlot .blockNumber (w.api.slot .blockNumber)) w w' at hleft
      rw [setSlot_eq_self] at hleft
      exact hleft

theorem unchanged_iff_of_slot {kind : SlotKind} {q : Api → Json} {op : Operation}
    (hkind : kind ≠ .transactionCompletion) (hstored : stored op = [(.slot kind, callback)])
    (hheads : ¬ OpensHeads w op) (hrequests : requests lib w.api op = unopened w.api (.slot kind))
    (h : (subscribeSlot kind q callback).run w = .error (.thrown exception) w') :
    Unchanged w w' ↔ Settled lib w op := by
  have hslots : ¬ MakesEntry lib w op := by
    rintro ⟨k, key, hmem⟩
    rw [hrequests, unopened] at hmem
    split_ifs at hmem <;> simp at hmem
  rw [unchanged_iff_of_left (by simpa using hkind) (subscribeSlot_left hkind h), Settled, hstored,
    List.forall_mem_singleton]
  exact (and_iff_left ⟨hheads, hslots⟩).symm

/-- A call for a key that throws has left the entry of the key behind, unless the key
could not be computed. -/
theorem unchanged_iff_of_keyed {kind : KeyedKind} {storageKey : Api → Result Str} {key : Str}
    {op : Operation} (hstored : stored op = [(.keyed kind key, callback)])
    (hheads : ¬ OpensHeads w op)
    (hrequests : requests lib w.api op = unopenedKey w.api (.keyed kind key) storageKey)
    (hkey : ∀ api, storageKey (setCallback (.keyed kind key) callback api) = storageKey api)
    (h : (subscribeKeyed kind storageKey key callback).run w = .error (.thrown exception) w') :
    Unchanged w w' ↔ Settled lib w op := by
  obtain ⟨hclosed, hleft⟩ := subscribeKeyed_left hkey h
  have hentry : MakesEntry lib w op ↔ (storageKey w.api).isOk := by
    rw [MakesEntry, hrequests, unopenedKey, unopened, if_pos hclosed]
    split_ifs with hok
    · exact iff_of_true ⟨kind, key, List.mem_singleton.2 rfl⟩ hok
    · exact iff_of_false (by rintro ⟨_, _, ⟨⟩⟩) hok
  rw [Settled, hstored, List.forall_mem_singleton, hentry]
  rcases hleft with ⟨hok, hleft⟩ | ⟨hok, hleft⟩
  · rw [unchanged_iff_of_left (by simp) hleft, hok]
    exact (and_iff_left ⟨hheads, by simp⟩).symm
  · refine iff_of_false ?_ (fun hsettled => hsettled.2.2 hok)
    intro hsame
    have hids : subscription (setSubscription (.keyed kind key) 0
        (setCallback (.keyed kind key) callback w.api)) (.keyed kind key) =
          subscription w.api (.keyed kind key) := by
      change (((setCallback (.keyed kind key) callback w.api).setKeyId kind key 0).keyed kind).ids[key]?
        = (w.api.keyed kind).ids[key]?
      rw [← hleft.keyed, hsame.keyed]
    rw [hclosed, subscription_entry] at hids
    cases hids

theorem discard_eq_error {α : Type} {x : Action α} {halt : Halt}
    (h : (ObjectRuns.discard x).run w = .error halt w') : x.run w = .error halt w' := by
  rcases run_bind_eq_error h with h | ⟨a, u, hx, h⟩
  · exact h
  · cases h

end Conditions

/-- A subscribe call that throws leaves the members as they were exactly when it
had nothing to store: the callbacks it stores were there before, it has not opened the
block number subscription on its way, and it has made no entry for a new key. Then each
update still goes to the callback registered before. -/
theorem failed_subscribe_unchanged_iff (lib : Libraries) (w w' : World) (op : Operation)
    (exception : Exception) (hop : target op ≠ none)
    (hthrow : (perform lib op).run w = .error (.thrown exception) w') :
    (Unchanged w w' ↔ Settled lib w op) ∧
      (Settled lib w op → ∀ topic, topic ≠ .slot .transactionCompletion →
        w'.api.subscriber topic = w.api.subscriber topic) := by
  have hiff : Unchanged w w' ↔ Settled lib w op := by
    cases op with
    | subscribeEraAndSession tag => exact unchanged_iff_of_era tag (discard_eq_error hthrow)
    | subscribeBlockNumber tag =>
      exact unchanged_iff_of_slot (by decide) rfl id rfl (discard_eq_error hthrow)
    | subscribeFinalizedBlock tag =>
      exact unchanged_iff_of_slot (by decide) rfl id rfl (discard_eq_error hthrow)
    | subscribeRuntimeVersion tag =>
      exact unchanged_iff_of_slot (by decide) rfl id rfl (discard_eq_error hthrow)
    | subscribeBalance address tag =>
      exact unchanged_iff_of_keyed rfl id rfl (fun _ => rfl) (discard_eq_error hthrow)
    | subscribeAccountNonce address tag =>
      exact unchanged_iff_of_keyed rfl id rfl (fun _ => rfl) (discard_eq_error hthrow)
    | subscribeStorage key tag =>
      exact unchanged_iff_of_keyed rfl id rfl (fun _ => rfl) (discard_eq_error hthrow)
    | _ => exact absurd rfl hop
  exact ⟨hiff, fun hsettled topic htopic => (hiff.2 hsettled).subscriber htopic⟩

def notConnected : Answer := ⟨.error (.jsonRpc (lit "Not connected")), []⟩

/-- The object after the calls, which is not connected when the next call is made. -/
def cutOff (calls : List Event) : World :=
  { after (start connectedApi) calls with answers := [notConnected] }

def afterRefusal : World := cutOff [⟨.subscribeFinalizedBlock 1, [notConnected], []⟩]

theorem failed_subscribe_unchanged_again :
    Unchanged afterRefusal
      (final (perform sampleLibraries (.subscribeFinalizedBlock 1)) afterRefusal) := by
  have hthrow := run_of_failure (x := perform sampleLibraries (.subscribeFinalizedBlock 1))
    (s := afterRefusal) (e := .thrown (.jsonRpc (lit "Not connected"))) (by decide +kernel)
  have hiff := (failed_subscribe_unchanged_iff sampleLibraries _ _ _ _ (by simp [target]) hthrow).1
  refine hiff.2 ⟨?_, id, ?_⟩
  · intro p hp
    rw [List.mem_singleton.1 hp]
    decide +kernel
  · rintro ⟨kind, key, hmem⟩
    simp only [requests, unopened] at hmem
    split_ifs at hmem <;> simp at hmem

def watchingHeads : World := cutOff [⟨.subscribeBlockNumber 1, [answered 5], []⟩]

/-- `subscribeEraAndSession` fails, and the new heads go to its lambda from then on. -/
theorem failed_subscribe_unchanged_fails :
    ¬ ∀ lib w w' op exception, target op ≠ none →
      (perform lib op).run w = .error (.thrown exception) w' → Unchanged w w' := by
  intro hall
  have hthrow := run_of_failure (x := perform sampleLibraries (.subscribeEraAndSession 2))
    (s := watchingHeads) (e := .thrown (.jsonRpc (lit "Not connected"))) (by decide +kernel)
  have hsame := hall sampleLibraries _ _ _ _ (by simp [target]) hthrow
  have hheads := hsame.subscriber
    (show Topic.slot .blockNumber ≠ .slot .transactionCompletion by decide)
  have hbefore : watchingHeads.api.subscriber (.slot .blockNumber) = some (.client 1) := by
    decide +kernel
  have hafter : (final (perform sampleLibraries (.subscribeEraAndSession 2)) watchingHeads).api.subscriber
      (.slot .blockNumber) = some .updateBestBlock := by
    decide +kernel
  rw [hbefore, hafter] at hheads
  cases hheads

end PolkadotApi.FailedSubscriptions
