import PolkadotApi.Subscriptions

set_option autoImplicit false

namespace PolkadotApi.SubscriptionFrames
open StatefulActions MachineModel JsonValues ExtrinsicSubmission StorageKeys Notifications
open Subscriptions

section Fields

variable {w : World}

@[simp] theorem update_api {f : Api → Api} : (w.update f).api = f w.api := rfl

@[simp] theorem update_log {f : Api → Api} : (w.update f).log = w.log := rfl

@[simp] theorem record_api {e : Entry} : (w.record e).api = w.api := rfl

@[simp] theorem record_log {e : Entry} : (w.record e).log = w.log ++ [e] := rfl

end Fields

section Topics

variable {β : Type} {m : Std.ExtTreeMap Str β} {key other : Str}

theorem getElem?_insert_ne (h : other ≠ key) (value : β) : (m.insert key value)[other]? = m[other]? := by
  rw [Std.ExtTreeMap.getElem?_insert, if_neg]
  intro hcmp
  exact h (Std.LawfulEqOrd.eq_of_compare hcmp).symm

theorem getElem?_erase_ne (h : other ≠ key) : (m.erase key)[other]? = m[other]? := by
  rw [Std.ExtTreeMap.getElem?_erase, if_neg]
  intro hcmp
  exact h (Std.LawfulEqOrd.eq_of_compare hcmp).symm

def subscription (api : Api) : Topic → Option ℤ
  | .slot kind => if (api.slot kind).id = 0 then none else some (api.slot kind).id
  | .keyed kind key => (api.keyed kind).ids[key]?

def setCallback (topic : Topic) (callback : Callback) (api : Api) : Api :=
  match topic with
  | .slot kind => api.setSubscriber kind callback
  | .keyed kind key => api.setKeySubscriber kind key callback

def setSubscription (topic : Topic) (id : ℤ) (api : Api) : Api :=
  match topic with
  | .slot kind => api.setId kind id
  | .keyed kind key => api.setKeyId kind key id

def release (topic : Topic) (api : Api) : Api :=
  match topic with
  | .slot kind => api.setSlot kind ⟨none, 0⟩
  | .keyed kind key => api.eraseKey kind key

variable {api : Api} {topic t : Topic} {callback : Callback} {id : ℤ}

theorem subscription_congr {api' : Api} (hslot : api'.slot = api.slot)
    (hkeyed : api'.keyed = api.keyed) : subscription api' topic = subscription api topic := by
  cases topic with
  | slot kind => simp only [subscription, hslot]
  | keyed kind key => simp only [subscription, hkeyed]

theorem setSlot_of_ne {kind k : SlotKind} (h : k ≠ kind) (slot : Slot) :
    (api.setSlot kind slot).slot k = api.slot k :=
  Function.update_of_ne h _ _

@[simp] theorem setSlot_self {kind : SlotKind} {slot : Slot} :
    (api.setSlot kind slot).slot kind = slot :=
  Function.update_self ..

@[simp] theorem keyed_setSlot {kind : SlotKind} {slot : Slot} :
    (api.setSlot kind slot).keyed = api.keyed := rfl

theorem setKeyed_of_ne {kind k : KeyedKind} (h : k ≠ kind) (keyed : Keyed) :
    (api.setKeyed kind keyed).keyed k = api.keyed k :=
  Function.update_of_ne h _ _

@[simp] theorem setKeyed_self {kind : KeyedKind} {keyed : Keyed} :
    (api.setKeyed kind keyed).keyed kind = keyed :=
  Function.update_self ..

@[simp] theorem slot_setKeyed {kind : KeyedKind} {keyed : Keyed} :
    (api.setKeyed kind keyed).slot = api.slot := rfl

theorem subscriber_setCallback_self : (setCallback topic callback api).subscriber topic = some callback := by
  cases topic <;> simp [setCallback, Api.subscriber, Api.setSubscriber, Api.setKeySubscriber]

theorem setSlot_view_of_ne {kind : SlotKind} {slot : Slot} (h : t ≠ .slot kind) :
    subscription (api.setSlot kind slot) t = subscription api t ∧
      (api.setSlot kind slot).subscriber t = api.subscriber t := by
  cases t with
  | slot k =>
    have hk : k ≠ kind := fun hk => h (by rw [hk])
    simp only [subscription, Api.subscriber, setSlot_of_ne hk, and_self]
  | keyed k key => exact ⟨rfl, rfl⟩

theorem setKeyed_view_of_ne {kind : KeyedKind} {keyed : Keyed}
    (hids : ∀ k ≠ key, keyed.ids[k]? = (api.keyed kind).ids[k]?)
    (hsubscribers : ∀ k ≠ key, keyed.subscribers[k]? = (api.keyed kind).subscribers[k]?)
    (h : t ≠ .keyed kind key) :
    subscription (api.setKeyed kind keyed) t = subscription api t ∧
      (api.setKeyed kind keyed).subscriber t = api.subscriber t := by
  cases t with
  | slot k => exact ⟨rfl, rfl⟩
  | keyed k other =>
    simp only [subscription, Api.subscriber]
    by_cases hk : k = kind
    · subst k
      have hother : other ≠ key := fun ho => h (by rw [ho])
      rw [setKeyed_self]
      exact ⟨hids other hother, hsubscribers other hother⟩
    · rw [setKeyed_of_ne hk]
      exact ⟨rfl, rfl⟩

theorem setCallback_view_of_ne (h : t ≠ topic) :
    subscription (setCallback topic callback api) t = subscription api t ∧
      (setCallback topic callback api).subscriber t = api.subscriber t := by
  cases topic with
  | slot kind => exact setSlot_view_of_ne h
  | keyed kind key =>
    exact setKeyed_view_of_ne (fun _ _ => rfl) (fun _ hk => getElem?_insert_ne hk _) h

theorem setSubscription_view_of_ne (h : t ≠ topic) :
    subscription (setSubscription topic id api) t = subscription api t ∧
      (setSubscription topic id api).subscriber t = api.subscriber t := by
  cases topic with
  | slot kind => exact setSlot_view_of_ne h
  | keyed kind key =>
    exact setKeyed_view_of_ne (fun _ hk => getElem?_insert_ne hk _) (fun _ _ => rfl) h

theorem release_view_of_ne (h : t ≠ topic) :
    subscription (release topic api) t = subscription api t ∧
      (release topic api).subscriber t = api.subscriber t := by
  cases topic with
  | slot kind => exact setSlot_view_of_ne h
  | keyed kind key =>
    exact setKeyed_view_of_ne (fun _ hk => getElem?_erase_ne hk) (fun _ hk => getElem?_erase_ne hk) h

theorem subscription_setCallback : subscription (setCallback topic callback api) t = subscription api t := by
  by_cases h : t = topic
  · subst t
    cases topic <;> simp [setCallback, subscription, Api.setSubscriber, Api.setKeySubscriber]
  · exact (setCallback_view_of_ne h).1

theorem subscriber_setSubscription : (setSubscription topic id api).subscriber t = api.subscriber t := by
  by_cases h : t = topic
  · subst t
    cases topic <;> simp [setSubscription, Api.subscriber, Api.setId, Api.setKeyId]
  · exact (setSubscription_view_of_ne h).2

theorem subscription_setSubscription_self (h : id ≠ 0) :
    subscription (setSubscription topic id api) topic = some id := by
  cases topic <;> simp [setSubscription, subscription, Api.setId, Api.setKeyId, h]

theorem slot_closed_iff {kind : SlotKind} :
    (subscription api (.slot kind)).getD 0 = 0 ↔ subscription api (.slot kind) = none := by
  by_cases h : (api.slot kind).id = 0 <;> simp [subscription, h]

theorem subscription_entry {kind : KeyedKind} {key : Str} :
    subscription (setSubscription (.keyed kind key) id api) (.keyed kind key) = some id := by
  simp [setSubscription, subscription, Api.setKeyId]

theorem subscription_release_self : subscription (release topic api) topic = none := by
  cases topic <;> simp [release, subscription, Api.eraseKey]

theorem subscriber_release_self : (release topic api).subscriber topic = none := by
  cases topic <;> simp [release, Api.subscriber, Api.eraseKey]

end Topics

section Routing

def Holds (api : Api) (id : ℤ) : Topic → Prop
  | .slot kind => (api.slot kind).id = id
  | .keyed kind key => (api.keyed kind).ids[key]? = some id

variable {api : Api} {id : ℤ} {topic : Topic}

theorem slotTopic_eq_some {kind : SlotKind} (h : slotTopic api kind id = some topic) :
    Holds api id topic := by
  unfold slotTopic at h
  split_ifs at h with hid
  cases h
  exact hid

theorem keyedTopic_eq_some {kind : KeyedKind} (h : keyedTopic api kind id = some topic) :
    Holds api id topic := by
  obtain ⟨key, hkey, rfl⟩ := Option.map_eq_some_iff.1 h
  obtain ⟨⟨key, value⟩, hfind, rfl⟩ := Option.map_eq_some_iff.1 hkey
  have hmem := Std.ExtTreeMap.mem_toList_iff_getElem?_eq_some.1 (List.mem_of_find?_eq_some hfind)
  have hvalue : value = id := by simpa using List.find?_some hfind
  rw [hvalue] at hmem
  exact hmem

theorem keyedTopic_isSome {kind : KeyedKind} {key : Str}
    (h : (api.keyed kind).ids[key]? = some id) : (keyedTopic api kind id).isSome := by
  have hmem := Std.ExtTreeMap.mem_toList_iff_getElem?_eq_some.2 h
  unfold keyedTopic findKey
  rw [Option.isSome_map, Option.isSome_map, List.find?_isSome]
  exact ⟨(key, id), hmem, by simp⟩

theorem route_holds (h : route api id = some topic) : Holds api id topic := by
  obtain ⟨test, hmem, htest⟩ := List.exists_of_findSome?_eq_some h
  simp only [tests, List.mem_cons, List.not_mem_nil, or_false] at hmem
  rcases hmem with rfl | rfl | rfl | rfl | rfl | rfl | rfl | rfl | rfl
  · exact slotTopic_eq_some htest
  · exact keyedTopic_eq_some htest
  · exact keyedTopic_eq_some htest
  · exact slotTopic_eq_some htest
  · exact slotTopic_eq_some htest
  · split_ifs at htest
    exact slotTopic_eq_some htest
  · exact slotTopic_eq_some htest
  · exact slotTopic_eq_some htest
  · exact keyedTopic_eq_some htest

theorem route_isSome (h : Holds api id topic)
    (hera : topic = .slot .eraAndSession → api.bestBlockNum ≠ -1) : (route api id).isSome := by
  have slot : ∀ kind, topic = .slot kind → (slotTopic api kind id).isSome := by
    rintro kind rfl
    simp [slotTopic, show (api.slot kind).id = id from h]
  have keyed : ∀ kind key, topic = .keyed kind key → (keyedTopic api kind id).isSome := by
    rintro kind key rfl
    exact keyedTopic_isSome h
  rw [route, List.findSome?_isSome_iff]
  cases topic with
  | slot kind =>
    have htopic := slot kind rfl
    cases kind with
    | eraAndSession =>
      refine ⟨slotTopic api .eraAndSession id, ?_, htopic⟩
      simp [tests, hera rfl]
    | _ => exact ⟨_, by simp [tests], htopic⟩
  | keyed kind key =>
    have htopic := keyed kind key rfl
    cases kind <;> exact ⟨_, by simp [tests], htopic⟩

theorem route_of_unique (h : Holds api id topic)
    (hera : topic = .slot .eraAndSession → api.bestBlockNum ≠ -1)
    (hunique : ∀ other, Holds api id other → other = topic) : route api id = some topic := by
  obtain ⟨other, hother⟩ := Option.isSome_iff_exists.1 (route_isSome h hera)
  rw [hother, hunique other (route_holds hother)]

theorem route_eq_none (h : ∀ topic, ¬ Holds api id topic) : route api id = none := by
  cases hr : route api id with
  | none => rfl
  | some topic => exact absurd (route_holds hr) (h topic)

theorem Holds.subscription (h : Holds api id topic) (hid : id ≠ 0) :
    subscription api topic = some id := by
  cases topic with
  | slot kind =>
    have hslot : (api.slot kind).id = id := h
    simp [SubscriptionFrames.subscription, hslot, hid]
  | keyed kind key => exact h

theorem holds_of_subscription (h : subscription api topic = some id) : Holds api id topic := by
  cases topic with
  | slot kind =>
    simp only [subscription] at h
    split_ifs at h
    exact Option.some.inj h
  | keyed kind key => exact h

end Routing

section Frames

variable {w w' w'' : World}

structure Handled (w w' : World) : Prop where
  api : w'.api = { w.api with bestBlockNum := w'.api.bestBlockNum, slot := w'.api.slot }
  slot : ∀ kind, w'.api.slot kind = w.api.slot kind ∨
    kind = .transactionCompletion ∧ w'.api.slot kind = ⟨none, 0⟩
  frames : w'.frames = w.frames
  running : w'.running = w.running
  answers : w'.answers = w.answers
  incoming : w'.incoming = w.incoming
  log : ∃ l, w'.log = w.log ++ l ∧ ∀ e ∈ l, e.isRequest = false

theorem Handled.refl (w : World) : Handled w w :=
  ⟨rfl, fun _ => Or.inl rfl, rfl, rfl, rfl, rfl, [], by simp⟩

theorem Handled.trans (h : Handled w w') (h' : Handled w' w'') : Handled w w'' := by
  obtain ⟨l, hl, hreq⟩ := h.log
  obtain ⟨l', hl', hreq'⟩ := h'.log
  refine ⟨?_, ?_, h'.frames.trans h.frames, h'.running.trans h.running,
    h'.answers.trans h.answers, h'.incoming.trans h.incoming, l ++ l', ?_, ?_⟩
  · rw [h'.api, h.api]
  · intro kind
    rcases h'.slot kind with hs | hs
    · rw [hs]
      exact h.slot kind
    · exact Or.inr hs
  · rw [hl', hl, List.append_assoc]
  · intro e he
    rcases List.mem_append.1 he with he | he
    · exact hreq e he
    · exact hreq' e he

theorem Handled.keyed (h : Handled w w') : w'.api.keyed = w.api.keyed := by
  rw [h.api]

theorem handled_record {e : Entry} (he : e.isRequest = false) : Handled w (w.record e) := by
  refine ⟨rfl, fun _ => Or.inl rfl, rfl, rfl, rfl, rfl, [e], rfl, ?_⟩
  intro x hx
  rw [List.mem_singleton.1 hx, he]

theorem call_eq_ok {payload : Payload} {callback : Callback} (h : call w payload callback = .ok w') :
    ∃ bestBlockNum nonce,
      w' = { w with api := { w.api with bestBlockNum := bestBlockNum }, nonce := nonce } := by
  cases callback with
  | client tag =>
    cases h
    exact ⟨w.api.bestBlockNum, w.nonce, rfl⟩
  | updateBestBlock =>
    simp only [call] at h
    split at h
    · next blockNum =>
      cases h
      exact ⟨blockNum, w.nonce, rfl⟩
    · cases h
      exact ⟨w.api.bestBlockNum, w.nonce, rfl⟩
  | recordNonce frame =>
    simp only [call] at h
    split_ifs at h
    split at h
    · next nonce =>
      cases h
      exact ⟨w.api.bestBlockNum, some nonce, rfl⟩
    · cases h
      exact ⟨w.api.bestBlockNum, w.nonce, rfl⟩

theorem call_handled {payload : Payload} {callback : Callback}
    (h : call w payload callback = .ok w') : Handled w w' := by
  obtain ⟨bestBlockNum, nonce, rfl⟩ := call_eq_ok h
  exact ⟨rfl, fun _ => Or.inl rfl, rfl, rfl, rfl, rfl, [], by simp⟩

theorem call_slot {payload : Payload} {callback : Callback}
    (h : call w payload callback = .ok w') : w'.api.slot = w.api.slot := by
  obtain ⟨bestBlockNum, nonce, rfl⟩ := call_eq_ok h
  rfl

theorem call_log {payload : Payload} {callback : Callback}
    (h : call w payload callback = .ok w') : w'.log = w.log := by
  obtain ⟨bestBlockNum, nonce, rfl⟩ := call_eq_ok h
  rfl

theorem invoke_eq_ok {id : ℤ} {payload : Payload} {subscriber : Option Callback}
    (h : invoke w id payload subscriber = .ok w') : ∃ callback w₁, subscriber = some callback ∧
      call w payload callback = .ok w₁ ∧ w' = w₁.record (.invoked id callback payload) := by
  cases subscriber with
  | none => cases h
  | some callback =>
    obtain ⟨w₁, hcall, h⟩ := StreamReader.except_bind_eq_ok h
    cases h
    exact ⟨callback, w₁, rfl, hcall, rfl⟩

theorem handled_complete (topic : Topic) (payload : Payload) :
    Handled w (w.update (complete topic payload)) := by
  unfold World.update complete
  split_ifs
  · refine ⟨rfl, ?_, rfl, rfl, rfl, rfl, [], by simp⟩
    intro kind
    by_cases hk : kind = .transactionCompletion
    · subst kind
      exact Or.inr ⟨rfl, setSlot_self⟩
    · exact Or.inl (setSlot_of_ne hk _)
  · exact .refl w

theorem handleWsMessage_eq_ok {id : ℤ} {message : Json} (h : handleWsMessage w id message = .ok w') :
    (w' = w.record (.handled id message) ∧
        ∀ topic, route w.api id = some topic → payload w.api topic message = .ok none) ∨
      ∃ topic p callback w₁, route w.api id = some topic ∧
        payload w.api topic message = .ok (some p) ∧ w.api.subscriber topic = some callback ∧
        call (w.record (.handled id message)) p callback = .ok w₁ ∧
        w' = (w₁.record (.invoked id callback p)).update (complete topic p) := by
  unfold handleWsMessage at h
  dsimp only at h
  split at h
  · next hroute =>
    cases h
    refine Or.inl ⟨rfl, ?_⟩
    intro topic htopic
    cases hroute.symm.trans htopic
  · next topic hroute =>
    unfold deliver at h
    split at h
    · cases h
    · next hp =>
      cases h
      refine Or.inl ⟨rfl, ?_⟩
      intro t ht
      cases hroute.symm.trans ht
      exact hp
    · next p hp =>
      obtain ⟨w₂, hinvoke, h⟩ := StreamReader.except_bind_eq_ok h
      obtain ⟨callback, w₁, hsub, hcall, rfl⟩ := invoke_eq_ok hinvoke
      cases h
      exact Or.inr ⟨topic, p, callback, w₁, hroute, hp, hsub, hcall, rfl⟩

theorem handleWsMessage_unrouted {id : ℤ} {message : Json} (h : route w.api id = none) :
    handleWsMessage w id message = .ok (w.record (.handled id message)) := by
  unfold handleWsMessage
  dsimp only
  rw [show route (w.record (.handled id message)).api id = none from h]

theorem handleWsMessage_invokes {id : ℤ} {message : Json} {topic : Topic} {p : Payload}
    {callback : Callback} {w₁ : World} (h : route w.api id = some topic)
    (hpayload : payload w.api topic message = .ok (some p))
    (hsubscriber : w.api.subscriber topic = some callback)
    (hcall : call (w.record (.handled id message)) p callback = .ok w₁) :
    handleWsMessage w id message =
      .ok ((w₁.record (.invoked id callback p)).update (complete topic p)) := by
  unfold handleWsMessage
  dsimp only
  rw [show route (w.record (.handled id message)).api id = some topic from h]
  dsimp only [deliver]
  rw [show payload (w.record (.handled id message)).api topic message = .ok (some p) from hpayload]
  dsimp only
  rw [show (w.record (.handled id message)).api.subscriber topic = some callback from hsubscriber]
  dsimp only [invoke]
  rw [hcall]
  rfl

theorem update_complete_of_ne {topic : Topic} (h : topic ≠ .slot .transactionCompletion)
    (p : Payload) : w.update (complete topic p) = w := by
  simp [World.update, complete, h]

theorem handleWsMessage_handled {id : ℤ} {message : Json}
    (h : handleWsMessage w id message = .ok w') : Handled w w' := by
  have hrecord : Handled w (w.record (.handled id message)) := handled_record rfl
  rcases handleWsMessage_eq_ok h with ⟨rfl, -⟩ | ⟨topic, p, callback, w₁, -, -, -, hcall, rfl⟩
  · exact hrecord
  · exact (hrecord.trans (call_handled hcall)).trans
      ((handled_record rfl).trans (handled_complete topic p))

theorem handleWsMessage_log {id : ℤ} {message : Json}
    (h : handleWsMessage w id message = .ok w') :
    w'.log = w.log ++ [.handled id message] ∨
      ∃ topic callback p, route w.api id = some topic ∧ w.api.subscriber topic = some callback ∧
        payload w.api topic message = .ok (some p) ∧
        w'.log = w.log ++ [.handled id message, .invoked id callback p] := by
  rcases handleWsMessage_eq_ok h with ⟨rfl, -⟩ | ⟨topic, p, callback, w₁, hr, hp, hs, hcall, rfl⟩
  · exact Or.inl rfl
  · refine Or.inr ⟨topic, callback, p, hr, hs, hp, ?_⟩
    rw [update_log, record_log, call_log hcall, record_log, List.append_assoc]
    rfl

theorem handleWsMessage_reports {id : ℤ} {message : Json} {topic : Topic}
    (hroute : route w.api id = some topic) (hreports : payload w.api topic message ≠ .ok none)
    (h : handleWsMessage w id message = .ok w') :
    ∃ callback p, payload w.api topic message = .ok (some p) ∧
      w'.log = w.log ++ [.handled id message, .invoked id callback p] := by
  rcases handleWsMessage_eq_ok h with ⟨-, hignored⟩ | ⟨_, p, callback, w₁, hr, hp, -, hcall, rfl⟩
  · exact absurd (hignored topic hroute) hreports
  · cases hroute.symm.trans hr
    refine ⟨callback, p, hp, ?_⟩
    rw [update_log, record_log, call_log hcall, record_log, List.append_assoc]
    rfl

theorem handleWsMessage_appends {id : ℤ} {message : Json}
    (h : handleWsMessage w id message = .ok w') :
    ∃ l, w'.log = w.log ++ .handled id message :: l ∧ ∀ e ∈ l, ∃ callback p, e = .invoked id callback p := by
  rcases handleWsMessage_log h with hlog | ⟨topic, callback, p, -, -, -, hlog⟩
  · exact ⟨[], hlog, by simp⟩
  · refine ⟨[.invoked id callback p], hlog, ?_⟩
    intro e he
    exact ⟨callback, p, List.mem_singleton.1 he⟩

def Final (message : Json) : Prop :=
  transactionStatus message = some (.status (lit "finalized"))

instance (message : Json) : Decidable (Final message) :=
  inferInstanceAs (Decidable (transactionStatus message = some (.status (lit "finalized"))))

/-- Only the final status of the transfer that is watched changes a single subscription. -/
theorem handleWsMessage_slot {id : ℤ} {message : Json}
    (h : handleWsMessage w id message = .ok w') :
    (w'.api.slot = w.api.slot ∧
        ¬ (route w.api id = some (.slot .transactionCompletion) ∧ Final message)) ∨
      route w.api id = some (.slot .transactionCompletion) ∧ Final message ∧
        w'.api.slot = Function.update w.api.slot .transactionCompletion ⟨none, 0⟩ := by
  rcases handleWsMessage_eq_ok h with ⟨rfl, hignored⟩ | ⟨topic, p, callback, w₁, hr, hp, -, hcall, rfl⟩
  · refine Or.inl ⟨rfl, ?_⟩
    intro hboth
    have hnone := Except.ok.inj (hignored _ hboth.1)
    rw [hboth.2] at hnone
    cases hnone
  · have hslot : w₁.api.slot = w.api.slot := by rw [call_slot hcall, record_api]
    by_cases hfinal : topic = .slot .transactionCompletion ∧ p = .status (lit "finalized")
    · obtain ⟨rfl, rfl⟩ := hfinal
      refine Or.inr ⟨hr, Except.ok.inj hp, ?_⟩
      rw [update_api, complete, if_pos ⟨rfl, rfl⟩, record_api]
      change Function.update w₁.api.slot _ _ = _
      rw [hslot]
    · refine Or.inl ⟨?_, ?_⟩
      · rw [update_api, complete, if_neg hfinal]
        exact hslot
      · intro hboth
        cases hr.symm.trans hboth.1
        have hstatus : transactionStatus message = some p := Except.ok.inj hp
        rw [hboth.2] at hstatus
        exact hfinal ⟨rfl, (Option.some.inj hstatus).symm⟩

/-- The induction rule for the notifications handled during a call. -/
theorem handleAll_induction {I : World → Prop}
    (hstep : ∀ w w' id message, I w → handleWsMessage w id message = .ok w' → I w')
    {notifications : List (ℤ × Json)} (hw : I w) (h : handleAll w notifications = .ok w') :
    I w' := by
  induction notifications generalizing w with
  | nil =>
    cases h
    exact hw
  | cons n rest ih =>
    obtain ⟨w₁, hhandle, h⟩ := StreamReader.except_bind_eq_ok h
    exact ih (hstep w w₁ n.1 n.2 hw hhandle) h

theorem run_meanwhile_ok {notifications : List (ℤ × Json)}
    (h : handleAll w notifications = .ok w') : (meanwhile notifications).run w = .ok () w' := by
  simp [EStateM.run, meanwhile, h]

theorem run_meanwhile_error {notifications : List (ℤ × Json)} {halt : Halt}
    (h : handleAll w notifications = .error halt) :
    (meanwhile notifications).run w = .error halt w := by
  simp [EStateM.run, meanwhile, h]

theorem Handled.subscription_none {topic : Topic} (h : Handled w w')
    (hs : subscription w.api topic = none) : subscription w'.api topic = none := by
  cases topic with
  | slot kind =>
    rcases h.slot kind with hk | hk
    · simpa only [subscription, hk] using hs
    · simp [subscription, hk.2]
  | keyed kind key => simpa only [subscription, h.keyed] using hs

theorem Handled.subscription_eq {topic : Topic} (h : Handled w w')
    (htopic : topic ≠ .slot .transactionCompletion) :
    subscription w'.api topic = subscription w.api topic := by
  cases topic with
  | slot kind =>
    rcases h.slot kind with hk | hk
    · simp only [subscription, hk]
    · exact absurd (by rw [hk.1]) htopic
  | keyed kind key => simp only [subscription, h.keyed]

theorem Handled.subscription_of_some {topic : Topic} {id : ℤ} (h : Handled w w')
    (hid : subscription w'.api topic = some id) : subscription w.api topic = some id := by
  by_cases htopic : topic = .slot .transactionCompletion
  · subst topic
    rcases h.slot .transactionCompletion with hs | hs
    · rw [← hid]
      simp only [subscription, hs]
    · simp [subscription, hs.2] at hid
  · rw [← hid, h.subscription_eq htopic]

theorem Handled.subscriber_eq {topic : Topic} (h : Handled w w')
    (htopic : topic ≠ .slot .transactionCompletion) :
    w'.api.subscriber topic = w.api.subscriber topic := by
  cases topic with
  | slot kind =>
    rcases h.slot kind with hk | hk
    · simp only [Api.subscriber, hk]
    · exact absurd (by rw [hk.1]) htopic
  | keyed kind key => simp only [Api.subscriber, h.keyed]

theorem invoke_error {id : ℤ} {payload : Payload} {subscriber : Option Callback} {halt : Halt}
    (h : invoke w id payload subscriber = .error halt) (e : Exception) : halt ≠ .thrown e := by
  cases subscriber with
  | none =>
    cases h
    simp
  | some callback =>
    cases callback with
    | client tag => cases h
    | updateBestBlock => cases payload <;> cases h
    | recordNonce frame =>
      by_cases hrun : w.running = some frame
      · cases payload <;> simp [invoke, call, hrun] at h
      · have hcall : call w payload (.recordNonce frame) = .error .undefined := by
          simp [call, hrun]
        rw [invoke, hcall] at h
        cases h
        simp

theorem handleWsMessage_error {id : ℤ} {message : Json} {halt : Halt}
    (h : handleWsMessage w id message = .error halt) (e : Exception) : halt ≠ .thrown e := by
  unfold handleWsMessage at h
  dsimp only at h
  split at h
  · cases h
  · next topic hroute =>
    unfold deliver at h
    split at h
    · next fault _ =>
      cases h
      cases fault <;> simp [uncaught]
    · cases h
    · next p hp =>
      cases hi : invoke (w.record (.handled id message)) id p
          ((w.record (.handled id message)).api.subscriber topic) with
      | ok w' =>
        rw [hi] at h
        cases h
      | error halt' =>
        rw [hi] at h
        cases h
        exact invoke_error hi e

end Frames

end PolkadotApi.SubscriptionFrames
