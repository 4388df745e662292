import PolkadotApi.SubscriptionFrames

set_option autoImplicit false

namespace PolkadotApi.CallSpecifications
open StatefulActions MachineModel JsonValues ExtrinsicSubmission StorageKeys Subscriptions
open SubscriptionFrames

section Quiet

def Steady (I : World → Prop) : Prop :=
  ∀ w w' id message, I w → handleWsMessage w id message = .ok w' → I w'

structure Quiet (I : World → Prop) : Prop where
  popped : ∀ w, I w → I w.popped
  handle : Steady I

variable {I J P : World → Prop}

theorem Quiet.and (hI : Quiet I) (hJ : Quiet J) : Quiet fun w => I w ∧ J w :=
  ⟨fun w h => ⟨hI.popped w h.1, hJ.popped w h.2⟩,
    fun w w' id m h hh => ⟨hI.handle w w' id m h.1 hh, hJ.handle w w' id m h.2 hh⟩⟩

theorem true_quiet : Quiet fun _ => True := ⟨fun _ _ => trivial, fun _ _ _ _ _ _ => trivial⟩

theorem quiet_closed (topic : Topic) : Quiet fun w => subscription w.api topic = none :=
  ⟨fun _ h => h, fun _ _ _ _ h hh => (handleWsMessage_handled hh).subscription_none h⟩

theorem quiet_open {topic : Topic} (htopic : topic ≠ .slot .transactionCompletion) (id : ℤ) :
    Quiet fun w => subscription w.api topic = some id :=
  ⟨fun _ h => h, fun _ _ _ _ h hh => by
    rw [(handleWsMessage_handled hh).subscription_eq htopic]
    exact h⟩

theorem quiet_view {F : Option ℤ → Option Callback → Prop} {topic : Topic}
    (htopic : topic ≠ .slot .transactionCompletion) :
    Quiet fun w => F (subscription w.api topic) (w.api.subscriber topic) := by
  refine ⟨fun _ h => h, ?_⟩
  intro w w' id message h hhandle
  have hh := handleWsMessage_handled hhandle
  rw [hh.subscription_eq htopic, hh.subscriber_eq htopic]
  exact h

theorem handleAll_error {w : World} {notifications : List (ℤ × Json)} {halt : Halt}
    (h : handleAll w notifications = .error halt) (e : Exception) : halt ≠ .thrown e := by
  induction notifications generalizing w with
  | nil => cases h
  | cons n rest ih =>
    rw [handleAll] at h
    cases hw : handleWsMessage w n.1 n.2 with
    | ok w' =>
      rw [hw] at h
      exact ih h
    | error halt' =>
      rw [hw] at h
      cases h
      exact handleWsMessage_error hw e

theorem meanwhile_triple (hI : Steady I) (notifications : List (ℤ × Json)) :
    Triple I (meanwhile notifications) (fun _ => I) fun halt w => I w ∧ ∀ e, halt ≠ .thrown e := by
  intro w hw
  cases h : handleAll w notifications with
  | ok w' =>
    rw [run_meanwhile_ok h]
    exact handleAll_induction hI hw h
  | error halt =>
    rw [run_meanwhile_error h]
    exact ⟨hw, handleAll_error h⟩

/-- The answer is one that the environment gives in a state with `I`. -/
def Replied (I : World → Prop) (json : Json) : Prop := ∃ w, I w ∧ w.answer.reply = .ok json

def Refused (I : World → Prop) (halt : Halt) : Prop :=
  ∀ e, halt = .thrown e → ∃ w, I w ∧ w.answer.reply = .error e

theorem request_triple (hpopped : ∀ w, P w → I w.popped) (hI : Steady I) (entry : Json → Entry) :
    Triple P (request entry)
      (fun json w' => Replied P json ∧ ∃ w, I w ∧ w' = w.record (entry json))
      fun halt w' => I w' ∧ Refused P halt := by
  apply Triple.bind (Q := fun answer w => I w ∧ ∃ w₀, P w₀ ∧ w₀.answer = answer)
  · intro w hw
    exact ⟨hpopped w hw, w, hw, rfl⟩
  intro answer
  apply Triple.bind (Q := fun _ w => I w ∧ ∃ w₀, P w₀ ∧ w₀.answer = answer)
  · rintro w ⟨hw, hanswer⟩
    have h := meanwhile_triple hI answer.during w hw
    cases hr : (meanwhile answer.during).run w with
    | ok _ t =>
      rw [hr] at h
      exact ⟨h, hanswer⟩
    | error halt t =>
      rw [hr] at h
      exact ⟨h.1, fun e he => absurd he (h.2 e)⟩
  intro _
  rintro w ⟨hw, w₀, hw₀, rfl⟩
  cases hreply : w₀.answer.reply with
  | error e =>
    refine ⟨hw, ?_⟩
    intro e' he
    cases he
    exact ⟨w₀, hw₀, hreply⟩
  | ok json => exact ⟨⟨w₀, hw₀, hreply⟩, w, hw, rfl⟩

theorem Quiet.request (hI : Quiet I) (entry : Json → Entry) :
    Triple I (Subscriptions.request entry)
      (fun json w' => Replied I json ∧ ∃ w, I w ∧ w' = w.record (entry json))
      fun halt w' => I w' ∧ Refused I halt :=
  request_triple hI.popped hI.handle entry

theorem subscribeWs_triple (hI : Quiet I) (topic : Topic) (q : Json) :
    Triple I (subscribeWs topic q)
      (fun id w' => ∃ json, Replied I json ∧ id = json.intValue ∧
        ∃ w, I w ∧ w' = w.record (.subscribed topic q id))
      fun halt w' => I w' ∧ Refused I halt := by
  apply (hI.request _).bind
  intro json
  apply triple_pure
  rintro w' ⟨hreply, w, hw, rfl⟩
  exact ⟨json, hreply, rfl, w, hw, rfl⟩

theorem unsubscribeWs_triple (hI : Quiet I) {id : ℤ} (hid : id ≠ 0) (method : String) :
    Triple I (unsubscribeWs id method)
      (fun _ w' => ∃ w, I w ∧ w' = w.record (.unsubscribed id (lit method)))
      fun halt w' => I w' ∧ Refused I halt := by
  rw [unsubscribeWs, if_neg hid]
  apply (hI.request _).bind
  intro json
  apply triple_pure
  rintro w' ⟨-, hw⟩
  exact hw

/-- A new subscription was made for the topic; a key has its entry, with the id 0, before. -/
def Answered (I : World → Prop) (topic : Topic) (w' : World) : Prop :=
  ∃ w q json, I w ∧ (subscription w.api topic).getD 0 = 0 ∧ Replied I json ∧
    w' = (w.record (.subscribed topic q json.intValue)).update (setSubscription topic json.intValue)

def Opened (I : World → Prop) (topic : Topic) (w' : World) : Prop :=
  I w' ∧ subscription w'.api topic ≠ none ∨ Answered I topic w'

def Released (I : World → Prop) (topic : Topic) (w' : World) : Prop :=
  I w' ∧ subscription w'.api topic = none ∨
    (∃ w id method, I w ∧ id ≠ 0 ∧ subscription w.api topic = some id ∧
      w' = (w.record (.unsubscribed id method)).update (release topic)) ∨
    ∃ w, I w ∧ subscription w.api topic = some 0 ∧ w' = w.update (release topic)

theorem quiet_unanswered (topic : Topic) :
    Quiet fun w => (subscription w.api topic).getD 0 = 0 := by
  refine ⟨fun _ h => h, ?_⟩
  intro w w' id message h hhandle
  have hh := handleWsMessage_handled hhandle
  cases hsub : subscription w'.api topic with
  | none => rfl
  | some id =>
    rw [hh.subscription_of_some hsub] at h
    exact h

theorem subscribe_closed_triple (hI : Quiet I) (topic : Topic) (q : Json) :
    Triple (fun w => I w ∧ (subscription w.api topic).getD 0 = 0)
      (do
        let id ← subscribeWs topic q
        update (setSubscription topic id))
      (fun _ => Answered I topic) fun halt w' => I w' ∧ Refused I halt := by
  have hquiet := hI.and (quiet_unanswered topic)
  apply Triple.bind
  · apply (subscribeWs_triple hquiet topic q).post
    · intro id w hw
      exact hw
    · rintro halt w ⟨hw, hrefused⟩
      refine ⟨hw.1, ?_⟩
      intro e he
      obtain ⟨w₀, hw₀, hreply⟩ := hrefused e he
      exact ⟨w₀, hw₀.1, hreply⟩
  · intro id
    apply triple_modify
    rintro w' ⟨json, ⟨w₀, hw₀, hreply⟩, rfl, w, hw, rfl⟩
    exact ⟨w, q, json, hw.1, hw.2, ⟨w₀, hw₀.1, hreply⟩, rfl⟩

theorem openSlot_triple (hI : Quiet I) (kind : SlotKind) (q : Api → Json) :
    Triple I (openSlot kind q) (fun _ => Opened I (.slot kind))
      fun halt w' => I w' ∧ Refused I halt := by
  apply triple_get_bind
  intro w hw
  by_cases hid : (w.api.slot kind).id = 0
  · rw [if_pos hid]
    have hclosed := subscribe_closed_triple hI (.slot kind) (q w.api)
    apply (hclosed.post (fun _ _ h => Or.inr h) fun _ _ h => h).pre
    rintro w' rfl
    exact ⟨hw, by simp [subscription, hid]⟩
  · rw [if_neg hid]
    apply triple_pure
    rintro w' rfl
    exact Or.inl ⟨hw, by simp [subscription, hid]⟩

theorem subscribeSlot_triple (hI : Quiet I) {kind : SlotKind} {q : Api → Json} {callback : Callback}
    (hset : ∀ w, P w → I (w.update (setCallback (.slot kind) callback))) :
    Triple P (subscribeSlot kind q callback) (fun _ => Opened I (.slot kind))
      fun halt w' => I w' ∧ Refused I halt := by
  apply Triple.bind (Q := fun _ => I)
  · apply triple_modify
    exact hset
  · intro _
    apply (openSlot_triple hI kind q).bind
    intro _
    exact triple_pure fun _ h => h

theorem triple_liftResult {α : Type} {Q : α → World → Prop} {R : Halt → World → Prop} {r : Result α}
    (hok : ∀ a w, r = .ok a → P w → Q a w)
    (herror : ∀ halt w, (∀ a, r ≠ .ok a) → P w → R halt w) : Triple P (liftResult r) Q R := by
  intro w hw
  cases r with
  | ok a => exact hok a w rfl hw
  | error fault => cases fault <;> exact herror _ w (by simp) hw

/-- Why a call on a key throws: the request fails, or the storage key cannot be computed. -/
def KeyRefused (I : World → Prop) (topic : Topic) (storageKey : Api → Result Str) (halt : Halt) :
    Prop :=
  ∀ e, halt = .thrown e → (∃ w, I w ∧ w.answer.reply = .error e) ∨
    ∃ w, I w ∧ subscription w.api topic = none ∧ storageKey w.api = .error (.thrown e)

/-- The entry that `operator[]` makes for a new key does not matter. -/
def IgnoresEntry (I : World → Prop) (topic : Topic) : Prop :=
  ∀ w, I w → subscription w.api topic = none → I (w.update (setSubscription topic 0))

variable {kind : KeyedKind} {key : Str} {callback : Callback}

theorem openKeyed_new_triple (hI : Quiet I) (hentry : IgnoresEntry I (.keyed kind key))
    (storageKey : Api → Result Str) :
    Triple (fun w => I w ∧ subscription w.api (.keyed kind key) = none)
      (openKeyed kind storageKey key) (fun _ => Answered I (.keyed kind key))
      fun halt w' => I w' ∧ KeyRefused I (.keyed kind key) storageKey halt := by
  apply triple_get_bind
  rintro w ⟨hw, hid⟩
  rw [if_pos (show (w.api.keyed kind).ids[key]? = none from hid)]
  apply Triple.bind (Q := fun _ w' => I w' ∧ subscription w'.api (.keyed kind key) = none)
  · rintro w' rfl
    cases hkey : storageKey w'.api with
    | ok text => exact ⟨hw, hid⟩
    | error fault =>
      cases fault with
      | undefined => exact ⟨hw, fun e he => by cases he⟩
      | thrown e =>
        refine ⟨hw, ?_⟩
        intro e' he
        cases he
        exact Or.inr ⟨w', hw, hid, hkey⟩
  intro text
  apply Triple.bind (Q := fun _ w' => I w' ∧ (subscription w'.api (.keyed kind key)).getD 0 = 0)
  · apply triple_modify
    rintro w' ⟨hw', hnone⟩
    have hzero : subscription (setSubscription (.keyed kind key) 0 w'.api) (.keyed kind key) =
        some 0 := subscription_entry
    exact ⟨hentry w' hw' hnone, congrArg (Option.getD · 0) hzero⟩
  intro _
  apply (subscribe_closed_triple hI (.keyed kind key) _).post
  · intro _ w' h
    exact h
  · rintro halt w' ⟨hw', hrefused⟩
    exact ⟨hw', fun e he => Or.inl (hrefused e he)⟩

theorem openKeyed_open_triple (storageKey : Api → Result Str) :
    Triple (fun w => I w ∧ subscription w.api (.keyed kind key) ≠ none)
      (openKeyed kind storageKey key)
      (fun _ w => I w ∧ subscription w.api (.keyed kind key) ≠ none) fun _ _ => False := by
  apply triple_get_bind
  intro w hw
  rw [if_neg (show ¬ (w.api.keyed kind).ids[key]? = none from hw.2)]
  apply triple_pure
  rintro _ rfl
  exact hw

theorem openKeyed_triple (hI : Quiet I) (hentry : IgnoresEntry I (.keyed kind key))
    (storageKey : Api → Result Str) :
    Triple I (openKeyed kind storageKey key) (fun _ => Opened I (.keyed kind key))
      fun halt w' => I w' ∧ KeyRefused I (.keyed kind key) storageKey halt := by
  intro w hw
  by_cases hid : subscription w.api (.keyed kind key) = none
  · have hnew := openKeyed_new_triple hI hentry storageKey
    exact hnew.post (fun _ _ h => Or.inr h) (fun _ _ h => h) w ⟨hw, hid⟩
  · apply (openKeyed_open_triple storageKey).post ?_ ?_ w ⟨hw, hid⟩
    · intro _ w' h
      exact Or.inl h
    · intro halt w' h
      exact h.elim

theorem subscribeKeyed_triple (hI : Quiet I) {storageKey : Api → Result Str}
    (hentry : IgnoresEntry I (.keyed kind key))
    (hset : ∀ w, P w → I (w.update (setCallback (.keyed kind key) callback))) :
    Triple P (subscribeKeyed kind storageKey key callback) (fun _ => Opened I (.keyed kind key))
      fun halt w' => I w' ∧ KeyRefused I (.keyed kind key) storageKey halt := by
  apply Triple.bind (Q := fun _ => I)
  · apply triple_modify
    exact hset
  · intro _
    apply (openKeyed_triple hI hentry storageKey).bind
    intro _
    exact triple_pure fun _ h => h

theorem subscribeKeyed_new_triple (hI : Quiet I) {storageKey : Api → Result Str}
    (hentry : IgnoresEntry I (.keyed kind key))
    (hset : ∀ w, P w → I (w.update (setCallback (.keyed kind key) callback))) :
    Triple (fun w => P w ∧ subscription w.api (.keyed kind key) = none)
      (subscribeKeyed kind storageKey key callback) (fun _ => Answered I (.keyed kind key))
      fun halt w' => I w' ∧ KeyRefused I (.keyed kind key) storageKey halt := by
  apply Triple.bind (Q := fun _ w => I w ∧ subscription w.api (.keyed kind key) = none)
  · apply triple_modify
    rintro w ⟨hw, hnone⟩
    have hsame : subscription (setCallback (.keyed kind key) callback w.api) (.keyed kind key) =
        subscription w.api (.keyed kind key) := subscription_setCallback
    exact ⟨hset w hw, hsame.trans hnone⟩
  · intro _
    apply (openKeyed_new_triple hI hentry storageKey).bind
    intro _
    exact triple_pure fun _ h => h

theorem subscribeKeyed_open_triple {storageKey : Api → Result Str}
    (hset : ∀ w, P w → I (w.update (setCallback (.keyed kind key) callback))) :
    Triple (fun w => P w ∧ subscription w.api (.keyed kind key) ≠ none)
      (subscribeKeyed kind storageKey key callback)
      (fun _ w => I w ∧ subscription w.api (.keyed kind key) ≠ none) fun _ _ => False := by
  apply Triple.bind (Q := fun _ w => I w ∧ subscription w.api (.keyed kind key) ≠ none)
  · apply triple_modify
    rintro w ⟨hw, hopen⟩
    have hsame : subscription (setCallback (.keyed kind key) callback w.api) (.keyed kind key) =
        subscription w.api (.keyed kind key) := subscription_setCallback
    exact ⟨hset w hw, fun hnone => hopen (hsame.symm.trans hnone)⟩
  · intro _
    apply (openKeyed_open_triple storageKey).bind
    intro _
    exact triple_pure fun _ h => h

theorem unsubscribe_open_triple (hI : Quiet I) {topic : Topic}
    (htopic : topic ≠ .slot .transactionCompletion) {id : ℤ} (hid : id ≠ 0) (method : String) :
    Triple (fun w => I w ∧ subscription w.api topic = some id)
      (do
        unsubscribeWs id method
        update (release topic))
      (fun _ => Released I topic) fun halt w' => I w' ∧ Refused I halt := by
  have hquiet := hI.and (quiet_open htopic id)
  apply Triple.bind
  · apply (unsubscribeWs_triple hquiet hid method).post
    · intro _ w hw
      exact hw
    · rintro halt w ⟨hw, hrefused⟩
      refine ⟨hw.1, ?_⟩
      intro e he
      obtain ⟨w₀, hw₀, hreply⟩ := hrefused e he
      exact ⟨w₀, hw₀.1, hreply⟩
  · intro _
    apply triple_modify
    rintro w' ⟨w, hw, rfl⟩
    exact Or.inr (Or.inl ⟨w, id, lit method, hw.1, hid, hw.2, rfl⟩)

theorem closeSlot_triple (hI : Quiet I) {kind : SlotKind} (hk : kind ≠ .transactionCompletion)
    (method : String) :
    Triple I (closeSlot kind method) (fun _ => Released I (.slot kind))
      fun halt w' => I w' ∧ Refused I halt := by
  apply triple_get_bind
  intro w hw
  by_cases hid : (w.api.slot kind).id ≠ 0
  · rw [if_pos hid]
    have htopic : Topic.slot kind ≠ .slot .transactionCompletion := fun h => hk (Topic.slot.inj h)
    apply (unsubscribe_open_triple hI htopic hid method).pre
    rintro w' rfl
    exact ⟨hw, by simp [subscription, hid]⟩
  · rw [if_neg hid]
    apply triple_pure
    rintro w' rfl
    exact Or.inl ⟨hw, by simpa [subscription] using hid⟩

theorem unsubscribeSlot_triple (hI : Quiet I) {kind : SlotKind} (hk : kind ≠ .transactionCompletion)
    (method : String) :
    Triple I (unsubscribeSlot kind method) (fun _ => Released I (.slot kind))
      fun halt w' => I w' ∧ Refused I halt := by
  apply (closeSlot_triple hI hk method).bind
  intro _
  exact triple_pure fun _ h => h

theorem closeKeyed_triple (hI : Quiet I) (kind : KeyedKind) (key : Str) :
    Triple I (closeKeyed kind key) (fun _ => Released I (.keyed kind key))
      fun halt w' => I w' ∧ Refused I halt := by
  apply triple_get_bind
  intro w hw
  cases hid : (w.api.keyed kind).ids[key]? with
  | none =>
    apply triple_pure
    rintro w' rfl
    exact Or.inl ⟨hw, hid⟩
  | some id =>
    by_cases hzero : id = 0
    · subst id
      rintro w' rfl
      exact Or.inr (Or.inr ⟨w', hw, hid, rfl⟩)
    · have htopic : Topic.keyed kind key ≠ .slot .transactionCompletion := by simp
      have h := unsubscribe_open_triple hI htopic hzero "state_unsubscribeStorage"
      apply h.pre
      rintro w' rfl
      exact ⟨hw, hid⟩

theorem unsubscribeKeyed_triple (hI : Quiet I) (kind : KeyedKind) (key : Str) :
    Triple I (unsubscribeKeyed kind key) (fun _ => Released I (.keyed kind key))
      fun halt w' => I w' ∧ Refused I halt := by
  apply (closeKeyed_triple hI kind key).bind
  intro _
  exact triple_pure fun _ h => h

def Watched (I : World → Prop) (kind : SlotKind) (w' : World) : Prop :=
  ∃ w q json, I w ∧ Replied I json ∧
    w' = (w.record (.subscribed (.slot kind) q json.intValue)).update
      (setSubscription (.slot kind) json.intValue)

theorem watchExtrinsic_triple (hI : Quiet I) {kind : SlotKind} {submission : Submission}
    {callback : Callback} (hset : ∀ w, P w → I (w.update (setCallback (.slot kind) callback))) :
    Triple P (watchExtrinsic kind submission callback) (fun _ => Watched I kind)
      fun halt w' => I w' ∧ Refused I halt := by
  apply Triple.bind (Q := fun _ => I)
  · apply triple_modify
    exact hset
  · intro _
    apply (subscribeWs_triple hI (.slot kind) (extrinsicQuery submission)).bind
    intro id
    apply triple_modify
    rintro w' ⟨json, hreply, rfl, w, hw, rfl⟩
    exact ⟨w, _, json, hw, hreply, rfl⟩

end Quiet

end PolkadotApi.CallSpecifications
