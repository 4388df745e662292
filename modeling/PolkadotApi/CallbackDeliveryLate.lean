import PolkadotApi.SubscriptionLedger

set_option autoImplicit false

namespace PolkadotApi.CallbackDelivery
open StatefulActions MachineModel JsonValues ExtrinsicSubmission StorageKeys Notifications
open Subscriptions SubscriptionFrames CallSpecifications Connection ObjectRuns StepRuns
open SubscriptionLedger AddressRoundTrip

section Transcripts

variable {id i : ℤ} {log log' : List Entry} {message : Json} {callback : Callback} {p : Payload}

def notices (id : ℤ) (log : List Entry) : List Json :=
  log.filterMap fun
    | .handled i message => if i = id then some message else none
    | _ => none

def calls (id : ℤ) (log : List Entry) : List (Callback × Payload) :=
  log.filterMap fun
    | .invoked i callback p => if i = id then some (callback, p) else none
    | _ => none

def messages (id : ℤ) (arriving : List (ℤ × Json)) : List Json :=
  arriving.filterMap fun n => if n.1 = id then some n.2 else none

/-- Every notification has its call of the function, in their order. -/
def Delivered (id : ℤ) (callback : Callback) (log : List Entry) : Prop :=
  List.Forall₂ (fun _ c => c.1 = callback) (notices id log) (calls id log)

theorem notices_append : notices id (log ++ log') = notices id log ++ notices id log' :=
  List.filterMap_append

theorem calls_append : calls id (log ++ log') = calls id log ++ calls id log' :=
  List.filterMap_append

theorem calls_eq_nil (h : ∀ callback p, .invoked id callback p ∉ log) : calls id log = [] := by
  unfold calls
  rw [List.filterMap_eq_nil_iff]
  intro e he
  cases e with
  | invoked i callback p =>
    have hne : i ≠ id := by
      intro heq
      subst heq
      exact h callback p he
    simp [hne]
  | _ => rfl

/-- All calls are of one function, so only their number matters. -/
theorem delivered_iff (h : ∀ c ∈ calls id log, c.1 = callback) :
    Delivered id callback log ↔ (notices id log).length = (calls id log).length := by
  unfold Delivered
  rw [List.forall₂_iff_zip]
  constructor
  · intro hboth
    exact hboth.1
  · intro hlength
    refine ⟨hlength, ?_⟩
    intro a b hab
    exact h b (List.of_mem_zip hab).2

end Transcripts

section Late

variable {id i : ℤ} {w w' : World} {topic : Topic} {callback : Callback} {message : Json}

/-- The topic is open with the id and the function, and no other topic has the id. -/
structure Watching (topic : Topic) (id : ℤ) (callback : Callback) (w : World) : Prop where
  ledger : Ledger (fun _ => True) w
  fresh : Fresh w.log
  ne_zero : id ≠ 0
  opened : subscription w.api topic = some id
  subscriber : w.api.subscriber topic = some callback

structure Gone (id : ℤ) (w : World) : Prop where
  ne_zero : id ≠ 0
  unheld : ∀ topic, subscription w.api topic ≠ some id

theorem fresh_of_handle (hhandle : handleWsMessage w i message = .ok w') (h : Fresh w.log) :
    Fresh w'.log := by
  obtain ⟨l, hlog, hl⟩ := (handleWsMessage_handled hhandle).log
  have hids : subscribedIds w'.log = subscribedIds w.log := by
    rw [hlog, subscribedIds_append, subscribedIds_handled hl, List.append_nil]
  exact ⟨by rw [hids]; exact h.nodup, by rw [hids]; exact h.nonzero⟩

theorem ledger_of_handle (hhandle : handleWsMessage w i message = .ok w')
    (h : Ledger (fun _ => True) w) (hfresh : Fresh w.log) : Ledger (fun _ => True) w' :=
  accounted_quiet.handle w w' i message (fun _ => h) hhandle (fresh_of_handle hhandle hfresh)

theorem Gone.handle (h : Gone id w) (hhandle : handleWsMessage w i message = .ok w') : Gone id w' :=
  ⟨h.ne_zero, fun topic htopic => h.unheld topic ((handleWsMessage_handled hhandle).subscription_of_some htopic)⟩

theorem Gone.route (h : Gone id w) : route w.api id = none := by
  apply route_eq_none
  intro topic hholds
  exact h.unheld topic (hholds.subscription h.ne_zero)

theorem Watching.handle_ne (h : Watching topic id callback w) (hne : i ≠ id)
    (hhandle : handleWsMessage w i message = .ok w') : Watching topic id callback w' := by
  have hh := handleWsMessage_handled hhandle
  have hview : subscription w'.api topic = subscription w.api topic ∧
      w'.api.subscriber topic = w.api.subscriber topic := by
    by_cases htopic : topic = transfer
    · subst topic
      rcases handleWsMessage_slot hhandle with ⟨hslot, -⟩ | ⟨hroute, -, -⟩
      · simp only [subscription, Api.subscriber, hslot, and_self]
      · have hi : (w.api.slot .transactionCompletion).id = i := route_holds hroute
        have hid : (w.api.slot .transactionCompletion).id = id := holds_of_subscription h.opened
        exact absurd (hi.symm.trans hid) hne
    · exact ⟨hh.subscription_eq htopic, hh.subscriber_eq htopic⟩
  exact ⟨ledger_of_handle hhandle h.ledger h.fresh, fresh_of_handle hhandle h.fresh, h.ne_zero,
    hview.1.trans h.opened, hview.2.trans h.subscriber⟩

theorem Watching.route (h : Watching topic id callback w) (hera : topic ≠ .slot .eraAndSession) :
    route w.api id = some topic :=
  h.ledger.route_eq h.fresh h.ne_zero h.opened fun htopic => absurd htopic hera

/-- Only the status of a transfer may go unreported, the era apart. -/
theorem payload_eq_none {api : Api} (h : payload api topic message = .ok none)
    (hera : topic ≠ .slot .eraAndSession) :
    topic = transfer ∧ transactionStatus message = none := by
  have hsome : ∀ {α : Type} (r : Result α) (f : α → Payload), r.map (fun a => some (f a)) ≠ .ok none := by
    intro α r f heq
    cases r <;> cases heq
  cases topic with
  | slot kind =>
    cases kind with
    | blockNumber => exact absurd h (hsome (newHead message) fun p => p)
    | eraAndSession => exact absurd rfl hera
    | transactionCompletion => exact ⟨rfl, Except.ok.inj h⟩
    | finalizedBlock => exact absurd h (hsome (decodeBlockHeader message) Payload.finalizedBlock)
    | runtimeVersion => exact absurd h (hsome (createRuntimeVersion message) Payload.runtimeVersion)
    | subcribeExtrinsic => cases h
  | keyed kind key =>
    cases kind with
    | accountNonce => exact absurd h (hsome (nonceUpdate message) fun p => p)
    | balance => exact absurd h (hsome (balanceUpdate message) fun p => p)
    | storage => cases h

/-- A message for the id: the function is called, and the final status of a transfer
ends the subscription; or it is a status that is not reported. -/
theorem Watching.handle_self (h : Watching topic id callback w)
    (hera : topic ≠ .slot .eraAndSession) (hhandle : handleWsMessage w id message = .ok w') :
    (∃ p, w'.log = w.log ++ [.handled id message, .invoked id callback p] ∧
        (topic = transfer → transactionStatus message = some p) ∧
        ((¬ (topic = transfer ∧ Final message) ∧ Watching topic id callback w') ∨
          topic = transfer ∧ Final message ∧ Gone id w')) ∨
      w'.log = w.log ++ [.handled id message] ∧ topic = transfer ∧
        transactionStatus message = none ∧ Watching topic id callback w' := by
  have hroute := h.route hera
  have hledger := ledger_of_handle hhandle h.ledger h.fresh
  have hfresh := fresh_of_handle hhandle h.fresh
  rcases handleWsMessage_eq_ok hhandle with ⟨rfl, hignored⟩ | ⟨t, p, f, w₁, hr, hp, hs, hcall, rfl⟩
  · have hnone := payload_eq_none (hignored topic hroute) hera
    exact Or.inr ⟨rfl, hnone.1, hnone.2, hledger, hfresh, h.ne_zero, h.opened, h.subscriber⟩
  · cases hr.symm.trans hroute
    cases hs.symm.trans h.subscriber
    refine Or.inl ⟨p, ?_, ?_, ?_⟩
    · rw [update_log, record_log, call_log hcall, record_log, List.append_assoc]
      rfl
    · intro htopic
      subst htopic
      exact Except.ok.inj hp
    · rcases handleWsMessage_slot hhandle with ⟨hslot, hnot⟩ | ⟨hroute', hfinal, hslot⟩
      · left
        refine ⟨fun hboth => hnot ⟨by rw [hroute, hboth.1], hboth.2⟩, hledger, hfresh, h.ne_zero,
          ?_, ?_⟩
        · rw [← h.opened]
          exact subscription_congr hslot (handleWsMessage_handled hhandle).keyed
        · rw [← h.subscriber]
          cases topic with
          | slot kind => simp only [Api.subscriber, hslot]
          | keyed kind key => simp only [Api.subscriber, (handleWsMessage_handled hhandle).keyed]
      · right
        cases hroute.symm.trans hroute'
        refine ⟨rfl, hfinal, ?_⟩
        refine ⟨h.ne_zero, ?_⟩
        intro t ht
        have hold := (handleWsMessage_handled hhandle).subscription_of_some ht
        cases h.ledger.unique h.fresh trivial trivial h.ne_zero hold h.opened
        simp only [subscription, hslot, Function.update_self, if_true] at ht
        cases ht

/-- What the notifications handled for an id add to the log. -/
structure Heard (id : ℤ) (callback : Callback) (arrived : List Json) (l : List Entry) : Prop where
  notices_eq : notices id l = arrived
  callback_eq : ∀ c ∈ calls id l, c.1 = callback
  length_le : (calls id l).length ≤ arrived.length

theorem Heard.append {a b : List Json} {l l' : List Entry} (h : Heard id callback a l)
    (h' : Heard id callback b l') : Heard id callback (a ++ b) (l ++ l') := by
  constructor
  · rw [notices_append, h.notices_eq, h'.notices_eq]
  · intro c hc
    rw [calls_append] at hc
    rcases List.mem_append.1 hc with hc | hc
    · exact h.callback_eq c hc
    · exact h'.callback_eq c hc
  · rw [calls_append, List.length_append, List.length_append]
    exact Nat.add_le_add h.length_le h'.length_le

theorem heard_invoked {p : Payload} :
    Heard id callback [message] [.handled id message, .invoked id callback p] :=
  ⟨by simp [notices], by simp [calls], by simp [calls]⟩

theorem heard_dropped {a : List Json} {l : List Entry} (hnotices : notices id l = a)
    (hcalls : calls id l = []) : Heard id callback a l :=
  ⟨hnotices, by simp [hcalls], by simp [hcalls]⟩

theorem handled_ne (hne : i ≠ id) (hhandle : handleWsMessage w i message = .ok w') :
    ∃ l, w'.log = w.log ++ l ∧ notices id l = [] ∧ calls id l = [] := by
  rcases handleWsMessage_log hhandle with hlog | ⟨t, f, p, -, -, -, hlog⟩
  · exact ⟨_, hlog, by simp [notices, hne], by simp [calls]⟩
  · exact ⟨_, hlog, by simp [notices, hne], by simp [calls, hne]⟩

theorem Gone.handle_self (h : Gone id w) (hhandle : handleWsMessage w id message = .ok w') :
    w'.log = w.log ++ [.handled id message] := by
  rw [handleWsMessage_unrouted h.route] at hhandle
  cases hhandle
  rfl

theorem Gone.late {late : List (ℤ × Json)} (h : Gone id w) (hlate : handleAll w late = .ok w') :
    ∃ l, w'.log = w.log ++ l ∧ notices id l = messages id late ∧ calls id l = [] := by
  induction late generalizing w with
  | nil =>
    cases hlate
    exact ⟨[], by simp, rfl, rfl⟩
  | cons n late ih =>
    obtain ⟨w₁, hhandle, hrest⟩ := StreamReader.except_bind_eq_ok hlate
    obtain ⟨l, hlog, hnotices, hcalls⟩ := ih (h.handle hhandle) hrest
    by_cases hn : n.1 = id
    · rw [hn] at hhandle
      refine ⟨.handled id n.2 :: l, ?_, ?_, ?_⟩
      · rw [hlog, h.handle_self hhandle, List.append_assoc]
        rfl
      · simpa [notices, messages, hn] using hnotices
      · simpa [calls] using hcalls
    · obtain ⟨l₁, hlog₁, hnotices₁, hcalls₁⟩ := handled_ne hn hhandle
      refine ⟨l₁ ++ l, by rw [hlog, hlog₁, List.append_assoc], ?_, ?_⟩
      · rw [notices_append, hnotices₁, hnotices]
        simp [messages, hn]
      · rw [calls_append, hcalls₁, hcalls]
        rfl

/-- The statuses of a transfer are ready or finalized, and nothing comes after the
final one. -/
def Reported : List Json → Prop
  | [] => True
  | message :: rest =>
    transactionStatus message ≠ none ∧ (Final message → rest = []) ∧ Reported rest

/-- The messages for an open topic: each has its call exactly when, for a transfer,
they are statuses to report. -/
theorem Watching.late {late : List (ℤ × Json)} (h : Watching topic id callback w)
    (hera : topic ≠ .slot .eraAndSession) (hlate : handleAll w late = .ok w') :
    ∃ l, w'.log = w.log ++ l ∧ Heard id callback (messages id late) l ∧
      ((calls id l).length = (messages id late).length ↔
        (topic = transfer → Reported (messages id late))) := by
  induction late generalizing w with
  | nil =>
    cases hlate
    exact ⟨[], by simp, heard_dropped rfl rfl, by simp [calls, messages, Reported]⟩
  | cons n late ih =>
    obtain ⟨w₁, hhandle, hrest⟩ := StreamReader.except_bind_eq_ok hlate
    by_cases hn : n.1 = id
    · rw [hn] at hhandle
      have hmessages : messages id (n :: late) = [n.2] ++ messages id late := by simp [messages, hn]
      rw [hmessages]
      rcases h.handle_self hera hhandle with
        ⟨p, hlog₁, hstatus, hwatching | ⟨htopic, hfinal, hgone⟩⟩ | ⟨hlog₁, htopic, hnone, hwatching⟩
      · obtain ⟨l, hlog, hheard, hiff⟩ := ih hwatching.2 hrest
        refine ⟨_ ++ l, by rw [hlog, hlog₁, List.append_assoc], heard_invoked.append hheard, ?_⟩
        have hreported : (topic = transfer → Reported ([n.2] ++ messages id late)) ↔
            (topic = transfer → Reported (messages id late)) := by
          constructor
          · intro hr htopic
            exact (hr htopic).2.2
          · intro hr htopic
            refine ⟨by rw [hstatus htopic]; simp, ?_, hr htopic⟩
            intro hfinal
            exact absurd ⟨htopic, hfinal⟩ hwatching.1
        rw [hreported, ← hiff]
        simp [calls]
      · obtain ⟨l, hlog, hnotices, hcalls⟩ := hgone.late hrest
        refine ⟨_ ++ l, by rw [hlog, hlog₁, List.append_assoc],
          heard_invoked.append (heard_dropped hnotices hcalls), ?_⟩
        rw [calls_append, hcalls, List.append_nil]
        constructor
        · intro hlength _
          have hnil : messages id late = [] := by
            rw [← List.length_eq_zero_iff]
            simpa [calls] using hlength.symm
          rw [hnil]
          exact ⟨by rw [hstatus htopic]; simp, fun _ => rfl, trivial⟩
        · intro hr
          have hnil : messages id late = [] := (hr htopic).2.1 hfinal
          rw [hnil]
          simp [calls]
      · obtain ⟨l, hlog, hheard, -⟩ := ih hwatching hrest
        have hdropped : calls id [Entry.handled id n.2] = [] := rfl
        refine ⟨_ ++ l, by rw [hlog, hlog₁, List.append_assoc],
          (heard_dropped (by simp [notices]) hdropped).append hheard, ?_⟩
        rw [calls_append, hdropped, List.nil_append, List.length_append]
        constructor
        · intro hlength
          have hle := hheard.length_le
          rw [List.length_singleton] at hlength
          omega
        · intro hr
          exact absurd hnone (hr htopic).1
    · have hmessages : messages id (n :: late) = messages id late := by simp [messages, hn]
      obtain ⟨l₁, hlog₁, hnotices₁, hcalls₁⟩ := handled_ne hn hhandle
      obtain ⟨l, hlog, hheard, hiff⟩ := ih (h.handle_ne hn hhandle) hrest
      rw [hmessages]
      refine ⟨l₁ ++ l, by rw [hlog, hlog₁, List.append_assoc],
        (heard_dropped hnotices₁ hcalls₁).append hheard, ?_⟩
      rw [calls_append, hcalls₁, List.nil_append]
      exact hiff

end Late

end PolkadotApi.CallbackDelivery
