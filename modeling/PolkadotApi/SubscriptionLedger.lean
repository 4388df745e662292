import PolkadotApi.ObjectRuns

set_option autoImplicit false

namespace PolkadotApi.SubscriptionLedger
open StatefulActions MachineModel JsonValues StorageKeys Subscriptions SubscriptionFrames
open CallSpecifications Connection ObjectRuns StepRuns

section Logs

variable {log log' : List Entry} {id : ℤ} {topic t : Topic} {q q' : Json}

/-- The node gives no id twice, and never 0. -/
structure Fresh (log : List Entry) : Prop where
  nodup : (subscribedIds log).Nodup
  nonzero : ∀ id ∈ subscribedIds log, id ≠ 0

instance (log : List Entry) : Decidable (Fresh log) :=
  decidable_of_iff ((subscribedIds log).Nodup ∧ ∀ id ∈ subscribedIds log, id ≠ 0)
    ⟨fun h => ⟨h.1, h.2⟩, fun h => ⟨h.nodup, h.nonzero⟩⟩

def GivenUp (log : List Entry) (id : ℤ) : Prop := ∃ method, .unsubscribed id method ∈ log

theorem subscribedIds_append : subscribedIds (log ++ log') = subscribedIds log ++ subscribedIds log' :=
  List.filterMap_append

theorem subscribedIds_handled (h : ∀ e ∈ log, e.isRequest = false) : subscribedIds log = [] := by
  rw [subscribedIds, List.filterMap_eq_nil_iff]
  intro e he
  have hrequest := h e he
  cases e <;> first | rfl | cases hrequest

theorem mem_subscribedIds : id ∈ subscribedIds log ↔ ∃ topic q, .subscribed topic q id ∈ log := by
  unfold subscribedIds
  rw [List.mem_filterMap]
  constructor
  · intro h
    obtain ⟨e, he, hid⟩ := h
    cases e with
    | subscribed topic q id' =>
      cases hid
      exact ⟨topic, q, he⟩
    | _ => cases hid
  · intro h
    obtain ⟨topic, q, he⟩ := h
    exact ⟨_, he, rfl⟩

theorem Fresh.of_prefix (h : Fresh log') (hlog : log <+: log') : Fresh log := by
  have hsublist : (subscribedIds log).Sublist (subscribedIds log') := hlog.sublist.filterMap _
  exact ⟨h.nodup.sublist hsublist, fun id hid => h.nonzero id (hsublist.subset hid)⟩

theorem Fresh.of_append (h : Fresh (log ++ log')) : Fresh log :=
  h.of_prefix (List.prefix_append log log')

theorem Fresh.notMem (h : Fresh (log ++ [.subscribed topic q id])) : id ∉ subscribedIds log := by
  have hnodup := h.nodup
  rw [subscribedIds_append] at hnodup
  intro hid
  exact List.disjoint_of_nodup_append hnodup hid List.mem_cons_self

theorem Fresh.ne_zero (h : Fresh (log ++ [.subscribed topic q id])) : id ≠ 0 :=
  h.nonzero id (mem_subscribedIds.2 ⟨topic, q, List.mem_append_right log List.mem_cons_self⟩)

theorem Fresh.topic_eq (h : Fresh log) (ht : .subscribed t q id ∈ log)
    (htopic : .subscribed topic q' id ∈ log) : t = topic := by
  induction log with
  | nil => cases ht
  | cons e log ih =>
    have hfresh : Fresh log := by
      refine ⟨?_, fun id hid => h.nonzero id (List.mem_filterMap.2 ?_)⟩
      · exact h.nodup.sublist ((List.sublist_cons_self e log).filterMap _)
      · obtain ⟨e', he', hid'⟩ := List.mem_filterMap.1 hid
        exact ⟨e', List.mem_cons_of_mem e he', hid'⟩
    have hhead : ∀ {topic q}, e = .subscribed topic q id → ∀ {topic' q'},
        .subscribed topic' q' id ∉ log := by
      intro topic q he topic' q' hmem
      have hnodup := h.nodup
      rw [he] at hnodup
      exact (List.nodup_cons.1 hnodup).1 (mem_subscribedIds.2 ⟨topic', q', hmem⟩)
    rcases List.mem_cons.1 ht with he | ht
    · rcases List.mem_cons.1 htopic with he' | htopic
      · rw [← he] at he'
        cases he'
        rfl
      · exact absurd htopic (hhead he.symm)
    · rcases List.mem_cons.1 htopic with he' | htopic
      · exact absurd ht (hhead he'.symm)
      · exact ih hfresh ht htopic

theorem GivenUp.append (h : GivenUp log id) : GivenUp (log ++ log') id := by
  obtain ⟨method, hmem⟩ := h
  exact ⟨method, List.mem_append_left log' hmem⟩

theorem givenUp_append (hlog : ∀ id method, .unsubscribed id method ∉ log') :
    GivenUp (log ++ log') id ↔ GivenUp log id := by
  constructor
  · intro h
    obtain ⟨method, hmem⟩ := h
    rcases List.mem_append.1 hmem with hmem | hmem
    · exact ⟨method, hmem⟩
    · exact absurd hmem (hlog id method)
  · exact GivenUp.append

end Logs

section Accounts

variable {lib : Libraries} {T : Topic → Prop} {w w' : World} {e : Event} {topic t : Topic} {id : ℤ}

/-- What the log says about the ids that the topics of `T` hold. -/
structure Ledger (T : Topic → Prop) (w : World) : Prop where
  held : ∀ topic id, T topic → id ≠ 0 → subscription w.api topic = some id →
    ∃ q, .subscribed topic q id ∈ w.log
  live : ∀ topic id, T topic → subscription w.api topic = some id → ¬ GivenUp w.log id
  given : ∀ id, GivenUp w.log id → id ∈ subscribedIds w.log

theorem Ledger.unique (h : Ledger T w) (hfresh : Fresh w.log) (ht : T t) (htopic : T topic)
    (hne : id ≠ 0) (hid : subscription w.api t = some id)
    (hid' : subscription w.api topic = some id) : t = topic := by
  obtain ⟨q, hmem⟩ := h.held t id ht hne hid
  obtain ⟨q', hmem'⟩ := h.held topic id htopic hne hid'
  exact hfresh.topic_eq hmem hmem'

/-- When all topics are accounted for, an id leads to the topic that holds it. -/
theorem Ledger.route_eq (h : Ledger (fun _ => True) w) (hfresh : Fresh w.log) (hne : id ≠ 0)
    (hid : subscription w.api topic = some id)
    (hera : topic = .slot .eraAndSession → w.api.bestBlockNum ≠ -1) :
    route w.api id = some topic := by
  apply route_of_unique (holds_of_subscription hid) hera
  intro other hother
  exact h.unique hfresh trivial trivial hne (hother.subscription hne) hid

theorem Ledger.of_append {l : List Entry} (h : Ledger T w) (hlog : w'.log = w.log ++ l)
    (hl : ∀ id method, .unsubscribed id method ∉ l)
    (hview : ∀ topic id, T topic → subscription w'.api topic = some id →
      subscription w.api topic = some id) : Ledger T w' := by
  constructor
  · intro topic id htopic hne hid
    obtain ⟨q, hmem⟩ := h.held topic id htopic hne (hview topic id htopic hid)
    exact ⟨q, by rw [hlog]; exact List.mem_append_left l hmem⟩
  · intro topic id htopic hid
    rw [hlog, givenUp_append hl]
    exact h.live topic id htopic (hview topic id htopic hid)
  · intro id hid
    rw [hlog, givenUp_append hl] at hid
    rw [hlog, subscribedIds_append]
    exact List.mem_append_left _ (h.given id hid)

theorem Ledger.of_log_eq (h : Ledger T w) (hlog : w'.log = w.log)
    (hview : ∀ topic, subscription w'.api topic = subscription w.api topic) : Ledger T w' := by
  apply h.of_append (l := []) (hlog.trans (List.append_nil _).symm) (by simp)
  intro topic id _ hid
  rw [← hview topic]
  exact hid

theorem Ledger.opened {q : Json} (h : Ledger T w)
    (hfresh : Fresh (w.record (.subscribed topic q id)).log) :
    Ledger T ((w.record (.subscribed topic q id)).update (setSubscription topic id)) := by
  have hself : ∀ id', subscription (setSubscription topic id w.api) topic = some id' → id' = id := by
    intro id' hid'
    rw [subscription_setSubscription_self (Fresh.ne_zero hfresh)] at hid'
    exact (Option.some.inj hid').symm
  have hl : ∀ id' method, Entry.unsubscribed id' method ∉ [Entry.subscribed topic q id] := by
    intro id' method hmem
    cases List.mem_singleton.1 hmem
  constructor
  · intro t id' ht hne hid'
    by_cases heq : t = topic
    · subst t
      rw [hself id' hid']
      exact ⟨q, List.mem_append_right w.log List.mem_cons_self⟩
    · have hold := (setSubscription_view_of_ne heq).1.symm.trans hid'
      obtain ⟨q', hmem⟩ := h.held t id' ht hne hold
      exact ⟨q', List.mem_append_left _ hmem⟩
  · intro t id' ht hid' hgone
    have hgone := (givenUp_append hl).1 hgone
    by_cases heq : t = topic
    · subst t
      rw [hself id' hid'] at hgone
      exact Fresh.notMem hfresh (h.given id hgone)
    · exact h.live t id' ht ((setSubscription_view_of_ne heq).1.symm.trans hid') hgone
  · intro id' hgone
    have hgiven := h.given id' ((givenUp_append hl).1 hgone)
    rw [update_log, record_log, subscribedIds_append]
    exact List.mem_append_left _ hgiven

theorem Ledger.entry (h : Ledger T w) (hfresh : Fresh w.log) (topic : Topic) :
    Ledger T (w.update (setSubscription topic 0)) := by
  have hzero : ¬ GivenUp w.log 0 := fun hgone => hfresh.nonzero 0 (h.given 0 hgone) rfl
  have hview : ∀ t id, subscription (setSubscription topic 0 w.api) t = some id →
      id = 0 ∨ subscription w.api t = some id := by
    intro t id hid
    by_cases heq : t = topic
    · subst t
      left
      cases topic with
      | slot kind => simp [setSubscription, subscription, Api.setId] at hid
      | keyed kind key =>
        rw [subscription_entry] at hid
        exact (Option.some.inj hid).symm
    · exact Or.inr ((setSubscription_view_of_ne heq).1.symm.trans hid)
  constructor
  · intro t id ht hne hid
    exact h.held t id ht hne ((hview t id hid).resolve_left hne)
  · intro t id ht hid
    rcases hview t id hid with rfl | hold
    · exact hzero
    · exact h.live t id ht hold
  · exact h.given

theorem Ledger.released {method : Str} (h : Ledger T w) (hfresh : Fresh w.log) (htopic : T topic)
    (hne : id ≠ 0) (hid : subscription w.api topic = some id) :
    Ledger T ((w.record (.unsubscribed id method)).update (release topic)) := by
  have hview : ∀ t id', subscription (release topic w.api) t = some id' →
      t ≠ topic ∧ subscription w.api t = some id' := by
    intro t id' hid'
    by_cases heq : t = topic
    · subst t
      rw [subscription_release_self] at hid'
      cases hid'
    · exact ⟨heq, (release_view_of_ne heq).1.symm.trans hid'⟩
  constructor
  · intro t id' ht hne' hid'
    obtain ⟨q, hmem⟩ := h.held t id' ht hne' (hview t id' hid').2
    exact ⟨q, List.mem_append_left _ hmem⟩
  · intro t id' ht hid' hgone
    have hold := hview t id' hid'
    obtain ⟨method', hmem⟩ := hgone
    rcases List.mem_append.1 hmem with hmem | hmem
    · exact h.live t id' ht hold.2 ⟨method', hmem⟩
    · cases List.mem_singleton.1 hmem
      exact hold.1 (h.unique hfresh ht htopic hne hold.2 hid)
  · intro id' hgone
    have hids : subscribedIds (w.log ++ [Entry.unsubscribed id method]) = subscribedIds w.log := by
      rw [subscribedIds_append]
      exact List.append_nil _
    obtain ⟨method', hmem⟩ := hgone
    change id' ∈ subscribedIds (w.log ++ [Entry.unsubscribed id method])
    rw [hids]
    rcases List.mem_append.1 hmem with hmem | hmem
    · exact h.given id' ⟨method', hmem⟩
    · cases List.mem_singleton.1 hmem
      obtain ⟨q, hheld⟩ := h.held topic id htopic hne hid
      exact mem_subscribedIds.2 ⟨topic, q, hheld⟩

def Accounted (T : Topic → Prop) (w : World) : Prop := Fresh w.log → Ledger T w

theorem accounted_start {api : Api} (h : ∀ topic, T topic → subscription api topic = none) :
    Accounted T (start api) := by
  intro _
  have hgone : ∀ id, ¬ GivenUp [] id := by
    intro id hgone
    obtain ⟨method, hmem⟩ := hgone
    cases hmem
  constructor
  · intro topic id htopic _ hid
    cases (h topic htopic).symm.trans hid
  · intro topic id _ _
    exact hgone id
  · intro id hid
    exact absurd hid (hgone id)

theorem not_unsubscribed_of_handled {l : List Entry} (hl : ∀ e ∈ l, e.isRequest = false) (id : ℤ)
    (method : Str) : .unsubscribed id method ∉ l := by
  intro hmem
  cases hl _ hmem

theorem accounted_quiet : Quiet (Accounted T) := by
  refine ⟨fun w h hfresh => (h hfresh).of_log_eq rfl fun _ => rfl, ?_⟩
  intro w w' id message h hhandle hfresh
  have hh := handleWsMessage_handled hhandle
  obtain ⟨l, hl, hreq⟩ := hh.log
  rw [hl] at hfresh
  apply (h hfresh.of_append).of_append hl (not_unsubscribed_of_handled hreq)
  intro topic id _ hid
  exact hh.subscription_of_some hid

theorem accounted_ignores (htopic : T topic) : Ignores (Accounted T) topic := by
  refine ⟨⟨?_, ?_, ?_, ?_⟩, ?_⟩
  · intro w h _ hfresh
    exact (h hfresh).entry hfresh topic
  · intro w q id h hfresh
    have hbefore : Fresh w.log := Fresh.of_append hfresh
    exact (h hbefore).opened hfresh
  · intro w id method h hne hid hfresh
    have hbefore : Fresh w.log := Fresh.of_append hfresh
    exact (h hbefore).released hbefore htopic hne hid
  · intro w h _ hfresh
    have hlog : (w.update (release topic)).log = w.log ++ [] := (List.append_nil _).symm
    apply (h hfresh).of_append hlog (by simp)
    intro t id _ hid
    by_cases heq : t = topic
    · subst t
      cases subscription_release_self.symm.trans hid
    · exact (release_view_of_ne heq).1.symm.trans hid
  · intro w callback h hfresh
    exact (h hfresh).of_log_eq rfl fun _ => subscription_setCallback

theorem accounted_parameters : IgnoresParameters (Accounted T) := by
  intro w api _ hslot hkeyed h hfresh
  refine (h hfresh).of_log_eq ?_ fun topic => subscription_congr hslot hkeyed
  rfl

theorem accounted_requested (w : World) (q : Json) (h : Accounted T w) :
    Accounted T (w.record (.requested q)) := by
  intro hfresh
  have hbefore : Fresh w.log := Fresh.of_append hfresh
  exact (h hbefore).of_append rfl (by simp) fun _ _ _ hid => hid

theorem accounted_locals : IgnoresLocals (Accounted T) := by
  intro w frames running nonce incoming h hfresh
  exact (h hfresh).of_log_eq rfl fun _ => rfl

theorem accounted_meets (h : Accounted T w) : Accounted T (meets w e) := by
  intro hfresh
  exact (h hfresh).of_log_eq rfl fun _ => rfl

theorem step_accounted (htouched : ∀ topic ∈ e.op.touched, T topic) (h : Accounted T w)
    (hstep : step lib w e = some w') : Accounted T w' := by
  have hpreserves := perform_preserves lib e.op accounted_quiet accounted_locals
    accounted_parameters accounted_requested fun topic ht => accounted_ignores (htouched topic ht)
  exact step_of_triple hpreserves (fun _ _ h => h) (accounted_meets h) hstep

theorem accounted_of_run {api : Api} {es : List Event}
    (hclosed : ∀ topic, T topic → subscription api topic = none)
    (htouched : ∀ e ∈ es, ∀ topic ∈ e.op.touched, T topic)
    (hrun : run (step lib) (start api) es = some w) : Accounted T w := by
  apply run_invariant ?_ (accounted_start hclosed) (along_of_forall htouched) hrun
  intro s e t h he hs
  exact step_accounted he h hs

end Accounts

section Awaiting

abbrev transfer : Topic := .slot .transactionCompletion

def Addressed : Entry → Prop
  | .handled id _ => id ≠ 0
  | _ => True

instance (e : Entry) : Decidable (Addressed e) := by
  unfold Addressed
  split <;> infer_instance

variable {w : World} {topic : Topic} {callback : Callback}

/-- The function of a topic is stored, and the id has not come back yet. -/
structure Awaiting (topic : Topic) (callback : Callback) (w : World) : Prop where
  unanswered : (subscription w.api topic).getD 0 = 0
  subscriber : (∀ e ∈ w.log, Addressed e) → w.api.subscriber topic = some callback

theorem awaiting_setCallback (h : subscription w.api topic = none) :
    Awaiting topic callback (w.update (setCallback topic callback)) := by
  constructor
  · rw [update_api, subscription_setCallback, h, Option.getD_none]
  · intro _
    rw [update_api, subscriber_setCallback_self]

theorem awaiting_entry (kind : KeyedKind) (key : Str) :
    IgnoresEntry (Awaiting (.keyed kind key) callback) (.keyed kind key) := by
  intro w h _
  constructor
  · rw [update_api, subscription_entry, Option.getD_some]
  · intro haddressed
    rw [update_api, subscriber_setSubscription]
    exact h.subscriber haddressed

/-- Only the final status of a transfer takes a function away, and a transfer that
waits for its id gets none. -/
theorem awaiting_quiet (topic : Topic) (callback : Callback) : Quiet (Awaiting topic callback) := by
  refine ⟨fun w h => ⟨h.unanswered, h.subscriber⟩, ?_⟩
  intro w w' id message h hhandle
  have hh := handleWsMessage_handled hhandle
  refine ⟨(quiet_unanswered topic).handle w w' id message h.unanswered hhandle, ?_⟩
  intro haddressed
  obtain ⟨l, hlog, -⟩ := handleWsMessage_appends hhandle
  rw [hlog] at haddressed
  have hbefore := h.subscriber fun e he => haddressed e (List.mem_append_left _ he)
  by_cases htopic : topic = transfer
  · subst topic
    have hid : id ≠ 0 := haddressed (.handled id message)
      (List.mem_append_right w.log List.mem_cons_self)
    rcases handleWsMessage_slot hhandle with ⟨hslot, -⟩ | ⟨hroute, -, -⟩
    · rw [← hbefore]
      simp only [Api.subscriber, hslot]
    · have hopen := (route_holds hroute).subscription hid
      have hzero := h.unanswered
      rw [hopen] at hzero
      exact absurd hzero hid
  · rw [hh.subscriber_eq htopic]
    exact hbefore

end Awaiting

end PolkadotApi.SubscriptionLedger
