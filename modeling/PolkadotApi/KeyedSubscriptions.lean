import PolkadotApi.SubscriptionLedger

set_option autoImplicit false

namespace PolkadotApi.KeyedSubscriptions
open StatefulActions MachineModel JsonValues StorageKeys Notifications Subscriptions
open SubscriptionFrames CallSpecifications Connection ObjectRuns StepRuns SubscriptionLedger
open AddressRoundTrip

/-- The calls on the maps, whose subscribe requests succeed, and notifications. -/
def OnMaps (e : Event) : Prop :=
  match e.op with
  | .subscribeBalance _ _ => Served e
  | .unsubscribeBalance _ => True
  | .subscribeAccountNonce _ _ => Served e
  | .unsubscribeAccountNonce _ => True
  | .subscribeStorage _ _ => Served e
  | .unsubscribeStorage _ => True
  | .notify _ _ => True
  | _ => False

def Keyable (lib : Libraries) (w : World) (e : Event) : Prop :=
  match e.op with
  | .subscribeBalance address _ => subscription w.api (.keyed .balance address) ≠ none ∨
      (addressKey lib "Balances FreeBalance" address w.api).isOk
  | .subscribeAccountNonce address _ => subscription w.api (.keyed .accountNonce address) ≠ none ∨
      (addressKey lib "System AccountNonce" address w.api).isOk
  | _ => True

instance (e : Event) : Decidable (OnMaps e) := by
  cases e with
  | mk op => cases op <;> (unfold OnMaps; infer_instance)

instance (lib : Libraries) (w : World) (e : Event) : Decidable (Keyable lib w e) := by
  cases e with
  | mk op => cases op <;> (unfold Keyable; infer_instance)

def passed (topic : Topic) : Operation → Option ℕ
  | .subscribeBalance address tag => if topic = .keyed .balance address then some tag else none
  | .subscribeAccountNonce address tag =>
    if topic = .keyed .accountNonce address then some tag else none
  | .subscribeStorage key tag => if topic = .keyed .storage key then some tag else none
  | _ => none

def latest (es : List Event) (topic : Topic) : Option ℕ :=
  es.foldl (fun last e => (passed topic e.op).or last) none

/-- The maps agree with each other and with what the client asked for. -/
structure InStep (es : List Event) (w : World) : Prop where
  keys : ∀ kind key, key ∈ (w.api.keyed kind).subscribers ↔ key ∈ (w.api.keyed kind).ids
  distinct : ∀ kind (key : Str) kind' (key' : Str) id, (w.api.keyed kind).ids[key]? = some id →
    (w.api.keyed kind').ids[key']? = some id → kind = kind' ∧ key = key'
  invokes : ∀ kind (key : Str) id message p, (w.api.keyed kind).ids[key]? = some id →
    payload w.api (.keyed kind key) message = .ok (some p) →
    ∃ tag w', latest es (.keyed kind key) = some tag ∧ handleWsMessage w id message = .ok w' ∧
      w'.log = w.log ++ [.handled id message, .invoked id (.client tag) p]
  silent : ∀ id message, GivenUp w.log id →
    handleWsMessage w id message = .ok (w.record (.handled id message))

section Matching

variable {lib : Libraries} {last : Topic → Option ℕ} {w w' : World} {e : Event} {topic : Topic}
  {kind : KeyedKind} {key : Str} {tag : ℕ}

/-- What a topic of the maps has: neither an id nor a function, or an id and the
function passed last. -/
def Paired (last : Option ℕ) (id : Option ℤ) (subscriber : Option Callback) : Prop :=
  (id = none ∧ subscriber = none) ∨
    (id ≠ none ∧ ∃ tag, last = some tag ∧ subscriber = some (.client tag))

def Given (kind : KeyedKind) (key : Str) (w : World) : Prop :=
  ∀ id, subscription w.api (.keyed kind key) = some id → id ∈ subscribedIds w.log

theorem Given.of_view {l : List Entry} (h : Given kind key w)
    (hview : subscription w'.api (.keyed kind key) = subscription w.api (.keyed kind key))
    (hlog : w'.log = w.log ++ l) : Given kind key w' := by
  intro id hid
  rw [hlog, subscribedIds_append]
  exact List.mem_append_left _ (h id (hview.symm.trans hid))

theorem given_quiet : Quiet (Given kind key) := by
  refine ⟨fun _ h => h, ?_⟩
  intro w w' id message h hhandle
  have hh := handleWsMessage_handled hhandle
  obtain ⟨l, hl, -⟩ := hh.log
  exact h.of_view (hh.subscription_eq (by simp)) hl

theorem Given.setCallback (h : Given kind key w) (t : Topic) (callback : Callback) :
    Given kind key (w.update (setCallback t callback)) := by
  have hlog : (w.update (SubscriptionFrames.setCallback t callback)).log = w.log ++ [] :=
    (List.append_nil _).symm
  apply h.of_view ?_ hlog
  exact subscription_setCallback

theorem given_ignores (hne : .keyed kind key ≠ topic) : Ignores (Given kind key) topic := by
  refine ⟨⟨?_, ?_, ?_, ?_⟩, ?_⟩
  · intro w h _
    exact h.of_view (setSubscription_view_of_ne hne).1 (List.append_nil _).symm
  · intro w q id h
    exact h.of_view (setSubscription_view_of_ne hne).1 rfl
  · intro w id method h _ _
    exact h.of_view (release_view_of_ne hne).1 rfl
  · intro w h _
    exact h.of_view (release_view_of_ne hne).1 (List.append_nil _).symm
  · intro w callback h
    exact h.setCallback topic callback

def PairedAt (last : Topic → Option ℕ) (kind : KeyedKind) (key : Str) (w : World) : Prop :=
  Paired (last (.keyed kind key)) (subscription w.api (.keyed kind key))
    (w.api.subscriber (.keyed kind key)) ∧ Given kind key w

def Matched (last : Topic → Option ℕ) (w : World) : Prop := ∀ kind key, PairedAt last kind key w

theorem pairedAt_quiet : Quiet (PairedAt last kind key) :=
  (quiet_view (F := Paired (last (.keyed kind key))) (by simp)).and given_quiet

theorem pairedAt_ignores (hne : .keyed kind key ≠ topic) :
    Ignores (PairedAt last kind key) topic := by
  have hpaired := ignores_of_ne (F := Paired (last (.keyed kind key))) hne
  have hgiven := given_ignores hne
  exact ⟨hpaired.toKeeps.and hgiven.toKeeps,
    fun w f h => ⟨hpaired.callback w f h.1, hgiven.callback w f h.2⟩⟩

theorem matched_quiet : Quiet (Matched last) :=
  ⟨fun w h kind key => pairedAt_quiet.popped w (h kind key),
    fun w w' id m h hh kind key => pairedAt_quiet.handle w w' id m (h kind key) hh⟩

def Others (last : Topic → Option ℕ) (topic : Topic) (w : World) : Prop :=
  ∀ kind key, .keyed kind key ≠ topic → PairedAt last kind key w

theorem others_quiet : Quiet (Others last topic) :=
  ⟨fun w h kind key hne => pairedAt_quiet.popped w (h kind key hne),
    fun w w' id m h hh kind key hne => pairedAt_quiet.handle w w' id m (h kind key hne) hh⟩

theorem others_ignores : Ignores (Others last topic) topic := by
  refine ⟨⟨?_, ?_, ?_, ?_⟩, ?_⟩
  · intro w hw hid kind key hne
    exact (pairedAt_ignores hne).entry w (hw kind key hne) hid
  · intro w q id hw kind key hne
    exact (pairedAt_ignores hne).opened w q id (hw kind key hne)
  · intro w id method hw hzero hid kind key hne
    exact (pairedAt_ignores hne).released w id method (hw kind key hne) hzero hid
  · intro w hw hid kind key hne
    exact (pairedAt_ignores hne).dropped w (hw kind key hne) hid
  · intro w callback hw kind key hne
    exact (pairedAt_ignores hne).callback w callback (hw kind key hne)

theorem Matched.others (h : Matched last w) : Others last topic w := fun kind key _ => h kind key

theorem Others.matched (h : Others last (.keyed kind key) w) (hpair : PairedAt last kind key w) :
    Matched last w := by
  intro kind' key'
  by_cases hne : Topic.keyed kind' key' = .keyed kind key
  · cases hne
    exact hpair
  · exact h kind' key' hne

def Stable (storageKey : Api → Result Str) : Prop :=
  ∀ api api', api'.freeBalanceHasher = api.freeBalanceHasher → storageKey api' = storageKey api

theorem addressKey_stable (keyPrefix : String) (address : Str) :
    Stable (addressKey lib keyPrefix address) := by
  intro api api' h
  unfold addressKey
  rw [h]

structure Subscribing (last : Topic → Option ℕ) (kind : KeyedKind) (key : Str) (tag : ℕ)
    (w : World) : Prop where
  supplied : Supplied w
  others : Others last (.keyed kind key) w
  subscriber : w.api.subscriber (.keyed kind key) = some (.client tag)

theorem subscribing_quiet : Quiet (Subscribing last kind key tag) := by
  constructor
  · intro w h
    exact ⟨supplied_quiet.popped w h.supplied, h.others, h.subscriber⟩
  · intro w w' id message h hhandle
    refine ⟨supplied_quiet.handle w w' id message h.supplied hhandle,
      others_quiet.handle w w' id message h.others hhandle, ?_⟩
    rw [(handleWsMessage_handled hhandle).subscriber_eq (by simp)]
    exact h.subscriber

theorem subscribing_entry :
    IgnoresEntry (Subscribing last kind key tag) (.keyed kind key) := by
  intro w h hclosed
  refine ⟨h.supplied, others_ignores.entry w h.others hclosed, ?_⟩
  rw [update_api, subscriber_setSubscription]
  exact h.subscriber

theorem subscribing_setCallback (h : Supplied w ∧ Others last (.keyed kind key) w) :
    Subscribing last kind key tag (w.update (setCallback (.keyed kind key) (.client tag))) := by
  refine ⟨h.1, others_ignores.callback w _ h.2, ?_⟩
  rw [update_api, subscriber_setCallback_self]

theorem Subscribing.answered (h : Answered (Subscribing last kind key tag) (.keyed kind key) w)
    (hlast : last (.keyed kind key) = some tag) : Matched last w := by
  obtain ⟨w₀, q, json, h, -, -, rfl⟩ := h
  apply Others.matched (others_ignores.opened w₀ q _ h.others)
  have hid : subscription (setSubscription (.keyed kind key) json.intValue w₀.api)
      (.keyed kind key) = some json.intValue := subscription_entry
  refine ⟨Or.inr ⟨?_, tag, hlast, ?_⟩, ?_⟩
  · rw [update_api, record_api, hid]
    simp
  · rw [update_api, subscriber_setSubscription]
    exact h.subscriber
  · intro id hid'
    cases hid.symm.trans hid'
    exact mem_subscribedIds.2 ⟨_, q, List.mem_append_right w₀.log List.mem_cons_self⟩

theorem subscribeKeyed_matched {storageKey : Api → Result Str} (hstable : Stable storageKey)
    (last : Topic → Option ℕ) (hlast : last (.keyed kind key) = some tag) :
    Triple
      (fun w => (Supplied w ∧ Others last (.keyed kind key) w) ∧ Given kind key w ∧
        (subscription w.api (.keyed kind key) ≠ none ∨ (storageKey w.api).isOk))
      (subscribeKeyed kind storageKey key (.client tag)) (fun _ => Matched last)
      fun halt _ => ∀ x, halt ≠ .thrown x := by
  rintro w ⟨hw, hgiven, hkeyable⟩
  by_cases hclosed : subscription w.api (.keyed kind key) = none
  · have hok := hkeyable.resolve_left (not_not_intro hclosed)
    have hhasher : Quiet fun u => u.api.freeBalanceHasher = w.api.freeBalanceHasher := by
      refine ⟨fun _ h => h, ?_⟩
      intro u u' id message h hhandle
      rw [(handleWsMessage_handled hhandle).api]
      exact h
    have hentry : IgnoresEntry (fun u => Subscribing last kind key tag u ∧
        u.api.freeBalanceHasher = w.api.freeBalanceHasher) (.keyed kind key) :=
      fun u h hnone => ⟨subscribing_entry u h.1 hnone, h.2⟩
    apply (subscribeKeyed_new_triple (subscribing_quiet.and hhasher) hentry
      (P := fun u => (Supplied u ∧ Others last (.keyed kind key) u) ∧
        u.api.freeBalanceHasher = w.api.freeBalanceHasher) ?_).post ?_ ?_ w ⟨⟨hw, rfl⟩, hclosed⟩
    · intro u h
      exact ⟨subscribing_setCallback h.1, h.2⟩
    · rintro _ u ⟨u₀, q, json, h, hzero, ⟨u₁, h₁, hreply⟩, hu⟩
      exact Subscribing.answered ⟨u₀, q, json, h.1, hzero, ⟨u₁, h₁.1, hreply⟩, hu⟩ hlast
    · intro halt u h x hhalt
      rcases h.2 x hhalt with ⟨u₀, hu₀, hreply⟩ | ⟨u₀, hu₀, -, hkey⟩
      · exact hu₀.1.supplied.reply x hreply
      · rw [hstable w.api u₀.api hu₀.2] at hkey
        rw [hkey] at hok
        cases hok
  · apply (subscribeKeyed_open_triple (P := fun u => (Supplied u ∧ Others last (.keyed kind key) u) ∧
      Given kind key u) (I := fun u => Subscribing last kind key tag u ∧ Given kind key u) ?_).post
        ?_ ?_ w ⟨⟨hw, hgiven⟩, hclosed⟩
    · intro u h
      exact ⟨subscribing_setCallback h.1, h.2.setCallback _ _⟩
    · rintro _ u ⟨⟨h, hgiven⟩, hopen⟩
      exact h.others.matched ⟨Or.inr ⟨hopen, tag, hlast, h.subscriber⟩, hgiven⟩
    · intro halt u h
      exact h.elim

theorem unsubscribeKeyed_matched (last : Topic → Option ℕ) (kind : KeyedKind) (key : Str) :
    Triple (Matched last) (unsubscribeKeyed kind key) (fun _ => Matched last)
      fun _ => Matched last := by
  have hrelease : ∀ w : World, PairedAt last kind key (w.update (release (.keyed kind key))) := by
    intro w
    refine ⟨Or.inl ?_, ?_⟩
    · rw [update_api, subscription_release_self, subscriber_release_self]
      exact ⟨rfl, rfl⟩
    · intro id hid
      rw [update_api, subscription_release_self] at hid
      cases hid
  apply (unsubscribeKeyed_triple matched_quiet kind key).post
  · intro _ w' h
    rcases h with h | ⟨w, id, method, h, hne, hid, rfl⟩ | ⟨w, h, hid, rfl⟩
    · exact h.1
    · exact (others_ignores.released w id method h.others hne hid).matched
        (hrelease (w.record _))
    · exact (others_ignores.dropped w h.others hid).matched (hrelease w)
  · intro halt w h
    exact h.1

theorem step_subscribeKeyed {storageKey : Api → Result Str} (hstable : Stable storageKey)
    (hperform : perform lib e.op = ObjectRuns.discard (subscribeKeyed kind storageKey key (.client tag)))
    (hpassed : ∀ t, passed t e.op = if t = .keyed kind key then some tag else none)
    (hserved : Served e)
    (hkeyable : subscription w.api (.keyed kind key) ≠ none ∨ (storageKey w.api).isOk)
    (h : Matched last w) (hstep : step lib w e = some w') :
    Matched (fun t => (passed t e.op).or (last t)) w' := by
  have hothers : Others (fun t => (passed t e.op).or (last t)) (.keyed kind key) (meets w e) := by
    intro kind' key' hne
    have hsame : (passed (.keyed kind' key') e.op).or (last (.keyed kind' key')) =
        last (.keyed kind' key') := by
      rw [hpassed, if_neg hne, Option.none_or]
    unfold PairedAt
    dsimp only
    rw [hsame]
    exact h kind' key'
  have hlast : (passed (.keyed kind key) e.op).or (last (.keyed kind key)) = some tag := by
    rw [hpassed, if_pos rfl, Option.some_or]
  have htriple := triple_discard
    (subscribeKeyed_matched hstable (fun t => (passed t e.op).or (last t)) hlast)
  rw [← hperform] at htriple
  exact step_of_triple htriple (fun _ _ hr => absurd rfl (hr _))
    ⟨⟨hserved, hothers⟩, (h kind key).2, hkeyable⟩ hstep

theorem step_unsubscribeKeyed
    (hperform : perform lib e.op = ObjectRuns.discard (unsubscribeKeyed kind key))
    (hpassed : ∀ t, passed t e.op = none) (h : Matched last w) (hstep : step lib w e = some w') :
    Matched (fun t => (passed t e.op).or (last t)) w' := by
  have hlast : (fun t => (passed t e.op).or (last t)) = last := by
    funext t
    rw [hpassed, Option.none_or]
  rw [hlast]
  have htriple := triple_discard (unsubscribeKeyed_matched last kind key)
  rw [← hperform] at htriple
  exact step_of_triple htriple (fun _ _ hr => hr) h hstep

theorem storageKey_stable (key : Str) : Stable fun _ => .ok key := fun _ _ _ => rfl

theorem step_matched (hmaps : OnMaps e) (hkeyable : Keyable lib w e) (h : Matched last w)
    (hstep : step lib w e = some w') : Matched (fun t => (passed t e.op).or (last t)) w' := by
  obtain ⟨op, answers, incoming⟩ := e
  cases op with
  | subscribeBalance address tag =>
    exact step_subscribeKeyed (addressKey_stable _ address) rfl (fun _ => rfl) hmaps hkeyable h hstep
  | subscribeAccountNonce address tag =>
    exact step_subscribeKeyed (addressKey_stable _ address) rfl (fun _ => rfl) hmaps hkeyable h hstep
  | subscribeStorage key tag =>
    exact step_subscribeKeyed (storageKey_stable key) rfl (fun _ => rfl) hmaps (Or.inr rfl) h hstep
  | unsubscribeBalance address => exact step_unsubscribeKeyed rfl (fun _ => rfl) h hstep
  | unsubscribeAccountNonce address => exact step_unsubscribeKeyed rfl (fun _ => rfl) h hstep
  | unsubscribeStorage key => exact step_unsubscribeKeyed rfl (fun _ => rfl) h hstep
  | notify id message =>
    have hquiet : Quiet (Matched last) := matched_quiet
    exact step_of_triple (meanwhile_triple hquiet.handle _) (fun _ _ hr => hr.1) h hstep
  | _ => exact hmaps.elim

theorem run_matched {es : List Event} (hmaps : ∀ e ∈ es, OnMaps e)
    (hkeyable : Along (step lib) (Keyable lib) w es) (h : Matched last w)
    (hrun : run (step lib) w es = some w') :
    Matched (fun t => es.foldl (fun last e => (passed t e.op).or last) (last t)) w' := by
  induction es generalizing w last with
  | nil =>
    cases hrun
    exact h
  | cons e es ih =>
    obtain ⟨t, ht, hrest⟩ := run_cons.1 hrun
    have hmiddle := step_matched (hmaps e List.mem_cons_self) hkeyable.1 h ht
    exact ih (fun e' he' => hmaps e' (List.mem_cons_of_mem e he')) (hkeyable.2 t ht) hmiddle hrest

end Matching

section Slots

variable {lib : Libraries} {api : Api} {w w' : World} {e : Event} {es : List Event}

def InMaps : Topic → Prop
  | .keyed _ _ => True
  | .slot _ => False

theorem touched_inMaps (h : OnMaps e) (topic : Topic) (htopic : topic ∈ e.op.touched) :
    InMaps topic := by
  obtain ⟨op, answers, incoming⟩ := e
  cases op with
  | subscribeBalance | unsubscribeBalance | subscribeAccountNonce | unsubscribeAccountNonce
  | subscribeStorage | unsubscribeStorage =>
    cases List.mem_singleton.1 htopic
    trivial
  | notify id message => cases htopic
  | _ => exact h.elim

/-- The single ids are those of the start, or a transfer has ended. -/
def SlotsOf (api : Api) (w : World) : Prop :=
  ∀ kind, (w.api.slot kind).id = (api.slot kind).id ∨ (w.api.slot kind).id = 0

theorem step_slotsOf (hmaps : OnMaps e) (h : SlotsOf api w) (hstep : step lib w e = some w') :
    SlotsOf api w' := by
  have hquiet : Quiet (SlotsOf api) := by
    refine ⟨fun _ h => h, ?_⟩
    intro w w' id message h hhandle kind
    rcases (handleWsMessage_handled hhandle).slot kind with hs | hs
    · rw [hs]
      exact h kind
    · rw [hs.2]
      exact Or.inr rfl
  have hignores : ∀ topic ∈ e.op.touched, Ignores (SlotsOf api) topic := by
    intro topic htopic
    cases topic with
    | slot kind => exact (touched_inMaps hmaps _ htopic).elim
    | keyed kind key =>
      exact ⟨⟨fun _ h _ => h, fun _ _ _ h => h, fun _ _ _ h _ _ => h, fun _ h _ => h⟩, fun _ _ h => h⟩
  have hparameters : IgnoresParameters (SlotsOf api) := by
    intro w api' _ hslot _ h kind
    rw [hslot]
    exact h kind
  have hpreserves := perform_preserves lib e.op hquiet (fun _ _ _ _ _ h => h) hparameters
    (fun _ _ h => h) hignores
  exact step_of_triple hpreserves (fun _ _ h => h) h hstep

end Slots

section Delivery

variable {api : Api} {last : Topic → Option ℕ} {w : World} {id : ℤ} {message : Json}
  {kind : KeyedKind} {key : Str}

def Apart (api : Api) (w : World) : Prop :=
  ∀ id ∈ subscribedIds w.log, ∀ kind, (api.slot kind).id ≠ id

theorem not_holds_slot (hslots : SlotsOf api w) (hfresh : Fresh w.log) (hapart : Apart api w)
    (hid : id ∈ subscribedIds w.log) (kind : SlotKind) : ¬ Holds w.api id (.slot kind) := by
  intro hholds
  have hslot : (w.api.slot kind).id = id := hholds
  rcases hslots kind with hs | hs
  · exact hapart id hid kind (hs.symm.trans hslot)
  · exact hfresh.nonzero id hid (hslot.symm.trans hs)

theorem route_keyed (hledger : Ledger InMaps w) (hslots : SlotsOf api w) (hfresh : Fresh w.log)
    (hapart : Apart api w) (hgiven : id ∈ subscribedIds w.log)
    (hid : (w.api.keyed kind).ids[key]? = some id) : route w.api id = some (.keyed kind key) := by
  have hholds : Holds w.api id (.keyed kind key) := hid
  apply route_of_unique hholds (by simp)
  intro other hother
  cases other with
  | slot k => exact absurd hother (not_holds_slot hslots hfresh hapart hgiven k)
  | keyed k other =>
    exact hledger.unique hfresh trivial trivial (hfresh.nonzero id hgiven) hother hid

theorem route_givenUp (hledger : Ledger InMaps w) (hslots : SlotsOf api w) (hfresh : Fresh w.log)
    (hapart : Apart api w) (hid : GivenUp w.log id) : route w.api id = none := by
  apply route_eq_none
  intro topic
  cases topic with
  | slot kind => exact not_holds_slot hslots hfresh hapart (hledger.given id hid) kind
  | keyed kind key =>
    intro hholds
    exact hledger.live (.keyed kind key) id trivial hholds hid

theorem Matched.keys (h : Matched last w) (kind : KeyedKind) (key : Str) :
    key ∈ (w.api.keyed kind).subscribers ↔ key ∈ (w.api.keyed kind).ids := by
  rw [← Std.ExtTreeMap.isSome_getElem?_iff_mem, ← Std.ExtTreeMap.isSome_getElem?_iff_mem]
  rcases (h kind key).1 with ⟨hid, hsubscriber⟩ | ⟨hid, tag, -, hsubscriber⟩
  · change (w.api.keyed kind).ids[key]? = none at hid
    change (w.api.keyed kind).subscribers[key]? = none at hsubscriber
    rw [hid, hsubscriber]
    rfl
  · change (w.api.keyed kind).ids[key]? ≠ none at hid
    change (w.api.keyed kind).subscribers[key]? = some (.client tag) at hsubscriber
    rw [hsubscriber, Option.isSome_iff_ne_none, Option.isSome_iff_ne_none]
    exact ⟨fun _ => hid, fun _ => by simp⟩

theorem Matched.subscriber (h : Matched last w) (hid : (w.api.keyed kind).ids[key]? = some id) :
    ∃ tag, last (.keyed kind key) = some tag ∧
      w.api.subscriber (.keyed kind key) = some (.client tag) := by
  rcases (h kind key).1 with ⟨hnone, -⟩ | ⟨-, hsubscriber⟩
  · cases hnone.symm.trans hid
  · exact hsubscriber

theorem handle_keyed {tag : ℕ} {p : Payload} (hroute : route w.api id = some (.keyed kind key))
    (hsubscriber : w.api.subscriber (.keyed kind key) = some (.client tag))
    (hpayload : payload w.api (.keyed kind key) message = .ok (some p)) :
    ∃ w', handleWsMessage w id message = .ok w' ∧
      w'.log = w.log ++ [.handled id message, .invoked id (.client tag) p] := by
  refine ⟨_, handleWsMessage_invokes hroute hpayload hsubscriber rfl, ?_⟩
  simp

end Delivery

/-- The maps are in step in every state of a run in which a storage key can be
computed for each new address. -/
theorem maps_in_step (lib : Libraries) (api : Api)
    (hempty : ∀ kind, api.keyed kind = ⟨∅, ∅⟩) (es : List Event) (w : World)
    (hmaps : ∀ e ∈ es, OnMaps e) (hrun : run (step lib) (start api) es = some w)
    (hfresh : Fresh w.log) (hapart : Apart api w)
    (hkeyable : Along (step lib) (Keyable lib) (start api) es) : InStep es w := by
  have hnone : ∀ kind key, Paired none (subscription api (.keyed kind key))
      (api.subscriber (.keyed kind key)) := by
    intro kind key
    simp [Paired, subscription, Api.subscriber, hempty]
  have hpaired : Matched (fun _ => none) (start api) := by
    intro kind key
    refine ⟨hnone kind key, ?_⟩
    intro id hid
    simp [subscription, start, hempty] at hid
  have hmatched := run_matched hmaps hkeyable hpaired hrun
  have hslots : SlotsOf api w := by
    apply run_invariant ?_ (fun _ => Or.inl rfl) (along_of_forall hmaps) hrun
    intro s e t h hm hs
    exact step_slotsOf hm h hs
  have haccounted : Accounted InMaps w := by
    refine accounted_of_run ?_ (fun e he => touched_inMaps (hmaps e he)) hrun
    intro topic htopic
    cases topic with
    | slot kind => exact htopic.elim
    | keyed kind key => simp [subscription, hempty]
  have hledger := haccounted hfresh
  constructor
  · exact hmatched.keys
  · intro kind key kind' key' id hid hid'
    have hne : id ≠ 0 := hfresh.nonzero id ((hmatched kind key).2 id hid)
    have hsame : Topic.keyed kind key = .keyed kind' key' :=
      hledger.unique hfresh trivial trivial hne hid hid'
    exact Topic.keyed.inj hsame
  · intro kind key id message p hid hpayload
    obtain ⟨tag, hlast, hsubscriber⟩ := hmatched.subscriber hid
    have hroute := route_keyed hledger hslots hfresh hapart ((hmatched kind key).2 id hid) hid
    obtain ⟨w', hhandle, hlog⟩ := handle_keyed hroute hsubscriber hpayload
    exact ⟨tag, w', hlast, hhandle, hlog⟩
  · intro id message hid
    exact handleWsMessage_unrouted (route_givenUp hledger hslots hfresh hapart hid)

theorem apart_connectedApi {w : World} (h : Fresh w.log) : Apart connectedApi w := by
  intro id hid kind hslot
  have hzero : (connectedApi.slot kind).id = 0 := by cases kind <;> rfl
  exact h.nonzero id hid (hslot.symm.trans hzero)

def useMaps : List Event :=
  [⟨.subscribeStorage (lit "0x01") 1, [answered 7], []⟩,
    ⟨.subscribeBalance knownAddress 2, [answered 8], []⟩,
    ⟨.subscribeStorage (lit "0x01") 3, [], []⟩, ⟨.unsubscribeBalance knownAddress, [confirmed], []⟩]

theorem maps_in_step_after_use : InStep useMaps (after (start connectedApi) useMaps) := by
  obtain ⟨hrun, hfresh⟩ : (run (step sampleLibraries) (start connectedApi) useMaps).isSome ∧
      Fresh (after (start connectedApi) useMaps).log := by
    decide +kernel
  exact maps_in_step sampleLibraries connectedApi (fun _ => rfl) useMaps _ (by decide +kernel)
    (run_after _ _ hrun) hfresh (apart_connectedApi hfresh) (by decide +kernel)

/-- The last character of `knownAddress` is changed, so its checksum is wrong. -/
def wrongAddress : Str := knownAddress.dropLast ++ lit "s"

def subscribeWrong : List Event := [⟨.subscribeBalance wrongAddress 1, [answered 7], []⟩]

theorem maps_in_step_fails :
    ¬ ∀ lib api, (∀ kind, api.keyed kind = ⟨∅, ∅⟩) → ∀ es w, (∀ e ∈ es, OnMaps e) →
      run (step lib) (start api) es = some w → Fresh w.log → Apart api w → InStep es w := by
  intro hall
  obtain ⟨hrun, hfresh, hcallback, hid⟩ :
      (run (step sampleLibraries) (start connectedApi) subscribeWrong).isSome ∧
      Fresh (after (start connectedApi) subscribeWrong).log ∧
      wrongAddress ∈
        ((after (start connectedApi) subscribeWrong).api.keyed .balance).subscribers ∧
      wrongAddress ∉ ((after (start connectedApi) subscribeWrong).api.keyed .balance).ids := by
    decide +kernel
  have hstep := hall sampleLibraries connectedApi (fun _ => rfl) subscribeWrong _
    (by decide +kernel) (run_after _ _ hrun) hfresh (apart_connectedApi hfresh)
  have hkeys := hstep.keys .balance wrongAddress
  exact hid (hkeys.1 hcallback)

end PolkadotApi.KeyedSubscriptions
