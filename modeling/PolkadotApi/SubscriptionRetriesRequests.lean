import PolkadotApi.FailedSubscriptions
import PolkadotApi.SubscriptionLedger

set_option autoImplicit false

namespace PolkadotApi.SubscriptionRetries
open StatefulActions MachineModel JsonValues StorageKeys Subscriptions SubscriptionFrames
open CallSpecifications ObjectRuns StepRuns Reconnection FailedSubscriptions SubscriptionLedger

section Requests

/-- The ids in the first `n` answers, unless one of them is an exception. -/
def grantedIds : ℕ → List Answer → Option (List ℤ)
  | 0, _ => some []
  | n + 1, answers =>
    match (answers.headD ⟨.ok .null, []⟩).reply with
    | .error _ => none
    | .ok json => (grantedIds n answers.tail).map (json.intValue :: ·)

def NonzeroIds (lib : Libraries) (w : World) (e : Event) : Prop :=
  ∀ ids ∈ grantedIds (requests lib w.api e.op).length e.answers, 0 ∉ ids

def isKey : Topic → Bool
  | .keyed _ _ => true
  | .slot _ => false

/-- Moreover no request for a key is refused. -/
def Granted (lib : Libraries) (w : World) (e : Event) : Prop :=
  NonzeroIds lib w e ∧ ((requests lib w.api e.op).any isKey →
    (grantedIds (requests lib w.api e.op).length e.answers).isSome)

instance (lib : Libraries) (w : World) (e : Event) : Decidable (Granted lib w e) :=
  inferInstanceAs (Decidable ((∀ ids ∈ grantedIds _ _, 0 ∉ ids) ∧ (_ → _)))

theorem grantedIds_add (n m : ℕ) (answers : List Answer) :
    grantedIds (n + m) answers = (grantedIds n answers).bind fun ids =>
      (grantedIds m (answers.drop n)).map (ids ++ ·) := by
  induction n generalizing answers with
  | zero => simp [grantedIds]
  | succ n ih =>
    rw [Nat.succ_add, grantedIds, grantedIds]
    cases (answers.headD ⟨.ok .null, []⟩).reply with
    | error e => rfl
    | ok json =>
      dsimp only
      rw [ih, List.drop_tail]
      cases grantedIds n answers.tail with
      | none => rfl
      | some ids => cases grantedIds m (answers.drop (n + 1)) <;> rfl

variable {w u v : World} {n m : ℕ} {ids ids' : List ℤ} {lib : Libraries}

theorem grantedIds_one (w : World) :
    grantedIds 1 w.answers = w.answer.reply.toOption.map fun json => [json.intValue] := by
  change (match w.answer.reply with | .error _ => none | .ok json => some [json.intValue]) = _
  cases w.answer.reply <;> rfl

/-- Between the two states `n` requests were answered, with these ids. -/
structure Asked (n : ℕ) (ids : List ℤ) (w u : World) : Prop where
  given : grantedIds n w.answers = some ids
  answers : u.answers = w.answers.drop n
  log : ∃ l, u.log = w.log ++ l ∧ subscribedIds l = ids

theorem asked_update (w : World) (f : Api → Api) : Asked 0 [] w (w.update f) :=
  ⟨rfl, rfl, [], by simp [World.update], rfl⟩

theorem Asked.trans (h : Asked n ids w u) (h' : Asked m ids' u v) :
    Asked (n + m) (ids ++ ids') w v := by
  obtain ⟨l, hl, hids⟩ := h.log
  obtain ⟨l', hl', hids'⟩ := h'.log
  refine ⟨?_, by rw [h'.answers, h.answers, List.drop_drop], l ++ l', ?_, ?_⟩
  · have hgiven := h'.given
    rw [h.answers] at hgiven
    rw [grantedIds_add, h.given, Option.bind_some, hgiven]
    rfl
  · rw [hl', hl, List.append_assoc]
  · rw [subscribedIds_append, hids, hids']

theorem handleAll_handled {notifications : List (ℤ × Json)}
    (h : handleAll w notifications = .ok u) : Handled w u :=
  handleAll_induction (fun _ _ _ _ hw hh => hw.trans (handleWsMessage_handled hh))
    (Handled.refl w) h

theorem asked_answer {topic : Topic} {q json : Json} {f g : Api → Api}
    (hall : handleAll (w.update g).popped w.answer.during = .ok u)
    (hreply : w.answer.reply = .ok json) :
    Asked 1 [json.intValue] w ((u.record (.subscribed topic q json.intValue)).update f) := by
  have hh := handleAll_handled hall
  obtain ⟨l, hl, hhandled⟩ := hh.log
  refine ⟨?_, ?_, l ++ [.subscribed topic q json.intValue], ?_, ?_⟩
  · rw [grantedIds_one, hreply]
    rfl
  · change u.answers = _
    rw [hh.answers]
    exact List.drop_one.symm
  · change u.log ++ _ = _
    rw [hl, List.append_assoc]
    rfl
  · rw [subscribedIds_append, subscribedIds_handled hhandled]
    rfl

theorem unopened_slot_length (api : Api) (kind : SlotKind) :
    (unopened api (.slot kind)).length = if (api.slot kind).id = 0 then 1 else 0 := by
  unfold unopened subscription
  split_ifs <;> simp_all

theorem openSlot_asked {kind : SlotKind} {q : Api → Json}
    (h : (openSlot kind q).run w = .ok () u) :
    ∃ ids, Asked (unopened w.api (.slot kind)).length ids w u := by
  rw [unopened_slot_length]
  rcases openSlot_eq_ok h with ⟨hid, rfl⟩ | ⟨v, json, hid, hall, hreply, rfl⟩
  · rw [if_neg hid]
    exact ⟨[], asked_update u id⟩
  · rw [if_pos hid]
    exact ⟨_, asked_answer (g := id) hall hreply⟩

theorem unopenedKey_of_open {api : Api} {kind : KeyedKind} {key : Str}
    (h : (api.keyed kind).ids[key]? ≠ none) (storageKey : Api → Result Str) :
    unopenedKey api (.keyed kind key) storageKey = [] := by
  rw [unopenedKey, unopened, subscription, if_neg h, ite_self]

theorem unopenedKey_of_closed {api : Api} {kind : KeyedKind} {key : Str}
    (h : (api.keyed kind).ids[key]? = none) (storageKey : Api → Result Str) :
    unopenedKey api (.keyed kind key) storageKey =
      if (storageKey api).isOk then [.keyed kind key] else [] := by
  rw [unopenedKey, unopened, subscription, if_pos h]

theorem openKeyed_asked {kind : KeyedKind} {storageKey : Api → Result Str} {key : Str}
    (h : (openKeyed kind storageKey key).run w = .ok () u) :
    ∃ ids, Asked (unopenedKey w.api (.keyed kind key) storageKey).length ids w u := by
  rcases openKeyed_eq_ok h with ⟨hid, rfl⟩ | ⟨v, json, text, q, hid, htext, hall, hreply, rfl⟩
  · rw [unopenedKey_of_open hid]
    exact ⟨[], asked_update u id⟩
  · rw [unopenedKey_of_closed hid, htext]
    exact ⟨_, asked_answer hall hreply⟩

theorem openSlot_refused {kind : SlotKind} {q : Api → Json} {exception : Exception}
    (h : (openSlot kind q).run w = .error (.thrown exception) u) :
    grantedIds (unopened w.api (.slot kind)).length w.answers = none := by
  obtain ⟨hid, -, hreply⟩ := openSlot_eq_thrown h
  rw [unopened_slot_length, if_pos hid, grantedIds_one, hreply]
  rfl

theorem openKeyed_refused {kind : KeyedKind} {storageKey : Api → Result Str} {key : Str}
    {exception : Exception}
    (h : (openKeyed kind storageKey key).run w = .error (.thrown exception) u) :
    ∀ ids ∈ grantedIds (unopenedKey w.api (.keyed kind key) storageKey).length w.answers,
      ids = [] := by
  intro ids hids
  obtain ⟨hid, hwhy⟩ := openKeyed_eq_thrown h
  rw [unopenedKey_of_closed hid] at hids
  rcases hwhy with ⟨-, hnone⟩ | ⟨hok, -, hreply⟩
  · rw [hnone] at hids
    exact (Option.some.inj hids).symm
  · rw [hok] at hids
    change grantedIds 1 w.answers = some ids at hids
    rw [grantedIds_one, hreply] at hids
    cases hids

end Requests

section Calls

variable {α β : Type} {n m : World → ℕ} {lib : Libraries} {callback : Callback}

/-- A call that makes `n` requests has got as many answers when it returns; when it
throws, one of them was refused or it did not come to make any. -/
structure Asks (n : World → ℕ) (x : Action α) : Prop where
  returned : ∀ w u a, x.run w = .ok a u → ∃ ids, Asked (n w) ids w u
  thrown : ∀ w u exception, x.run w = .error (.thrown exception) u →
    ∀ ids ∈ grantedIds (n w) w.answers, ids = []

theorem asks_openSlot (kind : SlotKind) (q : Api → Json) :
    Asks (fun w => (unopened w.api (.slot kind)).length) (openSlot kind q) := by
  constructor
  · intro w u _ h
    exact openSlot_asked h
  · intro w u exception h ids hids
    rw [openSlot_refused h] at hids
    cases hids

theorem asks_openKeyed (kind : KeyedKind) (storageKey : Api → Result Str) (key : Str) :
    Asks (fun w => (unopenedKey w.api (.keyed kind key) storageKey).length)
      (openKeyed kind storageKey key) :=
  ⟨fun _ _ _ h => openKeyed_asked h, fun _ _ _ h => openKeyed_refused h⟩

theorem Asks.bind_pure {x : Action α} (h : Asks n x) (b : β) : Asks n (x >>= fun _ => pure b) := by
  constructor
  · intro w u _ hrun
    obtain ⟨a, v, hx, hpure⟩ := run_bind_eq_ok hrun
    cases hpure
    exact h.returned w u a hx
  · intro w u exception hrun
    rcases run_bind_eq_error hrun with hx | ⟨a, v, -, hpure⟩
    · exact h.thrown w u exception hx
    · cases hpure

theorem Asks.update_bind {x : Action α} (h : Asks n x) {f : Api → Api}
    (hn : ∀ w, n (w.update f) = m w) : Asks m (update f >>= fun _ => x) := by
  constructor
  · intro w u a hrun
    obtain ⟨_, v, hset, hx⟩ := run_bind_eq_ok hrun
    cases hset
    obtain ⟨ids, hasked⟩ := h.returned _ u a hx
    have htotal := (asked_update w f).trans hasked
    rw [Nat.zero_add, List.nil_append, hn] at htotal
    exact ⟨ids, htotal⟩
  · intro w u exception hrun ids hids
    rcases run_bind_eq_error hrun with hset | ⟨_, v, hset, hx⟩
    · cases hset
    · cases hset
      rw [← hn] at hids
      exact h.thrown _ u exception hx ids hids

theorem unopened_setCallback (api : Api) (t topic : Topic) :
    unopened (setCallback t callback api) topic = unopened api topic := by
  rw [unopened, unopened, subscription_setCallback]

theorem asks_subscribeSlot (kind : SlotKind) (q : Api → Json) :
    Asks (fun w => (unopened w.api (.slot kind)).length) (subscribeSlot kind q callback) := by
  apply ((asks_openSlot kind q).bind_pure PAPI_OK).update_bind
  intro w
  exact congrArg List.length (unopened_setCallback w.api (.slot kind) (.slot kind))

theorem subscribeSlot_refused {kind : SlotKind} {q : Api → Json} {w u : World}
    {exception : Exception}
    (h : (subscribeSlot kind q callback).run w = .error (.thrown exception) u) :
    grantedIds (unopened w.api (.slot kind)).length w.answers = none := by
  rcases run_bind_eq_error h with hset | ⟨_, v, hset, h⟩
  · cases hset
  cases hset
  rcases run_bind_eq_error h with hopen | ⟨_, v, -, hpure⟩
  · rw [← unopened_setCallback w.api (.slot kind) (.slot kind)]
    exact openSlot_refused hopen
  · cases hpure

theorem asks_subscribeKeyed (kind : KeyedKind) (storageKey : Api → Result Str) (key : Str)
    (hkey : ∀ api, storageKey (setCallback (.keyed kind key) callback api) = storageKey api) :
    Asks (fun w => (unopenedKey w.api (.keyed kind key) storageKey).length)
      (subscribeKeyed kind storageKey key callback) := by
  apply ((asks_openKeyed kind storageKey key).bind_pure PAPI_OK).update_bind
  intro w
  change (unopenedKey (setCallback (.keyed kind key) callback w.api) _ _).length = _
  rw [unopenedKey, hkey, unopened_setCallback]
  rfl

theorem subscribeBlockNumber_era {w u : World} {code : ℤ}
    (h : (subscribeBlockNumber callback).run w = .ok code u) :
    unopened u.api (.slot .eraAndSession) = unopened w.api (.slot .eraAndSession) := by
  have hquiet : Quiet fun v => subscription v.api (.slot .eraAndSession) =
      subscription w.api (.slot .eraAndSession) :=
    quiet_view (F := fun id _ => id = subscription w.api (.slot .eraAndSession)) (by decide)
  have hignores : Ignores (fun v => subscription v.api (.slot .eraAndSession) =
      subscription w.api (.slot .eraAndSession)) (.slot .blockNumber) :=
    ignores_of_ne (F := fun id _ => id = subscription w.api (.slot .eraAndSession)) (by decide)
  have hsame := (preserves_subscribeSlot hquiet hignores).of_ok rfl h
  rw [unopened, unopened, hsame]

theorem asks_subscribeEraAndSession :
    Asks (fun w => (unopened w.api (.slot .blockNumber) ++
      unopened w.api (.slot .eraAndSession)).length) (subscribeEraAndSession callback) := by
  have hfirst : Asks (fun w => (unopened w.api (.slot .blockNumber)).length)
      (subscribeBlockNumber .updateBestBlock) := asks_subscribeSlot _ _
  have hsecond := (asks_openSlot .eraAndSession eraQuery).bind_pure PAPI_OK
  have hboth : Asks (fun w => (unopened w.api (.slot .blockNumber) ++
      unopened w.api (.slot .eraAndSession)).length) (do
        let _ ← subscribeBlockNumber .updateBestBlock
        openSlot .eraAndSession eraQuery
        return PAPI_OK) := by
    constructor
    · intro w u code hrun
      obtain ⟨_, v, hblock, hera⟩ := run_bind_eq_ok hrun
      obtain ⟨ids, hasked⟩ := hfirst.returned w v _ hblock
      obtain ⟨ids', hasked'⟩ := hsecond.returned v u code hera
      rw [subscribeBlockNumber_era hblock] at hasked'
      rw [List.length_append]
      exact ⟨_, hasked.trans hasked'⟩
    · intro w u exception hrun ids hids
      rw [List.length_append, grantedIds_add] at hids
      obtain ⟨idsFirst, hidsFirst, hids⟩ := Option.bind_eq_some_iff.1 hids
      rcases run_bind_eq_error hrun with hblock | ⟨_, v, hblock, hera⟩
      · rw [subscribeSlot_refused hblock] at hidsFirst
        cases hidsFirst
      · obtain ⟨_, hasked⟩ := hfirst.returned w v _ hblock
        rcases run_bind_eq_error hera with hopen | ⟨_, v', -, hpure⟩
        · have hrefused := openSlot_refused hopen
          rw [subscribeBlockNumber_era hblock, hasked.answers] at hrefused
          rw [hrefused] at hids
          cases hids
        · cases hpure
  apply hboth.update_bind
  intro w
  exact congrArg List.length (congrArg₂ _ (unopened_setCallback w.api (.slot .eraAndSession) _)
    (unopened_setCallback w.api (.slot .eraAndSession) _))

/-- Every subscribe call makes the requests that the state before it tells. -/
theorem asks_perform {op : Operation} {topic : Topic} (h : target op = some topic) :
    Asks (fun w => (requests lib w.api op).length) (perform lib op) := by
  cases op with
  | subscribeBlockNumber tag => exact (asks_subscribeSlot _ _).bind_pure ()
  | subscribeFinalizedBlock tag => exact (asks_subscribeSlot _ _).bind_pure ()
  | subscribeRuntimeVersion tag => exact (asks_subscribeSlot _ _).bind_pure ()
  | subscribeEraAndSession tag => exact asks_subscribeEraAndSession.bind_pure ()
  | subscribeBalance address tag => exact (asks_subscribeKeyed _ _ _ fun _ => rfl).bind_pure ()
  | subscribeAccountNonce address tag => exact (asks_subscribeKeyed _ _ _ fun _ => rfl).bind_pure ()
  | subscribeStorage key tag =>
    exact (asks_subscribeKeyed .storage (fun _ => .ok key) key fun _ => rfl).bind_pure ()
  | _ => cases h

end Calls

end PolkadotApi.SubscriptionRetries
