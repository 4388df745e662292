import PolkadotApi.EraProgress

set_option autoImplicit false

namespace PolkadotApi.ChangedKeys
open MachineModel JsonValues Notifications Subscriptions ObjectRuns EraProgress

def eraKeys (api : Api) : List Str :=
  if api.isEpoch then
    [api.storageKeyBabeEpochIndex, api.storageKeyBabeGenesisSlot, api.storageKeyBabeCurrentSlot]
  else
    [LAST_LENGTH_CHANGE_SUBSCRIPTION, SESSION_LENGTH_SUBSCRIPTION, api.storageKeyCurrentEra,
      api.storageKeySessionsPerEra, api.storageKeyCurrentSessionIndex]

theorem eraQuery_eq (api : Api) :
    eraQuery api = query "state_subscribeStorage" (storageParams (eraKeys api)) := by
  unfold eraQuery eraKeys
  split_ifs <;> rfl

theorem eraKeys_length (api : Api) : (eraKeys api).length = if api.isEpoch then 3 else 5 := by
  unfold eraKeys
  split_ifs <;> rfl

/-- The notification lists the keys in this order, each with its value. -/
def Lists (ks : List Str) (value : Str → Json) (message : Json) : Prop :=
  message.field "changes" = .array (ks.map fun key => .array [.string key, value key])

def Assigns (api : Api) (ks : List Str) : Prop :=
  ∀ value message, Lists ks value message → ∀ i key, (eraKeys api)[i]? = some key → key ∈ ks →
    changeAt message i = value key

/-- Two notifications that list the same values lead to the same call. -/
def SameCalls (api : Api) (ks ks' : List Str) : Prop :=
  ∀ value message message', Lists ks value message → Lists ks' value message' →
    ∀ w id tag, w.api = api → route api id = some eraAndSession →
      api.subscriber eraAndSession = some (.client tag) → ∀ p,
        Calls w id message tag p ↔ Calls w id message' tag p

/-- Every listed key stands at the index that it has in the subscription. -/
def InPlace (keys ks : List Str) : Prop :=
  ∀ (i : ℕ) (key : Str), keys[i]? = some key → key ∈ ks → ks[i]? = some key

section Reading

variable {api : Api} {keys ks ks' : List Str} {value : Str → Json} {message message' : Json}

theorem Lists.changeAt_eq (h : Lists ks value message) (i : ℕ) :
    changeAt message i = (ks[i]?.map value).getD .null := by
  rw [changeAt, h, Json.item, List.getD_eq_getElem?_getD, List.getElem?_map]
  cases ks[i]? <;> rfl

theorem assigns_iff : Assigns api ks ↔ InPlace (eraKeys api) ks := by
  constructor
  · intro h i key hkey hmem
    let value : Str → Json := fun k => .bool (decide (k = key))
    have hlists : Lists ks value (.object [(lit "changes",
        .array (ks.map fun key => .array [.string key, value key]))]) := rfl
    have hread := h value _ hlists i key hkey hmem
    rw [hlists.changeAt_eq] at hread
    cases hget : ks[i]? with
    | none =>
      rw [hget] at hread
      cases hread
    | some k =>
      rw [hget] at hread
      have hbool : decide (k = key) = decide (key = key) := Json.bool.inj hread
      rw [decide_eq_true (rfl : key = key), decide_eq_true_iff] at hbool
      rw [hbool]
  · intro h value message hlists i key hkey hmem
    rw [hlists.changeAt_eq, h i key hkey hmem]
    rfl

theorem inPlace_of_isPrefix (hnodup : keys.Nodup) (h : ks <+: keys) : InPlace keys ks := by
  intro i key hkey hmem
  obtain ⟨rest, rfl⟩ := h
  obtain ⟨j, hj⟩ := List.mem_iff_getElem?.1 hmem
  have hfront : (ks ++ rest)[j]? = some key := by
    rw [List.getElem?_append_left (List.getElem?_eq_some_iff.1 hj).1]
    exact hj
  have hlt := (List.getElem?_eq_some_iff.1 hkey).1
  have hij := (List.getElem?_inj hlt hnodup).1 (hkey.trans hfront.symm)
  rw [hij]
  exact hj

theorem InPlace.getElem?_eq_none (h : InPlace keys ks) (hnodup : ks.Nodup) (hlisted : ks ⊆ keys)
    {i : ℕ} {key : Str} (hkey : keys[i]? = some key) (hmem : key ∉ ks) : ks[i]? = none := by
  by_contra hne
  obtain ⟨other, hother⟩ := Option.ne_none_iff_exists'.1 hne
  have hin := List.mem_of_getElem? hother
  obtain ⟨j, hj⟩ := List.mem_iff_getElem?.1 (hlisted hin)
  have hplace := h j other hj hin
  have hlt := (List.getElem?_eq_some_iff.1 hother).1
  have hij := (List.getElem?_inj hlt hnodup).1 (hother.trans hplace.symm)
  subst hij
  cases hkey.symm.trans hj
  exact hmem hin

theorem InPlace.agree (h : InPlace keys ks) (h' : InPlace keys ks') (hnodup : ks.Nodup)
    (hlisted : ks ⊆ keys) (hperm : ks.Perm ks') {i : ℕ} (hi : i < keys.length) :
    ks[i]? = ks'[i]? := by
  have hkey := List.getElem?_eq_getElem hi
  by_cases hmem : keys[i] ∈ ks
  · rw [h i _ hkey hmem, h' i _ hkey (hperm.mem_iff.1 hmem)]
  · have hmem' : keys[i] ∉ ks' := fun hin => hmem (hperm.mem_iff.2 hin)
    have hlisted' : ks' ⊆ keys := fun key hin => hlisted (hperm.mem_iff.2 hin)
    rw [h.getElem?_eq_none hnodup hlisted hkey hmem,
      h'.getElem?_eq_none (hperm.nodup_iff.1 hnodup) hlisted' hkey hmem']

theorem changeValue_congr {i : ℕ} (h : changeAt message i = changeAt message' i) :
    changeValue message i = changeValue message' i := by
  rw [changeValue, changeValue, h]

theorem payload_congr (h : ∀ i < (eraKeys api).length, changeAt message i = changeAt message' i) :
    payload api eraAndSession message = payload api eraAndSession message' := by
  have hvalue : ∀ i < (eraKeys api).length, changeValue message i = changeValue message' i :=
    fun i hi => changeValue_congr (h i hi)
  rw [eraKeys_length] at hvalue
  cases hmode : api.isEpoch with
  | true =>
    rw [hmode] at hvalue
    rw [payload_epochs hmode, payload_epochs hmode]
    simp only [epochUpdate, hvalue 0 (by decide), hvalue 1 (by decide), hvalue 2 (by decide)]
  | false =>
    rw [hmode] at hvalue
    rw [payload_sessions hmode, payload_sessions hmode]
    simp only [sessionUpdate, hvalue 0 (by decide), hvalue 1 (by decide), hvalue 2 (by decide),
      hvalue 3 (by decide), hvalue 4 (by decide)]

theorem sameCalls_of_inPlace (hnodup : ks.Nodup) (hlisted : ks ⊆ eraKeys api)
    (hperm : ks.Perm ks') (h : InPlace (eraKeys api) ks) (h' : InPlace (eraKeys api) ks') :
    SameCalls api ks ks' := by
  intro value message message' hlists hlists' w id tag hw hroute hsubscriber p
  subst hw
  have hpayload : payload w.api eraAndSession message = payload w.api eraAndSession message' := by
    apply payload_congr
    intro i hi
    rw [hlists.changeAt_eq, hlists'.changeAt_eq, h.agree h' hnodup hlisted hperm hi]
  rw [calls_iff hroute hsubscriber, calls_iff hroute hsubscriber, hpayload]

end Reading

/-- Two notifications with the same subscribed keys are read by key exactly if all their
keys stand at the indexes of the subscription. -/
theorem changed_keys_iff {api : Api} {ks ks' : List Str} (hnodup : ks.Nodup)
    (hlisted : ks ⊆ eraKeys api) (hperm : ks.Perm ks') :
    (SameCalls api ks ks' ∧ Assigns api ks ∧ Assigns api ks') ↔
      InPlace (eraKeys api) ks ∧ InPlace (eraKeys api) ks' := by
  rw [assigns_iff, assigns_iff]
  constructor
  · rintro ⟨-, h⟩
    exact h
  · intro h
    exact ⟨sameCalls_of_inPlace hnodup hlisted hperm h.1 h.2, h⟩

def sessionObject : Api := { construct blankMemory with
  storageKeyCurrentEra := lit "0x01"
  storageKeySessionsPerEra := lit "0x02"
  storageKeyCurrentSessionIndex := lit "0x03" }

theorem changed_keys_iff_firstTwo :
    Assigns sessionObject [LAST_LENGTH_CHANGE_SUBSCRIPTION, SESSION_LENGTH_SUBSCRIPTION] := by
  obtain ⟨hkeys, hks⟩ : (eraKeys sessionObject).Nodup ∧
      [LAST_LENGTH_CHANGE_SUBSCRIPTION, SESSION_LENGTH_SUBSCRIPTION].Nodup := by decide +kernel
  have hfront : [LAST_LENGTH_CHANGE_SUBSCRIPTION, SESSION_LENGTH_SUBSCRIPTION] <+:
      eraKeys sessionObject := ⟨_, rfl⟩
  have hplace := inPlace_of_isPrefix hkeys hfront
  exact ((changed_keys_iff hks hfront.subset (List.Perm.refl _)).2 ⟨hplace, hplace⟩).2.1

/-- A new session length alone is taken for the block of the last change. -/
theorem changed_keys_fails :
    ¬ ∀ (api : Api) (ks ks' : List Str), ks.Nodup → ks ⊆ eraKeys api → ks.Perm ks' →
      SameCalls api ks ks' ∧ Assigns api ks ∧ Assigns api ks' := by
  intro hall
  have hlisted : [SESSION_LENGTH_SUBSCRIPTION] ⊆ eraKeys sessionObject := by
    intro key hkey
    rw [List.mem_singleton.1 hkey]
    exact List.mem_cons_of_mem _ List.mem_cons_self
  have hread := (hall sessionObject _ _ (List.nodup_singleton _) hlisted (List.Perm.refl _)).2.1
  have hlists : Lists [SESSION_LENGTH_SUBSCRIPTION] (fun _ => .string (lit "0x14"))
      (.object [(lit "changes", .array [.array [.string SESSION_LENGTH_SUBSCRIPTION,
        .string (lit "0x14")]])]) := rfl
  have hnull := hread _ _ hlists 1 _ rfl List.mem_cons_self
  rw [hlists.changeAt_eq] at hnull
  cases hnull

end PolkadotApi.ChangedKeys
