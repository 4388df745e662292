import PolkadotApi.BlockQueries
import PolkadotApi.IndexedFill

set_option autoImplicit false

namespace PolkadotApi.NetworkStates
open StreamReader MachineModel JsonValues Notifications JsonBounds BlockQueries IndexedFill

abbrev Texts := ℕ → Str

structure Endpoint where
  dialing : Str

structure ConnectedPeerTime where
  nanos : ℕ
  secs : ℕ

structure ConnectedPeerInfo where
  enabled : Bool
  endpoint : Endpoint
  knownAddresses : Texts
  latestPingTime : ConnectedPeerTime
  isOpen : Bool
  versionString : Str

structure NotConnectedPeerInfo where
  knownAddresses : Texts

structure ConnectedPeer where
  key : Str
  connectedPeerInfo : ConnectedPeerInfo

structure NotConnectedPeer where
  key : Str
  notConnectedPeerInfo : NotConnectedPeerInfo

structure NetworkState where
  averageDownloadPerSec : ℕ
  averageUploadPerSec : ℕ
  connectedPeers : ℕ → ConnectedPeer
  externalAddresses : Texts
  listenedAddresses : Texts
  notConnectedPeers : ℕ → NotConnectedPeer
  peerId : Str
  peerset : Str

def noTexts : Texts := fun _ => []

def ConnectedPeer.zero : ConnectedPeer := ⟨[], ⟨false, ⟨[]⟩, noTexts, ⟨0, 0⟩, false, []⟩⟩

def NotConnectedPeer.zero : NotConnectedPeer := ⟨[], ⟨noTexts⟩⟩

def storeTexts (list : Json) (cells : Texts) : Result Texts :=
  fillFrom .undefined COLLECTION_SIZE (fun item _ => strcpy item.stringValue) (arrayItems list) 0
    cells

def storeConnectedPeer (item : Str × Json) (peer : ConnectedPeer) : Result ConnectedPeer := do
  let key ← strcpy item.1
  let dialing ← strcpy (item.2.field "dialing").stringValue
  let knownAddresses ← storeTexts (item.2.field "knownAddresses")
    peer.connectedPeerInfo.knownAddresses
  let nanos := ((item.2.field "latestPingTime").field "nanos").intValue
  let secs := ((item.2.field "latestPingTime").field "secs").intValue
  let versionString ← strcpy (item.2.field "versionString").stringValue
  return ⟨key, ⟨(item.2.field "enabled").boolValue, ⟨dialing⟩, knownAddresses,
    ⟨(nanos % 2 ^ 64).toNat, (secs % 2 ^ 64).toNat⟩, (item.2.field "open").boolValue,
    versionString⟩⟩

def storeNotConnectedPeer (item : Str × Json) (peer : NotConnectedPeer) :
    Result NotConnectedPeer := do
  let key ← strcpy item.1
  let knownAddresses ← storeTexts (item.2.field "knownAddresses")
    peer.notConnectedPeerInfo.knownAddresses
  return ⟨key, ⟨knownAddresses⟩⟩

/-- The index is set to zero before the loop and never advanced. -/
def storeNotConnectedPeers : List (Str × Json) → (ℕ → NotConnectedPeer) →
    Result (ℕ → NotConnectedPeer)
  | [], peers => .ok peers
  | item :: items, peers => do
    let peer ← storeNotConnectedPeer item (peers 0)
    storeNotConnectedPeers items (Function.update peers 0 peer)

def createNetworkState (jsonObject : Json) : Result NetworkState := do
  let connectedPeers ← fillFrom .undefined COLLECTION_SIZE storeConnectedPeer
    (jsonObject.field "connectedPeers").objectItems 0 (fun _ => ConnectedPeer.zero)
  let externalAddresses ← storeTexts (jsonObject.field "externalAddresses") noTexts
  let listenedAddresses ← storeTexts (jsonObject.field "listenedAddresses") noTexts
  let notConnectedPeers ← storeNotConnectedPeers
    (jsonObject.field "notConnectedPeers").objectItems (fun _ => NotConnectedPeer.zero)
  let peerId ← strcpy (jsonObject.field "peerId").stringValue
  let peerset ← strcpy (jsonObject.field "peerset").stringValue
  return ⟨((jsonObject.field "averageDownloadPerSec").intValue % 2 ^ 32).toNat,
    ((jsonObject.field "averageUploadPerSec").intValue % 2 ^ 32).toNat, connectedPeers,
    externalAddresses, listenedAddresses, notConnectedPeers, peerId, peerset⟩

section Stores

abbrev Fits : Json → Prop := All Short (· ≤ COLLECTION_SIZE)

theorem storeTexts_eq {list : Json} (h : Fits list) (cells : Texts) :
    storeTexts list cells = .ok (laid 0 ((texts list).map cstr) cells) := by
  have hroom : (arrayItems list).length ≤ COLLECTION_SIZE := h.arrayItems_length (Nat.zero_le _)
  rw [storeTexts, fillFrom_eq (fun item => cstr item.stringValue), texts, List.map_map]
  · rfl
  · intro item hitem j _
    exact (All.stringValue (h.arrayItems item hitem) short_nil).strcpy
  · rwa [Nat.zero_add]

/-- What a connected peer becomes when an entry is stored to its slot. -/
def connectedPeerOver (item : Str × Json) (peer : ConnectedPeer) : ConnectedPeer :=
  ⟨cstr item.1, ⟨(item.2.field "enabled").boolValue, ⟨cstr (item.2.field "dialing").stringValue⟩,
    laid 0 ((texts (item.2.field "knownAddresses")).map cstr) peer.connectedPeerInfo.knownAddresses,
    ⟨(((item.2.field "latestPingTime").field "nanos").intValue % 2 ^ 64).toNat,
      (((item.2.field "latestPingTime").field "secs").intValue % 2 ^ 64).toNat⟩,
    (item.2.field "open").boolValue, cstr (item.2.field "versionString").stringValue⟩⟩

def notConnectedPeerOver (item : Str × Json) (peer : NotConnectedPeer) : NotConnectedPeer :=
  ⟨cstr item.1, ⟨laid 0 ((texts (item.2.field "knownAddresses")).map cstr)
    peer.notConnectedPeerInfo.knownAddresses⟩⟩

theorem storeConnectedPeer_eq {item : Str × Json} (hkey : Short item.1) (h : Fits item.2)
    (peer : ConnectedPeer) :
    storeConnectedPeer item peer = .ok (connectedPeerOver item peer) := by
  have hcopy : ∀ key, strcpy (item.2.field key).stringValue =
      .ok (cstr (item.2.field key).stringValue) := fun key =>
    (All.stringValue (h.field key) short_nil).strcpy
  rw [storeConnectedPeer, hkey.strcpy, except_ok_bind, hcopy, except_ok_bind,
    storeTexts_eq (h.field "knownAddresses"), except_ok_bind]
  simp only [hcopy, except_ok_bind]
  rfl

theorem storeNotConnectedPeer_eq {item : Str × Json} (hkey : Short item.1) (h : Fits item.2)
    (peer : NotConnectedPeer) :
    storeNotConnectedPeer item peer = .ok (notConnectedPeerOver item peer) := by
  rw [storeNotConnectedPeer, hkey.strcpy, except_ok_bind,
    storeTexts_eq (h.field "knownAddresses"), except_ok_bind]
  rfl

/-- Every entry is stored over the one before it, in the first slot. -/
theorem storeNotConnectedPeers_eq {items : List (Str × Json)}
    (h : ∀ item ∈ items, Short item.1 ∧ Fits item.2) (peers : ℕ → NotConnectedPeer) :
    storeNotConnectedPeers items peers = .ok (Function.update peers 0
      (items.foldl (fun peer item => notConnectedPeerOver item peer) (peers 0))) := by
  induction items generalizing peers with
  | nil => rw [storeNotConnectedPeers, List.foldl_nil, Function.update_eq_self]
  | cons item items ih =>
    obtain ⟨hkey, hitem⟩ := h item (by simp)
    rw [storeNotConnectedPeers, storeNotConnectedPeer_eq hkey hitem, except_ok_bind,
      ih (fun x hx => h x (by simp [hx])), Function.update_self, Function.update_idem,
      List.foldl_cons]

def connectedPeers (jsonObject : Json) : List (Str × Json) :=
  (jsonObject.field "connectedPeers").objectItems

def notConnectedPeers (jsonObject : Json) : List (Str × Json) :=
  (jsonObject.field "notConnectedPeers").objectItems

theorem createNetworkState_eq {jsonObject : Json} (h : Fits jsonObject) :
    ∃ state, createNetworkState jsonObject = .ok state ∧
      state.connectedPeers = laid 0 ((connectedPeers jsonObject).map
        (fun item => connectedPeerOver item ConnectedPeer.zero)) (fun _ => ConnectedPeer.zero) ∧
      state.externalAddresses =
        laid 0 ((texts (jsonObject.field "externalAddresses")).map cstr) noTexts ∧
      state.listenedAddresses =
        laid 0 ((texts (jsonObject.field "listenedAddresses")).map cstr) noTexts ∧
      state.notConnectedPeers = Function.update (fun _ => NotConnectedPeer.zero) 0
        ((notConnectedPeers jsonObject).foldl (fun peer item => notConnectedPeerOver item peer)
          NotConnectedPeer.zero) := by
  have hpeers : fillFrom Fault.undefined COLLECTION_SIZE storeConnectedPeer
      (jsonObject.field "connectedPeers").objectItems 0 (fun _ => ConnectedPeer.zero) =
      .ok (laid 0 ((connectedPeers jsonObject).map
        (fun item => connectedPeerOver item ConnectedPeer.zero)) (fun _ => ConnectedPeer.zero)) := by
    apply fillFrom_eq
    · intro item hitem j _
      obtain ⟨hkey, hfits⟩ := (h.field "connectedPeers").objectItems item hitem
      exact storeConnectedPeer_eq hkey hfits _
    · rw [Nat.zero_add]
      exact (h.field "connectedPeers").objectItems_length (Nat.zero_le _)
  rw [createNetworkState, hpeers, except_ok_bind, storeTexts_eq (h.field "externalAddresses"),
    except_ok_bind, storeTexts_eq (h.field "listenedAddresses"), except_ok_bind,
    storeNotConnectedPeers_eq (h.field "notConnectedPeers").objectItems, except_ok_bind,
    (All.stringValue (h.field "peerId") short_nil).strcpy, except_ok_bind,
    (All.stringValue (h.field "peerset") short_nil).strcpy, except_ok_bind]
  exact ⟨_, rfl, rfl, rfl, rfl, rfl⟩

end Stores

section Entries

def knownAddresses (entries : List (Str × Json)) (k : ℕ) : List Str :=
  texts (((entries.map Prod.snd).getD k .null).field "knownAddresses")

/-- The key and the known addresses of each entry stand in the slot of its number, and the
slots behind the last entry are zero. -/
def StoresPeers (entries : List (Str × Json)) (key : ℕ → Str) (known : ℕ → Texts) : Prop :=
  ∀ k, key k = cell (entries.map Prod.fst) k ∧ ∀ a, known k a = cell (knownAddresses entries k) a

def StoresEntries (jsonObject : Json) : Prop :=
  ∃ state, createNetworkState jsonObject = .ok state ∧
    StoresPeers (connectedPeers jsonObject) (fun k => (state.connectedPeers k).key)
      (fun k => (state.connectedPeers k).connectedPeerInfo.knownAddresses) ∧
    (∀ k, (connectedPeers jsonObject).length ≤ k →
      state.connectedPeers k = ConnectedPeer.zero) ∧
    (∀ k, state.externalAddresses k = cell (texts (jsonObject.field "externalAddresses")) k) ∧
    (∀ k, state.listenedAddresses k = cell (texts (jsonObject.field "listenedAddresses")) k) ∧
    StoresPeers (notConnectedPeers jsonObject) (fun k => (state.notConnectedPeers k).key)
      (fun k => (state.notConnectedPeers k).notConnectedPeerInfo.knownAddresses)

/-- No NUL in a key or a known address, where the copy of a text would end. -/
def NoNul (entries : List (Str × Json)) : Prop :=
  ∀ e ∈ entries, 0 ∉ e.1 ∧ ∀ s ∈ texts (e.2.field "knownAddresses"), 0 ∉ s

theorem knownAddresses_eq {entries : List (Str × Json)} {k : ℕ} (h : k < entries.length) :
    knownAddresses entries k = texts (entries[k].2.field "knownAddresses") := by
  rw [knownAddresses, List.getD_eq_getElem _ _ (by simpa using h), List.getElem_map]

theorem knownAddresses_behind {entries : List (Str × Json)} {k : ℕ} (h : entries.length ≤ k) :
    knownAddresses entries k = [] := by
  rw [knownAddresses, List.getD_eq_default _ _ (by simpa using h)]
  rfl

theorem storesPeers_iff {entries : List (Str × Json)} {key : ℕ → Str} {known : ℕ → Texts}
    (hkey : ∀ k, key k = cstr (cell (entries.map Prod.fst) k))
    (hknown : ∀ k a, known k a = cstr (cell (knownAddresses entries k) a)) :
    StoresPeers entries key known ↔ NoNul entries := by
  have hcells : ∀ k, (∀ a, known k a = cell (knownAddresses entries k) a) ↔
      ∀ s ∈ knownAddresses entries k, 0 ∉ s := by
    intro k
    rw [← cell_cstr_iff]
    simp only [hknown, cell_map_cstr]
  constructor
  · intro h e he
    obtain ⟨k, hk, rfl⟩ := List.mem_iff_getElem.1 he
    obtain ⟨hslot, haddresses⟩ := h k
    rw [hkey, cstr_eq_self_iff, cell, List.getD_eq_getElem _ _ (by simpa using hk),
      List.getElem_map] at hslot
    rw [hcells, knownAddresses_eq hk] at haddresses
    exact ⟨hslot, haddresses⟩
  · intro h k
    rw [hkey, cstr_eq_self_iff, hcells]
    by_cases hk : k < entries.length
    · rw [cell, List.getD_eq_getElem _ _ (by simpa using hk), List.getElem_map,
        knownAddresses_eq hk]
      exact h _ (List.getElem_mem hk)
    · rw [cell, List.getD_eq_default _ _ (by simpa using hk), knownAddresses_behind (by omega)]
      simp

theorem connectedPeers_slots (entries : List (Str × Json)) (k : ℕ) :
    (laid 0 (entries.map (fun item => connectedPeerOver item ConnectedPeer.zero))
        (fun _ => ConnectedPeer.zero) k).key = cstr (cell (entries.map Prod.fst) k) ∧
      ∀ a, (laid 0 (entries.map (fun item => connectedPeerOver item ConnectedPeer.zero))
        (fun _ => ConnectedPeer.zero) k).connectedPeerInfo.knownAddresses a =
          cstr (cell (knownAddresses entries k) a) := by
  rw [laid_zero]
  by_cases hk : k < entries.length
  · rw [List.getD_eq_getElem _ _ (by simpa using hk), List.getElem_map, cell,
      List.getD_eq_getElem _ _ (by simpa using hk), List.getElem_map, knownAddresses_eq hk]
    refine ⟨rfl, fun a => ?_⟩
    rw [← cell_map_cstr]
    exact laid_zero _ _ a
  · rw [List.getD_eq_default _ _ (by simpa using hk), cell,
      List.getD_eq_default _ _ (by simpa using hk), knownAddresses_behind (by omega)]
    exact ⟨rfl, fun a => rfl⟩

theorem notConnectedPeers_slots {entries : List (Str × Json)} (h : entries.length ≤ 1) (k : ℕ) :
    (Function.update (fun _ => NotConnectedPeer.zero) 0
        (entries.foldl (fun peer item => notConnectedPeerOver item peer)
          NotConnectedPeer.zero) k).key = cstr (cell (entries.map Prod.fst) k) ∧
      ∀ a, (Function.update (fun _ => NotConnectedPeer.zero) 0
        (entries.foldl (fun peer item => notConnectedPeerOver item peer)
          NotConnectedPeer.zero) k).notConnectedPeerInfo.knownAddresses a =
          cstr (cell (knownAddresses entries k) a) := by
  cases k with
  | zero =>
    rw [Function.update_self]
    match entries, h with
    | [], _ => exact ⟨rfl, fun a => rfl⟩
    | [e], _ =>
      refine ⟨rfl, fun a => ?_⟩
      rw [← cell_map_cstr]
      exact laid_zero _ _ a
  | succ k =>
    rw [Function.update_of_ne (Nat.succ_ne_zero k), cell,
      List.getD_eq_default _ _ (by simp only [List.length_map]; omega),
      knownAddresses_behind (by omega)]
    exact ⟨rfl, fun a => rfl⟩

theorem overwritten_key (entries : List (Str × Json)) (e : Str × Json) (peer : NotConnectedPeer) :
    ((entries ++ [e]).foldl (fun peer item => notConnectedPeerOver item peer) peer).key =
      cstr e.1 := by
  rw [List.foldl_append]
  rfl

/-- From the second entry on the slots stay zero, so such an entry would need an empty key,
which then stands in the first slot as well. -/
theorem length_le_one_of_storesPeers {entries : List (Str × Json)}
    (hkeys : (entries.map Prod.fst).Nodup)
    (h : ∀ k, (Function.update (fun _ => NotConnectedPeer.zero) 0
      (entries.foldl (fun peer item => notConnectedPeerOver item peer)
        NotConnectedPeer.zero) k).key = cell (entries.map Prod.fst) k) : entries.length ≤ 1 := by
  match entries with
  | [] => simp
  | [_] => simp
  | [e₀, e₁] =>
    have h₀ := h 0
    have h₁ := h 1
    rw [Function.update_self] at h₀
    rw [Function.update_of_ne one_ne_zero] at h₁
    have hempty : e₁.1 = [] := h₁.symm
    have hfirst : cstr e₁.1 = e₀.1 := (overwritten_key [e₀] e₁ _).symm.trans h₀
    rw [hempty] at hfirst
    simp [hempty, ← hfirst, cstr] at hkeys
  | e₀ :: e₁ :: e₂ :: rest =>
    have h₁ := h 1
    have h₂ := h 2
    rw [Function.update_of_ne one_ne_zero] at h₁
    rw [Function.update_of_ne two_ne_zero] at h₂
    have hsame : e₁.1 = e₂.1 := h₁.symm.trans h₂
    simp [hsame] at hkeys

/-- All entries reach their slots exactly when no text is cut at a NUL and at most one
peer is not connected. -/
theorem storesEntries_iff (jsonObject : Json) (hfits : Fits jsonObject)
    (hkeys : ((notConnectedPeers jsonObject).map Prod.fst).Nodup) :
    StoresEntries jsonObject ↔ NoNul (connectedPeers jsonObject) ∧
      (∀ s ∈ texts (jsonObject.field "externalAddresses"), 0 ∉ s) ∧
      (∀ s ∈ texts (jsonObject.field "listenedAddresses"), 0 ∉ s) ∧
      NoNul (notConnectedPeers jsonObject) ∧ (notConnectedPeers jsonObject).length ≤ 1 := by
  obtain ⟨state, hstate, hconnected, hexternal, hlistened, hother⟩ := createNetworkState_eq hfits
  have hpeers : StoresPeers (connectedPeers jsonObject) (fun k => (state.connectedPeers k).key)
      (fun k => (state.connectedPeers k).connectedPeerInfo.knownAddresses) ↔
        NoNul (connectedPeers jsonObject) := by
    rw [hconnected]
    exact storesPeers_iff (fun k => (connectedPeers_slots _ k).1)
      (fun k => (connectedPeers_slots _ k).2)
  have hbehind : ∀ k, (connectedPeers jsonObject).length ≤ k →
      state.connectedPeers k = ConnectedPeer.zero := by
    intro k hk
    rw [hconnected, laid_zero, List.getD_eq_default _ _ (by simpa using hk)]
  have htexts : ∀ list : List Str,
      (∀ k, laid 0 (list.map cstr) noTexts k = cell list k) ↔ ∀ s ∈ list, 0 ∉ s := by
    intro list
    rw [← cell_cstr_iff]
    simp only [laid_zero]
    rfl
  rw [← htexts, ← htexts, ← hexternal, ← hlistened, ← hpeers]
  constructor
  · rintro ⟨state', hstate', hc, -, he, hl, hn⟩
    obtain rfl : state = state' := Except.ok.inj (hstate.symm.trans hstate')
    rw [hother] at hn
    have hone := length_le_one_of_storesPeers hkeys (fun k => (hn k).1)
    refine ⟨hc, he, hl, ?_, hone⟩
    exact (storesPeers_iff (fun k => (notConnectedPeers_slots hone k).1)
      (fun k => (notConnectedPeers_slots hone k).2)).1 hn
  · rintro ⟨hc, he, hl, hn, hone⟩
    refine ⟨state, hstate, hc, hbehind, he, hl, ?_⟩
    rw [hother]
    exact (storesPeers_iff (fun k => (notConnectedPeers_slots hone k).1)
      (fun k => (notConnectedPeers_slots hone k).2)).2 hn

def peersJson (peers : List (Str × Json)) : Json :=
  .object [(lit "notConnectedPeers", .object peers)]

def peer (address : String) : Json :=
  .object [(lit "knownAddresses", .array [.string (lit address)])]

theorem storesEntries_iff_one : StoresEntries (peersJson [(lit "QmA", peer "/dns4/a")]) := by
  refine (storesEntries_iff (peersJson [(lit "QmA", peer "/dns4/a")]) ?_ ?_).2 ?_
  · simp only [Fits, peersJson, peer, All, AllItems, AllFields, Short]
    decide +kernel
  · decide +kernel
  · simp only [NoNul]
    decide +kernel

/-- Of two peers that are not connected the second stands in the slot of the first, and
its own slot is empty. -/
theorem storesEntries_fails : ¬ ∀ jsonObject : Json, Fits jsonObject →
    ((notConnectedPeers jsonObject).map Prod.fst).Nodup → StoresEntries jsonObject := by
  intro h
  have hfits : Fits (peersJson [(lit "QmA", peer "/dns4/a"), (lit "QmB", peer "/dns4/b")]) := by
    simp only [Fits, peersJson, peer, All, AllItems, AllFields, Short]
    decide +kernel
  obtain ⟨hkeys, hslots⟩ :
      ((notConnectedPeers (peersJson [(lit "QmA", peer "/dns4/a"),
        (lit "QmB", peer "/dns4/b")])).map Prod.fst).Nodup ∧
      (createNetworkState (peersJson [(lit "QmA", peer "/dns4/a"),
        (lit "QmB", peer "/dns4/b")])).map (fun state =>
          ((state.notConnectedPeers 0).key, (state.notConnectedPeers 1).key)) =
        .ok (lit "QmB", []) := by
    decide +kernel
  obtain ⟨state, hstate, -, -, -, -, hother⟩ := h _ hfits hkeys
  rw [hstate] at hslots
  have hsecond : (state.notConnectedPeers 1).key = [] :=
    congrArg Prod.snd (Except.ok.inj hslots)
  exact absurd (hsecond.symm.trans (hother 1).1) (by decide +kernel)

end Entries

end PolkadotApi.NetworkStates
