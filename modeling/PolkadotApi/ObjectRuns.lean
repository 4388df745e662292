import PolkadotApi.Connection
import PolkadotApi.ExtrinsicAgreement

set_option autoImplicit false

/-!
An event is a call of the client, with what the node answers to its requests and
the notifications that arrive while it waits, or a notification between calls. A
run ends when the process does or when a call does not come back.
-/
namespace PolkadotApi.ObjectRuns
open StatefulActions MachineModel JsonValues ExtrinsicSubmission StorageKeys Subscriptions
open SubscriptionFrames CallSpecifications Connection StepRuns ExtrinsicAgreement AddressRoundTrip

inductive Operation where
  | connect (code : ℤ)
  | disconnect
  | subscribeBlockNumber (tag : ℕ)
  | unsubscribeBlockNumber
  | subscribeFinalizedBlock (tag : ℕ)
  | unsubscribeFinalizedBlock
  | subscribeRuntimeVersion (tag : ℕ)
  | unsubscribeRuntimeVersion
  | subscribeEraAndSession (tag : ℕ)
  | unsubscribeEraAndSession
  | subscribeBalance (address : Str) (tag : ℕ)
  | unsubscribeBalance (address : Str)
  | subscribeAccountNonce (address : Str) (tag : ℕ)
  | unsubscribeAccountNonce (address : Str)
  | subscribeStorage (key : Str) (tag : ℕ)
  | unsubscribeStorage (key : Str)
  | getAccountNonce (address : Str)
  | submitExtrinsic (request : CallRequest)
  | submitAndSubcribeExtrinsic (request : CallRequest) (tag : ℕ)
  | signAndSendTransfer (t : TransferRequest) (tag : ℕ)
  | notify (id : ℤ) (message : Json)

structure Event where
  op : Operation
  answers : List Answer := []
  incoming : List (ℤ × Json) := []

section Steps

variable (lib : Libraries)

def discard {α : Type} (x : Action α) : Action Unit := do
  let _ ← x

def perform : Operation → Action Unit
  | .connect code => discard (connect lib code)
  | .disconnect => disconnect
  | .subscribeBlockNumber tag => discard (subscribeBlockNumber (.client tag))
  | .unsubscribeBlockNumber => discard unsubscribeBlockNumber
  | .subscribeFinalizedBlock tag => discard (subscribeFinalizedBlock (.client tag))
  | .unsubscribeFinalizedBlock => discard unsubscribeFinalizedBlock
  | .subscribeRuntimeVersion tag => discard (subscribeRuntimeVersion (.client tag))
  | .unsubscribeRuntimeVersion => discard unsubscribeRuntimeVersion
  | .subscribeEraAndSession tag => discard (subscribeEraAndSession (.client tag))
  | .unsubscribeEraAndSession => discard unsubscribeEraAndSession
  | .subscribeBalance address tag => discard (subscribeBalance lib address (.client tag))
  | .unsubscribeBalance address => discard (unsubscribeBalance address)
  | .subscribeAccountNonce address tag => discard (subscribeAccountNonce lib address (.client tag))
  | .unsubscribeAccountNonce address => discard (unsubscribeAccountNonce address)
  | .subscribeStorage key tag => discard (subscribeStorage key (.client tag))
  | .unsubscribeStorage key => discard (unsubscribeStorage key)
  | .getAccountNonce address => discard (getAccountNonce lib address)
  | .submitExtrinsic request => discard (submitExtrinsic lib request)
  | .submitAndSubcribeExtrinsic request tag => submitAndSubcribeExtrinsic lib request (.client tag)
  | .signAndSendTransfer t tag => signAndSendTransfer lib t (.client tag)
  | .notify id message => meanwhile [(id, message)]

def meets (w : World) (e : Event) : World :=
  { w with answers := e.answers, incoming := e.incoming }

/-- A call that throws comes back as well. -/
def step (w : World) (e : Event) : Option World :=
  match (perform lib e.op).run (meets w e) with
  | .ok _ w' => some w'
  | .error (.thrown _) w' => some w'
  | .error _ _ => none

end Steps

def start (api : Api) : World := ⟨api, [], 0, none, none, [], []⟩

section Samples

def sampleLibraries : Libraries where
  toCrypto := sampleCrypto
  xxh64 := fun _ _ => 0
  blake2b256 := fun _ => FixedBytes.zero 32
  parse := fun _ => .error (lit "unexpected end of input")
  what := fun _ => lit "std::exception"

def blankMemory : Api where
  bestBlockNum := 0
  slot := fun _ => ⟨none, 0⟩
  keyed := fun _ => ⟨∅, ∅⟩
  protocolPrm := none
  freeBalanceHasher := none
  storageKeyCurrentEra := []
  storageKeySessionsPerEra := []
  storageKeyCurrentSessionIndex := []
  storageKeyBabeGenesisSlot := []
  storageKeyBabeCurrentSlot := []
  storageKeyBabeEpochIndex := []
  babeEpochDuration := 0
  sessionsPerEra := 0
  isEpoch := false

def connectedApi : Api :=
  { construct blankMemory with protocolPrm := some samplePrm, freeBalanceHasher := some .xxhash }

def answered (id : ℤ) : Answer := ⟨.ok (.number id), []⟩

def confirmed : Answer := ⟨.ok (.bool true), []⟩

def changed (value : String) : Json :=
  .object [(lit "changes", .array [.array [.string (lit "0x"), .string (lit value)]])]

def newHeadOf (number : String) : Json := .object [(lit "number", .string (lit number))]

def balancesModule : List String :=
  ["2042616c616e636573", "012042616c616e636573", "04", "2c4672656542616c616e6365", "0000",
    "0c753634", "0000", "0104", "207472616e73666572", "0000", "0000"]

def stakingModule : List String :=
  ["1c5374616b696e67", "00", "00", "0004", "3853657373696f6e73506572457261", "0c753634", "040600"]

def babeModule : List String :=
  ["1042616265", "011042616265", "0c", "2c47656e65736973536c6f74", "0000", "0c753634", "0000",
    "2c43757272656e74536c6f74", "0000", "0c753634", "0000", "2845706f6368496e646578", "0000",
    "0c753634", "0000", "00", "0004", "3445706f63684475726174696f6e", "0c753634", "049600"]

def plainChain : Str := (["0x6d657461", "07", "04"] ++ balancesModule).flatMap lit

def babeChain : Str :=
  (["0x6d657461", "07", "0c"] ++ balancesModule ++ stakingModule ++ babeModule).flatMap lit

def connectTo (chain : Str) : Event where
  op := .connect PAPI_OK
  answers := [⟨.ok (.string (lit "0x00")), []⟩, ⟨.ok (.string chain), []⟩]

def transferOf (tag : ℕ) (nonceId id : ℤ) : Event where
  op := .signAndSendTransfer ⟨knownAddress, lit "0x00", knownAddress, 1⟩ tag
  answers := [answered nonceId, confirmed, answered id]
  incoming := [(nonceId, changed "0x05")]

def statusOf (id : ℤ) (status : String) : Event where
  op := .notify id (.string (lit status))

def after (w : World) (es : List Event) : World := (run (step sampleLibraries) w es).getD w

theorem run_after (w : World) (es : List Event) (h : (run (step sampleLibraries) w es).isSome) :
    run (step sampleLibraries) w es = some (after w es) := by
  obtain ⟨w', hw'⟩ := Option.isSome_iff_exists.1 h
  rw [after, hw']
  rfl

end Samples

variable {lib : Libraries} {P I : World → Prop} {w w' : World} {e : Event}

theorem triple_discard {α : Type} {x : Action α} {Q : World → Prop} {R : Halt → World → Prop}
    (h : Triple P x (fun _ => Q) R) : Triple P (discard x) (fun _ => Q) R :=
  h.bind fun _ => triple_pure fun _ hw => hw

theorem step_of_triple {Q : World → Prop} {R : Halt → World → Prop}
    (h : Triple P (perform lib e.op) (fun _ => Q) R)
    (hthrown : ∀ exception w, R (.thrown exception) w → Q w) (hw : P (meets w e))
    (hstep : step lib w e = some w') : Q w' := by
  unfold step at hstep
  have hpost := h _ hw
  cases hr : (perform lib e.op).run (meets w e) with
  | ok _ t =>
    rw [hr] at hstep hpost
    cases hstep
    exact hpost
  | error halt t =>
    rw [hr] at hstep hpost
    cases halt with
    | thrown exception =>
      cases hstep
      exact hthrown exception _ hpost
    | undefined => cases hstep
    | terminated => cases hstep
    | waits => cases hstep

section Frame

/-- The topics whose subscriptions an operation can change; a notification can
also close a transfer. -/
def Operation.touched : Operation → List Topic
  | .subscribeBlockNumber _ => [.slot .blockNumber]
  | .unsubscribeBlockNumber => [.slot .blockNumber]
  | .subscribeFinalizedBlock _ => [.slot .finalizedBlock]
  | .unsubscribeFinalizedBlock => [.slot .finalizedBlock]
  | .subscribeRuntimeVersion _ => [.slot .runtimeVersion]
  | .unsubscribeRuntimeVersion => [.slot .runtimeVersion]
  | .subscribeEraAndSession _ => [.slot .eraAndSession, .slot .blockNumber]
  | .unsubscribeEraAndSession => [.slot .eraAndSession, .slot .blockNumber]
  | .subscribeBalance address _ => [.keyed .balance address]
  | .unsubscribeBalance address => [.keyed .balance address]
  | .subscribeAccountNonce address _ => [.keyed .accountNonce address]
  | .unsubscribeAccountNonce address => [.keyed .accountNonce address]
  | .subscribeStorage key _ => [.keyed .storage key]
  | .unsubscribeStorage key => [.keyed .storage key]
  | .getAccountNonce address => [.keyed .accountNonce address]
  | .submitExtrinsic request => [.keyed .accountNonce request.sender]
  | .submitAndSubcribeExtrinsic request _ =>
    [.keyed .accountNonce request.sender, .slot .subcribeExtrinsic]
  | .signAndSendTransfer t _ => [.keyed .accountNonce t.sender, .slot .transactionCompletion]
  | _ => []

theorem perform_preserves_of_connect (lib : Libraries) (op : Operation) (hI : Quiet I)
    (hlocals : IgnoresLocals I) (hconnect : ∀ code, Preserves I (connect lib code))
    (hrequested : ∀ w q, I w → I (w.record (.requested q)))
    (h : ∀ topic ∈ op.touched, Ignores I topic) : Preserves I (perform lib op) := by
  cases op with
  | connect code => exact triple_discard (hconnect code)
  | disconnect => exact triple_pure fun _ hw => hw
  | subscribeBlockNumber tag =>
    exact triple_discard (preserves_subscribeSlot hI (h _ (by simp [Operation.touched])))
  | unsubscribeBlockNumber =>
    exact triple_discard
      (preserves_unsubscribeSlot hI (by decide) (h _ (by simp [Operation.touched])).toKeeps)
  | subscribeFinalizedBlock tag =>
    exact triple_discard (preserves_subscribeSlot hI (h _ (by simp [Operation.touched])))
  | unsubscribeFinalizedBlock =>
    exact triple_discard
      (preserves_unsubscribeSlot hI (by decide) (h _ (by simp [Operation.touched])).toKeeps)
  | subscribeRuntimeVersion tag =>
    exact triple_discard (preserves_subscribeSlot hI (h _ (by simp [Operation.touched])))
  | unsubscribeRuntimeVersion =>
    exact triple_discard
      (preserves_unsubscribeSlot hI (by decide) (h _ (by simp [Operation.touched])).toKeeps)
  | subscribeEraAndSession tag =>
    exact triple_discard (preserves_subscribeEraAndSession hI (h _ (by simp [Operation.touched]))
      (h _ (by simp [Operation.touched])))
  | unsubscribeEraAndSession =>
    exact triple_discard (preserves_unsubscribeEraAndSession hI
      (h _ (by simp [Operation.touched])).toKeeps (h _ (by simp [Operation.touched])).toKeeps)
  | subscribeBalance address tag =>
    exact triple_discard (preserves_subscribeKeyed hI (h _ (by simp [Operation.touched])))
  | unsubscribeBalance address =>
    exact triple_discard
      (preserves_unsubscribeKeyed hI (h _ (by simp [Operation.touched])).toKeeps)
  | subscribeAccountNonce address tag =>
    exact triple_discard (preserves_subscribeKeyed hI (h _ (by simp [Operation.touched])))
  | unsubscribeAccountNonce address =>
    exact triple_discard
      (preserves_unsubscribeKeyed hI (h _ (by simp [Operation.touched])).toKeeps)
  | subscribeStorage key tag =>
    exact triple_discard (preserves_subscribeKeyed hI (h _ (by simp [Operation.touched])))
  | unsubscribeStorage key =>
    exact triple_discard
      (preserves_unsubscribeKeyed hI (h _ (by simp [Operation.touched])).toKeeps)
  | getAccountNonce address =>
    exact triple_discard (preserves_getAccountNonce hI hlocals (h _ (by simp [Operation.touched])))
  | submitExtrinsic request =>
    exact triple_discard
      (preserves_submitExtrinsic hI hlocals hrequested (h _ (by simp [Operation.touched])))
  | submitAndSubcribeExtrinsic request tag =>
    apply (preserves_makeSubmission hI hlocals (h _ (by simp [Operation.touched]))).bind
    intro submission
    exact preserves_watchExtrinsic hI (h _ (by simp [Operation.touched]))
  | signAndSendTransfer t tag =>
    apply (preserves_makeSubmission hI hlocals (h _ (by simp [Operation.touched]))).bind
    intro submission
    exact preserves_watchExtrinsic hI (h _ (by simp [Operation.touched]))
  | notify id message => exact (meanwhile_triple hI.handle _).post (fun _ _ hw => hw) fun _ _ hw => hw.1

theorem perform_preserves (lib : Libraries) (op : Operation) (hI : Quiet I) (hlocals : IgnoresLocals I)
    (hparameters : IgnoresParameters I) (hrequested : ∀ w q, I w → I (w.record (.requested q)))
    (h : ∀ topic ∈ op.touched, Ignores I topic) : Preserves I (perform lib op) :=
  perform_preserves_of_connect lib op hI hlocals
    (fun _ => preserves_connect hI hparameters hrequested) hrequested h

theorem step_untouched {topic : Topic} (htopic : topic ≠ .slot .transactionCompletion)
    (huntouched : topic ∉ e.op.touched) (hstep : step lib w e = some w') :
    subscription w'.api topic = subscription w.api topic := by
  have hquiet : Quiet fun u => subscription u.api topic = subscription w.api topic :=
    quiet_view (F := fun id _ => id = subscription w.api topic) htopic
  have hparameters : IgnoresParameters fun u => subscription u.api topic = subscription w.api topic := by
    intro u api _ hslot hkeyed hu
    exact (subscription_congr hslot hkeyed).trans hu
  have hignores : ∀ t ∈ e.op.touched,
      Ignores (fun u => subscription u.api topic = subscription w.api topic) t := by
    intro t ht
    have hne : topic ≠ t := fun h => huntouched (h ▸ ht)
    exact ignores_of_ne (F := fun id _ => id = subscription w.api topic) hne
  have hpreserves := perform_preserves lib e.op hquiet (fun _ _ _ _ _ hu => hu) hparameters
    (fun _ _ hu => hu) hignores
  exact step_of_triple hpreserves (fun _ _ h => h) rfl hstep

theorem run_untouched {topic : Topic} (htopic : topic ≠ .slot .transactionCompletion)
    {es : List Event} (huntouched : ∀ e ∈ es, topic ∉ e.op.touched)
    (hrun : run (step lib) w es = some w') :
    subscription w'.api topic = subscription w.api topic := by
  induction es generalizing w with
  | nil =>
    cases hrun
    rfl
  | cons e es ih =>
    obtain ⟨t, ht, hrest⟩ := run_cons.1 hrun
    have hhead := step_untouched htopic (huntouched e List.mem_cons_self) ht
    rw [← hhead]
    exact ih (fun e' he' => huntouched e' (List.mem_cons_of_mem e he')) hrest

theorem step_log (hstep : step lib w e = some w') : w.log <+: w'.log := by
  have hrecord : ∀ (u : World) (entry : Entry), w.log <+: u.log → w.log <+: (u.record entry).log :=
    fun u entry hu => hu.trans (List.prefix_append u.log [entry])
  have hquiet : Quiet fun u => w.log <+: u.log := by
    refine ⟨fun _ h => h, ?_⟩
    intro u u' id message hu hhandle
    obtain ⟨l, hl, -⟩ := (handleWsMessage_handled hhandle).log
    rw [hl]
    exact hu.trans (List.prefix_append u.log l)
  have hignores : ∀ t ∈ e.op.touched, Ignores (fun u => w.log <+: u.log) t := by
    intro t _
    exact ⟨⟨fun u hu _ => hu, fun u _ _ hu => hrecord u _ hu, fun u _ _ hu _ _ => hrecord u _ hu,
      fun u hu _ => hu⟩, fun u _ hu => hu⟩
  have hpreserves := perform_preserves lib e.op hquiet (fun _ _ _ _ _ hu => hu)
    (fun _ _ _ _ _ hu => hu) (fun u _ hu => hrecord u _ hu) hignores
  exact step_of_triple hpreserves (fun _ _ h => h) List.prefix_rfl hstep

theorem run_log {es : List Event} (hrun : run (step lib) w es = some w') : w.log <+: w'.log := by
  induction es generalizing w with
  | nil =>
    cases hrun
    exact List.prefix_rfl
  | cons e es ih =>
    obtain ⟨t, ht, hrest⟩ := run_cons.1 hrun
    exact (step_log ht).trans (ih hrest)

end Frame

section Served

def subscribedIds (log : List Entry) : List ℤ :=
  log.filterMap fun
    | .subscribed _ _ id => some id
    | _ => none

/-- None of the requests of the event fails. -/
def Served (e : Event) : Prop := ∀ a ∈ e.answers, a.reply.isOk

instance (e : Event) : Decidable (Served e) :=
  inferInstanceAs (Decidable (∀ a ∈ e.answers, a.reply.isOk))

def Supplied (w : World) : Prop := ∀ a ∈ w.answers, a.reply.isOk

theorem supplied_quiet : Quiet Supplied := by
  constructor
  · intro w h a ha
    exact h a (List.mem_of_mem_tail ha)
  · intro w w' id message h hhandle a ha
    rw [(handleWsMessage_handled hhandle).answers] at ha
    exact h a ha

theorem Supplied.reply (h : Supplied w) (exception : Exception) :
    w.answer.reply ≠ .error exception := by
  intro herror
  unfold World.answer at herror
  cases hanswers : w.answers with
  | nil =>
    rw [hanswers] at herror
    cases herror
  | cons a rest =>
    rw [hanswers] at herror
    have hok := h a (by rw [hanswers]; exact List.mem_cons_self)
    rw [List.headD_cons] at herror
    rw [herror] at hok
    cases hok

theorem not_refused {halt : Halt} (h : Refused I halt) (hI : ∀ w, I w → Supplied w)
    (exception : Exception) : halt ≠ .thrown exception := by
  intro hhalt
  obtain ⟨w, hw, hreply⟩ := h exception hhalt
  exact (hI w hw).reply exception hreply

end Served

end PolkadotApi.ObjectRuns
