import PolkadotApi.KeyHashers
import PolkadotApi.MissingNames

set_option autoImplicit false

namespace PolkadotApi.MissingCalls
open StatefulActions StreamReader MachineModel JsonValues AddressCodec MetadataFactory
open MetadataLookup ExtrinsicSubmission ExtrinsicAgreement ExtrinsicFaults StorageKeys
open Subscriptions SubscriptionFrames CallSpecifications Connection StepRuns ObjectRuns KeyHashers
open MethodSearch MissingNames ScaleRoundTrip Converters MetadataFormats

section Addresses

variable {lib : Libraries} {api : Api} {hasher : Hasher} {address : Str}

/-- No public key can be read from the address. -/
def Unread (lib : Libraries) (address : Str) : Prop :=
  ∀ pk, getPublicKeyFromStr lib.blake2b address ≠ .ok pk

theorem unread_of_throws (h : Throws (getPublicKeyFromStr lib.blake2b address)) :
    Unread lib address := by
  intro pk hpk
  rw [hpk] at h
  exact not_throws_ok pk h

theorem nonceKey_ne_ok (h : Unread lib address) (api : Api) (text : Str) :
    nonceKey lib address api ≠ .ok text := by
  intro hkey
  obtain ⟨addr, haddr, hkey⟩ := except_bind_eq_ok hkey
  obtain ⟨hasher, -, hkey⟩ := except_bind_eq_ok hkey
  obtain ⟨pk, hpk, -⟩ := except_bind_eq_ok hkey
  apply h pk
  rw [getPublicKeyFromStr, haddr]
  exact hpk

theorem nonceKey_throws_iff (h : api.freeBalanceHasher = some hasher) :
    Throws (nonceKey lib address api) ↔ Throws (getPublicKeyFromStr lib.blake2b address) := by
  unfold nonceKey addressKey getPublicKeyFromStr
  cases FixedBytes.copy 48 (address ++ [0]) with
  | error fault =>
    rw [except_error_bind, except_error_bind]
    simp [Throws]
  | ok addr =>
    rw [h]
    change Throws (getAddressStorageKey lib hasher addr _) ↔ Throws (getPublicKeyFromAddr _ addr)
    rw [getAddressStorageKey, throws_bind_iff]
    apply or_iff_left
    rintro ⟨pk, -, hrest⟩
    exact not_throws_bind (not_throws_writeBuf _ _) (fun _ => not_throws_ok _) hrest

end Addresses

section Unread

variable {lib : Libraries} {P : World → Prop} {address : Str} {w : World}

abbrev nonceTopic (address : Str) : Topic := .keyed .accountNonce address

/-- How a fault of the library functions ends a call of the client. -/
def raised : Fault → Halt
  | .thrown e => .thrown e
  | .undefined => .undefined

def Faulted (lib : Libraries) (address : Str) (P : World → Prop) (halt : Halt) (w : World) : Prop :=
  (P w ∧ subscription w.api (nonceTopic address) = none) ∧
    ∃ fault, nonceKey lib address w.api = .error fault ∧ halt = raised fault

theorem openNonce_unread (h : Unread lib address) :
    Triple (fun w => P w ∧ subscription w.api (nonceTopic address) = none)
      (openKeyed .accountNonce (nonceKey lib address) address) (fun _ _ => False)
      (Faulted lib address P) := by
  apply triple_get_bind
  rintro w ⟨hw, hid⟩
  rw [if_pos (show (w.api.keyed .accountNonce).ids[address]? = none from hid)]
  apply Triple.bind (Q := fun _ _ => False)
  · rintro w' rfl
    cases hkey : nonceKey lib address w'.api with
    | ok text => exact absurd hkey (nonceKey_ne_ok h _ _)
    | error fault => cases fault <;> exact ⟨⟨hw, hid⟩, _, hkey, rfl⟩
  · intro text w' hfalse
    exact hfalse.elim

variable (hset : ∀ w callback, P w → P (w.update (setCallback (nonceTopic address) callback)))

include hset

theorem subscribeNonce_unread (h : Unread lib address) {callback : Callback} :
    Triple (fun w => P w ∧ subscription w.api (nonceTopic address) = none)
      (subscribeAccountNonce lib address callback) (fun _ _ => False) (Faulted lib address P) := by
  apply Triple.bind (Q := fun _ w => P w ∧ subscription w.api (nonceTopic address) = none)
  · apply triple_modify
    rintro w ⟨hw, hnone⟩
    have hsame : subscription (setCallback (nonceTopic address) callback w.api)
        (nonceTopic address) = subscription w.api (nonceTopic address) := subscription_setCallback
    exact ⟨hset w callback hw, hsame.trans hnone⟩
  intro _
  apply (openNonce_unread h).bind
  intro _ w hfalse
  exact hfalse.elim

theorem getAccountNonce_unread (h : Unread lib address) (hlocals : IgnoresLocals P) :
    Triple (fun w => P w ∧ subscription w.api (nonceTopic address) = none)
      (getAccountNonce lib address) (fun _ _ => False) (Faulted lib address P) := by
  apply Triple.bind (Q := fun _ w => P w ∧ subscription w.api (nonceTopic address) = none)
  · rintro w ⟨hw, hnone⟩
    exact ⟨hlocals w (w.frames + 1) (some w.frames) none w.incoming hw, hnone⟩
  intro frame
  apply Triple.bind (Q := fun _ _ => False)
  · apply triple_tryCatch (M := Faulted lib address P)
    · apply (subscribeNonce_unread hset h).bind
      intro _ w hfalse
      exact hfalse.elim
    · intro halt
      apply Triple.bind (Q := fun _ => Faulted lib address P halt)
      · apply triple_modify
        rintro w ⟨⟨hw, hnone⟩, hfault⟩
        exact ⟨⟨hlocals w w.frames none w.nonce w.incoming hw, hnone⟩, hfault⟩
      · intro _
        exact triple_throw fun _ hw => hw
  · intro _ w hfalse
    exact hfalse.elim

theorem makeSubmission_unread (h : Unread lib address) (hlocals : IgnoresLocals P)
    {build : ProtocolParameters → ℕ → Result Submission} :
    Triple (fun w => P w ∧ subscription w.api (nonceTopic address) = none)
      (makeSubmission lib address build) (fun _ _ => False) (Faulted lib address P) := by
  apply (getAccountNonce_unread hset h hlocals).bind
  intro _ w hfalse
  exact hfalse.elim

end Unread

section Reached

variable {lib : Libraries} {address : Str} {w : World}

def Unentered (address : Str) (w : World) : Prop := subscription w.api (nonceTopic address) = none

theorem preserves_of_unread {α : Type} {x : Action α}
    (h : Triple (fun w => True ∧ subscription w.api (nonceTopic address) = none) x
      (fun _ _ => False) (Faulted lib address fun _ => True)) :
    Preserves (Unentered address) x := by
  apply (h.post (fun _ _ hw => hw.elim) fun _ _ hw => hw.1.2).pre
  intro w hw
  exact ⟨trivial, hw⟩

theorem submission_unread {α : Type} (h : Unread lib address)
    (build : ProtocolParameters → ℕ → Result Submission) (rest : Submission → Action α) :
    Preserves (Unentered address) (makeSubmission lib address build >>= rest) := by
  apply preserves_of_unread
  apply (makeSubmission_unread (fun _ _ _ => trivial) h fun _ _ _ _ _ _ => trivial).bind
  intro _ w hfalse
  exact hfalse.elim

theorem perform_unread_touched (h : Unread lib address) {op : Operation}
    (htouched : nonceTopic address ∈ op.touched) :
    Preserves (Unentered address) (perform lib op) := by
  cases op with
  | subscribeAccountNonce a tag =>
    obtain rfl : address = a := by simpa [Operation.touched] using htouched
    exact triple_discard
      (preserves_of_unread (subscribeNonce_unread (fun _ _ _ => trivial) h))
  | unsubscribeAccountNonce a =>
    obtain rfl : address = a := by simpa [Operation.touched] using htouched
    apply triple_discard
    apply (unsubscribeKeyed_triple (quiet_closed (nonceTopic address)) .accountNonce address).post
    · rintro _ w' (hw | ⟨w, _, _, hw, _, hid, -⟩ | ⟨w, hw, hid, -⟩)
      · exact hw.1
      · cases hw.symm.trans hid
      · cases hw.symm.trans hid
    · intro _ w hw
      exact hw.1
  | getAccountNonce a =>
    obtain rfl : address = a := by simpa [Operation.touched] using htouched
    exact triple_discard (preserves_of_unread
      (getAccountNonce_unread (fun _ _ _ => trivial) h fun _ _ _ _ _ _ => trivial))
  | submitExtrinsic request =>
    obtain rfl : address = request.sender := by simpa [Operation.touched] using htouched
    exact triple_discard (submission_unread h _ _)
  | submitAndSubcribeExtrinsic request tag =>
    obtain rfl : address = request.sender := by simpa [Operation.touched] using htouched
    exact submission_unread h _ _
  | signAndSendTransfer t tag =>
    obtain rfl : address = t.sender := by simpa [Operation.touched] using htouched
    exact submission_unread h _ _
  | _ => simp [Operation.touched] at htouched

theorem perform_unread (h : Unread lib address) (op : Operation) :
    Preserves (Unentered address) (perform lib op) := by
  by_cases htouched : nonceTopic address ∈ op.touched
  · exact perform_unread_touched h htouched
  · have hparameters : IgnoresParameters (Unentered address) := by
      intro w api _ hslot hkeyed hw
      exact (subscription_congr hslot hkeyed).trans hw
    apply perform_preserves lib op (quiet_closed (nonceTopic address)) (fun _ _ _ _ _ hw => hw)
      hparameters fun _ _ hw => hw
    intro topic htopic
    have hne : nonceTopic address ≠ topic := fun heq => htouched (heq ▸ htopic)
    exact ignores_of_ne (F := fun id _ => id = none) hne

/-- An address without a public key never gets an entry. -/
theorem reachable_unentered (h : Unread lib address) {memory : Api}
    (hreach : Reachable (step lib) (start (construct memory)) w) : Unentered address w := by
  apply hreach.invariant ?_ (show Unentered address (start (construct memory)) from ?_)
  · intro u e v hu hstep
    exact step_of_triple (perform_unread h e.op) (fun _ _ hv => hv) hu hstep
  · simp [Unentered, subscription, start, construct]

end Reached

section Rejections

variable {lib : Libraries} {address : Str} {prm : ProtocolParameters} {hasher : Hasher}
variable {log : List Entry} {u w w' : World} {build : ProtocolParameters → ℕ → Result Submission}

/-- The requests of `getAccountNonce` apart, a request hands the node an extrinsic. -/
def Submits : Entry → Prop
  | .requested _ => True
  | .subscribed (.slot _) _ _ => True
  | _ => False

structure Unsent (prm : ProtocolParameters) (hasher : Hasher) (log : List Entry) (w : World) :
    Prop where
  parameters : w.api.protocolPrm = some prm
  hasher : w.api.freeBalanceHasher = some hasher
  supplied : Supplied w
  unsubmitted : NoneSince Submits log w

theorem submits_quiet : Quiet (NoneSince Submits log) := by
  apply noneSince_quiet
  intro e he
  cases e <;> first | rfl | cases he

theorem unsent_quiet : Quiet (Unsent prm hasher log) := by
  constructor
  · intro w h
    exact ⟨h.parameters, h.hasher, supplied_quiet.popped w h.supplied, h.unsubmitted⟩
  · intro w w' id message h hhandle
    have hapi := (handleWsMessage_handled hhandle).api
    refine ⟨?_, ?_, supplied_quiet.handle w w' id message h.supplied hhandle,
      submits_quiet.handle w w' id message h.unsubmitted hhandle⟩
    · rw [hapi]
      exact h.parameters
    · rw [hapi]
      exact h.hasher

theorem unsent_locals : IgnoresLocals (Unsent prm hasher log) :=
  fun _ _ _ _ _ h => ⟨h.parameters, h.hasher, h.supplied, h.unsubmitted⟩

theorem unsent_ignores : Ignores (Unsent prm hasher log) (nonceTopic address) :=
  ⟨⟨fun _ h _ => ⟨h.parameters, h.hasher, h.supplied, h.unsubmitted⟩,
    fun _ _ _ h => ⟨h.parameters, h.hasher, h.supplied, h.unsubmitted.record id⟩,
    fun _ _ _ h _ _ => ⟨h.parameters, h.hasher, h.supplied, h.unsubmitted.record id⟩,
    fun _ h _ => ⟨h.parameters, h.hasher, h.supplied, h.unsubmitted⟩⟩,
    fun _ _ h => ⟨h.parameters, h.hasher, h.supplied, h.unsubmitted⟩⟩

theorem getAccountNonce_unsent : Triple (Unsent prm hasher log) (getAccountNonce lib address)
    (fun _ => Unsent prm hasher log) fun halt w => Unsent prm hasher log w ∧
      ∀ e, halt = .thrown e → Throws (getPublicKeyFromStr lib.blake2b address) := by
  apply (getAccountNonce_triple unsent_quiet unsent_locals unsent_ignores.toKeeps unsent_locals
    fun w _ => unsent_ignores.callback w _).post
  · intro _ w h
    exact h.1
  · rintro halt w ⟨hw, hrefused⟩
    refine ⟨hw, ?_⟩
    intro e he
    rcases hrefused e he with ⟨w₀, hw₀, hreply⟩ | ⟨w₀, hw₀, -, hkey⟩
    · exact absurd hreply (hw₀.supplied.reply e)
    · exact (nonceKey_throws_iff hw₀.hasher).1 ⟨e, hkey⟩

theorem run_build (h : w.api.protocolPrm = some prm) (nonce : ℕ) :
    (protocolParameters >>= fun prm => liftResult (build prm nonce)).run w =
      (liftResult (build prm nonce)).run w := by
  have hread : protocolParameters.run w = .ok prm w := by
    change (liftResult (deref w.api.protocolPrm)).run w = .ok prm w
    rw [h]
    rfl
  rw [EStateM.run_bind, hread]

theorem liftResult_ok_iff {α : Type} {r : Result α} :
    (∃ a w', (liftResult r).run w = .ok a w') ↔ ∃ a, r = .ok a := by
  constructor
  · rintro ⟨a, w', hrun⟩
    cases r with
    | ok a => exact ⟨a, rfl⟩
    | error fault => cases fault <;> cases hrun
  · rintro ⟨a, rfl⟩
    exact ⟨a, w, rfl⟩

theorem liftResult_thrown_iff {α : Type} {r : Result α} :
    (∃ e w', (liftResult r).run w = .error (.thrown e) w') ↔ Throws r := by
  constructor
  · rintro ⟨e, w', hrun⟩
    cases r with
    | ok a => cases hrun
    | error fault =>
      cases fault with
      | thrown e => exact ⟨e, rfl⟩
      | undefined => cases hrun
  · rintro ⟨e, rfl⟩
    exact ⟨e, w, rfl⟩

theorem getAccountNonce_throws (hhasher : u.api.freeBalanceHasher = some hasher)
    (hclosed : Unentered address u) (h : Throws (getPublicKeyFromStr lib.blake2b address)) :
    ∃ e w', (getAccountNonce lib address).run u = .error (.thrown e) w' := by
  have hunread : Triple
      (fun w => w.api.freeBalanceHasher = some hasher ∧ Unentered address w)
      (getAccountNonce lib address) (fun _ _ => False)
      (Faulted lib address fun w => w.api.freeBalanceHasher = some hasher) :=
    getAccountNonce_unread (fun _ _ hw => hw) (unread_of_throws h) fun _ _ _ _ _ hw => hw
  obtain ⟨halt, w', hrun, ⟨hw', -⟩, fault, hkey, rfl⟩ := hunread.exists_error ⟨hhasher, hclosed⟩
  obtain ⟨e, he⟩ := (nonceKey_throws_iff hw').2 h
  cases hkey.symm.trans he
  exact ⟨e, w', hrun⟩

/-- While the node answers, `getAccountNonce` throws exactly for a rejected address. -/
theorem getAccountNonce_thrown_iff (hu : Unsent prm hasher log u)
    (hclosed : Unread lib address → Unentered address u) :
    (∃ e w', (getAccountNonce lib address).run u = .error (.thrown e) w') ↔
      Throws (getPublicKeyFromStr lib.blake2b address) := by
  constructor
  · rintro ⟨e, w', hrun⟩
    exact (getAccountNonce_unsent.of_error hu hrun).2 e rfl
  · intro h
    exact getAccountNonce_throws hu.hasher (hclosed (unread_of_throws h)) h

theorem getAccountNonce_read (hclosed : Unread lib address → Unentered address u) {nonce : ℕ}
    (h : (getAccountNonce lib address).run u = .ok nonce w') :
    ∃ pk, getPublicKeyFromStr lib.blake2b address = .ok pk := by
  by_contra hnone
  have hunread : Unread lib address := fun pk hpk => hnone ⟨pk, hpk⟩
  have htriple : Triple (fun w => True ∧ Unentered address w) (getAccountNonce lib address)
      (fun _ _ => False) (Faulted lib address fun _ => True) :=
    getAccountNonce_unread (fun _ _ _ => trivial) hunread fun _ _ _ _ _ _ => trivial
  exact htriple.of_ok ⟨trivial, hclosed hunread⟩ h

/-- `accountNonce` says what `getAccountNonce` comes to. -/
theorem getAccountNonce_matches (hu : Unsent prm hasher log u)
    (hclosed : Unread lib address → Unentered address u) :
    (∀ nonce w', (getAccountNonce lib address).run u = .ok nonce w' →
      accountNonce lib.toCrypto address nonce = .ok nonce) ∧
    ∀ n, (∃ e w', (getAccountNonce lib address).run u = .error (.thrown e) w') ↔
      Throws (accountNonce lib.toCrypto address n) := by
  constructor
  · intro nonce w' hrun
    obtain ⟨pk, hpk⟩ := getAccountNonce_read hclosed hrun
    rw [accountNonce, hpk]
    rfl
  · intro n
    rw [getAccountNonce_thrown_iff hu hclosed, accountNonce, throws_bind_iff]
    symm
    apply or_iff_left
    rintro ⟨_, _, h⟩
    exact not_throws_ok _ h

theorem makeSubmission_thrown_iff (hu : Unsent prm hasher log u)
    (hclosed : Unread lib address → Unentered address u) :
    (∃ e w', (makeSubmission lib address build).run u = .error (.thrown e) w') ↔
      Throws (getPublicKeyFromStr lib.blake2b address) ∨
      ∃ nonce w', (getAccountNonce lib address).run u = .ok nonce w' ∧ Throws (build prm nonce) := by
  constructor
  · rintro ⟨e, w', hrun⟩
    rcases run_bind_eq_error hrun with hnonce | ⟨nonce, v, hnonce, hrest⟩
    · exact Or.inl ((getAccountNonce_thrown_iff hu hclosed).1 ⟨e, w', hnonce⟩)
    · have hv := getAccountNonce_unsent.of_ok hu hnonce
      rw [run_build hv.parameters] at hrest
      exact Or.inr ⟨nonce, v, hnonce, liftResult_thrown_iff.1 ⟨e, w', hrest⟩⟩
  · rintro (haddress | ⟨nonce, v, hnonce, hbuild⟩)
    · obtain ⟨e, w', hrun⟩ := (getAccountNonce_thrown_iff hu hclosed).2 haddress
      refine ⟨e, w', ?_⟩
      rw [makeSubmission, EStateM.run_bind, hrun]
    · have hv := getAccountNonce_unsent.of_ok hu hnonce
      rw [makeSubmission, EStateM.run_bind, hnonce]
      simp only [run_build hv.parameters]
      exact liftResult_thrown_iff.2 hbuild

theorem makeSubmission_ok_iff (hu : Unsent prm hasher log u) :
    (∃ submission w', (makeSubmission lib address build).run u = .ok submission w') ↔
      ∃ nonce w', (getAccountNonce lib address).run u = .ok nonce w' ∧
        ∃ submission, build prm nonce = .ok submission := by
  constructor
  · rintro ⟨submission, w', hrun⟩
    obtain ⟨nonce, v, hnonce, hrest⟩ := run_bind_eq_ok hrun
    have hv := getAccountNonce_unsent.of_ok hu hnonce
    rw [run_build hv.parameters] at hrest
    exact ⟨nonce, v, hnonce, liftResult_ok_iff.1 ⟨submission, w', hrest⟩⟩
  · rintro ⟨nonce, v, hnonce, hbuild⟩
    have hv := getAccountNonce_unsent.of_ok hu hnonce
    rw [makeSubmission, EStateM.run_bind, hnonce]
    simp only [run_build hv.parameters]
    exact liftResult_ok_iff.2 hbuild

/-- The call throws, and no extrinsic is sent. -/
def Rejected {α : Type} (x : Action α) (u : World) : Prop :=
  ∃ e w', x.run u = .error (.thrown e) w' ∧ NoneSince Submits u.log w'

theorem rejected_discard {α : Type} {x : Action α} :
    Rejected (ObjectRuns.discard x) u ↔ Rejected x u := by
  constructor
  · rintro ⟨e, w', hrun, hnone⟩
    rcases run_bind_eq_error hrun with hrun | ⟨a, v, -, hpure⟩
    · exact ⟨e, w', hrun, hnone⟩
    · cases hpure
  · rintro ⟨e, w', hrun, hnone⟩
    refine ⟨e, w', ?_, hnone⟩
    rw [ObjectRuns.discard, EStateM.run_bind, hrun]

def Returns {α : Type} (x : Action α) : Prop :=
  Triple Supplied x (fun _ _ => True) fun halt _ => ∀ e, halt ≠ .thrown e

theorem returns_request {α : Type} (entry : Json → Entry) (f : Json → α) :
    Returns (do
      let response ← request entry
      return f response) := by
  apply Triple.bind (Q := fun _ _ => True)
  · apply (supplied_quiet.request entry).post
    · intro _ w _
      trivial
    · intro halt w h
      exact not_refused h.2 fun _ hw => hw
  · intro response
    exact triple_pure fun _ _ => trivial

theorem returns_watchExtrinsic (kind : SlotKind) (submission : Submission) (callback : Callback) :
    Returns (watchExtrinsic kind submission callback) := by
  apply (watchExtrinsic_triple supplied_quiet fun _ hw => hw).post
  · intro _ w _
    trivial
  · intro halt w h
    exact not_refused h.2 fun _ hw => hw

theorem rejected_iff {α : Type} {rest : Submission → Action α} (hu : Unsent prm hasher u.log u)
    (hrest : ∀ submission, Returns (rest submission)) :
    Rejected (makeSubmission lib address build >>= rest) u ↔
      ∃ e w', (makeSubmission lib address build).run u = .error (.thrown e) w' := by
  have hmake : Preserves (Unsent prm hasher u.log) (makeSubmission lib address build) :=
    preserves_makeSubmission unsent_quiet unsent_locals unsent_ignores
  constructor
  · rintro ⟨e, w', hrun, -⟩
    rcases run_bind_eq_error hrun with hrun | ⟨submission, v, hok, hthrown⟩
    · exact ⟨e, w', hrun⟩
    · exact absurd rfl ((hrest submission).of_error (hmake.of_ok hu hok).supplied hthrown e)
  · rintro ⟨e, w', hrun⟩
    refine ⟨e, w', ?_, (hmake.of_error hu hrun).unsubmitted⟩
    rw [EStateM.run_bind, hrun]

end Rejections

section Operations

variable {lib : Libraries} {prm : ProtocolParameters} {hasher : Hasher} {w : World} {e : Event}

inductive SubmitsCall : Operation → CallRequest → Submit → Prop where
  | sent (request : CallRequest) :
    SubmitsCall (.submitExtrinsic request) request ExtrinsicSubmission.submitExtrinsic
  | watched (request : CallRequest) (tag : ℕ) :
    SubmitsCall (.submitAndSubcribeExtrinsic request tag) request
      ExtrinsicSubmission.submitAndSubcribeExtrinsic

/-- The call gets as far as handing its extrinsic to the node. -/
def HandsOver (lib : Libraries) (submit : Submit) (request : CallRequest) (u : World) : Prop :=
  ∃ submission w', (makeSubmission lib request.sender fun prm nonce =>
    submit lib.toCrypto prm nonce request).run u = .ok submission w'

theorem SubmitsCall.isSubmission {op : Operation} {request : CallRequest} {submit : Submit}
    (h : SubmitsCall op request submit) : IsSubmission submit := by
  cases h with
  | sent => exact Or.inr rfl
  | watched => exact Or.inl rfl

theorem SubmitsCall.rejected_iff {request : CallRequest} {submit : Submit}
    (h : SubmitsCall e.op request submit) (hu : Unsent prm hasher w.log (meets w e)) :
    Rejected (perform lib e.op) (meets w e) ↔ ∃ exception w', (makeSubmission lib request.sender
      fun prm nonce => submit lib.toCrypto prm nonce request).run (meets w e) =
        .error (.thrown exception) w' := by
  generalize e.op = op at h
  cases h with
  | sent =>
    rw [perform, rejected_discard]
    exact MissingCalls.rejected_iff hu fun submission => returns_request _ _
  | watched _ tag =>
    exact MissingCalls.rejected_iff hu fun submission => returns_watchExtrinsic _ _ _

theorem transfer_rejected_iff {t : TransferRequest} {tag : ℕ} (h : e.op = .signAndSendTransfer t tag)
    (hu : Unsent prm hasher w.log (meets w e)) :
    Rejected (perform lib e.op) (meets w e) ↔ ∃ exception w', (makeSubmission lib t.sender
      fun prm nonce => ExtrinsicSubmission.signAndSendTransfer lib.toCrypto prm nonce t.sender
        t.privateKey t.recipient t.amount).run (meets w e) = .error (.thrown exception) w' := by
  rw [h]
  exact MissingCalls.rejected_iff hu fun submission => returns_watchExtrinsic _ _ _

theorem unsent_meets (hprm : w.api.protocolPrm = some prm)
    (hhasher : w.api.freeBalanceHasher = some hasher) (hserved : Served e) :
    Unsent prm hasher w.log (meets w e) :=
  ⟨hprm, hhasher, hserved, noneSince_self rfl⟩

end Operations

section Samples

def missingCall (sender : Str) : Event where
  op := .submitExtrinsic ⟨[], lit "balances", lit "burn", sender, lit "0x00"⟩
  answers := [answered 7, confirmed, confirmed]
  incoming := [(7, changed "0x05")]

def badAddress : Str := AddressRoundTrip.knownAddress.dropLast ++ lit "s"

def plainObject : World := after (start (construct blankMemory)) [connectTo plainChain]

theorem plainObject_reachable :
    Reachable (step sampleLibraries) (start (construct blankMemory)) plainObject :=
  ⟨[connectTo plainChain], run_after _ _ (by decide +kernel)⟩

theorem plainObject_parameters : ∃ prm, plainObject.api.protocolPrm = some prm ∧
    Parsed prm.metadata ∧ Missing prm.metadata (lit "balances") (lit "burn") := by
  have hvalues : plainObject.api.protocolPrm.map (fun prm => (detected prm.metadata,
      decide (Missing prm.metadata (lit "balances") (lit "burn")))) = some ([7], true) := by
    decide +kernel
  obtain ⟨prm, hprm, hseen⟩ := Option.map_eq_some_iff.1 hvalues
  obtain ⟨hdetected, hmissing⟩ := Prod.mk.inj hseen
  obtain ⟨text, hcreated⟩ := reachable_created rfl plainObject_reachable hprm
  have hparsed : Parsed prm.metadata :=
    parsed_of_detected hcreated (show detected prm.metadata = [Layout.v7.number] from hdetected)
  exact ⟨prm, hprm, hparsed, of_decide_eq_true hmissing⟩

theorem badAddress_rejected :
    Throws (getPublicKeyFromStr sampleLibraries.blake2b badAddress) := by
  have h : getPublicKeyFromStr sampleLibraries.blake2b badAddress =
      throwing (.application (lit "Address checksum is wrong.")) := by decide +kernel
  exact ⟨_, h⟩

end Samples

end PolkadotApi.MissingCalls
