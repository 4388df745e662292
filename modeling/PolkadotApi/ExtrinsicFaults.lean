import PolkadotApi.ExtrinsicAgreement

set_option autoImplicit false

namespace PolkadotApi.ExtrinsicFaults
open StreamReader MachineModel ScaleCodec ScaleRoundTrip AddressCodec Converters MetadataFormats
open MetadataFactory MetadataLookup ExtrinsicSubmission ExtrinsicAgreement

section Exceptions

variable {α β : Type}

def Throws (r : Result α) : Prop := ∃ e, r = .error (.thrown e)

theorem throws_bind_iff {r : Result α} {f : α → Result β} :
    Throws (r >>= f) ↔ Throws r ∨ ∃ a, r = .ok a ∧ Throws (f a) := by
  cases r with
  | error e =>
    constructor
    · rintro ⟨e', h⟩
      obtain rfl : e = .thrown e' := Except.error.inj h
      exact Or.inl ⟨e', rfl⟩
    · rintro (⟨e', h⟩ | ⟨a, h, -⟩)
      · cases h
        exact ⟨e', rfl⟩
      · cases h
  | ok a =>
    constructor
    · intro h
      exact Or.inr ⟨a, rfl, h⟩
    · rintro (⟨e, h⟩ | ⟨_, h, hf⟩)
      · cases h
      · cases h
        exact hf

theorem not_throws_ok (a : α) : ¬ Throws (.ok a : Result α) := by
  rintro ⟨e, h⟩
  cases h

theorem not_throws_undefined : ¬ Throws (.error .undefined : Result α) := by
  rintro ⟨e, h⟩
  cases h

theorem not_throws_bind {r : Result α} {f : α → Result β} (h : ¬ Throws r)
    (hf : ∀ a, ¬ Throws (f a)) : ¬ Throws (r >>= f) := by
  rw [throws_bind_iff]
  rintro (hr | ⟨a, -, ha⟩)
  · exact h hr
  · exact hf a ha

theorem not_throws_encode (n : ℕ) : ¬ Throws (encodeCompactInteger n) := by
  rcases Nat.lt_or_ge n (2 ^ 56) with h | h
  · obtain ⟨_, ⟨ci, hci, -⟩, -⟩ := exists_encodes h
    rw [hci]
    exact not_throws_ok ci
  · rw [encode_overflow h]
    exact not_throws_undefined

theorem not_throws_writeBuf (cap : ℕ) (bytes : List UInt8) : ¬ Throws (writeBuf cap bytes) := by
  unfold writeBuf
  split_ifs
  · exact not_throws_ok bytes
  · exact not_throws_undefined

theorem not_throws_deref (a : Option α) : ¬ Throws (deref a) := by
  cases a with
  | none => exact not_throws_undefined
  | some a => exact not_throws_ok a

end Exceptions

section Lookups

variable {md : Metadata}

theorem firstVersion_forall {α : Type} {P : α → Prop} {i : ℕ} {v0 : MDV0 → ModuleV0 → α}
    {v4 : MDV4 → ModuleV4 → α} {v5 : MDV5 → ModuleV5 → α} {v6 : MDV6 → ModuleV6 → α}
    {v7 : MDV7 → ModuleV7 → α} (h0 : ∀ m x, P (v0 m x)) (h4 : ∀ m x, P (v4 m x))
    (h5 : ∀ m x, P (v5 m x)) (h6 : ∀ m x, P (v6 m x)) (h7 : ∀ m x, P (v7 m x)) {default : α}
    (hdefault : P default) : P ((firstVersion md i v0 v4 v5 v6 v7).getD default) := by
  have hsome : ∀ a, firstVersion md i v0 v4 v5 v6 v7 = some a → P a := by
    intro a ha
    simp only [firstVersion, Option.orElse_eq_orElse, Option.orElse_eq_or, Option.or_eq_some_iff,
      Option.bind_eq_some_iff, Option.map_eq_some_iff] at ha
    rcases ha with ⟨m, -, x, -, rfl⟩ | ⟨-, ⟨m, -, x, -, rfl⟩ | ⟨-, ⟨m, -, x, -, rfl⟩ |
      ⟨-, ⟨m, -, x, -, rfl⟩ | ⟨-, m, -, x, -, rfl⟩⟩⟩⟩
    · exact h0 m x
    · exact h4 m x
    · exact h5 m x
    · exact h6 m x
    · exact h7 m x
  cases h : firstVersion md i v0 v4 v5 v6 v7 with
  | none => exact hdefault
  | some a => exact hsome a h

theorem not_throws_hasMethods (md : Metadata) (i : ℕ) : ¬ Throws (hasMethods md i) := by
  have hv0 : ∀ m : ModuleV0, ¬ Throws ((deref (m.storage.function 0)).map
      fun f => decide (0 < f.name.length)) := by
    intro m
    cases m.storage.function 0 with
    | none => exact not_throws_undefined
    | some f => exact not_throws_ok _
  unfold hasMethods
  exact firstVersion_forall (P := fun r => ¬ Throws r) (fun _ m => hv0 m)
    (fun _ _ => not_throws_ok _) (fun _ _ => not_throws_ok _) (fun _ _ => not_throws_ok _)
    (fun _ _ => not_throws_ok _) (not_throws_ok _)

theorem not_throws_moduleAt {M : Type} (module : Slots M) (k : ℤ) :
    ¬ Throws (moduleAt module k) := by
  unfold moduleAt
  split_ifs
  · exact not_throws_deref _
  · exact not_throws_undefined

theorem not_throws_callNameAt (md : Metadata) (k : ℤ) (i : ℕ) : ¬ Throws (callNameAt md k i) := by
  have hcall : ∀ call : Slots Call, ¬ Throws (callAt call i) := fun call =>
    not_throws_bind (not_throws_deref _) fun _ => not_throws_deref _
  unfold callNameAt
  refine firstVersion_forall (P := fun r => ¬ Throws r) ?_ ?_ ?_ ?_ ?_ (not_throws_ok _)
  · intro m _
    exact not_throws_bind (not_throws_moduleAt _ _) fun _ =>
      not_throws_bind (not_throws_deref _) fun _ => not_throws_ok _
  · intro m _
    exact not_throws_bind (not_throws_moduleAt _ _) fun _ => hcall _
  · intro m _
    exact not_throws_bind (not_throws_moduleAt _ _) fun _ => hcall _
  · intro m _
    exact not_throws_bind (not_throws_moduleAt _ _) fun _ => hcall _
  · intro m _
    exact not_throws_bind (not_throws_moduleAt _ _) fun _ => hcall _

theorem not_throws_methodIndexFrom {name : ℕ → Result Str} (h : ∀ i, ¬ Throws (name i))
    (funcNameLower : Str) (rounds i : ℕ) :
    ¬ Throws (methodIndexFrom name funcNameLower rounds i) := by
  induction rounds generalizing i with
  | zero => exact not_throws_ok _
  | succ rounds ih =>
    refine not_throws_bind (h i) fun text => ?_
    split_ifs
    · exact not_throws_ok _
    · exact ih (i + 1)

theorem not_throws_moduleIndexFrom (md : Metadata) (nameLower : Str) (skip : Bool)
    (rounds i count : ℕ) : ¬ Throws (moduleIndexFrom md nameLower skip rounds i count) := by
  induction rounds generalizing i count with
  | zero => exact not_throws_ok _
  | succ rounds ih =>
    rw [moduleIndexFrom]
    by_cases hname : (nameAt md i).length ≠ 0
    · rw [if_pos hname]
      refine not_throws_bind (not_throws_hasMethods md i) fun _ => ?_
      dsimp only
      by_cases hfound : nameLower = lower (nameAt md i)
      · rw [if_pos hfound]
        exact not_throws_ok _
      · rw [if_neg hfound]
        exact ih (i + 1) _
    · rw [if_neg hname]
      exact ih (i + 1) count

theorem not_throws_methodHeader (md : Metadata) (module method : Str) :
    ¬ Throws (methodHeader md module method) :=
  not_throws_bind (not_throws_moduleIndexFrom md _ _ _ _ _) fun _ =>
    not_throws_bind (not_throws_moduleIndexFrom md _ _ _ _ _) fun _ =>
      not_throws_bind (not_throws_methodIndexFrom (not_throws_callNameAt md _) _ _ _) fun _ =>
        not_throws_ok _

end Lookups

section Submissions

variable {crypto : Crypto} {prm : ProtocolParameters} {nonce : ℕ} {call : CallRequest}

theorem not_throws_fromHexVector (hexStr : Str) (bigEndianBytes : Bool) :
    ¬ Throws (fromHexVector hexStr bigEndianBytes) := by
  unfold fromHexVector bytesUp
  dsimp only
  split_ifs
  · exact not_throws_undefined
  · exact not_throws_ok _
  · exact not_throws_undefined
  · exact not_throws_ok _
  · exact not_throws_undefined

theorem not_throws_payload (sp : SignaturePayload) : ¬ Throws sp.serializeBinary := by
  refine not_throws_bind (not_throws_encode _) fun compactNonce => ?_
  dsimp only
  split_ifs
  · exact not_throws_ok _
  · exact not_throws_undefined

/-- Signing throws only for the address of the sender, once everything before has
gone well. -/
theorem signCall_throws_iff :
    Throws (signCall crypto prm nonce call) ↔
      (∃ mm, methodHeader prm.metadata call.module call.method = .ok mm) ∧ nonce < 2 ^ 56 ∧
        call.encodedMethodBytes.length + 3 ≤ MAX_METHOD_BYTES_SZ ∧
        Throws (getPublicKeyFromStr crypto.blake2b call.sender) := by
  constructor
  · intro h
    rcases throws_bind_iff.1 h with h | ⟨compactNonce, hnonce, h⟩
    · exact absurd h (not_throws_encode nonce)
    rcases throws_bind_iff.1 h with h | ⟨mm, hmm, h⟩
    · exact absurd h (not_throws_methodHeader _ _ _)
    rcases throws_bind_iff.1 h with h | ⟨completeMessage, hbuf, h⟩
    · exact absurd h (not_throws_writeBuf _ _)
    have hfit := (writeBuf_eq_ok hbuf).1
    rw [List.length_append, methodHeader_length hmm, Nat.add_comm] at hfit
    refine ⟨⟨mm, hmm⟩, (encode_width hnonce).1, hfit, ?_⟩
    rcases throws_bind_iff.1 h with h | ⟨senderPK, -, h⟩
    · exact h
    · refine absurd h (not_throws_bind (not_throws_payload _) fun _ => ?_)
      exact not_throws_bind (not_throws_fromHexVector _ _) fun _ => not_throws_ok _
  · rintro ⟨⟨mm, hmm⟩, hnonce, hfit, hsender⟩
    obtain ⟨_, ⟨ci, hci, -⟩, -⟩ := exists_encodes hnonce
    rw [signCall_eq hci hmm hfit]
    exact throws_bind_iff.2 (Or.inl hsender)

theorem submit_throws_iff {submit : Submit} (hs : IsSubmission submit) :
    Throws (submit crypto prm nonce call) ↔ Throws (signCall crypto prm nonce call) := by
  have hsend : ∀ length rpcMethod sc, ¬ Throws (sendCall length rpcMethod sc) := by
    intro length rpcMethod sc
    exact not_throws_bind (not_throws_encode _) fun _ =>
      not_throws_bind (not_throws_writeBuf _ _) fun _ => not_throws_ok _
  rcases hs with rfl | rfl
  · rw [submitAndSubcribeExtrinsic, throws_bind_iff]
    apply or_iff_left
    rintro ⟨_, _, h⟩
    exact hsend _ _ _ h
  · rw [submitExtrinsic, throws_bind_iff]
    apply or_iff_left
    rintro ⟨_, _, h⟩
    exact hsend _ _ _ h

theorem not_throws_serializeMethodBinary (te : TransferExtrinsic) :
    ¬ Throws te.serializeMethodBinary :=
  not_throws_bind (not_throws_encode _) fun _ => not_throws_ok _

theorem not_throws_serializeBinary (te : TransferExtrinsic) : ¬ Throws te.serializeBinary :=
  not_throws_bind (not_throws_encode _) fun _ => not_throws_bind (not_throws_encode _) fun _ =>
    not_throws_bind (not_throws_encode _) fun _ =>
      not_throws_bind (not_throws_serializeMethodBinary te) fun _ => not_throws_ok _

theorem transfer_throws_iff {sender privateKey recipient : Str} {amount : ℕ} :
    Throws (signAndSendTransfer crypto prm nonce sender privateKey recipient amount) ↔
      Throws (getPublicKeyFromStr crypto.blake2b recipient) ∨
      (∃ recipientPK, getPublicKeyFromStr crypto.blake2b recipient = .ok recipientPK) ∧
        Throws (getPublicKeyFromStr crypto.blake2b sender) := by
  rw [signAndSendTransfer, throws_bind_iff]
  apply or_congr_right
  constructor
  · rintro ⟨recipientPK, hrecipient, h⟩
    refine ⟨⟨recipientPK, hrecipient⟩, ?_⟩
    rcases throws_bind_iff.1 h with h | ⟨senderPK, -, h⟩
    · exact h
    · refine absurd h (not_throws_bind (not_throws_serializeMethodBinary _) fun _ => ?_)
      refine not_throws_bind (not_throws_payload _) fun _ => ?_
      refine not_throws_bind (not_throws_fromHexVector _ _) fun _ => ?_
      exact not_throws_bind (not_throws_serializeBinary _) fun _ => not_throws_ok _
  · rintro ⟨⟨recipientPK, hrecipient⟩, hsender⟩
    exact ⟨recipientPK, hrecipient, throws_bind_iff.2 (Or.inl hsender)⟩

end Submissions

section TwoCopies

variable (crypto : Crypto) (prm : ProtocolParameters) (nonce : ℕ) (call : CallRequest)

theorem sendCall_ok_iff {length : ℕ} (h : 63 < length) (h' : length ≤ 0x3FFF) (rpcMethod : Str)
    (sc : SignedCall) :
    (∃ out, sendCall length rpcMethod sc = .ok out) ↔
      2 + (sentTail sc).length ≤ MAX_METHOD_BYTES_SZ := by
  have hlength : (doubleBytes length ++ sentTail sc).length = 2 + (sentTail sc).length :=
    List.length_append
  rw [sendCall_eq h h', writeBuf, hlength]
  by_cases hroom : 2 + (sentTail sc).length ≤ MAX_METHOD_BYTES_SZ
  · rw [if_pos hroom]
    exact iff_of_true ⟨_, rfl⟩ hroom
  · rw [if_neg hroom]
    exact iff_of_false (by rintro ⟨_, ⟨⟩⟩) hroom

theorem sent_iff_fits {submit : Submit} (hs : IsSubmission submit) {sc : SignedCall}
    (hsc : signCall crypto prm nonce call = .ok sc) :
    (∃ out, submit crypto prm nonce call = .ok out) ↔
      104 + (compact nonce).length + call.encodedMethodBytes.length ≤ MAX_METHOD_BYTES_SZ := by
  obtain ⟨_, -, hnonce, -, -, hfit, -⟩ := signCall_eq_ok hsc
  obtain ⟨hlt, hwidth, -⟩ := encode_width hnonce
  have hwide := compact_length_bounds hlt
  have hsize := signCall_message_length hsc
  have hbound : sc.completeMessage.length ≤ 2048 := hfit
  have htail := sentTail_length hnonce
  rcases hs with rfl | rfl
  · rw [submitAndSubcribeExtrinsic, hsc, except_ok_bind, DEFAULT_FIXED_EXSTRINSIC_SIZE,
      sendCall_ok_iff (by omega) (by omega)]
    omega
  · rw [submitExtrinsic, hsc, except_ok_bind, DEFAULT_FIXED_EXSTRINSIC_SIZE,
      sendCall_ok_iff (by omega) (by omega)]
    omega

theorem sent_iff_ready {submit : Submit} (hs : IsSubmission submit) :
    (∃ out, submit crypto prm nonce call = .ok out) ↔ ReadyToSend crypto prm nonce call := by
  cases hsc : signCall crypto prm nonce call with
  | ok sc => rw [sent_iff_fits _ _ _ _ hs hsc, ready_iff_fits _ _ _ _ hsc]
  | error e =>
    apply iff_of_false
    · rintro ⟨out, hout⟩
      obtain ⟨sc, hok, -⟩ := submit_eq_ok hs hout
      cases hsc.symm.trans hok
    · intro hready
      obtain ⟨sc, hok⟩ := signCall_ok_of_ready crypto prm nonce call hready
      cases hsc.symm.trans hok

/-- The two calls hand the node the same text, or both end with an exception. -/
def SameText (r r' : Result Submission) : Prop :=
  (∃ out out', r = .ok out ∧ r' = .ok out' ∧ out.extrinsic = out'.extrinsic) ∨
    Throws r ∧ Throws r'

theorem sent_same_iff :
    (∃ out out', submitAndSubcribeExtrinsic crypto prm nonce call = .ok out ∧
      submitExtrinsic crypto prm nonce call = .ok out' ∧ out.extrinsic = out'.extrinsic) ↔
      nonce < 64 ∧ ReadyToSend crypto prm nonce call := by
  have hiff := extrinsics_eq_iff crypto prm nonce call
  constructor
  · rintro ⟨out, out', hout, hout', heq⟩
    have hready := (sent_iff_ready crypto prm nonce call (Or.inl rfl)).1 ⟨out, hout⟩
    rw [hout, hout'] at hiff
    exact ⟨(hiff.1 (congrArg Except.ok heq)).resolve_right (not_not_intro hready), hready⟩
  · rintro ⟨hsmall, hready⟩
    obtain ⟨out, hout⟩ := (sent_iff_ready crypto prm nonce call (Or.inl rfl)).2 hready
    obtain ⟨out', hout'⟩ := (sent_iff_ready crypto prm nonce call (Or.inr rfl)).2 hready
    rw [hout, hout'] at hiff
    exact ⟨out, out', hout, hout', Except.ok.inj (hiff.2 (Or.inl hsmall))⟩

def Agree : Prop :=
  SameText
    (accountNonce crypto call.sender nonce >>= fun n =>
      submitAndSubcribeExtrinsic crypto prm n call)
    (accountNonce crypto call.sender nonce >>= fun n => submitExtrinsic crypto prm n call)

theorem agree_of_accepted {senderPK : PublicKey}
    (hsender : getPublicKeyFromStr crypto.blake2b call.sender = .ok senderPK) :
    Agree crypto prm nonce call ↔ nonce < 64 ∧ ReadyToSend crypto prm nonce call := by
  have hnothrow : ¬ Throws (submitExtrinsic crypto prm nonce call) := by
    rw [submit_throws_iff (Or.inr rfl), signCall_throws_iff, hsender]
    exact fun h => not_throws_ok _ h.2.2.2
  rw [Agree, SameText, accountNonce, hsender, ← sent_same_iff]
  exact or_iff_left fun h => hnothrow h.2

theorem agree_of_rejected {fault : Fault}
    (hsender : getPublicKeyFromStr crypto.blake2b call.sender = .error fault) :
    Agree crypto prm nonce call ↔
      Throws (getPublicKeyFromStr crypto.blake2b call.sender) := by
  rw [Agree, SameText, accountNonce, hsender, except_error_bind, except_error_bind,
    except_error_bind]
  constructor
  · rintro (⟨_, _, hout, -⟩ | ⟨⟨e, he⟩, -⟩)
    · cases hout
    · cases he
      exact ⟨e, rfl⟩
  · rintro ⟨e, he⟩
    cases he
    exact Or.inr ⟨⟨e, rfl⟩, ⟨e, rfl⟩⟩

end TwoCopies

end PolkadotApi.ExtrinsicFaults
