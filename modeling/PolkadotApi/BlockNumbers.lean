import PolkadotApi.HexValues
import PolkadotApi.SubscriptionFrames

set_option autoImplicit false

namespace PolkadotApi.BlockNumbers
open StreamReader HexText MachineModel JsonValues Converters PositionalNumerals HexValues
open Notifications Subscriptions SubscriptionFrames

/-- The hexadecimal digits of a number without leading zeros, the highest first. -/
def Writes (n : ℕ) (t : Str) : Prop := t.map hexValue = (numeral 16 n).reverse.map some

section Digits

variable {t : Str} {ds : List ℕ}

theorem toNat_fromHexByte {c d : UInt8} {x y : ℕ} (hc : digitOf c = x) (hd : digitOf d = y)
    (hx : x < 16) (hy : y < 16) : (fromHexByte c d).toNat = 16 * x + y := by
  have hjoin : x <<< 4 ||| y = x * 2 ^ 4 + y := by
    rw [← Nat.shiftLeft_add_eq_or_of_lt (show y < 2 ^ 4 from hy), Nat.shiftLeft_eq]
  rw [fromHexByte, hc, hd, hjoin, toNat_ofNat_lt (by omega)]
  omega

theorem hexBytes_length (t : Str) : (hexBytes t).length = (t.length + 1) / 2 := by
  fun_induction hexBytes t with
  | case1 => rfl
  | case2 => simp
  | case3 c d t ih =>
    simp only [List.length_cons, ih]
    omega

/-- The pairs have the value of the digits, or sixteen times that value if the last
digit stands alone. -/
theorem bigEndian_hexBytes (h : t.map hexValue = ds.map some) :
    bigEndian (hexBytes t) = 16 ^ (t.length % 2) * valueBE 16 ds := by
  have hlength : t.length = ds.length := by simpa using congrArg List.length h
  fun_induction hexBytes t generalizing ds with
  | case1 =>
    cases ds with
    | nil => rfl
    | cons x ds => cases h
  | case2 c =>
    cases ds with
    | nil => cases h
    | cons x ds =>
      obtain ⟨hc, hnil⟩ := List.cons.inj h
      obtain rfl := List.map_eq_nil_iff.1 hnil.symm
      have hzero : digitOf 0 = 0 := by decide
      have hbyte := toNat_fromHexByte (digitOf_eq hc) hzero (hexValue_lt hc) (by decide)
      simp [bigEndian, valueBE, hbyte]
  | case3 c d t ih =>
    obtain ⟨x, rest, rfl, hc, h⟩ := List.map_eq_cons_iff.1 h.symm
    obtain ⟨y, ds, rfl, hd, htail⟩ := List.map_eq_cons_iff.1 h
    simp only [List.length_cons] at hlength
    have hbyte := toNat_fromHexByte (digitOf_eq hc.symm) (digitOf_eq hd.symm)
      (hexValue_lt hc.symm) (hexValue_lt hd.symm)
    have hrest := ih htail.symm (by omega)
    have hpairs : 256 ^ (hexBytes t).length = 16 ^ (t.length % 2) * 16 ^ ds.length := by
      rw [hexBytes_length, show (256 : ℕ) = 16 ^ 2 by norm_num, ← Nat.pow_mul, ← Nat.pow_add]
      congr 1
      omega
    have hmod : (c :: d :: t).length % 2 = t.length % 2 := by
      simp only [List.length_cons]
      omega
    rw [bigEndian] at hrest ⊢
    rw [List.map_cons, valueBE_cons, hrest, hbyte, List.length_map, hpairs, valueBE_cons,
      valueBE_cons, hmod, List.length_cons, Nat.pow_succ]
    ring

end Digits

section Numbers

variable {n : ℕ} {t : Str}

theorem writes_length (ht : Writes n t) : t.length = (numeral 16 n).length := by
  have h := congrArg List.length ht
  simpa using h

theorem writes_value (ht : Writes n t) :
    bigEndian (hexBytes t) = 16 ^ (t.length % 2) * n := by
  rw [bigEndian_hexBytes ht, valueBE_eq_ofDigits, List.reverse_reverse, ofDigits_numeral]

theorem writes_bounds (hn : n < 2 ^ 63) (ht : Writes n t) :
    t.length ≤ 16 ∧ (t.length % 2 = 1 → n < 2 ^ 60) := by
  have hlength := writes_length ht
  rcases Nat.eq_zero_or_pos n with rfl | hpos
  · rw [show numeral 16 0 = [0] from rfl] at hlength
    exact ⟨by rw [hlength]; decide, fun _ => by norm_num⟩
  · rw [numeral, if_neg (by omega)] at hlength
    have hsixteen : (Nat.digits 16 n).length ≤ 16 := by
      rw [Nat.digits_length_le_iff (by norm_num)]
      omega
    refine ⟨by omega, ?_⟩
    intro hodd
    have hfifteen : (Nat.digits 16 n).length ≤ 15 := by omega
    rw [Nat.digits_length_le_iff (by norm_num)] at hfifteen
    exact hfifteen

theorem hexStart_number (t : Str) : (lit "0x" ++ t).drop (hexStart (lit "0x" ++ t)) = t := rfl

theorem fromHex_number (hn : n < 2 ^ 63) (ht : Writes n t) :
    fromHex 64 (lit "0x" ++ t) true = .ok (16 ^ (t.length % 2) * n) := by
  obtain ⟨hdigits, -⟩ := writes_bounds hn ht
  have hshort : (lit "0x" ++ t).length < 2 ^ 31 - 1 := by
    rw [List.length_append]
    change 2 + t.length < _
    omega
  have hbytes : bytesUp (lit "0x" ++ t) (pairsBelow (lit "0x" ++ t)) = .ok (hexBytes t) := by
    rw [bytesUp_short hshort le_rfl, hexStart_number]
  have hroom : 8 * (hexBytes t).length ≤ 64 := by
    rw [hexBytes_length]
    omega
  rw [(fromHex_of_bytes hbytes hroom).1, writes_value ht]

theorem asLong_number_iff (hn : n < 2 ^ 63) (ht : Writes n t) :
    asLong (16 ^ (t.length % 2) * n) = n ↔ n = 0 ∨ Even t.length := by
  obtain ⟨-, hsmall⟩ := writes_bounds hn ht
  rcases Nat.mod_two_eq_zero_or_one t.length with heven | hodd
  · rw [heven, Nat.pow_zero, Nat.one_mul, asLong_of_small hn]
    exact iff_of_true rfl (Or.inr (Nat.even_iff.2 heven))
  · have hbound := hsmall hodd
    have hlong : asLong (16 * n) =
        if (16 * n : ℤ) < 2 ^ 63 then (16 * n : ℤ) else (16 * n : ℤ) - 2 ^ 64 := by
      have hmod : ((16 * n : ℕ) : ℤ) % 2 ^ 64 = 16 * n := by
        rw [Int.emod_eq_of_lt (by omega) (by omega)]
        push_cast
        rfl
      unfold asLong
      simp only [hmod]
    rw [hodd, Nat.pow_one, hlong, Nat.even_iff]
    constructor
    · intro h
      left
      split_ifs at h <;> omega
    · rintro (hzero | heven)
      · rw [if_pos (by omega)]
        omega
      · omega

end Numbers

/-- The subscribers for new heads and for finalized blocks are called with the number,
and a header that can be decoded holds it. -/
structure Reports (n : ℕ) (message : Json) : Prop where
  newHead (w w' : World) (id : ℤ) : route w.api id = some (.slot .blockNumber) →
    handleWsMessage w id message = .ok w' → ∃ callback,
      w'.log = w.log ++ [.handled id message, .invoked id callback (.blockNumber n)]
  finalizedHead (w w' : World) (id : ℤ) : route w.api id = some (.slot .finalizedBlock) →
    handleWsMessage w id message = .ok w' → ∃ callback b, b.number = n ∧
      w'.log = w.log ++ [.handled id message, .invoked id callback (.finalizedBlock b)]
  header (b : BlockHeader) : decodeBlockHeader message = .ok b → b.number = n

section Delivery

variable {n : ℕ} {message : Json}

theorem decodeBlockHeader_number {b : BlockHeader} (h : decodeBlockHeader message = .ok b) :
    fromHex 64 (message.field "number").stringValue true = .ok b.number := by
  obtain ⟨parentHash, -, h⟩ := except_bind_eq_ok h
  obtain ⟨number, hnumber, h⟩ := except_bind_eq_ok h
  obtain ⟨stateRoot, -, h⟩ := except_bind_eq_ok h
  obtain ⟨extrinsicsRoot, -, h⟩ := except_bind_eq_ok h
  obtain ⟨digest, -, h⟩ := except_bind_eq_ok h
  cases h
  exact hnumber

theorem reports_of_fromHex
    (h : fromHex 64 (message.field "number").stringValue true = .ok n) (hn : n < 2 ^ 63) :
    Reports n message := by
  have hheader : ∀ b, decodeBlockHeader message = .ok b → b.number = n := by
    intro b hb
    exact Except.ok.inj ((decodeBlockHeader_number hb).symm.trans h)
  refine ⟨?_, ?_, hheader⟩
  · intro w w' id hroute hhandle
    have hpayload : payload w.api (.slot .blockNumber) message = .ok (some (.blockNumber n)) := by
      change (newHead message).map some = _
      rw [newHead, h, except_ok_bind, asLong_of_small hn]
      rfl
    obtain ⟨callback, p, hp, hlog⟩ := handleWsMessage_reports hroute (by rw [hpayload]; simp) hhandle
    cases hpayload.symm.trans hp
    exact ⟨callback, hlog⟩
  · intro w w' id hroute hhandle
    have hpayload : payload w.api (.slot .finalizedBlock) message =
        (decodeBlockHeader message).map fun b => some (.finalizedBlock b) := rfl
    obtain ⟨callback, p, hp, hlog⟩ := handleWsMessage_reports hroute (by
      rw [hpayload]
      cases decodeBlockHeader message <;> simp [Except.map]) hhandle
    rw [hpayload] at hp
    obtain ⟨b, hb, hsome⟩ := except_map_eq_ok hp
    cases hsome
    exact ⟨callback, b, hheader b hb, hlog⟩

end Delivery

/-- A block number arrives exactly if it is zero or written with an even number of
digits. -/
theorem block_number_iff {n : ℕ} (hn : n < 2 ^ 63) {t : Str} (ht : Writes n t) :
    ((fromHex 64 (lit "0x" ++ t) true).map asLong = .ok (n : ℤ) ∧
      ∀ message : Json, (message.field "number").stringValue = lit "0x" ++ t →
        Reports n message) ↔
      n = 0 ∨ Even t.length := by
  have hword := fromHex_number hn ht
  have hlong := asLong_number_iff hn ht
  rw [hword]
  change (Except.ok (asLong _) = _ ∧ _) ↔ _
  rw [Except.ok.injEq]
  constructor
  · rintro ⟨h, -⟩
    exact hlong.1 h
  · intro h
    refine ⟨hlong.2 h, ?_⟩
    intro message hmessage
    apply reports_of_fromHex _ hn
    rw [hmessage, hword]
    rcases h with rfl | heven
    · rw [Nat.mul_zero]
    · rw [Nat.even_iff.1 heven, Nat.pow_zero, Nat.one_mul]

theorem writes_of_decide {n : ℕ} {t : Str} (hpos : n ≠ 0)
    (h : t.map hexValue = (Nat.digits 16 n).reverse.map some) : Writes n t := by
  rw [Writes, numeral, if_neg hpos]
  exact h

theorem block_number_iff_ff :
    (fromHex 64 (lit "0x" ++ lit "fF") true).map asLong = .ok 255 := by
  have hwrites : Writes 255 (lit "fF") := writes_of_decide (by decide) (by norm_num; decide)
  exact ((block_number_iff (by norm_num) hwrites).2 (Or.inr (by decide))).1

/-- The block number 1 is read as 16. -/
theorem block_number_fails :
    ¬ ∀ n t, n < 2 ^ 63 → Writes n t →
      (fromHex 64 (lit "0x" ++ t) true).map asLong = .ok (n : ℤ) ∧
        ∀ message : Json, (message.field "number").stringValue = lit "0x" ++ t →
          Reports n message := by
  intro hall
  have hwrites : Writes 1 (lit "1") := writes_of_decide (by decide) (by norm_num; decide)
  have hread := (hall 1 (lit "1") (by norm_num) hwrites).1
  have hsixteen : (fromHex 64 (lit "0x" ++ lit "1") true).map asLong = .ok 16 := by decide +kernel
  rw [hsixteen] at hread
  exact absurd (Except.ok.inj hread) (by decide)

end PolkadotApi.BlockNumbers
