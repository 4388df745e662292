import PolkadotApi.HexText

set_option autoImplicit false

/-!
A `std::string` is its list of bytes. A call ends in a value, in a C++
exception, or outside the language: a store or read beyond an object and a null
dereference are `Fault.undefined`, which no handler catches. Signed arithmetic
wraps as the machine does.
-/
namespace PolkadotApi.MachineModel
open StreamReader HexText

abbrev Str := List UInt8

-- named here, so that every membership test of texts refers to the same proof
instance : LawfulBEq Str := inferInstance

def lit (s : String) : Str := s.toList.map (fun c => UInt8.ofNat c.toNat)

inductive Exception where
  | outOfRange
  | invalidArgument
  | application (what : Str)
  | compactInteger (what : Str)
  | jsonRpc (what : Str)
  deriving DecidableEq

inductive Fault where
  | thrown (e : Exception)
  | undefined
  deriving DecidableEq

abbrev Result (α : Type) := Except Fault α

instance {α : Type} [DecidableEq α] : DecidableEq (Result α)
  | .ok a, .ok b => decidable_of_iff (a = b) (by simp)
  | .error a, .error b => decidable_of_iff (a = b) (by simp)
  | .ok _, .error _ => isFalse (by simp)
  | .error _, .ok _ => isFalse (by simp)

instance : Outside Fault := ⟨.undefined⟩

def throwing {α : Type} (e : Exception) : Result α := .error (.thrown e)

abbrev Reader (α : Type) := Scan Str Fault α

def lift {α : Type} (r : Result α) : Reader α := fun s => r.map (fun a => (a, s))

theorem lift_ok {α : Type} (a : α) (s : Str) : lift (.ok a) s = .ok (a, s) := rfl

def substr (s : Str) (pos len : ℕ) : Result Str :=
  if pos ≤ s.length then .ok ((s.drop pos).take len) else throwing .outOfRange

def substrFrom (s : Str) (pos : ℕ) : Result Str :=
  if pos ≤ s.length then .ok (s.drop pos) else throwing .outOfRange

theorem substrFrom_append {s : Str} {pos : ℕ} (h : s.length = pos) (t : Str) :
    substrFrom (s ++ t) pos = .ok t := by
  subst pos
  simp [substrFrom]

theorem substrFrom_eq_ok {s t : Str} {pos : ℕ} (h : substrFrom s pos = .ok t) :
    t = s.drop pos := by
  unfold substrFrom at h
  split_ifs at h
  · exact (Except.ok.inj h).symm
  · cases h

theorem substr_append {s : Str} {len : ℕ} (h : s.length = len) (t : Str) :
    substr (s ++ t) 0 len = .ok s := by
  subst len
  simp [substr]

def isSpace (c : UInt8) : Bool := c == 32 || (9 ≤ c && c ≤ 13)

/-- The text after an optional `0x` of a number in base sixteen; the two
characters count as a prefix only in front of a digit. -/
def dropBase : Str → Str
  | 48 :: x :: d :: t => if (x = 120 ∨ x = 88) ∧ (hexValue d).isSome then d :: t else 48 :: x :: d :: t
  | s => s

def digitsValue : Str → ℕ → ℕ × ℕ
  | [], v => (v, 0)
  | c :: t, v =>
    match hexValue c with
    | none => (v, 0)
    | some d =>
      let r := digitsValue t (v * 16 + d)
      (r.1, r.2 + 1)

/-- `stoul(s, nullptr, 16)`: leading space, a sign and `0x` are accepted, what
follows the digits is ignored, and a minus sign negates modulo `2 ^ 64`. -/
def stoul (s : Str) : Result ℕ :=
  let t := s.dropWhile isSpace
  let signed := match t with
    | 43 :: r => (false, r)
    | 45 :: r => (true, r)
    | _ => (false, t)
  let parsed := digitsValue (dropBase signed.2) 0
  if parsed.2 = 0 then throwing .invalidArgument
  else if 2 ^ 64 ≤ parsed.1 then throwing .outOfRange
  else .ok (if signed.1 then (2 ^ 64 - parsed.1) % 2 ^ 64 else parsed.1)

theorem hexValue_ne {c : UInt8} {v : ℕ} (h : hexValue c = some v) :
    isSpace c = false ∧ c ≠ 43 ∧ c ≠ 45 := by
  revert v
  revert c
  decide +kernel

theorem stoul_pair {b c d : UInt8} (high : hexValue c = some (b.toNat / 16))
    (low : hexValue d = some (b.toNat % 16)) : stoul [c, d] = .ok b.toNat := by
  obtain ⟨hs, hp, hm⟩ := hexValue_ne high
  have hb := b.toNat_lt
  have ht : [c, d].dropWhile isSpace = [c, d] := by simp [hs]
  have hd : dropBase [c, d] = [c, d] := by
    unfold dropBase
    split
    · simp_all
    · rfl
  have hsign : (match [c, d] with
      | 43 :: r => (false, r)
      | 45 :: r => (true, r)
      | _ => (false, [c, d])) = (false, [c, d]) := by
    split
    · simp_all
    · simp_all
    · rfl
  have hv : (0 * 16 + b.toNat / 16) * 16 + b.toNat % 16 = b.toNat := by omega
  simp only [stoul, ht, hsign, hd, digitsValue, high, low, hv]
  rw [if_neg (by omega), if_neg (by omega)]
  rfl

def cstr (s : Str) : Str := s.takeWhile (· ≠ 0)

def STRING_SIZE : ℕ := 256

def COLLECTION_SIZE : ℕ := 64

def strcpy (s : Str) : Result Str :=
  if (cstr s).length < STRING_SIZE then .ok (cstr s) else .error .undefined

/-- What the parsers do with their stream and with the texts taken from it: `chars` is
`substr(0, n)` with the stream set to `substr(n)`, `number` is `stoul` in base sixteen
and `copy` is `strcpy` into a member. -/
class Parsing (m : Type → Type) where
  chars (n : ℕ) : m Str
  number (text : Str) : m ℕ
  copy (text : Str) : m Str
  raise {α : Type} (e : Exception) : m α

export Parsing (chars number copy raise)

@[default_instance] instance : Parsing Reader where
  chars n := fun stream => do
    let text ← substr stream 0 n
    let stream ← substrFrom stream n
    return (text, stream)
  number text := lift (stoul text)
  copy text := lift (strcpy text)
  raise e := lift (throwing e)

theorem chars_eq_ok {n : ℕ} {s t text : Str} (h : chars (m := Reader) n s = .ok (text, t)) :
    text = s.take n ∧ t = s.drop n := by
  obtain ⟨_, htext, h₁⟩ := except_bind_eq_ok h
  obtain ⟨_, hrest, h₂⟩ := except_bind_eq_ok h₁
  cases h₂
  unfold substr at htext
  rw [if_pos (Nat.zero_le _)] at htext
  exact ⟨(Except.ok.inj htext).symm, substrFrom_eq_ok hrest⟩

theorem chars_append {s : Str} {n : ℕ} (h : s.length = n) (t : Str) :
    chars (m := Reader) n (s ++ t) = .ok (s, t) := by
  change (substr (s ++ t) 0 n >>= fun text => substrFrom (s ++ t) n >>= fun rest =>
    Except.ok (text, rest)) = _
  rw [substr_append h, substrFrom_append h]
  rfl

theorem copy_eq_ok {s text u t : Str} (h : copy (m := Reader) s u = .ok (text, t)) :
    text = cstr s ∧ t = u := by
  obtain ⟨copied, hcopy, hpair⟩ := except_map_eq_ok h
  cases hpair
  unfold strcpy at hcopy
  split_ifs at hcopy
  exact ⟨(Except.ok.inj hcopy).symm, rfl⟩

theorem cstr_eq_self {s : Str} (h : 0 ∉ s) : cstr s = s := by
  rw [cstr, List.takeWhile_eq_self_iff]
  intro x hx
  simp only [ne_eq, decide_not, Bool.not_eq_eq_eq_not, Bool.not_true, decide_eq_false_iff_not]
  rintro rfl
  exact h hx

theorem strcpy_ok {s : Str} (h : 0 ∉ s) (hl : s.length < STRING_SIZE) : strcpy s = .ok s := by
  rw [strcpy, cstr_eq_self h, if_pos hl]

theorem copy_ok {s : Str} (h : 0 ∉ s) (hl : s.length < STRING_SIZE) (u : Str) :
    copy (m := Reader) s u = .ok (s, u) := by
  change lift (strcpy s) u = _
  rw [strcpy_ok h hl, lift_ok]

def asInt (z : ℤ) : ℤ :=
  let r := z % 2 ^ 32
  if r < 2 ^ 31 then r else r - 2 ^ 32

def asLong (n : ℕ) : ℤ :=
  let r : ℤ := n % 2 ^ 64
  if r < 2 ^ 63 then r else r - 2 ^ 64

theorem asInt_of_small {n : ℕ} (h : n < 2 ^ 31) : asInt n = n := by
  have hn : (n : ℤ) < 2 ^ 31 := by exact_mod_cast h
  have hr : (n : ℤ) % 2 ^ 32 = n := Int.emod_eq_of_lt (by omega) (by omega)
  unfold asInt
  simp only [hr]
  rw [if_pos hn]

theorem asLong_of_small {n : ℕ} (h : n < 2 ^ 63) : asLong n = n := by
  have hn : (n : ℤ) < 2 ^ 63 := by exact_mod_cast h
  have hr : (n : ℤ) % 2 ^ 64 = n := Int.emod_eq_of_lt (by omega) (by omega)
  unfold asLong
  simp only [hr]
  rw [if_pos hn]

theorem toNat_lt_of_mem (bytes : List UInt8) : ∀ c ∈ bytes.map UInt8.toNat, c < 256 := by
  intro c hc
  obtain ⟨b, _, rfl⟩ := List.mem_map.1 hc
  exact b.toNat_lt

theorem toNat_ofNat_lt {n : ℕ} (h : n < 256) : (UInt8.ofNat n).toNat = n :=
  UInt8.toNat_ofNat_of_lt' h

theorem map_toNat_ofNat {ds : List ℕ} (h : ∀ d ∈ ds, d < 256) :
    (ds.map UInt8.ofNat).map UInt8.toNat = ds := by
  rw [List.map_map]
  conv_rhs => rw [← List.map_id ds]
  apply List.map_congr_left
  intro d hd
  exact toNat_ofNat_lt (h d hd)

def asByte (z : ℤ) : UInt8 := UInt8.ofNat (z % 256).toNat

def asUInt128 (z : ℤ) : ℕ := (z % 2 ^ 128).toNat

structure FixedBytes (n : ℕ) where
  toList : List UInt8
  length_eq : toList.length = n
  deriving DecidableEq

namespace FixedBytes

variable {n : ℕ}

@[simp] theorem length_toList (b : FixedBytes n) : b.toList.length = n := b.length_eq

theorem ext_toList {a b : FixedBytes n} (h : a.toList = b.toList) : a = b := by
  cases a
  cases b
  simp_all

def zero (n : ℕ) : FixedBytes n := ⟨List.replicate n 0, by simp⟩

/-- `memcpy` of the first `n` bytes of a buffer, which must hold as many. -/
def copy (n : ℕ) (src : List UInt8) : Result (FixedBytes n) :=
  if h : n ≤ src.length then .ok ⟨src.take n, by simp [h]⟩ else .error .undefined

theorem copy_toList (b : FixedBytes n) : copy n b.toList = .ok b := by
  have h : n ≤ b.toList.length := by simp
  rw [copy, dif_pos h]
  congr 1
  apply ext_toList
  simp

end FixedBytes

def writeBuf (cap : ℕ) (bytes : List UInt8) : Result (List UInt8) :=
  if bytes.length ≤ cap then .ok bytes else .error .undefined

theorem writeBuf_ok {cap : ℕ} {bytes : List UInt8} (h : bytes.length ≤ cap) :
    writeBuf cap bytes = .ok bytes := if_pos h

theorem writeBuf_eq_ok {cap : ℕ} {bytes out : List UInt8} (h : writeBuf cap bytes = .ok out) :
    bytes.length ≤ cap ∧ out = bytes := by
  unfold writeBuf at h
  split_ifs at h with hle
  exact ⟨hle, (Except.ok.inj h).symm⟩

end PolkadotApi.MachineModel
