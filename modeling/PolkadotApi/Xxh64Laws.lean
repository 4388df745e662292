import PolkadotApi.Xxh64

set_option autoImplicit false

namespace PolkadotApi.Xxh64
open StreamReader MachineModel ByteWords

section Reads

variable {mem : List UInt8}

theorem readLE_ok {size p : ℕ} (h : p + size ≤ mem.length) :
    readLE mem size p = .ok (wordLE ((mem.drop p).take size)) := if_pos h

theorem processAll_ok {size : ℕ} (hsize : 0 < size) (step : UInt64 → UInt64 → UInt64) (len : ℕ) :
    ∀ (h64 : UInt64) (p : ℕ), p + len ≤ mem.length →
      processAll mem size hsize step ⟨h64, p, len⟩ =
        .ok ⟨((groups size (len / size) (mem.drop p)).map wordLE).foldl step h64,
          p + size * (len / size), len % size⟩ := by
  induction len using Nat.strongRecOn with
  | ind len ih =>
    intro h64 p hmem
    rw [processAll]
    by_cases hle : size ≤ len
    · rw [if_pos hle, readLE_ok (by simp only; omega), except_ok_bind,
        ih (len - size) (by omega) _ _ (by simp only; omega), Nat.div_eq_sub_div hsize hle,
        Nat.mod_eq_sub_mod hle, groups, List.map_cons, List.foldl_cons, List.drop_drop,
        Nat.mul_add, Nat.mul_one, Nat.add_comm (size * _), ← Nat.add_assoc]
    · rw [if_neg hle, Nat.div_eq_of_lt (by omega), Nat.mod_eq_of_lt (by omega)]
      rfl

def stripeLanes (v : Lanes) (s : List UInt8) : Lanes :=
  ⟨round v.v1 (wordLE ((s.drop 0).take 8)), round v.v2 (wordLE ((s.drop 8).take 8)),
    round v.v3 (wordLE ((s.drop 16).take 8)), round v.v4 (wordLE ((s.drop 24).take 8))⟩

theorem word_of_stripe {p j : ℕ} (hj : j + 8 ≤ 32) :
    (((mem.drop p).take 32).drop j).take 8 = (mem.drop (p + j)).take 8 := by
  rw [List.drop_take, List.take_take, List.drop_drop, Nat.min_eq_left (by omega)]

theorem stripe_ok {p : ℕ} (h : p + 32 ≤ mem.length) (v : Lanes) :
    stripe mem p v = .ok (stripeLanes v ((mem.drop p).take 32)) := by
  rw [stripe, readLE_ok (by omega), readLE_ok (by omega), readLE_ok (by omega),
    readLE_ok (by omega), stripeLanes, word_of_stripe (by decide), word_of_stripe (by decide),
    word_of_stripe (by decide), word_of_stripe (by decide)]
  rfl

theorem stripes_ok {limit : ℕ} (hlimit : limit + 32 ≤ mem.length) (rounds : ℕ) :
    ∀ (p : ℕ) (v : Lanes), p ≤ limit → (limit - p) / 32 = rounds →
      stripes mem limit p v =
        .ok ((groups 32 (rounds + 1) (mem.drop p)).foldl stripeLanes v, p + 32 * (rounds + 1)) := by
  induction rounds with
  | zero =>
    intro p v hp hrounds
    rw [stripes, stripe_ok (by omega), except_ok_bind, if_neg (by omega)]
    rfl
  | succ rounds ih =>
    intro p v hp hrounds
    have hgroups : groups 32 (rounds + 1 + 1) (mem.drop p) =
        (mem.drop p).take 32 :: groups 32 (rounds + 1) (mem.drop (p + 32)) := by
      rw [groups, List.drop_drop]
    rw [stripes, stripe_ok (by omega), except_ok_bind, if_pos (by omega),
      ih (p + 32) _ (by omega) (by omega), hgroups, List.foldl_cons,
      Nat.mul_add 32 (rounds + 1), Nat.mul_one, Nat.add_comm (32 * _), ← Nat.add_assoc]

theorem lanes_eq (gs : List (List UInt8)) (v : Lanes) : gs.foldl stripeLanes v =
    ⟨(laneWords 0 gs).foldl round v.v1, (laneWords 1 gs).foldl round v.v2,
      (laneWords 2 gs).foldl round v.v3, (laneWords 3 gs).foldl round v.v4⟩ := by
  induction gs generalizing v with
  | nil => rfl
  | cons g gs ih => exact ih (stripeLanes v g)

/-- The steps after the whole words, on the bytes that are left. -/
def tailEnd (h64 : UInt64) (rest : List UInt8) : UInt64 :=
  let h := if 4 ≤ rest.length then step4 h64 (wordLE (rest.take 4)) else h64
  let rest := if 4 ≤ rest.length then rest.drop 4 else rest
  ((groups 1 rest.length rest).map wordLE).foldl step1 h

theorem tail_eq (h64 : UInt64) (rest : List UInt8) : tail h64 rest =
    tailEnd (((groups 8 (rest.length / 8) rest).map wordLE).foldl step8 h64)
      (rest.drop (8 * (rest.length / 8))) := rfl

theorem processEnd_ok (h64 : UInt64) {p len : ℕ} (h : p + len ≤ mem.length) :
    (do
      let c ← if 4 ≤ len then process mem 4 step4 ⟨h64, p, len⟩ else .ok ⟨h64, p, len⟩
      let c ← processAll mem 1 Nat.one_pos step1 c
      return avalanche c.h64 : Result UInt64) =
        .ok (avalanche (tailEnd h64 ((mem.drop p).take len))) := by
  have hlength : ((mem.drop p).take len).length = len := by
    rw [List.length_take, List.length_drop]
    omega
  have hgroups : ∀ n q, groups 1 n (mem.drop q) = groups 1 n ((mem.drop q).take n) := by
    intro n q
    exact (groups_take _ (by omega)).symm
  rw [tailEnd, hlength]
  by_cases hfour : 4 ≤ len
  · rw [if_pos hfour, if_pos hfour, if_pos hfour, process, readLE_ok (by simp only; omega),
      except_ok_bind]
    change (processAll mem 1 _ step1 ⟨_, p + 4, len - 4⟩ >>= _) = _
    rw [processAll_ok _ _ _ _ _ (by omega), except_ok_bind, List.take_take,
      Nat.min_eq_left hfour, Nat.div_one, List.drop_take, List.drop_drop, hgroups]
    have hrest : ((mem.drop (p + 4)).take (len - 4)).length = len - 4 := by
      rw [List.length_take, List.length_drop]
      omega
    rw [hrest]
    rfl
  · rw [if_neg hfour, if_neg hfour, if_neg hfour, except_ok_bind]
    change (processAll mem 1 _ step1 ⟨h64, p, len⟩ >>= _) = _
    rw [processAll_ok _ _ _ _ _ h, except_ok_bind, Nat.div_one, hgroups, hlength]
    rfl

theorem finalize_ok (h64 : UInt64) {p len : ℕ} (h : p + len % 32 ≤ mem.length) :
    finalize mem h64 p len = .ok (avalanche (tail h64 ((mem.drop p).take (len % 32)))) := by
  have hmask : len &&& 31 = len % 32 := Nat.and_two_pow_sub_one_eq_mod len 5
  rw [finalize, hmask]
  generalize len % 32 = r at *
  have hsplit : 8 * (r / 8) + r % 8 = r := Nat.div_add_mod r 8
  have hlength : ((mem.drop p).take r).length = r := by
    rw [List.length_take, List.length_drop]
    omega
  have hrest : ((mem.drop p).take r).drop (8 * (r / 8)) =
      (mem.drop (p + 8 * (r / 8))).take (r % 8) := by
    rw [List.drop_take, List.drop_drop]
    congr 1
    omega
  rw [processAll_ok _ _ _ _ _ h, except_ok_bind, processEnd_ok _ (by simp only; omega), tail_eq,
    hlength, hrest, groups_take _ (by omega)]

/-- The pointer stays inside the input, and the bytes behind it do not matter. -/
theorem xxh64_eq {len : ℕ} (h : len ≤ mem.length) (seed : UInt64) :
    xxh64 mem len seed = .ok (hash (mem.take len) seed) := by
  have hlength : (mem.take len).length = len := by
    rw [List.length_take]
    omega
  have hsplit : 32 * (len / 32) + len % 32 = len := Nat.div_add_mod len 32
  have hrest : (mem.take len).drop (32 * (len / 32)) =
      (mem.drop (32 * (len / 32))).take (len % 32) := by
    rw [List.drop_take]
    congr 1
    omega
  rw [xxh64, hash, hlength, hrest]
  by_cases hlong : 32 ≤ len
  · have hrounds : (len - 32 - 0) / 32 + 1 = len / 32 := by omega
    have hlanes : (groups 32 (len / 32) mem).foldl stripeLanes (startLanes seed) =
        lanes seed (groups 32 (len / 32) (mem.take len)) := by
      rw [lanes_eq, groups_take _ (by omega)]
      rfl
    rw [if_pos hlong, if_pos hlong, stripes_ok (by omega) _ 0 _ (by omega) rfl, except_ok_bind,
      List.drop_zero, hrounds, Nat.zero_add, hlanes]
    exact finalize_ok _ (by omega)
  · have hzero : 32 * (len / 32) = 0 := by omega
    rw [if_neg hlong, if_neg hlong, hzero]
    exact finalize_ok _ (by omega)

/-- What lies behind the input is neither read nor does it matter. -/
theorem xxh64_inside (data behind : List UInt8) (seed : UInt64) :
    xxh64 (data ++ behind) data.length seed = .ok (hash data seed) := by
  have hle : data.length ≤ (data ++ behind).length := by
    rw [List.length_append]
    omega
  rw [xxh64_eq hle, List.take_left]

end Reads

section Changes

open Function

theorem times_prime1 : Injective (fun x : UInt64 => x * PRIME1) :=
  mul_injective 614540362697595703 (by decide)

theorem times_prime2 : Injective (fun x : UInt64 => x * PRIME2) :=
  mul_injective 839798700976720815 (by decide)

theorem times_prime3 : Injective (fun x : UInt64 => x * PRIME3) :=
  mul_injective 16855272203555305545 (by decide)

theorem rotl64_inj {x y : UInt64} (r : ℕ) (hr : 0 < r) (hlt : r < 64)
    (h : rotl64 x (.ofNat r) = rotl64 y (.ofNat r)) : x = y := rotl64_injective hr hlt h

theorem avalanche_injective : Injective avalanche := by
  intro x y h
  have h32 := xor_shift_injective (k := 32) (by decide) (by decide) h
  have h29 := xor_shift_injective (k := 29) (by decide) (by decide) (times_prime3 h32)
  exact xor_shift_injective (k := 33) (by decide) (by decide) (times_prime2 h29)

theorem step8_injective (k : UInt64) : Injective (fun h => step8 h k) := by
  intro x y h
  have hrot := rotl64_inj 27 (by decide) (by decide) (times_prime1 (add_injective PRIME4 h))
  exact xor_injective _ hrot

theorem step4_injective (k : UInt64) : Injective (fun h => step4 h k) := by
  intro x y h
  have hrot := rotl64_inj 23 (by decide) (by decide) (times_prime2 (add_injective PRIME3 h))
  exact xor_injective _ hrot

theorem step1_injective (k : UInt64) : Injective (fun h => step1 h k) := by
  intro x y h
  exact xor_injective _ (rotl64_inj 11 (by decide) (by decide) (times_prime1 h))

/-- A word is not lost in its round, nor in the step that takes it. -/
theorem step8_word_injective (h : UInt64) : Injective (step8 h) := by
  intro k k' heq
  have hrot := rotl64_inj 27 (by decide) (by decide) (times_prime1 (add_injective PRIME4 heq))
  rw [UInt64.xor_comm h, UInt64.xor_comm h] at hrot
  have hround := rotl64_inj 31 (by decide) (by decide) (times_prime1 (xor_injective _ hrot))
  rw [zero_add, zero_add] at hround
  exact times_prime2 hround

theorem foldl_injective {step : UInt64 → UInt64 → UInt64}
    (hstep : ∀ k, Injective fun h => step h k) (ks : List UInt64) :
    Injective (fun h => ks.foldl step h) := by
  induction ks with
  | nil => exact fun _ _ h => h
  | cons k ks ih => exact ih.comp (hstep k)

theorem tailEnd_injective (rest : List UInt8) : Injective (fun h => tailEnd h rest) := by
  intro x y h
  simp only [tailEnd] at h
  have hbytes := foldl_injective step1_injective _ h
  split_ifs at hbytes
  · exact step4_injective _ hbytes
  · exact hbytes

theorem tail_injective (rest : List UInt8) : Injective (fun h => tail h rest) :=
  (tailEnd_injective _).comp (foldl_injective step8_injective _)

theorem tail_append (h64 : UInt64) {k : ℕ} {front : List UInt8} (hfront : front.length = k * 8)
    (rest : List UInt8) :
    tail h64 (front ++ rest) = tail (((groups 8 k front).map wordLE).foldl step8 h64) rest := by
  have hcount : (front ++ rest).length / 8 = k + rest.length / 8 := by
    rw [List.length_append]
    omega
  have hdrop : (front ++ rest).drop (8 * (k + rest.length / 8)) =
      rest.drop (8 * (rest.length / 8)) := by
    rw [Nat.mul_add, ← List.drop_drop, List.drop_left' (by omega)]
  rw [tail_eq, tail_eq, hcount, groups_append hfront, List.map_append, List.foldl_append, hdrop]

/-- On fewer than 32 bytes, a change that stays inside one word changes the hash. -/
theorem word_change_detected {before word word' after : List UInt8} (hbefore : 8 ∣ before.length)
    (hword : word.length = 8) (hword' : word'.length = 8) (hne : word ≠ word')
    (hshort : before.length + 8 + after.length < 32) (seed : UInt64) :
    xxh64 (before ++ (word ++ after)) (before.length + 8 + after.length) seed ≠
      xxh64 (before ++ (word' ++ after)) (before.length + 8 + after.length) seed := by
  obtain ⟨k, hk⟩ := hbefore
  have hhash : ∀ w : List UInt8, w.length = 8 →
      xxh64 (before ++ (w ++ after)) (before.length + 8 + after.length) seed =
        .ok (avalanche (tail (step8 (((groups 8 k before).map wordLE).foldl step8
          (seed + PRIME5 + UInt64.ofNat (before.length + 8 + after.length))) (wordLE w)) after)) := by
    intro w hw
    have hlength : (before ++ (w ++ after)).length = before.length + 8 + after.length := by
      rw [List.length_append, List.length_append, hw]
      omega
    have hzero : 32 * ((before.length + 8 + after.length) / 32) = 0 := by omega
    have hone : groups 8 1 w = [w] := by
      rw [groups, List.take_of_length_le hw.le]
      rfl
    rw [xxh64_eq hlength.ge, List.take_of_length_le hlength.le, hash, hlength,
      if_neg (not_le.2 hshort), hzero, List.drop_zero, tail_append _ (hk.trans (Nat.mul_comm 8 k)),
      tail_append (k := 1) _ (hw.trans (Nat.one_mul 8).symm), hone]
    rfl
  rw [hhash word hword, hhash word' hword']
  intro heq
  have htail := tail_injective after (avalanche_injective (Except.ok.inj heq))
  exact hne (wordLE_injective hword.le (hword.trans hword'.symm) (step8_word_injective _ htail))

theorem word_change_detected_between :
    xxh64 ([1, 2, 3, 4, 5, 6, 7, 8] ++ ([0, 0, 0, 0, 0, 0, 0, 0] ++ [9])) (8 + 8 + 1) 5 ≠
      xxh64 ([1, 2, 3, 4, 5, 6, 7, 8] ++ ([0, 0, 0, 1, 0, 0, 0, 0] ++ [9])) (8 + 8 + 1) 5 := by
  have hbefore : 8 ∣ ([1, 2, 3, 4, 5, 6, 7, 8] : List UInt8).length := by decide
  have hshort : ([1, 2, 3, 4, 5, 6, 7, 8] : List UInt8).length + 8 +
      ([9] : List UInt8).length < 32 := by decide
  exact word_change_detected hbefore rfl rfl (by decide) hshort 5

end Changes

end PolkadotApi.Xxh64
