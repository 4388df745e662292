import PolkadotApi.Blake2b

set_option autoImplicit false

namespace PolkadotApi.Blake2b
open StreamReader MachineModel BlockStreams

section Specification

abbrev Chain : Type := Vector UInt64 8 × ℕ

theorem block_pos : 0 < BLOCKBYTES := by decide

/-- The chain value after a block that ends at byte `count`. -/
def chainWords (h : Vector UInt64 8) (count : ℕ) (last : Bool) (block : List UInt8) :
    Vector UInt64 8 :=
  compressWords h (.ofNat count) (.ofNat (count / 2 ^ 64))
    (if last then 0xffffffffffffffff else 0) 0 block

def eat (s : Chain) (block : List UInt8) : Chain :=
  (chainWords s.1 (s.2 + BLOCKBYTES) false block, s.2 + BLOCKBYTES)

def padded (block : List UInt8) : List UInt8 :=
  block ++ List.replicate (BLOCKBYTES - block.length) 0

/-- A key is a block of its own in front of the message. -/
def keyBlock (key : List UInt8) : List UInt8 := if 0 < key.length then padded key else []

def finish (outlen : ℕ) (b : Buffered Chain UInt8) : List UInt8 :=
  ((chainWords b.core.1 (b.core.2 + b.held.length) true (padded b.held)).toList.flatMap
    store64).take outlen

def start (outlen keylen : ℕ) : Buffered Chain UInt8 :=
  ⟨((initParam (paramBlock outlen keylen)).h, 0), []⟩

def digest (outlen : ℕ) (key message : List UInt8) : List UInt8 :=
  finish outlen (feed block_pos eat (start outlen key.length) (keyBlock key ++ message))

end Specification

section Words

theorem ofNat_add_words (n k : ℕ) : UInt64.ofNat n + UInt64.ofNat k = UInt64.ofNat (n + k) :=
  (UInt64.ofNat_add n k).symm

theorem counter_carry {n k : ℕ} (hk : k < 2 ^ 64) :
    UInt64.ofNat (n / 2 ^ 64) +
        (if UInt64.ofNat n + UInt64.ofNat k < UInt64.ofNat k then 1 else 0) =
      UInt64.ofNat ((n + k) / 2 ^ 64) := by
  have hcarry : (UInt64.ofNat n + UInt64.ofNat k < UInt64.ofNat k) ↔ (n + k) % 2 ^ 64 < k := by
    rw [ofNat_add_words, UInt64.lt_iff_toNat_lt, UInt64.toNat_ofNat', UInt64.toNat_ofNat',
      Nat.mod_eq_of_lt hk]
  have hone : (if (n + k) % 2 ^ 64 < k then (1 : UInt64) else 0) =
      UInt64.ofNat (if (n + k) % 2 ^ 64 < k then 1 else 0) := by
    split_ifs <;> rfl
  rw [if_congr hcarry rfl rfl, hone, ofNat_add_words]
  congr 1
  split_ifs <;> omega

theorem compressWords_take (h : Vector UInt64 8) (t0 t1 f0 f1 : UInt64) (block : List UInt8) :
    compressWords h t0 t1 f0 f1 (block.take BLOCKBYTES) = compressWords h t0 t1 f0 f1 block := by
  have hwords : (Vector.ofFn fun i : Fin 16 => load64 ((block.take BLOCKBYTES).drop (8 * i.val))) =
      Vector.ofFn fun i : Fin 16 => load64 (block.drop (8 * i.val)) := by
    congr 1
    funext i
    have hi := i.isLt
    rw [load64, load64, List.drop_take, List.take_take]
    congr 2
    simp only [BLOCKBYTES]
    omega
  simp only [compressWords, hwords]

end Words

section Refinement

structure Chained (S : State) (outlen : ℕ) (s : Chain) : Prop where
  h : S.h = s.1
  t0 : S.t0 = .ofNat s.2
  t1 : S.t1 = .ofNat (s.2 / 2 ^ 64)
  f0 : S.f0 = 0
  f1 : S.f1 = 0
  lastNode : S.lastNode = 0
  outlen : S.outlen = outlen

/-- The state between two calls: the first `buflen` bytes of the buffer are held back. -/
structure Running (S : State) (outlen : ℕ) (b : Buffered Chain UInt8) : Prop where
  chained : Chained S outlen b.core
  buf : S.buf.length = BLOCKBYTES
  held : S.buf.take S.buflen = b.held
  buflen : S.buflen = b.held.length

variable {S : State} {outlen : ℕ} {s : Chain} {b : Buffered Chain UInt8}

theorem Running.held_le (h : Running S outlen b) : b.held.length ≤ BLOCKBYTES := by
  have hlength := congrArg List.length h.held
  rw [List.length_take, h.buf] at hlength
  omega

theorem Chained.compress (h : Chained S outlen s) {block : List UInt8}
    (hblock : BLOCKBYTES ≤ block.length) :
    ∃ S', (S.incrementCounter 128).compress block = .ok S' ∧
      Chained S' outlen (eat s (block.take BLOCKBYTES)) ∧ S'.buf = S.buf ∧ S'.buflen = S.buflen := by
  refine ⟨_, if_pos hblock, ?_, rfl, rfl⟩
  have hlow : (S.incrementCounter 128).t0 = .ofNat (s.2 + BLOCKBYTES) := by
    simp only [State.incrementCounter, h.t0]
    exact ofNat_add_words s.2 128
  have hhigh : (S.incrementCounter 128).t1 = .ofNat ((s.2 + BLOCKBYTES) / 2 ^ 64) := by
    simp only [State.incrementCounter, h.t0, h.t1]
    exact counter_carry (by decide)
  refine ⟨?_, hlow, hhigh, h.f0, h.f1, h.lastNode, h.outlen⟩
  simp only [eat, chainWords, compressWords_take, hlow, hhigh]
  simp only [State.incrementCounter, h.h, h.f0, h.f1]
  rfl

theorem Chained.absorb (input : List UInt8) : ∀ {S : State} {s : Chain}, Chained S outlen s →
    ∃ S', absorb S input = .ok (S', remainder BLOCKBYTES block_pos input) ∧
      Chained S' outlen ((blocks BLOCKBYTES block_pos input).foldl eat s) ∧
        S'.buf = S.buf ∧ S'.buflen = S.buflen := by
  induction input using cut_induction block_pos with
  | hlast input hle =>
    intro S s h
    rw [Blake2b.absorb, if_neg (not_lt.2 hle), blocks_of_le block_pos hle,
      remainder_of_le block_pos hle]
    exact ⟨S, rfl, h, rfl, rfl⟩
  | hmore input hlt ih =>
    intro S s h
    obtain ⟨T, hcompress, hchained, hbuf, hbuflen⟩ := h.compress hlt.le
    obtain ⟨S', habsorb, hrest, hbuf', hbuflen'⟩ := ih hchained
    rw [Blake2b.absorb, if_pos hlt, hcompress, except_ok_bind, habsorb, blocks_of_lt block_pos hlt,
      remainder_of_lt block_pos hlt, List.foldl_cons]
    exact ⟨S', rfl, hrest, hbuf'.trans hbuf, hbuflen'.trans hbuflen⟩

theorem Chained.keep (h : Chained S outlen s) (hbuf : S.buf.length = BLOCKBYTES)
    {held input : List UInt8} (hheld : S.buf.take S.buflen = held)
    (hbuflen : S.buflen = held.length) (hfits : held.length + input.length ≤ BLOCKBYTES) :
    ∃ S', keep S input = .ok S' ∧ Running S' outlen ⟨s, held ++ input⟩ := by
  have hcopy : memcpyAt S.buf S.buflen input = .ok (S.buf.take S.buflen ++ (input ++
      S.buf.drop (S.buflen + input.length))) := if_pos (by omega)
  rw [Blake2b.keep, hcopy, except_ok_bind]
  refine ⟨_, rfl, ⟨h.h, h.t0, h.t1, h.f0, h.f1, h.lastNode, h.outlen⟩, ?_, ?_, ?_⟩
  · simp only [List.length_append, List.length_take, List.length_drop, hbuf]
    omega
  · rw [hheld, ← List.append_assoc]
    exact List.take_left' (by rw [List.length_append, hbuflen])
  · simp only [List.length_append, hbuflen]

theorem Running.fill (h : Running S outlen b) {input : List UInt8}
    (hlong : BLOCKBYTES - S.buflen < input.length) :
    memcpyAt S.buf S.buflen (input.take (BLOCKBYTES - S.buflen)) =
        .ok ((b.held ++ input).take BLOCKBYTES) ∧
      input.drop (BLOCKBYTES - S.buflen) = (b.held ++ input).drop BLOCKBYTES := by
  have hle := h.held_le
  have hbuf := h.buf
  have hbuflen := h.buflen
  have htake : (input.take (BLOCKBYTES - S.buflen)).length = BLOCKBYTES - S.buflen := by
    rw [List.length_take]
    omega
  have hwhole : S.buflen + (BLOCKBYTES - S.buflen) = BLOCKBYTES := by omega
  refine ⟨?_, ?_⟩
  · have hrest : S.buf.drop BLOCKBYTES = [] := List.drop_of_length_le (by omega)
    rw [memcpyAt, htake, hwhole, if_pos hbuf.ge, h.held, hrest, List.append_nil,
      List.take_append, List.take_of_length_le hle, hbuflen]
  · rw [List.drop_append, List.drop_of_length_le hle, List.nil_append, hbuflen]

theorem Running.update (h : Running S outlen b) (input : List UInt8) :
    ∃ S', update S input = .ok S' ∧ Running S' outlen (feed block_pos eat b input) := by
  have hle := h.held_le
  have hbuflen := h.buflen
  rw [Blake2b.update]
  by_cases hempty : 0 < input.length
  · rw [if_pos hempty]
    by_cases hlong : BLOCKBYTES - S.buflen < input.length
    · obtain ⟨hcopy, hdrop⟩ := h.fill hlong
      have hlt : BLOCKBYTES < (b.held ++ input).length := by
        rw [List.length_append]
        omega
      have hblock : ((b.held ++ input).take BLOCKBYTES).length = BLOCKBYTES := by
        rw [List.length_take]
        omega
      have hchained : Chained { S with buflen := 0, buf := (b.held ++ input).take BLOCKBYTES }
          outlen b.core :=
        ⟨h.chained.h, h.chained.t0, h.chained.t1, h.chained.f0, h.chained.f1, h.chained.lastNode,
          h.chained.outlen⟩
      obtain ⟨T, hcompress, hT, hTbuf, hTbuflen⟩ := hchained.compress hblock.ge
      obtain ⟨S', habsorb, hS', hbuf', hbuflen'⟩ := hT.absorb ((b.held ++ input).drop BLOCKBYTES)
      rw [List.take_take, Nat.min_self] at hS'
      have hzero : S'.buflen = 0 := hbuflen'.trans hTbuflen
      have hfull : S'.buf.length = BLOCKBYTES := by rw [hbuf', hTbuf, hblock]
      have hnone : S'.buf.take S'.buflen = [] := by rw [hzero, List.take_zero]
      have hrest : ([] : List UInt8).length +
          (remainder BLOCKBYTES block_pos ((b.held ++ input).drop BLOCKBYTES)).length ≤ BLOCKBYTES := by
        rw [List.length_nil, Nat.zero_add]
        exact length_remainder_le block_pos _
      obtain ⟨R, hkeep, hR⟩ := hS'.keep hfull hnone hzero hrest
      refine ⟨R, ?_, ?_⟩
      · rw [if_pos hlong, hcopy, except_ok_bind, hdrop]
        change ((State.incrementCounter _ 128).compress ((b.held ++ input).take BLOCKBYTES) >>= _) = _
        rw [hcompress, except_ok_bind, habsorb, except_ok_bind]
        exact hkeep
      · rw [feed, blocks_of_lt block_pos hlt, remainder_of_lt block_pos hlt, List.foldl_cons]
        exact hR
    · have hfits : (b.held ++ input).length ≤ BLOCKBYTES := by
        rw [List.length_append]
        omega
      rw [if_neg hlong, feed, blocks_of_le block_pos hfits, remainder_of_le block_pos hfits]
      exact h.chained.keep h.buf h.held hbuflen (by rwa [List.length_append] at hfits)
  · have hnil : input = [] := List.length_eq_zero_iff.1 (by omega)
    rw [if_neg hempty, hnil, feed, List.append_nil, blocks_of_le block_pos hle,
      remainder_of_le block_pos hle]
    exact ⟨S, rfl, h⟩

theorem Running.updates (pieces : List (List UInt8)) : ∀ {S : State} {b : Buffered Chain UInt8},
    Running S outlen b → ∃ S', pieces.foldlM Blake2b.update S = .ok S' ∧
      Running S' outlen (feed block_pos eat b pieces.flatten) := by
  induction pieces with
  | nil =>
    intro S b h
    have hle := h.held_le
    rw [List.flatten_nil, feed, List.append_nil, blocks_of_le block_pos hle,
      remainder_of_le block_pos hle]
    exact ⟨S, rfl, h⟩
  | cons piece pieces ih =>
    intro S b h
    obtain ⟨T, hT, hrunning⟩ := h.update piece
    obtain ⟨S', hS', hrest⟩ := ih hrunning
    refine ⟨S', ?_, ?_⟩
    · rw [List.foldlM_cons, hT, except_ok_bind, hS']
    · rwa [List.flatten_cons, feed_append]

theorem Running.final (h : Running S outlen b) {room : ℕ} (hroom : outlen ≤ room) :
    ∃ S', final S room = .ok (S', some (finish outlen b)) ∧ S'.f0 ≠ 0 := by
  have hle := h.held_le
  have hbuf := h.buf
  have hbuflen := h.buflen
  have hsmall : b.held.length < 2 ^ 64 := lt_of_le_of_lt hle (by decide)
  have hcopy : memcpyAt S.buf S.buflen (List.replicate (BLOCKBYTES - S.buflen) 0) =
      .ok (padded b.held) := by
    have hwhole : S.buflen + (BLOCKBYTES - S.buflen) = BLOCKBYTES := by omega
    have hrest : S.buf.drop BLOCKBYTES = [] := List.drop_of_length_le (by omega)
    rw [memcpyAt, List.length_replicate, hwhole, if_pos hbuf.ge, h.held, hrest, List.append_nil,
      padded, hbuflen]
  have hpadded : BLOCKBYTES ≤ (padded b.held).length := by
    rw [padded, List.length_append, List.length_replicate]
    omega
  have hf0 : ¬S.f0 ≠ 0 := not_not.2 h.chained.f0
  rw [Blake2b.final, if_neg (by rw [h.chained.outlen]; omega), if_neg hf0]
  simp only [State.setLastblock, State.incrementCounter, h.chained.lastNode, ne_eq,
    not_true_eq_false, if_false, hcopy, except_ok_bind, State.compress, if_pos hpadded]
  have hlow : S.t0 + UInt64.ofNat S.buflen = .ofNat (b.core.2 + b.held.length) := by
    rw [h.chained.t0, hbuflen, ofNat_add_words]
  have hhigh : (S.t1 + if S.t0 + UInt64.ofNat S.buflen < UInt64.ofNat S.buflen then 1 else 0) =
      .ofNat ((b.core.2 + b.held.length) / 2 ^ 64) := by
    rw [h.chained.t0, h.chained.t1, hbuflen, counter_carry hsmall]
  rw [hhigh, hlow, h.chained.h, h.chained.f1, h.chained.outlen]
  refine ⟨_, rfl, ?_⟩
  change (0xffffffffffffffff : UInt64) ≠ 0
  decide

theorem running_init (outlen keylen : ℕ) (hout : outlen < 256) :
    Running (initParam (paramBlock outlen keylen)) outlen (start outlen keylen) := by
  have hbyte : (UInt8.ofNat outlen).toNat = outlen := by
    rw [UInt8.toNat_ofNat']
    omega
  have hzero : (0 : UInt64) = .ofNat (0 / 2 ^ 64) := by decide
  exact ⟨⟨rfl, rfl, hzero, rfl, rfl, rfl, hbyte⟩, List.length_replicate, rfl, rfl⟩

end Refinement

section Streams

def streamed (outlen : ℕ) (key : List UInt8) (pieces : List (List UInt8)) :
    Result (Option (List UInt8)) := do
  let S ← opened outlen key
  S.elim (.ok none) fun S => do
    let S ← pieces.foldlM update S
    let r ← final S outlen
    return r.2

variable {outlen : ℕ} {key : List UInt8}

theorem running_opened (hout : 0 < outlen ∧ outlen ≤ OUTBYTES) (hkey : key.length ≤ KEYBYTES) :
    ∃ S, opened outlen key = .ok (some S) ∧
      Running S outlen (feed block_pos eat (start outlen key.length) (keyBlock key)) := by
  have hout' : ¬(outlen = 0 ∨ OUTBYTES < outlen) := by omega
  have hinit := running_init outlen key.length (lt_of_le_of_lt hout.2 (by decide))
  rw [opened, keyBlock]
  by_cases hempty : 0 < key.length
  · obtain ⟨S, hupdate, hrunning⟩ := hinit.update (padded key)
    rw [if_pos hempty, if_pos hempty, initKey, if_neg hout', if_neg (by omega)]
    refine ⟨S, ?_, hrunning⟩
    change (update _ (padded key) >>= _) = _
    rw [hupdate]
    rfl
  · have hzero : key.length = 0 := by omega
    obtain ⟨S, hupdate, hrunning⟩ := hinit.update []
    cases hupdate
    rw [if_neg hempty, if_neg hempty, init, if_neg hout']
    rw [hzero] at hrunning ⊢
    exact ⟨_, rfl, hrunning⟩

theorem streamed_eq (hout : 0 < outlen ∧ outlen ≤ OUTBYTES) (hkey : key.length ≤ KEYBYTES)
    (pieces : List (List UInt8)) :
    streamed outlen key pieces = .ok (some (digest outlen key pieces.flatten)) := by
  obtain ⟨S, hopened, hrunning⟩ := running_opened hout hkey
  obtain ⟨T, hupdates, hT⟩ := hrunning.updates pieces
  obtain ⟨R, hfinal, -⟩ := hT.final (Nat.le_refl outlen)
  rw [streamed, hopened, except_ok_bind, Option.elim_some, hupdates, except_ok_bind, hfinal, digest,
    feed_append]
  rfl

theorem blake2b_eq_streamed (hout : 0 < outlen ∧ outlen ≤ OUTBYTES) (hkey : key.length ≤ KEYBYTES)
    (message : List UInt8) : blake2b outlen message key = streamed outlen key [message] := by
  have hout' : ¬(outlen = 0 ∨ OUTBYTES < outlen) := by omega
  rw [blake2b, if_neg hout', if_neg (not_lt.2 hkey), streamed]
  simp only [List.foldlM_cons, List.foldlM_nil, bind_pure]
  rfl

/-- However a message is cut, and in one call, the code computes the hash of the whole
message without leaving its buffer. -/
theorem hash_of_pieces (hout : 0 < outlen ∧ outlen ≤ OUTBYTES) (hkey : key.length ≤ KEYBYTES)
    (pieces : List (List UInt8)) :
    streamed outlen key pieces = .ok (some (digest outlen key pieces.flatten)) ∧
      blake2b outlen pieces.flatten key = .ok (some (digest outlen key pieces.flatten)) := by
  refine ⟨streamed_eq hout hkey pieces, ?_⟩
  rw [blake2b_eq_streamed hout hkey, streamed_eq hout hkey, List.flatten_singleton]

/-- A keyed message of three pieces, one of them longer than a block. -/
theorem hash_of_pieces_overlong :
    streamed 32 [1, 2, 3] [[5], List.replicate 300 7, []] =
        .ok (some (digest 32 [1, 2, 3] (5 :: List.replicate 300 7))) ∧
      blake2b 32 (5 :: List.replicate 300 7) [1, 2, 3] =
        .ok (some (digest 32 [1, 2, 3] (5 :: List.replicate 300 7))) := by
  have hout : 0 < 32 ∧ 32 ≤ OUTBYTES := by decide
  have hkey : ([1, 2, 3] : List UInt8).length ≤ KEYBYTES := by decide
  have h := hash_of_pieces hout hkey [[5], List.replicate 300 7, []]
  rwa [List.flatten_cons, List.flatten_cons, List.flatten_singleton, List.append_nil,
    List.singleton_append] at h

end Streams

end PolkadotApi.Blake2b
