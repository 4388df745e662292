import Mathlib.Algebra.Order.Group.Int
import Mathlib.Tactic.Ring

set_option autoImplicit false

/-!
Any number of parties move values through one buffer. `readable` and `writable`
are the counts of the two semaphores, which are made on demand; `pushed` and
`popped` are everything that went in and out. Where a party stands between its
semaphore operations is its `Phase`, and the laws of the buffer speak about the
number of parties in each phase only.
-/
namespace PolkadotApi.BoundedBuffer

structure Buffer (T : Type) where
  items : List T
  readable : ℤ
  writable : ℤ
  hasRead : Bool
  hasWrite : Bool
  pushed : List T
  popped : List T

inductive Phase where
  | elsewhere
  | adding
  | reserved
  | written
  | claimed
  | freeing
  deriving DecidableEq

variable {T : Type}

inductive Step (cap : ℤ) : Buffer T → Phase → Buffer T → Phase → Prop where
  | idle (b : Buffer T) : Step cap b .elsewhere b .elsewhere
  | addRead (b : Buffer T) (h : b.hasRead = false) :
      Step cap b .elsewhere { b with hasRead := true, readable := 0 } .adding
  | addWrite (b : Buffer T) :
      Step cap b .adding { b with hasWrite := true, writable := cap } .elsewhere
  | reserve (b : Buffer T) (present : b.hasWrite = true) (h : b.writable ≠ 0) :
      Step cap b .elsewhere { b with writable := b.writable - 1 } .reserved
  | push (b : Buffer T) (x : T) :
      Step cap b .reserved { b with items := b.items ++ [x], pushed := b.pushed ++ [x] } .written
  | signal (b : Buffer T) (present : b.hasRead = true) :
      Step cap b .written { b with readable := b.readable + 1 } .elsewhere
  | claim (b : Buffer T) (present : b.hasRead = true) (h : b.readable ≠ 0) :
      Step cap b .elsewhere { b with readable := b.readable - 1 } .claimed
  | pop (b : Buffer T) (x : T) (rest : List T) (h : b.items = x :: rest) :
      Step cap b .claimed { b with items := rest, popped := b.popped ++ [x] } .freeing
  | miss (b : Buffer T) (h : b.items = []) : Step cap b .claimed b .elsewhere
  | free (b : Buffer T) (present : b.hasWrite = true) :
      Step cap b .freeing { b with writable := b.writable + 1 } .elsewhere

/-- `n` gives the number of parties in each phase. -/
structure Lawful (cap : ℤ) (b : Buffer T) (n : Phase → ℕ) : Prop where
  order : b.pushed = b.popped ++ b.items
  readers : (b.items.length : ℤ) = b.readable + n .claimed + n .written
  writers : b.writable + n .reserved + b.items.length + n .freeing = cap
  pair : b.hasRead.toNat = b.hasWrite.toNat + n .adding
  unread : b.hasRead = false → b.readable = 0
  unwritten : b.hasWrite = false → b.writable = cap
  readable_nonneg : 0 ≤ b.readable
  writable_nonneg : 0 ≤ b.writable

/-- One party goes from phase `a` to phase `c`; `n` and `m` count before and after. -/
def Moves (n m : Phase → ℕ) (a c : Phase) : Prop :=
  ∀ p, m p + (if a = p then 1 else 0) = n p + (if c = p then 1 else 0)

theorem Moves.stay {n m : Phase → ℕ} {a : Phase} (h : Moves n m a a) : m = n := by
  funext p
  exact Nat.add_right_cancel (h p)

/-- The two semaphores are made one after the other, by the same party. -/
def Paired (b : Buffer T) (n : Phase → ℕ) : Prop :=
  b.hasRead.toNat = b.hasWrite.toNat + n .adding

theorem Paired.hasWrite_of_adding {b : Buffer T} {n : Phase → ℕ} (h : Paired b n)
    (hn : 0 < n .adding) : b.hasRead = true ∧ b.hasWrite = false := by
  have hle := b.hasRead.toNat_le
  have hread : b.hasRead.toNat = 1 := by
    unfold Paired at h
    omega
  have hwrite : b.hasWrite.toNat = 0 := by
    unfold Paired at h
    omega
  exact ⟨Bool.toNat_eq_one.1 hread, Bool.toNat_eq_zero.1 hwrite⟩

theorem Paired.step {cap : ℤ} {b d : Buffer T} {n m : Phase → ℕ} {a c : Phase}
    (h : Paired b n) (hs : Step cap b a d c) (hm : Moves n m a c) : Paired d m := by
  have hadding := hm .adding
  unfold Paired at h ⊢
  cases hs with
  | idle =>
    obtain rfl := hm.stay
    exact h
  | addRead hnone =>
    simp only [reduceCtorEq, if_true, if_false] at hadding
    simp only [hnone, Bool.toNat_false] at h
    dsimp only [Bool.toNat_true]
    omega
  | addWrite =>
    simp only [reduceCtorEq, if_true, if_false] at hadding
    have hnone := (Paired.hasWrite_of_adding h (by omega)).2
    simp only [hnone, Bool.toNat_false] at h
    dsimp only [Bool.toNat_true]
    omega
  | _ =>
    simp only [reduceCtorEq, if_false, Nat.add_zero] at hadding
    rw [hadding]
    exact h

structure Roomy (cap : ℤ) (b : Buffer T) (n : Phase → ℕ) : Prop where
  writers : b.writable + n .reserved + b.items.length + n .freeing = cap
  pair : b.hasRead.toNat = b.hasWrite.toNat + n .adding
  unwritten : b.hasWrite = false → b.writable = cap
  writable_nonneg : 0 ≤ b.writable

theorem Roomy.step {cap : ℤ} {b d : Buffer T} {n m : Phase → ℕ} {a c : Phase} (hcap : 0 ≤ cap)
    (h : Roomy cap b n) (hs : Step cap b a d c) (hm : Moves n m a c) : Roomy cap d m := by
  have hpaired : Paired d m := Paired.step h.pair hs hm
  obtain ⟨writers, pair, unwritten, hw⟩ := h
  have hreserved := hm .reserved
  have hfreeing := hm .freeing
  suffices hplaces : d.writable + m .reserved + d.items.length + m .freeing = cap ∧
      (d.hasWrite = false → d.writable = cap) ∧ 0 ≤ d.writable from
    ⟨hplaces.1, hpaired, hplaces.2.1, hplaces.2.2⟩
  cases hs with
  | idle =>
    obtain rfl := hm.stay
    exact ⟨writers, unwritten, hw⟩
  | addRead hnone =>
    simp only [reduceCtorEq, if_false] at hreserved hfreeing
    refine ⟨?_, unwritten, hw⟩
    dsimp only
    omega
  | addWrite =>
    have hadding := hm .adding
    simp only [reduceCtorEq, if_true, if_false] at hadding hreserved hfreeing
    have hfull := unwritten (Paired.hasWrite_of_adding pair (by omega)).2
    refine ⟨?_, by simp, hcap⟩
    dsimp only
    omega
  | reserve present hne =>
    simp only [reduceCtorEq, if_true, if_false] at hreserved hfreeing
    refine ⟨?_, by simp [present], ?_⟩ <;> dsimp only
    all_goals omega
  | push x =>
    simp only [reduceCtorEq, if_true, if_false] at hreserved hfreeing
    have hlength : (b.items ++ [x]).length = b.items.length + 1 := by simp
    refine ⟨?_, unwritten, hw⟩
    dsimp only
    omega
  | signal present =>
    simp only [reduceCtorEq, if_false] at hreserved hfreeing
    refine ⟨?_, unwritten, hw⟩
    dsimp only
    omega
  | claim present hne =>
    simp only [reduceCtorEq, if_false] at hreserved hfreeing
    refine ⟨?_, unwritten, hw⟩
    dsimp only
    omega
  | pop x rest hitems =>
    simp only [reduceCtorEq, if_true, if_false] at hreserved hfreeing
    rw [hitems, List.length_cons] at writers
    refine ⟨?_, unwritten, hw⟩
    dsimp only
    omega
  | miss hitems =>
    simp only [reduceCtorEq, if_false] at hreserved hfreeing
    refine ⟨?_, unwritten, hw⟩
    omega
  | free present =>
    simp only [reduceCtorEq, if_true, if_false] at hreserved hfreeing
    refine ⟨?_, by simp [present], ?_⟩ <;> dsimp only
    all_goals omega

theorem Roomy.length_le {cap : ℤ} {b : Buffer T} {n : Phase → ℕ} (h : Roomy cap b n) :
    (b.items.length : ℤ) ≤ cap := by
  have hwriters := h.writers
  have hnonneg := h.writable_nonneg
  omega

theorem Lawful.roomy {cap : ℤ} {b : Buffer T} {n : Phase → ℕ} (h : Lawful cap b n) :
    Roomy cap b n :=
  ⟨h.writers, h.pair, h.unwritten, h.writable_nonneg⟩

theorem Lawful.step {cap : ℤ} {b d : Buffer T} {n m : Phase → ℕ} {a c : Phase} (hcap : 0 ≤ cap)
    (h : Lawful cap b n) (hs : Step cap b a d c) (hm : Moves n m a c) : Lawful cap d m := by
  have hroomy := h.roomy.step hcap hs hm
  obtain ⟨order, readers, -, -, unread, -, hr, -⟩ := h
  have hwritten := hm .written
  have hclaimed := hm .claimed
  suffices hvalues : d.pushed = d.popped ++ d.items ∧
      (d.items.length : ℤ) = d.readable + m .claimed + m .written ∧
      (d.hasRead = false → d.readable = 0) ∧ 0 ≤ d.readable by
    obtain ⟨order, readers, unread, hr⟩ := hvalues
    exact ⟨order, readers, hroomy.writers, hroomy.pair, unread, hroomy.unwritten, hr,
      hroomy.writable_nonneg⟩
  cases hs with
  | idle =>
    obtain rfl := hm.stay
    exact ⟨order, readers, unread, hr⟩
  | addRead hnone =>
    have hzero := unread hnone
    simp only [reduceCtorEq, if_false] at hwritten hclaimed
    refine ⟨order, ?_, by simp, le_rfl⟩
    dsimp only
    omega
  | addWrite =>
    simp only [reduceCtorEq, if_false] at hwritten hclaimed
    refine ⟨order, ?_, unread, hr⟩
    dsimp only
    omega
  | reserve present hne =>
    simp only [reduceCtorEq, if_false] at hwritten hclaimed
    refine ⟨order, ?_, unread, hr⟩
    dsimp only
    omega
  | push x =>
    simp only [reduceCtorEq, if_true, if_false] at hwritten hclaimed
    have hlength : (b.items ++ [x]).length = b.items.length + 1 := by simp
    refine ⟨?_, ?_, unread, hr⟩ <;> dsimp only
    · rw [order, List.append_assoc]
    · omega
  | signal present =>
    simp only [reduceCtorEq, if_true, if_false] at hwritten hclaimed
    refine ⟨order, ?_, by simp [present], ?_⟩ <;> dsimp only
    all_goals omega
  | claim present hne =>
    simp only [reduceCtorEq, if_true, if_false] at hwritten hclaimed
    refine ⟨order, ?_, by simp [present], ?_⟩ <;> dsimp only
    all_goals omega
  | pop x rest hitems =>
    simp only [reduceCtorEq, if_true, if_false] at hwritten hclaimed
    rw [hitems] at order readers
    rw [List.length_cons] at readers
    refine ⟨?_, ?_, unread, hr⟩ <;> dsimp only
    · rw [order, List.append_assoc, List.singleton_append]
    · omega
  | miss hitems =>
    simp only [reduceCtorEq, if_true, if_false] at hwritten hclaimed
    rw [hitems, List.length_nil] at readers
    omega
  | free present =>
    simp only [reduceCtorEq, if_false] at hwritten hclaimed
    refine ⟨order, ?_, unread, hr⟩
    dsimp only
    omega

theorem Roomy.congr {cap : ℤ} {b : Buffer T} {n m : Phase → ℕ} (h : Roomy cap b n)
    (hm : ∀ p, p ≠ .elsewhere → m p = n p) : Roomy cap b m := by
  obtain ⟨writers, pair, unwritten, hw⟩ := h
  rw [← hm .reserved (by decide), ← hm .freeing (by decide)] at writers
  rw [← hm .adding (by decide)] at pair
  exact ⟨writers, pair, unwritten, hw⟩

theorem Lawful.congr {cap : ℤ} {b : Buffer T} {n m : Phase → ℕ} (h : Lawful cap b n)
    (hm : ∀ p, p ≠ .elsewhere → m p = n p) : Lawful cap b m := by
  obtain ⟨writers, pair, unwritten, hw⟩ := h.roomy.congr hm
  have readers := h.readers
  rw [← hm .claimed (by decide), ← hm .written (by decide)] at readers
  exact ⟨h.order, readers, writers, pair, h.unread, unwritten, h.readable_nonneg, hw⟩

theorem Lawful.items_of_claimed {cap : ℤ} {b : Buffer T} {n : Phase → ℕ} (h : Lawful cap b n)
    (hn : 0 < n .claimed) : b.items ≠ [] := by
  have hr := h.readers
  have hnonneg := h.readable_nonneg
  rintro hnil
  rw [hnil, List.length_nil] at hr
  omega

/-- With no value to read and no party on its way, everything pushed was popped. -/
theorem Lawful.drained {cap : ℤ} {b : Buffer T} {n : Phase → ℕ} (h : Lawful cap b n)
    (hread : b.readable = 0) (hclaimed : n .claimed = 0) (hwritten : n .written = 0) :
    b.pushed = b.popped := by
  have hr := h.readers
  have hnil : b.items = [] := by
    rw [← List.length_eq_zero_iff]
    omega
  rw [h.order, hnil, List.append_nil]

section Parties

variable {P : Type} (phase : P → Phase)

def census (parties : List P) (a : Phase) : ℕ := parties.countP (fun x => phase x = a)

theorem census_set {parties : List P} {i : ℕ} {x y : P} (h : parties[i]? = some x) :
    Moves (census phase parties) (census phase (parties.set i y)) (phase x) (phase y) := by
  intro a
  obtain ⟨hi, rfl⟩ := List.getElem?_eq_some_iff.1 h
  have hpos : phase parties[i] = a → 0 < parties.countP (fun x => phase x = a) := by
    intro ha
    exact List.countP_pos_iff.2 ⟨_, List.getElem_mem hi, by simpa using ha⟩
  rw [census, census, List.countP_set hi]
  simp only [decide_eq_true_eq]
  split_ifs with hx hy hy
  · have := hpos hx
    omega
  · have := hpos hx
    omega
  · omega
  · omega

theorem census_pos {parties : List P} {x : P} (h : x ∈ parties) : 0 < census phase parties (phase x) :=
  List.countP_pos_iff.2 ⟨x, h, by simp⟩

variable {phase} in
theorem census_eq_zero {parties : List P} {a : Phase} (h : ∀ x ∈ parties, phase x ≠ a) :
    census phase parties a = 0 := by
  rw [census, List.countP_eq_zero]
  intro x hx
  simpa using h x hx

theorem census_append (parties : List P) {x : P} (h : phase x = .elsewhere) {a : Phase}
    (ha : a ≠ .elsewhere) : census phase (parties ++ [x]) a = census phase parties a := by
  rw [census, census, List.countP_append, List.countP_singleton]
  simp [h, ha.symm]

end Parties

end PolkadotApi.BoundedBuffer
