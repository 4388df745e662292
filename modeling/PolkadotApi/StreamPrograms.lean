import PolkadotApi.StreamReader

set_option autoImplicit false

/-!
A program takes characters from the front of a stream, stores into arrays of a
fixed size and goes round loops. Its trace keeps the unread streams, the stores and
the number of rounds also for a run that does not return. A store outside its array
ends the run; the same program can be run with arrays that have room for
everything.

Rounds are paid for by characters: a program that takes `width` characters has
earned one round.
-/
namespace PolkadotApi.StreamPrograms
open StreamReader

structure Access where
  size : ℕ
  index : ℕ
  deriving DecidableEq

def Access.fits (a : Access) : Bool := decide (a.index < a.size)

def unlimited (_ : Access) : Bool := true

inductive Program (χ ε α : Type) where
  | ret (a : α)
  | fail (e : ε)
  | take (n : ℕ) (next : List χ → Program χ ε α)
  | touch (a : Access) (next : Program χ ε α)
  | round (next : Program χ ε α)

inductive Ending (χ ε α : Type) where
  | returned (a : α) (rest : List χ)
  | threw (e : ε)
  | outside

structure Trace (χ ε α : Type) where
  ending : Ending χ ε α
  /-- The unread stream after each time characters were taken. -/
  visited : List (List χ)
  accesses : List Access
  rounds : ℕ

namespace Program

variable {χ ε α β : Type}

def bind (f : α → Program χ ε β) : Program χ ε α → Program χ ε β
  | ret a => f a
  | fail e => fail e
  | take n next => take n fun text => bind f (next text)
  | touch a next => touch a (bind f next)
  | round next => round (bind f next)

instance : Monad (Program χ ε) where
  pure := ret
  bind p f := bind f p

def chars (n : ℕ) : Program χ ε (List χ) := take n ret

def store (a : Access) : Program χ ε Unit := touch a (ret ())

instance : Storing (Program χ ε) where
  tick := round (ret ())
  inside cap i := store ⟨cap, i⟩

section Execution

variable (short : ε) (allows : Access → Bool)

/-- Taking more characters than there are throws `short`. -/
def exec : Program χ ε α → List χ → Trace χ ε α
  | ret a, s => ⟨.returned a s, [], [], 0⟩
  | fail e, _ => ⟨.threw e, [], [], 0⟩
  | take n next, s =>
    if n ≤ s.length then
      let later := exec (next (s.take n)) (s.drop n)
      ⟨later.ending, s.drop n :: later.visited, later.accesses, later.rounds⟩
    else ⟨.threw short, [], [], 0⟩
  | touch a next, s =>
    if allows a then
      let later := exec next s
      ⟨later.ending, later.visited, a :: later.accesses, later.rounds⟩
    else ⟨.outside, [], [a], 0⟩
  | round next, s =>
    let later := exec next s
    ⟨later.ending, later.visited, later.accesses, later.rounds + 1⟩

end Execution

end Program

namespace Trace

variable {χ ε α β : Type}

def andThen (x : Trace χ ε α) (f : α → List χ → Trace χ ε β) : Trace χ ε β :=
  match x.ending with
  | .returned a t =>
    ⟨(f a t).ending, x.visited ++ (f a t).visited, x.accesses ++ (f a t).accesses,
      x.rounds + (f a t).rounds⟩
  | .threw e => ⟨.threw e, x.visited, x.accesses, x.rounds⟩
  | .outside => ⟨.outside, x.visited, x.accesses, x.rounds⟩

end Trace

namespace Program

variable {χ ε α β : Type} (short : ε) (allows : Access → Bool)

theorem exec_bind (p : Program χ ε α) (f : α → Program χ ε β) (s : List χ) :
    exec short allows (p >>= f) s =
      (exec short allows p s).andThen fun a t => exec short allows (f a) t := by
  change exec short allows (bind f p) s = _
  induction p generalizing s with
  | ret a => simp [bind, exec, Trace.andThen]
  | fail e => rfl
  | take n next ih =>
    simp only [bind, exec]
    split_ifs
    · rw [ih]
      simp only [Trace.andThen]
      cases (exec short allows (next (s.take n)) (s.drop n)).ending <;> rfl
    · rfl
  | touch a next ih =>
    simp only [bind, exec]
    split_ifs
    · rw [ih]
      simp only [Trace.andThen]
      cases (exec short allows next s).ending <;> rfl
    · rfl
  | round next ih =>
    simp only [bind, exec]
    rw [ih]
    simp only [Trace.andThen]
    cases (exec short allows next s).ending <;> simp [Nat.add_right_comm]

theorem visited_suffix (p : Program χ ε α) (s : List χ) :
    ∀ t ∈ (exec short allows p s).visited, t <:+ s := by
  induction p generalizing s with
  | ret a => simp [exec]
  | fail e => simp [exec]
  | take n next ih =>
    intro t ht
    simp only [exec] at ht
    split_ifs at ht
    · rcases List.mem_cons.1 ht with rfl | ht
      · exact List.drop_suffix n s
      · exact (ih _ _ t ht).trans (List.drop_suffix n s)
    · simp at ht
  | touch a next ih =>
    intro t ht
    simp only [exec] at ht
    split_ifs at ht
    · exact ih s t ht
    · simp at ht
  | round next ih => exact ih s

/-- A run leaves its arrays exactly when it tries a store that is not allowed. -/
theorem not_outside_iff (p : Program χ ε α) (s : List χ) :
    (exec short allows p s).ending ≠ .outside ↔
      ∀ a ∈ (exec short allows p s).accesses, allows a := by
  induction p generalizing s with
  | ret a => simp [exec]
  | fail e => simp [exec]
  | take n next ih =>
    simp only [exec]
    split_ifs
    · exact ih _ _
    · simp
  | touch a next ih =>
    simp only [exec]
    split_ifs with ha
    · simp [ih s, ha]
    · simp [ha]
  | round next ih => exact ih s

/-- A run whose stores are all allowed does not notice the sizes of the arrays. -/
theorem exec_eq_unlimited (p : Program χ ε α) (s : List χ)
    (h : ∀ a ∈ (exec short unlimited p s).accesses, allows a) :
    exec short allows p s = exec short unlimited p s := by
  induction p generalizing s with
  | ret a => rfl
  | fail e => rfl
  | take n next ih =>
    simp only [exec] at h ⊢
    split_ifs at h ⊢
    · rw [ih _ _ h]
    · rfl
  | touch a next ih =>
    simp only [exec, unlimited, if_true, List.forall_mem_cons] at h ⊢
    rw [if_pos h.1, ih s h.2]
  | round next ih =>
    simp only [exec] at h ⊢
    rw [ih s h]

/-- The stores that a run tries are all allowed exactly when those of the run with
unlimited arrays are. -/
theorem allowed_iff_unlimited (p : Program χ ε α) (s : List χ) :
    (∀ a ∈ (exec short allows p s).accesses, allows a) ↔
      ∀ a ∈ (exec short unlimited p s).accesses, allows a := by
  induction p generalizing s with
  | ret a => rfl
  | fail e => rfl
  | take n next ih =>
    simp only [exec]
    split_ifs
    · exact ih _ _
    · rfl
  | touch a next ih =>
    simp only [exec, unlimited, if_true]
    split_ifs with ha
    · simp only [List.forall_mem_cons, ih s]
    · simp [ha]
  | round next ih => exact ih s

end Program

section Readers

variable {χ ε φ α β : Type} [Outside φ] (short : ε) (raise : ε → φ)

def Ending.toExcept : Ending χ ε α → Except φ (α × List χ)
  | .returned a t => .ok (a, t)
  | .threw e => .error (raise e)
  | .outside => .error Outside.outside

/-- The reader that a program is when only its result counts. -/
def Program.reader (p : Program χ ε α) : Scan (List χ) φ α := fun s =>
  (p.exec short Access.fits s).ending.toExcept raise

namespace Program

theorem reader_pure (a : α) : (pure a : Program χ ε α).reader short raise = pure a := rfl

theorem reader_bind (p : Program χ ε α) (f : α → Program χ ε β) :
    (p >>= f).reader short raise = p.reader short raise >>= fun a => (f a).reader short raise := by
  funext s
  change _ = (p.reader short raise s >>= fun r => (f r.1).reader short raise r.2)
  simp only [reader, exec_bind, Trace.andThen]
  cases (p.exec short Access.fits s).ending <;> rfl

theorem reader_tick : (tick : Program χ ε Unit).reader short raise = tick := rfl

theorem reader_inside (cap i : ℕ) :
    (inside cap i : Program χ ε Unit).reader short raise = inside cap i := by
  funext s
  change ((store ⟨cap, i⟩ : Program χ ε Unit).exec short Access.fits s).ending.toExcept raise = _
  by_cases h : i < cap
  · simp [store, exec, Access.fits, h, Ending.toExcept, inside_ok]
  · simp only [store, exec, Access.fits, h, decide_false, Bool.false_eq_true, if_false,
      Ending.toExcept, inside]
    rfl

theorem reader_ite (c : Prop) [Decidable c] (p q : Program χ ε α) :
    (if c then p else q).reader short raise =
      if c then p.reader short raise else q.reader short raise :=
  apply_ite (fun p : Program χ ε α => p.reader short raise) c p q

theorem reader_loopFrom (body : ℕ → β → Program χ ε β) (n i : ℕ) (b : β) :
    (loopFrom body n i b).reader short raise =
      loopFrom (fun i b => (body i b).reader short raise) n i b := by
  induction n generalizing i b with
  | zero => rfl
  | succ n ih => simp only [loopFrom, reader_bind, reader_tick, ih]

theorem reader_forCount (count : ℤ) (body : ℕ → β → Program χ ε β) (init : β) :
    (forCount count body init).reader short raise =
      forCount count (fun i b => (body i b).reader short raise) init :=
  reader_loopFrom short raise body count.toNat 0 init

theorem reader_storeEach (cap : ℕ) (count : ℤ) (item : Program χ ε α) :
    (storeEach cap count item).reader short raise =
      storeEach cap count (item.reader short raise) := by
  rw [storeEach, reader_forCount, storeEach]
  congr 1
  funext i slots
  simp only [readStore, reader_bind, reader_inside, reader_pure]

theorem reader_claimEach (cap : ℕ) (count : ℤ) (item : Program χ ε α) :
    (claimEach cap count item).reader short raise =
      claimEach cap count (item.reader short raise) := by
  rw [claimEach, reader_forCount, claimEach]
  congr 1
  funext i slots
  simp only [claimStore, reader_bind, reader_inside, reader_pure]

end Program

end Readers

/-- What is left of the stream after a run, together with what `saved` rounds cost. -/
def Ending.left {χ ε α : Type} (width saved : ℕ) : Ending χ ε α → ℕ
  | .returned _ t => t.length + width * saved
  | .threw _ => 0
  | .outside => 0

namespace Program

section Payment

variable {χ ε α β : Type} (width : ℕ)

/-- With `a` rounds paid for in advance, the characters taken pay for all rounds of
the program and, if it returns, for `b` more. -/
def Pays (p : Program χ ε α) (a b : ℕ) : Prop :=
  ∀ short allows s, width * (exec short allows p s).rounds +
    (exec short allows p s).ending.left width b ≤ width * a + s.length

/-- Every run that returns has paid for one round more than it made. -/
def Earns (p : Program χ ε α) : Prop := Pays width p 0 1

def Keeps (p : Program χ ε α) : Prop := Pays width p 1 1

variable {width}

theorem Pays.bind {p : Program χ ε α} {f : α → Program χ ε β} {a b c : ℕ}
    (hp : Pays width p a b) (hf : ∀ x, Pays width (f x) b c) : Pays width (p >>= f) a c := by
  intro short allows s
  have h := hp short allows s
  rw [exec_bind]
  simp only [Trace.andThen]
  cases hending : (exec short allows p s).ending with
  | returned x t =>
    have hrest := hf x short allows t
    rw [hending] at h
    change _ + (t.length + width * b) ≤ _ at h
    dsimp only
    rw [Nat.mul_add]
    omega
  | threw e => simpa only [hending, Ending.left] using h
  | outside => simpa only [hending, Ending.left] using h

theorem Pays.frame {p : Program χ ε α} {a b : ℕ} (h : Pays width p a b) (c : ℕ) :
    Pays width p (a + c) (b + c) := by
  intro short allows s
  have hp := h short allows s
  cases hending : (exec short allows p s).ending with
  | returned x t =>
    simp only [hending, Ending.left, Nat.mul_add] at hp ⊢
    omega
  | threw e =>
    simp only [hending, Ending.left, Nat.mul_add] at hp ⊢
    omega
  | outside =>
    simp only [hending, Ending.left, Nat.mul_add] at hp ⊢
    omega

theorem Pays.weaken {p : Program χ ε α} {a b b' : ℕ} (h : Pays width p a b) (hb : b' ≤ b) :
    Pays width p a b' := by
  intro short allows s
  have hp := h short allows s
  have hmul := Nat.mul_le_mul_left width hb
  cases hending : (exec short allows p s).ending with
  | returned x t =>
    simp only [hending, Ending.left] at hp ⊢
    omega
  | threw e => simpa only [hending, Ending.left] using hp
  | outside => simpa only [hending, Ending.left] using hp

theorem Earns.keeps {p : Program χ ε α} (h : Earns width p) : Keeps width p :=
  (h.frame 1).weaken (by omega)

theorem Earns.bind {p : Program χ ε α} {f : α → Program χ ε β} (hp : Earns width p)
    (hf : ∀ x, Keeps width (f x)) : Earns width (p >>= f) :=
  Pays.bind hp hf

theorem Keeps.bind {p : Program χ ε α} {f : α → Program χ ε β} (hp : Keeps width p)
    (hf : ∀ x, Keeps width (f x)) : Keeps width (p >>= f) :=
  Pays.bind hp hf

theorem Keeps.ite {c : Prop} [Decidable c] {p q : Program χ ε α} (hp : Keeps width p)
    (hq : Keeps width q) : Keeps width (if c then p else q) := by
  split_ifs
  · exact hp
  · exact hq

theorem pays_pure (x : α) (a : ℕ) : Pays width (pure x : Program χ ε α) a a := by
  intro short allows s
  change width * 0 + (s.length + width * a) ≤ _
  omega

theorem pays_fail (e : ε) (a b : ℕ) : Pays width (fail e : Program χ ε α) a b := by
  intro short allows s
  change width * 0 + 0 ≤ _
  omega

theorem pays_inside (cap i a : ℕ) : Pays width (inside cap i : Program χ ε Unit) a a := by
  intro short allows s
  simp only [inside, store, exec]
  split_ifs
  · simp only [Ending.left]
    omega
  · simp [Ending.left]

theorem keeps_pure (x : α) : Keeps width (pure x : Program χ ε α) := pays_pure x 1

theorem keeps_fail (e : ε) : Keeps width (fail e : Program χ ε α) := pays_fail e 1 1

theorem keeps_inside (cap i : ℕ) : Keeps width (inside cap i : Program χ ε Unit) :=
  pays_inside cap i 1

theorem pays_chars {n a : ℕ} (h : width * a ≤ n) :
    Pays width (chars n : Program χ ε (List χ)) 0 a := by
  intro short allows s
  simp only [chars, exec]
  split_ifs
  · simp only [Ending.left, List.length_drop]
    omega
  · simp [Ending.left]

theorem earns_chars {n : ℕ} (h : width ≤ n) : Earns width (chars n : Program χ ε (List χ)) :=
  pays_chars (by omega)

theorem keeps_chars (n : ℕ) : Keeps width (chars n : Program χ ε (List χ)) :=
  (pays_chars (a := 0) (by omega)).frame 1

theorem pays_tick : Pays width (tick : Program χ ε Unit) 1 0 := by
  intro short allows s
  simp only [tick, exec, Ending.left]
  omega

/-- A round of a loop whose body earns it leaves what it found. -/
theorem keeps_tick_bind {p : Program χ ε α} (h : Earns width p) :
    Keeps width (tick >>= fun _ => p) :=
  Pays.bind pays_tick fun _ => h

theorem keeps_loopFrom {body : ℕ → β → Program χ ε β} (h : ∀ i b, Earns width (body i b))
    (n i : ℕ) (b : β) : Keeps width (loopFrom body n i b) := by
  induction n generalizing i b with
  | zero => exact keeps_pure b
  | succ n ih => exact keeps_tick_bind ((h i b).bind fun next => ih (i + 1) next)

theorem keeps_forCount {body : ℕ → β → Program χ ε β} (h : ∀ i b, Earns width (body i b))
    (count : ℤ) (init : β) : Keeps width (forCount count body init) :=
  keeps_loopFrom h count.toNat 0 init

theorem keeps_storeEach {item : Program χ ε α} (h : Earns width item) (cap : ℕ) (count : ℤ) :
    Keeps width (storeEach cap count item) :=
  keeps_forCount (fun _ _ => h.bind fun _ => (keeps_inside _ _).bind fun _ => keeps_pure _) count _

theorem keeps_claimEach {item : Program χ ε α} (h : Earns width item) (cap : ℕ) (count : ℤ) :
    Keeps width (claimEach cap count item) :=
  keeps_forCount
    (fun _ _ => Pays.bind (pays_inside _ _ 0) fun _ => h.bind fun _ => keeps_pure _) count _

theorem Earns.rounds_le {p : Program χ ε α} (h : Earns width p) (short : ε)
    (allows : Access → Bool) (s : List χ) :
    width * (exec short allows p s).rounds ≤ s.length := by
  have hp := h short allows s
  omega

end Payment

end Program

end PolkadotApi.StreamPrograms
