import PolkadotApi.BlobLayouts
import PolkadotApi.ParserPrograms

set_option autoImplicit false

namespace PolkadotApi.LayoutRules
open StreamReader MachineModel ScaleCodec StreamPrograms ParserPrograms BlobLayouts Measured

section Runs

variable {α β : Type}

def roomy (p : Parser α) (s : Str) : Trace UInt8 Exception α := p.exec .outOfRange unlimited s

theorem roomy_bind (p : Parser α) (f : α → Parser β) (s : Str) :
    roomy (p >>= f) s = (roomy p s).andThen fun a t => roomy (f a) t :=
  Program.exec_bind _ _ p f s

def rest : Ending UInt8 Exception α → Option Str
  | .returned _ t => some t
  | .threw _ => none
  | .outside => none

def Inside (x : Trace UInt8 Exception α) : Prop := ∀ a ∈ x.accesses, a.index < a.size

variable {x : Trace UInt8 Exception α} {f : α → Str → Trace UInt8 Exception β}

theorem rest_eq_some {ending : Ending UInt8 Exception α} {t : Str} (h : rest ending = some t) :
    ∃ a, ending = .returned a t := by
  cases ending with
  | returned a u =>
    cases h
    exact ⟨a, rfl⟩
  | threw e => cases h
  | outside => cases h

theorem inside_andThen {a : α} {t : Str} (h : x.ending = .returned a t) :
    (Inside (x.andThen f) ↔ Inside x ∧ Inside (f a t)) ∧
      rest (x.andThen f).ending = rest (f a t).ending := by
  unfold Trace.andThen
  rw [h]
  exact ⟨List.forall_mem_append, rfl⟩

theorem inside_andThen_none (h : rest x.ending = none) :
    (Inside (x.andThen f) ↔ Inside x) ∧ rest (x.andThen f).ending = none := by
  unfold Trace.andThen
  cases hending : x.ending with
  | returned a t =>
    rw [hending] at h
    cases h
  | threw e => exact ⟨Iff.rfl, rfl⟩
  | outside => exact ⟨Iff.rfl, rfl⟩

/-- The stores of a run are inside exactly if the sizes fit, and the run gets as far as
the blob has been measured. -/
structure Meets (x : Trace UInt8 Exception α) (measured : Measured) : Prop where
  inside_iff : Inside x ↔ measured.Fits
  rest_eq : rest x.ending = measured.rest

theorem fits_nil (r : Option Str) : Fits ⟨[], r⟩ := by simp [Fits]

theorem Meets.andThen {measured : Measured} {g : Str → Measured} (hx : Meets x measured)
    (hf : ∀ a t, Meets (f a t) (g t)) : Meets (x.andThen f) (measured.andThen g) := by
  have hrest := hx.rest_eq
  cases hmeasured : measured.rest with
  | none =>
    rw [hmeasured] at hrest
    obtain ⟨hinside, hlast⟩ := inside_andThen_none (f := f) hrest
    rw [andThen_none hmeasured]
    exact ⟨hinside.trans hx.inside_iff, hlast.trans hmeasured.symm⟩
  | some t =>
    rw [hmeasured] at hrest
    obtain ⟨a, ha⟩ := rest_eq_some hrest
    obtain ⟨hinside, hlast⟩ := inside_andThen (f := f) ha
    constructor
    · rw [fits_andThen hmeasured, hinside, hx.inside_iff, (hf a t).inside_iff]
    · rw [hlast, (hf a t).rest_eq, andThen_some hmeasured]

def Describes (shape : Shape) (p : Parser α) : Prop := ∀ s, Meets (roomy p s) (shape.measure s)

theorem Describes.seq {first second : Shape} {p : Parser α} {f : α → Parser β}
    (hp : Describes first p) (hf : ∀ a, Describes second (f a)) :
    Describes (.seq first second) (p >>= f) := by
  intro s
  rw [roomy_bind]
  exact (hp s).andThen fun a t => hf a t

theorem inside_nil (h : x.accesses = []) : Inside x := by simp [Inside, h]

theorem describes_pure (a : α) : Describes .nothing (pure a : Parser α) := by
  intro s
  exact ⟨iff_of_true (inside_nil rfl) (fits_nil _), rfl⟩

theorem describes_seq_nothing {shape : Shape} {p : Parser α} :
    Describes (.seq shape .nothing) p ↔ Describes shape p := by
  simp only [Describes, measure_seq, andThen_nothing]

theorem Describes.ite {c : Prop} [Decidable c] {yes no : Shape} {p q : Parser α}
    (hp : Describes yes p) (hq : Describes no q) :
    Describes (if c then yes else no) (if c then p else q) := by
  split_ifs
  · exact hp
  · exact hq

end Runs

section Silent

variable {α β : Type}

def Silent (p : Parser α) : Prop := ∀ s, (roomy p s).accesses = []

theorem Silent.bind {p : Parser α} {f : α → Parser β} (hp : Silent p) (hf : ∀ a, Silent (f a)) :
    Silent (p >>= f) := by
  intro s
  rw [roomy_bind]
  unfold Trace.andThen
  cases (roomy p s).ending with
  | returned a t => simp [hp s, hf a t]
  | threw e => exact hp s
  | outside => exact hp s

theorem silent_pure (a : α) : Silent (pure a : Parser α) := fun _ => rfl

theorem silent_tick : Silent tick := fun _ => rfl

theorem silent_raise (e : Exception) : Silent (raise e : Parser α) := fun _ => rfl

theorem silent_chars (n : ℕ) : Silent (chars n) := by
  intro s
  change ((Program.chars n : Parser Str).exec .outOfRange unlimited s).accesses = []
  simp only [Program.chars, Program.exec]
  split_ifs <;> rfl

theorem silent_number (text : Str) : Silent (number text) := by
  intro s
  change (roomy (numberOf text) s).accesses = []
  unfold numberOf
  split <;> rfl

theorem silent_nextByte : Silent nextByte :=
  (silent_chars 2).bind fun _ => (silent_number _).bind fun _ => silent_pure _

theorem silent_nextWord : Silent nextWord :=
  (silent_chars 2).bind fun _ => (silent_chars 2).bind fun _ =>
    (silent_number _).bind fun _ => silent_pure _

theorem silent_extractBytes (len : ℕ) : Silent (extractBytes len) := by
  induction len with
  | zero => exact silent_pure _
  | succ len ih =>
    exact silent_tick.bind fun _ => silent_nextByte.bind fun _ => ih.bind fun _ => silent_pure _

theorem silent_addBytes (rounds value multiplier : ℕ) :
    Silent (addBytes rounds value multiplier) := by
  induction rounds generalizing value multiplier with
  | zero => exact silent_pure _
  | succ rounds ih => exact silent_tick.bind fun _ => silent_nextByte.bind fun _ => ih _ _

theorem silent_decodeFlag (first_byte : UInt8) : Silent (decodeFlag first_byte) := by
  unfold decodeFlag
  split
  · exact silent_pure _
  · exact silent_nextByte.bind fun _ => silent_pure _
  · exact (silent_addBytes _ _ _).bind fun _ => silent_pure _
  · exact (silent_addBytes _ _ _).bind fun _ => silent_pure _
  · exact silent_raise _

theorem silent_decodeCompactInteger : Silent decodeCompactInteger :=
  silent_nextByte.bind silent_decodeFlag

theorem silent_extractText : Silent MetadataFormats.extractText :=
  silent_decodeCompactInteger.bind fun _ => silent_extractBytes _

theorem meets_failed {x : Trace UInt8 Exception α} {f : α → Str → Trace UInt8 Exception β}
    (hsilent : x.accesses = []) (hfailed : rest x.ending = none) :
    Meets (x.andThen f) ⟨[], none⟩ := by
  obtain ⟨hinside, hlast⟩ := inside_andThen_none (f := f) hfailed
  exact ⟨iff_of_true (hinside.2 (inside_nil hsilent)) (fits_nil _), hlast⟩

theorem Silent.ending {p : Parser α} (hp : Silent p) (s : Str) :
    (roomy p s).ending.toExcept .thrown = read p s := by
  have hexec := Program.exec_eq_unlimited .outOfRange Access.fits p s (by
    intro a ha
    rw [show p.exec .outOfRange unlimited s = roomy p s from rfl, hp s] at ha
    simp at ha)
  change _ = (p.exec .outOfRange Access.fits s).ending.toExcept Fault.thrown
  rw [hexec]
  rfl

/-- Behind a value without a size the run goes on with the value that the reader reads. -/
theorem Silent.meets {p : Parser α} (hp : Silent p) {f : α → Parser β} {g : α → Str → Measured}
    (hf : ∀ a t, Meets (roomy (f a) t) (g a t)) (s : Str) :
    Meets (roomy (p >>= f) s) (after (read p s) g) := by
  rw [roomy_bind, ← hp.ending s]
  cases hending : (roomy p s).ending with
  | returned a t =>
    obtain ⟨hinside, hlast⟩ := inside_andThen (f := fun a t => roomy (f a) t) hending
    constructor
    · rw [hinside, and_iff_right (inside_nil (hp s))]
      exact (hf a t).inside_iff
    · exact hlast.trans (hf a t).rest_eq
  | threw e => exact meets_failed (hp s) (by rw [hending]; rfl)
  | outside => exact meets_failed (hp s) (by rw [hending]; rfl)

theorem Silent.meets_last {p : Parser α} (hp : Silent p) (s : Str) :
    Meets (roomy p s) (after (read p s) fun _ t => ⟨[], some t⟩) := by
  rw [← hp.ending s]
  refine ⟨iff_of_true (inside_nil (hp s)) ?_, ?_⟩
  · cases (roomy p s).ending <;> exact fits_nil _
  · cases (roomy p s).ending <;> rfl

end Silent

section Fields

variable {α β : Type}

theorem after_bind {p : Reader α} {f : α → Reader β} (g : β → Str → Measured) (s : Str) :
    after ((p >>= f) s) g = after (p s) fun a t => after (f a t) g := by
  cases h : p s with
  | ok r =>
    rw [bind_ok h]
    rfl
  | error e =>
    rw [bind_error h]
    rfl

theorem describes_nextByte : Describes .byte nextByte := by
  intro s
  have h := silent_nextByte.meets_last s
  rwa [read_nextByte] at h

theorem describes_nextWord : Describes .word nextWord := by
  intro s
  have h := silent_nextWord.meets_last s
  rwa [read_nextWord] at h

theorem Describes.tagged {branch : UInt8 → Shape} {f : UInt8 → Parser α}
    (h : ∀ tag, Describes (branch tag) (f tag)) : Describes (.tagged branch) (nextByte >>= f) := by
  intro s
  have hmeets := silent_nextByte.meets (fun tag t => h tag t) s
  rwa [read_nextByte] at hmeets

theorem meets_copy (text s : Str) :
    Meets (roomy (copy text) s) ⟨[.text (cstr text).length], some s⟩ := by
  constructor
  · change (∀ a ∈ [(⟨STRING_SIZE, (cstr text).length⟩ : Access)], a.index < a.size) ↔ _
    simp [Fits, Size.fits]
  · rfl

theorem meets_texts {f : Str → Parser α} {g : Str → List Size}
    (hf : ∀ text t, Meets (roomy (f text) t) ⟨g text, some t⟩) (s : Str) :
    Meets (roomy (MetadataFormats.extractText >>= f) s)
      (after (MetadataFormats.extractText (m := Reader) s) fun text t => ⟨g text, some t⟩) := by
  have h := silent_extractText.meets (fun text t => hf text t) s
  rwa [read_extractText] at h

theorem measure_text (s : Str) :
    text.measure s = after (MetadataFormats.extractText (m := Reader) s) fun text t =>
      ⟨[.text (cstr text).length], some t⟩ := by
  change after ((MetadataFormats.extractText >>= fun x => pure [x] : Reader (List Str)) s) _ = _
  rw [after_bind]
  rfl

theorem describes_readText : Describes text MetadataFormats.readText := by
  intro s
  rw [measure_text]
  exact meets_texts meets_copy s

theorem meets_rawText (count : ℤ) (s : Str) :
    Meets (roomy (MetadataFormats.rawText count) s)
      (after (chars (m := Reader) (count % 2 ^ 64).toNat s) fun raw u =>
        ⟨[.text (cstr raw).length], some u⟩) := by
  have h := (silent_chars (count % 2 ^ 64).toNat).meets meets_copy s
  rwa [read_chars] at h

theorem describes_digits (width : ℤ → ℤ) :
    Describes (.digits width)
      (decodeCompactInteger >>= fun n => MetadataFormats.rawText (width n)) := by
  intro s
  have h := silent_decodeCompactInteger.meets (fun n t => meets_rawText (width n) t) s
  rwa [read_decodeCompactInteger] at h

end Fields

section Lists

variable {α β γ : Type} {cap : ℕ} {head tail : Str → Measured}

/-- A round of a loop: the item counts as soon as its head is read. -/
structure MeetsItem (cap i : ℕ) (head tail : Str → Measured) (s : Str)
    (x : Trace UInt8 Exception α) : Prop where
  inside_iff : Inside x ↔ ((head s).rest.isSome → i < cap) ∧ ((head s).andThen tail).Fits
  rest_eq : rest x.ending = ((head s).andThen tail).rest

theorem inside_store (cap i : ℕ) (p : Parser α) (s : Str) :
    (Inside (roomy (inside cap i >>= fun _ => p) s) ↔ i < cap ∧ Inside (roomy p s)) ∧
      rest (roomy (inside cap i >>= fun _ => p) s).ending = rest (roomy p s).ending :=
  ⟨List.forall_mem_cons, rfl⟩

theorem meetsItem {i : ℕ} {p : Parser α} {q : α → Parser β}
    (hp : ∀ s, Meets (roomy p s) (head s)) (hq : ∀ x s, Meets (roomy (q x) s) (tail s)) (s : Str) :
    MeetsItem cap i head tail s (roomy (p >>= fun x => inside cap i >>= fun _ => q x) s) := by
  obtain ⟨hinside, hrest⟩ := hp s
  rw [roomy_bind]
  cases hhead : (head s).rest with
  | none =>
    rw [hhead] at hrest
    obtain ⟨hsame, hlast⟩ := inside_andThen_none
      (f := fun x t => roomy (inside cap i >>= fun _ => q x) t) hrest
    constructor
    · rw [hsame, hinside, andThen_none hhead, hhead]
      simp
    · rw [hlast, andThen_none hhead, hhead]
  | some t =>
    rw [hhead] at hrest
    obtain ⟨x, hx⟩ := rest_eq_some hrest
    obtain ⟨hboth, hlast⟩ := inside_andThen
      (f := fun x t => roomy (inside cap i >>= fun _ => q x) t) hx
    obtain ⟨hstore, hlater⟩ := inside_store cap i (q x) t
    constructor
    · rw [hboth, hstore, hinside, (hq x t).inside_iff, fits_andThen hhead, hhead]
      simp only [Option.isSome_some, true_imp_iff]
      exact and_left_comm
    · rw [hlast, hlater, (hq x t).rest_eq, andThen_some hhead]

/-- An item that the blob breaks off counts if its head is there. -/
theorem present_of_none {s : Str} (h : ((head s).andThen tail).rest = none) {n : ℕ} :
    present head tail (n + 1) s = if (head s).rest.isSome then 1 else 0 := by
  unfold present
  cases hhead : (head s).rest with
  | none => rfl
  | some t =>
    rw [andThen_some hhead] at h
    change (tail t).rest = none at h
    simp only [h, Option.isSome_some, if_true]

theorem present_of_some {s u : Str} (h : ((head s).andThen tail).rest = some u) (n : ℕ) :
    (head s).rest.isSome ∧ present head tail (n + 1) s = present head tail n u + 1 := by
  cases hhead : (head s).rest with
  | none =>
    rw [andThen_none hhead, hhead] at h
    cases h
  | some t =>
    rw [andThen_some hhead] at h
    change (tail t).rest = some u at h
    refine ⟨rfl, ?_⟩
    rw [present, hhead]
    simp only [h]

theorem forall_lt_succ (n i cap : ℕ) :
    (∀ k < n + 1, i + k < cap) ↔ i < cap ∧ ∀ k < n, i + 1 + k < cap := by
  constructor
  · intro h
    refine ⟨h 0 (by omega), fun k hk => ?_⟩
    have := h (k + 1) (by omega)
    omega
  · rintro ⟨hi, h⟩ k hk
    cases k with
    | zero => exact hi
    | succ k =>
      have := h k (by omega)
      omega

theorem meets_loopFrom {body : ℕ → β → Parser β}
    (h : ∀ i b s, MeetsItem cap i head tail s (roomy (body i b) s)) (n i : ℕ) (b : β) (s : Str) :
    (Inside (roomy (loopFrom body n i b) s) ↔
      (∀ k < present head tail n s, i + k < cap) ∧ (items head tail n s).Fits) ∧
      rest (roomy (loopFrom body n i b) s).ending = (items head tail n s).rest := by
  induction n generalizing i b s with
  | zero => exact ⟨iff_of_true (inside_nil rfl) ⟨by simp [present], fits_nil _⟩, rfl⟩
  | succ n ih =>
    obtain ⟨hinside, hrest⟩ := h i b s
    change (Inside (roomy (body i b >>= loopFrom body n (i + 1)) s) ↔
        (∀ k < present head tail (n + 1) s, i + k < cap) ∧
          (((head s).andThen tail).andThen (items head tail n)).Fits) ∧
      rest (roomy (body i b >>= loopFrom body n (i + 1)) s).ending =
        (((head s).andThen tail).andThen (items head tail n)).rest
    rw [roomy_bind]
    cases hitem : ((head s).andThen tail).rest with
    | none =>
      rw [hitem] at hrest
      obtain ⟨hsame, hlast⟩ := inside_andThen_none
        (f := fun b t => roomy (loopFrom body n (i + 1) b) t) hrest
      rw [andThen_none hitem, hsame, hinside, hlast, hitem, present_of_none hitem]
      refine ⟨and_congr_left' ?_, rfl⟩
      cases (head s).rest <;> simp
    | some u =>
      rw [hitem] at hrest
      obtain ⟨next, hnext⟩ := rest_eq_some hrest
      obtain ⟨hboth, hlast⟩ := inside_andThen
        (f := fun b t => roomy (loopFrom body n (i + 1) b) t) hnext
      obtain ⟨hlater, hend⟩ := ih (i + 1) next u
      obtain ⟨hhead, hcount⟩ := present_of_some hitem n
      constructor
      · rw [hboth, hinside, hlater, fits_andThen hitem, hcount, forall_lt_succ]
        simp only [hhead, true_imp_iff]
        exact and_and_and_comm
      · rw [hlast, hend, andThen_some hitem]

theorem meets_forCount {body : ℕ → β → Parser β}
    (h : ∀ i b s, MeetsItem cap i head tail s (roomy (body i b) s)) (count : ℤ) (init : β)
    (s : Str) :
    Meets (roomy (forCount count body init) s)
      ⟨.list cap (present head tail count.toNat s) :: (items head tail count.toNat s).sizes,
        (items head tail count.toNat s).rest⟩ := by
  obtain ⟨hinside, hrest⟩ := meets_loopFrom h count.toNat 0 init s
  refine ⟨hinside.trans ?_, hrest⟩
  have hcap : (∀ k < present head tail count.toNat s, 0 + k < cap) ↔
      (Size.list cap (present head tail count.toNat s)).fits := by
    simp only [Size.fits, decide_eq_true_eq, Nat.zero_add]
    constructor
    · intro hk
      by_contra hcap
      exact absurd (hk cap (by omega)) (lt_irrefl cap)
    · intro hcap k hk
      omega
  rw [hcap]
  simp only [Fits, List.forall_mem_cons]

theorem Describes.list {first later second : Shape} {count : ℤ → ℤ} {body : ℕ → β → Parser β}
    {init : β} {next : ℤ → β → Parser γ}
    (hitem : ∀ i b s, MeetsItem cap i first.measure later.measure s (roomy (body i b) s))
    (hnext : ∀ n b, Describes second (next n b)) :
    Describes (.seq (.list cap count first later) second)
      (decodeCompactInteger >>= fun n => forCount (count n) body init >>= next n) := by
  intro s
  rw [measure_seq, Shape.measure, after_andThen, ← read_decodeCompactInteger]
  apply silent_decodeCompactInteger.meets
  intro n t
  rw [roomy_bind]
  exact (meets_forCount hitem (count n) init t).andThen (hnext n)

theorem meetsItem_readStore {shape : Shape} {item : Parser α} (h : Describes shape item) (i : ℕ)
    (slots : Slots α) (s : Str) :
    MeetsItem cap i shape.measure Shape.nothing.measure s (roomy (readStore cap item i slots) s) :=
  meetsItem h (fun _ => describes_pure _) s

theorem meetsItem_claimStore {shape : Shape} {item : Parser α} (h : Describes shape item) (i : ℕ)
    (slots : Slots α) (s : Str) :
    MeetsItem cap i Shape.nothing.measure shape.measure s
      (roomy (claimStore cap item i slots) s) := by
  have hitem : Describes shape
      (item >>= fun x => pure (Function.update slots i (some x)) : Parser (Slots α)) :=
    describes_seq_nothing.1 (h.seq fun _ => describes_pure _)
  exact meetsItem (describes_pure ()) (fun _ => hitem) s

theorem Describes.stores {shape second : Shape} {item : Parser α} (h : Describes shape item)
    (count : ℤ → ℤ) {next : ℤ → Slots α → Parser γ} (hnext : ∀ n b, Describes second (next n b)) :
    Describes (.seq (.list cap count shape .nothing) second)
      (decodeCompactInteger >>= fun n => storeEach cap (count n) item >>= next n) :=
  Describes.list (meetsItem_readStore h) hnext

end Lists

end PolkadotApi.LayoutRules
