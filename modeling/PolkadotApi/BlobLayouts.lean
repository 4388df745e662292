import PolkadotApi.MetadataFormats

set_option autoImplicit false

namespace PolkadotApi.BlobLayouts
open StreamReader MachineModel ScaleCodec
open MetadataFormats (extractText)

/-- How a part of a metadata blob is laid out. -/
inductive Shape where
  | nothing
  | seq (first second : Shape)
  | byte
  | word
  /-- Texts one after the other; when all are read, the marked ones are copied. -/
  | texts (copied : List Bool)
  /-- A length and the digits of that many bytes, which are copied as they stand. -/
  | digits (width : ℤ → ℤ)
  | tagged (branch : UInt8 → Shape)
  /-- A count and the items of a list that goes into an array of `cap` elements. An
  item is part of the list as soon as its head is there. -/
  | list (cap : ℕ) (count : ℤ → ℤ) (head tail : Shape)

/-- What a blob asks of the memory of a parser: room for a text of `length` bytes, or
for the items of a list in an array of `cap` elements. -/
inductive Size where
  | text (length : ℕ)
  | list (cap items : ℕ)
  deriving DecidableEq

def Size.fits : Size → Bool
  | text length => decide (length < STRING_SIZE)
  | list cap items => decide (items ≤ cap)

structure Measured where
  sizes : List Size
  rest : Option Str

namespace Measured

def Fits (x : Measured) : Prop := ∀ size ∈ x.sizes, size.fits

def andThen (x : Measured) (f : Str → Measured) : Measured :=
  match x.rest with
  | none => x
  | some t => ⟨x.sizes ++ (f t).sizes, (f t).rest⟩

theorem andThen_none {x : Measured} (h : x.rest = none) (f : Str → Measured) :
    x.andThen f = x := by
  unfold andThen
  rw [h]

theorem andThen_some {x : Measured} {t : Str} (h : x.rest = some t) (f : Str → Measured) :
    x.andThen f = ⟨x.sizes ++ (f t).sizes, (f t).rest⟩ := by
  unfold andThen
  rw [h]

theorem fits_andThen {x : Measured} {t : Str} (h : x.rest = some t) (f : Str → Measured) :
    (x.andThen f).Fits ↔ x.Fits ∧ (f t).Fits := by
  rw [andThen_some h]
  exact List.forall_mem_append

def after {α : Type} (r : Result (α × Str)) (f : α → Str → Measured) : Measured :=
  match r with
  | .ok (a, t) => f a t
  | .error _ => ⟨[], none⟩

theorem after_andThen {α : Type} (r : Result (α × Str)) (f : α → Str → Measured)
    (g : Str → Measured) : (after r f).andThen g = after r fun a t => (f a t).andThen g := by
  cases r <;> rfl

end Measured

section Items

variable (head tail : Str → Measured)

def items : ℕ → Str → Measured
  | 0, s => ⟨[], some s⟩
  | n + 1, s => ((head s).andThen tail).andThen (items n)

def present : ℕ → Str → ℕ
  | 0, _ => 0
  | n + 1, s =>
    match (head s).rest with
    | none => 0
    | some t =>
      match (tail t).rest with
      | none => 1
      | some u => present n u + 1

end Items

/-- The lengths, without what stands behind a NUL, of the texts that are marked. -/
def copiedSizes (copied : List Bool) (texts : List Str) : List Size :=
  ((copied.zip texts).filter Prod.fst).map fun text => .text (cstr text.2).length

open Measured in
/-- The sizes of a blob with the given layout, up to where the blob breaks it. -/
def Shape.measure : Shape → Str → Measured
  | .nothing, s => ⟨[], some s⟩
  | .seq first second, s => (first.measure s).andThen second.measure
  | .byte, s => after (nextByte (m := Reader) s) fun _ t => ⟨[], some t⟩
  | .word, s => after (nextWord (m := Reader) s) fun _ t => ⟨[], some t⟩
  | .texts copied, s =>
    after (collect extractText copied.length s) fun texts t => ⟨copiedSizes copied texts, some t⟩
  | .digits width, s =>
    after (decodeCompactInteger (m := Reader) s) fun length t =>
      after (chars (m := Reader) (width length % 2 ^ 64).toNat t) fun raw u =>
        ⟨[.text (cstr raw).length], some u⟩
  | .tagged branch, s => after (nextByte (m := Reader) s) fun tag t => (branch tag).measure t
  | .list cap count head tail, s =>
    after (decodeCompactInteger (m := Reader) s) fun n t =>
      let n := (count n).toNat
      ⟨.list cap (present head.measure tail.measure n t) ::
        (items head.measure tail.measure n t).sizes,
        (items head.measure tail.measure n t).rest⟩

theorem measure_seq (first second : Shape) (s : Str) :
    (Shape.seq first second).measure s = (first.measure s).andThen second.measure := rfl

theorem andThen_nothing (x : Measured) : x.andThen Shape.nothing.measure = x := by
  cases h : x.rest with
  | none => exact Measured.andThen_none h _
  | some t =>
    rw [Measured.andThen_some h]
    change (⟨x.sizes ++ [], some t⟩ : Measured) = _
    rw [List.append_nil, ← h]

section Tables

open Shape

def all (shapes : List Shape) : Shape := shapes.foldr seq nothing

def text : Shape := texts [true]

def optional (shape : Shape) : Shape := tagged fun isset => if isset ≠ 0 then shape else nothing

/-- A list whose count is narrowed to an `int`. -/
def listOf (item : Shape) : Shape := list COLLECTION_SIZE asInt item nothing

def longListOf (item : Shape) : Shape := list COLLECTION_SIZE id item nothing

def documents : Shape := longListOf text

def fallback : Shape := digits fun length => length * 2

def constant : Shape :=
  all [text, text, digits fun length => asInt (asInt length * 2), documents]

def call : Shape := all [text, list STRING_SIZE asInt (all [text, text]) nothing, documents]

def event : Shape := all [text, listOf text, documents]

def storageV4 : Shape :=
  all [text, byte, tagged fun type => all [
    text, if type ≠ 0 then all [text, byte] else nothing, fallback, documents]]

def storage : Shape :=
  all [text, byte, tagged fun tag => all [
    if tag ≠ 0 then byte else nothing,
    text,
    if tag = 1 then text else if tag = 2 then all [text, text] else nothing,
    if tag ≠ 0 then byte else nothing,
    fallback, documents]]

def moduleWith (item : Shape) : Shape :=
  all [text, text, optional (listOf item), optional (listOf call), optional (listOf event)]

def constants : Shape := longListOf constant

def moduleV6 : Shape := all [moduleWith storage, constants]

def moduleV7 : Shape :=
  all [text, optional (all [text, listOf storage]), optional (listOf call),
    optional (listOf event), constants]

def magic : Shape := all [byte, byte, byte, byte, byte]

/-- A module is stored before it is read. -/
def blob (module : Shape) : Shape := all [magic, list COLLECTION_SIZE asInt nothing module]

def eventV0 : Shape := all [text, listOf (all [text, longListOf text, documents])]

/-- A function is stored when its number is read, an argument when its name is. -/
def callsV0 : Shape :=
  list COLLECTION_SIZE asInt word
    (all [text, list COLLECTION_SIZE asInt text text, listOf text])

/-- The second text is copied only for a type that is not zero. -/
def typesV0 (type hasSecondType : UInt8) : Shape :=
  if hasSecondType ≠ 0 then texts [true, type ≠ 0] else text

def storageV0 : Shape :=
  optional (all [text, list COLLECTION_SIZE asInt text
    (tagged fun type => tagged fun hasSecondType =>
      all [typesV0 type hasSecondType, fallback, documents])])

def moduleV0 : Shape := all [text, text, text, callsV0, storageV0]

def blobV0 : Shape :=
  all [text, listOf eventV0, listOf moduleV0, text, listOf (all [text, text, word])]

end Tables

end PolkadotApi.BlobLayouts
