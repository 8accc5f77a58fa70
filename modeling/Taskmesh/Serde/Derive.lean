import Taskmesh.Serde.Json

/-!
# Derived encoders and decoders

What a derived serializer writes and what a derived deserializer reads back, as combinators on trees. A
struct is an object, read by key; a derived visitor also reads it from an array, by position. An enum is
externally tagged: a unit variant is its name, any other variant an object with that single key.
-/

namespace Serde

abbrev Decoder (α : Type) := Json → Option α

/-! ## Scalars -/

def boolean : Decoder Bool
  | .bool value => some value
  | _ => none

def text : Decoder String
  | .string value => some value
  | _ => none

def unsigned32 : Decoder UInt32
  | .number (.unsigned value) => if value.toNat < 4294967296 then some value.toUInt32 else none
  | _ => none

def unsigned64 : Decoder UInt64
  | .number (.unsigned value) => some value
  | _ => none

def ofUInt32 (value : UInt32) : Json := .number (.unsigned value.toUInt64)

def ofUInt64 (value : UInt64) : Json := .number (.unsigned value)

variable {α β : Type}

/-- `Option<T>`: `null` stands for `None`. -/
def nullable (decode : Decoder α) : Decoder (Option α)
  | .null => some none
  | v => (decode v).map some

def ofOption (encode : α → Json) : Option α → Json
  | none => .null
  | some a => encode a

@[simp] theorem ofUInt32_ne_null (value : UInt32) : ofUInt32 value ≠ .null := by simp [ofUInt32]

@[simp] theorem ofUInt64_ne_null (value : UInt64) : ofUInt64 value ≠ .null := by simp [ofUInt64]

@[simp] theorem boolean_bool (value : Bool) : boolean (.bool value) = some value := rfl

@[simp] theorem text_string (value : String) : text (.string value) = some value := rfl

@[simp] theorem unsigned64_ofUInt64 (value : UInt64) : unsigned64 (ofUInt64 value) = some value := rfl

@[simp] theorem unsigned32_ofUInt32 (value : UInt32) : unsigned32 (ofUInt32 value) = some value := by
  unfold unsigned32 ofUInt32
  have hlt := value.toNat_lt
  simp only [UInt32.toNat_toUInt64, UInt32.toUInt32_toUInt64]
  rw [if_pos hlt]

theorem nullable_ofOption {encode : α → Json} {decode : Decoder α} (hnull : ∀ a, encode a ≠ .null)
    (h : ∀ a, decode (encode a) = some a) (value : Option α) :
    nullable decode (ofOption encode value) = some value := by
  cases value with
  | none => rfl
  | some a =>
    unfold nullable ofOption
    split
    · rename_i heq
      exact absurd heq (hnull a)
    · rw [h a]
      rfl

/-! ## Structs -/

/-- How the fields of a struct are read: by name from the members of an object, and in turn from the
elements of an array. -/
structure Fields (α : Type) where
  named : List (String × Json) → Option α
  placed : List Json → Option (α × List Json)

namespace Fields

/-- The constructor, before any field has been read. -/
def build (a : α) : Fields α := ⟨fun _ => some a, fun elements => some (a, elements)⟩

/-- Read one more field. -/
def and (f : Fields (α → β)) (x : Fields α) : Fields β where
  named members := (f.named members).bind fun g => (x.named members).map g
  placed elements := (f.placed elements).bind fun g => (x.placed g.2).map fun a => (g.1 a.1, a.2)

@[simp] theorem named_build (a : α) (members : List (String × Json)) : (build a).named members = some a := rfl

@[simp] theorem named_and (f : Fields (α → β)) (x : Fields α) (members : List (String × Json)) :
    (f.and x).named members = (f.named members).bind fun g => (x.named members).map g := rfl

end Fields

/-- The value of a key. A key that occurs twice is an error, and so is a missing one unless there is a
value for that. -/
def lookup (key : String) (decode : Decoder α) (missing : Option α) (members : List (String × Json)) :
    Option α :=
  match members.filter fun m => m.1 = key with
  | [] => missing
  | [m] => decode m.2
  | _ => none

/-- A field without a default; a missing optional one is read as `None` by name, but not by position. -/
def fieldOr (missing : Option α) (key : String) (decode : Decoder α) : Fields α where
  named := lookup key decode missing
  placed
    | [] => none
    | v :: rest => (decode v).map fun a => (a, rest)

def field (key : String) (decode : Decoder α) : Fields α := fieldOr none key decode

def optional (key : String) (decode : Decoder α) : Fields (Option α) := fieldOr (some none) key (nullable decode)

/-- A field with `#[serde(default)]`. -/
def defaulted (key : String) (decode : Decoder α) (value : α) : Fields α where
  named := lookup key decode (some value)
  placed
    | [] => some (value, [])
    | v :: rest => (decode v).map fun a => (a, rest)

@[simp] theorem named_field (key : String) (decode : Decoder α) (members : List (String × Json)) :
    (field key decode).named members = lookup key decode none members := rfl

@[simp] theorem named_optional (key : String) (decode : Decoder α) (members : List (String × Json)) :
    (optional key decode).named members = lookup key (nullable decode) (some none) members := rfl

@[simp] theorem named_defaulted (key : String) (decode : Decoder α) (value : α) (members : List (String × Json)) :
    (defaulted key decode value).named members = lookup key decode (some value) members := rfl

/-- A derived struct; keys it does not know are skipped. -/
def record (fields : Fields α) : Decoder α
  | .object members => fields.named members
  | .array elements => (fields.placed elements).bind fun a => if a.2 = [] then some a.1 else none
  | _ => none

/-- A derived struct with `#[serde(deny_unknown_fields)]`. -/
def closedRecord (keys : List String) (fields : Fields α) : Decoder α
  | .object members => if members.all fun m => m.1 ∈ keys then fields.named members else none
  | v => record fields v

/-! ## Enums -/

/-- The unit variants and the others, each under its name. -/
def variants (units : List (String × α)) (payloads : List (String × Decoder α)) : Decoder α
  | .string name => (units.find? fun variant => variant.1 = name).map Prod.snd
  | .object [(name, .null)] =>
    match payloads.find? fun variant => variant.1 = name with
    | some variant => variant.2 .null
    | none => (units.find? fun variant => variant.1 = name).map Prod.snd
  | .object [(name, v)] => (payloads.find? fun variant => variant.1 = name).bind fun variant => variant.2 v
  | _ => none

@[simp] theorem variants_string (units : List (String × α)) (payloads : List (String × Decoder α)) (name : String) :
    variants units payloads (.string name) =
      (units.find? fun variant => variant.1 = name).map Prod.snd := rfl

/-- The payload of a variant decides how the variant is read. -/
theorem variants_tagged (units : List (String × α)) (payloads : List (String × Decoder α)) (name : String)
    {v : Json} (hv : v ≠ .null) : variants units payloads (.object [(name, v)]) =
      (payloads.find? fun variant => variant.1 = name).bind fun variant => variant.2 v := by
  cases v with
  | null => exact absurd rfl hv
  | _ => rfl

/-! ## Sequences and maps -/

/-- `Vec<T>`. -/
def sequence (decode : Decoder α) : Decoder (List α)
  | .array elements => elements.mapM decode
  | _ => none

/-- The entries of a map, in the order of the text. -/
def entries (key : String → β) (decode : Decoder α) : Decoder (List (β × α))
  | .object members => members.mapM fun m => (decode m.2).map fun a => (key m.1, a)
  | _ => none

/-- A list is read back if each of its elements is. -/
theorem sequence_map {encode : α → Json} {decode : Decoder α} (h : ∀ a, decode (encode a) = some a)
    (list : List α) : sequence decode (.array (list.map encode)) = some list := by
  show (list.map encode).mapM decode = some list
  induction list with
  | nil => rfl
  | cons a rest ih =>
    rw [List.map_cons, List.mapM_cons, h a, ih]
    rfl

theorem entries_map (name : β → String) (key : String → β) {encode : α → Json} {decode : Decoder α}
    (hkey : ∀ b, key (name b) = b) (h : ∀ a, decode (encode a) = some a) (list : List (β × α)) :
    entries key decode (.object (list.map fun entry => (name entry.1, encode entry.2))) = some list := by
  show (list.map fun entry => (name entry.1, encode entry.2)).mapM
    (fun m => (decode m.2).map fun a => (key m.1, a)) = some list
  induction list with
  | nil => rfl
  | cons entry rest ih =>
    rw [List.map_cons, List.mapM_cons, ih]
    simp only [h, hkey, Option.map_some]
    rfl

end Serde
