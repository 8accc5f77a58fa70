import Mathlib.Tactic

/-!
# JSON trees and JSON text

`Json` is the tree a parser builds: an object is the list of its members in the order of the text, and
a key may occur twice. `Text` is what a streaming reader meets. It is the same tree, except that it may
stop being JSON anywhere: a list may end in an error instead of its closing bracket, and a value may
turn out not to be one.
-/

namespace Serde

/-- A number, as the reader classifies it; a float is its bit pattern. -/
inductive Number where
  | unsigned (value : UInt64)
  | negative (value : Int64)
  | float (bits : UInt64)
  deriving DecidableEq

inductive Json where
  | null
  | bool (value : Bool)
  | number (value : Number)
  | string (value : String)
  | array (elements : List Json)
  | object (members : List (String × Json))

inductive Text where
  | null
  | bool (value : Bool)
  | number (value : Number)
  | string (value : String)
  | array (elements : List Text) (ends : Option String)
  | object (members : List (String × Text)) (ends : Option String)
  | broken (error : String)

/-- A document: a value, and the error of what follows it, if anything does. -/
structure Document where
  value : Text
  trailing : Option String

mutual

/-- The well-formed text of a tree. -/
def Json.text : Json → Text
  | .null => .null
  | .bool value => .bool value
  | .number value => .number value
  | .string value => .string value
  | .array elements => .array (texts elements) none
  | .object members => .object (memberTexts members) none

def texts : List Json → List Text
  | [] => []
  | v :: rest => v.text :: texts rest

def memberTexts : List (String × Json) → List (String × Text)
  | [] => []
  | (key, v) :: rest => (key, v.text) :: memberTexts rest

end

/-- Induction over a text, part by part. -/
theorem Text.parts {P : Text → Prop} (null : P .null) (bool : ∀ value, P (.bool value))
    (number : ∀ value, P (.number value)) (string : ∀ value, P (.string value))
    (array : ∀ elements ends, (∀ t ∈ elements, P t) → P (.array elements ends))
    (object : ∀ members ends, (∀ m ∈ members, P m.2) → P (.object members ends))
    (broken : ∀ error, P (.broken error)) (t : Text) : P t := by
  refine @Text.rec P (fun elements => ∀ t ∈ elements, P t) (fun members => ∀ m ∈ members, P m.2)
    (fun m => P m.2) null bool number string (fun elements ends h => array elements ends h)
    (fun members ends h => object members ends h) broken ?_ ?_ ?_ ?_ (fun _ _ h => h) t
  · simp
  · intro t rest ht hrest u hu
    rcases List.mem_cons.mp hu with rfl | hu
    · exact ht
    · exact hrest u hu
  · simp
  · intro m rest hm hrest n hn
    rcases List.mem_cons.mp hn with rfl | hn
    · exact hm
    · exact hrest n hn

/-- The document that holds a tree and nothing else. -/
def Json.document (v : Json) : Document := ⟨v.text, none⟩

theorem Json.array_text (elements : List Json) : (Json.array elements).text = .array (elements.map Json.text) none := by
  have hmap : texts elements = elements.map Json.text := by
    induction elements with
    | nil => simp [texts]
    | cons v rest ih => simp [texts, ih]
  rw [Json.text, hmap]

theorem Json.object_text (members : List (String × Json)) :
    (Json.object members).text = .object (members.map fun m => (m.1, m.2.text)) none := by
  have hmap : memberTexts members = members.map fun m => (m.1, m.2.text) := by
    induction members with
    | nil => simp [memberTexts]
    | cons m rest ih =>
      obtain ⟨key, v⟩ := m
      simp [memberTexts, ih]
  rw [Json.text, hmap]

/-- Neither an array nor an object. -/
def Json.isLeaf : Json → Bool
  | .array _ | .object _ => false
  | _ => true

/-- Induction over a tree: an array or an object may use the property of each of its parts. -/
theorem Json.parts {P : Json → Prop} (leaf : ∀ v, v.isLeaf = true → P v)
    (array : ∀ elements, (∀ v ∈ elements, P v) → P (.array elements))
    (object : ∀ members, (∀ m ∈ members, P m.2) → P (.object members)) (v : Json) : P v := by
  refine @Json.rec P (fun elements => ∀ v ∈ elements, P v) (fun members => ∀ m ∈ members, P m.2)
    (fun m => P m.2) (leaf _ rfl) (fun _ => leaf _ rfl) (fun _ => leaf _ rfl) (fun _ => leaf _ rfl) array object
    ?_ ?_ ?_ ?_ (fun _ _ h => h) v
  · simp
  · intro v rest hv hrest w hw
    rcases List.mem_cons.mp hw with rfl | hw
    · exact hv
    · exact hrest w hw
  · simp
  · intro m rest hm hrest n hn
    rcases List.mem_cons.mp hn with rfl | hn
    · exact hm
    · exact hrest n hn

theorem map_inj_of_mem {α β : Type} {f : α → β} {l l' : List α} (hf : ∀ a ∈ l, ∀ b, f a = f b → a = b)
    (h : l.map f = l'.map f) : l = l' := by
  induction l generalizing l' with
  | nil => exact (List.map_eq_nil_iff.mp h.symm).symm
  | cons a rest ih =>
    obtain ⟨b, rest', rfl, hb, hrest⟩ := List.map_eq_cons_iff.mp h.symm
    rw [hf a (by simp) b hb.symm, ih (fun c hc => hf c (by simp [hc])) hrest.symm]

/-- A text is the text of one tree only. -/
theorem Json.text_inj (v : Json) : ∀ v', v.text = v'.text → v = v' := by
  induction v using Json.parts with
  | leaf v hleaf =>
    intro v' h
    cases v <;> cases v' <;> simp_all [Json.text, Json.isLeaf]
  | array elements ih =>
    intro v' h
    rw [Json.array_text] at h
    cases v' with
    | array elements' =>
      rw [Json.array_text] at h
      rw [map_inj_of_mem ih (Text.array.inj h).1]
    | _ => simp [Json.text] at h
  | object members ih =>
    intro v' h
    rw [Json.object_text] at h
    cases v' with
    | object members' =>
      rw [Json.object_text] at h
      have hmember : ∀ m ∈ members, ∀ m', (m.1, m.2.text) = (m'.1, m'.2.text) → m = m' := by
        intro m hm m' heq
        exact Prod.ext (Prod.mk.inj heq).1 (ih m hm m'.2 (Prod.mk.inj heq).2)
      rw [map_inj_of_mem hmember (Text.object.inj h).1]
    | _ => simp [Json.text] at h

theorem Json.document_inj {v v' : Json} (h : v.document = v'.document) : v = v' :=
  v.text_inj v' (congrArg Document.value h)

/-- `w` occurs in `v`, at any depth. -/
inductive Json.Inside (w : Json) : Json → Prop where
  | here : Inside w w
  | element {elements : List Json} {v : Json} (mem : v ∈ elements) (h : Inside w v) : Inside w (.array elements)
  | member {members : List (String × Json)} {m : String × Json} (mem : m ∈ members) (h : Inside w m.2) :
      Inside w (.object members)

/-- The members of one object, at any depth, come in another order. -/
inductive Json.Reordered : Json → Json → Prop where
  | here {members members' : List (String × Json)} (perm : members.Perm members') :
      Reordered (.object members) (.object members')
  | element {before after : List Json} {v v' : Json} (h : Reordered v v') :
      Reordered (.array (before ++ v :: after)) (.array (before ++ v' :: after))
  | member {before after : List (String × Json)} {key : String} {v v' : Json} (h : Reordered v v') :
      Reordered (.object (before ++ (key, v) :: after)) (.object (before ++ (key, v') :: after))

theorem Json.Reordered.symm {v v' : Json} (h : v.Reordered v') : v'.Reordered v := by
  induction h with
  | here perm => exact .here perm.symm
  | element _ ih => exact .element ih
  | member _ ih => exact .member ih

end Serde
