import Taskmesh.Ingress.Shape
import Taskmesh.Serde.Json

/-!
# The grammar of the strict ingress

What a declaration has to look like, said of its tree: which objects and arrays may stand where, how
deep, with which keys and with how many stages.
-/

namespace Taskmesh

open Serde

/-- Objects of this shape have keys of their own. -/
def Shape.IsObject (shape : Shape) : Prop := shape ≠ .scalar ∧ shape ≠ .stages ∧ shape ≠ .substrates

instance (shape : Shape) : Decidable shape.IsObject :=
  inferInstanceAs (Decidable (shape ≠ .scalar ∧ shape ≠ .stages ∧ shape ≠ .substrates))

/-- `v` is a value of a shape, where `depth` counts the objects and arrays around it and itself. -/
inductive Conforms (limits : StrictIngressLimits) : Shape → Nat → Json → Prop where
  | leaf {shape : Shape} {depth : Nat} {v : Json} (h : v.isLeaf = true) : Conforms limits shape depth v
  | object {shape : Shape} {depth : Nat} {members : List (String × Json)} (shaped : shape.IsObject)
      (within : depth ≤ limits.maxDepth) (distinct : (members.map Prod.fst).Nodup)
      (known : ∀ m ∈ members, shape.field m.1 ≠ none)
      (values : ∀ m ∈ members, ∀ field, shape.field m.1 = some field → Conforms limits field (depth + 1) m.2) :
      Conforms limits shape depth (.object members)
  | stages {depth : Nat} {elements : List Json} (within : depth ≤ limits.maxDepth)
      (few : elements.length ≤ limits.maxStages)
      (each : ∀ v ∈ elements, Conforms limits .stage (depth + 1) v) :
      Conforms limits .stages depth (.array elements)
  | substrates {depth : Nat} {elements : List Json} (within : depth ≤ limits.maxDepth)
      (each : ∀ v ∈ elements, Conforms limits .substrate (depth + 1) v) :
      Conforms limits .substrates depth (.array elements)

/-- In a declaration of a shape, the value `w` stands for `shape` at this depth. -/
inductive Sits (root : Shape) (v : Json) : Shape → Nat → Json → Prop where
  | root : Sits root v root 1 v
  | member {shape field : Shape} {depth : Nat} {members : List (String × Json)} {m : String × Json}
      (h : Sits root v shape depth (.object members)) (mem : m ∈ members)
      (known : shape.field m.1 = some field) : Sits root v field (depth + 1) m.2
  | stage {depth : Nat} {elements : List Json} {w : Json} (h : Sits root v .stages depth (.array elements))
      (mem : w ∈ elements) : Sits root v .stage (depth + 1) w
  | substrate {depth : Nat} {elements : List Json} {w : Json}
      (h : Sits root v .substrates depth (.array elements)) (mem : w ∈ elements) :
      Sits root v .substrate (depth + 1) w

/-- No object of a declaration, at any depth, has a key twice or a key its shape does not know. -/
structure KeysKnown (root : Shape) (v : Json) : Prop where
  distinct : ∀ members, (Json.object members).Inside v → (members.map Prod.fst).Nodup
  seated : ∀ w, Json.Inside w v → ∃ shape depth, Sits root v shape depth w
  known : ∀ shape depth members, Sits root v shape depth (.object members) →
    ∀ m ∈ members, shape.field m.1 ≠ none

/-! ## What acceptance says of each object -/

section

variable {limits : StrictIngressLimits} {root shape : Shape} {depth : Nat} {v w : Json}
  {members : List (String × Json)}

theorem Conforms.object_iff : Conforms limits shape depth (.object members) ↔
    shape.IsObject ∧ depth ≤ limits.maxDepth ∧ (members.map Prod.fst).Nodup ∧
      ∀ m ∈ members, ∃ field, shape.field m.1 = some field ∧ Conforms limits field (depth + 1) m.2 := by
  constructor
  · intro h
    cases h with
    | leaf h => simp [Json.isLeaf] at h
    | object shaped within distinct known values =>
      refine ⟨shaped, within, distinct, ?_⟩
      intro m hm
      obtain ⟨field, hfield⟩ := Option.ne_none_iff_exists'.mp (known m hm)
      exact ⟨field, hfield, values m hm field hfield⟩
  · rintro ⟨shaped, within, distinct, hmembers⟩
    refine .object shaped within distinct ?_ ?_
    · intro m hm
      obtain ⟨field, hfield, _⟩ := hmembers m hm
      simp [hfield]
    · intro m hm field hfield
      obtain ⟨field', hfield', hvalue⟩ := hmembers m hm
      rw [hfield] at hfield'
      obtain rfl := Option.some.inj hfield'
      exact hvalue

/-- The members of an object of a shape, one by one. -/
def Fits (limits : StrictIngressLimits) (shape : Shape) (depth : Nat) (members : List (String × Json)) : Prop :=
  ∀ m ∈ members, ∃ field, shape.field m.1 = some field ∧ Conforms limits field (depth + 1) m.2

theorem Fits.nil : Fits limits shape depth [] := by
  intro m hm
  simp at hm

theorem Fits.cons {field : Shape} {key : String} (hfield : shape.field key = some field)
    (hv : Conforms limits field (depth + 1) v) (hrest : Fits limits shape depth members) :
    Fits limits shape depth ((key, v) :: members) := by
  intro m hm
  rcases List.mem_cons.mp hm with rfl | hm
  · exact ⟨field, hfield, hv⟩
  · exact hrest m hm

/-- A value that is neither an array nor an object conforms under every key the shape knows. -/
theorem Fits.leaf {key : String} (hknown : shape.field key ≠ none) (hleaf : v.isLeaf = true)
    (hrest : Fits limits shape depth members) : Fits limits shape depth ((key, v) :: members) := by
  obtain ⟨field, hfield⟩ := Option.ne_none_iff_exists'.mp hknown
  exact .cons hfield (.leaf hleaf) hrest

theorem Fits.conforms (h : Fits limits shape depth members) (shaped : shape.IsObject)
    (within : depth ≤ limits.maxDepth) (distinct : (members.map Prod.fst).Nodup) :
    Conforms limits shape depth (.object members) :=
  Conforms.object_iff.mpr ⟨shaped, within, distinct, h⟩

/-- Every value of a conforming declaration conforms where it sits. -/
theorem Sits.conforms (h : Sits root v shape depth w) (hv : Conforms limits root 1 v) :
    Conforms limits shape depth w := by
  induction h with
  | root => exact hv
  | member _ mem known ih =>
    obtain ⟨_, _, _, hmembers⟩ := Conforms.object_iff.mp ih
    obtain ⟨field, hfield, hvalue⟩ := hmembers _ mem
    rw [known] at hfield
    obtain rfl := Option.some.inj hfield
    exact hvalue
  | stage _ mem ih =>
    cases ih with
    | leaf h => simp [Json.isLeaf] at h
    | stages _ _ each => exact each _ mem
  | substrate _ mem ih =>
    cases ih with
    | leaf h => simp [Json.isLeaf] at h
    | substrates _ each => exact each _ mem

/-- Whatever occurs in a conforming declaration, however deep, sits somewhere in it. -/
theorem Conforms.sits_inside {u : Json} (hv : Conforms limits root 1 v) (h : Json.Inside w u)
    (hu : Sits root v shape depth u) : ∃ shape' depth', Sits root v shape' depth' w := by
  induction h generalizing shape depth with
  | here => exact ⟨shape, depth, hu⟩
  | element mem _ ih =>
    have hconforms := hu.conforms hv
    cases hconforms with
    | leaf h => simp [Json.isLeaf] at h
    | stages _ _ _ => exact ih (hu.stage mem)
    | substrates _ _ => exact ih (hu.substrate mem)
  | member mem _ ih =>
    obtain ⟨_, _, _, hmembers⟩ := Conforms.object_iff.mp (hu.conforms hv)
    obtain ⟨field, hfield, _⟩ := hmembers _ mem
    exact ih (hu.member mem hfield)

theorem Conforms.keysKnown (hv : Conforms limits root 1 v) : KeysKnown root v := by
  have hseated : ∀ w, Json.Inside w v → ∃ shape depth, Sits root v shape depth w := by
    intro w hw
    exact hv.sits_inside hw .root
  refine ⟨?_, hseated, ?_⟩
  · intro members hinside
    obtain ⟨shape, depth, hsits⟩ := hseated _ hinside
    obtain ⟨_, _, hdistinct, _⟩ := Conforms.object_iff.mp (hsits.conforms hv)
    exact hdistinct
  · intro shape depth members hsits m hm
    obtain ⟨_, _, _, hmembers⟩ := Conforms.object_iff.mp (hsits.conforms hv)
    obtain ⟨field, hfield, _⟩ := hmembers m hm
    simp [hfield]

/-- The order of the members of an object does not matter, at any depth. -/
theorem Conforms.reordered {v' : Json} (hv : Conforms limits shape depth v) (h : v.Reordered v') :
    Conforms limits shape depth v' := by
  induction h generalizing shape depth with
  | here perm =>
    obtain ⟨shaped, within, distinct, hmembers⟩ := Conforms.object_iff.mp hv
    refine Conforms.object_iff.mpr ⟨shaped, within, (perm.map Prod.fst).nodup_iff.mp distinct, ?_⟩
    intro m hm
    exact hmembers m (perm.mem_iff.mpr hm)
  | @element before after w w' _ ih =>
    have hmem : ∀ u ∈ before ++ w' :: after, u = w' ∨ u ∈ before ++ w :: after := by
      intro u hu
      simp only [List.mem_append, List.mem_cons] at hu ⊢
      tauto
    have hlength : (before ++ w' :: after).length = (before ++ w :: after).length := by simp
    cases hv with
    | leaf h => simp [Json.isLeaf] at h
    | stages within few each =>
      refine .stages within (hlength ▸ few) ?_
      intro u hu
      rcases hmem u hu with rfl | hu
      · exact ih (each w (by simp))
      · exact each u hu
    | substrates within each =>
      refine .substrates within ?_
      intro u hu
      rcases hmem u hu with rfl | hu
      · exact ih (each w (by simp))
      · exact each u hu
  | @member before after key w w' _ ih =>
    obtain ⟨shaped, within, distinct, hmembers⟩ := Conforms.object_iff.mp hv
    have hkeys : (before ++ (key, w') :: after).map Prod.fst = (before ++ (key, w) :: after).map Prod.fst := by
      simp
    refine Conforms.object_iff.mpr ⟨shaped, within, hkeys ▸ distinct, ?_⟩
    intro m hm
    have hcases : m = (key, w') ∨ m ∈ before ++ (key, w) :: after := by
      simp only [List.mem_append, List.mem_cons] at hm ⊢
      tauto
    rcases hcases with rfl | hm
    · obtain ⟨field, hfield, hvalue⟩ := hmembers (key, w) (by simp)
      exact ⟨field, hfield, ih hvalue⟩
    · exact hmembers m hm

end

end Taskmesh
