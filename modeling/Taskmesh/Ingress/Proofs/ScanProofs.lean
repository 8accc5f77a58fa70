import Taskmesh.Ingress.Grammar
import Taskmesh.Ingress.Parse

/-!
# The scan accepts its grammar

A visit either passes from every state of the failure cell and leaves it alone, or stops from every
state. It passes exactly on the well-formed text of a conforming tree; so the derived decoders only ever
see conforming documents.
-/

namespace Taskmesh

open Serde

variable {limits : StrictIngressLimits} {shape element : Shape} {depth count : Nat} {ends : Option String}

/-! ## How a visit ends -/

namespace Visit

variable {first next : Visit}

/-- The visit succeeds and leaves the failure cell alone. -/
def Passes (v : Visit) : Prop := ∀ failure, v failure = (.ok (), failure)

/-- The visit ends the parse. -/
def Stops (v : Visit) : Prop := ∀ failure, ∃ error failure', v failure = (.error error, failure')

/-- The failure cell does not decide how the visit ends. -/
def Settled (v : Visit) : Prop := v.Passes ∨ v.Stops

/-- A visit that stops does not pass. -/
theorem Stops.not_passes (h : first.Stops) : ¬first.Passes := by
  intro hpasses
  obtain ⟨error, failure', heq⟩ := h none
  rw [hpasses none] at heq
  simp at heq

theorem passes_done : done.Passes := fun _ => rfl

theorem stops_fails (error : String) : (fails error).Stops := fun failure => ⟨error, failure, rfl⟩

theorem stops_reject (error : StrictIngressError) : (reject error).Stops :=
  fun _ => ⟨"strict ingress rejected", some error, rfl⟩

theorem settled_ends : (Visit.ends ends).Settled := by
  cases ends with
  | none => exact Or.inl passes_done
  | some error => exact Or.inr (stops_fails error)

theorem passes_ends_iff : (Visit.ends ends).Passes ↔ ends = none := by
  cases ends with
  | none => simp [Visit.ends, passes_done]
  | some error =>
    show (fails error).Passes ↔ _
    simp [(stops_fails error).not_passes]

/-- A visit that passes leaves everything to the next one. -/
theorem Passes.andThen (h : first.Passes) : first.andThen next = next := by
  funext failure
  unfold Visit.andThen
  rw [h failure]

/-- A visit that stops leaves nothing to the next one. -/
theorem Stops.andThen (h : first.Stops) : (first.andThen next).Stops := by
  intro failure
  obtain ⟨error, failure', heq⟩ := h failure
  refine ⟨error, failure', ?_⟩
  unfold Visit.andThen
  rw [heq]

theorem Settled.andThen (h : first.Settled) (hnext : next.Settled) : (first.andThen next).Settled := by
  rcases h with h | h
  · rw [h.andThen]
    exact hnext
  · exact Or.inr h.andThen

/-- Two visits in a row pass exactly when both do. -/
theorem Settled.passes_andThen_iff (h : first.Settled) :
    (first.andThen next).Passes ↔ first.Passes ∧ next.Passes := by
  rcases h with h | h
  · rw [h.andThen]
    simp [h]
  · simp [h.not_passes, h.andThen.not_passes]

end Visit

open Visit

/-- The visit of an object is settled if those of its values are. -/
theorem settled_visitMap {members : List (String × Text)}
    (hvisit : ∀ m ∈ members, ∀ field, (visit limits field (depth + 1) m.2).Settled) (seen : List String) :
    (visitMap limits shape depth seen members ends).Settled := by
  induction members generalizing seen with
  | nil =>
    unfold visitMap
    exact settled_ends
  | cons m rest ih =>
    obtain ⟨key, value⟩ := m
    unfold visitMap
    split
    · exact Or.inr (stops_reject _)
    · split
      · exact Or.inr (stops_reject _)
      · rename_i field _
        have hvalue := hvisit (key, value) (by simp) field
        exact hvalue.andThen (ih (fun m hm => hvisit m (by simp [hm])) (key :: seen))

/-- The visit of an array is settled if those of its elements are. -/
theorem settled_visitSeq {elements : List Text}
    (hvisit : ∀ t ∈ elements, (visit limits element (depth + 1) t).Settled) (count : Nat) :
    (visitSeq limits shape element depth count elements ends).Settled := by
  induction elements generalizing count with
  | nil =>
    unfold visitSeq
    exact settled_ends
  | cons t rest ih =>
    unfold visitSeq
    split
    · exact Or.inr (stops_reject _)
    · exact (hvisit t (by simp)).andThen (ih (fun t ht => hvisit t (by simp [ht])) (count + 1))

/-- Every visit passes or stops, by induction on the text. -/
theorem settled_visit (t : Text) : ∀ shape depth, (visit limits shape depth t).Settled := by
  induction t using Text.parts with
  | null | bool | number | string =>
    intro shape depth
    unfold visit
    exact Or.inl passes_done
  | broken error =>
    intro shape depth
    unfold visit
    exact Or.inr (stops_fails error)
  | object members ends ih =>
    intro shape depth
    unfold visit
    split
    · exact Or.inr (stops_reject _)
    · split
      · exact Or.inr (stops_reject _)
      · exact settled_visitMap (fun m hm field => ih m hm field (depth + 1)) []
  | array elements ends ih =>
    intro shape depth
    unfold visit
    split
    · exact Or.inr (stops_reject _)
    · split
      · exact settled_visitSeq (fun t ht => ih t ht .stage (depth + 1)) 0
      · exact settled_visitSeq (fun t ht => ih t ht .substrate (depth + 1)) 0
      · exact Or.inr (stops_reject _)

/-! ## Only well-formed text passes -/

theorem visitMap_whole {members : List (String × Text)}
    (hvisit : ∀ m ∈ members, ∀ field, (visit limits field (depth + 1) m.2).Passes → ∃ v : Json, m.2 = v.text)
    (seen : List String) (h : (visitMap limits shape depth seen members ends).Passes) :
    ends = none ∧ ∃ trees : List (String × Json), members = trees.map fun m => (m.1, m.2.text) := by
  induction members generalizing seen with
  | nil =>
    unfold visitMap at h
    exact ⟨passes_ends_iff.mp h, [], rfl⟩
  | cons m rest ih =>
    obtain ⟨key, value⟩ := m
    unfold visitMap at h
    split at h
    · exact absurd h (stops_reject _).not_passes
    · split at h
      · exact absurd h (stops_reject _).not_passes
      · rename_i field _
        obtain ⟨hvalue, hrest⟩ := (settled_visit value field (depth + 1)).passes_andThen_iff.mp h
        obtain ⟨v, hv⟩ := hvisit (key, value) (by simp) field hvalue
        obtain ⟨hends, trees, htrees⟩ := ih (fun m hm => hvisit m (by simp [hm])) (key :: seen) hrest
        refine ⟨hends, (key, v) :: trees, ?_⟩
        simp only at hv
        rw [hv, htrees, List.map_cons]

theorem visitSeq_whole {elements : List Text}
    (hvisit : ∀ t ∈ elements, (visit limits element (depth + 1) t).Passes → ∃ v : Json, t = v.text)
    (count : Nat) (h : (visitSeq limits shape element depth count elements ends).Passes) :
    ends = none ∧ ∃ trees : List Json, elements = trees.map Json.text := by
  induction elements generalizing count with
  | nil =>
    unfold visitSeq at h
    exact ⟨passes_ends_iff.mp h, [], rfl⟩
  | cons t rest ih =>
    unfold visitSeq at h
    split at h
    · exact absurd h (stops_reject _).not_passes
    · obtain ⟨ht, hrest⟩ := (settled_visit t element (depth + 1)).passes_andThen_iff.mp h
      obtain ⟨v, rfl⟩ := hvisit t (by simp) ht
      obtain ⟨hends, trees, rfl⟩ := ih (fun t ht => hvisit t (by simp [ht])) (count + 1) hrest
      exact ⟨hends, v :: trees, rfl⟩

/-- A visit that passes has read a whole tree. -/
theorem visit_whole (t : Text) : ∀ shape depth, (visit limits shape depth t).Passes → ∃ v : Json, t = v.text := by
  induction t using Text.parts with
  | null =>
    intro _ _ _
    exact ⟨.null, by simp [Json.text]⟩
  | bool value =>
    intro _ _ _
    exact ⟨.bool value, by simp [Json.text]⟩
  | number value =>
    intro _ _ _
    exact ⟨.number value, by simp [Json.text]⟩
  | string value =>
    intro _ _ _
    exact ⟨.string value, by simp [Json.text]⟩
  | broken error =>
    intro shape depth h
    unfold visit at h
    exact absurd h (stops_fails error).not_passes
  | object members ends ih =>
    intro shape depth h
    unfold visit at h
    split at h
    · exact absurd h (stops_reject _).not_passes
    · split at h
      · exact absurd h (stops_reject _).not_passes
      · obtain ⟨rfl, trees, rfl⟩ := visitMap_whole (fun m hm field => ih m hm field (depth + 1)) [] h
        exact ⟨.object trees, (Json.object_text trees).symm⟩
  | array elements ends ih =>
    intro shape depth h
    have hpassed : ∃ shape element, (visitSeq limits shape element depth 0 elements ends).Passes := by
      unfold visit at h
      split at h
      · exact absurd h (stops_reject _).not_passes
      · split at h
        · exact ⟨_, _, h⟩
        · exact ⟨_, _, h⟩
        · exact absurd h (stops_reject _).not_passes
    obtain ⟨_, element, hseq⟩ := hpassed
    obtain ⟨rfl, trees, rfl⟩ := visitSeq_whole (fun t ht => ih t ht element (depth + 1)) 0 hseq
    exact ⟨.array trees, (Json.array_text trees).symm⟩

/-! ## The grammar, one level at a time -/

/-- The members pass exactly when their keys are distinct, known, and their values conform. -/
theorem visitMap_passes_iff {members : List (String × Json)}
    (hvisit : ∀ m ∈ members, ∀ field, (visit limits field (depth + 1) m.2.text).Passes ↔
      Conforms limits field (depth + 1) m.2) (seen : List String) :
    (visitMap limits shape depth seen (members.map fun m => (m.1, m.2.text)) none).Passes ↔
      (∀ m ∈ members, m.1 ∉ seen) ∧ (members.map Prod.fst).Nodup ∧
        ∀ m ∈ members, ∃ field, shape.field m.1 = some field ∧ Conforms limits field (depth + 1) m.2 := by
  induction members generalizing seen with
  | nil =>
    unfold visitMap
    simp [passes_ends_iff]
  | cons m rest ih =>
    obtain ⟨key, v⟩ := m
    simp only [List.map_cons]
    unfold visitMap
    split
    · rename_i hseen
      simp only [(stops_reject _).not_passes, false_iff, not_and]
      intro hfresh
      exact absurd hseen (hfresh (key, v) (by simp))
    · rename_i hseen
      split
      · rename_i hfield
        simp only [(stops_reject _).not_passes, false_iff, not_and]
        intro _ _ hknown
        obtain ⟨field, hsome, _⟩ := hknown (key, v) (by simp)
        rw [hfield] at hsome
        simp at hsome
      · rename_i field hfield
        rw [(settled_visit v.text field (depth + 1)).passes_andThen_iff,
          hvisit (key, v) (by simp) field, ih (fun m hm => hvisit m (by simp [hm])) (key :: seen)]
        constructor
        · rintro ⟨hvalue, hfresh, hdistinct, hknown⟩
          refine ⟨?_, ?_, ?_⟩
          · intro m hm
            rcases List.mem_cons.mp hm with rfl | hm
            · exact hseen
            · exact fun h => hfresh m hm (List.mem_cons_of_mem key h)
          · rw [List.nodup_cons]
            refine ⟨?_, hdistinct⟩
            intro hkey
            obtain ⟨m, hm, rfl⟩ := List.mem_map.mp hkey
            exact hfresh m hm (by simp)
          · intro m hm
            rcases List.mem_cons.mp hm with rfl | hm
            · exact ⟨field, hfield, hvalue⟩
            · exact hknown m hm
        · rintro ⟨hfresh, hdistinct, hknown⟩
          rw [List.nodup_cons] at hdistinct
          refine ⟨?_, ?_, hdistinct.2, fun m hm => hknown m (by simp [hm])⟩
          · obtain ⟨field', hfield', hvalue⟩ := hknown (key, v) (by simp)
            rw [hfield] at hfield'
            obtain rfl := Option.some.inj hfield'
            exact hvalue
          · intro m hm hmem
            rcases List.mem_cons.mp hmem with heq | hmem
            · exact hdistinct.1 (heq ▸ List.mem_map_of_mem hm)
            · exact hfresh m (by simp [hm]) hmem

/-- The loop over an array passes if the stages it adds to the count stay within the limit. -/
theorem visitSeq_passes_iff {elements : List Json}
    (hvisit : ∀ v ∈ elements, (visit limits element (depth + 1) v.text).Passes ↔
      Conforms limits element (depth + 1) v) (count : Nat) (hcount : shape = .stages → count ≤ limits.maxStages) :
    (visitSeq limits shape element depth count (elements.map Json.text) none).Passes ↔
      (shape = .stages → count + elements.length ≤ limits.maxStages) ∧
        ∀ v ∈ elements, Conforms limits element (depth + 1) v := by
  induction elements generalizing count with
  | nil =>
    simp only [List.map_nil]
    unfold visitSeq
    simpa [passes_ends_iff] using hcount
  | cons v rest ih =>
    simp only [List.map_cons]
    unfold visitSeq
    split
    · rename_i hfull
      simp only [(stops_reject _).not_passes, false_iff, not_and]
      intro hroom
      have hlimit := hroom hfull.1
      simp only [List.length_cons] at hlimit
      omega
    · rename_i hroom
      have hnext : shape = .stages → count + 1 ≤ limits.maxStages := by
        intro hshape
        have hle := hcount hshape
        have hne : count ≠ limits.maxStages := fun h => hroom ⟨hshape, h⟩
        omega
      rw [(settled_visit v.text element (depth + 1)).passes_andThen_iff, hvisit v (by simp),
        ih (fun v hv => hvisit v (by simp [hv])) (count + 1) hnext]
      simp only [List.length_cons, List.forall_mem_cons]
      have hlength : count + 1 + rest.length = count + (rest.length + 1) := by omega
      rw [hlength]
      tauto

/-- The visit of a tree passes exactly if the tree conforms. -/
theorem visit_text_passes_iff (v : Json) : ∀ shape depth,
    (visit limits shape depth v.text).Passes ↔ Conforms limits shape depth v := by
  induction v using Json.parts with
  | leaf v hleaf =>
    intro shape depth
    have hpasses : (visit limits shape depth v.text).Passes := by
      cases v with
      | array | object => simp [Json.isLeaf] at hleaf
      | _ =>
        unfold Json.text visit
        exact passes_done
    exact iff_of_true hpasses (.leaf hleaf)
  | object members ih =>
    intro shape depth
    rw [Json.object_text, Conforms.object_iff]
    unfold visit
    split
    · rename_i hdeep
      simp only [(stops_reject _).not_passes, false_iff]
      rintro ⟨_, hwithin, _⟩
      omega
    · rename_i hwithin
      split
      · rename_i hshape
        simp only [(stops_reject _).not_passes, false_iff]
        rintro ⟨⟨hscalar, hstages, hsubstrates⟩, _⟩
        tauto
      · rename_i hshape
        rw [visitMap_passes_iff (fun m hm field => ih m hm field (depth + 1)) []]
        unfold Shape.IsObject
        simp only [not_or] at hshape
        simp [hshape, Nat.not_lt.mp hwithin]
  | array elements ih =>
    intro shape depth
    rw [Json.array_text]
    unfold visit
    split
    · rename_i hdeep
      simp only [(stops_reject _).not_passes, false_iff]
      intro h
      cases h with
      | leaf h => simp [Json.isLeaf] at h
      | stages within | substrates within => omega
    · rename_i hwithin
      have hdepth : depth ≤ limits.maxDepth := Nat.not_lt.mp hwithin
      split
      · rw [visitSeq_passes_iff (fun v hv => ih v hv .stage (depth + 1)) 0 (by simp)]
        constructor
        · rintro ⟨hfew, heach⟩
          exact .stages hdepth (by simpa using hfew rfl) heach
        · intro h
          cases h with
          | leaf h => simp [Json.isLeaf] at h
          | stages _ few each => exact ⟨by simpa using few, each⟩
      · rw [visitSeq_passes_iff (fun v hv => ih v hv .substrate (depth + 1)) 0 (by simp)]
        constructor
        · rintro ⟨_, heach⟩
          exact .substrates hdepth heach
        · intro h
          cases h with
          | leaf h => simp [Json.isLeaf] at h
          | substrates _ each => exact ⟨by simp, each⟩
      · rename_i hstages hsubstrates
        simp only [(stops_reject _).not_passes, false_iff]
        intro h
        cases h with
        | leaf h => simp [Json.isLeaf] at h
        | stages => exact hstages rfl
        | substrates => exact hsubstrates rfl

/-! ## The scan of bytes -/

variable {serde : SerdeJson} {bytes : List UInt8}

/-- All limits are nonzero. -/
def StrictIngressLimits.Nonzero (limits : StrictIngressLimits) : Prop :=
  limits.maxBytes ≠ 0 ∧ limits.maxDepth ≠ 0 ∧ limits.maxStages ≠ 0

/-- The visit of a whole document, starting from an empty failure cell. -/
def documentVisit (limits : StrictIngressLimits) (shape : Shape) (document : Document) : Visit :=
  (visit limits shape 1 document.value).andThen (.ends document.trailing)

/-- With usable limits the scan is one bounded visit of the text. -/
theorem scan_eq (hlimits : limits.Nonzero) : scan serde bytes limits shape =
    if bytes.length > limits.maxBytes then .error (.byteLimit bytes.length limits.maxBytes)
    else verdict (documentVisit limits shape (serde.read bytes) none) := by
  obtain ⟨hbytes, hdepth, hstages⟩ := hlimits
  unfold scan documentVisit
  simp [hbytes, hdepth, hstages]

theorem settled_documentVisit (limits : StrictIngressLimits) (shape : Shape) (document : Document) : (documentVisit limits shape document).Settled :=
  (settled_visit document.value shape 1).andThen settled_ends

/-- The scan accepts what it has visited to the end. -/
theorem scan_ok_iff_passes (hlimits : limits.Nonzero) : scan serde bytes limits shape = .ok () ↔
    bytes.length ≤ limits.maxBytes ∧ (documentVisit limits shape (serde.read bytes)).Passes := by
  rw [scan_eq hlimits]
  split
  · rename_i hlong
    simp [Nat.not_le.mpr hlong]
  · rename_i hshort
    rcases settled_documentVisit limits shape (serde.read bytes) with hpasses | hstops
    · simp [hpasses, hpasses none, verdict, Except.mapError, Nat.not_lt.mp hshort]
    · obtain ⟨error, failure, heq⟩ := hstops none
      rw [heq]
      simp only [hstops.not_passes, and_false, iff_false]
      cases failure <;> simp [verdict, Except.mapError]

/-- A document that passes is the document of a tree: nothing follows it. -/
theorem documentVisit_whole {document : Document} (h : (documentVisit limits shape document).Passes) :
    ∃ v : Json, document = v.document := by
  obtain ⟨t, trailing⟩ := document
  obtain ⟨hvisit, hends⟩ := (settled_visit t shape 1).passes_andThen_iff.mp h
  obtain ⟨v, rfl⟩ := visit_whole t shape 1 hvisit
  obtain rfl : trailing = none := passes_ends_iff.mp hends
  exact ⟨v, rfl⟩

/-- The document of a tree passes exactly when the tree conforms. -/
theorem documentVisit_passes_iff (v : Json) :
    (documentVisit limits shape v.document).Passes ↔ Conforms limits shape 1 v := by
  unfold documentVisit
  rw [(settled_visit _ shape 1).passes_andThen_iff, passes_ends_iff]
  show (visit limits shape 1 v.text).Passes ∧ none = none ↔ _
  rw [visit_text_passes_iff]
  simp

/-- The scan accepts bytes that are short enough and hold a conforming tree, and no others. -/
theorem scan_ok_iff (hlimits : limits.Nonzero) : scan serde bytes limits shape = .ok () ↔
    bytes.length ≤ limits.maxBytes ∧ ∃ v : Json, serde.read bytes = v.document ∧ Conforms limits shape 1 v := by
  rw [scan_ok_iff_passes hlimits]
  refine and_congr_right fun _ => ?_
  constructor
  · intro h
    obtain ⟨v, hv⟩ := documentVisit_whole h
    rw [hv, documentVisit_passes_iff] at h
    exact ⟨v, hv, h⟩
  · rintro ⟨v, hdocument, hv⟩
    rw [hdocument, documentVisit_passes_iff]
    exact hv

/-! ## Before the decoder -/

/-- A refused task never meets its decoder. -/
theorem parseTaskSpec_of_rejected {error : StrictIngressError} (h : scan serde bytes limits .task = .error error)
    (decode : List UInt8 → Except String StrictTaskInput) :
    parseTaskSpec { serde with taskInput := decode } bytes limits = .error error := by
  have hscan : scan { serde with taskInput := decode } bytes limits .task = .error error := h
  unfold parseTaskSpec
  rw [hscan]
  rfl

/-- A refused configuration never meets its decoder. -/
theorem parseRuntimeConfig_of_rejected {error : StrictIngressError}
    (h : scan serde bytes limits .config = .error error)
    (decode : List UInt8 → Except String StrictRuntimeInput) :
    parseRuntimeConfig { serde with runtimeInput := decode } bytes limits = .error error := by
  have hscan : scan { serde with runtimeInput := decode } bytes limits .config = .error error := h
  unfold parseRuntimeConfig
  rw [hscan]
  rfl

/-- Where the scan has not passed there is an error to report. -/
theorem exists_rejection (h : scan serde bytes limits shape ≠ .ok ()) :
    ∃ error, scan serde bytes limits shape = .error error := by
  cases hscan : scan serde bytes limits shape with
  | ok => exact absurd hscan h
  | error error => exact ⟨error, rfl⟩

/-- What the scan accepts has only known and distinct keys, at any depth. -/
theorem keysKnown_of_scan (hlimits : limits.Nonzero) (h : scan serde bytes limits shape = .ok ()) :
    ∃ v : Json, serde.read bytes = v.document ∧ KeysKnown shape v := by
  obtain ⟨_, v, hread, hv⟩ := (scan_ok_iff hlimits).mp h
  exact ⟨v, hread, hv.keysKnown⟩

/-- The scan succeeds exactly on the conforming documents, whatever the order of keys. What it refuses the
decoder never sees: its answer can only matter for a document whose keys are all known and distinct. -/
theorem strict_ingress (serde : SerdeJson) (hlimits : limits.Nonzero) :
    (∀ bytes shape (v : Json), serde.read bytes = v.document →
      (scan serde bytes limits shape = .ok () ↔ bytes.length ≤ limits.maxBytes ∧ Conforms limits shape 1 v)) ∧
    (∀ v v' : Json, v.Reordered v' → ∀ shape depth,
      Conforms limits shape depth v ↔ Conforms limits shape depth v') ∧
    (∀ bytes error, scan serde bytes limits .task = .error error →
      ∀ decode, parseTaskSpec { serde with taskInput := decode } bytes limits = .error error) ∧
    (∀ bytes error, scan serde bytes limits .config = .error error →
      ∀ decode, parseRuntimeConfig { serde with runtimeInput := decode } bytes limits = .error error) ∧
    (∀ bytes decode decode', parseTaskSpec { serde with taskInput := decode } bytes limits ≠
        parseTaskSpec { serde with taskInput := decode' } bytes limits →
      ∃ v : Json, serde.read bytes = v.document ∧ KeysKnown .task v) ∧
    (∀ bytes decode decode', parseRuntimeConfig { serde with runtimeInput := decode } bytes limits ≠
        parseRuntimeConfig { serde with runtimeInput := decode' } bytes limits →
      ∃ v : Json, serde.read bytes = v.document ∧ KeysKnown .config v) := by
  refine ⟨?_, ?_, fun _ _ h => parseTaskSpec_of_rejected h, fun _ _ h => parseRuntimeConfig_of_rejected h, ?_, ?_⟩
  · intro bytes shape v hread
    rw [scan_ok_iff_passes hlimits, hread, documentVisit_passes_iff]
  · intro v v' h shape depth
    exact ⟨fun hv => hv.reordered h, fun hv' => hv'.reordered h.symm⟩
  · intro bytes decode decode' hdiffer
    by_cases hscan : scan serde bytes limits .task = .ok ()
    · exact keysKnown_of_scan hlimits hscan
    · obtain ⟨error, herror⟩ := exists_rejection hscan
      rw [parseTaskSpec_of_rejected herror, parseTaskSpec_of_rejected herror] at hdiffer
      exact absurd rfl hdiffer
  · intro bytes decode decode' hdiffer
    by_cases hscan : scan serde bytes limits .config = .ok ()
    · exact keysKnown_of_scan hlimits hscan
    · obtain ⟨error, herror⟩ := exists_rejection hscan
      rw [parseRuntimeConfig_of_rejected herror, parseRuntimeConfig_of_rejected herror] at hdiffer
      exact absurd rfl hdiffer

namespace Sample

/-- A stage without parallel work, and one that reduces what its parts return. -/
def stages : List Json :=
  [.object [("class", .string "render"), ("stage", .string "plan"), ("substrate_hint", .string "AsyncIo"),
     ("fan_out", .bool false), ("reduce_policy", .null)],
   .object [("class", .string "render"), ("stage", .string "tiles"), ("substrate_hint", .string "BlockingPool"),
     ("fan_out", .bool true),
     ("reduce_policy", .object [("stable_sort_key", .string "tile"), ("duplicate_merge", .string "KeepFirstStable"),
       ("tie_break", .string "StableInputOrder"), ("error_aggregation", .string "FirstStable"),
       ("partial_result_ordering", .string "StableSortKey")])]]

def child : Json :=
  .object [("parent_operation_id", .string "frame"), ("parent_stage", .string "fan"), ("parent_awaits", .bool true)]

/-- An awaited child of two stages. -/
def taskJson : Json :=
  .object
    [("class", .string "render"), ("operation", .string "tiles"), ("root_operation_id", .string "frame"),
     ("source", .string "internal"), ("reason", .string "ExplicitMapping"), ("scope", .object [("Child", child)]),
     ("stages", .array stages)]

/-- The text of `taskJson`, after the opening brace. -/
def taskText : String :=
  "\"class\":\"render\",\"operation\":\"tiles\",\"root_operation_id\":\"frame\",\"source\":\"internal\"," ++
  "\"reason\":\"ExplicitMapping\",\"scope\":\x7b\"Child\":\x7b\"parent_operation_id\":\"frame\"," ++
  "\"parent_stage\":\"fan\",\"parent_awaits\":true\x7d\x7d,\"stages\":[\x7b\"class\":\"render\"," ++
  "\"stage\":\"plan\",\"substrate_hint\":\"AsyncIo\",\"fan_out\":false,\"reduce_policy\":null\x7d," ++
  "\x7b\"class\":\"render\",\"stage\":\"tiles\",\"substrate_hint\":\"BlockingPool\",\"fan_out\":true," ++
  "\"reduce_policy\":\x7b\"stable_sort_key\":\"tile\",\"duplicate_merge\":\"KeepFirstStable\"," ++
  "\"tie_break\":\"StableInputOrder\",\"error_aggregation\":\"FirstStable\"," ++
  "\"partial_result_ordering\":\"StableSortKey\"\x7d\x7d]\x7d"

def taskBytes : List UInt8 := 123 :: taskText.toList.map fun c => c.val.toUInt8

/-- The reader at `taskBytes`; any other bytes are cut short, and nothing decodes. -/
def serdeJson : SerdeJson where
  read bytes :=
    if bytes = taskBytes then taskJson.document
    else ⟨.broken "EOF while parsing a value", none⟩
  taskInput _ := .error "missing field: operation"
  runtimeInput _ := .error "missing field: topology"

/-- The default limits, with as many bytes as the sample takes and a number of stages. -/
def stageLimits (maxStages : Nat) : StrictIngressLimits := ⟨taskBytes.length, 32, maxStages⟩

theorem taskBytes_fit (maxStages : Nat) : taskBytes.length ≤ (stageLimits maxStages).maxBytes := by
  simp [stageLimits]

theorem stageLimits_nonzero {maxStages : Nat} (h : maxStages ≠ 0) : (stageLimits maxStages).Nonzero := by
  have hbytes : taskBytes ≠ [] := List.cons_ne_nil _ _
  exact ⟨by simpa [stageLimits] using hbytes, by simp [stageLimits], h⟩

/-- The sample conforms where two stages are allowed. -/
theorem taskJson_conforms {maxStages : Nat} (h : 2 ≤ maxStages) : Conforms (stageLimits maxStages) .task 1 taskJson := by
  have hchild : Conforms (stageLimits maxStages) .child 3 child :=
    Fits.conforms (.leaf (by decide) rfl (.leaf (by decide) rfl (.leaf (by decide) rfl .nil))) (by decide)
      (by simp [stageLimits]) (by simp)
  have hscope : Conforms (stageLimits maxStages) .scope 2 (.object [("Child", child)]) :=
    Fits.conforms (.cons rfl hchild .nil) (by decide) (by simp [stageLimits]) (by simp)
  have hstages : Conforms (stageLimits maxStages) .stages 2 (.array stages) := by
    refine .stages (by simp [stageLimits]) h fun v hv => ?_
    rcases List.mem_cons.mp hv with rfl | hv
    · refine Fits.conforms ?_ (by decide) (by simp [stageLimits]) (by simp)
      exact .leaf (by decide) rfl (.leaf (by decide) rfl (.leaf (by decide) rfl (.leaf (by decide) rfl
        (.leaf (by decide) rfl .nil))))
    · obtain rfl := List.mem_singleton.mp hv
      refine Fits.conforms ?_ (by decide) (by simp [stageLimits]) (by simp)
      refine .leaf (by decide) rfl (.leaf (by decide) rfl (.leaf (by decide) rfl (.leaf (by decide) rfl
        (.cons rfl ?_ .nil))))
      refine Fits.conforms ?_ (by decide) (by simp [stageLimits]) (by simp)
      exact .leaf (by decide) rfl (.leaf (by decide) rfl (.leaf (by decide) rfl (.leaf (by decide) rfl
        (.leaf (by decide) rfl .nil))))
  refine Fits.conforms ?_ (by decide) (by simp [stageLimits]) (by simp)
  exact .leaf (by decide) rfl (.leaf (by decide) rfl (.leaf (by decide) rfl (.leaf (by decide) rfl
    (.leaf (by decide) rfl (.cons rfl hscope (.cons rfl hstages .nil))))))

/-- The sample needs room for its two stages. -/
theorem taskJson_of_conforms {maxStages : Nat} (h : Conforms (stageLimits maxStages) .task 1 taskJson) :
    2 ≤ maxStages := by
  obtain ⟨_, _, _, hmembers⟩ := Conforms.object_iff.mp h
  obtain ⟨field, hfield, hstages⟩ := hmembers ("stages", .array stages) (by simp)
  obtain rfl : Shape.stages = field := Option.some.inj (Eq.trans (by decide) hfield)
  cases hstages with
  | leaf h => simp [Json.isLeaf] at h
  | stages _ few _ => exact few

end Sample

/-- The two stages of the sample are accepted where two are allowed, and refused where one is. -/
theorem sample_ingress : scan Sample.serdeJson Sample.taskBytes (Sample.stageLimits 2) .task = .ok () ∧
    scan Sample.serdeJson Sample.taskBytes (Sample.stageLimits 1) .task ≠ .ok () := by
  have hread : Sample.serdeJson.read Sample.taskBytes = Sample.taskJson.document := by
    simp [Sample.serdeJson]
  constructor
  · exact ((strict_ingress Sample.serdeJson (Sample.stageLimits_nonzero (by decide))).1 Sample.taskBytes .task _ hread).mpr
      ⟨Sample.taskBytes_fit 2, Sample.taskJson_conforms (Nat.le_refl 2)⟩
  · intro hscan
    obtain ⟨_, hconforms⟩ :=
      ((strict_ingress Sample.serdeJson (Sample.stageLimits_nonzero (by decide))).1 Sample.taskBytes .task _ hread).mp hscan
    exact absurd (Sample.taskJson_of_conforms hconforms) (by decide)

end Taskmesh
