import Taskmesh.Ingress.Shape
import Taskmesh.Serde.Json

/-!
# The streaming scan

The visitor that walks the text of a declaration before anything is decoded (`ingress.rs`). A visit
threads the failure cell; the first error ends the parse, and a rejection in the cell takes precedence
over what the parser itself reports.
-/

namespace Taskmesh

open Serde

/-- A step of the parse over the failure cell. -/
abbrev Visit := Option StrictIngressError → Except String Unit × Option StrictIngressError

namespace Visit

/-- `Ok(())`. -/
def done : Visit := fun failure => (.ok (), failure)

/-- The parser's own error. -/
def fails (error : String) : Visit := fun failure => (.error error, failure)

/-- `ScanState::reject`. -/
def reject (error : StrictIngressError) : Visit := fun _ => (.error "strict ingress rejected", some error)

/-- The `?` operator. -/
def andThen (first next : Visit) : Visit := fun failure =>
  match first failure with
  | (.ok (), failure) => next failure
  | (.error error, failure) => (.error error, failure)

/-- What follows the last element: a closing bracket, or an error. -/
def ends : Option String → Visit
  | none => done
  | some error => fails error

end Visit

mutual

/-- `ScanSeed::deserialize`: the visitor methods, by the kind of value the parser meets. -/
def visit (limits : StrictIngressLimits) (shape : Shape) (depth : Nat) : Text → Visit
  | .null | .bool _ | .number _ | .string _ => .done
  | .broken error => .fails error
  | .object members ends =>
    if depth > limits.maxDepth then .reject (.depthLimit limits.maxDepth)
    else if shape = .scalar ∨ shape = .stages ∨ shape = .substrates then .reject (.invalidShape shape.name)
    else visitMap limits shape depth [] members ends
  | .array elements ends =>
    if depth > limits.maxDepth then .reject (.depthLimit limits.maxDepth)
    else
      match shape with
      | .stages => visitSeq limits .stages .stage depth 0 elements ends
      | .substrates => visitSeq limits .substrates .substrate depth 0 elements ends
      | _ => .reject (.invalidShape shape.name)

/-- The loop of `visit_map`; `seen` holds the keys already inserted. -/
def visitMap (limits : StrictIngressLimits) (shape : Shape) (depth : Nat) (seen : List String) :
    List (String × Text) → Option String → Visit
  | [], ends => .ends ends
  | (key, value) :: rest, ends =>
    if key ∈ seen then .reject (.duplicateKey key)
    else
      match shape.field key with
      | none => .reject (.unknownKey shape.name key)
      | some field =>
        (visit limits field (depth + 1) value).andThen (visitMap limits shape depth (key :: seen) rest ends)

/-- The loop of `visit_seq`. At the limit the seed rejects as soon as the next element begins. -/
def visitSeq (limits : StrictIngressLimits) (shape element : Shape) (depth count : Nat) :
    List Text → Option String → Visit
  | [], ends => .ends ends
  | value :: rest, ends =>
    if shape = .stages ∧ count = limits.maxStages then .reject (.stageLimit limits.maxStages)
    else
      (visit limits element (depth + 1) value).andThen
        (visitSeq limits shape element depth (count + 1) rest ends)

end

end Taskmesh
