import Dataflow.Spec.Basic
import Dataflow.Value.Json

/-!
# Specifications in JSON

A node is an object. The entry named `kind`, or `type`, gives its kind as a text; every other entry
is a property: a scalar is a literal, an object is a subtree, and an array is a list of subtrees. No
other document is a node. Of several properties of one name the last one counts, and all of them
have to be well formed.

Writing puts the kind first and the properties after it in their order.
-/

namespace Dataflow

open Json

/-- Whether an entry of this name gives the kind. -/
def SpecNode.isKindName (name : String) : Bool := name = "kind" || name = "type"

/-- The kind that the entries of an object give: there has to be exactly one entry for it. -/
def SpecNode.kindOfEntries? (entries : List (String × Document)) : Option String :=
  match entries.filter fun e => SpecNode.isKindName e.1 with
  | [(_, .text kind)] => some kind
  | _ => none

mutual

/-- The node an object denotes. -/
def SpecNode.ofDocument? : Document → Option SpecNode
  | .object entries => do
    let kind ← SpecNode.kindOfEntries? entries
    let properties ← SpecNode.propertiesOfEntries? [] entries
    return ⟨kind, properties⟩
  | _ => none

/-- What a document denotes as the value of a property. -/
def Property.ofDocument? : Document → Option Property
  | .object entries => do
    let kind ← SpecNode.kindOfEntries? entries
    let properties ← SpecNode.propertiesOfEntries? [] entries
    return .node ⟨kind, properties⟩
  | .list items => do return .nodes (← SpecNode.nodesOfItems? items)
  | d => do return .literal (← Value.ofDocument? d)

/-- The nodes of an array, if every element is one. -/
def SpecNode.nodesOfItems? : List Document → Option (List SpecNode)
  | [] => some []
  | d :: ds => do
    let n ← SpecNode.ofDocument? d
    let ns ← SpecNode.nodesOfItems? ds
    return n :: ns

/-- Adds the properties of an object's entries, in their order, to those given. -/
def SpecNode.propertiesOfEntries? (seen : List (String × Property)) :
    List (String × Document) → Option (List (String × Property))
  | [] => some seen
  | (name, d) :: rest =>
    if SpecNode.isKindName name then SpecNode.propertiesOfEntries? seen rest
    else do
      let p ← Property.ofDocument? d
      SpecNode.propertiesOfEntries? (Keyed.insert name p seen) rest

end

mutual

/-- The object of a node. -/
def SpecNode.toDocument : SpecNode → Document
  | ⟨kind, properties⟩ =>
    .object (("kind", .text kind) :: SpecNode.documentsOfProperties properties)

/-- The document of a property. -/
def Property.toDocument : Property → Document
  | .node n => n.toDocument
  | .nodes ns => .list (SpecNode.documentsOfNodes ns)
  | .literal v => v.toDocument

/-- The documents of a list of nodes. -/
def SpecNode.documentsOfNodes : List SpecNode → List Document
  | [] => []
  | n :: ns => n.toDocument :: SpecNode.documentsOfNodes ns

/-- The entries of a list of properties. -/
def SpecNode.documentsOfProperties : List (String × Property) → List (String × Document)
  | [] => []
  | (name, p) :: ps => (name, p.toDocument) :: SpecNode.documentsOfProperties ps

end

/-- The JSON text of a node. -/
def SpecNode.toJson (s : SpecNode) : String := s.toDocument.print

/-- The JSON text of a property. -/
def Property.toJson (p : Property) : String := p.toDocument.print

namespace SpecNode

/-- Reads a text. -/
def readText : Reader String := do
  if (← Reader.token) = '"' then Reader.text else Reader.wrongType

/-- Reads an entry of the outermost object. The kind is judged where it stands; a property is read
whole and judged at the end. -/
def readEntry (seen : Option String × List (String × Document)) (name : String) :
    Reader (Option String × List (String × Document)) := do
  if isKindName name then
    if seen.1.isSome then Reader.refuse (.duplicateField "kind")
    Reader.colon
    return (some (← readText), seen.2)
  else
    Reader.colon
    return (seen.1, (name, ← Reader.document 1) :: seen.2)

/-- Reads a node. -/
def reader : Reader SpecNode := do
  if (← Reader.token) = '{' then
    Reader.skip
    let (kind?, entries) ← Reader.entries readEntry (← Reader.bound) true (none, [])
    match kind? with
    | none => Reader.refuse (.missingField "kind")
    | some kind =>
      match propertiesOfEntries? [] entries.reverse with
      | none => Reader.refuse (.noAlternative "Property")
      | some properties =>
        Reader.close '}'
        return ⟨kind, properties⟩
  else Reader.wrongType

/-- The node a JSON text denotes. -/
def ofJson (s : String) : Except ReadError SpecNode := reader.run s

end SpecNode

end Dataflow
