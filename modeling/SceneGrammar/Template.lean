/-
Templates: descriptions of terminal content, and libraries of them by id.

A template is a tree; its parts stand at their own offsets under each copy of it. A library keeps its templates in the
order in which their ids were first registered.
-/
import SceneGrammar.Spatial

namespace SceneGrammar

/-- terminal content: a name, sub-templates and an offset from what carries it -/
structure Template (α : Type) where
  id : String
  name : String
  parts : List (Template α)
  offset : Vector3 α
  tags : List String

namespace Template

variable {α : Type}

/-- a copy is named for the template, or for its id if it has no name -/
def displayName (t : Template α) : String := if t.name = "" then t.id else t.name

/-- a template without parts, offset or tags -/
def plain [Scalar α] (id name : String) : Template α := ⟨id, name, [], .origin, []⟩

end Template

/-- templates by id, in the order of first registration -/
structure TemplateLibrary (α : Type) where
  entries : List (Template α)

namespace TemplateLibrary

variable {α : Type}

/-- a library that holds nothing -/
def empty : TemplateLibrary α := ⟨[]⟩

/-- the template registered under an id -/
def find? (l : TemplateLibrary α) (id : String) : Option (Template α) := l.entries.find? (·.id == id)

/-- whether an id is registered -/
def contains (l : TemplateLibrary α) (id : String) : Bool := l.entries.any (·.id == id)

/-- put a template under its id, in place of one already there -/
def register (l : TemplateLibrary α) (t : Template α) : TemplateLibrary α :=
  if l.contains t.id then ⟨l.entries.map fun u => if u.id == t.id then t else u⟩
  else ⟨l.entries ++ [t]⟩

/-- the library of a list, later templates replacing earlier ones of the same id -/
def ofList (ts : List (Template α)) : TemplateLibrary α := ts.foldl register empty

/-- register every template of another library -/
def merge (l m : TemplateLibrary α) : TemplateLibrary α := m.entries.foldl register l

/-- the number of ids -/
def size (l : TemplateLibrary α) : Nat := l.entries.length

/-- the ids in the order of first registration -/
def order (l : TemplateLibrary α) : List String := l.entries.map (·.id)

/-- the ids in alphabetical order -/
def ids (l : TemplateLibrary α) : List String := l.order.mergeSort (fun a b => decide (a ≤ b))

end TemplateLibrary

end SceneGrammar
