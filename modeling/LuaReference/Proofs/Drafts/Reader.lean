import LuaReference.Project.Sources
import LuaReference.Proofs.Drafts.Registry
import LuaReference.Proofs.Drafts.Table

set_option autoImplicit false

/-! # Reading with checks

A reader that can fail. Of a line it knows the groups of the rule that fits, each of which may have
caught nothing; it collects drafts and builds a value wherever one is needed; it asks for the text
behind a brace; and each of these stops the reading if it goes wrong. Otherwise it reads as the
plain reader does.
-/

namespace LuaReference

/-- The state between two lines of a source, in drafts. -/
structure ReaderDraft where
  registry : RegistryDraft := {}
  pending : List Text := []
  table : Option (Option Text × EnumTable) := none
deriving DecidableEq

namespace Declaration

/-- The group of the assignment on a line: the path that is assigned to. -/
def targetGroups? (line : Text) : Option Groups :=
  (target? line).map fun path => [some (dotted path)]

end Declaration

namespace ReaderDraft

/-! ## What a block documents -/

/-- The registry with the class that a block declares, if it declares one. -/
def commitClass (registry : RegistryDraft) (block : BlockDraft) : Except Mishap RegistryDraft :=
  match block.classDecl with
  | none => return registry
  | some decl => do
      let fields ← built (block.fields.mapM FieldDraft.build)
      return (registry.describe decl.name block.description).addClassFields decl.name fields

/-- The registry with the static field that a type declaration and an assignment make. -/
def commitField (registry : RegistryDraft) (decl : FieldDraft) (line : Text) :
    Except Mishap RegistryDraft :=
  if Declaration.isLocal line then return registry
  else match Declaration.targetGroups? line with
    | none => return registry
    | some groups => do
        let field (name : Text) : FieldDraft :=
          ⟨some name, decl.type, true, decl.description⟩
        let target ← caught groups 1
        if registry.isHidden target then return registry
        else match Text.splitAtEach '.' target with
          | [owner, name] =>
              if registry.isHidden owner then return registry
              else return registry.addClassFields (some owner) [← built (field name).build]
          | [_] => return registry.addField (← built (field target).build)
          | _ => return registry

/-- The parameter of that name as the block documents it, of any type without an entry. -/
def paramDraft (block : BlockDraft) (name : Text) : ParamDraft :=
  (block.params.find? (·.name = some name)).getD { name := some name, type := some anyType }

/-- The returned values of a function: those that the block documents, or else one of any type if
`returnsValue`. -/
def returnDrafts (block : BlockDraft) (returnsValue : Bool) : List ReturnDraft :=
  match block.returns with
  | [] => if returnsValue then [{ type := some anyType }] else []
  | returns => returns

/-- The function that a header and the block in front of it document. -/
def functionOutline (block : BlockDraft) (header : Groups) (returnsValue : Bool) :
    FunctionOutline where
  name := group header 3
  isStatic := !block.nonStatic && (group header 2).all (· = ['.'])
  description := block.description
  params := (Declaration.paramNames ((group header 4).getD [])).map (paramDraft block)
  returns := returnDrafts block returnsValue

/-- Whether a function belongs to a table that is a hidden local. -/
def isHiddenOwner (registry : RegistryDraft) (owner : Option Text) : Bool :=
  owner.any fun owner => registry.isHidden ((Text.splitAtEach '.' owner).headD [])

/-- Adds a function to the class that owns it, or else to the namespace, where it is built later. -/
def addFunction (registry : RegistryDraft) (owner : Option Text) (function : FunctionDraft) :
    Except Mishap RegistryDraft :=
  match owner with
  | none => return registry.addFunction function
  | some owner => return registry.addClassFunction (some owner) (← built function.build)

/-- The registry with the function declared on a line of code, `rest` being the lines that
follow. -/
def commitFunction (registry : RegistryDraft) (block : BlockDraft) (line : Text)
    (rest : List Text) : Except Mishap RegistryDraft :=
  if Declaration.isLocal line then return registry
  else match Declaration.headerGroups? line with
    | none => return registry
    | some header =>
        if isHiddenOwner registry (group header 1) then return registry
        else do
          let outline := functionOutline block header (Returns.afterLine line rest)
          addFunction registry (group header 1) (← built outline.draft)

/-! ## Lines -/

/-- The registry with the name that a local declaration assigns to. -/
def recordLocal (registry : RegistryDraft) (line : Text) : Except Mishap RegistryDraft :=
  if Declaration.isLocal line then
    match Declaration.targetGroups? line with
    | some groups => return registry.addLocal (← caught groups 1)
    | none => return registry
  else return registry

/-- Begins the table of an enum on a line of code. -/
def startTable (registry : RegistryDraft) (name : Option Text) (line : Text) :
    Except Mishap ReaderDraft := do
  let progress ← EnumTable.checkedStart line
  return {
    registry := registry.addClassFields name progress.values
    table := progress.next.map (name, ·) }

/-- Reads on in the table of an enum. -/
def tableLine (reader : ReaderDraft) (name : Option Text) (table : EnumTable) (line : Text) :
    Except Mishap ReaderDraft := do
  let progress ← table.checkedStep line
  return { reader with
    registry := reader.registry.addClassFields name progress.values
    table := progress.next.map (name, ·) }

/-- Closes the pending block with a trimmed line of code, `rest` being the lines that follow. -/
def codeLine (registry : RegistryDraft) (pending : List Text) (line : Text) (rest : List Text) :
    Except Mishap ReaderDraft :=
  let block := BlockDraft.ofLines pending
  match block.classDecl, block.typeDecl with
  | some decl, _ => do
      let registry ← commitClass registry block
      if decl.isEnum then startTable registry decl.name line else return { registry }
  | none, some decl => return { registry := ← commitField registry decl line }
  | none, none => return { registry := ← commitFunction registry block line rest }

/-- Reads a line outside of enum tables. -/
def plainLine (reader : ReaderDraft) (line : Text) (rest : List Text) :
    Except Mishap ReaderDraft := do
  let line := Text.trim line
  let registry ← recordLocal reader.registry line
  if Tag.isDocComment line then return { registry, pending := reader.pending ++ [line] }
  else if line.isEmpty then
    return { registry := ← commitClass registry (BlockDraft.ofLines reader.pending) }
  else if commentMarker.isPrefixOf line then return { registry, pending := reader.pending }
  else codeLine registry reader.pending line rest

/-- Reads one more line, `rest` being the lines that follow. -/
def step (reader : ReaderDraft) (line : Text) (rest : List Text) : Except Mishap ReaderDraft :=
  match reader.table with
  | some (name, table) => tableLine reader name table line
  | none => plainLine reader line rest

/-- Reads lines up to the end. -/
def run (reader : ReaderDraft) : List Text → Except Mishap ReaderDraft
  | [] => return reader
  | line :: rest => do run (← step reader line rest) rest

end ReaderDraft

/-! ## Whole sources -/

/-- The documentation of a source, as one namespace of that name. -/
def checkedParse (code : Text) (namespaceName : Text) : Except Mishap Doc := do
  let reader ← ReaderDraft.run {} (Text.lines code)
  built (reader.registry.flatten namespaceName)

/-- The documentation of the namespace with that name from its sources. -/
def checkedSources (name : Text) (sources : List Text) : Except Mishap NamespaceDoc := do
  return mergeDocs name (← sources.mapM (checkedParse · name))

/-- The documentation of namespaces from their names and sources. -/
def checkedNamespaces (namespaces : List (Text × List Text)) : Except Mishap Doc := do
  return ⟨← namespaces.mapM fun (name, sources) => checkedSources name sources⟩

end LuaReference
