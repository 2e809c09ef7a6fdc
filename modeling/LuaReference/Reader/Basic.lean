import LuaReference.Registry.Basic
import LuaReference.Source.EnumTable
import LuaReference.Source.Returns
import LuaReference.Text.Lines

set_option autoImplicit false

/-! # Reading a source

A source is read line by line, each line once. Documentation comments gather in a pending block
until a line of code or a blank line closes it; the block together with that line decides what
is documented. The table of an enum is read line by line as well, as a mode of the reader. Only
the question whether a function returns a value looks at lines further down, without reading
them.
-/

namespace LuaReference

/-- The state between two lines of a source. -/
structure Reader where
  registry : Registry := {}
  /-- The trimmed documentation comments that no line has closed yet. -/
  pending : List Text := []
  /-- The enum whose table is being read, and the place inside of it. -/
  table : Option (Text × EnumTable) := none
deriving DecidableEq

namespace Reader

/-! ## What a block documents -/

/-- The registry with the class that a block declares, if it declares one. -/
def commitClass (registry : Registry) (block : Block) : Registry :=
  match block.classDecl with
  | none => registry
  | some decl =>
      (registry.describe decl.name block.description).addClassFields decl.name
        (block.fields.map FieldDoc.finish)

/-- The registry with the static field that a type declaration and an assignment make: a field
of a class for a path of two words, a field of the namespace for a single word. -/
def commitField (registry : Registry) (decl : TypeDecl) (line : Text) : Registry :=
  if Declaration.isLocal line then registry
  else
    let field (name : Text) : FieldDoc := FieldDoc.finish ⟨name, decl.type, true, decl.description⟩
    match Declaration.target? line with
    | some [name] => if registry.isHidden name then registry else registry.addField (field name)
    | some [owner, name] =>
        if registry.isHidden (dotted [owner, name]) || registry.isHidden owner then registry
        else registry.addClassFields owner [field name]
    | _ => registry

/-- The parameter of that name as the block documents it, of any type without an entry. -/
def paramDoc (block : Block) (name : Text) : ParamDoc :=
  ((block.findParam? name).getD ⟨name, anyType, none⟩).finish

/-- The function that a header and the block in front of it document. A colon in the header or
a mark in the block makes it a method. Without an entry on returned values it returns one of
any type if `returnsValue`. -/
def functionDoc (block : Block) (header : FunctionHeader) (returnsValue : Bool) : FunctionDoc :=
  FunctionDoc.finish {
    name := header.name
    isStatic := !block.nonStatic && header.owner.all (·.separator = .dot)
    description := block.description
    params := (Declaration.paramNames header.params).map (paramDoc block)
    returns :=
      match block.returns with
      | [] => if returnsValue then [ReturnEntry.finish ⟨anyType, none, none⟩] else []
      | returns => returns.map ReturnEntry.finish }

/-- Adds a function to the class that owns it, or else to the namespace. -/
def addFunction (registry : Registry) (owner : Option Owner) (function : FunctionDoc) :
    Registry :=
  match owner with
  | none => registry.addFunction function.draft
  | some owner => registry.addClassFunction (dotted owner.path) function

/-- Whether a function belongs to a table that is a hidden local. -/
def isHiddenOwner (registry : Registry) (owner : Option Owner) : Bool :=
  owner.any fun owner => registry.isHidden (owner.path.headD [])

/-- The registry with the function declared on a line of code, `rest` being the lines that
follow. -/
def commitFunction (registry : Registry) (block : Block) (line : Text) (rest : List Text) :
    Registry :=
  if Declaration.isLocal line then registry
  else match Declaration.headerOf? line with
    | none => registry
    | some header =>
        if isHiddenOwner registry header.owner then registry
        else addFunction registry header.owner
          (functionDoc block header (Returns.afterLine line rest))

/-! ## Lines -/

/-- The registry with the name that a local declaration assigns to. -/
def recordLocal (registry : Registry) (line : Text) : Registry :=
  if Declaration.isLocal line then
    match Declaration.target? line with
    | some path => registry.addLocal (dotted path)
    | none => registry
  else registry

/-- Begins the table of an enum on a line of code. -/
def startTable (registry : Registry) (name : Text) (line : Text) : Reader :=
  let progress := EnumTable.start line
  { registry := registry.addClassFields name progress.values
    table := progress.next.map (name, ·) }

/-- Reads on in the table of an enum. -/
def tableLine (reader : Reader) (name : Text) (table : EnumTable) (line : Text) : Reader :=
  let progress := table.step line
  { reader with
    registry := reader.registry.addClassFields name progress.values
    table := progress.next.map (name, ·) }

/-- Documents what a block and the trimmed line of code behind it declare, `rest` being the lines
that follow. -/
def commitBlock (registry : Registry) (block : Block) (line : Text) (rest : List Text) : Reader :=
  match block.classDecl, block.typeDecl with
  | some decl, _ =>
      let registry := commitClass registry block
      if decl.isEnum then startTable registry decl.name line else { registry }
  | none, some decl => { registry := commitField registry decl line }
  | none, none => { registry := commitFunction registry block line rest }

/-- Closes the pending block with a trimmed line of code, `rest` being the lines that follow. -/
def codeLine (registry : Registry) (pending : List Text) (line : Text) (rest : List Text) :
    Reader :=
  commitBlock registry (Block.ofLines pending) line rest

/-- Reads a line outside of enum tables. -/
def plainLine (reader : Reader) (line : Text) (rest : List Text) : Reader :=
  let line := Text.trim line
  let registry := recordLocal reader.registry line
  if Tag.isDocComment line then
    { registry, pending := reader.pending ++ [line] }
  else if line.isEmpty then { registry := commitClass registry (Block.ofLines reader.pending) }
  else if commentMarker.isPrefixOf line then { registry, pending := reader.pending }
  else codeLine registry reader.pending line rest

/-- Reads one more line, `rest` being the lines that follow. -/
def step (reader : Reader) (line : Text) (rest : List Text) : Reader :=
  match reader.table with
  | some (name, table) => tableLine reader name table line
  | none => plainLine reader line rest

/-- Reads lines up to the end. -/
def run (reader : Reader) : List Text → Reader
  | [] => reader
  | line :: rest => run (step reader line rest) rest

end Reader

/-! ## Whole sources -/

/-- The namespace of a source that names none. -/
def defaultNamespace : Text := "global".toList

/-- The documentation of a source, as one namespace of that name. -/
def parse (code : Text) (namespaceName : Text) : Except DraftError Doc :=
  (Reader.run {} (Text.lines code)).registry.flatten namespaceName

end LuaReference
