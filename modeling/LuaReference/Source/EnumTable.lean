import LuaReference.Source.Declaration
import LuaReference.Tag.Block

set_option autoImplicit false

/-! # Enum tables

The values of an enum are the entries of the table assigned behind its comment block. The table
is read line by line from its first opening brace to the brace that closes it. Braces are
counted per line, so that an entry may be a table itself and go on over several lines; only a
line that begins outside of such an entry can name a value. A type comment in front of an entry
gives the type of the value.
-/

namespace LuaReference

/-- The type of whatever has no documented type. -/
def anyType : Text := "any".toList

/-- A place inside of an enum table. -/
structure EnumTable where
  /-- How many braces are open inside of the table, or `none` in front of its own brace. -/
  depth : Option Nat := none
  /-- The type comments that wait for an entry. -/
  types : List Text := []
deriving DecidableEq

namespace EnumTable

/-- What one more line does to a table: the values it adds, and the place behind it, or `none`
when the table ends with the line. -/
structure Progress where
  values : List FieldDoc := []
  next : Option EnumTable
deriving DecidableEq

/-- The name of the entry on a line: its code is cut at the first comma, and the first word in
front of an equals sign is the name. -/
def entryName? (line : Text) : Option Text :=
  (search Declaration.entry? (Code.ofLine (Text.cutAt [','] line))).map Found.value

/-- The value of an entry with the type comments in front of it. -/
def value (name : Text) (types : List Text) : FieldDoc :=
  match (Block.ofLines types).typeDecl with
  | none => FieldDoc.finish ⟨name, anyType, false, none⟩
  | some decl => FieldDoc.finish ⟨name, decl.type, false, decl.description⟩

/-- The place `depth` braces deep, which is behind the table if `depth` is negative. -/
def atDepth (depth : Int) (types : List Text) : Option EnumTable :=
  if 0 ≤ depth then some ⟨some depth.toNat, types⟩ else none

/-- Reads a line of code that begins `depth` braces deep. Only at depth zero it can name a
value, which uses up the type comments. -/
def codeLine (depth : Nat) (types : List Text) (line : Text) : Progress :=
  let after := depth + Code.braceBalance line
  match if depth = 0 then entryName? line else none with
  | none => ⟨[], atDepth after types⟩
  | some name => ⟨[value name types], atDepth after []⟩

/-- Reads a line in front of the table: behind its first opening brace the table begins. -/
def openingLine? (types : List Text) (line : Text) : Option Progress :=
  (Code.afterBrace? line).map fun body =>
    if body.isEmpty || commentMarker.isPrefixOf body then ⟨[], some ⟨some 0, types⟩⟩
    else codeLine 0 types body

/-- The mark of a type comment. -/
def typeMarker : Text := "---@type".toList

/-- Whether a trimmed line begins with a closing brace. -/
def startsWithClose (line : Text) : Bool := line.head? = some '\x7d'

/-- Reads one more line. -/
def step (table : EnumTable) (line : Text) : Progress :=
  let line := Text.trim line
  match table.depth with
  | none =>
      match openingLine? table.types line with
      | some progress => progress
      | none => ⟨[], if startsWithClose line then none else some table⟩
  | some depth =>
      if depth = 0 && startsWithClose line then ⟨[], none⟩
      else if typeMarker.isPrefixOf line then
        ⟨[], some { table with types := if depth = 0 then table.types ++ [line] else table.types }⟩
      else if commentMarker.isPrefixOf line || line.isEmpty then ⟨[], some table⟩
      else codeLine depth table.types line

/-- Reads the code line behind the comment block of an enum; a line without an opening brace
leaves the table still to come. -/
def start (line : Text) : Progress := (openingLine? [] line).getD ⟨[], some {}⟩

/-- Reads on to the end of the table: the values found, and the lines behind the table. -/
def readFrom (table : EnumTable) : List Text → List FieldDoc × List Text
  | [] => ([], [])
  | line :: rest =>
      let progress := step table line
      match progress.next with
      | none => (progress.values, rest)
      | some table =>
          let (values, rest) := readFrom table rest
          (progress.values ++ values, rest)

/-- Reads the whole table that begins on the line `first` or on one of the lines behind it: its
values, and the lines behind the table. -/
def read (first : Text) (lines : List Text) : List FieldDoc × List Text :=
  let progress := start first
  match progress.next with
  | none => (progress.values, lines)
  | some table =>
      let (values, rest) := readFrom table lines
      (progress.values ++ values, rest)

end EnumTable

end LuaReference
