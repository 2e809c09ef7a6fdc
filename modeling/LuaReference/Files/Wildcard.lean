import LuaReference.Text.Basic

set_option autoImplicit false

/-! # Wildcards in names

In a name pattern a star stands for any run of characters, a question mark for any character
and a bracket for one character of a set, or of its complement behind an exclamation mark. A
bracket that is not closed stands for itself.
-/

namespace LuaReference

/-- One part of a name pattern. -/
inductive Wildcard where
  | anyRun
  | anyChar
  /-- A character in one of the ranges or, if `negated`, in none of them. -/
  | oneOf (negated : Bool) (ranges : List (Char × Char))
  | char (c : Char)
deriving DecidableEq

namespace Wildcard

/-! ## Sets in brackets -/

/-- The parts of a set between the hyphens that make ranges. A hyphen makes a range where
`least` characters stand in front of it in its part and another character behind it. -/
def rangeParts (least : Nat) : Text → List Text
  | [] => [[]]
  | c :: rest =>
      if c = '-' && least = 0 && !rest.isEmpty then [] :: rangeParts 2 rest
      else match rangeParts (least - 1) rest with
        | [] => [[c]]
        | part :: more => (c :: part) :: more

/-- The parts of a set without the ranges that run downwards; their ends belong to the set no
longer. -/
def dropEmptyRanges : List Text → List Text
  | [] => []
  | part :: rest =>
      match dropEmptyRanges rest with
      | [] => [part]
      | next :: more =>
          match part.getLast?, next.head? with
          | some low, some high =>
              if high.toNat < low.toNat then (part.dropLast ++ next.tail) :: more
              else part :: next :: more
          | _, _ => part :: next :: more

/-- The ranges that the hyphens between the parts of a set make; a hyphen with nothing in front
of it is a member of the set. -/
def rangesBetween : List Text → List (Char × Char)
  | [] => []
  | part :: rest =>
      (match rest with
        | [] => []
        | next :: _ =>
            match part.getLast?, next.head? with
            | some low, some high => [(low, high)]
            | _, _ => [('-', '-')]) ++ rangesBetween rest

/-- The set that the text between two brackets describes. -/
def ofSet (text : Text) : Wildcard :=
  let least := if text.head? = some '!' then 2 else 1
  let parts := dropEmptyRanges (rangeParts least text)
  let (negated, parts) := match parts with
    | ('!' :: part) :: more => (true, part :: more)
    | parts => (false, parts)
  .oneOf negated (parts.flatten.map (fun c => (c, c)) ++ rangesBetween parts)

/-- How many characters at the start of a text belong to a set although they may be closing
brackets: an exclamation mark and a closing bracket. -/
def setStart : Text → Nat
  | '!' :: ']' :: _ => 2
  | '!' :: _ => 1
  | ']' :: _ => 1
  | _ => 0

/-- The text of the set behind an opening bracket, if the bracket is closed. -/
def setText? (text : Text) : Option Text :=
  let first := setStart text
  let inside := (text.drop first).takeWhile (· ≠ ']')
  if first + inside.length < text.length then some (text.take (first + inside.length)) else none

/-! ## Patterns -/

/-- The parts of a name pattern. -/
def ofPattern (pattern : Text) : List Wildcard :=
  match pattern with
  | [] => []
  | '*' :: rest => .anyRun :: ofPattern rest
  | '?' :: rest => .anyChar :: ofPattern rest
  | '[' :: rest =>
      match setText? rest with
      | some set => ofSet set :: ofPattern (rest.drop (set.length + 1))
      | none => .char '[' :: ofPattern rest
  | c :: rest => .char c :: ofPattern rest
termination_by pattern.length
decreasing_by all_goals simp only [List.length_drop, List.length_cons]; omega

/-- Whether a single character fits. -/
def fits (c : Char) : Wildcard → Bool
  | .anyRun | .anyChar => true
  | .oneOf negated ranges =>
      (ranges.any fun (low, high) => low.toNat ≤ c.toNat && c.toNat ≤ high.toNat) != negated
  | .char d => c == d

/-- For each place of a list, whether something from there on is true. -/
def anyFrom : List Bool → List Bool
  | [] => []
  | holds :: rest => (holds || rest.any id) :: anyFrom rest

/-- For a name and each of its tails down to the empty one, whether the parts of a pattern cover
all of it. -/
def coverage : List Wildcard → Text → List Bool
  | [], name => name.map (fun _ => false) ++ [true]
  | .anyRun :: rest, name => anyFrom (coverage rest name)
  | part :: rest, name =>
      List.zipWith (fun c covered => part.fits c && covered) name (coverage rest name).tail ++
        [false]

/-- Whether the parts of a pattern cover all of a name. -/
def covers (parts : List Wildcard) (name : Text) : Bool := (coverage parts name).headD false

/-- Whether a name fits a pattern. -/
def isMatch (pattern name : Text) : Bool := covers (ofPattern pattern) name

end Wildcard

end LuaReference
