import LuaReference.Files.Path
import LuaReference.Text.Hexadecimal
import LuaReference.Text.Utf8

set_option autoImplicit false

/-! # Targets of requests

The target of a request is an address or a part of one. Of it only the path counts, from which
single and double dots are taken out and in which escaped characters are replaced by the
characters they stand for, once for the address and once for the path itself.
-/

namespace LuaReference.Service

/-- The character at the first place where one of ASCII that is not printable stands, and how
many characters stand in front of it. -/
def findControl? : Text → Option (Char × Nat)
  | [] => none
  | c :: rest =>
      if c.toNat < 0x20 || c.toNat = 0x7F then some (c, 0)
      else (findControl? rest).map fun (c, n) => (c, n + 1)

/-- An address without its scheme, if it names one. -/
def dropScheme (address : Text) : Option Text :=
  let isSchemeChar (c : Char) : Bool := c.isAlphanum || ['+', '-', '.'].contains c
  match address.takeWhile isSchemeChar, address.dropWhile isSchemeChar with
  | c :: _, ':' :: rest => if c.isAlpha then some rest else none
  | _, _ => none

/-- An address without its host, if it names one. -/
def dropHost : Text → Option Text
  | '/' :: '/' :: rest => some (rest.dropWhile (· ≠ '/'))
  | _ => none

/-- A path without the components that are single dots, and without each double dot and the
component in front of it. -/
def dropDots (path : Text) : Text :=
  Text.join ['/'] ((Text.splitAtEach '/' path).foldl
    (fun kept component =>
      if component = ['.'] then kept
      else if component = ['.', '.'] then if kept = [[]] then kept else kept.dropLast
      else kept ++ [component])
    [])

/-- The path of an address. One that names both a scheme and a host gives all of its path;
the path of any other begins with a single slash. -/
def addressPath (target : Text) : Text :=
  let address := (target.takeWhile (· ≠ '#')).takeWhile (· ≠ '?')
  let local? := dropScheme address
  let rest := local?.getD address
  match local?, dropHost rest with
  | some _, some path => dropDots path
  | _, path => dropDots ('/' :: (path.getD rest).dropWhile (· = '/'))

/-- The bytes of a path with escaped ones replaced. -/
def unescapeBytes : Text → List UInt8
  | [] => []
  | '%' :: a :: b :: rest =>
      match hexValue? a, hexValue? b with
      | some high, some low => UInt8.ofNat (16 * high + low) :: unescapeBytes rest
      | _, _ => Text.toUtf8 ['%'] ++ unescapeBytes (a :: b :: rest)
  | c :: rest => Text.toUtf8 [c] ++ unescapeBytes rest

/-- A path with escaped characters replaced; bytes that spell no text leave no path behind. -/
def unescape (path : Text) : Text := (Text.ofUtf8? (unescapeBytes path)).getD []

/-- The path that a target asks for. -/
def targetPath (target : Text) : Text := unescape (unescape (addressPath target))

end LuaReference.Service
