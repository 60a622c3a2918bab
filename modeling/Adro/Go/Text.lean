import Adro.Go.Basic

/-!
# Text functions

The functions of `strings`, `bufio` and `path/filepath` that read provider
output. Texts are sequences of characters; a byte count is that of their UTF-8
encoding. `lower` is the lower case of one character.
-/

namespace Adro.Go

/-- `strings.ToLower`. -/
def toLower (lower : Char → Char) (s : String) : String := String.ofList (s.toList.map lower)

/-- The replacement of every occurrence of a character by nothing. -/
def removeChar (c : Char) (s : String) : String := String.ofList (s.toList.filter (· != c))

/-- `strings.ReplaceAll` of a pattern of two characters. -/
def replacePair (a b : Char) (new : List Char) : List Char → List Char
  | x :: y :: rest =>
    if x == a && y == b then new ++ replacePair a b new rest
    else x :: replacePair a b new (y :: rest)
  | rest => rest

/-- What follows the last occurrence of a text, as `strings.LastIndex` finds it. -/
def afterLast (sub : List Char) : List Char → Option (List Char)
  | [] => if sub.isEmpty then some [] else none
  | c :: cs =>
    match afterLast sub cs with
    | some rest => some rest
    | none => if sub.isPrefixOf (c :: cs) then some ((c :: cs).drop sub.length) else none

/-- `strings.TrimSuffix`. -/
def trimSuffix (s suffix : List Char) : List Char :=
  if suffix.isSuffixOf s then s.take (s.length - suffix.length) else s

def byteCount (cs : List Char) : Nat := (cs.map Char.utf8Size).sum

/-- The lines a `bufio.Scanner` yields: without their ends, and only up to the
first that does not fit its buffer. -/
def scanLines (limit : Nat) (s : String) : List String :=
  ((s.toList.splitOn '\n').takeWhile fun line => byteCount line < limit).map fun line =>
    String.ofList (if line.getLast? == some '\r' then line.dropLast else line)

/-- `filepath.Base`. -/
def baseName (path : List Char) : List Char :=
  if path.isEmpty then ['.']
  else
    let name := (path.reverse.dropWhile (· == '/')).takeWhile (· != '/')
    if name.isEmpty then ['/'] else name.reverse

/-- `filepath.Ext`. -/
def extension (path : List Char) : List Char :=
  let name := path.reverse.takeWhile (· != '/')
  if name.contains '.' then '.' :: (name.takeWhile (· != '.')).reverse else []

end Adro.Go
