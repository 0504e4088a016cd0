import StageVars.Files.Extension
/-!
# StageVars.Reference -- references to files in a document

A value `${file(PATH)}` or `${file(PATH):NAME}` stands for the contents of a file. The
grammar is ambiguous, since a path may hold almost any character: the longest path is
taken that leaves a valid rest, then the longest directory that leaves a name. No line
feed may occur.
-/

namespace StageVars

/-- A reference taken apart. -/
structure Reference where
  path : String
  /-- The path up to and with the slash before the file name. -/
  directory : Option String
  /-- The file name with its extension. -/
  baseName : String
  /-- The file name without its extension. -/
  stem : String
  extension : Extension
  /-- What follows the colon. -/
  member : Option String
deriving DecidableEq, Repr

namespace Reference

/-- What stands before the path. -/
def opening : List Char := "$\x7bfile(".toList

/-- What follows `lead`, if a text starts with it. -/
def stripLead? (lead : List Char) : List Char → Option (List Char)
  | cs =>
    match lead with
    | [] => some cs
    | l :: lead =>
      match cs with
      | [] => none
      | c :: cs => if l = c then stripLead? lead cs else none

/-- The member part that a text is: nothing, or a colon and any text, each before the
closing brace at the end. -/
def member? (cs : List Char) : Option (Option (List Char)) :=
  match cs.reverse with
  | '\x7d' :: body =>
    match body.reverse with
    | [] => some none
    | ':' :: name => some (some name)
    | _ => none
  | _ => none

/-- The extension that a path ends with, behind a name of at least one character. The
path is given reversed; so is the name that comes back. -/
def splitExtension? (reversedPath : List Char) : Option (List Char × Extension) :=
  Extension.all.findSome? fun e =>
    match stripLead? ('.' :: e.name.toList).reverse reversedPath with
    | some (c :: name) => some (c :: name, e)
    | _ => none

/-- The last way to cut a text behind `seen` (reversed) into a path, a closing
parenthesis and a member part: the path reversed without its extension, the
extension, and the member. -/
def lastCut? (seen : List Char) : List Char → Option (List Char × Extension × Option (List Char))
  | [] => none
  | c :: rest =>
    match lastCut? (c :: seen) rest with
    | some cut => some cut
    | none =>
      if c = ')' then do
        let (name, e) ← splitExtension? seen
        return (name, e, ← member? rest)
      else none

/-- Cut a name behind its last slash that is not its first character and has something
behind it: the reversed name comes in, and the directory and the file name go out. -/
def cutDirectory (fileName : List Char) : List Char → Option (List Char) × List Char
  | [] => (none, fileName)
  | c :: rest =>
    if c = '/' ∧ !rest.isEmpty ∧ !fileName.isEmpty then (some (c :: rest).reverse, fileName)
    else cutDirectory (c :: fileName) rest

/-- The reference that a text is. -/
def parse? (s : String) : Option Reference := do
  let cs := s.toList
  if cs.contains '\n' then none
  let (reversedName, e, member) ← lastCut? [] (← stripLead? opening cs)
  let (directory, fileName) := cutDirectory [] reversedName
  let suffix := '.' :: e.name.toList
  return {
    path := String.ofList (reversedName.reverse ++ suffix)
    directory := directory.map String.ofList
    baseName := String.ofList (fileName ++ suffix)
    stem := String.ofList fileName
    extension := e
    member := member.map String.ofList }

/-- The reference that a value is; only strings are references. -/
def ofValue? : Value → Option Reference
  | .string s => parse? s
  | _ => none

/-- The path of the file that belongs to a stage: the stage stands before the
extension. -/
def sibling (r : Reference) (stage : String) : String :=
  r.directory.getD "" ++ r.stem ++ "." ++ stage ++ "." ++ r.extension.name

end Reference

end StageVars
