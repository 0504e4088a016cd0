/-!
# StageVars.Files.Directory -- files, directories and paths to them

The files and directories of a machine are listed by the ways that lead to them from the
root; what lies on the way to one of them is a directory too. A path is followed component
by component, from the root if it starts with a slash and from the working directory
otherwise. Each step is from a directory: an empty component and `.` stay, `..` goes up, a
name goes down. Links and permissions are left out.
-/

namespace StageVars

/-- A way down from the root, by names. -/
abbrev Route := List String

/-- What lies under a route. The content of a file that is no text is `none`. -/
inductive Entry where
  | file (content : Option String)
  | directory
deriving DecidableEq, Repr

/-- The root directory with all that is below it, as seen from a directory in it. -/
structure Directory where
  entries : List (Route × Entry)
  /-- The working directory, where paths start that do not start at the root. -/
  here : Route
deriving Repr

/-- Why a path cannot be followed or written. -/
inductive PathFault where
  | missing
  | notDirectory
  | isDirectory
  | nameTooLong
deriving DecidableEq, Repr

/-- The system's words for a fault. -/
def PathFault.message : PathFault → String
  | .missing => "No such file or directory (os error 2)"
  | .notDirectory => "Not a directory (os error 20)"
  | .isDirectory => "Is a directory (os error 21)"
  | .nameTooLong => "File name too long (os error 36)"

namespace Path

/-- The components of a path. -/
def components (path : String) : List String := (path.toList.splitOn '/').map String.ofList

/-- Whether a path starts at the root of the file system. -/
def isAbsolute (path : String) : Bool := path.startsWith "/"

/-- A path as seen from another directory. -/
def join (root path : String) : String :=
  if isAbsolute path then path
  else if root.isEmpty || root.endsWith "/" then root ++ path
  else root ++ "/" ++ path

/-- The longest name of a file or directory, in octets. -/
def maxName : Nat := 255

/-- The longest path, in octets. -/
def maxPath : Nat := 4095

/-- Whether no file can have a path because of its length or characters. -/
def isUnusable (path : String) : Bool :=
  path.isEmpty || path.utf8ByteSize > maxPath || path.toList.contains '\x00'

end Path

namespace Directory

/-- What lies under a route, if it is listed. -/
def listed? (d : Directory) (route : Route) : Option Entry := d.entries.lookup route

/-- Whether a directory lies under a route. -/
def isDirectory (d : Directory) (route : Route) : Bool :=
  route.isEmpty || d.listed? route == some .directory
    || d.entries.any fun (r, _) => route.length < r.length && route.isPrefixOf r

/-- What lies under a route. -/
def find? (d : Directory) (route : Route) : Option Entry :=
  if d.isDirectory route then some .directory else d.listed? route

/-- List an entry, in its place if its route is listed. -/
def insert (d : Directory) (route : Route) (e : Entry) : Directory :=
  if (d.listed? route).isSome then
    { d with entries := d.entries.map fun (r, old) => (r, if r = route then e else old) }
  else { d with entries := d.entries ++ [(route, e)] }

/-! ## Following paths -/

/-- One step of a path. -/
def step (d : Directory) (route : Route) (component : String) : Except PathFault Route :=
  if !d.isDirectory route then
    .error (if (d.listed? route).isSome then .notDirectory else .missing)
  else if component.isEmpty || component == "." then .ok route
  else if component == ".." then .ok route.dropLast
  else if component.utf8ByteSize > Path.maxName then .error .nameTooLong
  else .ok (route ++ [component])

/-- Where a path starts. -/
def origin (d : Directory) (path : String) : Route := if Path.isAbsolute path then [] else d.here

/-- Where some components lead. The last of them need not be there. -/
def follow (d : Directory) (route : Route) : List String → Except PathFault Route
  | [] => .ok route
  | c :: rest => do follow d (← d.step route c) rest

/-- What lies under a path. -/
def lookup? (d : Directory) (path : String) : Option Entry :=
  if Path.isUnusable path then none
  else match d.follow (d.origin path) (Path.components path) with
    | .ok route => d.find? route
    | .error _ => none

/-- Whether a path leads to anything. -/
def contains (d : Directory) (path : String) : Bool := (d.lookup? path).isSome

/-! ## Writing files -/

/-- Where a file can be written: a path whose way is there and whose end is no
directory. A path that ends with a slash is one to a directory. -/
def target (d : Directory) (path : String) : Except PathFault Route :=
  if Path.isUnusable path then
    .error (if path.utf8ByteSize > Path.maxPath then .nameTooLong else .missing)
  else
    let components := Path.components path
    match components.reverse.dropWhile String.isEmpty with
    | [] => .error .isDirectory
    | name :: way => do
      let route ← d.step (← d.follow (d.origin path) way.reverse) name
      if name == "." || name == ".." || components.getLast? == some "" || d.isDirectory route then
        .error .isDirectory
      else return route

/-- Write a file, replacing what it held. -/
def write (d : Directory) (path text : String) : Except PathFault Directory :=
  (d.target path).map fun route => d.insert route (.file (some text))

/-- Make sure that a file is there, keeping what it holds. -/
def touch (d : Directory) (route : Route) : Directory :=
  if (d.listed? route).isSome then d else d.insert route (.file (some ""))

/-- Add a text to a file. What was no text does not become one. -/
def append (d : Directory) (route : Route) (text : String) : Directory :=
  match d.listed? route with
  | some (.file (some old)) => d.insert route (.file (some (old ++ text)))
  | _ => d

end Directory

end StageVars
