/-! Paths in their shortest form: no empty parts, no `.`, and `..` only where there is nothing to go
back from. -/
namespace Offside.Path

/-- The parts of a path, last first, after further parts. The root's parent is the root. -/
def follow (rooted : Bool) : (back : List String) → List String → List String
  | back, [] => back
  | back, "" :: rest => follow rooted back rest
  | back, "." :: rest => follow rooted back rest
  | [], ".." :: rest => follow rooted (if rooted then [] else [".."]) rest
  | ".." :: back, ".." :: rest => follow rooted (".." :: ".." :: back) rest
  | _ :: back, ".." :: rest => follow rooted back rest
  | back, part :: rest => follow rooted (part :: back) rest

/-- The path starts at the root. -/
def isRooted (path : String) : Bool := path.toList.head? == some '/'

/-- Cuts at slashes. -/
def split (part : List Char) : List Char → List String
  | [] => [String.ofList part.reverse]
  | '/' :: rest => String.ofList part.reverse :: split [] rest
  | c :: rest => split (c :: part) rest

/-- The parts of the shortest form, first to last, with or without a root in front of them. -/
def parts (path : String) : List String :=
  (follow (isRooted path) [] (split [] path.toList)).reverse

/-- Where a path leads from a directory: its parts from the root on. -/
def resolve (home : List String) (path : String) : List String :=
  (follow true (if isRooted path then [] else home.reverse) (split [] path.toList)).reverse

/-- The shortest form. -/
def clean (path : String) : String :=
  let joined := "/".intercalate (parts path)
  if isRooted path then "/" ++ joined else if joined = "" then "." else joined

/-- A file in a directory. The directory without a name is the one that paths without a root start at. -/
def join (dir file : String) : String := clean (if dir = "" then file else dir ++ "/" ++ file)

end Offside.Path
