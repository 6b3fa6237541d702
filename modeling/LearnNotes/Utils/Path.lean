import Mathlib

/-!
# `std::filesystem::path`

The three operations of a POSIX path the models of this repository use: `parent_path`, the
`/` operator and `lexically_normal`. A path is its string; its elements are what stands
between the separators.
-/

namespace LearnNotes.Utils

/-- The elements of a path, empty ones included. -/
def elements (p : List Char) : List (List Char) := p.splitOn '/'

def isAbsolute (p : List Char) : Bool := p.head? == some '/'

/-- The directory part without its last separators, which stay where there is nothing else. -/
def parentChars (p : List Char) : List Char :=
  let dir := p.rdropWhile (· != '/')
  let trimmed := dir.rdropWhile (· == '/')
  if trimmed = [] then dir else trimmed

/-- `p / q`: an absolute `q` stands for itself. -/
def joinChars (p q : List Char) : List Char :=
  if isAbsolute q then q
  else if p = [] ∨ p.getLast? = some '/' then p ++ q
  else p ++ '/' :: q

/-- One element put on the normal elements so far, the last one first. -/
def pushElement (absolute : Bool) (stack : List (List Char)) (e : List Char) :
    List (List Char) :=
  if e = [] ∨ e = ['.'] then stack
  else if e = ['.', '.'] then
    match stack with
    | [] => if absolute then [] else [e]
    | top :: rest => if top = ['.', '.'] then e :: top :: rest else rest
  else e :: stack

/-- The last element names a directory, whatever it is: `""`, `.` or `..`. -/
def endsInDirectory (es : List (List Char)) : Bool :=
  es.getLast?.any fun e => e = [] ∨ e = ['.'] ∨ e = ['.', '.']

def normalChars (p : List Char) : List Char :=
  if p = [] then []
  else
    let stack := (elements p).foldl (pushElement (isAbsolute p)) []
    let root := if isAbsolute p then ['/'] else []
    let slash :=
      if endsInDirectory (elements p) ∧ stack ≠ [] ∧ stack.head? ≠ some ['.', '.'] then ['/']
      else []
    let normal := root ++ ['/'].intercalate stack.reverse ++ slash
    if normal = [] then ['.'] else normal

example : normalChars ['a', '/', '.', '/', 'b', '/', '.', '.'] = ['a', '/'] := by decide

example : normalChars ['/', '.', '.', '/', 'a', '/', '/', 'b'] = ['/', 'a', '/', 'b'] := by decide

example : normalChars ['a', '/', '.', '.'] = ['.'] := by decide

def parent_path (p : String) : String := String.ofList (parentChars p.toList)

def path_append (p q : String) : String := String.ofList (joinChars p.toList q.toList)

def lexically_normal (p : String) : String := String.ofList (normalChars p.toList)

end LearnNotes.Utils
