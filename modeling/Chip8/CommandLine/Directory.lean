import Chip8.CommandLine.Launch

namespace Chip8.CommandLine

structure Directory where
  files : List (String × List UInt8)
deriving DecidableEq, Repr

namespace Directory

inductive Place where
  | file (name : String)
  | directory
  | null
  | missing
deriving DecidableEq, Repr

def segments : List Char → List (List Char)
  | [] => [[]]
  | '/' :: cs => [] :: segments cs
  | c :: cs =>
    match segments cs with
    | [] => [[c]]
    | s :: rest => (c :: s) :: rest

def staysHere (segment : List Char) : Bool := segment == [] || segment == ['.']

def goesUp (segment : List Char) : Bool := segment == ['.', '.']

def place (path : String) : Place :=
  if path = "/dev/null" then .null
  else
    let all := segments path.toList
    if all.all fun s => staysHere s || goesUp s then .directory
    else if path.startsWith "/" then .missing
    else
      match all.dropWhile staysHere with
      | [name] => .file (String.ofList name)
      | _ => .missing

def find? (d : Directory) (name : String) : Option (List UInt8) :=
  (d.files.find? fun entry => entry.1 == name).map Prod.snd

def put (d : Directory) (name : String) (bytes : List UInt8) : Directory :=
  ⟨(name, bytes) :: d.files.filter fun entry => entry.1 != name⟩

def noFile : String := "No such file or directory (os error 2)"

def isDirectory : String := "Is a directory (os error 21)"

def create (path : String) (d : Directory) : Except String Unit × Directory :=
  match place path with
  | .file name => (.ok (), d.put name [])
  | .null => (.ok (), d)
  | .directory => (.error isDirectory, d)
  | .missing => (.error noFile, d)

def openBytes (path : String) (d : Directory) : Except String ByteSource :=
  match place path with
  | .file name =>
    match d.find? name with
    | some bytes => .ok ⟨[bytes], none⟩
    | none => .error noFile
  | .null => .ok ⟨[], none⟩
  | .directory => .ok ⟨[], some isDirectory⟩
  | .missing => .error noFile

def text (path : String) (d : Directory) : Except String String :=
  match d.openBytes path with
  | .error reason => .error reason
  | .ok source =>
    match source.failure with
    | some reason => .error reason
    | none =>
      match String.fromUTF8? (ByteArray.mk source.chunks.flatten.toArray) with
      | some s => .ok s
      | none => .error "stream did not contain valid UTF-8"

def access : Files (StateM Directory) where
  create path := fun d => d.create path
  text path := fun d => (d.text path, d)
  openBytes path := fun d => (d.openBytes path, d)

end Directory

end Chip8.CommandLine
