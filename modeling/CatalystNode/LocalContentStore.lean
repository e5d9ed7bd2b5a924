import CatalystNode.FileTree
import CatalystNode.HexCodec

namespace CatalystNode

open ByteVector HexCodec FileTree

/-- A path as its parts between the separators, which may be empty. -/
structure PathBuf where
  absolute : Bool
  parts : List Bytes
  deriving DecidableEq

namespace PathBuf

def separator : UInt8 := 47

def ofBytes (bytes : Bytes) : PathBuf :=
  match bytes with
  | [] => ⟨false, [[]]⟩
  | b :: rest => if b = separator then ⟨true, rest.splitOn separator⟩
    else ⟨false, bytes.splitOn separator⟩

/-- An absolute path replaces what it is joined to. -/
def join (path : PathBuf) (bytes : Bytes) : PathBuf :=
  let other := ofBytes bytes
  if other.absolute then other else ⟨path.absolute, path.parts ++ other.parts⟩

def stepOf (part : Bytes) : Step Bytes :=
  if part = [] ∨ part = utf8 "." then .stay else if part = utf8 ".." then .up else .down part

def steps (path : PathBuf) : List (Step Bytes) := path.parts.map stepOf

def parent (path : PathBuf) : Option PathBuf :=
  match path.parts.reverse.dropWhile (fun part => stepOf part = .stay) with
  | [] => none
  | _ :: above => some ⟨path.absolute, above.reverse⟩

end PathBuf

/-- The file system as the node sees it: readable files and directories, and the directory the
process was started in. -/
structure FileSystem where
  tree : Tree Bytes Bytes
  cwd : Location Bytes

namespace FileSystem

def start (fs : FileSystem) (path : PathBuf) : Location Bytes := if path.absolute then [] else fs.cwd

def readFile (fs : FileSystem) (path : PathBuf) : Option Bytes :=
  fs.tree.read (fs.start path) path.steps

def metadata (fs : FileSystem) (path : PathBuf) : Option (Node Bytes) :=
  fs.tree.node (fs.start path) path.steps

def createDirAll (fs : FileSystem) (path : PathBuf) : FileSystem × Bool :=
  let made := fs.tree.createDirAll (fs.start path) path.steps
  ({ fs with tree := made.1 }, made.2)

def writeNew (fs : FileSystem) (path : PathBuf) (bytes : Bytes) : Option FileSystem :=
  match fs.tree.walk (fs.start path) path.steps with
  | some (name :: place) => (fs.tree.add place name (.file bytes)).map (fun tree => { fs with tree })
  | _ => none

end FileSystem

/-- A byte index at which a string may be cut; cutting elsewhere aborts the call. -/
def isCharBoundary (bytes : Bytes) (i : Nat) : Bool :=
  i = bytes.length ∨ ((bytes[i]?).any (fun b => ¬(128 ≤ b ∧ b < 192)))

structure LocalContentStore where
  root : PathBuf
  contentId : Bytes → String

structure FileRequestMsg where
  requester : String
  cid : String

structure FileResponseMsg where
  requester : String
  cid : String
  bytes : Bytes

def cidPrefix (cid : String) : Bytes := (utf8 cid).take (min 2 (utf8 cid).length)

namespace LocalContentStore

def contentDir (store : LocalContentStore) : PathBuf := store.root.join (utf8 "content")

def contentPathFor (store : LocalContentStore) (cid : String) : Option PathBuf :=
  if isCharBoundary (utf8 cid) (min 2 (utf8 cid).length) then
    some ((store.contentDir.join (cidPrefix cid)).join (utf8 cid))
  else none

def put (store : LocalContentStore) (fs : FileSystem) (bytes : Bytes) :
    FileSystem × Option String :=
  let cid := store.contentId bytes
  match store.contentPathFor cid with
  | none => (fs, none)
  | some path =>
    let made := path.parent.elim (fs, true) fs.createDirAll
    if ¬made.2 then (made.1, none)
    else if (made.1.metadata path).isSome then (made.1, some cid)
    else match made.1.writeNew path bytes with
      | none => (made.1, none)
      | some written => (written, some cid)

def get (store : LocalContentStore) (fs : FileSystem) (cid : String) : Option Bytes :=
  (store.contentPathFor cid).bind fs.readFile

def answerFileRequest (store : LocalContentStore) (fs : FileSystem) (req : FileRequestMsg) :
    Option FileResponseMsg :=
  (store.get fs req.cid).map (fun bytes => ⟨req.requester, req.cid, bytes⟩)

def putAll (store : LocalContentStore) (fs : FileSystem) (puts : List Bytes) : FileSystem :=
  puts.foldl (fun fs bytes => (store.put fs bytes).1) fs

end LocalContentStore

end CatalystNode
