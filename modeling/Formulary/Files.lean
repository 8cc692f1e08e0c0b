import Formulary.OrderedMap

/-!
# Files

A store of files and directories, reached by paths with slashes between the names. The root is a
directory that is always there.

- `FileStore.read` and `FileStore.write` are the accesses; `FileFault` is why one is refused and
  `FileFault.message` how a report words it.
- `FileStore.makeDirectory` adds a directory and those above it.
-/

namespace Formulary

/-- What stands under a path. -/
inductive FileNode where
  /-- A file and its content. -/
  | file (content : List UInt8)
  /-- A directory. -/
  | directory
  deriving DecidableEq, Repr

/-- Why an access is refused. -/
inductive FileFault where
  /-- Nothing stands under the path, or under a directory on the way. -/
  | notFound
  /-- A file stands where the path needs a directory. -/
  | notDirectory
  /-- A directory stands where the path needs a file. -/
  | isDirectory
  deriving DecidableEq, Repr

/-- What an access is for. -/
inductive FileAccess where
  | read
  | write
  deriving DecidableEq, Repr

/-- The wording of a refused access. A directory can be opened for reading, so that only the reading
itself fails. -/
def FileFault.message (access : FileAccess) (path : Text) : FileFault → Text
  | .notFound => Text.concat ["ENOENT: no such file or directory, open '", path, "'"]
  | .notDirectory => Text.concat ["ENOTDIR: not a directory, open '", path, "'"]
  | .isDirectory =>
    match access with
    | .read => "EISDIR: illegal operation on a directory, read"
    | .write => Text.concat ["EISDIR: illegal operation on a directory, open '", path, "'"]

/-- A path taken apart. -/
structure FilePath where
  /-- The names from the root on. -/
  names : List Text
  /-- Whether the path can only be that of a directory, as one that ends with a slash. -/
  needsDirectory : Bool
  deriving DecidableEq, Repr

namespace FilePath

/-- The parts between slashes. -/
def parts : Text → List Text
  | [] => [[]]
  | u :: rest =>
    match parts rest with
    | [] => [[u]]
    | part :: more => if u = CodeUnit.ofChar '/' then [] :: part :: more else (u :: part) :: more

/-- The names reached by going down, staying or going up, in reverse. -/
def descend : List Text → List Text → List Text
  | names, [] => names
  | names, part :: rest =>
    if part = [] ∨ part = Text.ofChars ['.'] then descend names rest
    else if part = Text.ofChars ['.', '.'] then descend names.tail rest
    else descend (part :: names) rest

/-- A path taken apart; the empty text is no path. -/
def ofText? (path : Text) : Option FilePath :=
  if path.isEmpty then none
  else
    let last := (parts path).getLastD []
    some {
      names := (descend [] (parts path)).reverse
      needsDirectory := last = [] || last = Text.ofChars ['.'] || last = Text.ofChars ['.', '.'] }

end FilePath

/-- A store of files and directories, by the names of their paths. -/
structure FileStore where
  /-- What stands under each path but the root. -/
  nodes : List (List Text × FileNode)
  deriving DecidableEq, Repr

namespace FileStore

/-- The store with nothing but the root. -/
def empty : FileStore := ⟨[]⟩

/-- What stands under the names of a path. -/
def node? (store : FileStore) (names : List Text) : Option FileNode :=
  if names.isEmpty then some .directory
  else (store.nodes.find? (fun entry => entry.1 = names)).map (·.2)

/-- The store with a node under the names of a path. -/
def put (store : FileStore) (names : List Text) (node : FileNode) : FileStore :=
  ⟨store.nodes.filter (fun entry => entry.1 ≠ names) ++ [(names, node)]⟩

/-- Whether the directories from `above` down to the last but one of `names` are there. -/
def checkParents (store : FileStore) (above : List Text) : List Text → Except FileFault Unit
  | [] => .ok ()
  | [_] => .ok ()
  | name :: rest =>
    match store.node? (above ++ [name]) with
    | none => .error .notFound
    | some (.file _) => .error .notDirectory
    | some .directory => checkParents store (above ++ [name]) rest

/-- The content of a file. -/
def read (store : FileStore) (path : Text) : Except FileFault (List UInt8) :=
  match FilePath.ofText? path with
  | none => .error .notFound
  | some p => do
    checkParents store [] p.names
    match store.node? p.names with
    | none => .error .notFound
    | some .directory => .error .isDirectory
    | some (.file content) => if p.needsDirectory then .error .notDirectory else .ok content

/-- The store with a file written, in place of the one that was there. -/
def write (store : FileStore) (path : Text) (content : List UInt8) : Except FileFault FileStore :=
  match FilePath.ofText? path with
  | none => .error .notFound
  | some p => do
    checkParents store [] p.names
    match store.node? p.names with
    | some .directory => .error .isDirectory
    | some (.file _) =>
      if p.needsDirectory then .error .notDirectory else .ok (store.put p.names (.file content))
    | none =>
      if p.needsDirectory then .error .isDirectory else .ok (store.put p.names (.file content))

/-- The store with directories for `names` below `above`. -/
def makeDirectories (store : FileStore) (above : List Text) : List Text → FileStore
  | [] => store
  | name :: rest =>
    let here := above ++ [name]
    let store :=
      match store.node? here with
      | none => store.put here .directory
      | some _ => store
    makeDirectories store here rest

/-- The store with a directory and those above it. -/
def makeDirectory (store : FileStore) (path : Text) : FileStore :=
  match FilePath.ofText? path with
  | none => store
  | some p => makeDirectories store [] p.names

end FileStore

end Formulary
