import Docblock.Program

/-!
# The command

Takes from the disk what a command reads, carries it out and writes what it comes to. Files that are
neither sources nor say what is ignored are known by their names only, unless a path leads to them. What cannot be
opened is known to be there.
-/

set_option autoImplicit false

namespace Docblock.Main

def inside (directory : String) (name : String) : String :=
  String.ofList (Path.join directory.toList name.toList)

def isDirectory (path : String) : IO Bool := do
  ((← IO.currentDir) / path).isDir

def file? (path : String) : IO (Option FileTree) := do
  try
    return some (.file (← IO.FS.readBinFile path))
  catch _ => return none

def repository (directory : String) : IO (List (Text × FileTree)) := do
  let git := inside directory ".git"
  if ← ((← IO.currentDir) / git).pathExists then
    let said := (← file? (inside git "info/exclude")).map fun found =>
      FileTree.put found ["info".toList, "exclude".toList] (.directory [])
    return [(".git".toList, said.getD (.directory []))]
  else return []

def ruleEntries (directory : String) : IO (List (Text × FileTree)) := do
  let files ← [".ignore", ".gitignore"].filterMapM fun name => do
    return (← file? (inside directory name)).map fun found => (name.toList, found)
  return files ++ (← repository directory)

/-- A directory with all that is in it. Links are not followed. -/
partial def directoryAt (path : String) : IO FileTree := do
  let mut entries ← ruleEntries path
  try
    for entry in ← ((← IO.currentDir) / path).readDir do
      let name := entry.fileName.toList
      let inner := inside path entry.fileName
      if !(entries.any fun known => known.1 == name) then
        match (← entry.path.symlinkMetadata).type with
        | .dir => entries := (name, ← directoryAt inner) :: entries
        | .file =>
            let isSource := (Language.ofPath? name).isSome
            let found ← if isSource then file? inner else pure (some (.file ⟨#[]⟩))
            entries := (name, found.getD (.closed .file)) :: entries
        | _ => entries := (name, .closed .other) :: entries
    return .directory entries
  catch _ => return .closed .directory

def mount (tree : FileTree) (path : Text) : IO FileTree := do
  let mut tree := tree
  let parts := Path.parts path
  for count in List.range parts.length do
    let front := Text.join ['/'] (parts.take count ++ [[]])
    let directory := String.ofList front
    if (tree.descend? (Path.names front)).isNone && (← isDirectory directory) then
      tree := FileTree.put (.directory (← ruleEntries directory)) (Path.names front) tree
  let last := String.ofList path
  if ← isDirectory last then
    return FileTree.put (← directoryAt last) (Path.names path) tree
  else
    match ← file? last with
    | some found => return FileTree.put found (Path.names path) tree
    | none =>
        if ← ((← IO.currentDir) / last).pathExists then
          return FileTree.put (.closed .file) (Path.names path) tree
        else return tree

/-- The file that a line of the settings of Git names for all repositories. -/
def excludesFile? (line : Text) : Option Text := do
  let (key, value) ← Text.splitOnce '=' line
  if (Text.trim key).map Char.toLower = "excludesfile".toList then
    some ((Text.trim value).filter (· != '"'))
  else none

/-- What the settings of Git say is ignored in all repositories. -/
def globalRules (current : Text) : IO GlobalRules := do
  let home := (← IO.getEnv "HOME").getD ""
  let config := (← IO.getEnv "XDG_CONFIG_HOME").getD (inside home ".config")
  let settings ← [inside home ".gitconfig", inside config "git/config"].filterMapM file?
  let lines := settings.flatMap fun
    | .file content => Text.lines ((decode? content).getD [])
    | _ => []
  let path := match lines.findSome? excludesFile? with
    | some ('~' :: '/' :: path) => Path.join home.toList path
    | some path => path
    | none => (inside config "git/ignore").toList
  return ⟨((← file? (String.ofList path)).map Rule.ofFile).getD [], Path.names current⟩

partial def allInput (stream : IO.FS.Stream) (before : ByteArray) : IO ByteArray := do
  let more ← stream.read 65536
  if more.isEmpty then return before else allInput stream (before ++ more)

def world (current : Text) (invocation : Invocation) : IO (Disk × ByteArray) := do
  let mut tree := FileTree.directory (← ruleEntries "/")
  for path in Program.reads (invocation.root.getD current) invocation.command do
    tree ← mount tree (Path.join current path)
  let input ←
    if Program.readsInput invocation.command then allInput (← IO.getStdin) ByteArray.empty
    else pure ByteArray.empty
  return (⟨tree, current⟩, input)

end Docblock.Main

def main (args : List String) : IO UInt32 := do
  let arguments := args.map String.toList
  let outcome ← match Docblock.CommandLine.read arguments with
    | .error refusal => pure (Docblock.Program.refuse refusal)
    | .ok invocation => do
        let current := (← IO.currentDir).toString.toList
        let (disk, input) ← Docblock.Main.world current invocation
        let globals ← Docblock.Main.globalRules current
        let tools : Docblock.Tools := { walker := .gitStyle (fun _ => true) globals }
        pure (Docblock.Program.execute disk input invocation tools)
  (← IO.getStdout).putStr (String.ofList outcome.output)
  (← IO.getStderr).putStr (String.ofList outcome.errors)
  return UInt32.ofNat outcome.code
