import BatchCodec.FileTree

/-!
Building file trees entry by entry.
-/

namespace BatchCodec.Node

def emptyFolder : Node := .folder .full []

/-- The node with another one at a place below it. Folders on the way are made where there are none,
and a folder that is there keeps its entries when an empty one is put in its place. -/
def put : Node → List String → Node → Node
  | .folder access entries, [], .folder _ [] => .folder access entries
  | _, [], new => new
  | node, name :: place, new =>
    let (access, entries) := match node with
      | .folder access entries => (access, entries)
      | .file _ => (.full, [])
    match entries.lookup name with
    | none => .folder access (entries ++ [(name, put emptyFolder place new)])
    | some child =>
      let child := put child place new
      .folder access (entries.map fun e => if e.1 = name then (name, child) else e)

/-- The node with the folder at a place below it closed to listing and looking up. -/
def lock : Node → List String → Node
  | .folder _ entries, [] => .folder .none entries
  | .folder access entries, name :: place =>
    match entries.lookup name with
    | none => .folder access entries
    | some child =>
      let child := lock child place
      .folder access (entries.map fun e => if e.1 = name then (name, child) else e)
  | .file content, _ => .file content

end BatchCodec.Node
