import FirstRow.Store.Cell

/-!
# Walking trees

`first?` goes down the left edge of a tree to its first entry, and `all` visits every entry of a table in order. Both
go down at most nineteen times, so they end on every file, also on one whose pages form a cycle.
-/
namespace FirstRow.Store.Walk

/-- How often one can go down from a root. -/
def maxDescents : Nat := 19

/-- A child page. It has the kind of its parent and is not empty. -/
def child (img : Image) (kind : TreeKind) (n : Nat) : Except Error TreePage := do
  let t ← TreePage.load img n
  if t.cellCount = 0 || t.kind ≠ kind then .error .malformed else .ok t

/-- The root of a tree of a kind. -/
def root (img : Image) (kind : TreeKind) (n : Nat) : Except Error TreePage := do
  let t ← TreePage.load img n
  if t.kind ≠ kind then .error .malformed else .ok t

/-- The leftmost leaf below a page that is not empty. -/
def leftmost (img : Image) : Nat → TreePage → Except Error TreePage
  | 0, t => if t.isLeaf then .ok t else .error .malformed
  | levels + 1, t =>
    if t.isLeaf then .ok t
    else do
      let t ← child img t.kind (t.childBefore img 0)
      leftmost img levels t

/-- The first entry of a tree, if it has any. Only a leaf can be empty. -/
def first? (img : Image) (kind : TreeKind) (n : Nat) : Except Error (Option Cell) := do
  let t ← root img kind n
  if t.cellCount = 0 then
    if t.isLeaf then .ok none else .error .malformed
  else
    let leaf ← leftmost img maxDescents t
    .ok (some (.ofLeaf img leaf 0))

/-- Entries in order, and the error that ended the walk, if one did. -/
abbrev Visit := List Cell × Option Error

/-- Visit one subtree after the other, up to the first error. -/
def concat : List Visit → Visit
  | [] => ([], none)
  | (cells, some e) :: _ => (cells, some e)
  | (cells, none) :: rest =>
    let (more, e) := concat rest
    (cells ++ more, e)

/-- Visit the entries below a page. -/
def below (img : Image) : Nat → TreePage → Visit
  | 0, t =>
    if t.isLeaf then ((List.range t.cellCount).map (.ofLeaf img t), none) else ([], some .malformed)
  | levels + 1, t =>
    if t.isLeaf then ((List.range t.cellCount).map (.ofLeaf img t), none)
    else
      concat ((t.children img).map fun n =>
        match child img t.kind n with
        | .error e => ([], some e)
        | .ok t => below img levels t)

/-- Visit the entries of the table whose root is the first page. That root alone can be interior without cells, and
then has one child. A file without pages has no entries. -/
def schema (img : Image) : Visit :=
  if img.pageCount = 0 then ([], none)
  else
    match root img .table 1 with
    | .error e => ([], some e)
    | .ok t => below img maxDescents t

end FirstRow.Store.Walk
