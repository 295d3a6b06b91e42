import PullAuth.File.Tree
import PullAuth.Journal

/-!
The file of the journal. Entries below its threshold are left out, and so are entries that cannot
be encoded; what was in the file before stays.
-/
namespace PullAuth

/-- A file that the journal is written to. -/
structure JournalFile where
  path : Text
  /-- The least level that is written. -/
  threshold : Level
  head : Letterhead := {}

namespace JournalFile

/-- The threshold for a level that is asked for: warnings are never left out. -/
def thresholdFor (level : Level) : Level :=
  if level.rank ≤ Level.warning.rank then level else .warning

/-- The absolute path of the file, with double dots taken back. -/
def location (f : JournalFile) (tree : Tree) : Path :=
  let p := Path.ofText f.path
  if p.isAbsolute then ⟨p.root, Path.withoutDots p.names⟩
  else
    let here := tree.here.filterMap (Utf8.decode .keeping)
    ⟨"/", Path.withoutDots (here ++ p.names)⟩

def bytes (f : JournalFile) (entries : List Entry) : Bytes :=
  (entries.filter fun e => f.threshold.rank ≤ e.level.rank).flatMap fun e =>
    (Utf8.encode? (e.line f.head)).getD []

/-- The tree with entries at the end of the file, which is made if it is missing. -/
def append (f : JournalFile) (entries : List Entry) (tree : Tree) : Except PathFault Tree :=
  tree.appendFile (f.location tree).toText (f.bytes entries)

end JournalFile

end PullAuth
