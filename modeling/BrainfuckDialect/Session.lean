import BrainfuckDialect.Workspace

/-!
# Sessions

A session is a pure host: a workspace for the files, and the records reported so far,
oldest first. Running a job in `StateM Session` shows what it reads, what it
writes and what it reports.
-/

namespace BrainfuckDialect

/-- A workspace and the records reported in it. -/
structure Session where
  files : Workspace
  records : List Record

namespace Session

/-- A session on a workspace, with nothing reported yet. -/
def start (files : Workspace) : Session := ⟨files, []⟩

instance : Host (StateM Session) where
  readFile path := do
    let s ← get
    pure (s.files.read path)
  writeFile path text := do
    let s ← get
    match s.files.write path text with
    | .ok files =>
      set { s with files := files }
      pure (.ok ())
    | .error e => pure (.error e)
  report r := modify fun s => { s with records := s.records ++ [r] }

end Session
end BrainfuckDialect
