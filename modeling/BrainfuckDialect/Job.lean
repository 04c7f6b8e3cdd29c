import BrainfuckDialect.Config.Parse
import BrainfuckDialect.Host
import BrainfuckDialect.Translate.Document

/-!
# Translating a file

The whole job: load the dialect, build its table, read the input, translate it and
write the output, stopping at the first failure. The dialect comes from an explicit
config file, which must be readable, or from the default config file, whose absence
means the letters dialect, as does a system where no default config file is known. The
letters dialect uses the lenient table; any other dialect must pass the strict checks.

Nothing is written before the last stage, so a failure leaves the files as they were.
-/

namespace BrainfuckDialect

/-- Why a file could not be translated. -/
inductive JobError where
  | read (path : String) (cause : IoError)
  | write (path : String) (cause : IoError)
  | conflict (c : Conflict)
  | config (e : ConfigError)

namespace JobError

/-- The text of a failure. -/
def message : JobError → String
  | read path cause =>
    let io := cause.message
    s!"failed to read {path}: {io}"
  | write path cause =>
    let io := cause.message
    s!"failed to write {path}: {io}"
  | conflict c => c.message
  | config e => e.message

end JobError

/-- The name of the config file in the config directory. -/
def configFileName : String := "bf-letters.toml"

/-- The path of `name` in the directory `dir`. -/
def joinPath (dir name : String) : String :=
  if dir.endsWith "/" then dir ++ name else dir ++ "/" ++ name

/-- The default config file: in the config home when one is set, else in `.config`
under the home directory. -/
def defaultConfigPath (configHome : Option String) (home : String) : String :=
  joinPath (configHome.getD (joinPath home ".config")) configFileName

/-- The table a job uses: the lenient table for the letters dialect, the
strict table for any other. -/
def Dialect.fileTable (d : Dialect) : Except Conflict SymbolTable :=
  if d = Dialect.letters then .ok d.table else d.strictTable

/-- The records of `d.fileTable`. -/
def Dialect.fileTableRecords (d : Dialect) : List Record :=
  if d = Dialect.letters then d.tableRecords
  else Record.debug "custom dialect, checking for ambiguous synonyms" :: d.strictTableRecords

section Stages

variable {m : Type → Type} [Monad m] [Host m]

/-- Report records in order. -/
def reportAll (rs : List Record) : m Unit :=
  rs.forM Host.report

/-- The dialect of a config text read from `path`. -/
def readDialect (path content : String) : ExceptT JobError m Dialect := do
  reportAll (m := m) (Record.info s!"loading dialect from {path}" :: configRecords content)
  match parseConfig content with
  | .ok d => pure d
  | .error e => throw (.config e)

/-- The dialect to translate into: from `explicit` if given, else from the default config
file `fallback`, whose absence means the letters dialect; with no default config file
known, the letters dialect and nothing is read. -/
def loadDialect (explicit : Option String) (fallback : Option String) :
    ExceptT JobError m Dialect := do
  match explicit with
  | some path =>
    match ← (Host.readFile path : m _) with
    | .ok content => readDialect path content
    | .error e => throw (.read path e)
  | none =>
    match fallback with
    | none => pure Dialect.letters
    | some path =>
      match ← (Host.readFile path : m _) with
      | .ok content => readDialect path content
      | .error .notFound =>
        reportAll (m := m) [Record.debug s!"no config at {path}, using built-in dialect"]
        pure Dialect.letters
      | .error e => throw (.read path e)

/-- The table of a dialect, with its records. -/
def tableOf (d : Dialect) : ExceptT JobError m SymbolTable := do
  reportAll (m := m) d.fileTableRecords
  match d.fileTable with
  | .ok t => pure t
  | .error c => throw (.conflict c)

/-- The document held in the file at `path`. -/
def readDocument (path : String) : ExceptT JobError m Document := do
  match ← (Host.readFile path : m _) with
  | .ok text =>
    let doc := Document.ofText text
    let n := doc.size
    reportAll (m := m) [Record.info s!"read {n} lines from {path}"]
    pure doc
  | .error e => throw (.read path e)

/-- Write the document's text to the file at `path`. -/
def writeDocument (path : String) (doc : Document) : ExceptT JobError m Unit := do
  match ← (Host.writeFile path doc.toText : m _) with
  | .ok () =>
    let n := doc.size
    reportAll (m := m) [Record.info s!"wrote {n} lines to {path}"]
  | .error e => throw (.write path e)

/-- Translate the file `input` into the file `output`, with the dialect of `config` or
of the default config file `fallback`, if one is known; the translated document on
success. -/
def translateFile (input output : String) (config : Option String) (fallback : Option String) :
    ExceptT JobError m Document := do
  let dialect ← loadDialect config fallback
  let table ← tableOf dialect
  let doc ← readDocument input
  reportAll (m := m) (translateRecords doc.lines)
  let result := doc.translate table
  writeDocument output result
  reportAll (m := m) [Record.info s!"translated {input} -> {output}"]
  pure result

end Stages
end BrainfuckDialect
