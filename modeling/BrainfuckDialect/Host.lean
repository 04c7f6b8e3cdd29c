import BrainfuckDialect.Log

/-!
# Hosts

What translating a file needs from the world it runs in: reading a file as text, writing
text to a file, and reporting log records. A host is a monad with these three
operations; the library runs in any of them, a pure model of a directory included.
-/

namespace BrainfuckDialect

/-- Why a file could not be read or written. -/
inductive IoError where
  /-- A component of the path does not exist. -/
  | notFound
  /-- A component used as a directory is a file. -/
  | notDirectory
  /-- The path names a directory where a file is needed. -/
  | isDirectory
  /-- A name in the path is longer than 255 bytes, or the path is 4096 bytes or longer. -/
  | nameTooLong
  /-- The path holds a NUL character, which no file name can hold. -/
  | nulInPath
  /-- The file's bytes are not UTF-8. -/
  | invalidUtf8
  /-- Any other failure, with its text. -/
  | other (text : String)
  deriving DecidableEq, Repr

namespace IoError

/-- The text of an I/O error, with the operating system's error number. -/
def message : IoError → String
  | notFound => "No such file or directory (os error 2)"
  | notDirectory => "Not a directory (os error 20)"
  | isDirectory => "Is a directory (os error 21)"
  | nameTooLong => "File name too long (os error 36)"
  | nulInPath => "file name contained an unexpected NUL byte"
  | invalidUtf8 => "stream did not contain valid UTF-8"
  | other text => text

end IoError

/-- A monad in which files can be read and written and records reported. -/
class Host (m : Type → Type) where
  /-- The text of the file at a path. -/
  readFile : String → m (Except IoError String)
  /-- Replace the content of the file at a path, creating it if needed. -/
  writeFile : String → String → m (Except IoError Unit)
  /-- Report one record. -/
  report : Record → m Unit

end BrainfuckDialect
