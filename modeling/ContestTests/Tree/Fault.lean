/-!
# What can go wrong with files

Each fault has a text, which is the operating system's where the operating system reports it, and the
name of its kind.
-/

namespace ContestTests

inductive Fault where
  | notFound
  | notADirectory
  | isADirectory
  | alreadyExists
  | notEmpty
  | busy
  | crossDevice
  | nulInPath
  | nameTooLong
  /-- A text file holds bytes that are no text. -/
  | notUtf8
  /-- A file is not put where something stands already. -/
  | targetExists
  /-- Only regular files are copied. -/
  | notAFile
deriving DecidableEq, Repr

namespace Fault

def message : Fault → String
  | notFound => "No such file or directory (os error 2)"
  | notADirectory => "Not a directory (os error 20)"
  | isADirectory => "Is a directory (os error 21)"
  | alreadyExists => "File exists (os error 17)"
  | notEmpty => "Directory not empty (os error 39)"
  | busy => "Device or resource busy (os error 16)"
  | crossDevice => "Invalid cross-device link (os error 18)"
  | nulInPath => "file name contained an unexpected NUL byte"
  | nameTooLong => "File name too long (os error 36)"
  | notUtf8 => "stream did not contain valid UTF-8"
  | targetExists => "target file already exists"
  | notAFile => "the source path is neither a regular file nor a symlink to a regular file"

def kind : Fault → String
  | notFound => "NotFound"
  | notADirectory => "NotADirectory"
  | isADirectory => "IsADirectory"
  | alreadyExists | targetExists => "AlreadyExists"
  | notEmpty => "DirectoryNotEmpty"
  | busy => "ResourceBusy"
  | crossDevice => "CrossesDevices"
  | nulInPath | notAFile => "InvalidInput"
  | nameTooLong => "InvalidFilename"
  | notUtf8 => "InvalidData"

end Fault

end ContestTests
