import PackageScript.Path.HostPath

set_option autoImplicit false

/-! # Why a file operation fails

The causes, and their wording. A cause that the operating system reports carries its number in
the wording.
-/

namespace PackageScript

/-- Why a file operation fails. -/
inductive FileError where
  /-- A name on the way, or the last one, does not exist. -/
  | notFound
  /-- Something already stands where an entry is to be made. -/
  | alreadyExists
  /-- Something that is not a directory is used as one. -/
  | notDirectory
  /-- A directory is used as a file. -/
  | isDirectory
  /-- A directory to be removed or replaced has entries. -/
  | notEmpty
  /-- A path ends in a part that the operation cannot act on. -/
  | invalidArgument
  /-- A name has more than 255 bytes, or a path 4096 or more. -/
  | nameTooLong
  /-- The working directory or a root is in the way. -/
  | busy
  /-- More than 40 links on the way. -/
  | tooManyLinks
  /-- A path holds the character NUL. -/
  | nulInPath
  /-- The bytes of a file are not UTF-8. -/
  | notText
  /-- A directory was to be copied below itself. -/
  | intoItself (src dst : HostPath)
deriving DecidableEq

namespace FileError

def message : FileError → String
  | .notFound => "No such file or directory (os error 2)"
  | .alreadyExists => "File exists (os error 17)"
  | .notDirectory => "Not a directory (os error 20)"
  | .isDirectory => "Is a directory (os error 21)"
  | .notEmpty => "Directory not empty (os error 39)"
  | .invalidArgument => "Invalid argument (os error 22)"
  | .nameTooLong => "File name too long (os error 36)"
  | .busy => "Device or resource busy (os error 16)"
  | .tooManyLinks => "Too many levels of symbolic links (os error 40)"
  | .nulInPath => "file name contained an unexpected NUL byte"
  | .notText => "stream did not contain valid UTF-8"
  | .intoItself src dst => "cannot copy " ++ src.text ++ " into itself (" ++ dst.text ++ ")"

end FileError

end PackageScript
