/-!
# `RouteDoc.Files.Fault`: what can be wrong with a file

An access can fail because of the path, because of what stands on the
way, and because of the rights to it. These refusals are listed here,
with the text that the operating system has for each. It can refuse an
access for other reasons, which lie outside the tree of files: a disk
may be full, or break.

A path with a NUL in it is not handed to the operating system at all,
which counts as a refusal too. A file that can be opened may still not
hold text.
-/

set_option autoImplicit false

namespace RouteDoc.Files

/-- Why an access is refused. -/
inductive AccessFault where
  | notFound
  /-- The program has no right to this access. -/
  | denied
  | alreadyExists
  | notADirectory
  | isADirectory
  /-- The path, or a name in it, has too many bytes. -/
  | nameTooLong
  /-- Too many links are to be followed. -/
  | tooManyLinks
  /-- The path has a NUL in it. -/
  | holdsNul
  deriving DecidableEq, Repr

/-- The text for a refusal. The operating system has a number for each
of its own. -/
def AccessFault.message : AccessFault → String
  | notFound => "No such file or directory (os error 2)"
  | denied => "Permission denied (os error 13)"
  | alreadyExists => "File exists (os error 17)"
  | notADirectory => "Not a directory (os error 20)"
  | isADirectory => "Is a directory (os error 21)"
  | nameTooLong => "File name too long (os error 36)"
  | tooManyLinks => "Too many levels of symbolic links (os error 40)"
  | holdsNul => "file name contained an unexpected NUL byte"

/-- Why the text of a file cannot be read. -/
inductive ReadFault where
  | access (fault : AccessFault)
  | notText
  deriving DecidableEq, Repr

/-- The text for a file that cannot be read. Text is expected to be
encoded in UTF-8. -/
def ReadFault.message : ReadFault → String
  | access fault => fault.message
  | notText => "stream did not contain valid UTF-8"

end RouteDoc.Files
