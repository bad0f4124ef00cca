/-!
# Paths

Paths are texts whose names are separated by `/`. The path of an entry under a directory is
the entry itself when it is absolute; otherwise exactly one separator is put between them,
and none after an empty directory.
-/

namespace HandlerSplit.Files

/-- Whether a path starts at the root. -/
def isAbsolute (path : String) : Bool :=
  path.toList.head? == some '/'

/-- Whether a name may be put directly after a path. -/
def endsOpen (path : String) : Bool :=
  match path.toList.getLast? with
  | none => true
  | some c => c == '/'

/-- The path of an entry under a directory. -/
def join (directory entry : String) : String :=
  if isAbsolute entry then entry
  else if endsOpen directory then directory ++ entry
  else directory ++ "/" ++ entry

/-- An absolute entry stands for itself. -/
theorem join_of_isAbsolute {directory entry : String} (h : isAbsolute entry) :
    join directory entry = entry := by
  simp [join, h]

/-- The empty directory adds nothing. -/
theorem join_empty (entry : String) : join "" entry = entry := by
  simp [join, endsOpen]

end HandlerSplit.Files
