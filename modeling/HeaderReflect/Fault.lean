/-!
What can go wrong when a file or directory is used.
-/

namespace HeaderReflect

inductive IoFault where
  | notFound
  | alreadyExists
  | notADirectory
  | isADirectory
  | invalidText
  | other (reason : String)
deriving DecidableEq, Repr

def IoFault.message : IoFault → String
  | .notFound => "No such file or directory (os error 2)"
  | .alreadyExists => "File exists (os error 17)"
  | .notADirectory => "Not a directory (os error 20)"
  | .isADirectory => "Is a directory (os error 21)"
  | .invalidText => "stream did not contain valid UTF-8"
  | .other reason => reason

end HeaderReflect
