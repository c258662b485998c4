import HeaderReflect.Cache.Store
import HeaderReflect.Config.Basic
import HeaderReflect.Renderer
import HeaderReflect.Visit

/-!
What ends a run. A header that cannot be read or parsed does not; declarations that cannot be
reconciled do.
-/

namespace HeaderReflect

def Template.Fault.message : Template.Fault → String
  | .malformed => "syntax error"
  | .badEscape => "bad string escape"
  | .undefinedValue => "undefined value"
  | .notIterable => "invalid operation: value cannot be iterated over"

def RenderError.message : RenderError → String
  | .template name fault => "template `" ++ name.label ++ "`: " ++ fault.message
  | .unreadable path fault => "failed to read template override " ++ path ++ ": " ++ fault.message

inductive RunError where
  | missingConfiguration (setting : Setting)
  | unsupportedMergeConflict (reason : String)
  | cache (error : CacheError)
  | render (error : RenderError)
  | io (path : String) (fault : IoFault)
deriving DecidableEq, Repr

namespace RunError

def message : RunError → String
  | .missingConfiguration setting => "missing configuration: " ++ setting.name
  | .unsupportedMergeConflict reason => "unsupported merge conflict: " ++ reason
  | .cache error => "cache error: " ++ error.message
  | .render error => error.message
  | .io path fault => path ++ ": " ++ fault.message

def ofMerge (error : MergeError) : RunError := .unsupportedMergeConflict error.message

def ofVisit : VisitError → RunError
  | .read path fault => .io path fault
  | .parse path reason => .io path (.other (VisitError.parse path reason).message)
  | .merge path error => .unsupportedMergeConflict (VisitError.merge path error).message

end RunError

end HeaderReflect
