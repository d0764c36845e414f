/-! # Faults

The causes for which a run stops, with the values that its message names. `Fault.message` is the
text that goes into the response and onto standard error. -/

namespace RestScaffold

/-- What is wrong with one part of the generator's parameter. -/
inductive ParameterProblem where
  | notPackage
  | notBoolean
  | missingValue
  | unknownOption
deriving DecidableEq, Repr

/-- The problem in words. -/
def ParameterProblem.reason : ParameterProblem → String
  | .notPackage => "not a Java package name"
  | .notBoolean => "expected `true` or `false`"
  | .missingValue => "missing value"
  | .unknownOption => "unknown option"

/-- A cause for which no sources can be generated. -/
inductive Fault where
  /-- An HTTP path ends with a slash. -/
  | trailingSlash (path : String)
  /-- A path variable is no field of the request message, which `file` declares. -/
  | unknownVariable (file name message : String)
  /-- The body names no field of the request message. -/
  | unknownBody (field message : String)
  /-- The body names a field that is not a message. -/
  | scalarBody (field message : String)
  /-- The response body names no field of the response message. -/
  | unknownResponseBody (field message : String)
  /-- A type is referred to that nothing declares. -/
  | unresolvedType (name referrer : String)
  /-- A part of the parameter cannot be used. -/
  | invalidParameter (part : String) (problem : ParameterProblem)
  /-- A custom verb has no request method. -/
  | unsupportedVerb (verb method : String)
  /-- Two methods of a service get one name. -/
  | methodClash (service first second name : String)
  /-- Two declarations get one file. -/
  | outputClash (path first second : String)
deriving DecidableEq, Repr

/-- The text of a fault. -/
def Fault.message : Fault → String
  | .trailingSlash path => "HttpPath " ++ path ++ " should not end with \"/\""
  | .unknownVariable file name message =>
    file ++ ": path param `" ++ name ++ "` not found in `" ++ message ++ "`"
  | .unknownBody field message =>
    "field `" ++ field ++ "` not found in message `" ++ message ++ "`"
  | .scalarBody field message =>
    "field `" ++ field ++ "` of `" ++ message ++ "` must be message type"
  | .unknownResponseBody field message =>
    "response body field `" ++ field ++ "` not found in message `" ++ message ++ "`"
  | .unresolvedType name referrer =>
    "couldn't resolve type `" ++ name ++ "` referenced by `" ++ referrer ++ "`"
  | .invalidParameter part problem =>
    "invalid plugin parameter `" ++ part ++ "`: " ++ problem.reason
  | .unsupportedVerb verb method =>
    method ++ ": custom HTTP method `" ++ verb ++ "` is not a Spring RequestMethod"
  | .methodClash service first second name =>
    "`" ++ first ++ "` and `" ++ second ++ "` of `" ++ service ++
      "` both become Java method `" ++ name ++ "`"
  | .outputClash path first second =>
    "`" ++ first ++ "` and `" ++ second ++ "` would both be generated as `" ++ path ++ "`"

end RestScaffold
