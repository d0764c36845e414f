import RestScaffold.Annotated.OnWire
import RestScaffold.Descriptor.OnWire
import RestScaffold.Generator

/-! # The plugin

A run of the program as a function from standard input to what it leaves behind.

* `read`: the two views of the input;
* `Outcome`: refused input, or a response with the notices of the run;
* `run`: the outcome for the bytes of standard input;
* `Outcome.exitCode`, `Outcome.output`, `Outcome.diagnostics`: what is left behind. -/

namespace RestScaffold.Plugin

/-- The two views of the input. -/
inductive View where
  | descriptors
  | annotations
deriving DecidableEq, Repr

/-- Reads a request twice, once for its descriptors and once for its annotations. -/
def read (bytes : List UInt8) : Except View (Descriptor.Request × Annotated.Request) :=
  match Descriptor.Request.decode bytes with
  | none => .error .descriptors
  | some request =>
    match Annotated.Request.decode bytes with
    | none => .error .annotations
    | some annotations => .ok (request, annotations)

/-- What a run comes to. -/
inductive Outcome where
  /-- The input is no request in the given view. -/
  | refused (view : View)
  /-- The notices that were issued, and the response. -/
  | answered (notices : List Notice) (response : Response)
deriving DecidableEq

/-- The outcome for the bytes of standard input. -/
def run (input : List UInt8) : Outcome :=
  match read input with
  | .error view => .refused view
  | .ok (request, annotations) =>
    let run := generate request annotations
    .answered run.notices (respond run)

/-! ### What is left behind -/

/-- The cause for which input is refused. The program prints it in a crash report, with a heading,
colours and the causes below it, of which nothing else is given here. -/
def View.refusal : View → String
  | .descriptors =>
    "couldn't parse CodeGeneratorRequest, make sure you're using this as a plugin to protoc\n"
  | .annotations => "couldn't read google.api options from CodeGeneratorRequest\n"

/-- The line on standard error for a response that carries an error, with its terminal colours. -/
def errorLine (message : String) : String :=
  "\x1b[1m\x1b[31mError:\x1b[39m\x1b[0m " ++ message ++ "\n"

namespace Outcome

/-- Zero if there is a response, with an error or without one. -/
def exitCode : Outcome → UInt32
  | refused _ => 1
  | answered _ _ => 0

/-- The bytes on standard output: the response, or nothing. -/
def output : Outcome → List UInt8
  | refused _ => []
  | answered _ response => response.encode

/-- The text on standard error: the notices in order, then the error of the response. Of the report
on refused input it is only the cause. -/
def diagnostics : Outcome → String
  | refused view => view.refusal
  | answered notices response =>
    String.join (notices.map fun n => n.text ++ "\n") ++ (response.error.map errorLine).getD ""

end Outcome

end RestScaffold.Plugin
