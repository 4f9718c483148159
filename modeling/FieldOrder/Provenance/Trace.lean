/-
# Tracing identifiers

Which schema fields the identifier of a definition is made of. Every commit call
(`SetID` or `SetId` on a commit receiver) in a function that creates or reads the
definition is resolved against the bindings of its function; the fields of all
commits are taken together.

Key definitions: `Tracer.commitCalls`, `Tracer.traceFunction`, `Tracer.traceFile`.
-/
import FieldOrder.Provenance.Bindings

namespace FieldOrder

namespace Bindings

/-- The schema fields of the identifier that a variable holds. -/
def variableIds (b : Bindings) (name : String) : Resolution (List String) :=
  match b.ids.get? name with
  | some ids => ids
  | none =>
    match b.fields.get? name with
    | some field => .resolved [field]
    | none => .unresolvable

/-- The schema fields of the identifier that is committed: a variable, a call of a
constructor, or the text of a variable by `ID` or `String`. -/
def resolveCommit (b : Bindings) (tracer : Tracer) (arg : Expr) : Resolution (List String) :=
  match arg.constructor? with
  | some (_, args) => b.resolveArgs tracer args
  | none =>
    match arg.unparen with
    | .ident name _ => b.variableIds name
    | .call callee [] _ =>
      match callee.unparen with
      | .selector x sel _ =>
        if sel == "ID" || sel == "String" then
          match x.ident? with
          | some name => b.variableIds name
          | none => .unresolvable
        else .unresolvable
      | _ => .unresolvable
    | _ => .unresolvable

end Bindings

namespace Tracer

/-- The arguments of a commit call. -/
def commitArgs? (tracer : Tracer) : Node → Option (List Expr)
  | .expr (.call callee args _) =>
    match callee.unparen with
    | .selector x sel _ =>
      if (sel == "SetID" || sel == "SetId") && x.ident?.any tracer.commitReceivers.contains then
        some args
      else none
    | _ => none
  | _ => none

/-- The arguments of every commit call in a block, in source order. -/
def commitCalls (tracer : Tracer) (body : List Stmt) : List (List Expr) :=
  (blockVisits body).filterMap fun v => tracer.commitArgs? v.node

/-- One resolution for each commit call of a block. A commit of anything but one
value cannot be resolved. -/
def traceBlock (tracer : Tracer) (body : List Stmt) : List (Resolution (List String)) :=
  let b := Bindings.collect tracer body
  (tracer.commitCalls body).map fun
    | [arg] => b.resolveCommit tracer arg
    | _ => .unresolvable

/-- One resolution for each commit call of a function. -/
def traceFunction (tracer : Tracer) (f : FuncDecl) : List (Resolution (List String)) :=
  match f.body with
  | some body => tracer.traceBlock body
  | none => []

/-- The resolutions of all commit calls in the functions of a file that create or
read the definition. -/
def fileCommits (tracer : Tracer) (kind : DefinitionKind) (f : SourceFile) :
    List (Resolution (List String)) :=
  (f.funcs.filter fun g => Text.contains g.name kind.entryName).flatMap tracer.traceFunction

/-- The schema fields of several commits taken together, each once. -/
def mergeCommits (commits : List (Resolution (List String))) : Resolution (List String) :=
  let fields := (commits.filterMap Resolution.value?).flatten.foldl pushUnique []
  if commits.isEmpty then .notApplicable
  else if fields.isEmpty then .unresolvable
  else .resolved fields

/-- The schema fields of the identifier of a definition, the least specific first. -/
def traceFile (tracer : Tracer) (kind : DefinitionKind) (f : SourceFile) :
    Resolution (List String) := mergeCommits (tracer.fileCommits kind f)

end Tracer
end FieldOrder
