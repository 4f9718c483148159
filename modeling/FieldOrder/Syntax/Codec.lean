/-
# Source trees in JSON

Writing gives every field of a node, also the empty ones. Reading accepts what
`Json.record?` and `Json.tagged?` accept and lets lists, positions and flags be
left out. A value of a type with kinds is read only if all of it, also what does
not count, has a value and is not nested too deep (`Json.fits`).

The readers of nodes take the number of levels that may still be nested; every
node is a record of its own, so one level is used for each.

Key definitions: `SourceFile.toJson`, `SourceFile.ofJson?`, `Module.toJson`,
`Module.ofJson?`, `Expr.toJson`, `Expr.ofJson?`.
-/
import FieldOrder.Json.Record
import FieldOrder.Syntax.Basic

namespace FieldOrder

open Json (record? tagged? isTagged ofTagged required optional nullable list? text? bool? word?
  innerChoice? isEmptyRecord ofStrings ofOption ofWord)

/-! ### Positions -/

def Pos.toJson (p : Pos) : Json := .obj [("line", ofWord p.line), ("column", ofWord p.column)]

def Pos.ofJson? (v : Json) : Option Pos := do
  let [line, column] ← v.record? ["line", "column"] | none
  return ⟨← required word? line, ← required word? column⟩

/-! ### Words -/

/-- The word for a kind of literal. -/
def LitKind.word : LitKind → String
  | .string => "string"
  | .int => "int"
  | .float => "float"
  | .char => "char"

def LitKind.ofWord? : String → Option LitKind
  | "string" => some .string
  | "int" => some .int
  | "float" => some .float
  | "char" => some .char
  | _ => none

/-- The word for a unary operator. -/
def UnaryOp.word : UnaryOp → String
  | .addr => "addr"
  | .not => "not"
  | .neg => "neg"
  | .recv => "recv"

def UnaryOp.ofWord? : String → Option UnaryOp
  | "addr" => some .addr
  | "not" => some .not
  | "neg" => some .neg
  | "recv" => some .recv
  | _ => none

@[simp] theorem LitKind.ofWord?_word (k : LitKind) : ofWord? k.word = some k := by
  cases k <;> rfl

@[simp] theorem UnaryOp.ofWord?_word (op : UnaryOp) : ofWord? op.word = some op := by
  cases op <;> rfl

/-! ### Kinds -/

/-- The kinds of types, in the order of their numbers. -/
def TypeExpr.kinds : List String :=
  ["named", "pointer", "map", "slice", "struct", "func", "interface"]

/-- The kinds of expressions, in the order of their numbers. -/
def Expr.kinds : List String :=
  ["ident", "lit", "selector", "call", "composite", "unary", "star", "binary", "paren",
    "type_assert", "index", "func_lit", "other"]

/-- The kinds of statements, in the order of their numbers. -/
def Stmt.kinds : List String :=
  ["assign", "var", "expr", "return", "if", "for", "range", "switch", "block", "defer", "go",
    "other"]

/-! ### Types -/

mutual

def TypeExpr.toJson : TypeExpr → Json
  | .named package name => ofTagged "named" [("package", ofOption .str package), ("name", .str name)]
  | .pointer elem => ofTagged "pointer" [("elem", elem.toJson)]
  | .map key value => ofTagged "map" [("key", key.toJson), ("value", value.toJson)]
  | .slice elem => ofTagged "slice" [("elem", elem.toJson)]
  | .struct fields => ofTagged "struct" [("fields", .arr (structFieldsToJson fields))]
  | .func => ofTagged "func" []
  | .interface => ofTagged "interface" []

def StructField.toJson : StructField → Json
  | ⟨name, type, tag⟩ =>
    .obj [("name", .str name), ("ty", type.toJson), ("tag", ofOption .str tag)]

def structFieldsToJson : List StructField → List Json
  | [] => []
  | field :: rest => field.toJson :: structFieldsToJson rest

end

mutual

/-- Read a type with at most the given number of nodes one inside the other. -/
def TypeExpr.read : Nat → Json → Option TypeExpr
  | 0, _ => none
  | n + 1, v => do
    let (kind, fields) ← v.tagged? TypeExpr.kinds
    match kind with
    | "named" =>
      let [package, name] ← fields.record? ["package", "name"] | none
      return .named (← nullable text? package) (← required text? name)
    | "pointer" =>
      let [elem] ← fields.record? ["elem"] | none
      return .pointer (← required (TypeExpr.read n) elem)
    | "map" =>
      let [key, value] ← fields.record? ["key", "value"] | none
      return .map (← required (TypeExpr.read n) key) (← required (TypeExpr.read n) value)
    | "slice" =>
      let [elem] ← fields.record? ["elem"] | none
      return .slice (← required (TypeExpr.read n) elem)
    | "struct" =>
      let [members] ← fields.record? ["fields"] | none
      return .struct (← optional [] (list? (StructField.read n)) members)
    | "func" => if fields.isEmptyRecord then some .func else none
    | "interface" => if fields.isEmptyRecord then some .interface else none
    | _ => none

/-- Read a member of a struct type. -/
def StructField.read : Nat → Json → Option StructField
  | 0, _ => none
  | n + 1, v => do
    let [name, type, tag] ← v.record? ["name", "ty", "tag"] | none
    return ⟨← required text? name, ← required (TypeExpr.read n) type, ← nullable text? tag⟩

end

/-- Read a type that may nest `levels` deep. -/
def TypeExpr.ofJson? (levels : Nat) (v : Json) : Option TypeExpr :=
  if v.isTagged && v.fits levels then TypeExpr.read levels v else none

/-! ### Expressions and statements -/

mutual

def Expr.toJson : Expr → Json
  | .ident name pos => ofTagged "ident" [("name", .str name), ("pos", pos.toJson)]
  | .lit kind value pos =>
    ofTagged "lit" [("lit", .str kind.word), ("value", .str value), ("pos", pos.toJson)]
  | .selector x sel pos =>
    ofTagged "selector" [("x", x.toJson), ("sel", .str sel), ("pos", pos.toJson)]
  | .call callee args pos =>
    ofTagged "call" [("fun", callee.toJson), ("args", .arr (exprsToJson args)), ("pos", pos.toJson)]
  | .composite type elements pos =>
    ofTagged "composite" [("ty", ofOption TypeExpr.toJson type),
      ("elts", .arr (elementsToJson elements)), ("pos", pos.toJson)]
  | .unary op x => ofTagged "unary" [("op", .str op.word), ("x", x.toJson)]
  | .star x => ofTagged "star" [("x", x.toJson)]
  | .binary op x y => ofTagged "binary" [("op", .str op), ("x", x.toJson), ("y", y.toJson)]
  | .paren x => ofTagged "paren" [("x", x.toJson)]
  | .typeAssert x type =>
    ofTagged "type_assert" [("x", x.toJson), ("ty", ofOption TypeExpr.toJson type)]
  | .index x i => ofTagged "index" [("x", x.toJson), ("index", i.toJson)]
  | .funcLit body pos =>
    ofTagged "func_lit" [("body", .obj [("stmts", .arr (stmtsToJson body))]), ("pos", pos.toJson)]
  | .other => ofTagged "other" []

def exprToJson? : Option Expr → Json
  | none => .null
  | some x => x.toJson

def exprsToJson : List Expr → List Json
  | [] => []
  | x :: rest => x.toJson :: exprsToJson rest

def Element.toJson : Element → Json
  | ⟨key, value⟩ => .obj [("key", exprToJson? key), ("value", value.toJson)]

def elementsToJson : List Element → List Json
  | [] => []
  | el :: rest => el.toJson :: elementsToJson rest

def Stmt.toJson : Stmt → Json
  | .assign lhs rhs define pos =>
    ofTagged "assign" [("lhs", .arr (exprsToJson lhs)), ("rhs", .arr (exprsToJson rhs)),
      ("define", .bool define), ("pos", pos.toJson)]
  | .var names type values pos =>
    ofTagged "var" [("names", ofStrings names), ("ty", ofOption TypeExpr.toJson type),
      ("values", .arr (exprsToJson values)), ("pos", pos.toJson)]
  | .expr x => ofTagged "expr" [("expr", x.toJson)]
  | .ret results pos =>
    ofTagged "return" [("results", .arr (exprsToJson results)), ("pos", pos.toJson)]
  | .cond init test yes no =>
    ofTagged "if" [("init", stmtToJson? init), ("cond", test.toJson),
      ("then", .obj [("stmts", .arr (stmtsToJson yes))]), ("otherwise", stmtToJson? no)]
  | .loop init test post body =>
    ofTagged "for" [("init", stmtToJson? init), ("cond", exprToJson? test),
      ("post", stmtToJson? post), ("body", .obj [("stmts", .arr (stmtsToJson body))])]
  | .range key value x body =>
    ofTagged "range" [("key", exprToJson? key), ("value", exprToJson? value), ("x", x.toJson),
      ("body", .obj [("stmts", .arr (stmtsToJson body))])]
  | .switch init subject cases =>
    ofTagged "switch" [("init", stmtToJson? init), ("tag", exprToJson? subject),
      ("cases", .arr (casesToJson cases))]
  | .block body => ofTagged "block" [("stmts", .arr (stmtsToJson body))]
  | .defer call => ofTagged "defer" [("call", call.toJson)]
  | .go call => ofTagged "go" [("call", call.toJson)]
  | .other => ofTagged "other" []

def stmtToJson? : Option Stmt → Json
  | none => .null
  | some s => s.toJson

def stmtsToJson : List Stmt → List Json
  | [] => []
  | s :: rest => s.toJson :: stmtsToJson rest

def casesToJson : List CaseClause → List Json
  | [] => []
  | ⟨exprs, body⟩ :: rest =>
    .obj [("exprs", .arr (exprsToJson exprs)), ("body", .arr (stmtsToJson body))] ::
      casesToJson rest

end

/-- A block is a record with its statements. -/
def blockToJson (body : List Stmt) : Json := .obj [("stmts", .arr (stmtsToJson body))]

mutual

/-- Read an expression with at most the given number of nodes one inside the
other. -/
def Expr.read : Nat → Json → Option Expr
  | 0, _ => none
  | n + 1, v => do
    let (kind, fields) ← v.tagged? Expr.kinds
    match kind with
    | "ident" =>
      let [name, pos] ← fields.record? ["name", "pos"] | none
      return .ident (← required text? name) (← optional {} Pos.ofJson? pos)
    | "lit" =>
      let [lit, value, pos] ← fields.record? ["lit", "value", "pos"] | none
      let lit ← required innerChoice? lit
      return .lit (← LitKind.ofWord? lit) (← required text? value) (← optional {} Pos.ofJson? pos)
    | "selector" =>
      let [x, sel, pos] ← fields.record? ["x", "sel", "pos"] | none
      return .selector (← required (Expr.read n) x) (← required text? sel)
        (← optional {} Pos.ofJson? pos)
    | "call" =>
      let [callee, args, pos] ← fields.record? ["fun", "args", "pos"] | none
      return .call (← required (Expr.read n) callee) (← optional [] (list? (Expr.read n)) args)
        (← optional {} Pos.ofJson? pos)
    | "composite" =>
      let [type, elements, pos] ← fields.record? ["ty", "elts", "pos"] | none
      return .composite (← nullable (TypeExpr.read n) type)
        (← optional [] (list? (Element.read n)) elements) (← optional {} Pos.ofJson? pos)
    | "unary" =>
      let [op, x] ← fields.record? ["op", "x"] | none
      let op ← required innerChoice? op
      return .unary (← UnaryOp.ofWord? op) (← required (Expr.read n) x)
    | "star" =>
      let [x] ← fields.record? ["x"] | none
      return .star (← required (Expr.read n) x)
    | "binary" =>
      let [op, x, y] ← fields.record? ["op", "x", "y"] | none
      return .binary (← required text? op) (← required (Expr.read n) x)
        (← required (Expr.read n) y)
    | "paren" =>
      let [x] ← fields.record? ["x"] | none
      return .paren (← required (Expr.read n) x)
    | "type_assert" =>
      let [x, type] ← fields.record? ["x", "ty"] | none
      return .typeAssert (← required (Expr.read n) x) (← nullable (TypeExpr.read n) type)
    | "index" =>
      let [x, i] ← fields.record? ["x", "index"] | none
      return .index (← required (Expr.read n) x) (← required (Expr.read n) i)
    | "func_lit" =>
      let [body, pos] ← fields.record? ["body", "pos"] | none
      return .funcLit (← required (readBlock n) body) (← optional {} Pos.ofJson? pos)
    | "other" => if fields.isEmptyRecord then some .other else none
    | _ => none

/-- Read an element of a composite literal. -/
def Element.read : Nat → Json → Option Element
  | 0, _ => none
  | n + 1, v => do
    let [key, value] ← v.record? ["key", "value"] | none
    return ⟨← nullable (Expr.read n) key, ← required (Expr.read n) value⟩

/-- Read a statement. -/
def Stmt.read : Nat → Json → Option Stmt
  | 0, _ => none
  | n + 1, v => do
    let (kind, fields) ← v.tagged? Stmt.kinds
    match kind with
    | "assign" =>
      let [lhs, rhs, define, pos] ← fields.record? ["lhs", "rhs", "define", "pos"] | none
      return .assign (← required (list? (Expr.read n)) lhs) (← required (list? (Expr.read n)) rhs)
        (← optional false bool? define) (← optional {} Pos.ofJson? pos)
    | "var" =>
      let [names, type, values, pos] ← fields.record? ["names", "ty", "values", "pos"] | none
      return .var (← required (list? text?) names) (← nullable (TypeExpr.read n) type)
        (← optional [] (list? (Expr.read n)) values) (← optional {} Pos.ofJson? pos)
    | "expr" =>
      let [x] ← fields.record? ["expr"] | none
      return .expr (← required (Expr.read n) x)
    | "return" =>
      let [results, pos] ← fields.record? ["results", "pos"] | none
      return .ret (← optional [] (list? (Expr.read n)) results) (← optional {} Pos.ofJson? pos)
    | "if" =>
      let [init, test, yes, no] ← fields.record? ["init", "cond", "then", "otherwise"] | none
      return .cond (← nullable (Stmt.read n) init) (← required (Expr.read n) test)
        (← required (readBlock n) yes) (← nullable (Stmt.read n) no)
    | "for" =>
      let [init, test, post, body] ← fields.record? ["init", "cond", "post", "body"] | none
      return .loop (← nullable (Stmt.read n) init) (← nullable (Expr.read n) test)
        (← nullable (Stmt.read n) post) (← required (readBlock n) body)
    | "range" =>
      let [key, value, x, body] ← fields.record? ["key", "value", "x", "body"] | none
      return .range (← nullable (Expr.read n) key) (← nullable (Expr.read n) value)
        (← required (Expr.read n) x) (← required (readBlock n) body)
    | "switch" =>
      let [init, subject, cases] ← fields.record? ["init", "tag", "cases"] | none
      return .switch (← nullable (Stmt.read n) init) (← nullable (Expr.read n) subject)
        (← optional [] (list? (CaseClause.read n)) cases)
    | "block" =>
      let [stmts] ← fields.record? ["stmts"] | none
      return .block (← optional [] (list? (Stmt.read n)) stmts)
    | "defer" =>
      let [call] ← fields.record? ["call"] | none
      return .defer (← required (Expr.read n) call)
    | "go" =>
      let [call] ← fields.record? ["call"] | none
      return .go (← required (Expr.read n) call)
    | "other" => if fields.isEmptyRecord then some .other else none
    | _ => none

/-- Read a block. -/
def readBlock : Nat → Json → Option (List Stmt)
  | 0, _ => none
  | n + 1, v => do
    let [stmts] ← v.record? ["stmts"] | none
    optional [] (list? (Stmt.read n)) stmts

/-- Read a case of a switch statement. -/
def CaseClause.read : Nat → Json → Option CaseClause
  | 0, _ => none
  | n + 1, v => do
    let [exprs, body] ← v.record? ["exprs", "body"] | none
    return ⟨← optional [] (list? (Expr.read n)) exprs, ← optional [] (list? (Stmt.read n)) body⟩

end

/-- Read an expression that may nest `levels` deep. -/
def Expr.ofJson? (levels : Nat) (v : Json) : Option Expr :=
  if v.isTagged && v.fits levels then Expr.read levels v else none

/-- Read an element that may nest `levels` deep. -/
def Element.ofJson? (levels : Nat) (v : Json) : Option Element := do
  let [key, value] ← v.record? ["key", "value"] | none
  return ⟨← nullable (Expr.ofJson? (levels - 1)) key, ← required (Expr.ofJson? (levels - 1)) value⟩

/-! ### Declarations -/

def Receiver.toJson (r : Receiver) : Json :=
  .obj [("name", ofOption .str r.name), ("ty", r.type.toJson)]

/-- The fields of a function declaration. -/
def FuncDecl.fields (f : FuncDecl) : List (String × Json) :=
  [("name", .str f.name), ("receiver", ofOption Receiver.toJson f.receiver),
    ("body", ofOption blockToJson f.body), ("pos", f.pos.toJson)]

/-- The fields of a type declaration. -/
def TypeDecl.fields (d : TypeDecl) : List (String × Json) :=
  [("name", .str d.name), ("ty", d.type.toJson), ("pos", d.pos.toJson)]

/-- The fields of a declaration of variables. -/
def VarDecl.fields (d : VarDecl) : List (String × Json) :=
  [("names", ofStrings d.names), ("ty", ofOption TypeExpr.toJson d.type),
    ("values", .arr (exprsToJson d.values)), ("pos", d.pos.toJson)]

def FuncDecl.toJson (f : FuncDecl) : Json := .obj f.fields

def TypeDecl.toJson (d : TypeDecl) : Json := .obj d.fields

def Decl.toJson : Decl → Json
  | .func decl => ofTagged "func" decl.fields
  | .type decl => ofTagged "type" decl.fields
  | .var decl => ofTagged "var" decl.fields

/-- Read a receiver. -/
def Receiver.read (n : Nat) (v : Json) : Option Receiver := do
  let [name, type] ← v.record? ["name", "ty"] | none
  return ⟨← nullable text? name, ← required (TypeExpr.read n) type⟩

/-- Read the fields of a function declaration. -/
def FuncDecl.read (n : Nat) (v : Json) : Option FuncDecl := do
  let [name, receiver, body, pos] ← v.record? ["name", "receiver", "body", "pos"] | none
  return ⟨← required text? name, ← nullable (Receiver.read n) receiver,
    ← nullable (readBlock n) body, ← optional {} Pos.ofJson? pos⟩

/-- Read the fields of a type declaration, the type by `readType`. -/
def TypeDecl.read (readType : Json → Option TypeExpr) (v : Json) : Option TypeDecl := do
  let [name, type, pos] ← v.record? ["name", "ty", "pos"] | none
  return ⟨← required text? name, ← required readType type, ← optional {} Pos.ofJson? pos⟩

/-- Read the fields of a declaration of variables. -/
def VarDecl.read (n : Nat) (v : Json) : Option VarDecl := do
  let [names, type, values, pos] ← v.record? ["names", "ty", "values", "pos"] | none
  return ⟨← required (list? text?) names, ← nullable (TypeExpr.read n) type,
    ← optional [] (list? (Expr.read n)) values, ← optional {} Pos.ofJson? pos⟩

/-- Read a type declaration that may nest `levels` deep. -/
def TypeDecl.ofJson? (levels : Nat) (v : Json) : Option TypeDecl :=
  TypeDecl.read (TypeExpr.ofJson? (levels - 1)) v

/-- Read a declaration that may nest `levels` deep. -/
def Decl.ofJson? (levels : Nat) (v : Json) : Option Decl :=
  if v.fits levels then do
    let (kind, fields) ← v.tagged? []
    match kind with
    | "func" => return .func (← FuncDecl.read levels fields)
    | "type" => return .type (← TypeDecl.read (TypeExpr.read levels) fields)
    | "var" => return .var (← VarDecl.read levels fields)
    | _ => none
  else none

/-! ### Files and modules -/

def Path.toJson (p : Path) : Json := .str p.text

def Path.ofJson? (v : Json) : Option Path := v.text?.map Path.mk

def Import.toJson (i : Import) : Json := .obj [("name", ofOption .str i.name), ("path", .str i.path)]

def Import.ofJson? (v : Json) : Option Import := do
  let [name, path] ← v.record? ["name", "path"] | none
  return ⟨← nullable text? name, ← required text? path⟩

def SourceFile.toJson (f : SourceFile) : Json :=
  .obj [("path", f.path.toJson), ("package", .str f.package),
    ("imports", .arr (f.imports.map Import.toJson)), ("decls", .arr (f.decls.map Decl.toJson))]

/-- Read a file that may nest `levels` deep; its declarations stand two levels
down. -/
def SourceFile.ofJson? (levels : Nat) (v : Json) : Option SourceFile := do
  let [path, package, imports, decls] ← v.record? ["path", "package", "imports", "decls"] | none
  return ⟨← required Path.ofJson? path, ← required text? package,
    ← optional [] (list? Import.ofJson?) imports,
    ← optional [] (list? (Decl.ofJson? (levels - 2))) decls⟩

def ModulePath.toJson (p : ModulePath) : Json := .str p.text

def ModulePath.ofJson? (v : Json) : Option ModulePath := v.text?.bind ModulePath.ofString?

def Module.toJson (m : Module) : Json :=
  .obj [("path", m.path.toJson), ("dir", m.dir.toJson),
    ("files", .arr (m.files.map SourceFile.toJson))]

/-- Read a module that may nest `levels` deep; its files stand two levels down. -/
def Module.ofJson? (levels : Nat) (v : Json) : Option Module := do
  let [path, dir, files] ← v.record? ["path", "dir", "files"] | none
  return ⟨← required ModulePath.ofJson? path, ← required Path.ofJson? dir,
    ← optional [] (list? (SourceFile.ofJson? (levels - 2))) files⟩

end FieldOrder
