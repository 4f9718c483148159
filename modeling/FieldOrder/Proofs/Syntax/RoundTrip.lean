/-
# Source trees, written and read

Every source tree is read back from the JSON that it is written as. The readers
of nodes go down one level for each call, so the induction is on the levels: when
all nodes are read back up to `n` levels, so are those up to `n + 1`
(`NodesReadUpTo.succ`), whatever their kind, and no induction on trees is needed.

Key definitions: `TypesReadUpTo`, `NodesReadUpTo`.
Key theorems: `TypeExpr.readsUpTo`, `NodesReadUpTo.all`, `Decl.readsUpTo`,
`Module.readsUpTo`.
-/
import FieldOrder.Proofs.Json.Record
import FieldOrder.Syntax.Codec

namespace FieldOrder

open Json

@[simp] theorem Pos.isPlain_toJson (p : Pos) : p.toJson.isPlain = true := by
  simp [Pos.toJson]

@[simp] theorem Pos.ofJson?_toJson (p : Pos) : Pos.ofJson? p.toJson = some p := by
  simp [Pos.ofJson?, toJson]

/-! ### Types -/

theorem structFieldsToJson_eq (fields : List StructField) :
    structFieldsToJson fields = fields.map StructField.toJson := by
  induction fields with
  | nil => rfl
  | cons field fields ih => rw [structFieldsToJson, ih, List.map_cons]

theorem TypeExpr.toJson_ne_null (t : TypeExpr) : t.toJson ≠ null := by
  cases t <;> simp [toJson, ofTagged]

/-- Types and the members of struct types are read back up to `n` levels. -/
structure TypesReadUpTo (n : Nat) : Prop where
  type : ReadsUpTo n TypeExpr.toJson (TypeExpr.read n)
  field : ReadsUpTo n StructField.toJson (StructField.read n)

namespace TypesReadUpTo

theorem zero : TypesReadUpTo 0 where
  type t h := by cases t <;> simp [TypeExpr.toJson] at h
  field f h := by cases f; simp [StructField.toJson] at h

variable {n : Nat} (ih : TypesReadUpTo n)
include ih

theorem type_succ : ReadsUpTo (n + 1) TypeExpr.toJson (TypeExpr.read (n + 1)) := by
  intro t h
  cases t with
  | named package name =>
    rw [TypeExpr.toJson]
    simp [TypeExpr.read]
  | pointer elem =>
    have helem : elem.toJson.depth ≤ n := by simpa [TypeExpr.toJson] using h
    obtain ⟨hplain, hread⟩ := ih.type elem helem
    rw [TypeExpr.toJson]
    simp [TypeExpr.read, hplain, hread]
  | map key value =>
    obtain ⟨hkey, hvalue⟩ : key.toJson.depth ≤ n ∧ value.toJson.depth ≤ n := by
      simpa [TypeExpr.toJson] using h
    obtain ⟨hkey, hkeyRead⟩ := ih.type key hkey
    obtain ⟨hvalue, hvalueRead⟩ := ih.type value hvalue
    rw [TypeExpr.toJson]
    simp [TypeExpr.read, hkey, hkeyRead, hvalue, hvalueRead]
  | slice elem =>
    have helem : elem.toJson.depth ≤ n := by simpa [TypeExpr.toJson] using h
    obtain ⟨hplain, hread⟩ := ih.type elem helem
    rw [TypeExpr.toJson]
    simp [TypeExpr.read, hplain, hread]
  | struct fields =>
    have hfields : (arr (fields.map StructField.toJson)).depth ≤ n := by
      simpa [TypeExpr.toJson, structFieldsToJson_eq] using h
    obtain ⟨hplain, hread⟩ := ih.field.items fields hfields
    rw [TypeExpr.toJson]
    simp [TypeExpr.read, structFieldsToJson_eq, hplain, hread]
  | func =>
    rw [TypeExpr.toJson]
    simp [TypeExpr.read, isEmptyRecord]
  | interface =>
    rw [TypeExpr.toJson]
    simp [TypeExpr.read, isEmptyRecord]

theorem field_succ : ReadsUpTo (n + 1) StructField.toJson (StructField.read (n + 1)) := by
  rintro ⟨name, type, tag⟩ h
  have htype : type.toJson.depth ≤ n := by simpa [StructField.toJson] using h
  obtain ⟨hplain, hread⟩ := ih.type type htype
  simp [StructField.read, StructField.toJson, hplain, hread]

theorem succ : TypesReadUpTo (n + 1) := ⟨ih.type_succ, ih.field_succ⟩

end TypesReadUpTo

theorem TypesReadUpTo.all : ∀ n, TypesReadUpTo n
  | 0 => .zero
  | n + 1 => (all n).succ

theorem readsUpTo_type? (n : Nat) : ReadsUpTo n (ofOption TypeExpr.toJson)
    (fun v => nullable (TypeExpr.read n) (some v)) :=
  (TypesReadUpTo.all n).type.option TypeExpr.toJson_ne_null

/-! ### Expressions and statements -/

/-- A case of a switch statement is a record. -/
def CaseClause.toJson (c : CaseClause) : Json :=
  .obj [("exprs", .arr (exprsToJson c.exprs)), ("body", .arr (stmtsToJson c.body))]

@[simp] theorem exprsToJson_eq (xs : List Expr) : exprsToJson xs = xs.map Expr.toJson := by
  induction xs with
  | nil => rfl
  | cons x xs ih => rw [exprsToJson, ih, List.map_cons]

@[simp] theorem elementsToJson_eq (els : List Element) :
    elementsToJson els = els.map Element.toJson := by
  induction els with
  | nil => rfl
  | cons el els ih => rw [elementsToJson, ih, List.map_cons]

@[simp] theorem stmtsToJson_eq (stmts : List Stmt) : stmtsToJson stmts = stmts.map Stmt.toJson := by
  induction stmts with
  | nil => rfl
  | cons s stmts ih => rw [stmtsToJson, ih, List.map_cons]

@[simp] theorem casesToJson_eq (cases : List CaseClause) :
    casesToJson cases = cases.map CaseClause.toJson := by
  induction cases with
  | nil => rfl
  | cons c cases ih =>
    obtain ⟨exprs, body⟩ := c
    rw [casesToJson, ih, List.map_cons, CaseClause.toJson]

@[simp] theorem exprToJson?_eq (o : Option Expr) : exprToJson? o = ofOption Expr.toJson o := by
  cases o <;> simp [exprToJson?, ofOption]

@[simp] theorem stmtToJson?_eq (o : Option Stmt) : stmtToJson? o = ofOption Stmt.toJson o := by
  cases o <;> simp [stmtToJson?, ofOption]

theorem block_eq (body : List Stmt) :
    obj [("stmts", arr (body.map Stmt.toJson))] = blockToJson body := by
  rw [blockToJson, stmtsToJson_eq]

theorem blockToJson_ne_null (body : List Stmt) : blockToJson body ≠ null := by
  simp [blockToJson]

theorem Expr.toJson_ne_null (x : Expr) : x.toJson ≠ null := by
  cases x <;> simp [toJson, ofTagged]

theorem Stmt.toJson_ne_null (s : Stmt) : s.toJson ≠ null := by
  cases s <;> simp [toJson, ofTagged]

/-- All kinds of nodes are read back up to `n` levels. -/
structure NodesReadUpTo (n : Nat) : Prop where
  expr : ReadsUpTo n Expr.toJson (Expr.read n)
  element : ReadsUpTo n Element.toJson (Element.read n)
  stmt : ReadsUpTo n Stmt.toJson (Stmt.read n)
  block : ReadsUpTo n blockToJson (readBlock n)
  case : ReadsUpTo n CaseClause.toJson (CaseClause.read n)

namespace NodesReadUpTo

theorem zero : NodesReadUpTo 0 where
  expr x h := by cases x <;> simp [Expr.toJson] at h
  element el h := by cases el; simp [Element.toJson] at h
  stmt s h := by cases s <;> simp [Stmt.toJson] at h
  block body h := by simp [blockToJson] at h
  case c h := by simp [CaseClause.toJson] at h

variable {n : Nat} (ih : NodesReadUpTo n)
include ih

theorem expr? : ReadsUpTo n (ofOption Expr.toJson) (fun v => nullable (Expr.read n) (some v)) :=
  ih.expr.option Expr.toJson_ne_null

theorem stmt? : ReadsUpTo n (ofOption Stmt.toJson) (fun v => nullable (Stmt.read n) (some v)) :=
  ih.stmt.option Stmt.toJson_ne_null

theorem expr_succ : ReadsUpTo (n + 1) Expr.toJson (Expr.read (n + 1)) := by
  intro x h
  cases x with
  | ident name pos =>
    rw [Expr.toJson]
    simp [Expr.read]
  | lit kind value pos =>
    rw [Expr.toJson]
    simp [Expr.read, innerChoice?, choice?]
  | selector x sel pos =>
    obtain ⟨hx, -⟩ : x.toJson.depth ≤ n ∧ _ := by simpa [Expr.toJson] using h
    obtain ⟨hplain, hread⟩ := ih.expr x hx
    rw [Expr.toJson]
    simp [Expr.read, hplain, hread]
  | call callee args pos =>
    obtain ⟨hcallee, hargs, -⟩ : callee.toJson.depth ≤ n ∧
        (arr (args.map Expr.toJson)).depth ≤ n ∧ _ := by
      simpa [Expr.toJson] using h
    obtain ⟨hcallee, hcalleeRead⟩ := ih.expr callee hcallee
    obtain ⟨hargs, hargsRead⟩ := ih.expr.items args hargs
    rw [Expr.toJson]
    simp [Expr.read, hcallee, hcalleeRead, hargs, hargsRead]
  | composite type elements pos =>
    obtain ⟨htype, helements, -⟩ : (ofOption TypeExpr.toJson type).depth ≤ n ∧
        (arr (elements.map Element.toJson)).depth ≤ n ∧ _ := by
      simpa [Expr.toJson] using h
    obtain ⟨htype, htypeRead⟩ := readsUpTo_type? n type htype
    obtain ⟨helements, helementsRead⟩ := ih.element.items elements helements
    rw [Expr.toJson]
    simp [Expr.read, htype, htypeRead, helements, helementsRead]
  | unary op x =>
    have hx : x.toJson.depth ≤ n := by simpa [Expr.toJson] using h
    obtain ⟨hplain, hread⟩ := ih.expr x hx
    rw [Expr.toJson]
    simp [Expr.read, innerChoice?, choice?, hplain, hread]
  | star x =>
    have hx : x.toJson.depth ≤ n := by simpa [Expr.toJson] using h
    obtain ⟨hplain, hread⟩ := ih.expr x hx
    rw [Expr.toJson]
    simp [Expr.read, hplain, hread]
  | binary op x y =>
    obtain ⟨hx, hy⟩ : x.toJson.depth ≤ n ∧ y.toJson.depth ≤ n := by simpa [Expr.toJson] using h
    obtain ⟨hx, hxRead⟩ := ih.expr x hx
    obtain ⟨hy, hyRead⟩ := ih.expr y hy
    rw [Expr.toJson]
    simp [Expr.read, hx, hxRead, hy, hyRead]
  | paren x =>
    have hx : x.toJson.depth ≤ n := by simpa [Expr.toJson] using h
    obtain ⟨hplain, hread⟩ := ih.expr x hx
    rw [Expr.toJson]
    simp [Expr.read, hplain, hread]
  | typeAssert x type =>
    obtain ⟨hx, htype⟩ : x.toJson.depth ≤ n ∧ (ofOption TypeExpr.toJson type).depth ≤ n := by
      simpa [Expr.toJson] using h
    obtain ⟨hx, hxRead⟩ := ih.expr x hx
    obtain ⟨htype, htypeRead⟩ := readsUpTo_type? n type htype
    rw [Expr.toJson]
    simp [Expr.read, hx, hxRead, htype, htypeRead]
  | index x i =>
    obtain ⟨hx, hi⟩ : x.toJson.depth ≤ n ∧ i.toJson.depth ≤ n := by simpa [Expr.toJson] using h
    obtain ⟨hx, hxRead⟩ := ih.expr x hx
    obtain ⟨hi, hiRead⟩ := ih.expr i hi
    rw [Expr.toJson]
    simp [Expr.read, hx, hxRead, hi, hiRead]
  | funcLit body pos =>
    obtain ⟨hbody, -⟩ : (blockToJson body).depth ≤ n ∧ _ := by
      simpa [Expr.toJson, block_eq] using h
    obtain ⟨hplain, hread⟩ := ih.block body hbody
    rw [Expr.toJson]
    simp [Expr.read, block_eq, hplain, hread]
  | other =>
    rw [Expr.toJson]
    simp [Expr.read, isEmptyRecord]

theorem element_succ : ReadsUpTo (n + 1) Element.toJson (Element.read (n + 1)) := by
  rintro ⟨key, value⟩ h
  obtain ⟨hkey, hvalue⟩ : (ofOption Expr.toJson key).depth ≤ n ∧ value.toJson.depth ≤ n := by
    simpa [Element.toJson] using h
  obtain ⟨hkey, hkeyRead⟩ := ih.expr? key hkey
  obtain ⟨hvalue, hvalueRead⟩ := ih.expr value hvalue
  simp [Element.read, Element.toJson, hkey, hkeyRead, hvalue, hvalueRead]

theorem stmt_succ : ReadsUpTo (n + 1) Stmt.toJson (Stmt.read (n + 1)) := by
  intro s h
  cases s with
  | assign lhs rhs define pos =>
    obtain ⟨hlhs, hrhs, -⟩ : (arr (lhs.map Expr.toJson)).depth ≤ n ∧
        (arr (rhs.map Expr.toJson)).depth ≤ n ∧ _ := by
      simpa [Stmt.toJson] using h
    obtain ⟨hlhs, hlhsRead⟩ := ih.expr.items lhs hlhs
    obtain ⟨hrhs, hrhsRead⟩ := ih.expr.items rhs hrhs
    rw [Stmt.toJson]
    simp [Stmt.read, hlhs, hlhsRead, hrhs, hrhsRead]
  | var names type values pos =>
    obtain ⟨-, htype, hvalues, -⟩ : _ ∧ (ofOption TypeExpr.toJson type).depth ≤ n ∧
        (arr (values.map Expr.toJson)).depth ≤ n ∧ _ := by
      simpa [Stmt.toJson] using h
    obtain ⟨htype, htypeRead⟩ := readsUpTo_type? n type htype
    obtain ⟨hvalues, hvaluesRead⟩ := ih.expr.items values hvalues
    rw [Stmt.toJson]
    simp [Stmt.read, htype, htypeRead, hvalues, hvaluesRead]
  | expr x =>
    have hx : x.toJson.depth ≤ n := by simpa [Stmt.toJson] using h
    obtain ⟨hplain, hread⟩ := ih.expr x hx
    rw [Stmt.toJson]
    simp [Stmt.read, hplain, hread]
  | ret results pos =>
    obtain ⟨hresults, -⟩ : (arr (results.map Expr.toJson)).depth ≤ n ∧ _ := by
      simpa [Stmt.toJson] using h
    obtain ⟨hplain, hread⟩ := ih.expr.items results hresults
    rw [Stmt.toJson]
    simp [Stmt.read, hplain, hread]
  | cond init test yes no =>
    obtain ⟨hinit, htest, hyes, hno⟩ : (ofOption Stmt.toJson init).depth ≤ n ∧
        test.toJson.depth ≤ n ∧ (blockToJson yes).depth ≤ n ∧
        (ofOption Stmt.toJson no).depth ≤ n := by
      simpa [Stmt.toJson, block_eq] using h
    obtain ⟨hinit, hinitRead⟩ := ih.stmt? init hinit
    obtain ⟨htest, htestRead⟩ := ih.expr test htest
    obtain ⟨hyes, hyesRead⟩ := ih.block yes hyes
    obtain ⟨hno, hnoRead⟩ := ih.stmt? no hno
    rw [Stmt.toJson]
    simp [Stmt.read, block_eq, hinit, hinitRead, htest, htestRead, hyes, hyesRead,
      hno, hnoRead]
  | loop init test post body =>
    obtain ⟨hinit, htest, hpost, hbody⟩ : (ofOption Stmt.toJson init).depth ≤ n ∧
        (ofOption Expr.toJson test).depth ≤ n ∧ (ofOption Stmt.toJson post).depth ≤ n ∧
        (blockToJson body).depth ≤ n := by
      simpa [Stmt.toJson, block_eq] using h
    obtain ⟨hinit, hinitRead⟩ := ih.stmt? init hinit
    obtain ⟨htest, htestRead⟩ := ih.expr? test htest
    obtain ⟨hpost, hpostRead⟩ := ih.stmt? post hpost
    obtain ⟨hbody, hbodyRead⟩ := ih.block body hbody
    rw [Stmt.toJson]
    simp [Stmt.read, block_eq, hinit, hinitRead, htest, htestRead, hpost, hpostRead,
      hbody, hbodyRead]
  | range key value x body =>
    obtain ⟨hkey, hvalue, hx, hbody⟩ : (ofOption Expr.toJson key).depth ≤ n ∧
        (ofOption Expr.toJson value).depth ≤ n ∧ x.toJson.depth ≤ n ∧
        (blockToJson body).depth ≤ n := by
      simpa [Stmt.toJson, block_eq] using h
    obtain ⟨hkey, hkeyRead⟩ := ih.expr? key hkey
    obtain ⟨hvalue, hvalueRead⟩ := ih.expr? value hvalue
    obtain ⟨hx, hxRead⟩ := ih.expr x hx
    obtain ⟨hbody, hbodyRead⟩ := ih.block body hbody
    rw [Stmt.toJson]
    simp [Stmt.read, block_eq, hkey, hkeyRead, hvalue, hvalueRead, hx, hxRead,
      hbody, hbodyRead]
  | switch init subject cases =>
    obtain ⟨hinit, hsubject, hcases⟩ : (ofOption Stmt.toJson init).depth ≤ n ∧
        (ofOption Expr.toJson subject).depth ≤ n ∧
        (arr (cases.map CaseClause.toJson)).depth ≤ n := by
      simpa [Stmt.toJson] using h
    obtain ⟨hinit, hinitRead⟩ := ih.stmt? init hinit
    obtain ⟨hsubject, hsubjectRead⟩ := ih.expr? subject hsubject
    obtain ⟨hcases, hcasesRead⟩ := ih.case.items cases hcases
    rw [Stmt.toJson]
    simp [Stmt.read, hinit, hinitRead, hsubject, hsubjectRead, hcases, hcasesRead]
  | block body =>
    have hbody : (arr (body.map Stmt.toJson)).depth ≤ n := by simpa [Stmt.toJson] using h
    obtain ⟨hplain, hread⟩ := ih.stmt.items body hbody
    rw [Stmt.toJson]
    simp [Stmt.read, hplain, hread]
  | defer call =>
    have hcall : call.toJson.depth ≤ n := by simpa [Stmt.toJson] using h
    obtain ⟨hplain, hread⟩ := ih.expr call hcall
    rw [Stmt.toJson]
    simp [Stmt.read, hplain, hread]
  | go call =>
    have hcall : call.toJson.depth ≤ n := by simpa [Stmt.toJson] using h
    obtain ⟨hplain, hread⟩ := ih.expr call hcall
    rw [Stmt.toJson]
    simp [Stmt.read, hplain, hread]
  | other =>
    rw [Stmt.toJson]
    simp [Stmt.read, isEmptyRecord]

theorem block_succ : ReadsUpTo (n + 1) blockToJson (readBlock (n + 1)) := by
  intro body h
  have hbody : (arr (body.map Stmt.toJson)).depth ≤ n := by simpa [blockToJson] using h
  obtain ⟨hplain, hread⟩ := ih.stmt.items body hbody
  simp [readBlock, blockToJson, hplain, hread]

theorem case_succ : ReadsUpTo (n + 1) CaseClause.toJson (CaseClause.read (n + 1)) := by
  rintro ⟨exprs, body⟩ h
  obtain ⟨hexprs, hbody⟩ : (arr (exprs.map Expr.toJson)).depth ≤ n ∧
      (arr (body.map Stmt.toJson)).depth ≤ n := by
    simpa [CaseClause.toJson] using h
  obtain ⟨hexprs, hexprsRead⟩ := ih.expr.items exprs hexprs
  obtain ⟨hbody, hbodyRead⟩ := ih.stmt.items body hbody
  simp [CaseClause.read, CaseClause.toJson, hexprs, hexprsRead, hbody, hbodyRead]

/-- One level more is read back, whatever the kind of the node. -/
theorem succ : NodesReadUpTo (n + 1) where
  expr := ih.expr_succ
  element := ih.element_succ
  stmt := ih.stmt_succ
  block := ih.block_succ
  case := ih.case_succ

end NodesReadUpTo

theorem NodesReadUpTo.all : ∀ n, NodesReadUpTo n
  | 0 => .zero
  | n + 1 => (all n).succ

/-! ### Declarations -/

theorem TypeExpr.isTagged_toJson (t : TypeExpr) : t.toJson.isTagged = true := by
  cases t <;> simp [toJson, isTagged]

/-- A type that stands by itself is read back. -/
theorem TypeExpr.readsUpTo (n : Nat) : ReadsUpTo n TypeExpr.toJson (TypeExpr.ofJson? n) := by
  intro t h
  obtain ⟨hplain, hread⟩ := (TypesReadUpTo.all n).type t h
  have hfits : t.toJson.fits n = true := fits_of_isPlain hplain h
  exact ⟨hplain, by simp [TypeExpr.ofJson?, t.isTagged_toJson, hfits, hread]⟩

theorem readsUpTo_block? (n : Nat) : ReadsUpTo n (ofOption blockToJson)
    (fun v => nullable (readBlock n) (some v)) :=
  (NodesReadUpTo.all n).block.option blockToJson_ne_null

theorem Receiver.readsUpTo (n : Nat) : ReadsUpTo n Receiver.toJson (Receiver.read n) := by
  rintro ⟨name, type⟩ h
  cases n with
  | zero => simp [Receiver.toJson] at h
  | succ n =>
    have htype : type.toJson.depth ≤ n := by simpa [Receiver.toJson] using h
    obtain ⟨hplain, hread⟩ := (TypesReadUpTo.all (n + 1)).type type (Nat.le_succ_of_le htype)
    simp [Receiver.read, Receiver.toJson, hplain, hread]

theorem readsUpTo_receiver? (n : Nat) : ReadsUpTo n (ofOption Receiver.toJson)
    (fun v => nullable (Receiver.read n) (some v)) :=
  (Receiver.readsUpTo n).option (by simp [Receiver.toJson])

theorem FuncDecl.readsUpTo (n : Nat) : ReadsUpTo n FuncDecl.toJson (FuncDecl.read n) := by
  rintro ⟨name, receiver, body, pos⟩ h
  cases n with
  | zero => simp [FuncDecl.toJson] at h
  | succ n =>
    obtain ⟨hreceiver, hbody, -⟩ : (ofOption Receiver.toJson receiver).depth ≤ n ∧
        (ofOption blockToJson body).depth ≤ n ∧ _ := by
      simpa [FuncDecl.toJson, FuncDecl.fields] using h
    obtain ⟨hreceiver, hreceiverRead⟩ :=
      readsUpTo_receiver? (n + 1) receiver (Nat.le_succ_of_le hreceiver)
    obtain ⟨hbody, hbodyRead⟩ := readsUpTo_block? (n + 1) body (Nat.le_succ_of_le hbody)
    simp [FuncDecl.read, FuncDecl.toJson, FuncDecl.fields, hreceiver, hreceiverRead, hbody,
      hbodyRead]

theorem TypeDecl.readsUpTo {readType : Json → Option TypeExpr} {n : Nat}
    (hread : ReadsUpTo (n - 1) TypeExpr.toJson readType) :
    ReadsUpTo n TypeDecl.toJson (TypeDecl.read readType) := by
  rintro ⟨name, type, pos⟩ h
  cases n with
  | zero => simp [TypeDecl.toJson] at h
  | succ n =>
    obtain ⟨htype, -⟩ : type.toJson.depth ≤ n ∧ _ := by
      simpa [TypeDecl.toJson, TypeDecl.fields] using h
    obtain ⟨hplain, hread⟩ := hread type htype
    simp [TypeDecl.read, TypeDecl.toJson, TypeDecl.fields, hplain, hread]

theorem VarDecl.readsUpTo (n : Nat) :
    ReadsUpTo n (fun d : VarDecl => obj d.fields) (VarDecl.read n) := by
  rintro ⟨names, type, values, pos⟩ h
  cases n with
  | zero => simp at h
  | succ n =>
    obtain ⟨-, htype, hvalues, -⟩ : _ ∧ (ofOption TypeExpr.toJson type).depth ≤ n ∧
        (arr (values.map Expr.toJson)).depth ≤ n ∧ _ := by
      simpa [VarDecl.fields] using h
    obtain ⟨htype, htypeRead⟩ := readsUpTo_type? (n + 1) type (Nat.le_succ_of_le htype)
    obtain ⟨hvalues, hvaluesRead⟩ :=
      (NodesReadUpTo.all (n + 1)).expr.items values (Nat.le_succ_of_le hvalues)
    simp [VarDecl.read, VarDecl.fields, htype, htypeRead, hvalues, hvaluesRead]

theorem TypeDecl.ofJson?_readsUpTo (n : Nat) : ReadsUpTo n TypeDecl.toJson (TypeDecl.ofJson? n) :=
  TypeDecl.readsUpTo (TypeExpr.readsUpTo (n - 1))

/-- A kind before the fields of a declaration makes it no deeper. -/
theorem Decl.readsUpTo (n : Nat) : ReadsUpTo n Decl.toJson (Decl.ofJson? n) := by
  intro d h
  cases d with
  | func decl =>
    have hfields : (obj decl.fields).depth ≤ n := by rwa [Decl.toJson, depth_ofTagged] at h
    obtain ⟨hplain, hread⟩ := FuncDecl.readsUpTo n decl hfields
    rw [FuncDecl.toJson] at hplain hread
    refine ⟨by simpa [Decl.toJson] using hplain, ?_⟩
    rw [Decl.ofJson?, Decl.toJson, if_pos (fits_ofTagged hplain hfields),
      tagged?_ofTagged_bind _ _ (by simp [FuncDecl.fields])]
    simp [hread]
  | type decl =>
    have hfields : (obj decl.fields).depth ≤ n := by rwa [Decl.toJson, depth_ofTagged] at h
    have htype := (TypesReadUpTo.all n).type.mono (Nat.sub_le n 1)
    obtain ⟨hplain, hread⟩ := TypeDecl.readsUpTo htype decl hfields
    rw [TypeDecl.toJson] at hplain hread
    refine ⟨by simpa [Decl.toJson] using hplain, ?_⟩
    rw [Decl.ofJson?, Decl.toJson, if_pos (fits_ofTagged hplain hfields),
      tagged?_ofTagged_bind _ _ (by simp [TypeDecl.fields])]
    simp [hread]
  | var decl =>
    have hfields : (obj decl.fields).depth ≤ n := by rwa [Decl.toJson, depth_ofTagged] at h
    obtain ⟨hplain, hread⟩ := VarDecl.readsUpTo n decl hfields
    refine ⟨by simpa [Decl.toJson] using hplain, ?_⟩
    rw [Decl.ofJson?, Decl.toJson, if_pos (fits_ofTagged hplain hfields),
      tagged?_ofTagged_bind _ _ (by simp [VarDecl.fields])]
    simp [hread]

/-! ### Files and modules -/

@[simp] theorem Path.isPlain_toJson (p : Path) : p.toJson.isPlain = true := rfl

@[simp] theorem Path.depth_toJson (p : Path) : p.toJson.depth = 0 := rfl

@[simp] theorem Path.ofJson?_toJson (p : Path) : Path.ofJson? p.toJson = some p := rfl

@[simp] theorem ModulePath.isPlain_toJson (p : ModulePath) : p.toJson.isPlain = true := rfl

@[simp] theorem ModulePath.depth_toJson (p : ModulePath) : p.toJson.depth = 0 := rfl

@[simp] theorem ModulePath.ofJson?_toJson (p : ModulePath) :
    ModulePath.ofJson? p.toJson = some p := p.ofString?_text

theorem Import.readsUpTo (n : Nat) : ReadsUpTo n Import.toJson Import.ofJson? := by
  rintro ⟨name, path⟩ -
  simp [Import.ofJson?, Import.toJson]

theorem SourceFile.readsUpTo (n : Nat) :
    ReadsUpTo n SourceFile.toJson (SourceFile.ofJson? n) := by
  rintro ⟨path, package, imports, decls⟩ h
  cases n with
  | zero => simp [SourceFile.toJson] at h
  | succ n =>
    obtain ⟨himports, hdecls⟩ : (arr (imports.map Import.toJson)).depth ≤ n ∧
        (arr (decls.map Decl.toJson)).depth ≤ n := by
      simpa [SourceFile.toJson] using h
    obtain ⟨himports, himportsRead⟩ := (Import.readsUpTo n).items imports himports
    obtain ⟨hdecls, hdeclsRead⟩ := (Decl.readsUpTo (n - 1)).list decls hdecls
    simp [SourceFile.ofJson?, SourceFile.toJson, himports, himportsRead, hdecls, hdeclsRead]

theorem Module.readsUpTo (n : Nat) : ReadsUpTo n Module.toJson (Module.ofJson? n) := by
  rintro ⟨path, dir, files⟩ h
  cases n with
  | zero => simp [Module.toJson] at h
  | succ n =>
    have hfiles : (arr (files.map SourceFile.toJson)).depth ≤ n := by
      simpa [Module.toJson] using h
    obtain ⟨hplain, hread⟩ := (SourceFile.readsUpTo (n - 1)).list files hfiles
    simp [Module.ofJson?, Module.toJson, hplain, hread]

end FieldOrder
