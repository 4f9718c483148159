/-
# What the tables hold

The tables of a function depend on the values that its variables are given, one
after the other. What they say of one variable comes from the values given to
that variable: its last constructor call if there is one (`ids_bind`), else its
last field read (`fields_bind`). A value that is neither leaves no trace. What is
asked of the tables are the arguments of the commit calls in the function.

Key definitions: `Tracer.CommitCall`, `Bindings.after`.
Key theorems: `Tracer.fieldRead?_of_constructor`, `Tracer.commitArgs?_eq_some_iff`,
`blockBindings_eq`, `Bindings.ids_bind`, `Bindings.fields_bind`, `Bindings.ask_after_append`,
`Bindings.variableIds_after_append`.
-/
import Mathlib.Data.List.Induction
import FieldOrder.Proofs.Syntax.Walk
import FieldOrder.Provenance.Trace

namespace FieldOrder

/-! ### Kinds of values -/

/-- The member by which a field is read is no constructor. -/
theorem ConstructorKind.ofName?_accessor {sel : String} (h : (sel == "Get" || sel == "GetOk") = true) :
    ConstructorKind.ofName? sel = none := by
  rcases Bool.or_eq_true_iff.mp h with h | h
  · obtain rfl := beq_iff_eq.mp h
    decide
  · obtain rfl := beq_iff_eq.mp h
    decide

/-- A call of a constructor reads no field. -/
theorem Tracer.fieldRead?_of_constructor (tracer : Tracer) {e : Expr}
    {kind : ConstructorKind} {args : List Expr} (h : e.constructor? = some (kind, args)) :
    tracer.fieldRead? e = none := by
  unfold Expr.constructor? at h
  split at h
  · next callee args' pos he =>
    have hcall : e.unassert = .call callee args' pos := by rw [Expr.unassert, he]
    unfold Tracer.fieldRead?
    rw [hcall]
    simp only
    split
    · next x sel pos hc =>
      split
      · split
        · next receiver hx hget =>
          -- the name of the callee would have to be both
          have hsel : (sel == "Get" || sel == "GetOk") = true := (Bool.and_eq_true_iff.mp hget).1
          simp [Expr.calleeName?, hc, ConstructorKind.ofName?_accessor hsel] at h
        · rfl
      · rfl
    · rfl
  · cases h

/-! ### Commit calls -/

namespace Tracer

/-- The expression is a commit call `r.SetID(…)` or `r.SetId(…)` of a commit receiver
`r`, with any arguments. -/
inductive CommitCall (tracer : Tracer) (args : List Expr) : Expr → Prop where
  | call {callee x : Expr} {sel receiver : String} {pos pos' posx : Pos}
    (hcallee : callee.unparen = .selector x sel pos') (hsel : sel = "SetID" ∨ sel = "SetId")
    (hx : x.unparen = .ident receiver posx) (hreceiver : receiver ∈ tracer.commitReceivers) :
    CommitCall tracer args (.call callee args pos)

/-- The calls whose arguments are committed are the commit calls. -/
theorem commitArgs?_eq_some_iff {tracer : Tracer} {e : Expr} {args : List Expr} :
    tracer.commitArgs? (.expr e) = some args ↔ tracer.CommitCall args e := by
  constructor
  · intro h
    unfold commitArgs? at h
    split at h
    · next callee args' pos he =>
      split at h
      · next x sel pos' hcallee =>
        split at h
        · next hcond =>
          obtain ⟨hsel, hx⟩ := Bool.and_eq_true_iff.mp hcond
          obtain ⟨receiver, hident, hmem⟩ := (Option.any_eq_true _ _).mp hx
          obtain ⟨posx, hx⟩ := Expr.ident?_eq_some_iff.mp hident
          have hsel : sel = "SetID" ∨ sel = "SetId" := by simpa using hsel
          have hreceiver : receiver ∈ tracer.commitReceivers := by simpa using hmem
          obtain rfl := Option.some.inj h
          cases he
          exact .call hcallee hsel hx hreceiver
        · cases h
      · cases h
    · cases h
  · rintro ⟨hcallee, hsel, hx, hreceiver⟩
    have hident := Expr.ident?_eq_some_iff.mpr ⟨_, hx⟩
    simp [commitArgs?, hcallee, hident, hsel, hreceiver]

/-- Only expressions are commit calls. -/
theorem exists_commitCall {tracer : Tracer} {n : Node} {args : List Expr}
    (h : tracer.commitArgs? n = some args) :
    ∃ call, n = .expr call ∧ tracer.CommitCall args call := by
  cases n with
  | expr call => exact ⟨call, rfl, commitArgs?_eq_some_iff.mp h⟩
  | stmt s => cases h
  | element el => cases h

/-- The commit calls of a block are nodes of it. -/
theorem commitCalls_eq (tracer : Tracer) (body : List Stmt) :
    tracer.commitCalls body = (blockNodes body).filterMap tracer.commitArgs? :=
  filterMap_blockVisits tracer.commitArgs? body

theorem mem_commitCalls_iff {tracer : Tracer} {body : List Stmt} {args : List Expr} :
    args ∈ tracer.commitCalls body ↔
      ∃ call, .expr call ∈ blockNodes body ∧ tracer.CommitCall args call := by
  rw [commitCalls_eq, List.mem_filterMap]
  constructor
  · rintro ⟨n, hn, hargs⟩
    obtain ⟨call, rfl, hcall⟩ := exists_commitCall hargs
    exact ⟨call, hn, hcall⟩
  · rintro ⟨call, hn, hcall⟩
    exact ⟨.expr call, hn, commitArgs?_eq_some_iff.mpr hcall⟩

end Tracer

/-! ### Values in a block -/

/-- A block gives values to variables in its statements, those in function literals too. -/
theorem blockBindings_eq (body : List Stmt) :
    blockBindings body = ((blockNodes body).filterMap Node.stmt?).flatMap Stmt.bindings := by
  rw [blockBindings, flatMap_blockVisits fun n => (n.stmt?.map Stmt.bindings).getD []]
  induction blockNodes body with
  | nil => rfl
  | cons n nodes ih =>
    rw [List.flatMap_cons, ih]
    cases h : n.stmt? with
    | none => rw [List.filterMap_cons_none h]; rfl
    | some s => rw [List.filterMap_cons_some h]; rfl

namespace Bindings

variable (tracer : Tracer)

/-! ### One value -/

theorem bind_of_field (b : Bindings) (name : String) {value : Expr} {field : String}
    (h : tracer.fieldRead? value = some field) :
    b.bind tracer name value = { b with fields := b.fields.insert name field } := by
  simp [bind, h]

theorem bind_of_neither (b : Bindings) (name : String) {value : Expr}
    (hf : tracer.fieldRead? value = none) (hc : value.constructor? = none) :
    b.bind tracer name value = b := by
  simp [bind, hf, hc]

theorem ids_bind_of_constructor (b : Bindings) (name : String) {value : Expr}
    {kind : ConstructorKind} {args : List Expr} (h : value.constructor? = some (kind, args)) :
    (b.bind tracer name value).ids = b.ids.insert name (b.resolveArgs tracer args) := by
  cases kind with
  | new => simp [bind, tracer.fieldRead?_of_constructor h, h]
  | parse => simp [bind, tracer.fieldRead?_of_constructor h, h]

theorem fields_bind_of_constructor (b : Bindings) (name : String) {value : Expr}
    {kind : ConstructorKind} {args : List Expr} (h : value.constructor? = some (kind, args)) :
    (b.bind tracer name value).fields = b.fields := by
  cases kind with
  | new => simp [bind, tracer.fieldRead?_of_constructor h, h]
  | parse => simp [bind, tracer.fieldRead?_of_constructor h, h]

/-- The identifiers of one variable after a value is given. -/
theorem ids_bind (b : Bindings) (name v : String) (value : Expr) :
    (b.bind tracer name value).ids.get? v =
      if name = v then (value.constructor?.map fun c => b.resolveArgs tracer c.2).or (b.ids.get? v)
      else b.ids.get? v := by
  cases hc : value.constructor? with
  | some c =>
    rw [ids_bind_of_constructor tracer b name hc, Table.get?_insert]
    rfl
  | none =>
    cases hf : tracer.fieldRead? value with
    | some field => simp [bind_of_field tracer b name hf]
    | none => simp [bind_of_neither tracer b name hf hc]

/-- The fields of one variable after a value is given. -/
theorem fields_bind (b : Bindings) (name v : String) (value : Expr) :
    (b.bind tracer name value).fields.get? v =
      if name = v then (tracer.fieldRead? value).or (b.fields.get? v) else b.fields.get? v := by
  cases hf : tracer.fieldRead? value with
  | some field =>
    rw [bind_of_field tracer b name hf, Table.get?_insert]
    rfl
  | none =>
    cases hc : value.constructor? with
    | some c => simp [fields_bind_of_constructor tracer b name hc]
    | none => simp [bind_of_neither tracer b name hf hc]

/-! ### Many values -/

/-- The tables after variables are given values one after the other. -/
def after (values : List (String × Expr)) : Bindings :=
  values.foldl (fun b p => b.bind tracer p.1 p.2) {}

theorem collect_eq_after (body : List Stmt) :
    collect tracer body = after tracer (blockBindings body) := rfl

theorem after_concat (values : List (String × Expr)) (p : String × Expr) :
    after tracer (values ++ [p]) = (after tracer values).bind tracer p.1 p.2 := by
  simp [after]

/-- Values that change no answer to a question can be left out behind others. -/
theorem ask_after_append {α : Type} (ask : Bindings → α) (values more : List (String × Expr))
    (h : ∀ p ∈ more, ∀ b : Bindings, ask (b.bind tracer p.1 p.2) = ask b) :
    ask (after tracer (values ++ more)) = ask (after tracer values) := by
  induction more using List.reverseRecOn with
  | nil => rw [List.append_nil]
  | append_singleton more p ih =>
    have hp := h p (by simp) (after tracer (values ++ more))
    have ih := ih fun q hq => h q (List.mem_append_left _ hq)
    rw [← List.append_assoc, after_concat, hp, ih]

/-- A variable that is given no constructor call holds no identifier. -/
theorem ids_after_eq_none {v : String} (values : List (String × Expr))
    (h : ∀ e, (v, e) ∈ values → e.constructor? = none) : (after tracer values).ids.get? v = none := by
  refine ask_after_append tracer (·.ids.get? v) [] values fun p hp b => ?_
  obtain ⟨name, value⟩ := p
  show (b.bind tracer name value).ids.get? v = b.ids.get? v
  rw [ids_bind]
  split
  · next hn =>
    subst hn
    rw [h value hp]
    rfl
  · rfl

/-- A variable that is given no field read holds no field. -/
theorem fields_after_eq_none {v : String} (values : List (String × Expr))
    (h : ∀ e, (v, e) ∈ values → tracer.fieldRead? e = none) :
    (after tracer values).fields.get? v = none := by
  refine ask_after_append tracer (·.fields.get? v) [] values fun p hp b => ?_
  obtain ⟨name, value⟩ := p
  show (b.bind tracer name value).fields.get? v = b.fields.get? v
  rw [fields_bind]
  split
  · next hn =>
    subst hn
    rw [h value hp]
    rfl
  · rfl

/-- Values given to other variables change nothing for a variable. -/
theorem variableIds_after_append {v : String} (values more : List (String × Expr))
    (h : ∀ e, (v, e) ∉ more) :
    (after tracer (values ++ more)).variableIds v = (after tracer values).variableIds v := by
  refine ask_after_append tracer (·.variableIds v) values more fun p hp b => ?_
  obtain ⟨name, value⟩ := p
  have hn : name ≠ v := fun hn => h value (hn ▸ hp)
  simp only [variableIds, ids_bind, fields_bind, if_neg hn]

end Bindings

/-! ### Some bodies -/

/-- A call of a member of a variable or a package. -/
def Expr.callOn (receiver sel : String) (args : List Expr) : Expr :=
  .call (.selector (.ident receiver {}) sel {}) args {}

def Expr.getField (field : String) : Expr := .callOn "d" "Get" [.lit .string field {}]

def Stmt.give (v : String) (e : Expr) : Stmt := .assign [.ident v {}] [e] true {}

def Stmt.commit (arg : Expr) : Stmt := .expr (.callOn "d" "SetId" [arg])

def FuncDecl.ofBody (body : List Stmt) : FuncDecl := ⟨"resourceAccountCreate", none, some body, {}⟩

def plainTracer : Tracer := ⟨{}, ["d"], ["d", "meta", "metadata"]⟩

/-- The identifier of a field that a variable holds and of a field. -/
def giveAccountId : List Stmt :=
  [.give "group" (.getField "resource_group_name"),
    .give "id" (.callOn "parse" "NewAccountID" [.ident "group" {}, .getField "name"])]

/-- An identifier that is committed twice and given no value behind. -/
def accountTwice : List Stmt :=
  giveAccountId ++ .commit (.ident "id" {}) :: [.commit (.callOn "id" "ID" [])]

end FieldOrder
