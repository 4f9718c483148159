/-
# Statements around a function's commits

The trace of a function does not depend on how its statements are nested. All that it
takes from a body are the values that variables are given and the arguments that are
committed, in source order, and of each no more than what tracing looks at
(`Tracer.Event`, `Tracer.traceBlock_eq`). Walking through a statement that only wraps
others, in a block, a branch, a loop or a function literal, meets the same events
(`Stmt.Wraps.events_eq`). Wrapping a run somewhere in a tree neither moves an event nor
changes what tracing sees of the expressions around (`Tracer.SameEvents.of_wrapped`).

Key definitions: `Expr.outline`, `Tracer.Event`, `Tracer.events`, `Tracer.ResolutionAt`.
Key theorems: `Expr.keepsHeads_outline`, `Tracer.traceBlock_eq`,
`Tracer.SameEvents.of_wrapped`, `Tracer.traceFunction_structure`.
-/
import FieldOrder.Proofs.Provenance.Answers
import FieldOrder.Proofs.Provenance.Composition
import FieldOrder.Proofs.Syntax.Addresses
import FieldOrder.Proofs.Syntax.Wrapping

namespace FieldOrder

/-! ### What tracing sees of an expression -/

mutual

/-- What tracing sees of an expression: sealed expressions are all the same, and
parentheses are looked through. -/
def Expr.outline : Expr → Expr
  | .ident name pos => .ident name pos
  | .lit kind value pos => .lit kind value pos
  | .selector x sel pos => .selector x.outline sel pos
  | .call callee args pos => .call callee.outline (outlines args) pos
  | .typeAssert x type => .typeAssert x.outline type
  | .paren x => x.outline
  | .composite .. => .other
  | .unary .. => .other
  | .star .. => .other
  | .binary .. => .other
  | .index .. => .other
  | .funcLit .. => .other
  | .other => .other

def outlines : List Expr → List Expr
  | [] => []
  | x :: rest => x.outline :: outlines rest

end

theorem outlines_eq_map (es : List Expr) : outlines es = es.map Expr.outline := by
  induction es with
  | nil => rfl
  | cons x rest ih => rw [outlines, ih, List.map_cons]

namespace Expr

theorem outline_call (callee : Expr) (args : List Expr) (pos : Pos) :
    (call callee args pos).outline = .call callee.outline (args.map outline) pos := by
  rw [outline, outlines_eq_map]

/-- Tracing sees all that it looks at. -/
theorem keepsHeads_outline : KeepsHeads outline
  | .paren x => by
    rw [unparen_paren]
    exact keepsHeads_outline x
  | .ident name pos => .ident name pos
  | .lit kind value pos => .lit kind value pos
  | .selector x sel pos => .selector x sel pos
  | .call callee args pos => by
    rw [outline_call]
    exact .call callee args pos
  | .typeAssert x type => .typeAssert x type
  | .composite .. => .sealed (.composite ..) .other
  | .unary .. => .sealed (.unary ..) .other
  | .star .. => .sealed (.star ..) .other
  | .binary .. => .sealed (.binary ..) .other
  | .index .. => .sealed (.index ..) .other
  | .funcLit .. => .sealed (.funcLit ..) .other
  | .other => .sealed .other .other

end Expr

/-! ### Events -/

/-- What the trace of a function takes from a place in its body. -/
inductive Tracer.Event where
  /-- A variable is given a value. -/
  | value (name : String) (value : Expr)
  /-- Arguments are committed. -/
  | commit (args : List Expr)

namespace Tracer

def Event.value? : Event → Option (String × Expr)
  | .value name e => some (name, e)
  | .commit _ => none

def Event.commit? : Event → Option (List Expr)
  | .value .. => none
  | .commit args => some args

variable (tracer : Tracer)

/-- The events at a node, with what tracing sees of their expressions. -/
def eventsAt : Node → List Event
  | .stmt s => s.bindings.map fun p => .value p.1 p.2.outline
  | .expr e => ((tracer.commitArgs? (.expr e)).map (·.map Expr.outline)).toList.map .commit
  | .element _ => []

/-- The events that a walk from a node meets. -/
def events (n : Node) : List Event := n.nodes.flatMap tracer.eventsAt

/-- The events that the walk of a block meets. -/
def blockEvents (body : List Stmt) : List Event := (blockNodes body).flatMap tracer.eventsAt

/-- The events at a node come before those of its children. -/
theorem events_eq (n : Node) :
    tracer.events n = tracer.eventsAt n ++ n.children.flatMap tracer.events := by
  rw [events, n.nodes_eq, List.flatMap_cons, List.flatMap_assoc]
  rfl

theorem blockEvents_eq (body : List Stmt) :
    tracer.blockEvents body = (body.map Node.stmt).flatMap tracer.events := by
  rw [blockEvents, blockNodes_eq_flatMap, List.flatMap_assoc, List.flatMap_map]
  rfl

theorem events_block (body : List Stmt) :
    tracer.events (.stmt (.block body)) = tracer.blockEvents body := by
  rw [events_eq, blockEvents_eq]
  rfl

theorem filterMap_value?_eventsAt (n : Node) : (tracer.eventsAt n).filterMap Event.value? =
    ((n.stmt?.map Stmt.bindings).getD []).map fun p => (p.1, p.2.outline) := by
  cases n with
  | stmt s =>
    rw [eventsAt, List.filterMap_map]
    exact congrFun List.filterMap_eq_map s.bindings
  | expr e => simp [eventsAt, List.filterMap_map, Function.comp_def, Event.value?, Node.stmt?]
  | element el => rfl

theorem filterMap_commit?_eventsAt (n : Node) : (tracer.eventsAt n).filterMap Event.commit? =
    (tracer.commitArgs? n).toList.map (·.map Expr.outline) := by
  cases n with
  | stmt s => simp [eventsAt, List.filterMap_map, Function.comp_def, Event.commit?, commitArgs?]
  | expr e =>
    rw [eventsAt]
    cases tracer.commitArgs? (.expr e) with
    | none => rfl
    | some args => rfl
  | element el => rfl

/-- The values among the events are those that variables of the block are given. -/
theorem filterMap_value?_blockEvents (body : List Stmt) :
    (tracer.blockEvents body).filterMap Event.value? =
      (blockBindings body).map fun p => (p.1, p.2.outline) := by
  rw [blockEvents, List.filterMap_flatMap, blockBindings,
    flatMap_blockVisits fun n => (n.stmt?.map Stmt.bindings).getD [], List.map_flatMap]
  exact List.flatMap_congr fun n _ => tracer.filterMap_value?_eventsAt n

/-- The commits among the events are those of the block. -/
theorem filterMap_commit?_blockEvents (body : List Stmt) :
    (tracer.blockEvents body).filterMap Event.commit? =
      (tracer.commitCalls body).map (·.map Expr.outline) := by
  rw [blockEvents, List.filterMap_flatMap, commitCalls_eq, List.filterMap_eq_flatMap_toList,
    List.map_flatMap]
  exact List.flatMap_congr fun n _ => tracer.filterMap_commit?_eventsAt n

/-- What a commit of these arguments resolves to by the tables. A commit of anything but
one value cannot be resolved. -/
def resolve (b : Bindings) : List Expr → Resolution (List String)
  | [arg] => b.resolveCommit tracer arg
  | _ => .unresolvable

theorem resolve_outlines (b : Bindings) : ∀ args : List Expr,
    tracer.resolve b (args.map Expr.outline) = tracer.resolve b args
  | [] => rfl
  | [arg] => Expr.keepsHeads_outline.resolveCommit tracer b arg
  | _ :: _ :: _ => rfl

theorem traceBlock_eq_map (body : List Stmt) : tracer.traceBlock body =
    (tracer.commitCalls body).map (tracer.resolve (Bindings.collect tracer body)) := rfl

/-- The trace of a block is told by its events. -/
theorem traceBlock_eq (body : List Stmt) : tracer.traceBlock body =
    ((tracer.blockEvents body).filterMap Event.commit?).map
      (tracer.resolve (Bindings.after tracer ((tracer.blockEvents body).filterMap Event.value?))) := by
  rw [filterMap_value?_blockEvents, filterMap_commit?_blockEvents, Expr.keepsHeads_outline.after,
    ← Bindings.collect_eq_after, List.map_map, traceBlock_eq_map]
  exact List.map_congr_left fun args _ => (tracer.resolve_outlines _ args).symm

end Tracer

/-! ### Events of wrapped statements -/

section Wrapped

variable {tracer : Tracer}

/-- An inert expression gives no variable a value and commits nothing. -/
theorem Expr.Inert.events_eq_nil {e : Expr} (h : e.Inert) : tracer.events (.expr e) = [] := by
  refine List.flatMap_eq_nil_iff.mpr fun n hn => ?_
  have hcall : n.isCall = false := (h n hn).1
  have hstmt : n.stmt? = none := h.stmtFree n hn
  cases n with
  | stmt s => cases hstmt
  | element el => rfl
  | expr x =>
    cases x with
    | call callee args pos => cases hcall
    | _ => rfl

theorem flatMap_events_of_inert {es : List Expr} (h : ∀ e ∈ es, e.Inert) :
    (es.map Node.expr).flatMap tracer.events = [] := by
  rw [List.flatMap_map, List.flatMap_eq_nil_iff]
  exact fun e he => (h e he).events_eq_nil

theorem Tracer.events_unparen (e : Expr) : tracer.events (.expr e.unparen) = tracer.events (.expr e) := by
  induction e using Expr.unparen.induct with
  | case1 x ih =>
    rw [Expr.unparen_paren, ih, tracer.events_eq (.expr (.paren x)), Node.children,
      List.flatMap_singleton]
    rfl
  | case2 e he =>
    cases e with
    | paren x => exact absurd rfl (he x)
    | _ => rfl

/-- The call of a function literal has the events of its body. -/
theorem Expr.RunsLiteral.events_eq {e : Expr} {body : List Stmt} (h : e.RunsLiteral body) :
    tracer.events (.expr e) = tracer.blockEvents body := by
  obtain ⟨callee, pos, pos', he, hcallee⟩ := h
  have hat : tracer.eventsAt (.expr (.call callee [] pos)) = [] := by
    simp [Tracer.eventsAt, Tracer.commitArgs?, hcallee]
  rw [← Tracer.events_unparen, he, Tracer.events_eq, hat, Node.children, List.map_nil,
    List.flatMap_singleton, ← Tracer.events_unparen, hcallee, Tracer.events_eq,
    Tracer.blockEvents_eq]
  rfl

theorem flatMap_events_of_inert? {e : Option Expr} (h : ∀ x ∈ e, x.Inert) :
    (e.toList.map Node.expr).flatMap tracer.events = [] :=
  flatMap_events_of_inert fun x hx => h x (Option.mem_toList.mp hx)

/-- A statement around a run has the events of the run. -/
theorem Stmt.Wraps.events_eq {run : List Stmt} {w : Stmt} (h : w.Wraps run) :
    tracer.events (.stmt w) = tracer.blockEvents run := by
  have hrow : tracer.blockEvents run = (run.map Node.stmt).flatMap tracer.events :=
    tracer.blockEvents_eq run
  rw [Tracer.events_eq]
  cases h with
  | block => exact hrow.symm
  | cond htest => simp [Tracer.eventsAt, bindings, Node.children, hrow, htest.events_eq_nil]
  | loop htest =>
    simp [Tracer.eventsAt, bindings, Node.children, hrow, flatMap_events_of_inert? htest]
  | range hkey hvalue hx =>
    simp [Tracer.eventsAt, bindings, Node.children, hrow, flatMap_events_of_inert? hkey,
      flatMap_events_of_inert? hvalue, hx.events_eq_nil]
  | switch hsubject hexprs =>
    simp [Tracer.eventsAt, bindings, Node.children, hrow, flatMap_events_of_inert? hsubject,
      flatMap_events_of_inert hexprs]
  | defer hcall => simp [Tracer.eventsAt, bindings, Node.children, hcall.events_eq]
  | call hcall => simp [Tracer.eventsAt, bindings, Node.children, hcall.events_eq]

end Wrapped

/-! ### Wrapping a run somewhere -/

/-- What tracing sees of a node that is an expression. -/
def Node.outline? : Node → Option Expr
  | expr e => some e.outline
  | _ => none

namespace Tracer

/-- Tracing takes the same from two nodes, and sees the same of them where they stand in
another expression. -/
structure SameEvents (tracer : Tracer) (n n' : Node) : Prop where
  outline : n.outline? = n'.outline?
  events : tracer.events n = tracer.events n'

variable {tracer : Tracer}

theorem SameEvents.outline_eq {x x' : Expr} (h : tracer.SameEvents (.expr x) (.expr x')) :
    x.outline = x'.outline := Option.some.inj h.outline

theorem SameEvents.blockEvents_eq {body body' : List Stmt}
    (h : tracer.SameEvents (.stmt (.block body)) (.stmt (.block body'))) :
    tracer.blockEvents body = tracer.blockEvents body' := by
  rw [← events_block, ← events_block]
  exact h.events

theorem SameEvents.row {body body' : List Stmt}
    (h : tracer.SameEvents (.stmt (.block body)) (.stmt (.block body'))) :
    (body.map Node.stmt).flatMap tracer.events = (body'.map Node.stmt).flatMap tracer.events := by
  rw [← tracer.blockEvents_eq, ← tracer.blockEvents_eq]
  exact h.blockEvents_eq

/-- Two nodes give the same events when they do so themselves and their children do. -/
theorem SameEvents.of_children {n n' : Node} (houtline : n.outline? = n'.outline?)
    (hat : tracer.eventsAt n = tracer.eventsAt n')
    (hchildren : n.children.flatMap tracer.events = n'.children.flatMap tracer.events) :
    tracer.SameEvents n n' :=
  ⟨houtline, by rw [events_eq, events_eq, hat, hchildren]⟩

/-- The events at a call are told by what tracing sees of its parts. -/
theorem eventsAt_call (callee : Expr) (args : List Expr) (pos : Pos) :
    tracer.eventsAt (.expr (.call callee args pos)) =
      (tracer.commitArgs? (.expr (.call callee.outline (args.map Expr.outline) pos))).toList.map
        .commit := by
  rw [eventsAt, Expr.keepsHeads_outline.commitArgs?]

/-- The events at an assignment are told by what tracing sees of its parts. -/
theorem eventsAt_assign (lhs rhs : List Expr) (define : Bool) (pos : Pos) :
    tracer.eventsAt (.stmt (.assign lhs rhs define pos)) =
      (Stmt.assign (lhs.map Expr.outline) (rhs.map Expr.outline) define pos).bindings.map
        fun p => .value p.1 p.2 := by
  rw [eventsAt, Expr.keepsHeads_outline.bindings_assign, List.map_map]
  rfl

theorem eventsAt_var (names : List String) (type : Option TypeExpr) (values : List Expr)
    (pos : Pos) : tracer.eventsAt (.stmt (.var names type values pos)) =
      (names.zip (values.map Expr.outline)).map fun p => .value p.1 p.2 := by
  rw [eventsAt, Stmt.bindings, List.zip_map_right, List.map_map]
  rfl

/-- **Wrapping moves no event.** Two trees that are the same but for a run that is
wrapped in the second have the same events. -/
theorem SameEvents.of_wrapped {n n' : Node} (h : Node.Wrapped n n') : tracer.SameEvents n n' := by
  induction h with
  | run hw => exact .of_children rfl rfl (by simp [Node.children, hw.events_eq, tracer.blockEvents_eq])
  | alone hw =>
    refine ⟨rfl, ?_⟩
    rw [hw.events_eq, tracer.blockEvents_eq, List.map_singleton, List.flatMap_singleton]
  -- tracing looks at the expression from the one around it
  | selector _ ih | paren _ ih | typeAssert _ ih =>
    exact .of_children (by simp [Node.outline?, Expr.outline, ih.outline_eq]) rfl
      (by simp [Node.children, ih.events])
  | callee _ ih | arg _ ih =>
    exact .of_children (by simp [Node.outline?, Expr.outline_call, ih.outline_eq])
      (by simp [eventsAt_call, ih.outline_eq]) (by simp [Node.children, ih.events])
  | target _ ih | assigned _ ih =>
    exact .of_children rfl (by simp [eventsAt_assign, ih.outline_eq])
      (by simp [Node.children, ih.events])
  | var _ ih =>
    exact .of_children rfl (by simp [eventsAt_var, ih.outline_eq])
      (by simp [Node.children, ih.events])
  -- a row of statements inside
  | funcLit _ ih | condYes _ ih | loopBody _ ih | rangeBody _ ih | caseBody _ ih =>
    exact .of_children rfl rfl (by simp [Node.children, ih.row])
  -- nothing but the events inside matters
  | block _ ih | composite _ ih | key _ ih | value _ ih | unary _ ih | star _ ih | left _ ih
  | right _ ih | indexed _ ih | index _ ih | expr _ ih | ret _ ih | condInit _ ih | condTest _ ih
  | condNo _ ih | loopInit _ ih | loopTest _ ih | loopPost _ ih | rangeKey _ ih | rangeValue _ ih
  | rangeOver _ ih | switchInit _ ih | switchSubject _ ih | caseExpr _ ih | defer _ ih | go _ ih =>
    exact .of_children rfl rfl (by simp [Node.children, ih.events])

/-! ### The trace of a function -/

/-- At the address in the body stands a commit call, and `r` is what it resolves to. -/
def ResolutionAt (tracer : Tracer) (body : List Stmt) (a : List Nat)
    (r : Resolution (List String)) : Prop :=
  ∃ call args, nodeAt? (body.map .stmt) a = some (.expr call) ∧ tracer.CommitCall args call ∧
    r = tracer.resolve (Bindings.collect tracer body) args

/-- What a walk makes of the visit at an address is the resolution of what stands there. -/
theorem resolutionAt_iff {body : List Stmt} {a : List Nat} {r : Resolution (List String)} :
    (∃ v, visitAt? [] (body.map .stmt) a = some v ∧
      (tracer.commitArgs? v.node).map (tracer.resolve (Bindings.collect tracer body)) = some r) ↔
        tracer.ResolutionAt body a r := by
  constructor
  · rintro ⟨v, hv, hr⟩
    obtain ⟨args, hargs, rfl⟩ := Option.map_eq_some_iff.mp hr
    obtain ⟨call, hnode, hcall⟩ := exists_commitCall hargs
    have hat := (nodeAt?_eq_some_iff []).mpr ⟨v, hv, hnode⟩
    exact ⟨call, args, hat, hcall, rfl⟩
  · rintro ⟨call, args, hat, hcall, rfl⟩
    obtain ⟨v, hv, hnode⟩ := (nodeAt?_eq_some_iff []).mp hat
    refine ⟨v, hv, ?_⟩
    rw [hnode, commitArgs?_eq_some_iff.mpr hcall, Option.map_some]

/-- A block is traced commit by commit, in the order of their addresses. -/
theorem traceBlock_inPreorder (body : List Stmt) :
    InPreorder (tracer.ResolutionAt body) (tracer.traceBlock body) := by
  have hvisits := inPreorder_visits [] (body.map Node.stmt)
  rw [← blockVisits_eq] at hvisits
  rw [traceBlock_eq_map, commitCalls, List.map_filterMap]
  exact (hvisits.filterMap _).congr fun a r => resolutionAt_iff

/-- Wrapped runs do not change what a block is traced to. -/
theorem traceBlock_of_wrapped {body body' : List Stmt}
    (h : Node.Wrapped (.stmt (.block body)) (.stmt (.block body'))) :
    tracer.traceBlock body' = tracer.traceBlock body := by
  have hevents : tracer.blockEvents body = tracer.blockEvents body' :=
    (SameEvents.of_wrapped h).blockEvents_eq
  rw [traceBlock_eq, traceBlock_eq, hevents]

end Tracer

/-- **Statement structure does not change the trace.** A function has one resolution for
each commit call in its body, in the order of the addresses. A run of statements that is
wrapped somewhere in the body leaves them as they are. -/
theorem Tracer.traceFunction_structure (tracer : Tracer) (f : FuncDecl) :
    InPreorder (tracer.ResolutionAt (f.body.getD [])) (tracer.traceFunction f) ∧
    ∀ body body', f.body = some body → Node.Wrapped (.stmt (.block body)) (.stmt (.block body')) →
      tracer.traceFunction { f with body := some body' } = tracer.traceFunction f := by
  constructor
  · unfold traceFunction
    cases f.body with
    | none => exact traceBlock_inPreorder []
    | some body => exact traceBlock_inPreorder body
  · intro body body' hbody hwrapped
    rw [traceFunction, traceFunction, hbody]
    exact traceBlock_of_wrapped hwrapped

def commitId : Stmt := .commit (.ident "id" {})

/-- The commit in a function literal that is deferred. -/
def deferredCommitId : Stmt := .defer (.call (.funcLit [commitId] {}) [] {})

theorem traceFunction_structure_deferred :
    Node.Wrapped (.stmt (.block (giveAccountId ++ [commitId] ++ [])))
        (.stmt (.block (giveAccountId ++ [deferredCommitId]))) ∧
      plainTracer.traceFunction (.ofBody (giveAccountId ++ [deferredCommitId])) =
        [.resolved ["resource_group_name", "name"]] := by
  have hrun : deferredCommitId.Wraps [commitId] := .defer ⟨_, {}, {}, rfl, rfl⟩
  have hwrapped : Node.Wrapped (.stmt (.block (giveAccountId ++ [commitId] ++ [])))
      (.stmt (.block (giveAccountId ++ [deferredCommitId]))) := .run hrun
  obtain ⟨-, hsame⟩ := Tracer.traceFunction_structure plainTracer
    (.ofBody (giveAccountId ++ [commitId] ++ []))
  exact ⟨hwrapped, (hsame _ _ rfl hwrapped).trans (by decide)⟩

end FieldOrder
