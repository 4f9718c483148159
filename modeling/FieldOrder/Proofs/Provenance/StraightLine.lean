/-
# Commits in straight-line functions

A straight-line function is a flat list of statements, each of which gives one
variable a value or commits one variable. The tables are filled from the whole
body before any commit is looked at. So a commit does not see the value that its
variable has at that place but the last one of the body (`Tracer.heldAfter`):
of a constructor call the resolution of its arguments by the tables of what
stands before, of a field read the field, and of anything else nothing. When the
variable is given no value behind the commit, this is the value at the commit
(`traceFunction_commit`).

Nothing is said here of a variable whose last value stands in another table, or
in no table, while a table still has an earlier one (`Tracer.Outdated`).

Key definitions: `Stmt.assigns?`, `Tracer.commits?`, `Tracer.Simple`,
`Stmt.lastAssignment?`, `Tracer.heldAfter`, `Tracer.Outdated`.
Key theorems: `variableIds_collect`, `traceFunction_commit`,
`traceFunction_not_at_commit`.
-/
import FieldOrder.Proofs.Provenance.Tables

namespace FieldOrder

/-! ### Simple statements -/

/-- The variable to which a statement gives its one value, with the value. -/
def Stmt.assigns? : Stmt → Option (String × Expr)
  | .assign [target] [value] _ _ => target.ident?.map (·, value)
  | _ => none

/-- The variable in an argument `v`, `v.ID()` or `v.String()`. -/
def Expr.committedVar? (arg : Expr) : Option String :=
  match arg.unparen with
  | .ident name _ => some name
  | .call callee [] _ =>
    match callee.unparen with
    | .selector x sel _ => if sel = "ID" ∨ sel = "String" then x.ident? else none
    | _ => none
  | _ => none

/-- The variable that a statement commits. -/
def Tracer.commits? (tracer : Tracer) : Stmt → Option String
  | .expr x =>
    match tracer.commitArgs? (.expr x.unparen) with
    | some [arg] => arg.committedVar?
    | _ => none
  | _ => none

/-- A statement that gives one variable a value without function literals, or
commits one variable. -/
def Tracer.Simple (tracer : Tracer) (s : Stmt) : Prop :=
  (∃ v e, s.assigns? = some (v, e) ∧ e.LiteralFree) ∨ ∃ v, tracer.commits? s = some v

/-! ### What a variable holds -/

/-- The last value that statements give to a variable, with the statements before. -/
def Stmt.lastAssignment? (v : String) : List Stmt → Option (List Stmt × Expr)
  | [] => none
  | s :: rest =>
    match lastAssignment? v rest with
    | some (before, e) => some (s :: before, e)
    | none =>
      match s.assigns? with
      | some (w, e) => if w = v then some ([], e) else none
      | none => none

namespace Tracer

variable (tracer : Tracer)

/-- What a value says of an identifier, when it stands behind other statements. -/
def valueIds (before : List Stmt) (e : Expr) : Resolution (List String) :=
  match e.constructor? with
  | some (_, args) => (Bindings.collect tracer before).resolveArgs tracer args
  | none =>
    match tracer.fieldRead? e with
    | some field => .resolved [field]
    | none => .unresolvable

/-- What the last value of a variable says of an identifier. -/
def heldAfter (v : String) (body : List Stmt) : Resolution (List String) :=
  match Stmt.lastAssignment? v body with
  | some (before, e) => tracer.valueIds before e
  | none => .unresolvable

/-- The last value of the variable is no constructor call, and before it there is
one, or a field read although the last value is none. -/
def Outdated (v : String) (body : List Stmt) : Prop :=
  ∃ before e, Stmt.lastAssignment? v body = some (before, e) ∧ e.constructor? = none ∧
    ∃ s ∈ before, ∃ e', s.assigns? = some (v, e') ∧
      (e'.constructor?.isSome ∨ (tracer.fieldRead? e = none ∧ (tracer.fieldRead? e').isSome))

end Tracer

/-! ### The last assignment -/

theorem Stmt.lastAssignment?_eq_none {v : String} : ∀ {body : List Stmt},
    Stmt.lastAssignment? v body = none → ∀ s ∈ body, ∀ e, s.assigns? ≠ some (v, e)
  | [], _ => by simp
  | s :: rest, h => by
    unfold lastAssignment? at h
    split at h
    · cases h
    · next hrest =>
      refine List.forall_mem_cons.mpr ⟨fun e he => ?_, lastAssignment?_eq_none hrest⟩
      simp [he] at h

theorem Stmt.lastAssignment?_eq_some {v : String} : ∀ {body before : List Stmt} {e : Expr},
    Stmt.lastAssignment? v body = some (before, e) → ∃ s after, body = before ++ s :: after ∧
      s.assigns? = some (v, e) ∧ ∀ s' ∈ after, ∀ e', s'.assigns? ≠ some (v, e')
  | [], _, _, h => by cases h
  | s :: rest, before, e, h => by
    unfold lastAssignment? at h
    split at h
    · next before' e' hrest =>
      obtain ⟨rfl, rfl⟩ := Prod.mk.inj (Option.some.inj h)
      obtain ⟨s', after, rfl, hs', hafter⟩ := lastAssignment?_eq_some hrest
      exact ⟨s', after, rfl, hs', hafter⟩
    · next hrest =>
      split at h
      · next w e' hs =>
        split at h
        · next hw =>
          obtain ⟨rfl, rfl⟩ := Prod.mk.inj (Option.some.inj h)
          subst hw
          exact ⟨s, rest, rfl, hs, lastAssignment?_eq_none hrest⟩
        · cases h
      · cases h

/-- Statements that give the variable no value do not change the last one. -/
theorem Stmt.lastAssignment?_append {v : String} {more : List Stmt}
    (h : ∀ s ∈ more, ∀ e, s.assigns? ≠ some (v, e)) (body : List Stmt) :
    Stmt.lastAssignment? v (body ++ more) = Stmt.lastAssignment? v body := by
  induction body with
  | nil =>
    rw [List.nil_append]
    cases hlast : Stmt.lastAssignment? v more with
    | none => rfl
    | some p =>
      obtain ⟨s, after, rfl, hs, -⟩ := Stmt.lastAssignment?_eq_some hlast
      exact absurd hs (h s (by simp) p.2)
  | cons s body ih =>
    rw [List.cons_append, lastAssignment?, lastAssignment?, ih]

/-! ### Walks of simple statements -/

/-- A question that parentheses, identifiers and selected members do not answer. -/
structure IgnoresNames {α : Type} (g : Node → Option α) : Prop where
  paren : ∀ x, g (.expr (.paren x)) = none
  ident : ∀ name pos, g (.expr (.ident name pos)) = none
  selector : ∀ x sel pos, g (.expr (.selector x sel pos)) = none

theorem ignoresNames_stmt? : IgnoresNames Node.stmt? :=
  ⟨fun _ => rfl, fun _ _ => rfl, fun _ _ _ => rfl⟩

theorem ignoresNames_commitArgs? (tracer : Tracer) : IgnoresNames tracer.commitArgs? :=
  ⟨fun _ => rfl, fun _ _ => rfl, fun _ _ _ => rfl⟩

section Questions

variable {α : Type} {g : Node → Option α}

theorem IgnoresNames.filterMap_ident (hg : IgnoresNames g) {e : Expr} {v : String}
    (h : e.ident? = some v) : e.nodes.filterMap g = [] := by
  obtain ⟨pos, he⟩ := Expr.ident?_eq_some_iff.mp h
  rw [Expr.filterMap_nodes_unparen hg.paren, he, Expr.nodes_ident]
  simp [hg.ident]

/-- Of a call through a member of a variable, the call itself and its arguments answer. -/
theorem IgnoresNames.filterMap_call (hg : IgnoresNames g) {e callee x : Expr} {args : List Expr}
    {sel v : String} {pos pos' : Pos} (he : e.unparen = .call callee args pos)
    (hc : callee.unparen = .selector x sel pos') (hx : x.ident? = some v) : e.nodes.filterMap g =
      (g (.expr (.call callee args pos))).toList ++ args.flatMap fun a => a.nodes.filterMap g := by
  have hcallee : callee.nodes.filterMap g = [] := by
    rw [Expr.filterMap_nodes_unparen hg.paren, hc, Expr.nodes_selector, List.filterMap_cons,
      hg.selector, hg.filterMap_ident hx]
  rw [Expr.filterMap_nodes_unparen hg.paren, he, Expr.nodes_call, List.filterMap_cons,
    List.filterMap_append, hcallee, List.nil_append, List.filterMap_flatMap]
  cases g (.expr (.call callee args pos)) with
  | none => rfl
  | some a => rfl

/-- Of a commit call, the call itself and its arguments answer. -/
theorem IgnoresNames.filterMap_commitCall (hg : IgnoresNames g) {tracer : Tracer} {e : Expr}
    {args : List Expr} (h : tracer.CommitCall args e.unparen) : e.nodes.filterMap g =
      (g (.expr e.unparen)).toList ++ args.flatMap fun a => a.nodes.filterMap g := by
  generalize he : e.unparen = call at h ⊢
  obtain ⟨hcallee, -, hx, -⟩ := h
  exact hg.filterMap_call he hcallee (Expr.ident?_eq_some_iff.mpr ⟨_, hx⟩)

end Questions

/-- An argument that commits a variable is the variable or a call by `ID` or `String`. -/
theorem Expr.committedVar?_eq_some {arg : Expr} {v : String} (h : arg.committedVar? = some v) :
    arg.ident? = some v ∨ ∃ callee x sel pos pos', arg.unparen = .call callee [] pos ∧
      callee.unparen = .selector x sel pos' ∧ x.ident? = some v ∧ (sel = "ID" ∨ sel = "String") := by
  unfold committedVar? at h
  split at h
  · next name pos he => exact .inl (by rw [ident?, he]; exact h)
  · next callee pos he =>
    split at h
    · next x sel pos' hc =>
      split at h
      · next hsel => exact .inr ⟨callee, x, sel, pos, pos', he, hc, h, hsel⟩
      · cases h
    · cases h
  · cases h

/-- An argument that commits a variable is no commit call itself. -/
theorem Tracer.filterMap_commitArgs?_of_committedVar? (tracer : Tracer) {arg : Expr} {v : String}
    (h : arg.committedVar? = some v) : arg.nodes.filterMap tracer.commitArgs? = [] := by
  have hg := ignoresNames_commitArgs? tracer
  rcases Expr.committedVar?_eq_some h with h | ⟨callee, x, sel, pos, pos', he, hc, hx, hsel⟩
  · exact hg.filterMap_ident h
  · have hnone : tracer.commitArgs? (.expr (.call callee [] pos)) = none := by
      rcases hsel with rfl | rfl
      · simp [commitArgs?, hc]
      · simp [commitArgs?, hc]
    rw [hg.filterMap_call he hc hx, hnone]
    rfl

theorem Expr.filterMap_stmt?_of_committedVar? {arg : Expr} {v : String}
    (h : arg.committedVar? = some v) : arg.nodes.filterMap Node.stmt? = [] := by
  rcases committedVar?_eq_some h with h | ⟨callee, x, sel, pos, pos', he, hc, hx, -⟩
  · exact ignoresNames_stmt?.filterMap_ident h
  · rw [ignoresNames_stmt?.filterMap_call he hc hx]
    rfl

/-- A statement that commits a variable is a commit call of one argument. -/
theorem Tracer.commits?_eq_some {tracer : Tracer} {s : Stmt} {v : String}
    (h : tracer.commits? s = some v) : ∃ x arg, s = .expr x ∧
      tracer.commitArgs? (.expr x.unparen) = some [arg] ∧ arg.committedVar? = some v := by
  unfold commits? at h
  split at h
  · next x =>
    split at h
    · next arg harg => exact ⟨x, arg, rfl, harg, h⟩
    · cases h
  · cases h

theorem Stmt.assigns?_eq_some {s : Stmt} {v : String} {e : Expr} (h : s.assigns? = some (v, e)) :
    ∃ target define pos, s = .assign [target] [e] define pos ∧ target.ident? = some v := by
  unfold assigns? at h
  split at h
  · next target value define pos =>
    obtain ⟨name, ht, hp⟩ := Option.map_eq_some_iff.mp h
    obtain ⟨rfl, rfl⟩ := Prod.mk.inj hp
    exact ⟨target, define, pos, rfl, ht⟩
  · cases h

/-! ### The tables and commits of a straight-line body -/

namespace Tracer

variable {tracer : Tracer}

theorem commitCalls_append (tracer : Tracer) (a b : List Stmt) :
    tracer.commitCalls (a ++ b) = tracer.commitCalls a ++ tracer.commitCalls b := by
  simp only [commitCalls_eq, blockNodes_append, List.filterMap_append]

/-- A statement that commits a variable makes one commit call. -/
theorem commitCalls_of_commits? {s : Stmt} {v : String} (h : tracer.commits? s = some v) :
    ∃ arg, tracer.commitCalls [s] = [[arg]] ∧ arg.committedVar? = some v := by
  obtain ⟨x, arg, rfl, hargs, harg⟩ := commits?_eq_some h
  have hcall := commitArgs?_eq_some_iff.mp hargs
  refine ⟨arg, ?_, harg⟩
  rw [commitCalls_eq, blockNodes_eq_flatMap, List.flatMap_singleton, Stmt.nodes_expr,
    List.filterMap_cons, (ignoresNames_commitArgs? tracer).filterMap_commitCall hcall, hargs]
  simp [commitArgs?, filterMap_commitArgs?_of_committedVar? tracer harg]

end Tracer

/-- The walk of a simple statement meets no other statement. -/
theorem Tracer.Simple.filterMap_stmt? {tracer : Tracer} {s : Stmt} (h : tracer.Simple s) :
    s.nodes.filterMap Node.stmt? = [s] := by
  rcases h with ⟨v, e, hs, hfree⟩ | ⟨v, hs⟩
  · obtain ⟨target, define, pos, rfl, ht⟩ := Stmt.assigns?_eq_some hs
    have he : e.nodes.filterMap Node.stmt? = [] := List.filterMap_eq_nil_iff.mpr hfree.stmtFree
    simp [Stmt.nodes_assign, Node.stmt?, he, ignoresNames_stmt?.filterMap_ident ht]
  · obtain ⟨x, arg, rfl, hargs, harg⟩ := Tracer.commits?_eq_some hs
    have hcall := Tracer.commitArgs?_eq_some_iff.mp hargs
    rw [Stmt.nodes_expr, List.filterMap_cons, ignoresNames_stmt?.filterMap_commitCall hcall]
    simp [Node.stmt?, Expr.filterMap_stmt?_of_committedVar? harg]

/-- What a simple statement binds is what it assigns. -/
theorem Tracer.Simple.bindings {tracer : Tracer} {s : Stmt} (h : tracer.Simple s) :
    s.bindings = s.assigns?.toList := by
  rcases h with ⟨v, e, hs, -⟩ | ⟨v, hs⟩
  · obtain ⟨target, define, pos, rfl, ht⟩ := Stmt.assigns?_eq_some hs
    simp [Stmt.bindings, Stmt.assigns?, ht]
  · obtain ⟨x, arg, rfl, -, -⟩ := Tracer.commits?_eq_some hs
    rfl

theorem blockBindings_of_simple {tracer : Tracer} : ∀ {body : List Stmt},
    (∀ s ∈ body, tracer.Simple s) → blockBindings body = body.filterMap Stmt.assigns?
  | [], _ => rfl
  | s :: body, h => by
    obtain ⟨hs, hbody⟩ := List.forall_mem_cons.mp h
    have ih := blockBindings_of_simple hbody
    rw [blockBindings_eq, blockNodes_eq_flatMap] at ih ⊢
    rw [List.flatMap_cons, List.filterMap_append, hs.filterMap_stmt?, List.flatMap_append, ih,
      List.flatMap_singleton, hs.bindings]
    cases ha : s.assigns? with
    | none => rw [List.filterMap_cons_none ha]; rfl
    | some p => rw [List.filterMap_cons_some ha]; rfl

/-! ### What a commit resolves to -/

/-- A commit of a variable asks the tables for it. -/
theorem Bindings.resolveCommit_of_committedVar? (b : Bindings) (tracer : Tracer) {arg : Expr}
    {v : String} (h : arg.committedVar? = some v) : b.resolveCommit tracer arg = b.variableIds v := by
  rcases Expr.committedVar?_eq_some h with h | ⟨callee, x, sel, pos, pos', he, hc, hx, hsel⟩
  · obtain ⟨pos, he⟩ := Expr.ident?_eq_some_iff.mp h
    simp [resolveCommit, Expr.constructor?, he]
  · have hname : ConstructorKind.ofName? sel = none := by
      rcases hsel with rfl | rfl
      · decide
      · decide
    simp [resolveCommit, Expr.constructor?, he, hc, Expr.calleeName?, hname, hx, hsel]

/-- In the tables of a straight-line body stands the last value of a variable,
unless it is outdated. -/
theorem variableIds_collect {tracer : Tracer} {body : List Stmt} {v : String}
    (hflat : ∀ s ∈ body, tracer.Simple s) (hout : ¬tracer.Outdated v body) :
    (Bindings.collect tracer body).variableIds v = tracer.heldAfter v body := by
  have hcollect : ∀ {stmts : List Stmt}, (∀ s ∈ stmts, tracer.Simple s) →
      Bindings.collect tracer stmts = Bindings.after tracer (stmts.filterMap Stmt.assigns?) := by
    intro stmts h
    rw [Bindings.collect_eq_after, blockBindings_of_simple h]
  have hnotMem : ∀ {stmts : List Stmt} {e : Expr}, (∀ s ∈ stmts, s.assigns? ≠ some (v, e)) →
      (v, e) ∉ stmts.filterMap Stmt.assigns? := by
    intro stmts e h hmem
    obtain ⟨s, hs, ha⟩ := List.mem_filterMap.mp hmem
    exact h s hs ha
  rw [hcollect hflat, Tracer.heldAfter]
  cases hlast : Stmt.lastAssignment? v body with
  | none =>
    have hnone : ∀ e, (v, e) ∉ body.filterMap Stmt.assigns? := fun e =>
      hnotMem fun s hs => Stmt.lastAssignment?_eq_none hlast s hs e
    simp [Bindings.variableIds, Bindings.ids_after_eq_none tracer _ fun e he => absurd he (hnone e),
      Bindings.fields_after_eq_none tracer _ fun e he => absurd he (hnone e)]
  | some p =>
    obtain ⟨before, e⟩ := p
    obtain ⟨s, rest, rfl, hs, hrest⟩ := Stmt.lastAssignment?_eq_some hlast
    have hbefore : ∀ s ∈ before, tracer.Simple s := fun s hs => hflat s (List.mem_append_left _ hs)
    have hsplit : (before ++ s :: rest).filterMap Stmt.assigns? =
        (before.filterMap Stmt.assigns? ++ [(v, e)]) ++ rest.filterMap Stmt.assigns? := by
      rw [List.filterMap_append, List.filterMap_cons_some hs, List.append_assoc]
      rfl
    rw [hsplit, Bindings.variableIds_after_append tracer _ _ fun e' =>
      hnotMem fun s hs => hrest s hs e', Bindings.after_concat]
    -- an earlier value in a table that the last one leaves alone would be outdated
    have hearlier : ∀ e', (v, e') ∈ before.filterMap Stmt.assigns? → e.constructor? = none →
        e'.constructor? = none ∧ (tracer.fieldRead? e = none → tracer.fieldRead? e' = none) := by
      intro e' he' hc
      obtain ⟨s', hs', ha⟩ := List.mem_filterMap.mp he'
      constructor
      · by_contra hne
        exact hout ⟨before, e, hlast, hc, s', hs', e', ha, .inl (Option.isSome_iff_ne_none.mpr hne)⟩
      · intro hf
        by_contra hne
        exact hout ⟨before, e, hlast, hc, s', hs', e', ha,
          .inr ⟨hf, Option.isSome_iff_ne_none.mpr hne⟩⟩
    simp only [Bindings.variableIds, Bindings.ids_bind, Bindings.fields_bind, if_true,
      Tracer.valueIds, hcollect hbefore]
    cases hc : e.constructor? with
    | some c => rfl
    | none =>
      rw [Bindings.ids_after_eq_none tracer _ fun e' he' => (hearlier e' he' hc).1]
      cases hf : tracer.fieldRead? e with
      | some field => rfl
      | none =>
        rw [Bindings.fields_after_eq_none tracer _ fun e' he' => (hearlier e' he' hc).2 hf]
        rfl

/-- **What a commit resolves to.** In a straight-line function there is one
resolution for each commit call. The commit of a variable that is not outdated
resolves to what the variable holds after the whole body, and so to what it holds
at the commit when it is given no value behind it. -/
theorem traceFunction_commit (tracer : Tracer) {f : FuncDecl} {pre post : List Stmt} {s : Stmt}
    {v : String} (hf : f.body = some (pre ++ s :: post))
    (hflat : ∀ s' ∈ pre ++ s :: post, tracer.Simple s') (hs : tracer.commits? s = some v)
    (hout : ¬tracer.Outdated v (pre ++ s :: post)) :
    (tracer.traceFunction f).length = (tracer.commitCalls (pre ++ s :: post)).length ∧
      (tracer.traceFunction f)[(tracer.commitCalls pre).length]? =
        some (tracer.heldAfter v (pre ++ s :: post)) ∧
      ((∀ s' ∈ post, ∀ e, s'.assigns? ≠ some (v, e)) →
        tracer.heldAfter v (pre ++ s :: post) = tracer.heldAfter v pre) := by
  have htrace : tracer.traceFunction f = tracer.traceBlock (pre ++ s :: post) := by
    rw [Tracer.traceFunction, hf]
  obtain ⟨arg, hargs, harg⟩ := Tracer.commitCalls_of_commits? hs
  have hcalls : tracer.commitCalls (pre ++ s :: post) =
      tracer.commitCalls pre ++ [arg] :: tracer.commitCalls post := by
    rw [show pre ++ s :: post = pre ++ ([s] ++ post) from rfl, Tracer.commitCalls_append,
      Tracer.commitCalls_append, hargs]
    rfl
  refine ⟨?_, ?_, fun hpost => ?_⟩
  · rw [htrace, Tracer.traceBlock, List.length_map]
  · rw [htrace, Tracer.traceBlock, hcalls, List.map_append, List.getElem?_append_right (by simp)]
    simp [Bindings.resolveCommit_of_committedVar? _ tracer harg, variableIds_collect hflat hout]
  · have hnone : ∀ s' ∈ s :: post, ∀ e, s'.assigns? ≠ some (v, e) := by
      refine List.forall_mem_cons.mpr ⟨fun e he => ?_, hpost⟩
      obtain ⟨x, -, rfl, -, -⟩ := Tracer.commits?_eq_some hs
      cases he
    rw [Tracer.heldAfter, Tracer.heldAfter, Stmt.lastAssignment?_append hnone]

/-! ### Some functions -/

instance (e : Expr) : Decidable e.LiteralFree :=
  inferInstanceAs (Decidable (∀ n ∈ e.nodes, n.isFuncLit = false))

theorem Tracer.simple_iff (tracer : Tracer) (s : Stmt) : tracer.Simple s ↔
    (s.assigns?.any fun p => p.2.LiteralFree) ∨ (tracer.commits? s).isSome := by
  simp [Simple, Option.any_eq_true, Option.isSome_iff_exists]

instance (tracer : Tracer) (s : Stmt) : Decidable (tracer.Simple s) :=
  decidable_of_iff' _ (tracer.simple_iff s)

theorem traceFunction_commit_accountTwice :
    (∀ s ∈ accountTwice, plainTracer.Simple s) ∧
      plainTracer.commits? (.commit (.ident "id" {})) = some "id" ∧
      ¬plainTracer.Outdated "id" accountTwice ∧
      (plainTracer.traceFunction (.ofBody accountTwice)).length = 2 ∧
      (plainTracer.traceFunction (.ofBody accountTwice))[0]? =
        some (plainTracer.heldAfter "id" giveAccountId) ∧
      plainTracer.heldAfter "id" giveAccountId = .resolved ["resource_group_name", "name"] := by
  have hs : plainTracer.commits? (.commit (.ident "id" {})) = some "id" := by decide
  have hflat : ∀ s ∈ accountTwice, plainTracer.Simple s := by decide
  have hout : ¬plainTracer.Outdated "id" accountTwice := by
    rintro ⟨before, e, hlast, hc, -⟩
    cases hlast
    cases hc
  have hpost : ∀ s ∈ [Stmt.commit (.callOn "id" "ID" [])], ∀ e, s.assigns? ≠ some ("id", e) :=
    List.forall_mem_singleton.mpr nofun
  obtain ⟨hlen, hcommit, hheld⟩ := traceFunction_commit plainTracer (f := .ofBody accountTwice)
    rfl hflat hs hout
  exact ⟨hflat, hs, hout, hlen, (hheld hpost) ▸ hcommit, by decide⟩

/-- An identifier of a name that gets another identifier behind the commit. -/
def zoneBehind : List Stmt :=
  [.give "id" (.callOn "parse" "NewAccountID" [.getField "name"]), .commit (.ident "id" {}),
    .give "id" (.callOn "parse" "NewZoneID" [.getField "zone"])]

/-- An identifier of a name that is overwritten by a response before the commit. -/
def responseBetween : List Stmt :=
  [.give "id" (.callOn "parse" "NewAccountID" [.getField "name"]),
    .give "id" (.callOn "client" "Read" []), .commit (.ident "id" {})]

/-- What a commit resolves to need not be what the variable holds at the commit, also
when it is given no value behind. -/
theorem traceFunction_not_at_commit :
    ((∀ s ∈ zoneBehind, plainTracer.Simple s) ∧
      plainTracer.traceFunction (.ofBody zoneBehind) = [.resolved ["zone"]] ∧
      plainTracer.heldAfter "id" (zoneBehind.take 1) = .resolved ["name"]) ∧
    (∀ s ∈ responseBetween, plainTracer.Simple s) ∧
      plainTracer.traceFunction (.ofBody responseBetween) = [.resolved ["name"]] ∧
      plainTracer.heldAfter "id" (responseBetween.take 2) = .unresolvable := by
  have hzone : ∀ s ∈ zoneBehind, plainTracer.Simple s := by decide
  have hresponse : ∀ s ∈ responseBetween, plainTracer.Simple s := by decide
  exact ⟨⟨hzone, by decide, by decide⟩, hresponse, by decide, by decide⟩

end FieldOrder
