/-
# Which entries lead to another module

The value of an entry leads to another module when it is a call, and either a type
checker knows that the call goes to a function of another module, or nothing is known
of the call and it is written with the name of an import (`CallsOther`). A file needs the
helpers of other modules when a text key of one of its schema map literals has such a
value (`SourceFile.needsHelpers_iff`).

Key definitions: `SourceFile.nodes`, `CallsOther`, `SourceFile.UsesHelpers`.
Key theorems: `SourceFile.mem_nodes_of_mem_nodes`, `callRoute_eq_shared_iff`,
`Expr.route_congr`, `SourceFile.needsHelpers_iff`.
-/
import FieldOrder.Proofs.Schema.Extraction
import FieldOrder.Proofs.Syntax.Children
import FieldOrder.Schema.Map

namespace FieldOrder

/-! ### The nodes of a file -/

namespace Node

theorem map_node_visits (t : List Node) (n : Node) : (n.visits t).map (·.node) = n.nodes := by
  cases n with
  | stmt s => exact s.cons_node_inner _
  | expr e => exact e.cons_node_inner _
  | element el => exact el.cons_node_inner _

end Node

namespace SourceFile

/-- The nodes that the walk of a file meets. -/
def nodes (f : SourceFile) : List Node := f.visits.map (·.node)

theorem nodes_eq (f : SourceFile) : f.nodes = f.trees.flatMap Node.nodes := by
  rw [nodes, visits_eq, List.map_flatMap]
  exact List.flatMap_congr fun n _ => n.map_node_visits []

variable {f : SourceFile}

/-- What a walk from a node of a file meets, the walk of the file meets. -/
theorem mem_nodes_of_mem_nodes {m n : Node} (hn : n ∈ f.nodes) (hm : m ∈ n.nodes) : m ∈ f.nodes := by
  rw [nodes_eq] at hn ⊢
  obtain ⟨tree, htree, hn⟩ := List.mem_flatMap.mp hn
  exact List.mem_flatMap.mpr ⟨tree, htree, Node.nodes_subset hn hm⟩

theorem unparen_mem_nodes {e : Expr} (h : .expr e ∈ f.nodes) : .expr e.unparen ∈ f.nodes := by
  refine mem_nodes_of_mem_nodes h ?_
  obtain ⟨parens, he, -⟩ := e.nodes_eq_parens_append
  show Node.expr e.unparen ∈ e.nodes
  rw [he]
  exact List.mem_append_right parens (Node.expr e.unparen).self_mem_nodes

/-- The values of a literal's elements are met with it. -/
theorem value_mem_nodes {type : Option TypeExpr} {elements : List Element} {pos : Pos}
    (h : .expr (.composite type elements pos) ∈ f.nodes) {el : Element} (hel : el ∈ elements) :
    .expr el.value ∈ f.nodes := by
  have helement : .element el ∈ f.nodes :=
    mem_nodes_of_mem_nodes h (Node.mem_nodes_of_mem_children (List.mem_map_of_mem hel))
  refine mem_nodes_of_mem_nodes helement (Node.mem_nodes_of_mem_children ?_)
  obtain ⟨key, value⟩ := el
  exact List.mem_append_right _ (List.mem_singleton.mpr rfl)

end SourceFile

/-! ### Calls -/

/-- The call of `callee` at a place goes to the function `name` of another module: this
is known and the function is no method, or nothing is known of the call and it selects
the function from an import. -/
def CallsOther (facts : ModuleFacts) (file : SourceFile) (callee : Expr) (pos : Pos)
    (name : String) : Prop :=
  (∃ target, facts.calleeOf? file.path pos = some target ∧ target.method = false ∧
    target.module ≠ facts.module.path.text ∧ name = target.module ++ "." ++ target.name) ∨
  (facts.calleeOf? file.path pos = none ∧ ∃ x function selPos package packagePos path,
    callee.unparen = .selector x function selPos ∧ x.unparen = .ident package packagePos ∧
    file.importPath? package = some path ∧ name = path ++ "." ++ function)

section

variable {facts facts' : ModuleFacts} {file : SourceFile} {value callee : Expr} {pos : Pos}
  {name : String}

theorem callRoute_of_known {target : Callee} (h : facts.calleeOf? file.path pos = some target) :
    callRoute facts file callee pos =
      if target.method then .unknown
      else if facts.module.path.text = target.module then .ownModule target.name
      else .shared (target.module ++ "." ++ target.name) := by
  rw [callRoute, h]

theorem callRoute_eq_shared_iff :
    callRoute facts file callee pos = .shared name ↔ CallsOther facts file callee pos name := by
  unfold CallsOther
  cases hknown : facts.calleeOf? file.path pos with
  | some target =>
    rw [callRoute_of_known hknown]
    simp only [Option.some.injEq, reduceCtorEq, false_and, or_false, exists_eq_left']
    cases target.method with
    | true => simp
    | false =>
      by_cases hown : facts.module.path.text = target.module
      · simp [hown]
      · simp [hown, Ne.symm hown, eq_comm]
  | none =>
    rw [callRoute, hknown]
    simp only [reduceCtorEq, false_and, exists_false, false_or, true_and]
    cases callee.unparen with
    | selector x function selPos =>
      simp only [Expr.selector.injEq]
      cases hpackage : x.ident?.bind file.importPath? with
      | none =>
        refine iff_of_false nofun ?_
        rintro ⟨_, _, _, package, packagePos, path, ⟨rfl, rfl, rfl⟩, hx, hpath, -⟩
        rw [Expr.ident?_eq_some_iff.mpr ⟨packagePos, hx⟩, Option.bind_some, hpath] at hpackage
        cases hpackage
      | some path =>
        obtain ⟨package, hx, hpath⟩ := Option.bind_eq_some_iff.mp hpackage
        obtain ⟨packagePos, hx⟩ := Expr.ident?_eq_some_iff.mp hx
        constructor
        · intro h
          obtain rfl := Route.shared.inj h
          exact ⟨x, function, selPos, package, packagePos, path, ⟨rfl, rfl, rfl⟩, hx, hpath, rfl⟩
        · rintro ⟨_, _, _, package', packagePos', path', ⟨rfl, rfl, rfl⟩, hx', hpath', rfl⟩
          cases hx.symm.trans hx'
          cases hpath.symm.trans hpath'
          rfl
    | _ => simp

/-! ### Values -/

/-- A value whose call leads to the same place has the same route. -/
theorem Expr.route_congr (h : ∀ callee args pos, value.unparen = .call callee args pos →
      callRoute facts file callee pos = callRoute facts' file callee pos) :
    value.route facts file = value.route facts' file := by
  unfold route
  cases value.composite? with
  | some literal => rfl
  | none =>
    cases hcall : value.unparen with
    | call callee args pos => exact h callee args pos hcall
    | _ => rfl

/-- A value leads to another module just when it is a call that goes there. -/
theorem Expr.route_eq_shared_iff : value.route facts file = .shared name ↔
    ∃ callee args pos, value.unparen = .call callee args pos ∧
      CallsOther facts file callee pos name := by
  unfold route
  cases hcall : value.unparen with
  | call callee args pos =>
    have hliteral : value.composite? = none := by rw [composite?, hcall]
    simp only [hliteral, Expr.call.injEq]
    rw [callRoute_eq_shared_iff]
    constructor
    · exact fun h => ⟨callee, args, pos, ⟨rfl, rfl, rfl⟩, h⟩
    · rintro ⟨_, _, _, ⟨rfl, rfl, rfl⟩, h⟩
      exact h
  | _ =>
    refine iff_of_false (fun h => ?_) (by simp)
    split at h
    · split at h <;> cases h
    · cases h

end

/-! ### Files -/

namespace LiteralEntry

variable {facts : ModuleFacts} {f : SourceFile} {e : LiteralEntry}

theorem isShared_route_iff {key value : Expr} (h : e.Tells key value) :
    (e.route facts f).isShared = true ↔
      (∃ text pos, key.unparen = .lit .string text pos) ∧
        ∃ name, value.route facts f = .shared name := by
  have hshared : ∀ r : Route, r.isShared = true ↔ ∃ name, r = .shared name := by
    intro r
    cases r <;> simp [Route.isShared]
  rw [← h.constant, ← h.value, route, hshared]
  cases e.constant with
  | true => simp
  | false => simp

end LiteralEntry

namespace SourceFile

/-- Some schema map literal of the file has a text key whose value is a call of a function
of another module. -/
def UsesHelpers (facts : ModuleFacts) (schemaModules : List String) (f : SourceFile) : Prop :=
  ∃ type elements pos, .expr (.composite type elements pos) ∈ f.nodes ∧
    IsSchemaMapLiteral facts schemaModules f.path type pos ∧
    ∃ el ∈ elements, ∃ key, el.key = some key ∧
      (∃ text textPos, key.unparen = .lit .string text textPos) ∧
      ∃ callee args callPos name, el.value.unparen = .call callee args callPos ∧
        CallsOther facts f callee callPos name

variable {facts : ModuleFacts} {schemaModules : List String} {f : SourceFile}

/-- The literals of a file are those that its walk meets. -/
theorem mem_mapLiterals_iff {l : MapLiteral} : l ∈ f.mapLiterals facts schemaModules ↔
    ∃ v ∈ f.visits, ∃ type elements, v.node = .expr (.composite type elements l.pos) ∧
      IsSchemaMapLiteral facts schemaModules f.path type l.pos ∧ l.nested = v.isNested ∧
      elements.filterMap Element.entryOf? = l.entries := by
  rw [mapLiterals, List.mem_filterMap]
  simp only [Visit.mapLiteral?_eq_some_iff, isSchemaMapAt_iff]

/-- A file needs helpers just when it uses some. -/
theorem needsHelpers_iff :
    f.needsHelpers facts schemaModules = true ↔ f.UsesHelpers facts schemaModules := by
  unfold needsHelpers UsesHelpers
  simp only [List.any_eq_true, mem_mapLiterals_iff]
  constructor
  · rintro ⟨l, ⟨v, hv, type, elements, hnode, hmap, -, hentries⟩, e, he, hshared⟩
    rw [← hentries] at he
    obtain ⟨el, hel, he⟩ := List.mem_filterMap.mp he
    obtain ⟨key, hkey, htells⟩ := Element.entryOf?_eq_some_iff.mp he
    obtain ⟨htext, name, hroute⟩ := (LiteralEntry.isShared_route_iff htells).mp hshared
    obtain ⟨callee, args, callPos, hcall, hother⟩ := Expr.route_eq_shared_iff.mp hroute
    exact ⟨type, elements, l.pos, List.mem_map.mpr ⟨v, hv, hnode⟩, hmap, el, hel, key, hkey, htext,
      callee, args, callPos, name, hcall, hother⟩
  · rintro ⟨type, elements, pos, hliteral, hmap, el, hel, key, hkey, htext, callee, args, callPos,
      name, hcall, hother⟩
    obtain ⟨v, hv, hnode⟩ := List.mem_map.mp hliteral
    have hsome : el.entryOf?.isSome = true := by rw [el.isSome_entryOf?, hkey, Option.isSome_some]
    obtain ⟨e, he⟩ := Option.isSome_iff_exists.mp hsome
    obtain ⟨key', hkey', htells⟩ := Element.entryOf?_eq_some_iff.mp he
    obtain rfl := Option.some.inj (hkey.symm.trans hkey')
    refine ⟨⟨pos, v.isNested, elements.filterMap Element.entryOf?⟩,
      ⟨v, hv, type, elements, hnode, hmap, rfl, rfl⟩, e, List.mem_filterMap.mpr ⟨el, hel, he⟩, ?_⟩
    exact (LiteralEntry.isShared_route_iff htells).mpr
      ⟨htext, name, Expr.route_eq_shared_iff.mpr ⟨callee, args, callPos, hcall, hother⟩⟩

instance : Decidable (f.UsesHelpers facts schemaModules) :=
  decidable_of_iff (f.needsHelpers facts schemaModules = true) needsHelpers_iff

end SourceFile
end FieldOrder
