/-
# Where the fields of an identifier come from

Whatever the tables of a function hold was read in its body: giving a variable a
value keeps this (`Bindings.Within.bind`), so it holds of all tables that are
collected (`Tracer.within_collect`), in whatever order the values came. From
there it is carried through the arguments of constructors, the commits, the
functions and the file. A field of the identifier of a definition is therefore
read in the very function that commits it (`Tracer.traceFile_reads`).

Key definitions: `Tracer.Reads`, `Tracer.Commits`, `Tracer.ReadIn`, `Tracer.CommitsTo`,
`Bindings.Within`.
Key theorems: `Tracer.within_collect`, `Tracer.readIn_of_resolveCommit`,
`Tracer.resolved_mem_traceBlock_iff`, `Tracer.traceFile_reads`.
-/
import FieldOrder.Proofs.Provenance.Tables
import FieldOrder.Proofs.Syntax.Children

namespace FieldOrder
namespace Tracer

/-! ### Reads and commits -/

/-- The expression reads the field `name`: it is a call `r.Get("name")` or
`r.GetOk("name")` of an accessor receiver `r`, or it selects the member of the
model that holds the field. -/
inductive Reads (tracer : Tracer) (name : String) : Expr → Prop where
  | accessor {callee x first : Expr} {rest : List Expr} {sel receiver : String}
    {pos pos' posx posf : Pos} (hcallee : callee.unparen = .selector x sel pos')
    (hsel : sel = "Get" ∨ sel = "GetOk") (hx : x.unparen = .ident receiver posx)
    (hreceiver : receiver ∈ tracer.accessorReceivers)
    (hfirst : first.unparen = .lit .string name posf) :
    Reads tracer name (.call callee (first :: rest) pos)
  | member {x : Expr} {sel : String} {pos : Pos} (h : tracer.mapping.get? sel = some name) :
    Reads tracer name (.selector x sel pos)

/-- The expression commits `arg`: it is a commit call of this one argument. -/
def Commits (tracer : Tracer) (arg e : Expr) : Prop := tracer.CommitCall [arg] e

/-- Somewhere in the body, function literals included, the field is read. -/
def ReadIn (tracer : Tracer) (body : List Stmt) (name : String) : Prop :=
  ∃ e, .expr e ∈ blockNodes body ∧ tracer.Reads name e

variable {tracer : Tracer} {body : List Stmt} {name : String}

/-- What a field read finds is read by the expression behind the type assertion. -/
theorem reads_of_fieldRead? {e : Expr} (h : tracer.fieldRead? e = some name) :
    tracer.Reads name e.unassert := by
  unfold fieldRead? at h
  split at h
  · next callee args pos he =>
    rw [he]
    split at h
    · next x sel pos' hcallee =>
      split at h
      · next receiver hx =>
        split at h
        · next hcond =>
          obtain ⟨hsel, hreceiver⟩ := Bool.and_eq_true_iff.mp hcond
          have hsel : sel = "Get" ∨ sel = "GetOk" := by simpa using hsel
          have hreceiver : receiver ∈ tracer.accessorReceivers := by simpa using hreceiver
          obtain ⟨posx, hx⟩ := Expr.ident?_eq_some_iff.mp hx
          cases args with
          | nil => cases h
          | cons first rest =>
            obtain ⟨posf, hfirst⟩ := Expr.string?_eq_some_iff.mp h
            exact .accessor hcallee hsel hx hreceiver hfirst
        · cases h
      · cases h
    · cases h
  · next x sel pos he =>
    rw [he]
    exact .member h
  · cases h

theorem unassert_mem_blockNodes {e : Expr} (h : .expr e ∈ blockNodes body) :
    .expr e.unassert ∈ blockNodes body := by
  have hunparen := unparen_mem_blockNodes h
  unfold Expr.unassert
  split
  · next x type he =>
    rw [he] at hunparen
    have hx : Node.expr x ∈ (Node.expr (.typeAssert x type)).children := by simp [Node.children]
    exact unparen_mem_blockNodes (mem_blockNodes_of_mem_children hunparen hx)
  · exact hunparen

/-- What an expression of the body is found to read is read in the body. -/
theorem readIn_of_fieldRead? {e : Expr} (he : .expr e ∈ blockNodes body)
    (h : tracer.fieldRead? e = some name) : tracer.ReadIn body name :=
  ⟨e.unassert, unassert_mem_blockNodes he, reads_of_fieldRead? h⟩

end Tracer

/-! ### Arguments of constructors -/

/-- The arguments of a constructor call in the body stand in the body. -/
theorem Expr.args_mem_blockNodes {body : List Stmt} {e : Expr} {kind : ConstructorKind}
    {args : List Expr} (he : .expr e ∈ blockNodes body) (h : e.constructor? = some (kind, args)) :
    ∀ arg ∈ args, .expr arg ∈ blockNodes body := by
  intro arg harg
  have hunparen := unparen_mem_blockNodes he
  unfold constructor? at h
  split at h
  · next callee args' pos hcall =>
    rw [hcall] at hunparen
    have hargs : args' = args := by
      obtain ⟨kind', -, hpair⟩ := Option.map_eq_some_iff.mp h
      exact congrArg Prod.snd hpair
    have hchild : Node.expr arg ∈ (Node.expr (.call callee args' pos)).children := by
      rw [hargs]
      exact List.mem_cons_of_mem _ (List.mem_map_of_mem harg)
    exact mem_blockNodes_of_mem_children hunparen hchild
  · cases h

namespace Bindings

/-- Every field in the tables has a property. -/
structure Within (b : Bindings) (P : String → Prop) : Prop where
  fields : ∀ v field, b.fields.get? v = some field → P field
  ids : ∀ v ids, b.ids.get? v = some (.resolved ids) → ∀ field ∈ ids, P field
  parents : ∀ v field, b.parents.get? v = some (.resolved field) → P field

theorem mem_pushUnique {fields : List String} {field name : String} :
    name ∈ pushUnique fields field ↔ name ∈ fields ∨ name = field := by
  unfold pushUnique
  split
  · next h =>
    have hmem : field ∈ fields := by simpa using h
    constructor
    · exact Or.inl
    · rintro (h | rfl)
      · exact h
      · exact hmem
  · rw [List.mem_append, List.mem_singleton]

theorem nodup_pushUnique {fields : List String} (h : fields.Nodup) (field : String) :
    (pushUnique fields field).Nodup := by
  unfold pushUnique
  split
  · exact h
  · next hne =>
    have hnot : field ∉ fields := by simpa using hne
    refine List.nodup_append.mpr ⟨h, by simp, ?_⟩
    intro name hname other hother
    obtain rfl := List.mem_singleton.mp hother
    exact fun heq => hnot (heq ▸ hname)

variable {tracer : Tracer} {P : String → Prop} {b : Bindings}

/-- What a single argument contributes has the property, if all that it reads has. -/
theorem Within.argField? (hb : b.Within P) {first : Bool} {arg : Expr} {field : String}
    (hread : ∀ name, tracer.fieldRead? arg = some name → P name)
    (h : b.argField? tracer first arg = some (some field)) : P field := by
  unfold Bindings.argField? at h
  split at h
  · next parent hparent =>
    obtain rfl := Option.some.inj (Option.some.inj h)
    unfold parentMember? at hparent
    split at hparent
    · obtain ⟨v, -, hget⟩ := Option.bind_eq_some_iff.mp hparent
      exact hb.parents v parent hget
    · cases hparent
  · cases h
  · split at h
    · next held hheld =>
      obtain rfl := Option.some.inj (Option.some.inj h)
      unfold fieldOf? at hheld
      split at hheld
      · next name hname =>
        obtain rfl := Option.some.inj hheld
        exact hread name hname
      · obtain ⟨v, -, hget⟩ := Option.bind_eq_some_iff.mp hheld
        exact hb.fields v held hget
    · split at h
      · cases h
      · cases h

/-- What the arguments of a constructor stand for has the property, and so does what
was found before them. -/
theorem Within.resolveFrom (hb : b.Within P) : ∀ {args : List Expr} {first : Bool}
    {fields ids : List String},
    (∀ arg ∈ args, ∀ name, tracer.fieldRead? arg = some name → P name) →
    (∀ field ∈ fields, P field) → b.resolveFrom tracer first fields args = .resolved ids →
    ∀ field ∈ ids, P field
  | [], _, fields, ids, _, hfields, h => by
    obtain rfl := Resolution.resolved.inj h
    exact hfields
  | arg :: rest, first, fields, ids, hread, hfields, h => by
    obtain ⟨harg, hrest⟩ := List.forall_mem_cons.mp hread
    unfold Bindings.resolveFrom at h
    split at h
    · cases h
    · exact hb.resolveFrom hrest hfields h
    · next field hfield =>
      have hnew : P field := hb.argField? harg hfield
      refine hb.resolveFrom hrest ?_ h
      intro name hname
      rcases mem_pushUnique.mp hname with hname | rfl
      · exact hfields name hname
      · exact hnew

theorem Within.resolveArgs (hb : b.Within P) {args : List Expr} {ids : List String}
    (hread : ∀ arg ∈ args, ∀ name, tracer.fieldRead? arg = some name → P name)
    (h : b.resolveArgs tracer args = .resolved ids) : ∀ field ∈ ids, P field :=
  hb.resolveFrom hread (by simp) h

/-! ### The tables -/

theorem within_empty (P : String → Prop) : Within {} P := ⟨nofun, nofun, nofun⟩

theorem parentOf_eq_resolved {r : Resolution (List String)} {field : String}
    (h : parentOf r = .resolved field) : r = .resolved [field] := by
  unfold parentOf at h
  split at h
  · rw [Resolution.resolved.inj h]
  · cases h

theorem parents_bind_of_constructor (name : String) {value : Expr} {kind : ConstructorKind}
    {args : List Expr} (h : value.constructor? = some (kind, args)) :
    (b.bind tracer name value).parents = match kind with
      | .new => b.parents
      | .parse => b.parents.insert name (parentOf (b.resolveArgs tracer args)) := by
  cases kind with
  | new => simp [bind, tracer.fieldRead?_of_constructor h, h]
  | parse => simp [bind, tracer.fieldRead?_of_constructor h, h]

/-- A variable that is given a value keeps the tables within what is read. -/
theorem Within.bind (hb : b.Within P) {value : Expr} (name : String)
    (hvalue : ∀ field, tracer.fieldRead? value = some field → P field)
    (hargs : ∀ kind args, value.constructor? = some (kind, args) →
      ∀ arg ∈ args, ∀ field, tracer.fieldRead? arg = some field → P field) :
    (b.bind tracer name value).Within P := by
  cases hf : tracer.fieldRead? value with
  | some field =>
    rw [bind_of_field tracer b name hf]
    refine ⟨fun v held hget => ?_, hb.ids, hb.parents⟩
    rw [Table.get?_insert] at hget
    split at hget
    · obtain rfl := Option.some.inj hget
      exact hvalue field hf
    · exact hb.fields v held hget
  | none =>
    cases hc : value.constructor? with
    | none =>
      rw [bind_of_neither tracer b name hf hc]
      exact hb
    | some c =>
      obtain ⟨kind, args⟩ := c
      have hids : ∀ ids, b.resolveArgs tracer args = .resolved ids → ∀ field ∈ ids, P field :=
        fun ids h => hb.resolveArgs (hargs kind args hc) h
      constructor
      · intro v held hget
        rw [fields_bind_of_constructor tracer b name hc] at hget
        exact hb.fields v held hget
      · intro v ids hget
        rw [ids_bind_of_constructor tracer b name hc, Table.get?_insert] at hget
        split at hget
        · exact hids ids (Option.some.inj hget)
        · exact hb.ids v ids hget
      · intro v held hget
        rw [parents_bind_of_constructor name hc] at hget
        cases kind with
        | new => exact hb.parents v held hget
        | parse =>
          rw [Table.get?_insert] at hget
          split at hget
          · have hone := parentOf_eq_resolved (Option.some.inj hget)
            exact hids [held] hone held List.mem_cons_self
          · exact hb.parents v held hget

end Bindings

/-! ### A whole body -/

theorem Stmt.bindings_mem_nodes {s : Stmt} {v : String} {value : Expr}
    (h : (v, value) ∈ s.bindings) : .expr value ∈ (Node.stmt s).children := by
  unfold bindings at h
  split at h
  · next lhs value' define pos =>
    obtain ⟨w, -, hpair⟩ := Option.map_eq_some_iff.mp (Option.mem_toList.mp h)
    obtain rfl := congrArg Prod.snd hpair
    simp [Node.children]
  · next lhs rhs define pos _ =>
    obtain ⟨⟨target, value'⟩, hzip, htarget⟩ := List.mem_filterMap.mp h
    obtain ⟨w, -, hpair⟩ := Option.map_eq_some_iff.mp htarget
    obtain rfl := congrArg Prod.snd hpair
    have hvalue : value' ∈ rhs := (List.of_mem_zip hzip).2
    simp [Node.children, hvalue]
  · next names type values pos =>
    have hvalue : value ∈ values := (List.of_mem_zip h).2
    simp [Node.children, hvalue]
  · cases h

/-- The values that variables of a body are given stand in the body. -/
theorem mem_blockNodes_of_mem_blockBindings {body : List Stmt} {v : String} {value : Expr}
    (h : (v, value) ∈ blockBindings body) : .expr value ∈ blockNodes body := by
  rw [blockBindings_eq] at h
  obtain ⟨s, hs, hvalue⟩ := List.mem_flatMap.mp h
  obtain ⟨n, hn, hstmt⟩ := List.mem_filterMap.mp hs
  cases n with
  | stmt s' =>
    obtain rfl := Option.some.inj hstmt
    exact mem_blockNodes_of_mem_children hn (Stmt.bindings_mem_nodes hvalue)
  | expr e => cases hstmt
  | element el => cases hstmt

namespace Tracer

variable {tracer : Tracer} {body : List Stmt}

/-- Values that stand in the body keep the tables within what is read in it. -/
theorem within_after (values : List (String × Expr))
    (h : ∀ p ∈ values, .expr p.2 ∈ blockNodes body) :
    (Bindings.after tracer values).Within (tracer.ReadIn body) := by
  induction values using List.reverseRecOn with
  | nil => exact Bindings.within_empty _
  | append_singleton values p ih =>
    have hvalue : .expr p.2 ∈ blockNodes body := h p (by simp)
    have ih := ih fun q hq => h q (List.mem_append_left _ hq)
    rw [Bindings.after_concat]
    refine ih.bind p.1 (fun field => readIn_of_fieldRead? hvalue) ?_
    intro kind args hc arg harg field
    exact readIn_of_fieldRead? (Expr.args_mem_blockNodes hvalue hc arg harg)

/-- Whatever the tables of a body hold is read in the body. -/
theorem within_collect : (Bindings.collect tracer body).Within (tracer.ReadIn body) := by
  rw [Bindings.collect_eq_after]
  exact within_after (blockBindings body) fun p hp => mem_blockNodes_of_mem_blockBindings hp

theorem readIn_of_variableIds {v name : String} {ids : List String}
    (h : (Bindings.collect tracer body).variableIds v = .resolved ids) (hname : name ∈ ids) :
    tracer.ReadIn body name := by
  unfold Bindings.variableIds at h
  split at h
  · next r hids =>
    rw [h] at hids
    exact within_collect.ids v ids hids name hname
  · split at h
    · next field hfield =>
      obtain rfl := Resolution.resolved.inj h
      obtain rfl := List.mem_singleton.mp hname
      exact within_collect.fields v name hfield
    · cases h

/-- Whatever a commit of the body resolves to is read in the body. -/
theorem readIn_of_resolveCommit {arg : Expr} {name : String} {ids : List String}
    (harg : .expr arg ∈ blockNodes body)
    (h : (Bindings.collect tracer body).resolveCommit tracer arg = .resolved ids)
    (hname : name ∈ ids) : tracer.ReadIn body name := by
  unfold Bindings.resolveCommit at h
  split at h
  · next kind args hc =>
    refine within_collect.resolveArgs (fun arg' harg' field => ?_) h name hname
    exact readIn_of_fieldRead? (Expr.args_mem_blockNodes harg hc arg' harg')
  · split at h
    · exact readIn_of_variableIds h hname
    · split at h
      · split at h
        · split at h
          · exact readIn_of_variableIds h hname
          · cases h
        · cases h
      · cases h
    · cases h

/-! ### Functions and files -/

/-- The function commits an argument that resolves to `ids`. -/
def CommitsTo (tracer : Tracer) (body : List Stmt) (ids : List String) : Prop :=
  ∃ call arg, .expr call ∈ blockNodes body ∧ tracer.Commits arg call ∧
    (Bindings.collect tracer body).resolveCommit tracer arg = .resolved ids

/-- The resolutions of a block with fields are those of its commits. -/
theorem resolved_mem_traceBlock_iff {ids : List String} :
    .resolved ids ∈ tracer.traceBlock body ↔ tracer.CommitsTo body ids := by
  rw [traceBlock, List.mem_map]
  constructor
  · rintro ⟨args, hargs, hids⟩
    obtain ⟨call, hcall, hcommits⟩ := mem_commitCalls_iff.mp hargs
    split at hids
    · next arg => exact ⟨call, arg, hcall, hcommits, hids⟩
    · cases hids
  · rintro ⟨call, arg, hcall, hcommits, hids⟩
    exact ⟨[arg], mem_commitCalls_iff.mpr ⟨call, hcall, hcommits⟩, hids⟩

theorem CommitsTo.readIn {ids : List String} (h : tracer.CommitsTo body ids) {name : String}
    (hname : name ∈ ids) : tracer.ReadIn body name := by
  obtain ⟨call, arg, hcall, hcommits, hids⟩ := h
  cases hcommits with
  | @call callee x sel receiver pos pos' posx hcallee hsel hx hreceiver =>
    have hchild : Node.expr arg ∈ (Node.expr (.call callee [arg] pos)).children := by
      simp [Node.children]
    exact readIn_of_resolveCommit (mem_blockNodes_of_mem_children hcall hchild) hids hname

theorem mem_foldl_pushUnique {names : List String} : ∀ {fields : List String} {name : String},
    name ∈ names.foldl pushUnique fields ↔ name ∈ fields ∨ name ∈ names := by
  induction names with
  | nil => simp
  | cons first rest ih =>
    intro fields name
    rw [List.foldl_cons, ih, Bindings.mem_pushUnique, List.mem_cons, or_assoc]

theorem nodup_foldl_pushUnique {names : List String} : ∀ {fields : List String}, fields.Nodup →
    (names.foldl pushUnique fields).Nodup := by
  induction names with
  | nil => exact fun h => h
  | cons first rest ih => exact fun h => ih (Bindings.nodup_pushUnique h first)

/-- Commits taken together give their fields, each once, and at least one. -/
theorem mergeCommits_eq_resolved {commits : List (Resolution (List String))}
    {fields : List String} (h : mergeCommits commits = .resolved fields) :
    fields ≠ [] ∧ fields.Nodup ∧
      ∀ name ∈ fields, ∃ ids, .resolved ids ∈ commits ∧ name ∈ ids := by
  unfold mergeCommits at h
  split at h
  · cases h
  · dsimp only at h
    split at h
    · cases h
    · next hne =>
      obtain rfl := Resolution.resolved.inj h
      refine ⟨by simpa using hne, nodup_foldl_pushUnique List.nodup_nil, ?_⟩
      intro name hname
      have hflat := (mem_foldl_pushUnique.mp hname).resolve_left List.not_mem_nil
      obtain ⟨ids, hids, hmem⟩ := List.mem_flatten.mp hflat
      obtain ⟨r, hr, hvalue⟩ := List.mem_filterMap.mp hids
      cases r with
      | resolved ids' =>
        obtain rfl := Option.some.inj hvalue
        exact ⟨ids', hr, hmem⟩
      | unresolvable => cases hvalue
      | notApplicable => cases hvalue

end Tracer

/-- The fields of the identifier of a definition: there is one, none stands twice,
and each is read in a function that creates or reads the definition and commits
this very field. -/
theorem Tracer.traceFile_reads (mapping : ModelMapping) (config : Config) (kind : DefinitionKind)
    (f : SourceFile) {fields : List String}
    (h : (Tracer.ofConfig mapping config).traceFile kind f = .resolved fields) :
    fields ≠ [] ∧ fields.Nodup ∧ ∀ name ∈ fields, ∃ g ∈ f.funcs, ∃ body,
      Text.contains g.name kind.entryName = true ∧ g.body = some body ∧
      (Tracer.ofConfig mapping config).ReadIn body name ∧
      ∃ ids, name ∈ ids ∧ (Tracer.ofConfig mapping config).CommitsTo body ids ∧
        .resolved ids ∈ (Tracer.ofConfig mapping config).traceFunction g := by
  obtain ⟨hne, hnodup, hcommits⟩ := mergeCommits_eq_resolved h
  refine ⟨hne, hnodup, ?_⟩
  intro name hname
  obtain ⟨ids, hids, hmem⟩ := hcommits name hname
  obtain ⟨g, hg, htrace⟩ := List.mem_flatMap.mp hids
  obtain ⟨hfunc, hentry⟩ := List.mem_filter.mp hg
  cases hbody : g.body with
  | none => simp [traceFunction, hbody] at htrace
  | some body =>
    have hblock : .resolved ids ∈ (Tracer.ofConfig mapping config).traceBlock body := by
      simpa [traceFunction, hbody] using htrace
    have hto := resolved_mem_traceBlock_iff.mp hblock
    exact ⟨g, hfunc, body, hentry, hbody, hto.readIn hmem, ids, hmem, hto, htrace⟩

/-- A file with one resource, whose identifier is committed twice. -/
def accountFile : SourceFile :=
  ⟨⟨"internal/services/storage/account_resource.go"⟩, "storage", [], [.func (.ofBody accountTwice)]⟩

theorem traceFile_reads_accountFile :
    (Tracer.ofConfig {} {}).traceFile .resource accountFile =
        .resolved ["resource_group_name", "name"] ∧
      ∃ g ∈ accountFile.funcs, ∃ body, g.body = some body ∧
        (Tracer.ofConfig {} {}).ReadIn body "name" := by
  have h : (Tracer.ofConfig {} {}).traceFile .resource accountFile =
      .resolved ["resource_group_name", "name"] := by decide
  obtain ⟨-, -, hfields⟩ := Tracer.traceFile_reads {} {} .resource accountFile h
  obtain ⟨g, hg, body, -, hbody, hread, -⟩ := hfields "name" (by decide)
  exact ⟨h, g, hg, body, hbody, hread⟩

end FieldOrder
