/-
# Qualified names

A function is known elsewhere by the import path of its module and its own name, with a
point between them. Paths have points too, but the name of a function has none, so the last
point of a qualified name is the one between, and path and name are told apart
(`qualified_inj`). So the helpers of a module hold under a qualified name what the last
function of the module says that is offered by that name, and nothing when the path is
another or no function is offered by it (`Module.get?_helpers_eq_some_iff`). Where a call
leads to another module, the name looked up is that of the function called
(`Expr.flags_of_callsFunction`).

Key definitions: `IsUndotted`, `FuncDecl.Offers`, `Module.OffersLast`, `CallsFunction`.
Key theorems: `qualified_inj`, `Module.get?_helpers_eq_some_iff`,
`Expr.flags_of_callsFunction`.
-/
import FieldOrder.Proofs.Path.Components
import FieldOrder.Proofs.Schema.Routes
import FieldOrder.Proofs.Table.Last

namespace FieldOrder

/-! ### Names without points -/

/-- There is no point in the name. -/
def IsUndotted (name : String) : Prop := '.' ∉ name.toList

instance (name : String) : Decidable (IsUndotted name) :=
  inferInstanceAs (Decidable ('.' ∉ name.toList))

theorem Text.pieces_injective (sep : Char) : Function.Injective (pieces sep) :=
  Function.LeftInverse.injective (joined_pieces sep)

theorem pieces_qualified {path function : String} (h : IsUndotted function) :
    Text.pieces '.' (path ++ "." ++ function).toList =
      Text.pieces '.' path.toList ++ [function.toList] := by
  have hpoint : ".".toList = ['.'] := rfl
  rw [String.toList_append, String.toList_append, hpoint, List.append_assoc,
    List.singleton_append, Text.pieces_append, Text.pieces_of_not_mem h]

/-- A qualified name is that of one function of one module. -/
theorem qualified_inj {path path' function function' : String} (h : IsUndotted function)
    (h' : IsUndotted function') :
    path ++ "." ++ function = path' ++ "." ++ function' ↔ path = path' ∧ function = function' := by
  constructor
  · intro hqualified
    have hpieces := congrArg (fun s : String => Text.pieces '.' s.toList) hqualified
    rw [pieces_qualified h, pieces_qualified h'] at hpieces
    obtain ⟨hpath, hlast⟩ := List.append_inj' hpieces rfl
    have hfunction := (List.cons.inj hlast).1
    exact ⟨String.toList_inj.mp (Text.pieces_injective '.' hpath), String.toList_inj.mp hfunction⟩
  · rintro ⟨rfl, rfl⟩
    rfl

-- a point in the name could as well be one in the path
example : "example.com/v1" ++ "." ++ "2.Sku" = "example.com/v1.2" ++ "." ++ "Sku" := by decide

/-! ### What a module offers -/

/-- The declarations of all files, in source order. -/
def Module.decls (m : Module) : List Decl := m.files.flatMap (·.decls)

/-- No function of the module has a point in its name. -/
def Module.Undotted (m : Module) : Prop := ∀ d ∈ m.funcs, IsUndotted d.name

/-- The function is offered to other modules by the name: it has this name and no receiver,
the name begins with an upper-case letter, and a schema literal is returned. -/
structure FuncDecl.Offers (d : FuncDecl) (name : String) : Prop where
  name_eq : d.name = name
  receiver : d.receiver = none
  upperCase : ∃ c rest, name.toList = c :: rest ∧ Text.isUppercase c = true
  returns : d.returnedFlags?.isSome = true

/-- The declaration is that of a function offered by the name. -/
def Decl.Offers (decl : Decl) (name : String) : Prop := ∃ d, decl = .func d ∧ d.Offers name

/-- Of the functions that the module offers by the name, `d` is the last. -/
def Module.OffersLast (m : Module) (name : String) (d : FuncDecl) : Prop :=
  IsLast (Decl.Offers · name) m.decls (.func d)

/-- The helper that a declaration adds to those of the module with the path. -/
def Decl.helper? (path : ModulePath) : Decl → Option (String × Flags)
  | .func d => if d.isHelper then d.returnedFlags?.map (path.qualify d.name, ·) else none
  | _ => none

theorem FuncDecl.isExported_iff {d : FuncDecl} :
    d.isExported = true ↔ ∃ c rest, d.name.toList = c :: rest ∧ Text.isUppercase c = true := by
  unfold isExported
  cases d.name.toList with
  | nil => simp
  | cons c rest => simp

theorem FuncDecl.offers_iff {d : FuncDecl} {name : String} :
    d.Offers name ↔ d.name = name ∧ d.isHelper = true ∧ d.returnedFlags?.isSome = true := by
  rw [isHelper, Bool.and_eq_true_iff, Option.isNone_iff_eq_none, isExported_iff]
  constructor
  · rintro ⟨rfl, hreceiver, hupper, hreturns⟩
    exact ⟨rfl, ⟨hreceiver, hupper⟩, hreturns⟩
  · rintro ⟨rfl, ⟨hreceiver, hupper⟩, hreturns⟩
    exact ⟨rfl, hreceiver, hupper, hreturns⟩

theorem Decl.helper?_eq_some_iff {path : ModulePath} {decl : Decl} {name : String} {flags : Flags} :
    decl.helper? path = some (name, flags) ↔ ∃ d, decl = .func d ∧ d.Offers d.name ∧
      d.returnedFlags? = some flags ∧ path.qualify d.name = name := by
  cases decl with
  | func d =>
    simp only [helper?, func.injEq, exists_eq_left', FuncDecl.offers_iff, true_and]
    cases d.isHelper with
    | false => simp
    | true => cases d.returnedFlags? <;> simp [and_comm]
  | type d => simp [helper?]
  | var d => simp [helper?]

namespace Module

variable {m : Module} {path function : String}

theorem mem_decls_iff {decl : Decl} : decl ∈ m.decls ↔ ∃ file ∈ m.files, decl ∈ file.decls :=
  List.mem_flatMap

theorem funcs_eq_filterMap (m : Module) : m.funcs = m.decls.filterMap fun
    | .func d => some d
    | _ => none := by
  rw [funcs, decls, List.filterMap_flatMap]
  rfl

theorem mem_funcs_of_mem_decls {d : FuncDecl} (h : .func d ∈ m.decls) : d ∈ m.funcs := by
  rw [funcs_eq_filterMap]
  exact List.mem_filterMap.mpr ⟨.func d, h, rfl⟩

/-- Each declaration adds its helper, one after the other. -/
theorem helpers_eq (m : Module) : m.helpers = Table.ofList (m.decls.filterMap (·.helper? m.path)) := by
  rw [helpers, funcs_eq_filterMap, ← List.filterMap_eq_filter, List.filterMap_filterMap,
    List.filterMap_filterMap]
  refine congrArg Table.ofList (List.filterMap_congr fun decl _ => ?_)
  cases decl with
  | func d => cases hd : d.isHelper <;> simp [Decl.helper?, hd]
  | type d => rfl
  | var d => rfl

/-- What a declaration adds has a qualified name just when it is offered by this name, and
the path is that of the module. -/
theorem exists_helper?_iff (hm : m.Undotted) (hfunction : IsUndotted function) (path : String)
    {decl : Decl} (hdecl : decl ∈ m.decls) :
    (∃ pair, decl.helper? m.path = some pair ∧ (pair.1 == path ++ "." ++ function) = true) ↔
      path = m.path.text ∧ decl.Offers function := by
  constructor
  · rintro ⟨⟨name, flags⟩, hhelper, hname⟩
    obtain ⟨d, rfl, hoffers, -, rfl⟩ := Decl.helper?_eq_some_iff.mp hhelper
    have hd := hm d (mem_funcs_of_mem_decls hdecl)
    obtain ⟨hpath, rfl⟩ := (qualified_inj hd hfunction).mp (beq_iff_eq.mp hname)
    exact ⟨hpath.symm, d, rfl, hoffers⟩
  · rintro ⟨rfl, d, rfl, hoffers⟩
    obtain ⟨flags, hflags⟩ := Option.isSome_iff_exists.mp hoffers.returns
    obtain rfl := hoffers.name_eq
    exact ⟨_, Decl.helper?_eq_some_iff.mpr ⟨d, rfl, hoffers, hflags, rfl⟩, beq_self_eq_true _⟩

/-- The helpers of a module hold, under a qualified name with the path of the module, what
the last function says that is offered by the name. -/
theorem get?_helpers_eq_some_iff (hm : m.Undotted) (hfunction : IsUndotted function) {flags : Flags} :
    m.helpers.get? (path ++ "." ++ function) = some flags ↔ path = m.path.text ∧
      ∃ d, m.OffersLast function d ∧ d.returnedFlags? = some flags := by
  have hkey := fun decl (hdecl : decl ∈ m.decls) => exists_helper?_iff hm hfunction path hdecl
  rw [helpers_eq, Table.get?_ofList_eq_some_iff]
  simp only [isLast_filterMap, isLast_congr hkey]
  constructor
  · rintro ⟨⟨name, flags⟩, ⟨decl, hlast, hhelper⟩, rfl⟩
    obtain ⟨d, rfl, -, hflags, -⟩ := Decl.helper?_eq_some_iff.mp hhelper
    obtain ⟨hpath, -⟩ := hlast.holds
    exact ⟨hpath, d, hlast.congr fun _ _ => by simp [hpath], hflags⟩
  · rintro ⟨hpath, d, hlast, hflags⟩
    obtain ⟨d', hd', hoffers⟩ := hlast.holds
    obtain rfl := Decl.func.inj hd'
    obtain rfl := hoffers.name_eq
    exact ⟨_, ⟨.func d, hlast.congr fun _ _ => by simp [hpath],
      Decl.helper?_eq_some_iff.mpr ⟨d, rfl, hoffers, hflags, rfl⟩⟩, rfl⟩

/-- There is something under a qualified name when the module with the path offers a
function by the name. -/
theorem isSome_get?_helpers_iff (hm : m.Undotted) (hfunction : IsUndotted function) :
    (m.helpers.get? (path ++ "." ++ function)).isSome = true ↔ path = m.path.text ∧
      ∃ file ∈ m.files, ∃ d, .func d ∈ file.decls ∧ d.Offers function := by
  rw [Option.isSome_iff_exists]
  simp only [get?_helpers_eq_some_iff hm hfunction]
  constructor
  · rintro ⟨flags, hpath, d, hlast, -⟩
    obtain ⟨file, hfile, hd⟩ := mem_decls_iff.mp hlast.mem
    obtain ⟨d', hd', hoffers⟩ := hlast.holds
    obtain rfl := Decl.func.inj hd'
    exact ⟨hpath, file, hfile, d, hd, hoffers⟩
  · rintro ⟨hpath, file, hfile, d, hd, hoffers⟩
    have hdecl : Decl.func d ∈ m.decls := mem_decls_iff.mpr ⟨file, hfile, hd⟩
    obtain ⟨last, hlast⟩ := exists_isLast_iff (p := (Decl.Offers · function)).mpr
      ⟨.func d, hdecl, d, rfl, hoffers⟩
    obtain ⟨d', rfl, hoffers'⟩ := hlast.holds
    obtain ⟨flags, hflags⟩ := Option.isSome_iff_exists.mp hoffers'.returns
    exact ⟨flags, hpath, d', hlast, hflags⟩

/-- Functions of the name behind that say nothing leave what was offered by it, and so do
methods. -/
theorem get?_helpers_of_silent_behind (hm : m.Undotted) (hfunction : IsUndotted function)
    {before behind : List Decl} {d : FuncDecl} (hdecls : m.decls = before ++ .func d :: behind)
    (hoffers : d.Offers function)
    (hbehind : ∀ d', Decl.func d' ∈ behind → d'.name = function → d'.receiver = none →
      d'.returnedFlags? = none) :
    m.helpers.get? (m.path.qualify function) = d.returnedFlags? := by
  obtain ⟨flags, hflags⟩ := Option.isSome_iff_exists.mp hoffers.returns
  rw [hflags, ModulePath.qualify, get?_helpers_eq_some_iff hm hfunction]
  refine ⟨rfl, d, ⟨before, behind, hdecls, ⟨d, rfl, hoffers⟩, ?_⟩, hflags⟩
  rintro decl hdecl ⟨d', rfl, hoffers'⟩
  have hreturns := hoffers'.returns
  rw [hbehind d' hdecl hoffers'.name_eq hoffers'.receiver] at hreturns
  cases hreturns

end Module

/-! ### Calls of functions of other modules -/

/-- The call of `callee` at a place goes to the function of another module: this is known
and the function is no method, or nothing is known of the call and it selects the function
from an import with the path. -/
def CallsFunction (facts : ModuleFacts) (file : SourceFile) (callee : Expr) (pos : Pos)
    (path function : String) : Prop :=
  (facts.calleeOf? file.path pos = some ⟨path, function, false⟩ ∧ path ≠ facts.module.path.text) ∨
  (facts.calleeOf? file.path pos = none ∧ ∃ x selPos package packagePos,
    callee.unparen = .selector x function selPos ∧ x.unparen = .ident package packagePos ∧
    file.importPath? package = some path)

variable {facts : ModuleFacts} {file : SourceFile} {value callee : Expr} {args : List Expr}
  {pos : Pos}

/-- A call leads to another module just when it goes to a function of it. -/
theorem callsOther_iff {name : String} : CallsOther facts file callee pos name ↔
    ∃ path function, CallsFunction facts file callee pos path function ∧
      name = path ++ "." ++ function := by
  constructor
  · rintro (⟨⟨path, function, method⟩, hknown, rfl, hother, rfl⟩ |
      ⟨hunknown, x, function, selPos, package, packagePos, path, hcallee, hx, hpath, rfl⟩)
    · exact ⟨path, function, .inl ⟨hknown, hother⟩, rfl⟩
    · exact ⟨path, function,
        .inr ⟨hunknown, x, selPos, package, packagePos, hcallee, hx, hpath⟩, rfl⟩
  · rintro ⟨path, function, ⟨hknown, hother⟩ |
      ⟨hunknown, x, selPos, package, packagePos, hcallee, hx, hpath⟩, rfl⟩
    · exact .inl ⟨_, hknown, rfl, hother, rfl⟩
    · exact .inr ⟨hunknown, x, function, selPos, package, packagePos, path, hcallee, hx, hpath, rfl⟩

/-- What such a call says is what is held under the qualified name. -/
theorem Expr.flags_of_callsFunction {path function : String}
    (hcall : value.unparen = .call callee args pos)
    (h : CallsFunction facts file callee pos path function) (helpers : Helpers) :
    (value.route facts file).flags facts helpers =
      .ofOption (helpers.get? (path ++ "." ++ function)) := by
  have hother := callsOther_iff.mpr ⟨path, function, h, rfl⟩
  have hroute := Expr.route_eq_shared_iff.mpr ⟨callee, args, pos, hcall, hother⟩
  rw [hroute, Route.flags]

end FieldOrder
