/-
# Arguments of identifier constructors

A constructor call is resolved with all its arguments or not at all. An argument
is accepted for one of three reasons (`Bindings.Accepts`): it selects a member of a
parsed identifier of which the one field is known; or else it reads a field or is a
variable that holds one; or else it stands first and is named for a scope. The first
reason goes before the others: a member of a parsed identifier of which the field is
not known is never accepted, whatever it is called and whatever the model says of it.

When all arguments are accepted, the call is resolved to what they stand for, in
order, each field at its first place (`Bindings.resolveArgs_allOrNothing`).

Key definitions: `Expr.SelectsFrom`, `Bindings.MemberOf`, `Bindings.Holds`,
`Bindings.Accepts`, `Bindings.StandsFor`.
Key theorems: `Tracer.fieldRead?_eq_some_iff`, `Bindings.argField?_eq_some_iff`,
`Bindings.resolveArgs_allOrNothing`.
-/
import Mathlib.Data.List.Forall2
import FieldOrder.Proofs.Provenance.Reads
import FieldOrder.Proofs.Text.LowerCase

namespace FieldOrder

/-! ### What an argument is -/

namespace Expr

/-- The expression selects a member of the variable `v`. -/
def SelectsFrom (e : Expr) (v : String) : Prop :=
  ∃ x sel pos posx, e.unparen = .selector x sel pos ∧ x.unparen = .ident v posx

/-- The expression is an identifier or a selected member, and its name in lower case has
the name of a scope in it. -/
def NamesScope (e : Expr) : Prop :=
  ∃ name, ((∃ pos, e.unparen = .ident name pos) ∨ ∃ x pos, e.unparen = .selector x name pos) ∧
    ∃ hint ∈ scopeHints, hint.toList <:+: name.toList.map Char.toLower

theorem calleeName?_eq_some_iff {e : Expr} {name : String} : e.calleeName? = some name ↔
    (∃ pos, e.unparen = .ident name pos) ∨ ∃ x pos, e.unparen = .selector x name pos := by
  unfold calleeName?
  cases e.unparen with
  | _ => simp

theorem isScope_iff {e : Expr} : e.isScope = true ↔ e.NamesScope := by
  unfold isScope NamesScope
  simp only [← calleeName?_eq_some_iff]
  cases e.calleeName? with
  | none => simp
  | some name => simp [Text.occurs_iff]

theorem plainAscii_scopeHints : ∀ hint ∈ scopeHints, Text.PlainAscii hint.toList := by
  have hascii : (scopeHints.all fun hint =>
      hint.toList.all fun d => d.toNat < 128 && d != 'k') = true := by decide
  have hlast : (scopeHints.all fun hint => hint.toList.getLast? != some 'i') = true := by decide
  simp only [List.all_eq_true, Bool.and_eq_true, decide_eq_true_eq, bne_iff_ne] at hascii hlast
  exact fun hint h => ⟨hascii hint h, hlast hint h⟩

/-- How characters outside ASCII are written in lower case does not matter. -/
theorem namesScope_iff {lower : Char → List Char} (hlower : Text.LowerCase lower) {e : Expr} :
    e.NamesScope ↔ ∃ name, e.calleeName? = some name ∧
      ∃ hint ∈ scopeHints, hint.toList <:+: name.toList.flatMap lower := by
  unfold NamesScope
  simp only [← calleeName?_eq_some_iff]
  refine exists_congr fun name => and_congr_right fun _ => exists_congr fun hint => ?_
  refine and_congr_right fun hhint => ?_
  exact ((plainAscii_scopeHints hint hhint).infix_flatMap_lower hlower name.toList).symm

end Expr

namespace Tracer

variable {tracer : Tracer} {name : String}

/-- A field read is told by the expression behind the type assertion. -/
theorem fieldRead?_eq_some_iff {e : Expr} :
    tracer.fieldRead? e = some name ↔ tracer.Reads name e.unassert := by
  refine ⟨reads_of_fieldRead?, fun h => ?_⟩
  unfold fieldRead?
  generalize e.unassert = target at h
  cases h with
  | @accessor callee x first rest sel receiver pos pos' posx posf hcallee hsel hx hreceiver hfirst =>
    have hident : x.ident? = some receiver := Expr.ident?_eq_some_iff.mpr ⟨posx, hx⟩
    have hstring : first.string? = some name := Expr.string?_eq_some_iff.mpr ⟨posf, hfirst⟩
    have hcond : ((sel == "Get" || sel == "GetOk") &&
        tracer.accessorReceivers.contains receiver) = true := by simp [hsel, hreceiver]
    simp only [hcallee, hident, hcond]
    exact hstring
  | member h => exact h

/-- A variable reads no field. -/
theorem not_reads_of_ident {e : Expr} {v : String} {pos : Pos} (he : e.unparen = .ident v pos) :
    ¬tracer.Reads name e.unassert := by
  have hident : e.unassert = .ident v pos := by rw [Expr.unassert, he]
  rw [hident]
  intro h
  cases h

end Tracer

/-! ### What an argument stands for -/

namespace Bindings

variable (b : Bindings) (tracer : Tracer)

/-- The argument selects a member of a variable that holds a parsed identifier;
`parent` is what is known of the one field that this identifier came from. -/
def MemberOf (parent : Resolution String) (arg : Expr) : Prop :=
  ∃ v, arg.SelectsFrom v ∧ b.parents.get? v = some parent

/-- The argument reads the field or is a variable that holds it. -/
inductive Holds (field : String) (arg : Expr) : Prop where
  | read (h : tracer.Reads field arg.unassert)
  | variable {v : String} {pos : Pos} (harg : arg.unparen = .ident v pos)
    (hv : b.fields.get? v = some field)

/-- The argument in place `i` can be resolved. -/
def Accepts (i : Nat) (arg : Expr) : Prop :=
  (∃ field, b.MemberOf (.resolved field) arg) ∨
    (¬∃ parent, b.MemberOf parent arg) ∧
      ((∃ field, b.Holds tracer field arg) ∨ i = 0 ∧ arg.NamesScope)

/-- What the argument in place `i` stands for: a field, or nothing when it is left out. -/
inductive StandsFor (i : Nat) (arg : Expr) : Option String → Prop where
  | member {field : String} (h : b.MemberOf (.resolved field) arg) : StandsFor i arg (some field)
  | field {field : String} (hmember : ¬∃ parent, b.MemberOf parent arg)
    (h : b.Holds tracer field arg) : StandsFor i arg (some field)
  | scope (hmember : ¬∃ parent, b.MemberOf parent arg) (hfield : ¬∃ field, b.Holds tracer field arg)
    (hi : i = 0) (h : arg.NamesScope) : StandsFor i arg none

variable {b : Bindings} {tracer : Tracer} {i : Nat} {arg : Expr}

/-- An argument is accepted when it stands for something. -/
theorem accepts_iff : b.Accepts tracer i arg ↔ ∃ found, b.StandsFor tracer i arg found := by
  constructor
  · rintro (⟨field, hmember⟩ | ⟨hmember, hrest⟩)
    · exact ⟨some field, .member hmember⟩
    · by_cases hfield : ∃ field, b.Holds tracer field arg
      · obtain ⟨field, hfield⟩ := hfield
        exact ⟨some field, .field hmember hfield⟩
      · obtain ⟨hi, hscope⟩ := hrest.resolve_left hfield
        exact ⟨none, .scope hmember hfield hi hscope⟩
  · rintro ⟨found, hmember | ⟨hmember, hfield⟩ | ⟨hmember, -, hi, hscope⟩⟩
    · exact .inl ⟨_, hmember⟩
    · exact .inr ⟨hmember, .inl ⟨_, hfield⟩⟩
    · exact .inr ⟨hmember, .inr ⟨hi, hscope⟩⟩

theorem parentMember?_eq_some_iff {parent : Resolution String} :
    b.parentMember? arg = some parent ↔ b.MemberOf parent arg := by
  unfold parentMember? MemberOf Expr.SelectsFrom
  cases arg.unparen with
  | selector x sel pos =>
    simp only [Option.bind_eq_some_iff, Expr.ident?_eq_some_iff, Expr.selector.injEq]
    constructor
    · rintro ⟨v, ⟨posx, hx⟩, hv⟩
      exact ⟨v, ⟨x, sel, pos, posx, ⟨rfl, rfl, rfl⟩, hx⟩, hv⟩
    · rintro ⟨v, ⟨_, _, _, posx, ⟨rfl, rfl, rfl⟩, hx⟩, hv⟩
      exact ⟨v, ⟨posx, hx⟩, hv⟩
  | _ => simp

theorem parentMember?_eq_none_iff :
    b.parentMember? arg = none ↔ ¬∃ parent, b.MemberOf parent arg := by
  simp only [← parentMember?_eq_some_iff, Option.eq_none_iff_forall_ne_some, not_exists, ne_eq]

theorem fieldOf?_eq_some_iff {field : String} :
    b.fieldOf? tracer arg = some field ↔ b.Holds tracer field arg := by
  unfold fieldOf?
  cases hread : tracer.fieldRead? arg with
  | some name =>
    have hname := Tracer.fieldRead?_eq_some_iff.mp hread
    constructor
    · rintro ⟨rfl⟩
      exact .read hname
    · rintro (hfield | ⟨harg, -⟩)
      · exact hread.symm.trans (Tracer.fieldRead?_eq_some_iff.mpr hfield)
      · exact absurd hname (Tracer.not_reads_of_ident harg)
  | none =>
    simp only [Option.bind_eq_some_iff, Expr.ident?_eq_some_iff]
    constructor
    · rintro ⟨v, ⟨pos, harg⟩, hv⟩
      exact .variable harg hv
    · rintro (hfield | ⟨harg, hv⟩)
      · rw [Tracer.fieldRead?_eq_some_iff.mpr hfield] at hread
        cases hread
      · exact ⟨_, ⟨_, harg⟩, hv⟩

theorem fieldOf?_eq_none_iff :
    b.fieldOf? tracer arg = none ↔ ¬∃ field, b.Holds tracer field arg := by
  simp only [← fieldOf?_eq_some_iff, Option.eq_none_iff_forall_ne_some, not_exists, ne_eq]

/-- What a single argument contributes is what it stands for. -/
theorem argField?_eq_some_iff {found : Option String} :
    b.argField? tracer (i == 0) arg = some found ↔ b.StandsFor tracer i arg found := by
  unfold argField?
  constructor
  · intro h
    split at h
    · next field hparent =>
      obtain rfl := Option.some.inj h
      exact .member (parentMember?_eq_some_iff.mp hparent)
    · cases h
    · next hparent =>
      have hmember := parentMember?_eq_none_iff.mp hparent
      split at h
      · next field hfield =>
        obtain rfl := Option.some.inj h
        exact .field hmember (fieldOf?_eq_some_iff.mp hfield)
      · next hfield =>
        split at h
        · next hcond =>
          obtain rfl := Option.some.inj h
          obtain ⟨hi, hscope⟩ := Bool.and_eq_true_iff.mp hcond
          exact .scope hmember (fieldOf?_eq_none_iff.mp hfield) (beq_iff_eq.mp hi)
            (Expr.isScope_iff.mp hscope)
        · cases h
  · rintro (h | ⟨hmember, h⟩ | ⟨hmember, hfield, hi, h⟩)
    · rw [parentMember?_eq_some_iff.mpr h]
    · rw [parentMember?_eq_none_iff.mpr hmember, fieldOf?_eq_some_iff.mpr h]
    · rw [parentMember?_eq_none_iff.mpr hmember, fieldOf?_eq_none_iff.mpr hfield]
      simp [hi, Expr.isScope_iff.mpr h]

/-- An argument that is not accepted contributes nothing that could be resolved. -/
theorem argField?_eq_none_iff :
    b.argField? tracer (i == 0) arg = none ↔ ¬b.Accepts tracer i arg := by
  simp only [accepts_iff, ← argField?_eq_some_iff, Option.eq_none_iff_forall_ne_some, not_exists,
    ne_eq]

/-! ### All arguments -/

/-- One argument that is not accepted is enough. -/
theorem resolveFrom_of_not_accepts : ∀ {args : List Expr} {i : Nat} {fields : List String}
    {p : Expr × Nat}, p ∈ args.zipIdx i → ¬b.Accepts tracer p.2 p.1 →
    b.resolveFrom tracer (i == 0) fields args = .unresolvable
  | [], _, _, _, hp, _ => by cases hp
  | first :: rest, i, fields, p, hp, hnot => by
    rw [resolveFrom]
    rw [List.zipIdx_cons] at hp
    rcases List.mem_cons.mp hp with rfl | hp
    · rw [argField?_eq_none_iff.mpr hnot]
    · have ih : ∀ fields, b.resolveFrom tracer false fields rest = .unresolvable :=
        fun fields => resolveFrom_of_not_accepts hp hnot
      cases b.argField? tracer (i == 0) first with
      | none => rfl
      | some found =>
        cases found with
        | none => exact ih fields
        | some field => exact ih (pushUnique fields field)

/-- Arguments that all stand for something give what they stand for, behind what was
found before. -/
theorem resolveFrom_of_standsFor : ∀ {args : List Expr} {i : Nat} {fields : List String}
    {stands : List (Option String)},
    List.Forall₂ (fun p found => b.StandsFor tracer p.2 p.1 found) (args.zipIdx i) stands →
    b.resolveFrom tracer (i == 0) fields args =
      .resolved ((stands.filterMap id).foldl pushUnique fields)
  | [], _, _, _, h => by
    obtain rfl := List.forall₂_nil_left_iff.mp h
    rfl
  | arg :: rest, i, fields, stands, h => by
    rw [List.zipIdx_cons] at h
    obtain ⟨found, stands, hfirst, hrest, rfl⟩ := List.forall₂_cons_left_iff.mp h
    have ih : ∀ fields, b.resolveFrom tracer false fields rest =
        .resolved ((stands.filterMap id).foldl pushUnique fields) :=
      fun fields => resolveFrom_of_standsFor hrest
    rw [resolveFrom, argField?_eq_some_iff.mpr hfirst]
    cases found with
    | none => exact ih fields
    | some field => exact ih (pushUnique fields field)

theorem exists_standsFor {ps : List (Expr × Nat)} (h : ∀ p ∈ ps, b.Accepts tracer p.2 p.1) :
    ∃ stands, List.Forall₂ (fun p found => b.StandsFor tracer p.2 p.1 found) ps stands := by
  induction ps with
  | nil => exact ⟨[], .nil⟩
  | cons p ps ih =>
    obtain ⟨hfirst, hrest⟩ := List.forall_mem_cons.mp h
    obtain ⟨found, hfound⟩ := accepts_iff.mp hfirst
    obtain ⟨stands, hstands⟩ := ih hrest
    exact ⟨found :: stands, .cons hfound hstands⟩

/-- Names that are pushed one after the other stand at their first places. -/
theorem foldl_pushUnique_nil (names : List String) :
    names.foldl pushUnique [] = names.eraseDups := by
  induction names using List.reverseRecOn with
  | nil => rfl
  | append_singleton names name ih =>
    rw [List.foldl_concat, ih, List.eraseDups_append, pushUnique]
    by_cases hmem : name ∈ names
    · simp [hmem, List.removeAll]
    · simp [hmem, List.removeAll, List.eraseDups_cons]

/-- A call is unresolvable when one of its arguments is not accepted. -/
theorem resolveArgs_eq_unresolvable_iff {args : List Expr} :
    b.resolveArgs tracer args = .unresolvable ↔
      ∃ i arg, args[i]? = some arg ∧ ¬b.Accepts tracer i arg := by
  constructor
  · intro h
    by_contra hnone
    have hall : ∀ p ∈ args.zipIdx, b.Accepts tracer p.2 p.1 := fun p hp =>
      by_contra fun hnot => hnone ⟨p.2, p.1, List.mem_zipIdx_iff_getElem?.mp hp, hnot⟩
    obtain ⟨stands, hstands⟩ := exists_standsFor hall
    rw [resolveArgs, show true = ((0 : Nat) == 0) from rfl, resolveFrom_of_standsFor hstands] at h
    cases h
  · rintro ⟨i, arg, harg, hnot⟩
    have hmem : (arg, i) ∈ args.zipIdx := List.mem_zipIdx_iff_getElem?.mpr harg
    exact resolveFrom_of_not_accepts hmem hnot

/-- Arguments that stand for fields give these fields, each at its first place. -/
theorem resolveArgs_of_standsFor {args : List Expr} {stands : List (Option String)}
    (h : List.Forall₂ (fun p found => b.StandsFor tracer p.2 p.1 found) args.zipIdx stands) :
    b.resolveArgs tracer args = .resolved (stands.filterMap id).eraseDups := by
  rw [← foldl_pushUnique_nil]
  exact resolveFrom_of_standsFor h

/-! ### Members of one parsed identifier -/

theorem argField?_of_memberOf {field : String} (h : b.MemberOf (.resolved field) arg)
    (first : Bool) : b.argField? tracer first arg = some (some field) := by
  rw [argField?, parentMember?_eq_some_iff.mpr h]

/-- Members add nothing to the field that is there already. -/
theorem resolveFrom_of_members {field : String} {fields : List String} (hfield : field ∈ fields) :
    ∀ {args : List Expr} {first : Bool}, (∀ arg ∈ args, b.MemberOf (.resolved field) arg) →
      b.resolveFrom tracer first fields args = .resolved fields
  | [], _, _ => rfl
  | arg :: rest, first, h => by
    obtain ⟨harg, hrest⟩ := List.forall_mem_cons.mp h
    have hpush : pushUnique fields field = fields := by simp [pushUnique, hfield]
    rw [resolveFrom, argField?_of_memberOf harg]
    show b.resolveFrom tracer false (pushUnique fields field) rest = .resolved fields
    rw [hpush, resolveFrom_of_members hfield hrest]

theorem resolveArgs_of_members {field : String} {args : List Expr} (hne : args ≠ [])
    (h : ∀ arg ∈ args, b.MemberOf (.resolved field) arg) :
    b.resolveArgs tracer args = .resolved [field] := by
  cases args with
  | nil => exact absurd rfl hne
  | cons arg rest =>
    obtain ⟨harg, hrest⟩ := List.forall_mem_cons.mp h
    rw [resolveArgs, resolveFrom, argField?_of_memberOf harg]
    exact resolveFrom_of_members List.mem_cons_self hrest

/-- A member of a parsed identifier is accepted only when the field of the identifier
is known. -/
theorem not_accepts_of_memberOf {parent : Resolution String} (h : b.MemberOf parent arg)
    (hparent : ∀ field, parent ≠ .resolved field) : ¬b.Accepts tracer i arg := by
  rintro (⟨field, hfield⟩ | ⟨hnone, -⟩)
  · have hsome := parentMember?_eq_some_iff.mpr h
    rw [parentMember?_eq_some_iff.mpr hfield] at hsome
    exact hparent field (Option.some.inj hsome).symm
  · exact hnone ⟨parent, h⟩

theorem resolveArgs_of_lost_member {parent : Resolution String} {args : List Expr}
    (harg : arg ∈ args) (h : b.MemberOf parent arg) (hparent : ∀ field, parent ≠ .resolved field) :
    b.resolveArgs tracer args = .unresolvable := by
  obtain ⟨i, hi⟩ := List.mem_iff_getElem?.mp harg
  exact resolveArgs_eq_unresolvable_iff.mpr ⟨i, arg, hi, not_accepts_of_memberOf h hparent⟩

end Bindings

/-- **All arguments or none.** A constructor call is unresolvable when one of its
arguments is not accepted, and otherwise stands for the fields of its arguments, in
order and each once. Members of one parsed identifier, however many, stand for its one
field. A member of an identifier of which the field is not known, such as one that was
parsed from something unresolvable, makes the call unresolvable wherever it stands and
whatever its name. -/
theorem Bindings.resolveArgs_allOrNothing (b : Bindings) (tracer : Tracer) (args : List Expr) :
    (b.resolveArgs tracer args = .unresolvable ↔
      ∃ i arg, args[i]? = some arg ∧ ¬b.Accepts tracer i arg) ∧
    ((∀ i arg, args[i]? = some arg → b.Accepts tracer i arg) →
      ∃ stands, List.Forall₂ (fun p found => b.StandsFor tracer p.2 p.1 found) args.zipIdx stands ∧
        b.resolveArgs tracer args = .resolved (stands.filterMap id).eraseDups) ∧
    (∀ v field, b.parents.get? v = some (.resolved field) → args ≠ [] →
      (∀ arg ∈ args, arg.SelectsFrom v) → b.resolveArgs tracer args = .resolved [field]) ∧
    (∀ v parent, b.parents.get? v = some parent → (∀ field, parent ≠ .resolved field) →
      (∃ arg ∈ args, arg.SelectsFrom v) → b.resolveArgs tracer args = .unresolvable) ∧
    (∀ v value inner, value.constructor? = some (.parse, inner) →
      b.resolveArgs tracer inner = .unresolvable → (∃ arg ∈ args, arg.SelectsFrom v) →
        (b.bind tracer v value).resolveArgs tracer args = .unresolvable) := by
  refine ⟨resolveArgs_eq_unresolvable_iff, fun hall => ?_, ?_, ?_, ?_⟩
  · have hzip : ∀ p ∈ args.zipIdx, b.Accepts tracer p.2 p.1 := fun p hp =>
      hall p.2 p.1 (List.mem_zipIdx_iff_getElem?.mp hp)
    obtain ⟨stands, hstands⟩ := exists_standsFor hzip
    exact ⟨stands, hstands, resolveArgs_of_standsFor hstands⟩
  · intro v field hv hne hall
    exact resolveArgs_of_members hne fun arg harg => ⟨v, hall arg harg, hv⟩
  · rintro v parent hv hparent ⟨arg, harg, hselects⟩
    exact resolveArgs_of_lost_member harg ⟨v, hselects, hv⟩ hparent
  · rintro v value inner hvalue hinner ⟨arg, harg, hselects⟩
    have hv : (b.bind tracer v value).parents.get? v = some .unresolvable := by
      rw [parents_bind_of_constructor v hvalue, hinner]
      exact Table.get?_insert_self ..
    exact resolveArgs_of_lost_member harg ⟨v, hselects, hv⟩ nofun

/-- The tables of a function in which `id` was parsed from one field. -/
def parsedParent : Bindings := { parents := Table.insert {} "id" (.resolved "account_id") }

/-- A member that is named for a scope stands for the parent all the same. -/
theorem resolveArgs_allOrNothing_parsedParent :
    parsedParent.parents.get? "id" = some (.resolved "account_id") ∧
      parsedParent.resolveArgs plainTracer [.selector (.ident "id" {}) "SubscriptionId" {},
        .selector (.ident "id" {}) "ResourceGroup" {}] = .resolved ["account_id"] := by
  have hparent : parsedParent.parents.get? "id" = some (.resolved "account_id") := by decide
  obtain ⟨-, -, hmembers, -⟩ := Bindings.resolveArgs_allOrNothing parsedParent plainTracer
    [.selector (.ident "id" {}) "SubscriptionId" {}, .selector (.ident "id" {}) "ResourceGroup" {}]
  refine ⟨hparent, hmembers "id" "account_id" hparent (by simp) ?_⟩
  refine List.forall_mem_cons.mpr ⟨⟨_, _, _, {}, rfl, rfl⟩, ?_⟩
  exact List.forall_mem_singleton.mpr ⟨_, _, _, {}, rfl, rfl⟩

end FieldOrder
