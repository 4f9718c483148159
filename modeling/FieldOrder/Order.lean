/-
# The order of fields

The order in which the fields of a schema map should be declared. At the top
level: the fields of the identifier with the most specific first, the location,
the required fields as declared, the optional fields by name, the computed
fields by name (a computed location before the others), and the tags. Without a
resolved identifier there is no group for it nor for the location. In a nested
map: the required, the optional and the computed fields, each by name.

Key definitions: `FieldGroup`, `groupOf`, `topLevelOrder`, `nestedOrder`,
`expectedOrder`.
-/
import FieldOrder.Resolution
import FieldOrder.Schema.Flags

namespace FieldOrder

/-! ### Groups -/

/-- The groups in which fields stand together, in their order. -/
inductive FieldGroup where
  | identifier
  | location
  | required
  | optional
  /-- A location that is computed and cannot be set. -/
  | computedLocation
  | computed
  | tags
  deriving DecidableEq, Repr

/-- The group that the flags of a field tell. -/
def flagGroup (f : Field) : FieldGroup :=
  if f.isComputedOnly then .computed
  else if f.flags.required then .required
  else .optional

/-- The group of a field at the top level, given the fields of the identifier. -/
def groupOf (ids : Option (List String)) (f : Field) : FieldGroup :=
  if f.name = "tags" then .tags
  else if (ids.getD []).contains f.name && !f.isComputedOnly then .identifier
  else if f.name = "location" && f.isComputedOnly then .computedLocation
  else if ids.isSome && f.name = "location" then .location
  else flagGroup f

/-- The fields of one group, as declared. -/
def groupMembers (group : Field → FieldGroup) (g : FieldGroup) (fields : List Field) :
    List Field := fields.filter fun f => group f = g

/-! ### The order inside a group -/

/-- Fields sorted by name; fields of one name stay as declared. -/
def sortByName (fields : List Field) : List Field :=
  fields.mergeSort fun f g => decide (f.name ≤ g.name)

/-- The names of an identifier from the most specific on, each once. -/
def identifierOrder (ids : List String) : List String := ids.eraseDups.reverse

/-- The members of the identifier group in the order of the identifier. -/
def sortByIdentifier (ids : List String) (members : List Field) : List Field :=
  (identifierOrder ids).flatMap fun id => members.filter fun f => f.name = id

/-- The place of the first field of a name. -/
def placeOf? (name : String) (fields : List Field) : Option Nat :=
  fields.findIdx? fun f => f.name = name

/-- Two members of a list exchanged. -/
def exchange (i j : Nat) (fields : List Field) : List Field :=
  match fields[i]?, fields[j]? with
  | some f, some g => (fields.set i g).set j f
  | _, _ => fields

/-- A location does not stand before the resource group: if it does, the two
exchange places. -/
def resourceGroupFirst (fields : List Field) : List Field :=
  match placeOf? "location" fields, placeOf? "resource_group_name" fields with
  | some i, some j => if i < j then exchange i j fields else fields
  | _, _ => fields

/-- Whether the optional fields stay as declared: there are required fields, and
some optional field is declared before all of them. -/
def keepsOptionalOrder (group : Field → FieldGroup) (fields : List Field) : Bool :=
  fields.any (fun f => group f = .required) &&
    ((fields.find? fun f => group f = .required || group f = .optional).any
      fun f => group f = .optional)

/-! ### The whole order -/

/-- The fields of a map at the top level, in the expected order. -/
def topLevelOrder (ids : Option (List String)) (fields : List Field) : List Field :=
  let group := groupOf ids
  let members g := groupMembers group g fields
  let optional :=
    if keepsOptionalOrder group fields then members .optional else sortByName (members .optional)
  sortByIdentifier (ids.getD []) (members .identifier) ++ members .location ++
    resourceGroupFirst (members .required) ++ optional ++ members .computedLocation ++
    sortByName (members .computed) ++ members .tags

/-- The fields of a nested map, in the expected order. -/
def nestedOrder (fields : List Field) : List Field :=
  sortByName (groupMembers flagGroup .required fields) ++
    sortByName (groupMembers flagGroup .optional fields) ++
    sortByName (groupMembers flagGroup .computed fields)

/-- The names of the fields of a schema map in the expected order. `ids` are the
fields of the identifier, the least specific first. -/
def expectedOrder (fields : List Field) (ids : Resolution (List String)) (nested : Bool) :
    List String :=
  (if nested then nestedOrder fields else topLevelOrder ids.value? fields).map (·.name)

end FieldOrder
