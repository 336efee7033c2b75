import MomentumChain.Json.Form

/-!
# Forms of records

A record is held by an object with a member for each field.  Reading takes the
members in any order and skips members with other names.  It also takes an array
of the values alone, in the order of the fields.

* A plain record (`Form.record`) must have every member, and none twice.
* A record with defaults (`Form.recordWithDefaults`) may lack members, but none
  may be given twice.

The fields of a record are listed by `Members`, which hold them as nested pairs.
A record form is this list with the two ways between the record and the pairs.
-/

namespace MomentumChain.Json

/-! ## Members of an object -/

namespace Value

/-- The members with a name. -/
def named (name : String) (members : List (Option String × Value)) : List Value :=
  (members.filter fun member => member.1 = some name).map Prod.snd

/-- The only value of a list. -/
def only? : List Value → Option Value
  | [value] => some value
  | _ => none

/-- The only value of a list that may be empty, and then the default. -/
def onlyOr? (default : Value) : List Value → Option Value
  | [] => some default
  | [value] => some value
  | _ => none

/-- The values of a record in the order of its fields. -/
def fields? (names : List String) : Value → Option (List Value)
  | .array values => if values.length = names.length then some values else none
  | .object members =>
      if members.all fun member => member.1.isSome then
        names.mapM fun name => only? (named name members)
      else none
  | _ => none

/-- The values of a record whose missing members have defaults. -/
def fieldsOr? (defaults : List (String × Value)) : Value → Option (List Value)
  | .array values =>
      if values.length ≤ defaults.length then
        some (values ++ (defaults.drop values.length).map Prod.snd)
      else none
  | .object members =>
      if members.all fun member => member.1.isSome then
        defaults.mapM fun (name, default) => onlyOr? default (named name members)
      else none
  | _ => none

end Value

/-! ## Fields -/

/-- The fields of a record, with their names and forms. -/
structure Members (α : Type) where
  names : List String
  /-- The values in the order of the names. -/
  write : α → List Value
  /-- The fields of as many values as there are names. -/
  read? : List Value → Option α

namespace Members

/-- No field. -/
def nil : Members Unit where
  names := []
  write _ := []
  read?
    | [] => some ()
    | _ => none

/-- One more field in front. -/
def cons {α β : Type} (name : String) (form : Form α) (rest : Members β) : Members (α × β) where
  names := name :: rest.names
  write v := form.write v.1 :: rest.write v.2
  read?
    | value :: values => do return (← form.read? value, ← rest.read? values)
    | [] => none

/-- The names with the values. -/
def named {α : Type} (members : Members α) (fields : α) : List (String × Value) :=
  members.names.zip (members.write fields)

end Members

namespace Form

/-- A record that has every member. -/
def record {α β : Type} (members : Members α) (toFields : β → α) (ofFields : α → β) : Form β where
  write r := Value.record (members.named (toFields r))
  read? v := do
    let values ← v.fields? members.names
    return ofFields (← members.read? values)

/-- A record whose missing members are those of a default record. -/
def recordWithDefaults {α β : Type} (members : Members α) (toFields : β → α) (ofFields : α → β)
    (default : β) : Form β where
  write r := Value.record (members.named (toFields r))
  read? v := do
    let values ← v.fieldsOr? (members.named (toFields default))
    return ofFields (← members.read? values)

end Form

end MomentumChain.Json
