import RecordGate.Text.Case

/-! # Labels

  A model has a singular and a plural label in lower case. The singular one
  names the loaded record in permissions, the plural one is the default name
  of the collection.
-/

namespace RecordGate

/-- The singular and the plural label of a model. -/
structure Label where
  /-- The name of one record. -/
  singular : String
  /-- The name of many records. -/
  plural : String
  deriving DecidableEq, Repr, Inhabited

namespace Label

/-- `es` after a final `s`, else `s`. -/
def pluralize (singular : String) : String :=
  if singular.toList.getLast? = some 's' then singular ++ "es" else singular ++ "s"

/-- The label of a singular text, in lower case. -/
def ofSingular (text : String) : Label :=
  let singular := Text.lower text
  ⟨singular, pluralize singular⟩

/-- The label of a model name: a single final `s` is taken for the plural. -/
def ofModelName (name : String) : Label :=
  let lower := Text.lower name
  match lower.toList.reverse with
  | 's' :: stem =>
    if stem.isEmpty || stem.head? = some 's' then ofSingular lower
    else ⟨String.ofList stem.reverse, lower⟩
  | _ => ofSingular lower

end Label

end RecordGate
