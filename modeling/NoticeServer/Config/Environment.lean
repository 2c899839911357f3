/-!
# `NoticeServer.Config.Environment` — references to environment variables

A reference is `${`, a name without `}`, and `}`. References are replaced once, from left to right; what
is put in is not looked at again. An opening without its end stays as it is, and a variable that is not set
counts as empty.
-/

namespace NoticeServer

/-- The values of environment variables; a variable may be unset. -/
abbrev Environment := String → Option String

/-- The value of a reference: empty for an empty name and for a variable that is not set. -/
def Environment.reference (env : Environment) (name : List Char) : List Char :=
  if name.isEmpty then [] else ((env (String.ofList name)).getD "").toList

/-- Replaces references. `name` holds, in reverse, what stands behind the last opening, if a reference
is open. -/
def expandFrom (env : Environment) : (name : Option (List Char)) → List Char → List Char
  | none, [] => []
  | some name, [] => '$' :: '{' :: name.reverse
  | none, '$' :: '{' :: text => expandFrom env (some []) text
  | none, c :: text => c :: expandFrom env none text
  | some name, c :: text =>
    if c = '}' then env.reference name.reverse ++ expandFrom env none text
    else expandFrom env (some (c :: name)) text

/-- The names of the variables that a text refers to; `name` is as for replacing. -/
def referenceNamesFrom : (name : Option (List Char)) → List Char → List String
  | _, [] => []
  | none, '$' :: '{' :: text => referenceNamesFrom (some []) text
  | none, _ :: text => referenceNamesFrom none text
  | some name, c :: text =>
    if c = '}' then String.ofList name.reverse :: referenceNamesFrom none text
    else referenceNamesFrom (some (c :: name)) text

/-- The names of the variables that a text refers to. -/
def referenceNames (text : String) : List String := referenceNamesFrom none text.toList

/-- The text with its references replaced. -/
def expandReferences (env : Environment) (text : String) : String :=
  String.ofList (expandFrom env none text.toList)

end NoticeServer
