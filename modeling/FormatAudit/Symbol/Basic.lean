import FormatAudit.Token.Basic

/-!
# Symbols

What a name stands for. Two symbols are the same when their keys and their names agree; the kind and the place of declaration are
remarks. So every occurrence of a variable stands for the same symbol, whichever token it was resolved from.
-/

namespace FormatAudit

/-- What kind of thing a name stands for. -/
inductive SymbolSort where
  | constantName | variableName | functionName | typeName
  deriving DecidableEq, Repr, Inhabited

/-- The identity of a symbol inside its name space. A variable to which the dump gives no identifier is told apart by its place
in the table. -/
inductive SymbolId where
  | text (s : String)
  | number (n : Int)
  | unnamed (v : VariableId)
  deriving DecidableEq, Repr, Inhabited

/-- The identity of a symbol. -/
structure SymbolKey where
  space : String
  id : SymbolId
  deriving DecidableEq, Repr, Inhabited

/-- The symbol that a name stands for. `declaration` is the declared function, where there is one. -/
structure Symbol where
  key : SymbolKey
  name : String
  kind : SymbolSort
  declaredAt : Option Location := none
  declaration : Option FunctionId := none
  deriving DecidableEq, Repr, Inhabited

/-- The identity that an identifier of the dump gives. -/
def EntityId.toSymbolId : EntityId → SymbolId
  | .text s => .text s
  | .number n => .number n

namespace Symbol

/-- Whether two symbols are the same: key and name agree. -/
def same (a b : Symbol) : Bool :=
  a.key == b.key && a.name == b.name

/-- Whether some symbol of a list is the same as the given one. -/
def isIn (a : Symbol) (symbols : List Symbol) : Bool :=
  symbols.any (a.same ·)

/-- The symbols of a list, each only where it occurs first. -/
def distinct (symbols : List Symbol) : List Symbol :=
  symbols.foldl (fun kept a => if a.isIn kept then kept else kept ++ [a]) []

/-- The symbol of a type that is known by its text. -/
def ofType (text : String) : Symbol :=
  { key := { space := "type", id := .text text }, name := text, kind := .typeName }

/-- The symbol of a called function that is declared nowhere in the unit. -/
def ofLibraryFunction (name : String) : Symbol :=
  { key := { space := "function", id := .text name }, name, kind := .functionName }

/-- The symbol of an enumerator-like name with a known value. -/
def ofEnumerator (name : String) : Symbol :=
  { key := { space := "enum", id := .text name }, name, kind := .constantName }

end Symbol

end FormatAudit
