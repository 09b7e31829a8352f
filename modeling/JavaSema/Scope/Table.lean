import JavaSema.JType.Assign
import JavaSema.Scope.Error
import JavaSema.Scope.Symbol

/-!
# The symbol table

A stack of scopes with innermost-first lookup.  Whatever happens to a symbol is reported to up to
three observers: that of the table, that of the scope which holds the symbol, and that of the symbol
itself, in this order.  An observer may reject a report, which ends the operation.
-/

namespace JavaSema

/-- What can happen to a symbol. -/
inductive Event where
  | push
  | pop
  | read
  | write
deriving DecidableEq, Inhabited

/-- The word for it in diagnostics. -/
def Event.word : Event → String
  | push => "Push"
  | pop => "Pop"
  | read => "Read"
  | write => "Write"

/-- What an observer is told. -/
structure Report where
  /-- The observer. -/
  observer : String
  /-- What happened. -/
  event : Event
  /-- The symbol that it happened to. -/
  symbol : Symbol
deriving Inhabited

/-- How observers judge what they are told. -/
structure Judge where
  /-- Whether the latest of the reports so far is rejected.  The latest one comes first. -/
  rejects : List Report → Bool

namespace Judge

instance : CoeFun Judge fun _ => List Report → Bool := ⟨rejects⟩

/-- Observers that judge each report alone, without looking at the reports before it. -/
instance : Coe (Report → Bool) Judge := ⟨fun rejects => { rejects := fun log => log.head?.any rejects }⟩

/-- Observers that reject nothing. -/
def lenient : Judge := { rejects := fun _ => false }

end Judge

/-- A stack of scopes. -/
structure SymbolTable where
  /-- The open scopes, innermost first. -/
  scopes : List Scope := []
  /-- Who is told of what happens to any symbol. -/
  observer : Option String := none
  /-- Which reports the observers reject. -/
  rejects : Judge := .lenient
  /-- The number of placeholders made so far. -/
  fresh : Nat := 0
  /-- The identity of the next symbol. -/
  nextId : Nat := 0
  /-- The reports so far, the latest first. -/
  log : List Report := []

instance : Inhabited SymbolTable := ⟨{}⟩

/-- An operation on a symbol table.  A failure keeps what was done before it. -/
abbrev TableM := ExceptT ResolveError (StateM SymbolTable)

namespace SymbolTable

/-! ### Lookup -/

/-- The number of open scopes. -/
def depth (t : SymbolTable) : Nat := t.scopes.length

/-- The first symbol of that name and kind in the scopes, with the scope that holds it. -/
def locate? (scopes : List Scope) (name : String) (kind : SymbolKind) : Option (Scope × Symbol) :=
  scopes.findSome? fun scope => (scope.find? name kind).map fun s => (scope, s)

/-- The innermost symbol of that name and kind. -/
def find? (t : SymbolTable) (name : String) (kind : SymbolKind) : Option Symbol :=
  (locate? t.scopes name kind).map Prod.snd

/-- The innermost symbol of that name and kind in scopes of one kind. -/
def findIn? (t : SymbolTable) (name : String) (kind : SymbolKind) (scopeKind : ScopeKind) :
    Option Symbol :=
  (locate? (t.scopes.filter fun scope => scope.kind == scopeKind) name kind).map Prod.snd

/-- Whether each argument can be passed for the parameter at its place. -/
def acceptsEach (env : ClassEnv) : List JType → List JType → Bool
  | [], [] => true
  | p :: ps, a :: as => p.accepts env a && acceptsEach env ps as
  | _, _ => false

/-- Whether the method can be called with arguments of these types, as declared or with the last
parameter spread. -/
def takes (env : ClassEnv) (s : Symbol) (args : List JType) : Bool :=
  acceptsEach env s.params args ||
    (s.isVarargs &&
      match s.params.getLast?.bind JType.component? with
      | none => false
      | some component =>
        let fixed := s.params.dropLast
        fixed.length ≤ args.length && acceptsEach env fixed (args.take fixed.length)
          && (args.drop fixed.length).all fun a => component.accepts env a)

/-- The innermost method of that name that can be called with arguments of these types. -/
def findMethod? (t : SymbolTable) (env : ClassEnv) (name : String) (args : List JType) :
    Option Symbol :=
  t.scopes.findSome? fun scope =>
    (scope.get name).find? fun s => s.kind == .method && takes env s args

/-- The innermost method of that name with the same erased parameters, and the scope that holds it. -/
def locateMethod? (t : SymbolTable) (name : String) (params : List JType) :
    Option (Scope × Symbol) :=
  t.scopes.findSome? fun scope =>
    ((scope.get name).find? fun s => s.sameBinding (.ofMethod name .void params)).map fun s =>
      (scope, s)

/-- The binary names of the classes whose bodies are open, innermost first. -/
def enclosingClasses (t : SymbolTable) : List String := t.scopes.filterMap Scope.owner

/-- The binary name of the innermost class whose body is open. -/
def innermostClass? (t : SymbolTable) : Option String := t.enclosingClasses.head?

/-! ### Events -/

/-- Tells an observer, if there is one. -/
def tell (event : Event) (symbol : Symbol) : Option String → TableM Unit
  | none => pure ()
  | some observer => do
    modify fun t => { t with log := { observer, event, symbol } :: t.log }
    let t ← get
    if t.rejects t.log then throw .rejected

/-- Tells the observer of the table, that of the scope and that of the symbol. -/
def dispatch (event : Event) (scope : Scope) (symbol : Symbol) : TableM Unit := do
  tell event symbol (← get).observer
  tell event symbol scope.observer
  tell event symbol symbol.observer

/-- Tells of an event for each of the symbols. -/
def dispatchAll (event : Event) (scope : Scope) : List Symbol → TableM Unit
  | [] => pure ()
  | s :: rest => do
    dispatch event scope s
    dispatchAll event scope rest

/-! ### Scopes and bindings -/

/-- Opens a scope. -/
def pushScope (kind : ScopeKind) (observer : Option String) : TableM Unit :=
  modify fun t => { t with scopes := { kind, observer } :: t.scopes }

/-- Opens the body of a class. -/
def pushClassScope (owner : String) (observer : Option String) : TableM Unit :=
  modify fun t =>
    { t with scopes := { kind := .classBody, owner := some owner, observer } :: t.scopes }

/-- Closes the innermost scope and tells that each of its symbols is left. -/
def popScope : TableM Scope := do
  match (← get).scopes with
  | [] => throw (.unbalancedScope .nothingToPop)
  | scope :: rest =>
    modify fun t => { t with scopes := rest }
    dispatchAll .pop scope scope.order
    return scope

/-- Replaces the innermost scope. -/
def setInnermost (scope : Scope) : TableM Unit :=
  modify fun t => { t with scopes := scope :: t.scopes.drop 1 }

/-- Takes the next identity. -/
def freshId : TableM Nat := do
  let t ← get
  set { t with nextId := t.nextId + 1 }
  return t.nextId

/-- The name of the next placeholder for a name. -/
def freshName (name : String) : TableM String := do
  modify fun t => { t with fresh := t.fresh + 1 }
  return name ++ "#" ++ toString (← get).fresh

/-- Moves the symbol that the new one would hide in its own scope to a placeholder. -/
def shadow (scope : Scope) (s : Symbol) : TableM (Scope × Option Symbol) := do
  match (scope.get s.name).find? fun old => old.sameBinding s with
  | none => return (scope, none)
  | some old =>
    let name ← freshName old.name
    let placeholder := old.placeholder (← freshId) name
    return (scope.substitute old placeholder, some placeholder)

/-- Binds a symbol in the innermost scope.  A symbol that it would hide there is kept under a fresh
name until the scope is left. -/
def pushSymbol (s : Symbol) : TableM Symbol := do
  if s.type.unresolved then throw (.malformedSymbol s.name)
  match (← get).scopes with
  | [] => throw (.unbalancedScope .noScope)
  | scope :: _ =>
    let (scope, placeholder) ← shadow scope s
    let s := { s with id := ← freshId }
    let scope := scope.insert s
    setInnermost scope
    if let some p := placeholder then dispatch .push scope p
    dispatch .push scope s
    return s

/-- Tells of an event for the symbol that was located. -/
def observed (event : Event) : Option (Scope × Symbol) → TableM (Option Symbol)
  | none => return none
  | some (scope, s) => do
    dispatch event scope s
    return some s

/-- The innermost symbol of that name and kind, which is told to be read. -/
def lookupForRead (name : String) (kind : SymbolKind) : TableM (Option Symbol) := do
  observed .read (locate? (← get).scopes name kind)

/-- The innermost symbol of that name and kind, which is told to be written. -/
def lookupForWrite (name : String) (kind : SymbolKind) : TableM (Option Symbol) := do
  observed .write (locate? (← get).scopes name kind)

/-- The innermost method of that name with the same erased parameters, which is told to be read. -/
def lookupMethodForRead (name : String) (params : List JType) : TableM (Option Symbol) := do
  observed .read ((← get).locateMethod? name params)

/-- Gives a type symbol its members.  Only the first time has an effect. -/
def attachMembers (t : SymbolTable) (id : Nat) (members : Scope) : SymbolTable :=
  let attach : Symbol → Symbol := fun s => { s with members := some (s.members.getD members) }
  { t with scopes := t.scopes.map fun scope => scope.update id attach }

/-- The text of the table in diagnostics. -/
def describe (t : SymbolTable) : String :=
  "SymbolTable \x7b scopes: [" ++ Text.join ", " (t.scopes.reverse.map Scope.describe)
    ++ "], .. \x7d"

end SymbolTable

end JavaSema
