import JavaSema.ClassFile.Error
import JavaSema.Primitive
import JavaSema.Text.Split

/-!
# Generic signatures

The trees of class, method and field signatures, their printed form and their parsers.

The parsers work on `List Char` and return the rest of the text.  The mutually recursive ones take a
budget that bounds the number of nested calls; `budget` gives one that the text cannot exhaust, since
between two characters that are consumed at most four calls are made.
-/

namespace JavaSema.ClassFile

mutual

/-- A type in a signature. -/
inductive TypeSig where
  /-- A primitive type. -/
  | base (p : Primitive)
  /-- A class with type arguments. -/
  | ofClass (c : ClassTypeSig)
  /-- A type variable. -/
  | var (name : String)
  /-- An array of elements of the given type. -/
  | array (t : TypeSig)

/-- A class type in a signature. -/
inductive ClassTypeSig where
  /-- The package with slashes, empty for the unnamed one, and the classes, outermost first. -/
  | mk (package : String) (segments : List SegmentSig)

/-- One class of a class type. -/
inductive SegmentSig where
  /-- The simple name of the class and its type arguments. -/
  | mk (name : String) (args : List ArgSig)

/-- A type argument in a signature. -/
inductive ArgSig where
  /-- The wildcard without bounds. -/
  | any
  /-- A type. -/
  | exact (t : TypeSig)
  /-- The wildcard bounded above. -/
  | upper (t : TypeSig)
  /-- The wildcard bounded below. -/
  | lower (t : TypeSig)

end

instance : Inhabited TypeSig := ⟨.var ""⟩
instance : Inhabited ClassTypeSig := ⟨.mk "" []⟩

namespace SegmentSig

/-- The simple name of the class. -/
def name : SegmentSig → String
  | mk n _ => n

/-- The type arguments of the class. -/
def args : SegmentSig → List ArgSig
  | mk _ as => as

end SegmentSig

namespace ClassTypeSig

/-- The package with slashes, empty for the unnamed one. -/
def package : ClassTypeSig → String
  | mk p _ => p

/-- The classes, outermost first. -/
def segments : ClassTypeSig → List SegmentSig
  | mk _ s => s

/-- The binary name of the innermost class. -/
def binaryName (c : ClassTypeSig) : String :=
  let pkg := Text.replaceChar '/' '.' c.package
  (if pkg.isEmpty then "" else pkg ++ ".") ++ Text.join "$" (c.segments.map SegmentSig.name)

/-- The type arguments of the innermost class. -/
def args (c : ClassTypeSig) : List ArgSig :=
  match c.segments.getLast? with
  | some s => s.args
  | none => []

end ClassTypeSig

/-- The declaration of a type parameter. -/
structure TypeParamSig where
  /-- The name of the type variable. -/
  name : String
  /-- The bound that is a class, if it has one. -/
  classBound : Option TypeSig
  /-- The bounds that are interfaces. -/
  interfaceBounds : List TypeSig
deriving Inhabited

/-- All bounds, the class bound first. -/
def TypeParamSig.bounds (p : TypeParamSig) : List TypeSig :=
  p.classBound.toList ++ p.interfaceBounds

/-- The signature of a class. -/
structure ClassSig where
  /-- The type parameters. -/
  typeParams : List TypeParamSig
  /-- The superclass. -/
  superclass : ClassTypeSig
  /-- The interfaces. -/
  interfaces : List ClassTypeSig
deriving Inhabited

/-- The signature of a method. -/
structure MethodSig where
  /-- The type parameters. -/
  typeParams : List TypeParamSig
  /-- The types of the parameters. -/
  params : List TypeSig
  /-- The type of the result; `none` for `void`. -/
  returnType : Option TypeSig
  /-- The types of the exceptions. -/
  throws : List TypeSig
deriving Inhabited

/-! ### Printing -/

mutual

/-- The type as it stands in a signature. -/
def TypeSig.print : TypeSig → List Char
  | .base p => [p.letter]
  | .ofClass c => c.print
  | .var name => 'T' :: name.toList ++ [';']
  | .array t => '[' :: t.print

/-- The class type as it stands in a signature. -/
def ClassTypeSig.print : ClassTypeSig → List Char
  | .mk package segments =>
    'L' :: (if package.isEmpty then [] else package.toList ++ ['/']) ++ printSegments segments
      ++ [';']

/-- The classes of a class type, separated by dots. -/
def printSegments : List SegmentSig → List Char
  | [] => []
  | [s] => s.print
  | s :: t :: rest => s.print ++ '.' :: printSegments (t :: rest)

/-- One class with its type arguments. -/
def SegmentSig.print : SegmentSig → List Char
  | .mk name args =>
    name.toList ++ match args with
      | [] => []
      | a :: as => '<' :: printArgs (a :: as) ++ ['>']

/-- The type arguments one after the other. -/
def printArgs : List ArgSig → List Char
  | [] => []
  | a :: as => a.print ++ printArgs as

/-- One type argument. -/
def ArgSig.print : ArgSig → List Char
  | .any => ['*']
  | .exact t => t.print
  | .upper t => '+' :: t.print
  | .lower t => '-' :: t.print

end

/-- The declaration of a type parameter as it stands in a signature. -/
def TypeParamSig.print (p : TypeParamSig) : List Char :=
  p.name.toList ++ ':' :: (p.classBound.map TypeSig.print).getD []
    ++ p.interfaceBounds.flatMap fun t => ':' :: t.print

/-- The type parameters in angle brackets; nothing if there is none. -/
def printTypeParams : List TypeParamSig → List Char
  | [] => []
  | p :: ps => '<' :: (p :: ps).flatMap TypeParamSig.print ++ ['>']

/-- The class signature as a text. -/
def ClassSig.print (s : ClassSig) : List Char :=
  printTypeParams s.typeParams ++ s.superclass.print ++ s.interfaces.flatMap ClassTypeSig.print

/-- The method signature as a text. -/
def MethodSig.print (s : MethodSig) : List Char :=
  printTypeParams s.typeParams ++ '(' :: s.params.flatMap TypeSig.print
    ++ ')' :: (s.returnType.map TypeSig.print).getD ['V']
    ++ s.throws.flatMap fun t => '^' :: t.print

/-! ### Parsing -/

/-- Whether the character ends an identifier. -/
def endsIdentifier (c : Char) : Bool :=
  c = '.' || c = ';' || c = '[' || c = '/' || c = '<' || c = '>' || c = ':'

/-- Reads a non-empty identifier. -/
def parseIdentifier (s : List Char) : Option (String × List Char) :=
  match s.span fun c => !endsIdentifier c with
  | ([], _) => none
  | (c :: cs, rest) => some (String.ofList (c :: cs), rest)

/-- Reads the given character. -/
def expectChar (c : Char) : List Char → Option (List Char)
  | [] => none
  | d :: rest => if d = c then some rest else none

/-- Reads the package and the name of the outermost class, which follow one another with slashes
between.  `package` is what has been read of the package, and the text starts with an
identifier. -/
def parsePackage : Nat → String → List Char → Option (String × String × List Char)
  | 0, _, _ => none
  | budget + 1, package, s => do
    let (name, rest) ← parseIdentifier s
    match rest with
    | '/' :: after =>
      parsePackage budget (if package.isEmpty then name else package ++ "/" ++ name) after
    | _ => some (package, name, rest)

mutual

/-- Reads a type that is not primitive. -/
def parseReference : Nat → List Char → Option (TypeSig × List Char)
  | 0, _ => none
  | budget + 1, s =>
    match s with
    | 'L' :: rest => do
      let (c, rest) ← parseClassType budget ('L' :: rest)
      return (.ofClass c, rest)
    | 'T' :: rest => do
      let (name, rest) ← parseIdentifier rest
      let rest ← expectChar ';' rest
      return (.var name, rest)
    | '[' :: rest => do
      let (t, rest) ← parseType budget rest
      return (.array t, rest)
    | _ => none

/-- Reads a type. -/
def parseType : Nat → List Char → Option (TypeSig × List Char)
  | 0, _ => none
  | budget + 1, s =>
    match s with
    | [] => none
    | c :: rest =>
      match Primitive.ofLetter? c with
      | some p => some (.base p, rest)
      | none => parseReference budget (c :: rest)

/-- Reads a class type. -/
def parseClassType : Nat → List Char → Option (ClassTypeSig × List Char)
  | 0, _ => none
  | budget + 1, s => do
    let rest ← expectChar 'L' s
    let (package, name, rest) ← parsePackage (rest.length + 1) "" rest
    let (args, rest) ← parseArgs budget rest
    let (segments, rest) ← parseSegments budget rest
    let rest ← expectChar ';' rest
    return (.mk package (.mk name args :: segments), rest)

/-- Reads the classes that follow the outermost one, each after a dot. -/
def parseSegments : Nat → List Char → Option (List SegmentSig × List Char)
  | 0, _ => none
  | budget + 1, s =>
    match s with
    | '.' :: rest => do
      let (name, rest) ← parseIdentifier rest
      let (args, rest) ← parseArgs budget rest
      let (segments, rest) ← parseSegments budget rest
      return (.mk name args :: segments, rest)
    | _ => some ([], s)

/-- Reads type arguments in angle brackets; there may be none. -/
def parseArgs : Nat → List Char → Option (List ArgSig × List Char)
  | 0, _ => none
  | budget + 1, s =>
    match s with
    | '<' :: rest => parseArgList budget rest
    | _ => some ([], s)

/-- Reads type arguments up to the closing bracket. -/
def parseArgList : Nat → List Char → Option (List ArgSig × List Char)
  | 0, _ => none
  | budget + 1, s =>
    match s with
    | '>' :: rest => some ([], rest)
    | _ => do
      let (arg, rest) ← parseArg budget s
      let (args, rest) ← parseArgList budget rest
      return (arg :: args, rest)

/-- Reads one type argument. -/
def parseArg : Nat → List Char → Option (ArgSig × List Char)
  | 0, _ => none
  | budget + 1, s =>
    match s with
    | '*' :: rest => some (.any, rest)
    | '+' :: rest => do
      let (t, rest) ← parseReference budget rest
      return (.upper t, rest)
    | '-' :: rest => do
      let (t, rest) ← parseReference budget rest
      return (.lower t, rest)
    | _ => do
      let (t, rest) ← parseReference budget s
      return (.exact t, rest)

end

/-- A budget that reading the text cannot exhaust. -/
def budget (s : List Char) : Nat := 4 * s.length + 4

/-- Reads interface bounds, each after a colon. -/
def parseInterfaceBounds : Nat → List Char → Option (List TypeSig × List Char)
  | 0, _ => none
  | fuel + 1, s =>
    match s with
    | ':' :: rest => do
      let (t, rest) ← parseReference (budget rest) rest
      let (ts, rest) ← parseInterfaceBounds fuel rest
      return (t :: ts, rest)
    | _ => some ([], s)

/-- Reads type parameters up to the closing bracket. -/
def parseTypeParamList : Nat → List Char → Option (List TypeParamSig × List Char)
  | 0, _ => none
  | fuel + 1, s =>
    match s with
    | '>' :: rest => some ([], rest)
    | _ => do
      let (name, rest) ← parseIdentifier s
      let rest ← expectChar ':' rest
      let (classBound, rest) ←
        match rest with
        | 'L' :: _ | 'T' :: _ | '[' :: _ => do
          let (t, rest) ← parseReference (budget rest) rest
          pure (some t, rest)
        | _ => pure (none, rest)
      let (interfaceBounds, rest) ← parseInterfaceBounds (rest.length + 1) rest
      let (ps, rest) ← parseTypeParamList fuel rest
      return ({ name, classBound, interfaceBounds } :: ps, rest)

/-- Reads type parameters in angle brackets; there may be none. -/
def parseTypeParams (s : List Char) : Option (List TypeParamSig × List Char) :=
  match s with
  | '<' :: rest => parseTypeParamList (rest.length + 1) rest
  | _ => some ([], s)

/-- Reads class types up to the end of the text. -/
def parseClassTypes : Nat → List Char → Option (List ClassTypeSig)
  | _, [] => some []
  | 0, _ :: _ => none
  | fuel + 1, c :: s => do
    let (t, rest) ← parseClassType (budget (c :: s)) (c :: s)
    let ts ← parseClassTypes fuel rest
    return t :: ts

/-- Reads types up to the closing parenthesis. -/
def parseParamTypes : Nat → List Char → Option (List TypeSig × List Char)
  | 0, _ => none
  | fuel + 1, s =>
    match s with
    | ')' :: rest => some ([], rest)
    | _ => do
      let (t, rest) ← parseType (budget s) s
      let (ts, rest) ← parseParamTypes fuel rest
      return (t :: ts, rest)

/-- Reads the types of exceptions, each after a circumflex, up to the end of the text. -/
def parseThrows : Nat → List Char → Option (List TypeSig)
  | _, [] => some []
  | 0, _ :: _ => none
  | fuel + 1, c :: s =>
    if c = '^' then do
      let (t, rest) ← parseReference (budget s) s
      let ts ← parseThrows fuel rest
      return t :: ts
    else none

/-- Reads a whole class signature. -/
def ClassSig.parseChars? (s : List Char) : Option ClassSig := do
  let (typeParams, rest) ← parseTypeParams s
  let (superclass, rest) ← parseClassType (budget rest) rest
  let interfaces ← parseClassTypes rest.length rest
  return { typeParams, superclass, interfaces }

/-- Reads a whole method signature. -/
def MethodSig.parseChars? (s : List Char) : Option MethodSig := do
  let (typeParams, rest) ← parseTypeParams s
  let rest ← expectChar '(' rest
  let (params, rest) ← parseParamTypes (rest.length + 1) rest
  let (returnType, rest) ←
    match rest with
    | 'V' :: after => pure (none, after)
    | _ => do
      let (t, after) ← parseType (budget rest) rest
      pure (some t, after)
  let throws ← parseThrows rest.length rest
  return { typeParams, params, returnType, throws }

/-- Reads a whole field signature. -/
def TypeSig.parseChars? (s : List Char) : Option TypeSig :=
  match parseReference (budget s) s with
  | some (t, []) => some t
  | _ => none

/-- Reads a whole class signature, or refuses the text. -/
def ClassSig.parse (text : String) : Except Error ClassSig :=
  match ClassSig.parseChars? text.toList with
  | some s => .ok s
  | none => .error (.invalidSignature text)

/-- Reads a whole method signature, or refuses the text. -/
def MethodSig.parse (text : String) : Except Error MethodSig :=
  match MethodSig.parseChars? text.toList with
  | some s => .ok s
  | none => .error (.invalidSignature text)

/-- Reads a whole field signature, or refuses the text. -/
def TypeSig.parse (text : String) : Except Error TypeSig :=
  match TypeSig.parseChars? text.toList with
  | some t => .ok t
  | none => .error (.invalidSignature text)

end JavaSema.ClassFile
