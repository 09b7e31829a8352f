import JavaSema.ClassFile.Error
import JavaSema.Primitive
import JavaSema.Text.Split

/-!
# Descriptors

Field and method descriptors: their trees, their printed form and their parsers.
-/

namespace JavaSema.ClassFile

/-- The type that a field descriptor denotes. -/
inductive FieldType where
  /-- A primitive type. -/
  | base (p : Primitive)
  /-- A class, by its internal name with slashes. -/
  | object (internal : String)
  /-- An array of elements of the given type. -/
  | array (component : FieldType)
deriving DecidableEq, Inhabited

namespace FieldType

/-- The number of array dimensions. -/
def dimensions : FieldType → Nat
  | array t => 1 + t.dimensions
  | _ => 0

/-- The type without array dimensions. -/
def element : FieldType → FieldType
  | array t => t.element
  | t => t

/-- The descriptor of the type. -/
def print : FieldType → List Char
  | base p => [p.letter]
  | object internal => 'L' :: internal.toList ++ [';']
  | array t => '[' :: t.print

/-- Reads one field type and returns it with the rest of the text.  On failure the error quotes the
text from the component type that could not be read. -/
def parseChars : List Char → Except Error (FieldType × List Char)
  | [] => .error (.invalidDescriptor "")
  | c :: rest =>
    match Primitive.ofLetter? c with
    | some p => .ok (base p, rest)
    | none =>
      if c = 'L' then
        match Text.splitFirstChars? ';' rest with
        | some (n :: ns, after) => .ok (object (String.ofList (n :: ns)), after)
        | _ => .error (.invalidDescriptor (String.ofList (c :: rest)))
      else if c = '[' then
        match parseChars rest with
        | .ok (t, after) => .ok (array t, after)
        | .error e => .error e
      else .error (.invalidDescriptor (String.ofList (c :: rest)))

end FieldType

theorem length_of_splitFirstChars? {sep : Char} {s a b : List Char}
    (h : Text.splitFirstChars? sep s = some (a, b)) : a.length + b.length + 1 = s.length := by
  induction s generalizing a b with
  | nil => simp [Text.splitFirstChars?] at h
  | cons c s ih =>
    simp only [Text.splitFirstChars?] at h
    split at h
    · cases h; simp
    · cases hs : Text.splitFirstChars? sep s with
      | none => simp [hs] at h
      | some p =>
        obtain ⟨a', b'⟩ := p
        simp only [hs, Option.map_some, Option.some.injEq, Prod.mk.injEq] at h
        obtain ⟨rfl, rfl⟩ := h
        have := ih hs
        simp only [List.length_cons]; omega

/-- A field type takes at least one character. -/
theorem FieldType.length_lt_of_parseChars {s r : List Char} {t : FieldType}
    (h : parseChars s = .ok (t, r)) : r.length < s.length := by
  induction s generalizing t r with
  | nil => simp [parseChars] at h
  | cons c s ih =>
    simp only [parseChars] at h
    split at h
    · cases h; simp
    · split at h
      · split at h
        · next n ns after hs =>
          have := length_of_splitFirstChars? hs
          cases h
          simp only [List.length_cons] at this ⊢; omega
        · cases h
      · split at h
        · split at h
          · next t' after hp =>
            have := ih hp
            cases h
            simp only [List.length_cons]; omega
          · cases h
        · cases h

/-- What a method returns. -/
inductive ReturnType where
  /-- Nothing. -/
  | void
  /-- A value of the given type. -/
  | value (t : FieldType)
deriving DecidableEq, Inhabited

/-- The parameters and the result of a method. -/
structure MethodDescriptor where
  /-- The types of the parameters. -/
  params : List FieldType
  /-- What the method returns. -/
  returnType : ReturnType
deriving DecidableEq, Inhabited

/-- The descriptor of what a method returns. -/
def ReturnType.print : ReturnType → List Char
  | void => ['V']
  | value t => t.print

/-- The method descriptor as a text. -/
def MethodDescriptor.print (d : MethodDescriptor) : List Char :=
  '(' :: d.params.flatMap FieldType.print ++ ')' :: d.returnType.print

/-- Reads a whole field descriptor. -/
def FieldType.parse (text : String) : Except Error FieldType :=
  match FieldType.parseChars text.toList with
  | .ok (t, []) => .ok t
  | .ok (_, _ :: _) => .error (.invalidDescriptor text)
  | .error e => .error e

/-- Reads parameter types up to the closing parenthesis.  `whole` is quoted if it is missing. -/
def MethodDescriptor.parseParams (whole : String) (s : List Char) :
    Except Error (List FieldType × List Char) :=
  match s with
  | [] => .error (.invalidDescriptor whole)
  | ')' :: rest => .ok ([], rest)
  | c :: rest =>
    match _h : FieldType.parseChars (c :: rest) with
    | .error e => .error e
    | .ok (t, after) =>
      match MethodDescriptor.parseParams whole after with
      | .ok (ts, final) => .ok (t :: ts, final)
      | .error e => .error e
termination_by s.length
decreasing_by exact FieldType.length_lt_of_parseChars _h

/-- Reads a whole method descriptor. -/
def MethodDescriptor.parse (text : String) : Except Error MethodDescriptor :=
  match text.toList with
  | '(' :: s => do
    let (params, rest) ← MethodDescriptor.parseParams text s
    let (returnType, rest) ←
      match rest with
      | 'V' :: after => pure (ReturnType.void, after)
      | _ => do
        let (t, after) ← FieldType.parseChars rest
        pure (ReturnType.value t, after)
    if rest.isEmpty then pure { params, returnType } else throw (.invalidDescriptor text)
  | _ => .error (.invalidDescriptor text)

end JavaSema.ClassFile
