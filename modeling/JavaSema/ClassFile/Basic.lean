import JavaSema.ClassFile.Access
import JavaSema.ClassFile.ConstantPool

/-!
# Class files

What a class file says of a class: names, flags, descriptors and generic signatures.  The code of
methods and all other attributes are skipped by their length.
-/

namespace JavaSema

namespace ClassFile

/-- A field or method. -/
structure Member where
  /-- The access flags. -/
  flags : UInt16
  /-- The name. -/
  name : String
  /-- The descriptor. -/
  descriptor : String
  /-- The generic signature. -/
  signature : Option String
deriving DecidableEq, Inhabited

/-- What a class file says of a nested class that it mentions. -/
structure InnerClass where
  /-- The internal name of the nested class. -/
  inner : String
  /-- The internal name of the class that it is a member of. -/
  outer : Option String
  /-- The simple name; none for an anonymous class. -/
  name : Option String
  /-- The access flags. -/
  flags : UInt16
deriving DecidableEq, Inhabited

/-- An attribute. -/
inductive Attribute where
  /-- A generic signature. -/
  | signature (text : String)
  /-- The nested classes that a class file mentions. -/
  | innerClasses (entries : List InnerClass)
  /-- Any other attribute. -/
  | skipped
deriving DecidableEq, Inhabited

/-- Reads an index and looks it up. -/
def lookup {α : Type} (find : UInt16 → Except Error α) : Reader α := do
  let index ← Reader.u2
  find index

namespace InnerClass

/-- Reads an entry for a nested class. -/
def read (pool : ConstantPool) : Reader InnerClass := do
  let inner ← lookup pool.className
  let outer ← lookup (ConstantPool.optional · pool.className)
  let name ← lookup (ConstantPool.optional · pool.text)
  return { inner, outer, name, flags := ← Reader.u2 }

end InnerClass

namespace Attribute

/-- Reads the content of an attribute, which has to take all its bytes. -/
def readContent {α : Type} (name : String) (content : Reader α) (bytes : List UInt8) :
    Except Error α := do
  let (a, rest) ← content.run bytes
  if rest.isEmpty then return a else throw (.malformedAttribute name)

/-- Interprets an attribute.  Nested classes count on the class only. -/
def interpret (pool : ConstantPool) (onClass : Bool) (name : String) (content : List UInt8) :
    Except Error Attribute := do
  if name == "Signature" then return .signature (← readContent name (lookup pool.text) content)
  else if name == "InnerClasses" && onClass then
    return .innerClasses (← readContent name (Reader.table (InnerClass.read pool)) content)
  else return .skipped

/-- Reads an attribute. -/
def read (pool : ConstantPool) (onClass : Bool) : Reader Attribute := do
  let name ← lookup pool.text
  let content ← Reader.bytes (← Reader.u4).toNat
  interpret pool onClass name content

/-- The last signature among the attributes. -/
def lastSignature (attributes : List Attribute) : Option String :=
  (attributes.filterMap fun
    | signature text => some text
    | _ => none).getLast?

/-- The nested classes of all attributes. -/
def allInnerClasses (attributes : List Attribute) : List InnerClass :=
  attributes.flatMap fun
    | innerClasses entries => entries
    | _ => []

end Attribute

namespace Member

/-- Reads a field or method. -/
def read (pool : ConstantPool) : Reader Member := do
  let flags ← Reader.u2
  let name ← lookup pool.text
  let descriptor ← lookup pool.text
  let attributes ← Reader.table (Attribute.read pool false)
  return { flags, name, descriptor, signature := Attribute.lastSignature attributes }

end Member

end ClassFile

/-- A class file. -/
structure ClassFile where
  /-- The minor version of the format. -/
  minor : UInt16
  /-- The major version of the format. -/
  major : UInt16
  /-- The access flags. -/
  flags : UInt16
  /-- The internal name of the class. -/
  name : String
  /-- The internal name of the superclass. -/
  superclass : Option String
  /-- The internal names of the interfaces. -/
  interfaces : List String
  /-- The fields. -/
  fields : List ClassFile.Member
  /-- The methods and constructors. -/
  methods : List ClassFile.Member
  /-- The generic signature. -/
  signature : Option String
  /-- The nested classes that are mentioned. -/
  innerClasses : List ClassFile.InnerClass
deriving DecidableEq, Inhabited

namespace ClassFile

/-- The number that starts a class file. -/
def magic : UInt32 := 0xCAFEBABE

/-- Reads what follows the magic number. -/
def readBody : Reader ClassFile := do
  let minor ← Reader.u2
  let major ← Reader.u2
  let pool ← ConstantPool.read
  let flags ← Reader.u2
  let name ← lookup pool.className
  let superclass ← lookup (ConstantPool.optional · pool.className)
  let interfaces ← Reader.table (lookup pool.className)
  let fields ← Reader.table (Member.read pool)
  let methods ← Reader.table (Member.read pool)
  let attributes ← Reader.table (Attribute.read pool true)
  return {
    minor
    major
    flags
    name
    superclass
    interfaces
    fields
    methods
    signature := Attribute.lastSignature attributes
    innerClasses := Attribute.allInnerClasses attributes }

/-- Reads a class file from the front of the bytes. -/
def read : Reader ClassFile := do
  let found ← Reader.u4
  if found ≠ magic then throw (.invalidMagic found)
  readBody

/-- Reads a class file. -/
def parse (bytes : List UInt8) : Except Error ClassFile := Reader.whole read bytes

/-- What the class file says of its own class, if the class is nested. -/
def ownEntry? (f : ClassFile) : Option InnerClass :=
  f.innerClasses.find? fun i => i.inner == f.name

/-- The internal names of the member classes. -/
def memberClasses (f : ClassFile) : List String :=
  (f.innerClasses.filter fun i => i.outer == some f.name && i.name.isSome).map InnerClass.inner

end ClassFile

end JavaSema
