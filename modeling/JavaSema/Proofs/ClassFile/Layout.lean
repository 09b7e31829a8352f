import JavaSema.ClassFile.Basic
import JavaSema.Proofs.ClassFile.Text

/-!
# The layout of class files

A class file as a tree of its parts, before it is written: the constants of its pool, the indices at
which the other parts find them, and its tables and attributes.  `ClassLayout.encode` gives the bytes
of such a tree, and `ClassLayout.content` what it says of the class.

A reference into the pool carries the constant that it denotes, and a table carries that its length
fits into its two bytes.  So each tree has a written form, and all class files have such a tree.

Constants refer to others by bare indices: of those only the name of a class matters here, and only
where the class is referred to.
-/

namespace JavaSema.ClassFile

/-! ## Numbers and tables -/

/-- The two bytes of a number. -/
def bytes2 (n : UInt16) : List UInt8 :=
  [UInt8.ofNat (n.toNat / 0x100), UInt8.ofNat (n.toNat % 0x100)]

/-- The four bytes of a number. -/
def bytes4 (n : UInt32) : List UInt8 :=
  bytes2 (UInt16.ofNat (n.toNat / 0x10000)) ++ bytes2 (UInt16.ofNat (n.toNat % 0x10000))

/-- A table, whose number of entries takes two bytes. -/
structure Table (α : Type) where
  /-- The entries. -/
  entries : List α
  /-- Their number fits into two bytes. -/
  fits : entries.length < 0x10000

/-- The bytes of a table: the number of its entries, then the entries. -/
def Table.encode {α : Type} (entry : α → List UInt8) (t : Table α) : List UInt8 :=
  bytes2 (UInt16.ofNat t.entries.length) ++ t.entries.flatMap entry

/-! ## Constants -/

/-- The numbers that take one slot. -/
inductive WordKind where
  | integer
  | float

/-- The numbers that take two slots. -/
inductive WideKind where
  | long
  | double

/-- The constants that refer to one other. -/
inductive RefKind where
  | string
  | methodType
  | module
  | package

/-- The constants that refer to two others, or to an entry of an attribute and another constant. -/
inductive PairKind where
  | field
  | method
  | interfaceMethod
  | nameAndType
  | dynamic
  | invokeDynamic

/-- A constant of the pool. -/
inductive PoolConstant where
  /-- A text by its UTF-16 units, which need not be those of a text. -/
  | text (units : List UInt16)
  | word (kind : WordKind) (bits : UInt32)
  | wide (kind : WideKind) (high low : UInt32)
  /-- A class, by the index of its name. -/
  | ofClass (name : UInt16)
  | ref (kind : RefKind) (index : UInt16)
  | pair (kind : PairKind) (first second : UInt16)
  | methodHandle (kind : UInt8) (index : UInt16)

def WordKind.tag : WordKind → UInt8
  | integer => 3
  | float => 4

def WideKind.tag : WideKind → UInt8
  | long => 5
  | double => 6

def RefKind.tag : RefKind → UInt8
  | string => 8
  | methodType => 16
  | module => 19
  | package => 20

def PairKind.tag : PairKind → UInt8
  | field => 9
  | method => 10
  | interfaceMethod => 11
  | nameAndType => 12
  | dynamic => 17
  | invokeDynamic => 18

namespace PoolConstant

/-- The bytes of a constant: its tag, then its content. -/
def encode : PoolConstant → List UInt8
  | text units =>
    1 :: (bytes2 (UInt16.ofNat (modifiedUtf8 units).length) ++ modifiedUtf8 units)
  | word kind bits => kind.tag :: bytes4 bits
  | wide kind high low => kind.tag :: (bytes4 high ++ bytes4 low)
  | ofClass name => 7 :: bytes2 name
  | ref kind index => kind.tag :: bytes2 index
  | pair kind first second => kind.tag :: (bytes2 first ++ bytes2 second)
  | methodHandle kind index => 15 :: kind :: bytes2 index

/-- The slots that a constant takes: a wide number leaves the one after it empty. -/
def slots : PoolConstant → List (Option PoolConstant)
  | wide kind high low => [some (wide kind high low), none]
  | c => [some c]

end PoolConstant

/-- The constants of a class file. -/
structure PoolLayout where
  /-- The constants in order. -/
  constants : List PoolConstant
  /-- The number of slots, the empty one at the front included, fits into two bytes. -/
  fits : (constants.flatMap PoolConstant.slots).length + 1 < 0x10000
  /-- The number of bytes of each text fits into two bytes. -/
  textsFit : ∀ units, .text units ∈ constants → (modifiedUtf8 units).length < 0x10000

namespace PoolLayout

/-- The slots of the pool.  The first one is empty. -/
def slots (pool : PoolLayout) : List (Option PoolConstant) :=
  none :: pool.constants.flatMap PoolConstant.slots

/-- The constant at an index. -/
def at? (pool : PoolLayout) (index : UInt16) : Option PoolConstant :=
  pool.slots[index.toNat]?.join

/-- The bytes of the pool: the number of its slots, then the constants. -/
def encode (pool : PoolLayout) : List UInt8 :=
  bytes2 (UInt16.ofNat pool.slots.length) ++ pool.constants.flatMap PoolConstant.encode

/-- No text constant has a half of a surrogate pair alone. -/
def WellFormedTexts (pool : PoolLayout) : Prop :=
  ∀ units, .text units ∈ pool.constants → ∃ s, units = utf16 s

/-- A reference to a text. -/
structure TextRef (pool : PoolLayout) where
  index : UInt16
  /-- The text that is referred to. -/
  text : String
  found : pool.at? index = some (.text (utf16 text))

/-- A reference to a class. -/
structure ClassRef (pool : PoolLayout) where
  index : UInt16
  /-- The internal name of the class that is referred to. -/
  name : TextRef pool
  found : pool.at? index = some (.ofClass name.index)

end PoolLayout

open PoolLayout

variable {pool : PoolLayout}

/-- The bytes of the index of a reference that may be missing, where 0 stands for nothing. -/
def encodeOptional {α : Type} (index : α → UInt16) (r : Option α) : List UInt8 :=
  bytes2 ((r.map index).getD 0)

/-! ## Attributes -/

/-- An entry for a nested class. -/
structure InnerClassLayout (pool : PoolLayout) where
  inner : ClassRef pool
  outer : Option (ClassRef pool)
  name : Option (TextRef pool)
  flags : UInt16

namespace InnerClassLayout

/-- The bytes of the entry. -/
def encode (i : InnerClassLayout pool) : List UInt8 :=
  bytes2 i.inner.index ++ encodeOptional ClassRef.index i.outer
    ++ encodeOptional TextRef.index i.name ++ bytes2 i.flags

/-- What the entry says. -/
def content (i : InnerClassLayout pool) : InnerClass where
  inner := i.inner.name.text
  outer := i.outer.map fun r => r.name.text
  name := i.name.map TextRef.text
  flags := i.flags

end InnerClassLayout

/-- An attribute of the class or of a member. -/
inductive AttributeLayout (pool : PoolLayout) (onClass : Bool) where
  | signature (name text : TextRef pool) (named : name.text = "Signature")
  | innerClasses (name : TextRef pool) (entries : Table (InnerClassLayout pool))
    (named : name.text = "InnerClasses") (placed : onClass = true)
  /-- An attribute of any other name, of which nothing is known but the number of its bytes. -/
  | other (name : TextRef pool) (bytes : List UInt8) (fits : bytes.length < 0x100000000)
    (named : name.text ≠ "Signature") (placed : onClass = true → name.text ≠ "InnerClasses")

namespace AttributeLayout

variable {onClass : Bool}

/-- The name of the attribute. -/
def name : AttributeLayout pool onClass → TextRef pool
  | signature name _ _ => name
  | innerClasses name _ _ _ => name
  | other name _ _ _ _ => name

/-- The bytes of the content of the attribute. -/
def body : AttributeLayout pool onClass → List UInt8
  | signature _ text _ => bytes2 text.index
  | innerClasses _ entries _ _ => entries.encode InnerClassLayout.encode
  | other _ bytes _ _ _ => bytes

/-- The bytes of the attribute: the name, the number of bytes of the content, and the content. -/
def encode (a : AttributeLayout pool onClass) : List UInt8 :=
  bytes2 a.name.index ++ bytes4 (UInt32.ofNat a.body.length) ++ a.body

/-- The signature that the attribute gives. -/
def signature? : AttributeLayout pool onClass → Option String
  | signature _ text _ => some text.text
  | _ => none

/-- The nested classes that the attribute mentions. -/
def entries : AttributeLayout pool onClass → List InnerClass
  | innerClasses _ entries _ _ => entries.entries.map InnerClassLayout.content
  | _ => []

/-- The last signature among the attributes. -/
def lastSignature? (attributes : List (AttributeLayout pool onClass)) : Option String :=
  attributes.reverse.findSome? signature?

end AttributeLayout

/-! ## Members and classes -/

/-- A field or method. -/
structure MemberLayout (pool : PoolLayout) where
  flags : UInt16
  name : TextRef pool
  descriptor : TextRef pool
  attributes : Table (AttributeLayout pool false)

namespace MemberLayout

/-- The bytes of the member. -/
def encode (m : MemberLayout pool) : List UInt8 :=
  bytes2 m.flags ++ bytes2 m.name.index ++ bytes2 m.descriptor.index
    ++ m.attributes.encode AttributeLayout.encode

/-- What the member says. -/
def content (m : MemberLayout pool) : Member where
  flags := m.flags
  name := m.name.text
  descriptor := m.descriptor.text
  signature := AttributeLayout.lastSignature? m.attributes.entries

end MemberLayout

/-- A class file. -/
structure ClassLayout where
  minor : UInt16
  major : UInt16
  pool : PoolLayout
  flags : UInt16
  name : ClassRef pool
  superclass : Option (ClassRef pool)
  interfaces : Table (ClassRef pool)
  fields : Table (MemberLayout pool)
  methods : Table (MemberLayout pool)
  attributes : Table (AttributeLayout pool true)

namespace ClassLayout

/-- The bytes between the magic number and the constant pool. -/
def encodeVersion (f : ClassLayout) : List UInt8 := bytes2 f.minor ++ bytes2 f.major

/-- The bytes after the constant pool. -/
def encodeClass (f : ClassLayout) : List UInt8 :=
  bytes2 f.flags ++ bytes2 f.name.index ++ encodeOptional ClassRef.index f.superclass
    ++ f.interfaces.encode (fun r => bytes2 r.index) ++ f.fields.encode MemberLayout.encode
    ++ f.methods.encode MemberLayout.encode ++ f.attributes.encode AttributeLayout.encode

/-- The bytes of the class file. -/
def encode (f : ClassLayout) : List UInt8 :=
  bytes4 magic ++ (f.encodeVersion ++ f.pool.encode ++ f.encodeClass)

/-- What the class file says of the class. -/
def content (f : ClassLayout) : ClassFile where
  minor := f.minor
  major := f.major
  flags := f.flags
  name := f.name.name.text
  superclass := f.superclass.map fun r => r.name.text
  interfaces := f.interfaces.entries.map fun r => r.name.text
  fields := f.fields.entries.map MemberLayout.content
  methods := f.methods.entries.map MemberLayout.content
  signature := AttributeLayout.lastSignature? f.attributes.entries
  innerClasses := f.attributes.entries.flatMap AttributeLayout.entries

end ClassLayout

end JavaSema.ClassFile
