import JavaSema.ClassDef.Outline

/-!
# Outlines of library classes

The words in which the standard library is written down.
-/

namespace JavaSema.Library

/-- An instance method with a body. -/
def visible (name signature : String) : MethodOutline :=
  { name, flags := Access.isPublic, signature }

/-- A static method. -/
def classLevel (name signature : String) : MethodOutline :=
  { name, flags := Access.isPublic ||| Access.isStatic, signature }

/-- A method without a body. -/
def unimplemented (name signature : String) : MethodOutline :=
  { name, flags := Access.isPublic ||| Access.isAbstract, signature }

/-- An instance method with any number of arguments. -/
def variadic (name signature : String) : MethodOutline :=
  { name, flags := Access.isPublic ||| Access.isVarargs, signature }

/-- A static method with any number of arguments. -/
def classLevelVariadic (name signature : String) : MethodOutline :=
  { name, flags := Access.isPublic ||| Access.isStatic ||| Access.isVarargs, signature }

/-- A constructor. -/
def constructor (signature : String) : MethodOutline :=
  { name := constructorName, flags := Access.isPublic, signature }

/-- A static field. -/
def constant (name descriptor : String) : FieldOutline :=
  { name, flags := Access.isPublic ||| Access.isStatic, descriptor }

/-- The wrapper class of a numeric primitive type.  `letter` denotes the primitive type, `unwrap` is
the method that gives its value and `parse` the one that reads it from a text. -/
def wrapper (name internal letter unwrap parse : String) : ClassOutline :=
  { name
    signature := some ("Ljava/lang/Number;Ljava/lang/Comparable<L" ++ internal ++ ";>;")
    fields := [constant "MAX_VALUE" letter, constant "MIN_VALUE" letter]
    constructors := [constructor ("(" ++ letter ++ ")V")]
    methods :=
      [classLevel "valueOf" ("(" ++ letter ++ ")L" ++ internal ++ ";"),
       classLevel "valueOf" ("(Ljava/lang/String;)L" ++ internal ++ ";"),
       classLevel parse ("(Ljava/lang/String;)" ++ letter),
       visible "compareTo" ("(L" ++ internal ++ ";)I"),
       classLevel "toString" ("(" ++ letter ++ ")Ljava/lang/String;"),
       visible unwrap ("()" ++ letter)]
      ++ ([("intValue", "I"), ("longValue", "J"), ("doubleValue", "D")].filter
          fun (other, _) => other != unwrap).map
            fun (other, result) => visible other ("()" ++ result) }

/-- A class of exceptions, which can be made with or without a message. -/
def throwable (name parent : String) : ClassOutline :=
  { name
    signature := some ("L" ++ parent ++ ";")
    constructors := [constructor "()V", constructor "(Ljava/lang/String;)V"] }

end JavaSema.Library
