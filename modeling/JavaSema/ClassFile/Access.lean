/-!
# Access flags

The bits of the access flags of classes, fields and methods that the analysis looks at.
-/

namespace JavaSema.Access

/-- Declared public. -/
def isPublic : UInt16 := 0x0001
/-- Declared static. -/
def isStatic : UInt16 := 0x0008
/-- A bridge method made by the compiler. -/
def isBridge : UInt16 := 0x0040
/-- A method with a variable number of arguments. -/
def isVarargs : UInt16 := 0x0080
/-- An interface. -/
def isInterface : UInt16 := 0x0200
/-- Declared abstract. -/
def isAbstract : UInt16 := 0x0400
/-- Made by the compiler. -/
def isSynthetic : UInt16 := 0x1000
/-- An annotation interface. -/
def isAnnotationType : UInt16 := 0x2000
/-- An enumeration. -/
def isEnum : UInt16 := 0x4000

/-- Whether the bit is set in the flags. -/
def has (flags bit : UInt16) : Bool := flags &&& bit != 0

end JavaSema.Access
