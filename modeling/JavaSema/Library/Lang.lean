import JavaSema.Library.Outline

/-!
# The language and input packages

The classes of `java.lang` and `java.io` that are built in.
-/

namespace JavaSema.Library

/-- The classes of `java.lang` and `java.io`. -/
def langClasses : List ClassOutline :=
  [{ name := "java.lang.Object"
     isRoot := true
     constructors := [constructor "()V"]
     methods := [
       visible "equals" "(Ljava/lang/Object;)Z",
       visible "hashCode" "()I",
       visible "toString" "()Ljava/lang/String;",
       visible "getClass" "()Ljava/lang/Class<*>;"] },
   { name := "java.io.Serializable"
     kind := .interface },
   { name := "java.lang.Cloneable"
     kind := .interface },
   { name := "java.lang.AutoCloseable"
     kind := .interface
     methods := [unimplemented "close" "()V"] },
   { name := "java.lang.Comparable"
     kind := .interface
     signature := some "<T:Ljava/lang/Object;>Ljava/lang/Object;"
     methods := [unimplemented "compareTo" "(TT;)I"] },
   { name := "java.lang.CharSequence"
     kind := .interface
     methods := [
       unimplemented "length" "()I",
       unimplemented "charAt" "(I)C",
       unimplemented "toString" "()Ljava/lang/String;"] },
   { name := "java.lang.String"
     signature := some "Ljava/lang/Object;Ljava/io/Serializable;Ljava/lang/Comparable<Ljava/lang/String;>;Ljava/lang/CharSequence;"
     constructors := [constructor "()V", constructor "(Ljava/lang/String;)V", constructor "([C)V"]
     methods := [
       visible "length" "()I",
       visible "isEmpty" "()Z",
       visible "charAt" "(I)C",
       visible "substring" "(I)Ljava/lang/String;",
       visible "substring" "(II)Ljava/lang/String;",
       visible "indexOf" "(I)I",
       visible "indexOf" "(Ljava/lang/String;)I",
       visible "contains" "(Ljava/lang/CharSequence;)Z",
       visible "concat" "(Ljava/lang/String;)Ljava/lang/String;",
       visible "trim" "()Ljava/lang/String;",
       visible "toUpperCase" "()Ljava/lang/String;",
       visible "toLowerCase" "()Ljava/lang/String;",
       visible "equals" "(Ljava/lang/Object;)Z",
       visible "compareTo" "(Ljava/lang/String;)I",
       visible "toCharArray" "()[C",
       classLevel "valueOf" "(Ljava/lang/Object;)Ljava/lang/String;",
       classLevel "valueOf" "(I)Ljava/lang/String;",
       classLevel "valueOf" "(J)Ljava/lang/String;",
       classLevel "valueOf" "(C)Ljava/lang/String;",
       classLevel "valueOf" "(Z)Ljava/lang/String;",
       classLevel "valueOf" "(D)Ljava/lang/String;",
       classLevelVariadic "format" "(Ljava/lang/String;[Ljava/lang/Object;)Ljava/lang/String;",
       classLevelVariadic "join" "(Ljava/lang/CharSequence;[Ljava/lang/CharSequence;)Ljava/lang/String;"] },
   { name := "java.lang.Number"
     signature := some "Ljava/lang/Object;Ljava/io/Serializable;"
     isAbstract := some true
     constructors := [constructor "()V"]
     methods := [
       unimplemented "intValue" "()I",
       unimplemented "longValue" "()J",
       unimplemented "doubleValue" "()D"] },
   wrapper "java.lang.Byte" "java/lang/Byte" "B" "byteValue" "parseByte",
   wrapper "java.lang.Short" "java/lang/Short" "S" "shortValue" "parseShort",
   wrapper "java.lang.Integer" "java/lang/Integer" "I" "intValue" "parseInt",
   wrapper "java.lang.Long" "java/lang/Long" "J" "longValue" "parseLong",
   wrapper "java.lang.Float" "java/lang/Float" "F" "floatValue" "parseFloat",
   wrapper "java.lang.Double" "java/lang/Double" "D" "doubleValue" "parseDouble",
   { name := "java.lang.Character"
     signature := some "Ljava/lang/Object;Ljava/io/Serializable;Ljava/lang/Comparable<Ljava/lang/Character;>;"
     constructors := [constructor "(C)V"]
     methods := [
       classLevel "valueOf" "(C)Ljava/lang/Character;",
       visible "charValue" "()C",
       classLevel "isDigit" "(C)Z",
       classLevel "isLetter" "(C)Z"] },
   { name := "java.lang.Boolean"
     signature := some "Ljava/lang/Object;Ljava/io/Serializable;Ljava/lang/Comparable<Ljava/lang/Boolean;>;"
     fields := [constant "TRUE" "Ljava/lang/Boolean;", constant "FALSE" "Ljava/lang/Boolean;"]
     constructors := [constructor "(Z)V"]
     methods := [
       classLevel "valueOf" "(Z)Ljava/lang/Boolean;",
       classLevel "parseBoolean" "(Ljava/lang/String;)Z",
       visible "booleanValue" "()Z"] },
   { name := "java.lang.Class"
     signature := some "<T:Ljava/lang/Object;>Ljava/lang/Object;Ljava/io/Serializable;"
     methods := [
       visible "getName" "()Ljava/lang/String;",
       visible "getSimpleName" "()Ljava/lang/String;",
       visible "isInstance" "(Ljava/lang/Object;)Z",
       visible "cast" "(Ljava/lang/Object;)TT;"] },
   { name := "java.lang.Enum"
     signature := some "<E:Ljava/lang/Enum<TE;>;>Ljava/lang/Object;Ljava/lang/Comparable<TE;>;Ljava/io/Serializable;"
     isAbstract := some true
     methods := [
       visible "name" "()Ljava/lang/String;",
       visible "ordinal" "()I",
       visible "compareTo" "(TE;)I"] },
   { name := "java.lang.Runnable"
     kind := .interface
     methods := [unimplemented "run" "()V"] },
   { name := "java.lang.Iterable"
     kind := .interface
     signature := some "<T:Ljava/lang/Object;>Ljava/lang/Object;"
     methods := [
       unimplemented "iterator" "()Ljava/util/Iterator<TT;>;",
       visible "forEach" "(Ljava/util/function/Consumer<-TT;>;)V"] },
   { name := "java.lang.Math"
     fields := [constant "PI" "D", constant "E" "D"]
     methods := [
       classLevel "max" "(II)I",
       classLevel "max" "(JJ)J",
       classLevel "max" "(FF)F",
       classLevel "max" "(DD)D",
       classLevel "min" "(II)I",
       classLevel "min" "(JJ)J",
       classLevel "min" "(FF)F",
       classLevel "min" "(DD)D",
       classLevel "abs" "(I)I",
       classLevel "abs" "(J)J",
       classLevel "abs" "(D)D",
       classLevel "sqrt" "(D)D",
       classLevel "pow" "(DD)D",
       classLevel "round" "(D)J"] },
   { name := "java.lang.System"
     fields := [constant "out" "Ljava/io/PrintStream;", constant "err" "Ljava/io/PrintStream;"]
     methods := [
       classLevel "currentTimeMillis" "()J",
       classLevel "nanoTime" "()J",
       classLevel "arraycopy" "(Ljava/lang/Object;ILjava/lang/Object;II)V",
       classLevel "getProperty" "(Ljava/lang/String;)Ljava/lang/String;"] },
   { name := "java.io.PrintStream"
     methods := [
       visible "println" "()V",
       visible "println" "(Z)V",
       visible "println" "(C)V",
       visible "println" "(I)V",
       visible "println" "(J)V",
       visible "println" "(F)V",
       visible "println" "(D)V",
       visible "println" "([C)V",
       visible "println" "(Ljava/lang/String;)V",
       visible "println" "(Ljava/lang/Object;)V",
       visible "print" "(Ljava/lang/String;)V",
       visible "print" "(Ljava/lang/Object;)V",
       variadic "printf" "(Ljava/lang/String;[Ljava/lang/Object;)Ljava/io/PrintStream;"] },
   { name := "java.lang.StringBuilder"
     signature := some "Ljava/lang/Object;Ljava/io/Serializable;Ljava/lang/CharSequence;"
     constructors := [constructor "()V", constructor "(I)V", constructor "(Ljava/lang/String;)V"]
     methods := [
       visible "append" "(Ljava/lang/String;)Ljava/lang/StringBuilder;",
       visible "append" "(Ljava/lang/Object;)Ljava/lang/StringBuilder;",
       visible "append" "(I)Ljava/lang/StringBuilder;",
       visible "append" "(J)Ljava/lang/StringBuilder;",
       visible "append" "(C)Ljava/lang/StringBuilder;",
       visible "append" "(Z)Ljava/lang/StringBuilder;",
       visible "append" "(D)Ljava/lang/StringBuilder;",
       visible "length" "()I",
       visible "charAt" "(I)C",
       visible "reverse" "()Ljava/lang/StringBuilder;",
       visible "toString" "()Ljava/lang/String;"] },
   { name := "java.lang.Throwable"
     signature := some "Ljava/lang/Object;Ljava/io/Serializable;"
     constructors := [constructor "()V", constructor "(Ljava/lang/String;)V"]
     methods := [visible "getMessage" "()Ljava/lang/String;", visible "printStackTrace" "()V"] },
   throwable "java.lang.Exception" "java/lang/Throwable",
   throwable "java.lang.RuntimeException" "java/lang/Exception",
   throwable "java.lang.IllegalArgumentException" "java/lang/RuntimeException",
   throwable "java.lang.IllegalStateException" "java/lang/RuntimeException",
   throwable "java.lang.NullPointerException" "java/lang/RuntimeException"]

end JavaSema.Library
