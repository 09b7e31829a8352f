import JavaSema.Library.Outline

/-!
# Functions and streams

The classes of `java.util.function` and `java.util.stream` that are built in.
-/

namespace JavaSema.Library

/-- The classes of `java.util.function` and `java.util.stream`. -/
def functionClasses : List ClassOutline :=
  [{ name := "java.util.function.Function"
     kind := .interface
     signature := some "<T:Ljava/lang/Object;R:Ljava/lang/Object;>Ljava/lang/Object;"
     methods := [
       unimplemented "apply" "(TT;)TR;",
       visible "andThen" "<V:Ljava/lang/Object;>(Ljava/util/function/Function<-TR;+TV;>;)Ljava/util/function/Function<TT;TV;>;",
       classLevel "identity" "<T:Ljava/lang/Object;>()Ljava/util/function/Function<TT;TT;>;"] },
   { name := "java.util.function.BiFunction"
     kind := .interface
     signature := some "<T:Ljava/lang/Object;U:Ljava/lang/Object;R:Ljava/lang/Object;>Ljava/lang/Object;"
     methods := [unimplemented "apply" "(TT;TU;)TR;"] },
   { name := "java.util.function.Supplier"
     kind := .interface
     signature := some "<T:Ljava/lang/Object;>Ljava/lang/Object;"
     methods := [unimplemented "get" "()TT;"] },
   { name := "java.util.function.Consumer"
     kind := .interface
     signature := some "<T:Ljava/lang/Object;>Ljava/lang/Object;"
     methods := [unimplemented "accept" "(TT;)V"] },
   { name := "java.util.function.BiConsumer"
     kind := .interface
     signature := some "<T:Ljava/lang/Object;U:Ljava/lang/Object;>Ljava/lang/Object;"
     methods := [unimplemented "accept" "(TT;TU;)V"] },
   { name := "java.util.function.Predicate"
     kind := .interface
     signature := some "<T:Ljava/lang/Object;>Ljava/lang/Object;"
     methods := [
       unimplemented "test" "(TT;)Z",
       visible "negate" "()Ljava/util/function/Predicate<TT;>;"] },
   { name := "java.util.function.UnaryOperator"
     kind := .interface
     signature := some "<T:Ljava/lang/Object;>Ljava/lang/Object;Ljava/util/function/Function<TT;TT;>;"
     methods := [
       classLevel "identity" "<T:Ljava/lang/Object;>()Ljava/util/function/UnaryOperator<TT;>;"] },
   { name := "java.util.function.BinaryOperator"
     kind := .interface
     signature := some "<T:Ljava/lang/Object;>Ljava/lang/Object;Ljava/util/function/BiFunction<TT;TT;TT;>;" },
   { name := "java.util.stream.Stream"
     kind := .interface
     signature := some "<T:Ljava/lang/Object;>Ljava/lang/Object;"
     methods := [
       unimplemented "map" "<R:Ljava/lang/Object;>(Ljava/util/function/Function<-TT;+TR;>;)Ljava/util/stream/Stream<TR;>;",
       unimplemented "filter" "(Ljava/util/function/Predicate<-TT;>;)Ljava/util/stream/Stream<TT;>;",
       unimplemented "forEach" "(Ljava/util/function/Consumer<-TT;>;)V",
       unimplemented "count" "()J",
       unimplemented "reduce" "(TT;Ljava/util/function/BinaryOperator<TT;>;)TT;",
       visible "toList" "()Ljava/util/List<TT;>;",
       unimplemented "sorted" "(Ljava/util/Comparator<-TT;>;)Ljava/util/stream/Stream<TT;>;",
       classLevelVariadic "of" "<T:Ljava/lang/Object;>([TT;)Ljava/util/stream/Stream<TT;>;"] }]

end JavaSema.Library
