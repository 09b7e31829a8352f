import JavaSema.Library.Outline

/-!
# The utility packages

The classes of `java.util` and `java.util.concurrent` that are built in.
-/

namespace JavaSema.Library

/-- The classes of `java.util` and `java.util.concurrent`. -/
def utilClasses : List ClassOutline :=
  [{ name := "java.util.Iterator"
     kind := .interface
     signature := some "<E:Ljava/lang/Object;>Ljava/lang/Object;"
     methods := [unimplemented "hasNext" "()Z", unimplemented "next" "()TE;"] },
   { name := "java.util.Collection"
     kind := .interface
     signature := some "<E:Ljava/lang/Object;>Ljava/lang/Object;Ljava/lang/Iterable<TE;>;"
     methods := [
       unimplemented "size" "()I",
       unimplemented "isEmpty" "()Z",
       unimplemented "contains" "(Ljava/lang/Object;)Z",
       unimplemented "add" "(TE;)Z",
       unimplemented "remove" "(Ljava/lang/Object;)Z",
       unimplemented "addAll" "(Ljava/util/Collection<+TE;>;)Z",
       unimplemented "clear" "()V",
       unimplemented "toArray" "()[Ljava/lang/Object;",
       visible "stream" "()Ljava/util/stream/Stream<TE;>;"] },
   { name := "java.util.List"
     kind := .interface
     signature := some "<E:Ljava/lang/Object;>Ljava/lang/Object;Ljava/util/Collection<TE;>;"
     methods := [
       unimplemented "get" "(I)TE;",
       unimplemented "set" "(ITE;)TE;",
       unimplemented "add" "(ITE;)V",
       unimplemented "remove" "(I)TE;",
       unimplemented "indexOf" "(Ljava/lang/Object;)I",
       unimplemented "subList" "(II)Ljava/util/List<TE;>;",
       visible "sort" "(Ljava/util/Comparator<-TE;>;)V",
       classLevelVariadic "of" "<E:Ljava/lang/Object;>([TE;)Ljava/util/List<TE;>;"] },
   { name := "java.util.Set"
     kind := .interface
     signature := some "<E:Ljava/lang/Object;>Ljava/lang/Object;Ljava/util/Collection<TE;>;"
     methods := [classLevelVariadic "of" "<E:Ljava/lang/Object;>([TE;)Ljava/util/Set<TE;>;"] },
   { name := "java.util.ArrayList"
     signature := some "<E:Ljava/lang/Object;>Ljava/lang/Object;Ljava/util/List<TE;>;Ljava/lang/Cloneable;Ljava/io/Serializable;"
     constructors := [
       constructor "()V",
       constructor "(I)V",
       constructor "(Ljava/util/Collection<+TE;>;)V"]
     methods := [
       visible "size" "()I",
       visible "isEmpty" "()Z",
       visible "get" "(I)TE;",
       visible "add" "(TE;)Z",
       visible "iterator" "()Ljava/util/Iterator<TE;>;"] },
   { name := "java.util.HashSet"
     signature := some "<E:Ljava/lang/Object;>Ljava/lang/Object;Ljava/util/Set<TE;>;Ljava/lang/Cloneable;Ljava/io/Serializable;"
     constructors := [constructor "()V", constructor "(Ljava/util/Collection<+TE;>;)V"]
     methods := [
       visible "size" "()I",
       visible "add" "(TE;)Z",
       visible "iterator" "()Ljava/util/Iterator<TE;>;"] },
   { name := "java.util.Map"
     kind := .interface
     signature := some "<K:Ljava/lang/Object;V:Ljava/lang/Object;>Ljava/lang/Object;"
     memberClasses := ["java.util.Map$Entry"]
     methods := [
       unimplemented "size" "()I",
       unimplemented "isEmpty" "()Z",
       unimplemented "get" "(Ljava/lang/Object;)TV;",
       unimplemented "put" "(TK;TV;)TV;",
       unimplemented "containsKey" "(Ljava/lang/Object;)Z",
       unimplemented "remove" "(Ljava/lang/Object;)TV;",
       unimplemented "keySet" "()Ljava/util/Set<TK;>;",
       unimplemented "values" "()Ljava/util/Collection<TV;>;",
       unimplemented "entrySet" "()Ljava/util/Set<Ljava/util/Map$Entry<TK;TV;>;>;",
       visible "getOrDefault" "(Ljava/lang/Object;TV;)TV;",
       visible "computeIfAbsent" "(TK;Ljava/util/function/Function<-TK;+TV;>;)TV;",
       visible "forEach" "(Ljava/util/function/BiConsumer<-TK;-TV;>;)V"] },
   { name := "java.util.Map$Entry"
     kind := .interface
     signature := some "<K:Ljava/lang/Object;V:Ljava/lang/Object;>Ljava/lang/Object;"
     nesting := .member true
     enclosing := some "java.util.Map"
     methods := [
       unimplemented "getKey" "()TK;",
       unimplemented "getValue" "()TV;",
       unimplemented "setValue" "(TV;)TV;"] },
   { name := "java.util.HashMap"
     signature := some "<K:Ljava/lang/Object;V:Ljava/lang/Object;>Ljava/lang/Object;Ljava/util/Map<TK;TV;>;Ljava/lang/Cloneable;Ljava/io/Serializable;"
     constructors := [
       constructor "()V",
       constructor "(I)V",
       constructor "(Ljava/util/Map<+TK;+TV;>;)V"]
     methods := [
       visible "get" "(Ljava/lang/Object;)TV;",
       visible "put" "(TK;TV;)TV;",
       visible "size" "()I"] },
   { name := "java.util.Comparator"
     kind := .interface
     signature := some "<T:Ljava/lang/Object;>Ljava/lang/Object;"
     methods := [
       unimplemented "compare" "(TT;TT;)I",
       unimplemented "equals" "(Ljava/lang/Object;)Z",
       visible "reversed" "()Ljava/util/Comparator<TT;>;",
       classLevel "comparing" "<T:Ljava/lang/Object;U::Ljava/lang/Comparable<-TU;>;>(Ljava/util/function/Function<-TT;+TU;>;)Ljava/util/Comparator<TT;>;",
       classLevel "naturalOrder" "<T::Ljava/lang/Comparable<-TT;>;>()Ljava/util/Comparator<TT;>;"] },
   { name := "java.util.Optional"
     signature := some "<T:Ljava/lang/Object;>Ljava/lang/Object;"
     methods := [
       classLevel "of" "<T:Ljava/lang/Object;>(TT;)Ljava/util/Optional<TT;>;",
       classLevel "ofNullable" "<T:Ljava/lang/Object;>(TT;)Ljava/util/Optional<TT;>;",
       classLevel "empty" "<T:Ljava/lang/Object;>()Ljava/util/Optional<TT;>;",
       visible "get" "()TT;",
       visible "isPresent" "()Z",
       visible "orElse" "(TT;)TT;",
       visible "map" "<U:Ljava/lang/Object;>(Ljava/util/function/Function<-TT;+TU;>;)Ljava/util/Optional<TU;>;",
       visible "ifPresent" "(Ljava/util/function/Consumer<-TT;>;)V"] },
   { name := "java.util.Arrays"
     methods := [
       classLevelVariadic "asList" "<T:Ljava/lang/Object;>([TT;)Ljava/util/List<TT;>;",
       classLevel "sort" "([I)V",
       classLevel "sort" "([Ljava/lang/Object;)V",
       classLevel "toString" "([I)Ljava/lang/String;",
       classLevel "toString" "([Ljava/lang/Object;)Ljava/lang/String;",
       classLevel "stream" "<T:Ljava/lang/Object;>([TT;)Ljava/util/stream/Stream<TT;>;"] },
   { name := "java.util.Objects"
     methods := [
       classLevel "equals" "(Ljava/lang/Object;Ljava/lang/Object;)Z",
       classLevelVariadic "hash" "([Ljava/lang/Object;)I",
       classLevel "isNull" "(Ljava/lang/Object;)Z",
       classLevel "requireNonNull" "<T:Ljava/lang/Object;>(TT;)TT;",
       classLevel "toString" "(Ljava/lang/Object;)Ljava/lang/String;"] },
   { name := "java.util.Collections"
     methods := [
       classLevel "emptyList" "<T:Ljava/lang/Object;>()Ljava/util/List<TT;>;",
       classLevel "singletonList" "<T:Ljava/lang/Object;>(TT;)Ljava/util/List<TT;>;",
       classLevel "sort" "<T::Ljava/lang/Comparable<-TT;>;>(Ljava/util/List<TT;>;)V",
       classLevel "unmodifiableList" "<T:Ljava/lang/Object;>(Ljava/util/List<+TT;>;)Ljava/util/List<TT;>;"] },
   { name := "java.util.concurrent.Callable"
     kind := .interface
     signature := some "<V:Ljava/lang/Object;>Ljava/lang/Object;"
     methods := [unimplemented "call" "()TV;"] }]

end JavaSema.Library
