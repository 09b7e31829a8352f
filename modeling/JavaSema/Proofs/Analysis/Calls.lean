import JavaSema.Proofs.Analysis.TourUnit

/-!
# The number of calls of a unit

The number of calls in the summary of an analysis is what the tree says: each call is counted once,
however many candidates are tried for the calls around it.

There are three groups.

* What counts as a call, by kind of node.
* The number of calls after an analysis that succeeds.
* Units in which a lambda is checked against two candidates.

## Implementation notes

What stands before the colons of a method reference is typed once, however often the reference is
checked.  Where a candidate is given up, its calls are given up too, so that those before the colons
are lost.  The number of calls is right only where there are none in the lambdas among the arguments.
-/

namespace JavaSema.Analysis

open Source

/-! ## What counts as a call -/

/-- Whether the node is the call of a method, other than that of `clone` on an array. -/
def isMethodCall (T : Typings) : Node → Bool
  | .expr ⟨_, .call receiver _ name args⟩ =>
    !(receiver.any (fun r => isArrayAt T r.id) && name == "clone" && args.isEmpty)
  | _ => false

/-- Whether the node is the creation of an object. -/
def isCreation : Node → Bool
  | .expr ⟨_, .create _ _ _ _⟩ => true
  | _ => false

/-- Whether the node is a method reference, other than one to the creation of an array. -/
def isReference (T : Typings) : Node → Bool
  | .expr ⟨_, .methodRef target _ name⟩ =>
    !(name == MethodRef.constructorRef && (targetId? target).any (isArrayAt T))
  | _ => false

/-- The constants of the enumeration that the node is. -/
def constantsAt : Node → List EnumConstant
  | .decl d => d.constants
  | _ => []

/-- The number of calls in a unit whose nodes have these types: calls of methods, creations of
objects, constants of enumerations and method references. -/
def callCount (T : Typings) (u : SourceUnit) : Nat :=
  u.nodes.countP (isMethodCall T) + u.nodes.countP isCreation
    + (u.nodes.flatMap constantsAt).length + u.nodes.countP (isReference T)

theorem callsAt_split (T : Typings) (n : Node) :
    callsAt T n = (if isMethodCall T n then 1 else 0) + (if isCreation n then 1 else 0)
      + (constantsAt n).length + (if isReference T n then 1 else 0) := by
  have hnot : ∀ b : Bool, (if b then 0 else 1) = if !b then 1 else 0 := by decide
  cases n with
  | type | stmt => rfl
  | decl d => exact (Nat.zero_add _).symm
  | expr e =>
    obtain ⟨id, shape⟩ := e
    cases shape with
    | call => exact hnot _
    | methodRef => exact (hnot _).trans (Nat.zero_add _).symm
    | _ => rfl

/-- Each node stands for the calls of its kind. -/
theorem sum_callsAt (T : Typings) (nodes : List Node) :
    (nodes.map (callsAt T)).sum = nodes.countP (isMethodCall T) + nodes.countP isCreation
      + (nodes.flatMap constantsAt).length + nodes.countP (isReference T) := by
  induction nodes with
  | nil => rfl
  | cons n nodes ih =>
    rw [List.map_cons, List.sum_cons, ih, callsAt_split, List.countP_cons, List.countP_cons,
      List.countP_cons, List.flatMap_cons, List.length_append]
    omega

/-! ## The number of calls -/

/-- Where an analysis succeeds, it counts each call of the unit once, also those in lambdas that were
checked against candidates that did not take them.  In the lambdas among arguments there may be no
calls before the colons of method references.  No number may be used for two nodes of the unit, which
may have been analyzed before. -/
theorem analyzed_calls (setting : Setting) (u : SourceUnit) (hids : (u.nodes.map Node.id).Nodup)
    (hargs : ∀ n ∈ u.nodes, LambdaArgs RefsSilent n) (before : Typings)
    (hbefore : KnownFree hasCalls u before) (summary : Summary)
    (hok : (analyzeFrom setting u before).1 = .ok summary) :
    summary.calls = callCount (analyzeFrom setting u before).2.typings u := by
  obtain ⟨hsummary, hcalls, -⟩ := run_analyzed hids hok
  rw [hsummary]
  exact (hcalls hargs hbefore).trans (sum_callsAt _ u.nodes)

/-! ## A lambda and two candidates -/

/-- An interface with one method. -/
def supplier (name : String) (result : JType) : ClassDef :=
  { ClassDef.empty name .interface with
    methods := [{ name := "get", params := [], returnType := result, isAbstract := true }] }

/-- A setting with the root class, the class of texts, and two functional interfaces: the method of
`I` gives an `int`, that of `S` an object. -/
def twoSuppliers : Setting :=
  { classes := ClassTable.toEnv
      ⟨[{ ClassDef.empty "java.lang.Object" .ordinary with
          constructors := [{ name := constructorName, params := [], returnType := .void }]
          methods :=
            [{ name := "toString", params := [], returnType := .ofClass "java.lang.String" }] },
        ClassDef.empty "java.lang.String" .ordinary,
        supplier "I" (.primitive .int),
        supplier "S" .object]⟩ }

/-- A class that is named by its simple name. -/
def simpleType (id : NodeId) (name : String) : TypeRef := ⟨id, .named ⟨[name]⟩ none⟩

/-- A static method without type parameters. -/
def staticMethod (returnType : TypeRef) (name : String) (params : List Param) (body : Stmt) :
    Member :=
  .method
    { modifiers := { isStatic := true }, typeParams := [], returnType := some returnType, name
      params, body := some body }

/-- A unit whose class `A` calls `run` with a lambda that has the given body, before other statements.
There are two methods `run`: one takes an `I`, the other one takes an `S`. -/
def callsRun (body : Expr) (rest : List Stmt := []) : SourceUnit :=
  let run (id : NodeId) (param : String) : Member :=
    staticMethod ⟨id, .void⟩ "run" [⟨"f", simpleType (id + 1) param, false⟩] ⟨id + 2, .block []⟩
  let make : Member :=
    staticMethod (simpleType 7 "Object") "make" []
      ⟨8, .block [⟨9, .ret (some ⟨10, .literal .null "null"⟩)⟩]⟩
  let call : Expr := ⟨12, .call none [] "run" [⟨11, .lambda [] (.expr body)⟩]⟩
  { types :=
      [{ id := 0, name := "A", kind := .ordinary, modifiers := {}, typeParams := []
         parent := none, interfaces := [], constants := []
         members :=
          [run 1 "I", run 4 "S", make, .initializer true ⟨14, .block (⟨13, .expr call⟩ :: rest)⟩]
         span := default }] }

/-- The expression `make()`. -/
def callsMake : Expr := ⟨20, .call none [] "make" []⟩

/-- The expression `(S) make()::toString`. -/
def refersToText : Expr :=
  ⟨23, .cast (simpleType 22 "S") ⟨21, .methodRef (.expr callsMake) [] "toString"⟩⟩

/-- Where no method reference has an expression before the colons, none in a lambda has. -/
theorem lambdaArgs_refsSilent {u : SourceUnit} (h : ∀ n ∈ u.nodes, (receiver? n).isNone = true) :
    ∀ n ∈ u.nodes, LambdaArgs RefsSilent n := by
  intro n hn a ha _ m hm r hr
  obtain ⟨d, hd, hn⟩ := SourceUnit.mem_nodes_iff.mp hn
  have ha := Node.child_mem_subtree hn (argument_mem_children ha)
  have hnone := h m (SourceUnit.mem_nodes_iff.mpr ⟨d, hd, Node.subtree_trans ha hm⟩)
  rw [hr] at hnone
  cases hnone

/-- The call of `make` in a lambda that is checked against two candidates is counted once. -/
theorem callsMake_calls :
    ((callsRun callsMake).nodes.map Node.id).Nodup ∧
      (∀ n ∈ (callsRun callsMake).nodes, LambdaArgs RefsSilent n) ∧
      KnownFree hasCalls (callsRun callsMake) [] ∧
      ∃ summary, (analyze twoSuppliers (callsRun callsMake)).1 = .ok summary ∧
        summary.calls = 2 ∧
        summary.calls
          = callCount (analyze twoSuppliers (callsRun callsMake)).2.typings (callsRun callsMake) := by
  have hids : ((callsRun callsMake).nodes.map Node.id).Nodup := by decide +kernel
  have hargs : ∀ n ∈ (callsRun callsMake).nodes, LambdaArgs RefsSilent n :=
    lambdaArgs_refsSilent (List.all_eq_true.mp (by decide +kernel))
  have hcalls : (analyze twoSuppliers (callsRun callsMake)).1.toOption.map Summary.calls = some 2 := by
    decide +kernel
  have hknown := knownFree_nil hasCalls (callsRun callsMake)
  refine ⟨hids, hargs, hknown, ?_⟩
  rcases hrun : (analyze twoSuppliers (callsRun callsMake)).1 with e | summary
  · rw [hrun] at hcalls
    cases hcalls
  · rw [hrun] at hcalls
    refine ⟨summary, rfl, Option.some.inj hcalls, ?_⟩
    exact analyzed_calls twoSuppliers (callsRun callsMake) hids hargs [] hknown summary hrun

/-- The call of `make` before the colons of a method reference is counted against the candidate that
is given up, and then no more. -/
theorem refersToText_calls :
    ¬ ∀ (setting : Setting) (u : SourceUnit), (u.nodes.map Node.id).Nodup → ∀ summary : Summary,
      (analyze setting u).1 = .ok summary →
        summary.calls = callCount (analyze setting u).2.typings u := by
  intro hcount
  have hids : ((callsRun refersToText).nodes.map Node.id).Nodup := by decide +kernel
  have hcalls : (analyze twoSuppliers (callsRun refersToText)).1.toOption.map Summary.calls
      = some 2 := by decide +kernel
  have hthree : callCount (analyze twoSuppliers (callsRun refersToText)).2.typings
      (callsRun refersToText) = 3 := by decide +kernel
  rcases hrun : (analyze twoSuppliers (callsRun refersToText)).1 with e | summary
  · rw [hrun] at hcalls
    cases hcalls
  · have hsame := hcount twoSuppliers (callsRun refersToText) hids summary hrun
    rw [hrun] at hcalls
    rw [hthree, Option.some.inj hcalls] at hsame
    cases hsame

end JavaSema.Analysis
