import JavaSema.Analysis.Declare
import JavaSema.Proofs.Analysis.Footprint
import JavaSema.Proofs.Source.Below

/-!
# The footprint of declarations

Resolving types and declaring classes records types for type references and declarations, and leaves
all scopes as they were.

There are three groups.

* `Footprint.Allows` says that the types and declarations at and below a node may be recorded.
* Types: names, references and type parameters.
* Declarations: the scope of a class, headers, members and units.
-/

namespace JavaSema.Analysis

open Source

variable {F : Footprint} {k : Nat}

/-- Whether the node is a type reference or a declaration. -/
def isDeclarative : Node → Bool
  | .type _ | .decl _ => true
  | .expr _ | .stmt _ => false

/-- The types and declarations at and below the node may be recorded. -/
def Footprint.Allows (F : Footprint) (n : Node) : Prop :=
  ∀ m ∈ n.subtree, isDeclarative m = true → F.marks m.id

namespace Footprint.Allows

theorem child {n c : Node} (h : F.Allows n) (hc : c ∈ n.children) : F.Allows c :=
  fun m hm => h m (Node.mem_subtree_of_child hc hm)

theorem type {t : TypeRef} (h : F.Allows (.type t)) : F.marks t.id :=
  h (.type t) (Node.self_mem_subtree _) rfl

theorem decl {d : Decl} (h : F.Allows (.decl d)) : F.marks d.id :=
  h (.decl d) (Node.self_mem_subtree _) rfl

end Footprint.Allows

/-! ## Types -/

theorem goes_classes : Goes F k k classes :=
  Goes.get.bind fun _ => Goes.read.bind fun _ => .pure _

theorem goes_inCatalog {α : Type} (op : StateM Catalog α) : Goes F k k (inCatalog op) :=
  .modifyGet (fun _ => rfl) (fun _ => rfl) fun _ => rfl

theorem goes_loadAt (n : Node) (name : String) : Goes F k k (loadAt n name) := by
  refine goes_classes.bind fun env => ?_
  split
  · exact .pure _
  · exact .failAt _ _

theorem goes_simpleType? (simple : String) : Goes F k k (simpleType? simple) := by
  refine Goes.get.bind fun s => ?_
  split
  · exact .pure _
  · refine goes_classes.bind fun env => ?_
    split
    · exact .pure _
    · exact (goes_inCatalog _).bind fun _ => .pure _

theorem goes_namedType? (name : QualifiedName) : Goes F k k (namedType? name) := by
  unfold namedType?
  split
  · exact .pure _
  · refine (goes_simpleType? _).bind fun head => ?_
    split
    · exact .pure _
    · exact .ite (.pure _) (Goes.get.bind fun _ => goes_classes.bind fun _ => .pure _)
    · exact .pure _
    · exact goes_classes.bind fun _ => .pure _

mutual

theorem goes_resolveType : ∀ t : TypeRef, F.Allows (.type t) → Goes F k k (resolveType t)
  | ⟨id, shape⟩, h => by
    rw [resolveType]
    refine (goes_resolveShape ⟨id, shape⟩ shape rfl h).bind fun t => ?_
    exact (Goes.record h.type t).bind fun _ => .pure _

theorem goes_resolveShape (whole : TypeRef) : ∀ shape : TypeShape, whole.shape = shape →
    F.Allows (.type whole) → Goes F k k (resolveShape whole shape)
  | .primitive p, _, _ => by
    rw [resolveShape]
    exact .pure _
  | .void, _, _ => by
    rw [resolveShape]
    exact .pure _
  | .inferred, _, _ => by
    rw [resolveShape]
    exact .failAt _ _
  | .named name args, hshape, h => by
    rw [resolveShape]
    refine (goes_namedType? name).bind fun base => ?_
    split
    · exact .failAt _ _
    · exact goes_resolveArgs _ args fun ts hts t ht =>
        h.child (by simp [Node.children, TypeRef.children, hshape, hts, ht])
  | .array element dims, hshape, h => by
    rw [resolveShape]
    have helement : F.Allows (.type element) :=
      h.child (by simp [Node.children, TypeRef.children, hshape])
    exact (goes_resolveType element helement).bind fun _ => .pure _
  | .wild, _, _ => by
    rw [resolveShape]
    exact .pure _
  | .wildUpper bound, hshape, h => by
    rw [resolveShape]
    have hbound : F.Allows (.type bound) :=
      h.child (by simp [Node.children, TypeRef.children, hshape])
    exact (goes_resolveType bound hbound).bind fun _ => .pure _
  | .wildLower bound, hshape, h => by
    rw [resolveShape]
    have hbound : F.Allows (.type bound) :=
      h.child (by simp [Node.children, TypeRef.children, hshape])
    exact (goes_resolveType bound hbound).bind fun _ => .pure _

theorem goes_resolveArgs (base : JType) : ∀ args : Option (List TypeRef),
    (∀ ts, args = some ts → ∀ t ∈ ts, F.Allows (.type t)) → Goes F k k (resolveArgs base args)
  | none, _ => by
    rw [resolveArgs]
    exact .pure _
  | some args, h => by
    rw [resolveArgs]
    exact (goes_resolveTypes args (h args rfl)).bind fun _ => .pure _

theorem goes_resolveTypes : ∀ ts : List TypeRef, (∀ t ∈ ts, F.Allows (.type t)) →
    Goes F k k (resolveTypes ts)
  | [], _ => by
    rw [resolveTypes]
    exact .pure _
  | t :: ts, h => by
    rw [resolveTypes]
    have hrest : ∀ u ∈ ts, F.Allows (.type u) := fun u hu => h u (List.mem_cons_of_mem _ hu)
    refine (goes_resolveType t (h t List.mem_cons_self)).bind fun _ => ?_
    exact (goes_resolveTypes ts hrest).bind fun _ => .pure _

end

/-! ## Type parameters -/

theorem bindSymbol_binds (s : Symbol) : Keeps SymbolTable.Binds (bindSymbol s) :=
  (SymbolTable.pushSymbol_binds s).discard

theorem bindTypeParams_binds (params : List TypeParam) :
    Keeps SymbolTable.Binds (bindTypeParams params) :=
  .forM SymbolTable.binds_refl SymbolTable.binds_trans params fun _ _ => bindSymbol_binds _

theorem goes_typeParamOf (p : TypeParamDecl) (h : ∀ t ∈ p.bounds, F.Allows (.type t)) :
    Goes F k k (typeParamOf p) :=
  (goes_resolveTypes p.bounds h).bind fun _ => .pure _

theorem goes_typeParamsOf (params : List TypeParamDecl)
    (h : ∀ t ∈ TypeParamDecl.allBounds params, F.Allows (.type t)) :
    Goes F k k (typeParamsOf params) := by
  refine Has.goes ?_
  cases params with
  | nil => exact .pure _
  | cons first rest =>
    refine Goes.bind ((Moves.pushScope _ _).inTableFor _) fun _ => ?_
    refine Goes.bind (Goes.forM _ fun p _ => ?_) fun _ => ?_
    · exact (Moves.binds (bindSymbol_binds _)).inTableFor _
    · refine Goes.popAfter (.mapM _ fun p hp => ?_) (pops_inTableFor _)
      exact goes_typeParamOf p fun t ht => h t (List.mem_flatMap.mpr ⟨p, hp, ht⟩)

/-! ## The scope of a class -/

theorem goes_binaryNameOf (d : Decl) : Goes F k k (binaryNameOf d) := by
  refine Goes.get.bind fun s => ?_
  split
  · exact .pure _
  · exact .failAt _ _

theorem goes_openClass (d : Decl) (binary : String) (observer : Option String) :
    Goes F k (k + 1) (openClass d binary observer) := by
  refine Goes.bind ((Moves.pushClassScope _ _).inTable _) fun _ => ?_
  refine (goes_loadAt _ _).bind fun c => ?_
  refine Goes.bind ((Moves.binds (bindTypeParams_binds _)).inTable _) fun _ => ?_
  refine (Moves.binds ?_).inTable _
  exact .forM SymbolTable.binds_refl SymbolTable.binds_trans _ fun _ _ => bindSymbol_binds _

theorem goes_closeClass (d : Decl) : Goes F (k + 1) k (closeClass d) := Moves.popScope.inTable _

theorem at_attachMembers (d : Decl) (members : Scope) (setting : Setting) {s₀ s : State}
    (hat : F.At k s₀ s) : F.At k s₀ (exec (attachMembers d members setting) s).2 := by
  have hattach : ∀ sym, s.table.find? d.name .type = some sym →
      F.At k s₀ { s with table := s.table.attachMembers sym.id members } := by
    intro sym hfind
    refine ⟨hat.typings, hat.frames, ?_⟩
    intro hreach
    obtain ⟨hreach', top, kept, hscopes, hlength, hkept⟩ := hat.table hreach
    have hbare := hreach'.sound.bare_attachMembers hfind members
    rw [hscopes, List.map_append] at hbare
    obtain ⟨top', kept', hsplit, htop, hkept'⟩ := List.map_eq_append_iff.mp hbare
    refine ⟨hreach'.attachMembers d.name sym hfind members, top', kept', hsplit, ?_,
      hkept.trans (Footprint.scopes_of_bare hkept')⟩
    have hsame := congrArg List.length htop
    simp only [List.length_map] at hsame
    rw [hsame, hlength]
  rw [attachMembers, run_modify]
  dsimp only
  split
  · rename_i sym hfind
    split
    · exact hattach sym hfind
    · exact hat
  · exact hat

/-- Closing a class and giving its symbol the members closes one scope. -/
theorem pops_closeClass (d : Decl) : Pops (do attachMembers d (← closeClass d)) :=
  (pops_inTable _).bind fun _ _ members setting _ _ hat => at_attachMembers d members setting hat

/-! ## Headers -/

section Children

variable {d : Decl} (h : F.Allows (.decl d))

include h

theorem Footprint.Allows.typeParam {t : TypeRef} (ht : t ∈ TypeParamDecl.allBounds d.typeParams) :
    F.Allows (.type t) :=
  h.child (by simp [Node.children, Decl.children, ht])

theorem Footprint.Allows.parent {t : TypeRef} (ht : t ∈ d.parent) : F.Allows (.type t) :=
  h.child (by simp [Node.children, Decl.children, Option.mem_def.mp ht])

theorem Footprint.Allows.interface {t : TypeRef} (ht : t ∈ d.interfaces) : F.Allows (.type t) :=
  h.child (by simp [Node.children, Decl.children, ht])

theorem Footprint.Allows.member {m : Member} (hm : m ∈ d.members) {c : Node}
    (hc : c ∈ m.children) : F.Allows c :=
  h.child (Member.child_of_mem hm hc)

end Children

theorem goes_classHeader (d : Decl) (binary : String) (nesting : Nesting)
    (enclosing : Option String) (h : F.Allows (.decl d)) :
    Goes F k k (classHeader d binary nesting enclosing) := by
  refine Has.goes ?_
  unfold classHeader
  refine (goes_typeParamsOf _ fun t ht => h.typeParam ht).bind fun typeParams => ?_
  refine Goes.bind ((Moves.pushScope _ _).inTable _) fun _ => ?_
  refine Goes.bind ((Moves.binds (bindTypeParams_binds _)).inTable _) fun _ => ?_
  refine Goes.bind (.optionMapM _ fun t ht => goes_resolveType t (h.parent ht)) fun written => ?_
  refine (goes_resolveTypes _ fun t ht => h.interface ht).bind fun interfaces => ?_
  refine Goes.bind (Moves.popScope.inTable _) fun _ => ?_
  refine Goes.get.bind fun s => ?_
  exact (Goes.record h.decl _).bind fun _ => .pure _

theorem goes_declare (d : ClassDef) : Goes F k k (declare d) :=
  .modifyGet (fun _ => rfl) (fun _ => rfl) fun _ => rfl

theorem goes_declareHeader (height : Nat) (d : Decl) (header : ClassDef)
    (h : F.Allows (.decl d)) : Goes F k k (declareHeader height d header) := by
  induction height generalizing k d header with
  | zero => exact .failAt _ _
  | succ height ih =>
    refine (goes_declare header).bind fun _ => ?_
    refine (goes_openClass d header.name none).bind fun _ => ?_
    refine Goes.bind (.forM _ fun member hmember => ?_) fun _ => (goes_closeClass d).discard
    have hallows : F.Allows (.decl member) := h.child (Decl.nested_mem_children hmember)
    refine (goes_binaryNameOf member).bind fun binary => ?_
    exact (goes_classHeader member _ _ _ hallows).bind fun c => ih member c hallows

/-! ## Members -/

section Members

variable {m : MethodDecl} (h : ∀ c ∈ (Member.method m).children, F.Allows c)

include h

theorem has_methodTypes (hb : F.binds = true) (typeParams : List TypeParam) :
    Has F (methodTypes m typeParams) := by
  refine Goes.bind ((Moves.binds_below hb (bindTypeParams_binds _)).inTableFor _) fun _ => ?_
  refine (goes_resolveTypes _ fun t ht => h _ ?_).bind fun params => ?_
  · simp only [Member.children, List.mem_append]
    exact .inl (.inr (List.mem_map_of_mem ht))
  · refine Goes.bind (.optionMapM _ fun t ht => goes_resolveType t (h _ ?_)) fun _ => .pure _
    simp [Member.children, Option.mem_def.mp ht]

theorem goes_methodDef (inInterface : Bool) : Goes F k k (methodDef m inInterface) := by
  refine Has.goes ?_
  refine (goes_typeParamsOf _ fun t ht => h _ ?_).bind fun typeParams => ?_
  · simp [Member.children, ht]
  · refine Goes.bind ((Moves.pushScope _ _).inTableFor _) fun _ => ?_
    refine Goes.bind (.closing ?_ (pops_inTableFor _).discard) fun _ => .pure _
    exact has_methodTypes (F := F.inner) h rfl typeParams

end Members

theorem goes_addMember (c : ClassDef) (m : Member) (h : ∀ n ∈ m.children, F.Allows n) :
    Goes F k k (addMember c m) := by
  cases m with
  | field f =>
    refine (goes_resolveType f.type (h _ ?_)).bind fun base => .pure _
    simp [Member.children]
  | method m =>
    exact (goes_methodDef h _).bind fun definition => .ite (.pure _) (.pure _)
  | initializer | type => exact .pure _

theorem goes_classMembers (d : Decl) (header : ClassDef) (h : F.Allows (.decl d)) :
    Goes F k k (classMembers d header) := by
  refine Goes.bind (.foldlM _ _ fun c m hm => goes_addMember c m fun n hn => ?_) fun c => ?_
  · exact h.member hm hn
  · exact .ite (.pure _) (.pure _)

theorem goes_declareMembers (height : Nat) (d : Decl) (h : F.Allows (.decl d)) :
    Goes F k k (declareMembers height d) := by
  induction height generalizing k d with
  | zero => exact .failAt _ _
  | succ height ih =>
    refine (goes_binaryNameOf d).bind fun binary => ?_
    refine (goes_openClass d binary none).bind fun _ => ?_
    refine (goes_loadAt _ _).bind fun header => ?_
    refine (goes_classMembers d header h).bind fun c => ?_
    refine (goes_declare c).bind fun _ => ?_
    refine Goes.bind (.forM _ fun member hmember => ?_) fun _ => (goes_closeClass d).discard
    exact ih member (h.child (Decl.nested_mem_children hmember))

theorem goes_declareBody (d : Decl) (header : ClassDef) (h : F.Allows (.decl d)) :
    Goes F k k (declareBody d header) :=
  (goes_declareHeader _ d header h).bind fun _ => goes_declareMembers _ d h

/-! ## Units -/

theorem goes_declareTopLevel (d : Decl) (h : F.Allows (.decl d)) :
    Goes F k k (declareTopLevel d) := by
  refine (goes_binaryNameOf d).bind fun binary => ?_
  refine (goes_classHeader d binary _ _ h).bind fun header => ?_
  exact goes_declareHeader _ d header h

theorem populate_binds (c : Catalog) : Keeps SymbolTable.Binds c.populate := by
  refine .forM SymbolTable.binds_refl SymbolTable.binds_trans _ fun p _ => ?_
  exact .bind SymbolTable.binds_trans (SymbolTable.pushSymbol_binds _) fun _ =>
    .pure SymbolTable.binds_refl _

/-- A step that runs on a table of its own leaves that of the state. -/
theorem has_ownTable {α : Type} {step : Check α} {k' : Nat} (hstep : Goes F 0 k' step) :
    Has F (do
      let saved := (← get).table
      modify fun s => { s with table := {} }
      let result ← attempt step
      modify fun s => { s with table := saved }
      settle result) := by
  refine .of_run fun setting s => ?_
  obtain ⟨⟨j, hj⟩, -⟩ := hstep setting _ _ (F.at_refl { s with table := {} })
  have hout : F.At 0 s { (exec (step setting) { s with table := {} }).2 with table := s.table } :=
    ⟨hj.typings, hj.frames, fun h => ⟨h, [], _, rfl, rfl, Footprint.scopes_of_bare rfl⟩⟩
  have hrun : exec ((do
      let saved := (← get).table
      modify fun s => { s with table := {} }
      let result ← attempt step
      modify fun s => { s with table := saved }
      settle result : Check α) setting) s
        = ((exec (step setting) { s with table := {} }).1,
          { (exec (step setting) { s with table := {} }).2 with table := s.table }) := by
    show exec (settle (exec (step setting) { s with table := {} }).1 setting) _ = _
    rw [exec_settle]
    rfl
  rw [hrun]
  exact hout.ends _

theorem has_declareUnit (u : SourceUnit) (h : ∀ d ∈ u.types, F.Allows (.decl d)) :
    Has F (declareUnit u) := by
  refine has_ownTable (?_ : Goes F 0 1 _)
  refine Goes.bind ((Moves.pushScope _ _).inTableFor _) fun _ => ?_
  refine Goes.get.bind fun s => ?_
  refine Goes.bind ((Moves.binds (populate_binds _)).inTableFor _) fun _ => ?_
  refine Goes.bind (.forM _ fun d hd => goes_declareTopLevel d (h d hd)) fun _ => ?_
  exact .forM _ fun d hd => goes_declareMembers _ d (h d hd)

end JavaSema.Analysis
