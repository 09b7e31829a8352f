import JavaSema.ClassPath.Loader
import JavaSema.Proofs.ClassEnv.Named
import JavaSema.Proofs.ClassEnv.Overlay
import JavaSema.Proofs.ClassPath.Lazy

/-!
# What a loader answers does not depend on what it was asked before

A loader has two memories: the index of its class path, and the classes that it could read.  Both change
with each request, and neither is seen in an answer.

There are three groups.

* Class files.  `definition` is the class that the entries give for a name, if all of them are looked at
  in order.  It has that name, also where the class file was put under another one
  (`name_of_define`).
* Requests.  `Sound` says that the index knows what it scanned and that each remembered class is the
  one that the entries give.  A request keeps it, and `Sound.load` is the answer under it.
* Environments.  `Composed` are the environments that are made of tables, loaders, layers and units, and
  all of them find classes under their own names.

## Implementation notes

A loader in an environment answers from what it knows at a moment, which is `Loader.now`.
-/

namespace JavaSema.ClassPath

/-! ## Class files -/

theorem name_of_addMethod {scope : TypeVarScope} {d d' : ClassDef} {m : ClassFile.Member}
    (h : ClassDef.addMethod scope d m = .ok d') : d'.name = d.name := by
  unfold ClassDef.addMethod at h
  split at h
  · cases h; rfl
  · cases hm : ClassDef.methodOf scope m with
    | error e =>
      split at h
      · simp [hm, bind, Except.bind] at h
      · split at h
        · cases h; rfl
        · simp [hm, bind, Except.bind] at h
    | ok definition =>
      simp only [hm, bind, Except.bind, pure, Except.pure] at h
      split at h
      · cases h; rfl
      · split at h <;> (cases h; rfl)

theorem name_of_foldlM_addMethod {scope : TypeVarScope} {methods : List ClassFile.Member}
    {d d' : ClassDef} (h : methods.foldlM (ClassDef.addMethod scope) d = .ok d') :
    d'.name = d.name := by
  induction methods generalizing d with
  | nil => cases h; rfl
  | cons m rest ih =>
    rw [List.foldlM_cons] at h
    cases hm : ClassDef.addMethod scope d m with
    | error e => simp [hm, bind, Except.bind] at h
    | ok next =>
      simp only [hm, bind, Except.bind] at h
      rw [ih h, name_of_addMethod hm]

/-- A class has the name that its class file declares. -/
theorem name_of_ofClassFile {f : ClassFile} {d : ClassDef} (h : ClassDef.ofClassFile f = .ok d) :
    d.name = f.declaredName := by
  have hheader : (ClassDef.headerOf f).1.name = f.declaredName := by
    unfold ClassDef.headerOf
    dsimp only
    split <;> rfl
  unfold ClassDef.ofClassFile at h
  generalize hscope : ClassDef.headerOf f = header at h hheader
  obtain ⟨start, scope⟩ := header
  simp only [bind, Except.bind] at h hheader
  split at h
  · cases h
  · rw [name_of_foldlM_addMethod h, ← hheader]

/-- A class file counts under the name that it declares only. -/
theorem name_of_define {name : String} {data : List UInt8} {d : ClassDef}
    (h : define name data = .ok d) : d.name = name := by
  unfold define at h
  cases hparse : ClassFile.parse data with
  | error e => simp [hparse, mapError_error, bind, Except.bind] at h
  | ok f =>
    simp only [hparse, mapError_ok, bind, Except.bind] at h
    split at h
    · contradiction
    · rename_i hname
      cases hclass : ClassDef.ofClassFile f with
      | error e => simp [hclass, mapError_error] at h
      | ok c =>
        simp only [hclass, mapError_ok, Except.ok.injEq] at h
        rw [← h, name_of_ofClassFile hclass]
        exact Decidable.not_not.mp hname

theorem name_of_defineRead {name : String} {answer : Except Error (Option (List UInt8))}
    {d : ClassDef} (h : defineRead name answer = .ok d) : d.name = name := by
  match answer with
  | .error e => cases h
  | .ok none => cases h
  | .ok (some data) => exact name_of_define h

/-- The content of the first resource under the path, if all entries are looked at in order. -/
def readIn (files : FileTree) (chain : List (List Entry)) (path : String) :
    Except Error (Option (List UInt8)) :=
  match chain.findSome? (Index.firstOwner files path) with
  | some location => (readResource files location).map some
  | none => .ok none

/-- The class of that name that entries give. -/
def definition (files : FileTree) (chain : List (List Entry)) (name : String) :
    Except LoadError ClassDef :=
  defineRead name (readIn files chain (BinaryName.classFilePath name))

theorem readClass_spec {files : FileTree} {cp : ClassPath} (h : AllFaithful files cp.indexes)
    (name : String) :
    (cp.readClass files name).1
        = readIn files (cp.indexes.map Index.entries) (BinaryName.classFilePath name) ∧
      Kept files cp.indexes (cp.readClass files name).2.indexes := by
  obtain ⟨after, hafter, hkept⟩ := findFirst_spec h (BinaryName.classFilePath name)
  unfold readClass ClassPath.read ClassPath.find readIn
  rw [hafter]
  cases (cp.indexes.map Index.entries).findSome?
      (Index.firstOwner files (BinaryName.classFilePath name)) with
  | none => exact ⟨rfl, hkept⟩
  | some location => exact ⟨rfl, hkept⟩

/-! ## Requests -/

namespace Loader

/-- What a loader is asked. -/
inductive Request where
  /-- For a class. -/
  | load (name : String)
  /-- For what its class path knows. -/
  | ask (call : Call)

/-- A loader after a request. -/
def Request.run (files : FileTree) (loader : Loader) : Request → Loader
  | .load name => (loader.load files name).2
  | .ask call => { loader with path := (call.run files loader.path).2 }

/-- A loader after requests. -/
def afterRequests (files : FileTree) (loader : Loader) (requests : List Request) : Loader :=
  requests.foldl (Request.run files) loader

/-- The loader knows nothing that its entries do not give. -/
structure Sound (files : FileTree) (chain : List (List Entry)) (loader : Loader) : Prop where
  /-- The indexes know what they have scanned. -/
  faithful : AllFaithful files loader.path.indexes
  /-- The indexes are those of the entries. -/
  entries : loader.path.indexes.map Index.entries = chain
  /-- A remembered class is the one that the entries give. -/
  remembered : ∀ name d, loader.cache.get? name = some d → definition files chain name = .ok d

variable {files : FileTree} {chain : List (List Entry)} {loader : Loader}

theorem sound_fresh (h : ∀ entries ∈ chain, ∀ entry ∈ entries, Entry.Listable files entry) :
    Sound files chain { path := ofChain chain } := by
  refine ⟨allFaithful_ofChain h, ?_, fun name d hd => by cases hd⟩
  rw [ofChain, List.map_map]
  exact List.map_id chain

theorem Sound.onward (h : Sound files chain loader) {path : ClassPath}
    (hpath : Kept files loader.path.indexes path.indexes) :
    Sound files chain { loader with path } :=
  ⟨hpath.allFaithful, hpath.entries.trans h.entries, h.remembered⟩

/-- A class that was read is remembered under its name, which is the one that was asked for. -/
theorem Sound.insert (h : Sound files chain loader) {name : String} {d : ClassDef}
    (hd : definition files chain name = .ok d) :
    Sound files chain { loader with cache := loader.cache.insert d } := by
  refine ⟨h.faithful, h.entries, ?_⟩
  intro asked c hc
  rw [ClassTable.get?_insert, name_of_defineRead hd] at hc
  split at hc
  · rename_i hsame
    obtain rfl := Option.some.inj hc
    rwa [← hsame]
  · exact h.remembered asked c hc

/-- A loader answers what its entries give. -/
theorem Sound.load (h : Sound files chain loader) (name : String) :
    (loader.load files name).1 = definition files chain name ∧
      Sound files chain (loader.load files name).2 := by
  unfold Loader.load
  cases hget : loader.cache.get? name with
  | some d => exact ⟨(h.remembered name d hget).symm, h⟩
  | none =>
    obtain ⟨hanswer, hkept⟩ := readClass_spec h.faithful name
    rw [h.entries] at hanswer
    have hnext := h.onward hkept
    have hdefinition : defineRead name (loader.path.readClass files name).1
        = definition files chain name := congrArg (defineRead name) hanswer
    generalize loader.path.readClass files name = asked at hdefinition hnext ⊢
    dsimp only
    split
    · rename_i d hd
      rw [hd] at hdefinition
      exact ⟨hdefinition, hnext.insert hdefinition.symm⟩
    · rename_i e he
      rw [he] at hdefinition
      exact ⟨hdefinition, hnext⟩

theorem Sound.request (h : Sound files chain loader) (request : Request) :
    Sound files chain (request.run files loader) := by
  cases request with
  | load name => exact (h.load name).2
  | ask call => exact h.onward (call.kept h.faithful)

theorem Sound.afterRequests (h : Sound files chain loader) (requests : List Request) :
    Sound files chain (afterRequests files loader requests) := by
  induction requests generalizing loader with
  | nil => exact h
  | cons request rest ih => exact ih (h.request request)

/-- After any requests a loader answers as one that was asked nothing. -/
theorem load_afterRequests
    (h : ∀ entries ∈ chain, ∀ entry ∈ entries, Entry.Listable files entry)
    (requests : List Request) (name : String) :
    ((Loader.afterRequests files { path := ofChain chain } requests).load files name).1
      = (Loader.load files name { path := ofChain chain }).1 := by
  have hfresh := sound_fresh h
  rw [((hfresh.afterRequests requests).load name).1, (hfresh.load name).1]

/-! ## Environments -/

/-- A loader finds classes under their own names, whatever its class path can list. -/
theorem name_of_load {name : String} {d : ClassDef} (h : (loader.load files name).1 = .ok d) :
    d.name = name := by
  unfold Loader.load at h
  split at h
  · rename_i c hget
    cases h
    exact ClassTable.name_of_get? hget
  · dsimp only at h
    split at h
    · rename_i c hc
      cases h
      exact name_of_defineRead hc
    · cases h

theorem mem_of_load {name : String} {d : ClassDef} (h : (loader.load files name).1 = .ok d) :
    name ∈ loader.cache.classes.map ClassDef.name ++ declaredNames files := by
  unfold Loader.load at h
  split at h
  · rename_i c hget
    exact List.mem_append_left _ (List.mem_map.mpr
      ⟨c, ClassTable.mem_classes_of_get? hget, ClassTable.name_of_get? hget⟩)
  · refine List.mem_append_right _ ?_
    dsimp only at h
    split at h
    · rename_i c hc
      match hread : (loader.path.readClass files name).1 with
      | .error e => rw [hread] at hc; cases hc
      | .ok none => rw [hread] at hc; cases hc
      | .ok (some data) =>
        rw [hread] at hc
        exact mem_declaredNames_of_define (mem_blobs_of_read hread) hc
    · cases h

/-- The environment that a loader is at a moment. -/
def now (files : FileTree) (loader : Loader) : ClassEnv where
  load name := (loader.load files name).1
  hasClass name := (loader.path.hasClass files name).1
  packageClasses package := (loader.path.packageClasses files package).1
  hasPackage package := (loader.path.hasPackage files package).1
  names := loader.cache.classes.map ClassDef.name ++ declaredNames files
  mem_names := mem_of_load

end Loader

open Loader in
/-- The environments that are made of tables of classes, loaders at a moment of their use, layers, and the
classes of a unit in front of others. -/
inductive Composed (files : FileTree) : ClassEnv → Prop
  /-- The classes that were inserted into a table. -/
  | table (classes : List ClassDef) : Composed files (ClassTable.ofList classes).toEnv
  /-- The classes of entries, after requests. -/
  | loader (chain : List (List Entry)) (requests : List Request) :
    Composed files ((afterRequests files { path := ofChain chain } requests).now files)
  /-- Environments that are asked in turn. -/
  | layered {layers : List ClassEnv} (h : ∀ env ∈ layers, Composed files env) :
    Composed files (ClassEnv.layered layers)
  /-- The classes that a unit declared so far, in front of those outside. -/
  | unit (declared : List ClassDef) {outside : ClassEnv} (h : Composed files outside) :
    Composed files (Analysis.overlay (ClassTable.ofList declared) outside)

theorem Composed.named {files : FileTree} {env : ClassEnv} (h : Composed files env) : env.Named := by
  induction h with
  | table classes => exact ClassTable.named_toEnv _
  | loader chain requests => exact fun _ _ hload => Loader.name_of_load hload
  | layered _ ih => exact ClassEnv.named_layered ih
  | unit declared _ ih => exact Analysis.named_overlay ih _

/-- A class is what the files say under its name.  A loader gives the same answer, be it a class or an
error, whatever it and its class path were asked before; and in all environments that are made of
loaders and of classes held in memory, a class that is found has the name that was asked for. -/
theorem classes_by_name (files : FileTree) :
    (∀ chain : List (List Entry),
      (∀ entries ∈ chain, ∀ entry ∈ entries, Entry.Listable files entry) →
        ∀ (requests : List Loader.Request) (name : String),
          ((Loader.afterRequests files { path := ofChain chain } requests).load files name).1
            = (Loader.load files name { path := ofChain chain }).1) ∧
      ∀ env, Composed files env → ∀ name d, env.load name = .ok d → d.name = name :=
  ⟨fun _ hlist requests name => Loader.load_afterRequests hlist requests name,
    fun _ henv => henv.named⟩

/-- A directory with the class `A`, which is there under the name `C` as well. -/
def misplacedClass : FileTree :=
  let data := [0xCA, 0xFE, 0xBA, 0xBE, 0, 0, 0, 52, 0, 3, 1, 0, 1, 65, 7, 0, 1, 0, 33, 0, 2, 0, 0,
    0, 0, 0, 0, 0, 0, 0, 0]
  { files := [(["a", "A.class"], .bytes data), (["a", "C.class"], .bytes data)]
    directories := [["a"]] }

/-- The loader was asked for `A`, for all classes and for `C`.  Then it is asked for both classes, the
second time behind a unit. -/
theorem misplacedClass_load :
    (∀ entries ∈ [[Entry.directory "a"]], ∀ entry ∈ entries,
      Entry.Listable misplacedClass entry) ∧
      (let loader := Loader.afterRequests misplacedClass { path := ofChain [[.directory "a"]] }
          [.load "A", .ask ⟨1, .packageClasses ""⟩, .load "C"]
        let env := Analysis.overlay (ClassTable.ofList [.empty "B" .ordinary])
          (loader.now misplacedClass)
        (loader.load misplacedClass "C").1 = .error (.incompatible "C" "A") ∧
          ∃ d, env.load "A" = .ok d ∧ d.name = "A") := by
  have hlist : ∀ entries ∈ [[Entry.directory "a"]], ∀ entry ∈ entries,
      Entry.Listable misplacedClass entry := by
    intro entries hentries entry hentry _
    obtain rfl := List.mem_singleton.mp hentries
    obtain rfl := List.mem_singleton.mp hentry
    exact ⟨["A.class", "C.class"], by rfl⟩
  have hfresh := Loader.sound_fresh hlist
  have hmisplaced : definition misplacedClass [[.directory "a"]] "C"
      = .error (.incompatible "C" "A") := by rfl
  obtain ⟨d, hd⟩ : ∃ d, definition misplacedClass [[.directory "a"]] "A" = .ok d := ⟨_, rfl⟩
  obtain ⟨hsame, hnames⟩ := classes_by_name misplacedClass
  refine ⟨hlist, (hsame _ hlist _ "C").trans ((hfresh.load "C").1.trans hmisplaced), d, ?_⟩
  have hload := (hsame _ hlist [.load "A", .ask ⟨1, .packageClasses ""⟩, .load "C"] "A").trans
    ((hfresh.load "A").1.trans hd)
  exact ⟨hload, hnames _ (.unit [.empty "B" .ordinary] (.loader _ _)) "A" d hload⟩

end JavaSema.ClassPath
