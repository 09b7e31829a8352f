import JavaSema.Proofs.Assign.Wildcard
import JavaSema.Proofs.Overload.Result
import JavaSema.Scope.Table

/-!
# Methods of a symbol table and candidates of a call

A method that stands in a symbol table and one that a class has are tested in different ways for whether
they take arguments of given types: the one against its parameters as they are, the other one by an
inference, against the parameters in which what is still open is dropped.  The tests agree if nothing is
open.

There are three groups.

* Parameters.  `IsPlain.accepts_subst` says which parameters compare alike once what is open in them is
  dropped.
* Lists of arguments.  A list is taken piece by piece.
* The result.  `takes_eq_tryCandidate` compares the tests, and `int_of_strings_differ` says where they
  differ.
-/

namespace JavaSema

/-! ## Parameters -/

namespace JType

variable {env : ClassEnv}

theorem isPrimitive_of_same {s t : JType} (h : s.same t = true) :
    s.isPrimitive = t.isPrimitive := by
  cases s
  cases t
  simp only [same, Bool.and_eq_true, beq_iff_eq] at h
  obtain ⟨⟨⟨⟨⟨⟨⟨rfl, rfl⟩, -⟩, rfl⟩, rfl⟩, -⟩, -⟩, -⟩ := h
  rfl

/-- The type arguments of an array decide nothing unless its elements are primitive. -/
theorem acceptsArray_withArgs {target : JType} {args : Option (List JType)}
    (hargs : args.isNone = target.args.isNone) (helement : target.element.isPrimitive = false)
    (value : JType) : acceptsArray env (target.withArgs args) value = acceptsArray env target value := by
  have hsame : ∀ t : JType, t.isPrimitive = false → value.element.isPrimitive = true →
      (t == value.element) = false := by
    intro t ht hvalue
    refine Bool.eq_false_iff.mpr fun htrue => ?_
    rw [isPrimitive_of_same (s := t) htrue, hvalue] at ht
    cases ht
  have helement' : (target.withArgs args).element.isPrimitive = false := helement
  have hplain : acceptsPlain env (target.withArgs args).element value.element
      = acceptsPlain env target.element value.element := rfl
  unfold acceptsArray
  rw [helement', helement, hplain]
  show (if _ then false else if target.dims = 0 then
    isArraySupertype target.name && args.isNone else _) = _
  rw [hargs]
  refine if_congr Iff.rfl rfl (if_congr Iff.rfl rfl (if_congr Iff.rfl ?_ rfl))
  cases hvalue : value.element.isPrimitive with
  | false => rfl
  | true => simp [hsame _ helement hvalue, hsame _ helement' hvalue]

/-- The type arguments of a class or an array decide nothing unless it is an array of primitive
elements. -/
theorem accepts_withArgs {target : JType} {args : Option (List JType)}
    (hargs : args.isNone = target.args.isNone) (hwild : target.wildcard = false)
    (hvar : target.isTypeVar = false) (helement : target.element.isPrimitive = false)
    (value : JType) : accepts env (target.withArgs args) value = accepts env target value := by
  -- On the value, of which only a bound is compared again.
  induction hsize : value.nodes using Nat.strongRecOn generalizing value with
  | ind size ih =>
    subst hsize
    have hplain : ((target.withArgs args).wildcard || (target.withArgs args).isTypeVar) = false := by
      show (target.wildcard || target.isTypeVar) = false
      rw [hwild, hvar]
      rfl
    have hplain' : (target.wildcard || target.isTypeVar) = false := hplain
    rw [accepts_eq, accepts_eq target value, hplain, hplain',
      acceptsArray_withArgs hargs helement value]
    refine if_congr Iff.rfl rfl (if_congr Iff.rfl rfl (if_congr Iff.rfl rfl
      (if_congr Iff.rfl rfl (if_congr Iff.rfl (if_congr Iff.rfl rfl ?_) rfl))))
    rw [Bool.eq_iff_iff, List.any_eq_true, List.any_eq_true]
    refine exists_congr fun b => and_congr_right fun hb => ?_
    have hlt : b.nodes < value.nodes := nodes_lt_of_mem_upper hb
    rw [ih _ (by rw [nodes_arrayOf32]; omega) (b.arrayOf32 value.dims) rfl]

/-- A type without type variables that is no wildcard itself.  If it has primitive elements, it has no
arguments, or its wildcards are as they are written. -/
structure IsPlain (t : JType) : Prop where
  vars : t.mentionsVar = false
  wildcard : t.wildcard = false
  written : t.element.isPrimitive = true → t.wildcardsAsWritten = true

/-- Nothing is dropped from a plain type that would be compared. -/
theorem IsPlain.accepts_subst {t : JType} (h : t.IsPlain) (value : JType) :
    accepts env (t.subst [] true) value = accepts env t value := by
  cases helement : t.element.isPrimitive with
  | true => rw [t.subst_eq_self [] true h.vars (h.written helement)]
  | false =>
    have hvar := var_eq_none h.vars h.wildcard
    rw [subst_of_none hvar h.wildcard]
    apply accepts_withArgs _ h.wildcard (by simp [isTypeVar, hvar]) helement
    cases t.args <;> rfl

theorem IsPlain.component {t c : JType} (h : t.IsPlain) (hc : t.component? = some c) :
    c.IsPlain := by
  simp only [component?, Option.ite_none_right_eq_some, Option.some.injEq] at hc
  obtain ⟨-, rfl⟩ := hc
  obtain ⟨hvars, hwild, hwritten⟩ := h
  cases t
  cases hwild
  refine ⟨by simpa only [mentionsVar] using hvars, rfl, fun helement => ?_⟩
  simpa [wildcardsAsWritten] using hwritten helement

end JType

/-! ## Lists of arguments -/

namespace SymbolTable

variable {env : ClassEnv}

theorem length_of_acceptsEach {params args : List JType} (h : acceptsEach env params args = true) :
    params.length = args.length := by
  fun_induction acceptsEach env params args with
  | case1 => rfl
  | case2 p ps a as ih =>
    rw [Bool.and_eq_true] at h
    rw [List.length_cons, List.length_cons, ih h.2]
  | case3 => cases h

theorem acceptsEach_append {front back args : List JType} :
    acceptsEach env (front ++ back) args = true ↔
      front.length ≤ args.length ∧ acceptsEach env front (args.take front.length) = true ∧
        acceptsEach env back (args.drop front.length) = true := by
  induction front generalizing args with
  | nil => simp [acceptsEach]
  | cons p front ih =>
    cases args with
    | nil => simp [acceptsEach]
    | cons a args => simp [acceptsEach, ih, and_assoc, and_left_comm]

variable (env) in
/-- Each argument that is left is passed for one more parameter of the same type. -/
theorem acceptsEach_replicate (component : JType) (args : List JType) :
    acceptsEach env (List.replicate args.length component) args
      = args.all fun a => component.accepts env a := by
  induction args with
  | nil => rfl
  | cons a args ih => rw [List.length_cons, List.replicate_succ, acceptsEach, ih, List.all_cons]

/-- What is dropped from plain parameters decides nothing. -/
theorem acceptsEach_subst {params : List JType} (h : ∀ p ∈ params, p.IsPlain) (args : List JType) :
    acceptsEach env (params.map (JType.subst [] true)) args = acceptsEach env params args := by
  induction params generalizing args with
  | nil => rfl
  | cons p params ih =>
    cases args with
    | nil => rfl
    | cons a args =>
      rw [List.map_cons, acceptsEach, acceptsEach, (h p List.mem_cons_self).accepts_subst,
        ih fun q hq => h q (List.mem_cons_of_mem _ hq)]

/-- A method takes its arguments as declared, or with its last parameter spread over those that its
other parameters leave. -/
theorem takes_iff {s : Symbol} {args : List JType} :
    takes env s args = true ↔ acceptsEach env s.params args = true ∨
      ∃ component, s.isVarargs = true ∧ s.params.getLast?.bind JType.component? = some component ∧
        s.params.dropLast.length ≤ args.length ∧
          acceptsEach env (s.params.dropLast ++
            List.replicate (args.length - s.params.dropLast.length) component) args = true := by
  rw [takes, Bool.or_eq_true, Bool.and_eq_true]
  refine or_congr Iff.rfl ?_
  cases hcomponent : s.params.getLast?.bind JType.component? with
  | none => simp
  | some component =>
    have hreplicate := acceptsEach_replicate env component (args.drop s.params.dropLast.length)
    rw [List.length_drop] at hreplicate
    simp only [Bool.and_eq_true, decide_eq_true_eq, acceptsEach_append, hreplicate,
      Option.some.injEq, exists_eq_left', exists_and_left]
    tauto

end SymbolTable

namespace CallSite

open SymbolTable

variable {env : ClassEnv} {refFits : RefTest}

/-- A call with arguments that all have types. -/
def ofTypes (name : String) (args : List JType) (depth : Nat) : CallSite :=
  { name, args := args.map .typed, depth }

theorem length_ofTypes (name : String) (args : List JType) (depth : Nat) :
    (ofTypes name args depth).args.length = args.length := List.length_map _

/-- The slices of a method that takes any number of arguments are within bounds. -/
theorem fixedArity_le {m : MethodDef} {count : Nat} (h : takesCount m count = true) :
    m.fixedArity ≤ m.params.length ∧ m.fixedArity ≤ count := by
  rw [takesCount] at h
  unfold MethodDef.arity at h
  unfold MethodDef.fixedArity at h ⊢
  split at h <;> simp_all

theorem takesCount_of_length {m : MethodDef} {count : Nat} (h : m.params.length = count) :
    takesCount m count = true := by
  rw [takesCount, MethodDef.fixedArity, MethodDef.arity, h]
  split <;> simp

theorem varargsComponent?_eq_some {m : MethodDef} {component : JType} :
    m.varargsComponent? = some component ↔
      m.isVarargs = true ∧ m.params.getLast?.bind JType.component? = some component := by
  rw [MethodDef.varargsComponent?, Option.ite_none_right_eq_some]

variable (refFits) in
/-- Where nothing is bound, each argument is compared with its parameter, in which what is open is
dropped. -/
theorem all_takesArg {i : Inference} (hi : i.bindings = []) (formals args : List JType)
    (hlength : formals.length = args.length) :
    ((formals.zip (args.map Arg.typed)).all fun (formal, arg) => takesArg env refFits i formal arg)
      = acceptsEach env (formals.map (JType.subst [] true)) args := by
  induction formals generalizing args with
  | nil =>
    obtain rfl := List.length_eq_zero_iff.mp hlength.symm
    rfl
  | cons formal formals ih =>
    cases args with
    | nil => cases hlength
    | cons arg args =>
      have hfirst : takesArg env refFits i formal (.typed arg)
          = JType.accepts env (formal.subst [] true) arg := by
        rw [takesArg, Inference.apply, hi]
      rw [List.map_cons, List.map_cons, List.zip_cons_cons, List.all_cons, acceptsEach, ← hfirst,
        ih args (Nat.succ.inj hlength)]

/-- A method without type parameters binds nothing. -/
theorem isSome_tryForm {name : String} {args : List JType} {depth : Nat}
    {candidate : MethodCandidate} (hparams : candidate.definition.typeParams = [])
    {formals : List JType} (hlength : formals.length = args.length) (isSpread : Bool) :
    ((ofTypes name args depth).tryForm env refFits candidate formals isSpread).isSome
      = acceptsEach env (formals.map (JType.subst [] true)) args := by
  have hbinds : ((ofTypes name args depth).infer env candidate.definition formals isSpread).BindsOnly
      ((ofTypes name args depth).ownVars candidate.definition) := bindsOnly_infer _ _ _ _
  have hvars : (ofTypes name args depth).ownVars candidate.definition = [] := by
    simp [ownVars, ofTypes, hparams]
  rw [hvars] at hbinds
  have hnone : ((ofTypes name args depth).infer env candidate.definition formals isSpread).bindings
      = [] := List.eq_nil_iff_forall_not_mem.mpr fun p hp => List.not_mem_nil (hbinds.2 p hp)
  rw [← all_takesArg refFits hnone formals args hlength, Bool.eq_iff_iff]
  exact Option.isSome_ite

/-- The two forms of a candidate. -/
theorem isSome_tryCandidate {site : CallSite} {candidate : MethodCandidate} :
    (site.tryCandidate env refFits candidate).isSome = true ↔
      (site.args.length = candidate.definition.arity ∧
        (site.tryForm env refFits candidate candidate.definition.params false).isSome = true) ∨
      ∃ component, candidate.definition.varargsComponent? = some component ∧
        (site.tryForm env refFits candidate
          (candidate.definition.params.take candidate.definition.fixedArity ++
            List.replicate (site.args.length - candidate.definition.fixedArity) component)
          true).isSome = true := by
  rw [tryCandidate, Option.isSome_or, Bool.or_eq_true]
  refine or_congr ?_ ?_
  · split <;> simp_all
  · cases candidate.definition.varargsComponent? <;> simp

end CallSite

/-! ## The result -/

open SymbolTable CallSite

/-- A method symbol and a candidate without type parameters that has the same parameters take the same
arguments, if the parameters are plain.  The slices of a candidate are within bounds whatever its
parameters are. -/
theorem takes_eq_tryCandidate (env : ClassEnv) (refFits : RefTest) (s : Symbol)
    (candidate : MethodCandidate) (hparams : candidate.definition.params = s.params)
    (hvarargs : candidate.definition.isVarargs = s.isVarargs)
    (hopen : candidate.definition.typeParams = []) :
    ((∀ p ∈ s.params, p.IsPlain) → ∀ name args depth,
      takes env s args = (takesCount candidate.definition args.length &&
        ((ofTypes name args depth).tryCandidate env refFits candidate).isSome)) ∧
    ∀ count, takesCount candidate.definition count = true →
      candidate.definition.fixedArity ≤ candidate.definition.params.length ∧
        candidate.definition.fixedArity ≤ count := by
  refine ⟨fun hplain name args depth => ?_, fun _ => fixedArity_le⟩
  have hform : ∀ {formals : List JType} (isSpread : Bool), formals.length = args.length →
      (∀ p ∈ formals, p.IsPlain) →
      ((ofTypes name args depth).tryForm env refFits candidate formals isSpread).isSome
        = acceptsEach env formals args := by
    intro formals isSpread hlength hformals
    rw [isSome_tryForm hopen hlength, acceptsEach_subst hformals]
  -- The fixed parameters of both are those before the last one.
  have hfixed : s.isVarargs = true → candidate.definition.fixedArity = s.params.dropLast.length := by
    intro hspread
    rw [MethodDef.fixedArity, hvarargs, hspread, hparams, if_pos rfl, List.length_dropLast]
  have htake : s.params.take s.params.dropLast.length = s.params.dropLast := by
    rw [List.length_dropLast, List.dropLast_eq_take]
  have hspreadForm : ∀ component, s.params.getLast?.bind JType.component? = some component →
      s.params.dropLast.length ≤ args.length →
      ((ofTypes name args depth).tryForm env refFits candidate (s.params.dropLast ++
          List.replicate (args.length - s.params.dropLast.length) component) true).isSome
        = acceptsEach env (s.params.dropLast ++
            List.replicate (args.length - s.params.dropLast.length) component) args := by
    intro component hcomponent hle
    refine hform true (by simp only [List.length_append, List.length_replicate]; omega) ?_
    intro p hp
    rcases List.mem_append.mp hp with hp | hp
    · exact hplain p (List.dropLast_subset _ hp)
    · obtain rfl := List.eq_of_mem_replicate hp
      obtain ⟨last, hlast, hcomponent⟩ := Option.bind_eq_some_iff.mp hcomponent
      exact (hplain last (List.mem_of_getLast? hlast)).component hcomponent
  rw [Bool.eq_iff_iff, takes_iff, Bool.and_eq_true, isSome_tryCandidate, length_ofTypes,
    MethodDef.arity, hparams]
  constructor
  · rintro (h | ⟨component, hspread, hcomponent, hle, h⟩)
    · have hlength := length_of_acceptsEach h
      refine ⟨?_, .inl ⟨hlength.symm, (hform false hlength hplain).trans h⟩⟩
      exact takesCount_of_length (by rw [hparams, hlength])
    · refine ⟨?_, .inr ⟨component, ?_, ?_⟩⟩
      · simpa [takesCount, hvarargs, hspread, hfixed hspread] using hle
      · rw [varargsComponent?_eq_some, hvarargs, hparams]
        exact ⟨hspread, hcomponent⟩
      · rw [hfixed hspread, htake, hspreadForm component hcomponent hle]
        exact h
  · rintro ⟨hcount, ⟨hlength, h⟩ | ⟨component, hcomponent, h⟩⟩
    · exact .inl ((hform false hlength.symm hplain).symm.trans h)
    · rw [varargsComponent?_eq_some, hvarargs, hparams] at hcomponent
      obtain ⟨hspread, hcomponent⟩ := hcomponent
      have hle := (fixedArity_le hcount).2
      rw [hfixed hspread] at hle h
      rw [htake, hspreadForm component hcomponent hle] at h
      exact .inr ⟨component, hspread, hcomponent, hle, h⟩

/-- The method `int f(int...)` as a candidate. -/
def spreadInts : MethodCandidate :=
  { member := .method "p.A" 0
    definition :=
      { name := "f", params := [(JType.primitive .int).arrayOf 1], returnType := .primitive .int
        isVarargs := true } }

/-- The method `int f(int...)` as a symbol. -/
def spreadIntsSymbol : Symbol :=
  { Symbol.ofMethod "f" (.primitive .int) [(JType.primitive .int).arrayOf 1] with isVarargs := true }

/-- The method takes two numbers, whichever way it is tested. -/
theorem spreadInts_taken :
    (∀ p ∈ spreadIntsSymbol.params, p.IsPlain) ∧
      takes (ClassTable.toEnv ⟨[]⟩) spreadIntsSymbol [.primitive .int, .primitive .int] = true ∧
      ((ofTypes "f" [.primitive .int, .primitive .int] 8).tryCandidate (ClassTable.toEnv ⟨[]⟩)
        (fun _ _ => false) spreadInts).isSome = true := by
  have hplain : ∀ p ∈ spreadIntsSymbol.params, p.IsPlain := by
    intro p hp
    obtain rfl := List.mem_singleton.mp hp
    exact ⟨by decide, rfl, fun _ => by decide⟩
  have hint : JType.accepts (ClassTable.toEnv ⟨[]⟩) (.primitive .int) (.primitive .int) = true := by
    rw [JType.accepts_eq]
    decide
  have htakes : takes (ClassTable.toEnv ⟨[]⟩) spreadIntsSymbol [.primitive .int, .primitive .int]
      = true :=
    takes_iff.mpr (.inr ⟨.primitive .int, rfl, rfl, by decide, by
      show (JType.accepts _ _ _ && (JType.accepts _ _ _ && true)) = true
      rw [hint]
      rfl⟩)
  obtain ⟨hsame, -⟩ := takes_eq_tryCandidate (ClassTable.toEnv ⟨[]⟩) (fun _ _ => false)
    spreadIntsSymbol spreadInts rfl rfl rfl
  have hboth := hsame hplain "f" [.primitive .int, .primitive .int] 8
  rw [htakes, eq_comm, Bool.and_eq_true] at hboth
  exact ⟨hplain, htakes, hboth.2⟩

/-- An array of a class `int` with a type argument, in place of which an array of a wildcard stands. -/
def intOfStrings : JType :=
  { name := "int", args := some [(JType.wildUpper .string).arrayOf 1], dims := 1 }

/-- A parameter without type variables that is no wildcard need not be plain, and then an argument of
its own type may be taken as that of a symbol and refused as that of a candidate. -/
theorem int_of_strings_differ :
    ¬ ∀ (env : ClassEnv) (refFits : RefTest) (s : Symbol) (candidate : MethodCandidate),
      candidate.definition.params = s.params → candidate.definition.isVarargs = s.isVarargs →
      candidate.definition.typeParams = [] →
      (∀ p ∈ s.params, p.mentionsVar = false ∧ p.wildcard = false) →
      ∀ name args depth,
        takes env s args = (takesCount candidate.definition args.length &&
          ((ofTypes name args depth).tryCandidate env refFits candidate).isSome) := by
  intro hsame
  let candidate : MethodCandidate :=
    { member := .method "p.A" 0
      definition := { name := "m", params := [intOfStrings], returnType := .void } }
  have hdiffer := hsame (ClassTable.toEnv ⟨[]⟩) (fun _ _ => false)
    (.ofMethod "m" .void [intOfStrings]) candidate rfl rfl rfl
    (fun p hp => by obtain rfl := List.mem_singleton.mp hp; decide) "m" [intOfStrings] 8
  have htakes : takes (ClassTable.toEnv ⟨[]⟩) (.ofMethod "m" .void [intOfStrings]) [intOfStrings]
      = true := by
    refine takes_iff.mpr (.inl ?_)
    show (JType.accepts _ intOfStrings intOfStrings && true) = true
    rw [JType.accepts_self rfl (by decide) rfl]
    rfl
  have hrefused : JType.accepts (ClassTable.toEnv ⟨[]⟩) (intOfStrings.subst [] true) intOfStrings
      = false := by
    rw [JType.accepts_arrays rfl rfl (by decide) (by decide) rfl rfl]
    decide
  rw [htakes, eq_comm, Bool.and_eq_true, isSome_tryCandidate] at hdiffer
  obtain ⟨-, ⟨-, hform⟩ | ⟨component, hcomponent, -⟩⟩ := hdiffer
  · rw [isSome_tryForm rfl rfl] at hform
    have hform : (JType.accepts (ClassTable.toEnv ⟨[]⟩) (intOfStrings.subst [] true) intOfStrings
      && true) = true := hform
    rw [hrefused] at hform
    cases hform
  · cases hcomponent

end JavaSema
