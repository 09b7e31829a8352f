import JavaSema.Proofs.ClassFile.RoundTrip

/-!
# Class files are prefix-free

A class file ends where its tables say so.  Bytes after it are counted as trailing ones, and a file of
which any bytes at the end are missing is found to end too early, before any other fault is.

There are three groups.

* `Demands r used a` says that a reader takes just the bytes `used` and misses any of them that are cut
  off; `PrefixFree` says this of all successful runs.  Both pass to sequences of readers.
* The readers of constants, attributes and members, which look up what they read in between.
* Class files.
-/

namespace JavaSema.ClassFile

/-! ## Readers -/

namespace Reader

variable {α β : Type}

/-- The reader takes just the bytes off the front and gives the value.  Where the input ends before the
last of them, it ends too early. -/
structure Demands (r : Reader α) (used : List UInt8) (a : α) : Prop where
  /-- What follows does not matter. -/
  reads : Reads r used a
  /-- None of the bytes may be missing. -/
  cut : ∀ front, front <+: used → front ≠ used → r.run front = .error .unexpectedEnd

/-- Each successful run of the reader demands just the bytes that it took. -/
def PrefixFree (r : Reader α) : Prop :=
  ∀ bs a rest, r.run bs = .ok (a, rest) → ∃ used, bs = used ++ rest ∧ Demands r used a

theorem demands_nil {r : Reader α} {a : α} (h : Reads r [] a) : Demands r [] a :=
  ⟨h, fun _ hfront hne => absurd (List.prefix_nil.mp hfront) hne⟩

theorem Demands.bind {r : Reader α} {k : α → Reader β} {bs cs : List UInt8} {a : α} {b : β}
    (hr : Demands r bs a) (hk : Demands (k a) cs b) : Demands (r >>= k) (bs ++ cs) b := by
  refine ⟨hr.reads.bind hk.reads, fun front hfront hne => ?_⟩
  rw [StateT.run_bind]
  by_cases hfirst : bs <+: front
  · -- the first reader has all its bytes
    obtain ⟨mid, rfl⟩ := hfirst
    rw [hr.reads mid]
    exact hk.cut mid ((List.prefix_append_right_inj bs).mp hfront) fun h => hne (by rw [h])
  · have hshort : front <+: bs :=
      (List.prefix_or_prefix_of_prefix hfront (List.prefix_append bs cs)).resolve_right hfirst
    rw [hr.cut front hshort fun h => hfirst (h ▸ List.prefix_rfl)]
    rfl

namespace PrefixFree

theorem pure (a : α) : PrefixFree (Pure.pure a : Reader α) := by
  rintro bs _ _ ⟨⟩
  exact ⟨[], rfl, demands_nil (reads_pure a)⟩

theorem bind {r : Reader α} {k : α → Reader β} (hr : PrefixFree r) (hk : ∀ a, PrefixFree (k a)) :
    PrefixFree (r >>= k) := by
  intro bs b rest hrun
  rw [StateT.run_bind] at hrun
  rcases hfirst : r.run bs with e | ⟨a, mid⟩
  · rw [hfirst] at hrun
    cases hrun
  · rw [hfirst] at hrun
    obtain ⟨used, rfl, hused⟩ := hr bs a mid hfirst
    obtain ⟨used', rfl, hused'⟩ := hk a mid b rest hrun
    exact ⟨used ++ used', (List.append_assoc ..).symm, hused.bind hused'⟩

theorem map {r : Reader α} (hr : PrefixFree r) (f : α → β) :
    PrefixFree (r >>= fun a => Pure.pure (f a)) :=
  hr.bind fun _ => pure _

/-- A check of what was read takes no bytes. -/
theorem lift (x : Except Error α) : PrefixFree (liftM x : Reader α) := by
  intro bs a rest hrun
  cases x with
  | error e => cases hrun
  | ok b =>
    cases hrun
    exact ⟨[], rfl, demands_nil (reads_lift rfl)⟩

theorem throw (e : Error) : PrefixFree (MonadExcept.throw e : Reader α) := nofun

theorem ite {p : Prop} [Decidable p] {r r' : Reader α} (hr : PrefixFree r) (hr' : PrefixFree r') :
    PrefixFree (if p then r else r') := by
  split
  · exact hr
  · exact hr'

theorem u1 : PrefixFree Reader.u1 := by
  intro bs a rest hrun
  cases bs with
  | nil => cases hrun
  | cons b bs =>
    cases hrun
    refine ⟨[a], rfl, reads_u1 a, fun front hfront hne => ?_⟩
    obtain rfl : front = [] := by
      rcases List.prefix_cons_iff.mp hfront with rfl | ⟨front, rfl, hnil⟩
      · rfl
      · rw [List.prefix_nil.mp hnil] at hne
        exact absurd rfl hne
    rfl

theorem u2 : PrefixFree Reader.u2 := u1.bind fun _ => u1.map _

theorem u4 : PrefixFree Reader.u4 := u2.bind fun _ => u2.map _

end PrefixFree

theorem eq_append_of_splitExactly? {n : Nat} {bs front rest : List UInt8}
    (h : splitExactly? n bs = some (front, rest)) : bs = front ++ rest ∧ front.length = n := by
  induction n generalizing bs front with
  | zero =>
    cases h
    exact ⟨rfl, rfl⟩
  | succ n ih =>
    cases bs with
    | nil => cases h
    | cons b bs =>
      obtain ⟨⟨front', rest'⟩, hsplit, hpair⟩ := Option.map_eq_some_iff.mp h
      cases hpair
      obtain ⟨rfl, hlength⟩ := ih hsplit
      exact ⟨rfl, by rw [List.length_cons, hlength]⟩

theorem PrefixFree.bytes (n : Nat) : PrefixFree (Reader.bytes n) := by
  intro bs a rest hrun
  rcases hsplit : splitExactly? n bs with _ | ⟨front, rest'⟩
  · have hnone : (Reader.bytes n).run bs = .error .unexpectedEnd := by
      show Reader.bytes n bs = _
      rw [Reader.bytes, hsplit]
    rw [hnone] at hrun
    cases hrun
  · have hsome : (Reader.bytes n).run bs = .ok (front, rest') := by
      show Reader.bytes n bs = _
      rw [Reader.bytes, hsplit]
    rw [hsome] at hrun
    cases hrun
    obtain ⟨rfl, rfl⟩ := eq_append_of_splitExactly? hsplit
    refine ⟨a, rfl, reads_bytes a, fun cut hcut hne => ?_⟩
    show Reader.bytes a.length cut = _
    rcases hshort : splitExactly? a.length cut with _ | ⟨taken, left⟩
    · rw [Reader.bytes, hshort]
    · -- a part of the bytes cannot be as long as all of them
      obtain ⟨rfl, hlength⟩ := eq_append_of_splitExactly? hshort
      have hle := hcut.length_le
      rw [List.length_append] at hle
      exact absurd (hcut.eq_of_length (by rw [List.length_append]; omega)) hne

theorem PrefixFree.times {entry : Reader α} (hentry : PrefixFree entry) (n : Nat) :
    PrefixFree (Reader.times entry n) := by
  induction n with
  | zero => exact pure []
  | succ n ih => exact hentry.bind fun _ => ih.map _

theorem PrefixFree.table {entry : Reader α} (hentry : PrefixFree entry) :
    PrefixFree (Reader.table entry) :=
  u2.bind fun _ => hentry.times _

theorem PrefixFree.lookup (find : UInt16 → Except Error α) : PrefixFree (lookup find) :=
  u2.bind fun index => lift (find index)

/-- A reader that has to take all bytes accepts no two inputs of which one starts with the other. -/
theorem PrefixFree.whole {r : Reader α} (hr : PrefixFree r) {bs : List UInt8} {a : α}
    (h : Reader.whole r bs = .ok a) :
    (∀ more, more ≠ [] → Reader.whole r (bs ++ more) = .error (.trailingBytes more.length)) ∧
      ∀ front, front <+: bs → front ≠ bs → Reader.whole r front = .error .unexpectedEnd := by
  rcases hrun : r.run bs with e | ⟨b, rest⟩
  · rw [Reader.whole, hrun] at h
    cases h
  · obtain ⟨used, rfl, hused⟩ := hr bs b rest hrun
    rw [Reader.whole, hrun] at h
    cases rest with
    | cons c rest => cases h
    | nil =>
      rw [List.append_nil] at *
      constructor
      · intro more hmore
        cases more with
        | nil => exact absurd rfl hmore
        | cons c more =>
          rw [Reader.whole, hused.reads (c :: more)]
          rfl
      · intro front hfront hne
        rw [Reader.whole, hused.cut front hfront hne]
        rfl

end Reader

open Reader

/-! ## Parts of class files -/

theorem Constant.prefixFree_readContent (tag : UInt8) : PrefixFree (readContent tag) := by
  unfold readContent
  split
  case h_1 =>
    exact PrefixFree.u2.bind fun _ => (PrefixFree.bytes _).bind fun bytes => (PrefixFree.lift _).map _
  case h_2 | h_3 | h_11 | h_12 | h_13 | h_14 | h_15 | h_16 => exact PrefixFree.u4.map _
  case h_4 | h_5 => exact PrefixFree.u4.bind fun _ => PrefixFree.u4.map _
  case h_6 | h_7 | h_8 | h_9 | h_10 => exact PrefixFree.u2.map _
  case h_17 => exact PrefixFree.u1.bind fun _ => PrefixFree.u2.map _
  case h_18 => exact PrefixFree.throw _

theorem Constant.prefixFree_read : PrefixFree read :=
  PrefixFree.u1.bind Constant.prefixFree_readContent

theorem ConstantPool.prefixFree_readSlots (n : Nat) : PrefixFree (readSlots n) := by
  induction n using Nat.strongRecOn with
  | ind n ih =>
    cases n with
    | zero => exact .pure []
    | succ n =>
      rw [readSlots_succ]
      refine Constant.prefixFree_read.bind fun c => .ite ?_ ?_
      · exact (ih (n - 1) (by omega)).map _
      · exact (ih n (by omega)).map _

theorem ConstantPool.prefixFree_read : PrefixFree read :=
  PrefixFree.u2.bind fun _ => (prefixFree_readSlots _).map _

variable (pool : ConstantPool)

theorem InnerClass.prefixFree_read : PrefixFree (read pool) :=
  (PrefixFree.lookup _).bind fun _ => (PrefixFree.lookup _).bind fun _ =>
    (PrefixFree.lookup _).bind fun _ => PrefixFree.u2.map _

/-- The content of an attribute is looked at after all of its bytes were taken. -/
theorem Attribute.prefixFree_read (onClass : Bool) : PrefixFree (read pool onClass) :=
  (PrefixFree.lookup _).bind fun _ => PrefixFree.u4.bind fun _ =>
    (PrefixFree.bytes _).bind fun _ => PrefixFree.lift _

theorem Member.prefixFree_read : PrefixFree (read pool) :=
  PrefixFree.u2.bind fun _ => (PrefixFree.lookup _).bind fun _ => (PrefixFree.lookup _).bind fun _ =>
    (PrefixFree.table (Attribute.prefixFree_read pool false)).map _

/-! ## Class files -/

theorem prefixFree_readBody : PrefixFree readBody := by
  refine PrefixFree.u2.bind fun minor => PrefixFree.u2.bind fun major => ?_
  refine ConstantPool.prefixFree_read.bind fun pool => PrefixFree.u2.bind fun flags => ?_
  refine (PrefixFree.lookup _).bind fun name => (PrefixFree.lookup _).bind fun superclass => ?_
  refine (PrefixFree.lookup _).table.bind fun interfaces => ?_
  refine (Member.prefixFree_read pool).table.bind fun fields => ?_
  refine (Member.prefixFree_read pool).table.bind fun methods => ?_
  exact (Attribute.prefixFree_read pool true).table.map _

theorem prefixFree_read : PrefixFree read := by
  refine PrefixFree.u4.bind fun found => ?_
  split
  · exact (PrefixFree.throw _).bind fun _ => prefixFree_readBody
  · exact prefixFree_readBody

/-- No class file is the start of another one.  Where bytes follow a class file, their number is
reported; where some are missing at its end, the input ends too early. -/
theorem parse_prefixFree {bytes : List UInt8} {f : ClassFile} (h : ClassFile.parse bytes = .ok f) :
    (∀ more, more ≠ [] →
      ClassFile.parse (bytes ++ more) = .error (.trailingBytes more.length)) ∧
    ∀ front, front <+: bytes → front ≠ bytes → ClassFile.parse front = .error .unexpectedEnd :=
  prefixFree_read.whole h

/-- A class with a number of eight bytes among its constants, and with an attribute of unknown name. -/
def wideConstantFile : List UInt8 :=
  [0xCA, 0xFE, 0xBA, 0xBE, 0, 0, 0, 52, 0, 6, 1, 0, 1, 65, 7, 0, 1, 5, 0, 0, 0, 0, 0, 0, 0, 7,
    1, 0, 1, 66, 0, 33, 0, 2, 0, 0, 0, 0, 0, 0, 0, 0, 0, 1, 0, 5, 0, 0, 0, 2, 0xFF, 0xFF]

/-- The class file cut inside its attribute, and with three bytes after it. -/
theorem wideConstantFile_cut_and_extended :
    (∃ f, ClassFile.parse wideConstantFile = .ok f) ∧
      ClassFile.parse (wideConstantFile ++ [0, 0, 0]) = .error (.trailingBytes 3) ∧
      ClassFile.parse (wideConstantFile.take 51) = .error .unexpectedEnd := by
  have hparse : ∃ f, ClassFile.parse wideConstantFile = .ok f := ⟨_, rfl⟩
  obtain ⟨f, hf⟩ := hparse
  obtain ⟨hmore, hcut⟩ := parse_prefixFree hf
  exact ⟨⟨f, hf⟩, hmore [0, 0, 0] (by decide), hcut _ (List.take_prefix 51 _) (by decide)⟩

end JavaSema.ClassFile
