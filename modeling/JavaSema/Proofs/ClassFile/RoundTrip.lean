import JavaSema.Proofs.ClassFile.Layout

/-!
# Reading inverts writing

What is read from the bytes of a class file is what the class file says, whatever constants, members
and attributes it has, as long as each text constant is one of Unicode text.

There are four groups.

* Readers.  `Reads r bs a` says that a reader takes just `bytes` off the front of any input, and
  `Refuses` that it stops there with an error.  Both compose along a sequence of readers.
* The pool.  Each slot is read as the view of the constant in it, so that references find what they
  denote.
* Attributes, members and the class, part by part in the order of the bytes.
* The round trip.
-/

namespace JavaSema.ClassFile

open Text PoolLayout

/-! ## Readers -/

namespace Reader

variable {α β : Type}

/-- The reader takes just the bytes off the front and gives the value. -/
def Reads (r : Reader α) (bytes : List UInt8) (a : α) : Prop :=
  ∀ rest, r.run (bytes ++ rest) = .ok (a, rest)

/-- The reader stops with the error at the bytes, whatever follows them. -/
def Refuses (r : Reader α) (bytes : List UInt8) (e : Error) : Prop :=
  ∀ rest, r.run (bytes ++ rest) = .error e

theorem reads_pure (a : α) : Reads (pure a) [] a := fun _ => rfl

theorem Reads.bind {r : Reader α} {k : α → Reader β} {bs cs : List UInt8} {a : α} {b : β}
    (hr : Reads r bs a) (hk : Reads (k a) cs b) : Reads (r >>= k) (bs ++ cs) b := by
  intro rest
  rw [StateT.run_bind, List.append_assoc, hr (cs ++ rest)]
  exact hk rest

/-- The last step of a reader, if it takes no more bytes. -/
theorem Reads.bind_nil {r : Reader α} {k : α → Reader β} {bs : List UInt8} {a : α} {b : β}
    (hr : Reads r bs a) (hk : Reads (k a) [] b) : Reads (r >>= k) bs b := by
  have h := hr.bind hk
  rwa [List.append_nil] at h

theorem Reads.map {r : Reader α} {f : α → β} {bs : List UInt8} {a : α} (hr : Reads r bs a) :
    Reads (r >>= fun x => pure (f x)) bs (f a) :=
  hr.bind_nil (k := fun x => pure (f x)) (reads_pure (f a))

theorem Reads.refuses {r : Reader α} {k : α → Reader β} {bs cs : List UInt8} {a : α} {e : Error}
    (hr : Reads r bs a) (hk : Refuses (k a) cs e) : Refuses (r >>= k) (bs ++ cs) e := by
  intro rest
  rw [StateT.run_bind, List.append_assoc, hr (cs ++ rest)]
  exact hk rest

theorem Refuses.bind {r : Reader α} {bs : List UInt8} {e : Error} (hr : Refuses r bs e)
    (k : α → Reader β) : Refuses (r >>= k) bs e := by
  intro rest
  rw [StateT.run_bind, hr rest]
  rfl

theorem Refuses.append {r : Reader α} {bs : List UInt8} {e : Error} (hr : Refuses r bs e)
    (cs : List UInt8) : Refuses r (bs ++ cs) e := by
  intro rest
  rw [List.append_assoc]
  exact hr (cs ++ rest)

theorem reads_u1 (b : UInt8) : Reads u1 [b] b := fun _ => rfl

theorem reads_u2 (n : UInt16) : Reads u2 (bytes2 n) n := by
  have hn := n.toNat_lt
  have hhigh : (UInt8.ofNat (n.toNat / 0x100)).toNat = n.toNat / 0x100 :=
    toNat_ofNat_byte (by omega)
  have hlow : (UInt8.ofNat (n.toNat % 0x100)).toNat = n.toNat % 0x100 :=
    toNat_ofNat_byte (by omega)
  have hsum : UInt16.ofNat (n.toNat / 0x100 * 0x100 + n.toNat % 0x100) = n := by
    rw [Nat.div_add_mod']
    simp
  have h := (reads_u1 (UInt8.ofNat (n.toNat / 0x100))).bind
    (k := fun a => u1 >>= fun b => pure (UInt16.ofNat (a.toNat * 0x100 + b.toNat)))
    (reads_u1 (UInt8.ofNat (n.toNat % 0x100))).map
  rwa [hhigh, hlow, hsum] at h

theorem reads_u4_pair (a b : UInt16) :
    Reads u4 (bytes2 a ++ bytes2 b) (UInt32.ofNat (a.toNat * 0x10000 + b.toNat)) := by
  have h := (reads_u2 b).map (f := fun b => UInt32.ofNat (a.toNat * 0x10000 + b.toNat))
  exact (reads_u2 a).bind h

theorem reads_u4 (n : UInt32) : Reads u4 (bytes4 n) n := by
  have hn := n.toNat_lt
  have hhigh : (UInt16.ofNat (n.toNat / 0x10000)).toNat = n.toNat / 0x10000 := by
    simp
    omega
  have hlow : (UInt16.ofNat (n.toNat % 0x10000)).toNat = n.toNat % 0x10000 := by
    simp
  have hsum : UInt32.ofNat (n.toNat / 0x10000 * 0x10000 + n.toNat % 0x10000) = n := by
    rw [Nat.div_add_mod']
    simp
  have h := reads_u4_pair (UInt16.ofNat (n.toNat / 0x10000)) (UInt16.ofNat (n.toNat % 0x10000))
  rwa [hhigh, hlow, hsum] at h

theorem splitExactly?_append (bs rest : List UInt8) :
    splitExactly? bs.length (bs ++ rest) = some (bs, rest) := by
  induction bs with
  | nil => rfl
  | cons b bs ih => simp [splitExactly?, ih]

theorem toNat_ofNat_length {bs : List UInt8} (h : bs.length < 0x10000) :
    (UInt16.ofNat bs.length).toNat = bs.length := by
  simp
  omega

theorem reads_bytes (bs : List UInt8) : Reads (bytes bs.length) bs bs := by
  intro rest
  show bytes bs.length (bs ++ rest) = .ok (bs, rest)
  rw [bytes, splitExactly?_append]

theorem reads_times {γ : Type} {entry : Reader β} {encode : γ → List UInt8} {content : γ → β}
    (xs : List γ) (h : ∀ x ∈ xs, Reads entry (encode x) (content x)) :
    Reads (times entry xs.length) (xs.flatMap encode) (xs.map content) := by
  induction xs with
  | nil => exact reads_pure []
  | cons x xs ih =>
    have hx := h x (List.mem_cons_self ..)
    have hxs := ih fun y hy => h y (List.mem_cons_of_mem _ hy)
    exact hx.bind hxs.map

theorem reads_table {γ : Type} {entry : Reader β} {encode : γ → List UInt8} {content : γ → β}
    (t : Table γ) (h : ∀ x, Reads entry (encode x) (content x)) :
    Reads (table entry) (t.encode encode) (t.entries.map content) := by
  have hlength : (UInt16.ofNat t.entries.length).toNat = t.entries.length := by
    have := t.fits
    simp
    omega
  apply (reads_u2 _).bind
  rw [hlength]
  exact reads_times t.entries fun x _ => h x

theorem Reads.whole {r : Reader α} {bs : List UInt8} {a : α} (h : Reads r bs a) :
    whole r bs = .ok a := by
  have hrun := h []
  rw [List.append_nil] at hrun
  rw [Reader.whole, hrun]
  rfl

theorem Refuses.whole {r : Reader α} {bs : List UInt8} {e : Error} (h : Refuses r bs e) :
    whole r bs = .error e := by
  have hrun := h []
  rw [List.append_nil] at hrun
  rw [Reader.whole, hrun]
  rfl

theorem reads_lift {x : Except Error α} {a : α} (h : x = .ok a) :
    Reads (liftM x : Reader α) [] a := by
  intro rest
  rw [h]
  rfl

theorem refuses_lift {x : Except Error α} {e : Error} (h : x = .error e) :
    Refuses (liftM x : Reader α) [] e := by
  intro rest
  rw [h]
  rfl

theorem reads_lookup {find : UInt16 → Except Error α} {index : UInt16} {a : α}
    (h : find index = .ok a) : Reads (lookup find) (bytes2 index) a := by
  exact (reads_u2 index).bind_nil (k := fun i => liftM (find i)) (reads_lift h)

end Reader

open Reader

/-! ## The pool -/

namespace PoolConstant

/-- What is kept of a constant. -/
def view : PoolConstant → Constant
  | text units => .utf8 (String.ofList ((decodeUtf16? (units.map UInt16.toNat)).getD []))
  | word _ _ => .numeric
  | wide _ _ _ => .wide
  | ofClass name => .ofClass name
  | ref _ _ => .ref
  | pair _ _ _ => .memberRef
  | methodHandle _ _ => .methodHandle

theorem view_text (s : String) : view (.text (utf16 s)) = .utf8 s := by
  have hunits : decodeUtf16? ((utf16 s).map UInt16.toNat) = some s.toList :=
    decodeUtf16?_eq_some_iff.mpr rfl
  rw [view, hunits]
  simp

end PoolConstant

/-- A constant takes one slot, and a wide number one more. -/
theorem PoolConstant.slots_cases (c : PoolConstant) :
    (c.slots = [some c] ∧ c.view ≠ .wide) ∨ (c.slots = [some c, none] ∧ c.view = .wide) := by
  cases c <;> simp [slots, view]

/-- What is kept of a slot. -/
def slotView (slot : Option PoolConstant) : Constant :=
  (slot.map PoolConstant.view).getD .unusable

theorem PoolConstant.reads_read {c : PoolConstant}
    (hfits : ∀ units, c = .text units → (modifiedUtf8 units).length < 0x10000)
    (htext : ∀ units, c = .text units → ∃ s, units = utf16 s) :
    Reads Constant.read c.encode c.view := by
  cases c with
  | text units =>
    obtain ⟨s, rfl⟩ := htext units rfl
    rw [view_text]
    apply (reads_u1 1).bind (k := Constant.readContent)
    apply (reads_u2 _).bind
    rw [toNat_ofNat_length (hfits _ rfl)]
    apply (reads_bytes _).bind_nil
    exact (reads_lift (decodeModifiedUtf8_modifiedUtf8 s)).map
  | word kind bits =>
    cases kind <;> exact (reads_u1 _).bind (k := Constant.readContent) (reads_u4 bits).map
  | wide kind high low =>
    cases kind <;>
      exact (reads_u1 _).bind (k := Constant.readContent) ((reads_u4 high).bind (reads_u4 low).map)
  | ofClass name => exact (reads_u1 7).bind (k := Constant.readContent) (reads_u2 name).map
  | ref kind index =>
    cases kind <;> exact (reads_u1 _).bind (k := Constant.readContent) (reads_u2 index).map
  | pair kind first second =>
    cases kind <;>
      exact (reads_u1 _).bind (k := Constant.readContent) (reads_u4_pair first second).map
  | methodHandle kind index =>
    exact (reads_u1 15).bind (k := Constant.readContent) ((reads_u1 kind).bind (reads_u2 index).map)

theorem readSlots_succ (n : Nat) :
    ConstantPool.readSlots (n + 1) = (do
      let c ← Constant.read
      if c = .wide then return c :: .unusable :: (← ConstantPool.readSlots (n - 1))
      else return c :: (← ConstantPool.readSlots n)) := by
  cases n with
  | zero =>
    show (Constant.read >>= fun c => pure (if c = .wide then [c, .unusable] else [c])) = _
    apply bind_congr
    intro c
    split <;> rfl
  | succ n => rfl

theorem PoolConstant.refuses_read {units : List UInt16}
    (hfits : (modifiedUtf8 units).length < 0x10000) (htext : ∀ s, units ≠ utf16 s) :
    Refuses Constant.read (PoolConstant.text units).encode .invalidModifiedUtf8 := by
  apply (reads_u1 1).refuses (k := Constant.readContent)
  apply (reads_u2 _).refuses
  rw [toNat_ofNat_length hfits]
  have hdecode := (refuses_lift (decodeModifiedUtf8_error htext)).bind fun s =>
    pure (Constant.utf8 s)
  have h := (reads_bytes (modifiedUtf8 units)).refuses (k := fun bytes =>
    liftM (decodeModifiedUtf8 bytes) >>= fun s => pure (Constant.utf8 s)) hdecode
  rwa [List.append_nil] at h

theorem reads_slots {cs : List PoolConstant}
    (hfits : ∀ units, .text units ∈ cs → (modifiedUtf8 units).length < 0x10000)
    (htext : ∀ units, .text units ∈ cs → ∃ s, units = utf16 s) :
    Reads (ConstantPool.readSlots (cs.flatMap PoolConstant.slots).length)
      (cs.flatMap PoolConstant.encode) ((cs.flatMap PoolConstant.slots).map slotView) := by
  induction cs with
  | nil => exact reads_pure []
  | cons c cs ih =>
    have hc : Reads Constant.read c.encode c.view := by
      apply PoolConstant.reads_read
      · rintro units rfl
        exact hfits units (List.mem_cons_self ..)
      · rintro units rfl
        exact htext units (List.mem_cons_self ..)
    have hcs := ih (fun units h => hfits units (List.mem_cons_of_mem _ h))
      (fun units h => htext units (List.mem_cons_of_mem _ h))
    rw [List.flatMap_cons, List.flatMap_cons, List.length_append, List.map_append]
    rcases PoolConstant.slots_cases c with ⟨hslots, hview⟩ | ⟨hslots, hview⟩
    · rw [hslots, List.length_singleton, Nat.add_comm, readSlots_succ]
      apply hc.bind
      rw [if_neg hview]
      exact hcs.map
    · rw [hslots, List.length_cons, List.length_singleton, Nat.add_comm, readSlots_succ]
      apply hc.bind
      rw [if_pos hview]
      exact hcs.map

theorem refuses_slots {cs : List PoolConstant}
    (hfits : ∀ units, .text units ∈ cs → (modifiedUtf8 units).length < 0x10000)
    (htext : ¬ ∀ units, .text units ∈ cs → ∃ s, units = utf16 s) :
    Refuses (ConstantPool.readSlots (cs.flatMap PoolConstant.slots).length)
      (cs.flatMap PoolConstant.encode) .invalidModifiedUtf8 := by
  induction cs with
  | nil => simp at htext
  | cons c cs ih =>
    have hfits' : ∀ units, .text units ∈ cs → (modifiedUtf8 units).length < 0x10000 :=
      fun units h => hfits units (List.mem_cons_of_mem _ h)
    rw [List.flatMap_cons, List.flatMap_cons, List.length_append]
    by_cases hhead : ∀ units, c = .text units → ∃ s, units = utf16 s
    · have hc : Reads Constant.read c.encode c.view := by
        apply PoolConstant.reads_read _ hhead
        rintro units rfl
        exact hfits units (List.mem_cons_self ..)
      have hcs := ih hfits' (by
        intro hall
        apply htext
        intro units hmem
        rcases List.mem_cons.mp hmem with h | h
        · exact hhead units h.symm
        · exact hall units h)
      rcases PoolConstant.slots_cases c with ⟨hslots, hview⟩ | ⟨hslots, hview⟩
      · rw [hslots, List.length_singleton, Nat.add_comm, readSlots_succ]
        apply hc.refuses
        rw [if_neg hview]
        exact hcs.bind _
      · rw [hslots, List.length_cons, List.length_singleton, Nat.add_comm, readSlots_succ]
        apply hc.refuses
        rw [if_pos hview]
        exact hcs.bind _
    · obtain ⟨units, rfl, hnone⟩ : ∃ units, c = .text units ∧ ∀ s, units ≠ utf16 s := by
        simpa using hhead
      have hc := PoolConstant.refuses_read (hfits units (List.mem_cons_self ..)) hnone
      have hslots : (PoolConstant.text units).slots.length = 1 := rfl
      rw [hslots, Nat.add_comm, readSlots_succ]
      exact (hc.bind _).append _

namespace PoolLayout

variable {pool : PoolLayout}

/-- What is kept of the pool. -/
def view (pool : PoolLayout) : ConstantPool := ⟨(pool.slots.map slotView).toArray⟩

theorem toNat_length_slots (pool : PoolLayout) :
    (UInt16.ofNat pool.slots.length).toNat = pool.slots.length := by
  have hfits : pool.slots.length < 0x10000 := pool.fits
  rw [UInt16.toNat_ofNat']
  omega

theorem reads_view (htexts : pool.WellFormedTexts) :
    Reads ConstantPool.read pool.encode pool.view := by
  apply (reads_u2 _).bind
  rw [toNat_length_slots]
  exact (reads_slots pool.textsFit htexts).map

theorem refuses_encode (htexts : ¬ pool.WellFormedTexts) :
    Refuses ConstantPool.read pool.encode .invalidModifiedUtf8 := by
  apply (reads_u2 _).refuses
  rw [toNat_length_slots]
  exact (refuses_slots pool.textsFit htexts).bind _

theorem get_view {index : UInt16} {c : PoolConstant} (h : pool.at? index = some c) :
    pool.view.get index = .ok c.view := by
  have hslot : pool.slots[index.toNat]? = some (some c) := by
    rwa [at?, Option.join_eq_some_iff] at h
  have hview : pool.view.slots[index.toNat]? = some c.view := by
    simp [view, hslot, slotView]
  rw [ConstantPool.get, hview]
  cases c <;> rfl

theorem TextRef.text_view (r : TextRef pool) : pool.view.text r.index = .ok r.text := by
  rw [ConstantPool.text, get_view r.found, PoolConstant.view_text]
  rfl

theorem ClassRef.className_view (r : ClassRef pool) :
    pool.view.className r.index = .ok r.name.text := by
  rw [ConstantPool.className, get_view r.found]
  exact r.name.text_view

/-- Nothing stands at index 0, so that it can stand for nothing. -/
theorem ne_zero_of_at? {index : UInt16} {c : PoolConstant} (h : pool.at? index = some c) :
    index ≠ 0 := by
  rintro rfl
  simp [at?, slots] at h

theorem TextRef.reads (r : TextRef pool) : Reads (lookup pool.view.text) (bytes2 r.index) r.text :=
  reads_lookup r.text_view

theorem ClassRef.reads (r : ClassRef pool) :
    Reads (lookup pool.view.className) (bytes2 r.index) r.name.text :=
  reads_lookup r.className_view

end PoolLayout

theorem reads_optional {α β : Type} {find : UInt16 → Except Error β} {index : α → UInt16}
    {value : α → β} (hfind : ∀ r, find (index r) = .ok (value r)) (hindex : ∀ r, index r ≠ 0)
    (o : Option α) :
    Reads (lookup (ConstantPool.optional · find)) (encodeOptional index o) (o.map value) := by
  apply reads_lookup
  cases o with
  | none => rfl
  | some r =>
    show ConstantPool.optional (index r) find = .ok (some (value r))
    rw [ConstantPool.optional, if_neg (hindex r), hfind]
    rfl

/-! ## Attributes, members and the class -/

variable {pool : PoolLayout}

theorem InnerClassLayout.reads (i : InnerClassLayout pool) :
    Reads (InnerClass.read pool.view) i.encode i.content := by
  have houter := reads_optional (fun r => r.className_view)
    (fun r : ClassRef pool => ne_zero_of_at? r.found) i.outer
  have hname := reads_optional (fun r => r.text_view)
    (fun r : TextRef pool => ne_zero_of_at? r.found) i.name
  simp only [encode, List.append_assoc]
  exact i.inner.reads.bind (houter.bind (hname.bind (reads_u2 i.flags).map))

theorem InnerClassLayout.length_encode (i : InnerClassLayout pool) : i.encode.length = 8 := by
  simp [encode, encodeOptional, bytes2]

namespace AttributeLayout

variable {onClass : Bool}

/-- How the attribute is read. -/
def view : AttributeLayout pool onClass → Attribute
  | signature _ text _ => .signature text.text
  | innerClasses _ entries _ _ => .innerClasses (entries.entries.map InnerClassLayout.content)
  | other _ _ _ _ _ => .skipped

theorem length_body_lt (a : AttributeLayout pool onClass) : a.body.length < 0x100000000 := by
  cases a with
  | signature name text named => simp [body, bytes2]
  | innerClasses name entries named placed =>
    have hlength := entries.fits
    have hentries : (entries.entries.flatMap InnerClassLayout.encode).length
        = 8 * entries.entries.length := by
      simp [List.length_flatMap, InnerClassLayout.length_encode, List.map_const', Nat.mul_comm]
    simp only [body, Table.encode, List.length_append, hentries, bytes2, List.length_cons,
      List.length_nil]
    omega
  | other name bytes fits named placed => exact fits

theorem readContent_eq {α : Type} {r : Reader α} {bs : List UInt8} {a : α} (h : Reads r bs a)
    (name : String) : Attribute.readContent name r bs = .ok a := by
  have hrun := h []
  rw [List.append_nil] at hrun
  rw [Attribute.readContent, hrun]
  rfl

theorem interpret_body (a : AttributeLayout pool onClass) :
    Attribute.interpret pool.view onClass a.name.text a.body = .ok a.view := by
  cases a with
  | signature name text named =>
    simp only [AttributeLayout.name, body, named, Attribute.interpret]
    rw [readContent_eq text.reads]
    rfl
  | innerClasses name entries named placed =>
    simp only [AttributeLayout.name, body, named, placed, Attribute.interpret]
    rw [readContent_eq (reads_table entries InnerClassLayout.reads)]
    rfl
  | other name bytes fits named placed =>
    have hinner : (name.text == "InnerClasses" && onClass) = false := by
      cases onClass with
      | false => simp
      | true => simpa using placed rfl
    simp [AttributeLayout.name, Attribute.interpret, named, hinner]
    rfl

theorem reads (a : AttributeLayout pool onClass) :
    Reads (Attribute.read pool.view onClass) a.encode a.view := by
  have hlength : (UInt32.ofNat a.body.length).toNat = a.body.length := by
    have := a.length_body_lt
    simp
    omega
  simp only [encode, List.append_assoc]
  apply a.name.reads.bind
  apply (reads_u4 _).bind
  rw [hlength]
  exact (reads_bytes a.body).bind_nil (reads_lift a.interpret_body)

theorem lastSignature_view (as : List (AttributeLayout pool onClass)) :
    Attribute.lastSignature (as.map view) = lastSignature? as := by
  rw [Attribute.lastSignature, lastSignature?, List.getLast?_filterMap, ← List.map_reverse,
    List.findSome?_map]
  congr
  funext a
  cases a <;> rfl

theorem allInnerClasses_view (as : List (AttributeLayout pool onClass)) :
    Attribute.allInnerClasses (as.map view) = as.flatMap entries := by
  rw [Attribute.allInnerClasses, List.flatMap_map]
  congr
  funext a
  cases a <;> rfl

end AttributeLayout

theorem MemberLayout.reads (m : MemberLayout pool) :
    Reads (Member.read pool.view) m.encode m.content := by
  have hattributes := (reads_table m.attributes AttributeLayout.reads).map (f := fun as =>
    ({ flags := m.flags, name := m.name.text, descriptor := m.descriptor.text,
       signature := Attribute.lastSignature as } : Member))
  rw [AttributeLayout.lastSignature_view] at hattributes
  simp only [encode, List.append_assoc]
  exact (reads_u2 m.flags).bind (m.name.reads.bind (m.descriptor.reads.bind hattributes))

namespace ClassLayout

theorem reads_body (f : ClassLayout) (htexts : f.pool.WellFormedTexts) :
    Reads readBody (f.encodeVersion ++ f.pool.encode ++ f.encodeClass) f.content := by
  have hsuper := reads_optional (fun r => r.className_view)
    (fun r : ClassRef f.pool => ne_zero_of_at? r.found) f.superclass
  have hinterfaces := reads_table f.interfaces fun r => r.reads
  have hfields := reads_table f.fields MemberLayout.reads
  have hmethods := reads_table f.methods MemberLayout.reads
  have hattributes := reads_table f.attributes AttributeLayout.reads
  simp only [encodeVersion, encodeClass, List.append_assoc]
  apply (reads_u2 f.minor).bind
  apply (reads_u2 f.major).bind
  apply (reads_view htexts).bind
  apply (reads_u2 f.flags).bind
  apply f.name.reads.bind
  apply hsuper.bind
  apply hinterfaces.bind
  apply hfields.bind
  apply hmethods.bind
  apply hattributes.bind_nil
  rw [AttributeLayout.lastSignature_view, AttributeLayout.allInnerClasses_view]
  exact reads_pure f.content

theorem refuses_body (f : ClassLayout) (htexts : ¬ f.pool.WellFormedTexts) :
    Refuses readBody (f.encodeVersion ++ f.pool.encode ++ f.encodeClass) .invalidModifiedUtf8 := by
  apply Refuses.append
  simp only [encodeVersion, List.append_assoc]
  apply (reads_u2 f.minor).refuses
  apply (reads_u2 f.major).refuses
  exact (refuses_encode htexts).bind _

/-- The magic number is taken off first. -/
theorem parse_encode_eq (f : ClassLayout) :
    ClassFile.parse f.encode
      = whole readBody (f.encodeVersion ++ f.pool.encode ++ f.encodeClass) := by
  have hread : ClassFile.read.run f.encode
      = readBody.run (f.encodeVersion ++ f.pool.encode ++ f.encodeClass) := by
    rw [ClassFile.read, StateT.run_bind, encode, reads_u4 magic]
    simp [bind, Except.bind]
  rw [ClassFile.parse, whole, hread, whole]

end ClassLayout

/-! ## The round trip -/

/-- If no text constant has a half of a surrogate pair alone, what is read from the bytes of a class
file is what the class file says; any other class file is refused. -/
theorem parse_encode (f : ClassLayout) :
    (f.pool.WellFormedTexts → ClassFile.parse f.encode = .ok f.content) ∧
      (¬ f.pool.WellFormedTexts → ClassFile.parse f.encode = .error .invalidModifiedUtf8) := by
  constructor
  · intro htexts
    rw [f.parse_encode_eq]
    exact (f.reads_body htexts).whole
  · intro htexts
    rw [f.parse_encode_eq]
    exact (f.refuses_body htexts).whole

/-- A pool with a wide number before other constants and with a character outside the basic plane. -/
def mixedPool : PoolLayout where
  constants :=
    [.text (utf16 "p/A"), .ofClass 1, .wide .long 0 7, .text (utf16 "p/A$B"), .ofClass 5,
      .text (utf16 "Signature"), .text (utf16 "InnerClasses"), .text (utf16 "m"),
      .text (utf16 "()V"), .text (utf16 "<T:𝄞>()V"), .methodHandle 6 3, .pair .nameAndType 9 10]
  fits := by decide
  textsFit := by
    intro units hunits
    simp only [List.mem_cons, PoolConstant.text.injEq, List.not_mem_nil, or_false, reduceCtorEq,
      false_or] at hunits
    rcases hunits with rfl | rfl | rfl | rfl | rfl | rfl | rfl <;> decide

/-- A class with a nested class and a method with two signatures, between which stands an attribute
whose content looks like no attribute. -/
def mixedLayout : ClassLayout :=
  let outer : ClassRef mixedPool := ⟨2, ⟨1, "p/A", rfl⟩, rfl⟩
  let signature : TextRef mixedPool := ⟨7, "Signature", rfl⟩
  { minor := 0
    major := 52
    pool := mixedPool
    flags := 0x0021
    name := outer
    superclass := none
    interfaces := ⟨[], by decide⟩
    fields := ⟨[], by decide⟩
    methods := ⟨[{
      flags := 0x0001
      name := ⟨9, "m", rfl⟩
      descriptor := ⟨10, "()V", rfl⟩
      attributes := ⟨[
        .signature signature ⟨10, "()V", rfl⟩ rfl,
        .other ⟨8, "InnerClasses", rfl⟩ [0xFF, 0xFF, 0xFF] (by decide) (by decide) nofun,
        .signature signature ⟨11, "<T:𝄞>()V", rfl⟩ rfl], by decide⟩ }], by decide⟩
    attributes := ⟨[
      .innerClasses ⟨8, "InnerClasses", rfl⟩
        ⟨[⟨⟨6, ⟨5, "p/A$B", rfl⟩, rfl⟩, some outer, none, 0x0008⟩], by decide⟩ rfl rfl],
      by decide⟩ }

theorem mixedLayout_content :
    mixedLayout.pool.WellFormedTexts ∧ ClassFile.parse mixedLayout.encode = .ok {
      minor := 0, major := 52, flags := 0x0021, name := "p/A", superclass := none
      interfaces := [], fields := []
      methods := [⟨0x0001, "m", "()V", some "<T:𝄞>()V"⟩]
      signature := none
      innerClasses := [⟨"p/A$B", some "p/A", none, 0x0008⟩] } := by
  have htexts : mixedLayout.pool.WellFormedTexts := by
    intro units hunits
    simp only [mixedLayout, mixedPool, List.mem_cons, PoolConstant.text.injEq, List.not_mem_nil,
      or_false, reduceCtorEq, false_or] at hunits
    rcases hunits with rfl | rfl | rfl | rfl | rfl | rfl | rfl <;> exact ⟨_, rfl⟩
  exact ⟨htexts, (parse_encode mixedLayout).1 htexts⟩

/-- A class with a text constant that no part refers to: a half of a surrogate pair alone, as the
literal of such a string leaves one. -/
def loneSurrogate : ClassLayout :=
  let pool : PoolLayout := {
    constants := [.text (utf16 "A"), .ofClass 1, .text [0xD800]]
    fits := by decide
    textsFit := by
      intro units hunits
      simp only [List.mem_cons, PoolConstant.text.injEq, List.not_mem_nil, or_false, reduceCtorEq,
        false_or] at hunits
      rcases hunits with rfl | rfl <;> decide }
  { minor := 0
    major := 52
    pool
    flags := 0x0021
    name := ⟨2, ⟨1, "A", rfl⟩, rfl⟩
    superclass := none
    interfaces := ⟨[], by decide⟩
    fields := ⟨[], by decide⟩
    methods := ⟨[], by decide⟩
    attributes := ⟨[], by decide⟩ }

theorem loneSurrogate_refused :
    ClassFile.parse loneSurrogate.encode = .error .invalidModifiedUtf8 ∧
      ¬ ∀ f : ClassLayout, ClassFile.parse f.encode = .ok f.content := by
  have hunits : ∀ s, ([0xD800] : List UInt16) ≠ utf16 s := by
    intro s hs
    have hsome := decodeUtf16?_eq_some_iff.mpr hs
    simp [decodeUtf16?, isSurrogate] at hsome
  have hrefused : ClassFile.parse loneSurrogate.encode = .error .invalidModifiedUtf8 := by
    rw [loneSurrogate.parse_encode_eq]
    apply (loneSurrogate.refuses_body _).whole
    intro htexts
    obtain ⟨s, hs⟩ := htexts [0xD800] (by simp [loneSurrogate])
    exact hunits s hs
  refine ⟨hrefused, fun hall => ?_⟩
  have hok := hall loneSurrogate
  rw [hrefused] at hok
  cases hok

end JavaSema.ClassFile
