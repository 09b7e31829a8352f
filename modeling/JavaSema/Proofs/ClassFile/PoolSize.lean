import JavaSema.Proofs.ClassFile.PrefixFree
import JavaSema.Proofs.Text

/-!
# The size of constant pools

A constant pool declares the number of its slots and is read one constant at a time, as long as fewer
slots are filled.  A wide number fills two slots, but only the first one is asked for.  So the pool has
the declared number of slots unless a wide number stands in the last of them.  Then it has one slot
more, and no such number is refused.

There are three groups.

* Slots.  `Fills n slots` is the form of what is read for `n` slots, with the one way to fill too many
  as a constructor of its own.  `Fills.size_cases` and `Fills.unusable_iff` read the number of slots
  and the unusable ones off it.
* Readers.  `fills_of_readSlots` says that just such slots are read, and `readSlots_add` that reading
  goes on behind slots that are filled.
* Pools.
-/

namespace JavaSema.ClassFile

/-! ## Slots -/

/-- What constants give when they are read for so many slots. -/
inductive Fills : Nat → List Constant → Prop where
  | nil : Fills 0 []
  | narrow {c : Constant} {n : Nat} {slots : List Constant} (usable : c ≠ .unusable)
      (narrow : c ≠ .wide) (rest : Fills n slots) : Fills (n + 1) (c :: slots)
  | wide {n : Nat} {slots : List Constant} (rest : Fills n slots) :
      Fills (n + 2) (.wide :: .unusable :: slots)
  /-- A wide number in the last slot fills one slot too many. -/
  | overrun : Fills 1 [.wide, .unusable]

namespace Fills

variable {n : Nat} {slots : List Constant}

/-- Behind any slot that is not wide: one slot too many is filled exactly if the last one that was
asked for is wide. -/
theorem size_cases (h : Fills n slots) (before : Constant) (hbefore : before ≠ .wide) :
    (slots.length = n ∧ (before :: slots)[n]? ≠ some .wide) ∨
      (slots.length = n + 1 ∧ (before :: slots)[n]? = some .wide) := by
  induction h generalizing before with
  | nil => exact .inl ⟨rfl, by simpa using hbefore⟩
  | narrow _ narrow _ ih =>
    rcases ih _ narrow with ⟨hlength, hlast⟩ | ⟨hlength, hlast⟩
    · exact .inl ⟨by rw [List.length_cons, hlength], hlast⟩
    · exact .inr ⟨by rw [List.length_cons, hlength], hlast⟩
  | wide _ ih =>
    rcases ih .unusable (by decide) with ⟨hlength, hlast⟩ | ⟨hlength, hlast⟩
    · exact .inl ⟨by rw [List.length_cons, List.length_cons, hlength], hlast⟩
    · exact .inr ⟨by rw [List.length_cons, List.length_cons, hlength], hlast⟩
  | overrun => exact .inr ⟨rfl, rfl⟩

/-- Behind any slot that is not wide: the unusable slots are those behind the wide ones. -/
theorem unusable_iff (h : Fills n slots) (before : Constant) (hbefore : before ≠ .wide) (i : Nat) :
    (before :: slots)[i + 1]? = some .unusable ↔ (before :: slots)[i]? = some .wide := by
  induction h generalizing before i with
  | nil => cases i <;> simp [hbefore]
  | narrow usable narrow _ ih =>
    cases i with
    | zero => simp [usable, hbefore]
    | succ i => exact ih _ narrow i
  | wide _ ih =>
    match i with
    | 0 => simp [hbefore]
    | 1 => simp
    | i + 2 => exact ih .unusable (by decide) i
  | overrun =>
    match i with
    | 0 => simp [hbefore]
    | 1 => simp
    | i + 2 => cases i <;> simp

end Fills

/-! ## Readers -/

namespace Reader

variable {α β : Type} {p : α → Prop}

/-- All that the reader gives has the property. -/
def Gives (r : Reader α) (p : α → Prop) : Prop :=
  ∀ bs a rest, r.run bs = .ok (a, rest) → p a

theorem gives_pure {a : α} (h : p a) : Gives (pure a) p := by
  rintro bs _ rest ⟨⟩
  exact h

theorem Gives.bind {r : Reader β} {k : β → Reader α} (h : ∀ b, Gives (k b) p) :
    Gives (r >>= k) p := by
  intro bs a rest hrun
  rw [StateT.run_bind] at hrun
  obtain ⟨⟨b, mid⟩, -, hk⟩ := Text.ok_of_bind hrun
  exact h b mid a rest hk

end Reader

open Reader

/-- No constant is read as an unusable slot. -/
theorem Constant.gives_read : Gives read (· ≠ .unusable) := by
  refine .bind fun tag => ?_
  unfold readContent
  split
  case h_1 => exact .bind fun _ => .bind fun _ => .bind fun _ => gives_pure nofun
  case h_4 | h_5 | h_17 => exact .bind fun _ => .bind fun _ => gives_pure nofun
  case h_18 => exact nofun
  all_goals exact .bind fun _ => gives_pure nofun

namespace ConstantPool

/-- What is read for so many slots fills them. -/
theorem fills_of_readSlots {n : Nat} {bs rest : List UInt8} {slots : List Constant}
    (h : (readSlots n).run bs = .ok (slots, rest)) : Fills n slots := by
  induction n using Nat.strongRecOn generalizing bs slots with
  | ind n ih =>
    cases n with
    | zero =>
      cases h
      exact .nil
    | succ n =>
      rw [readSlots_succ, StateT.run_bind] at h
      obtain ⟨⟨c, mid⟩, hc, h⟩ := Text.ok_of_bind h
      split at h
      · next hwide =>
        rw [StateT.run_bind] at h
        obtain ⟨⟨l, rest'⟩, hl, h⟩ := Text.ok_of_bind h
        cases h
        subst hwide
        cases n with
        | zero =>
          cases hl
          exact .overrun
        | succ n => exact .wide (ih n (by omega) hl)
      · next hwide =>
        rw [StateT.run_bind] at h
        obtain ⟨⟨l, rest'⟩, hl, h⟩ := Text.ok_of_bind h
        cases h
        exact .narrow (Constant.gives_read bs c mid hc) hwide (ih n (by omega) hl)

/-- Slots are read in two parts, of which the second one asks for those that the first one has left. -/
theorem readSlots_add (n m : Nat) :
    readSlots (n + m) = (do
      let front ← readSlots n
      return front ++ (← readSlots (n + m - front.length))) := by
  induction n using Nat.strongRecOn generalizing m with
  | ind n ih =>
    cases n with
    | zero => simp [readSlots]
    | succ n =>
      rw [Nat.succ_add, readSlots_succ, readSlots_succ, bind_assoc]
      apply bind_congr
      intro c
      split
      · cases n with
        | zero => simp [readSlots]
        | succ n =>
          have hrest : n + 1 + m - 1 = n + m := by omega
          rw [hrest, Nat.add_sub_cancel, ih n (by omega)]
          simp only [bind_assoc, pure_bind, List.cons_append, List.length_cons]
          apply bind_congr
          intro front
          have hleft : n + 1 + m + 1 - (front.length + 1 + 1) = n + m - front.length := by omega
          rw [hleft]
      · rw [ih n (by omega)]
        simp

/-- A wide number is read into one more slot, although it fills two. -/
theorem reads_wide_last {n : Nat} {used : List UInt8} {slots : List Constant}
    (h : Reads (readSlots n) used slots) (hlength : slots.length = n) (kind : WideKind)
    (high low : UInt32) :
    Reads (readSlots (n + 1)) (used ++ (PoolConstant.wide kind high low).encode)
      (slots ++ [.wide, .unusable]) := by
  have hwide : Reads Constant.read (PoolConstant.wide kind high low).encode .wide :=
    PoolConstant.reads_read (fun _ h => nomatch h) (fun _ h => nomatch h)
  have hone : Reads (readSlots 1) (PoolConstant.wide kind high low).encode [.wide, .unusable] :=
    hwide.bind_nil (k := fun c : Constant => pure (if c = .wide then [c, .unusable] else [c]))
      (reads_pure _)
  rw [readSlots_add]
  apply h.bind
  rw [hlength, Nat.add_sub_cancel_left]
  exact hone.map

/-! ## Pools -/

/-- How the slots of a pool stand to the number that it declares. -/
structure FilledFor (count : Nat) (pool : ConstantPool) : Prop where
  /-- Nothing stands in the first slot. -/
  first : pool.slots[0]? = some .unusable
  /-- The other slots that hold nothing are those behind wide numbers. -/
  unusable_iff : ∀ i, pool.slots[i + 1]? = some .unusable ↔ pool.slots[i]? = some .wide
  /-- There are as many slots as declared exactly if the last one of these is not wide. -/
  size_eq_iff : pool.slots.size = count ↔ pool.slots[count - 1]? ≠ some .wide
  /-- If it is wide, there is one slot more. -/
  size_of_wide : pool.slots[count - 1]? = some .wide → pool.slots.size = count + 1

theorem filledFor_of_fills {n : Nat} {slots : List Constant} (h : Fills n slots) :
    FilledFor (n + 1) ⟨(.unusable :: slots).toArray⟩ := by
  have hsize := h.size_cases .unusable (by decide)
  refine ⟨rfl, fun i => ?_, ?_, fun hwide => ?_⟩
  · simpa only [List.getElem?_toArray] using h.unusable_iff .unusable (by decide) i
  · simp only [List.getElem?_toArray, List.size_toArray, List.length_cons, Nat.add_sub_cancel]
    rcases hsize with ⟨hlength, hlast⟩ | ⟨hlength, hlast⟩
    · exact iff_of_true (by rw [hlength]) hlast
    · exact iff_of_false (by omega) (fun h => h hlast)
  · simp only [List.getElem?_toArray, Nat.add_sub_cancel] at hwide
    rcases hsize with ⟨-, hlast⟩ | ⟨hlength, -⟩
    · exact absurd hwide hlast
    · simp [hlength]

/-- A pool has as many slots as it declares exactly if no wide number stands in the last of them, else
one more.  No pool is refused for that: where the slots are as many as declared, any wide number may
follow in one more slot, although its second slot is not declared. -/
theorem filledFor_declared {bytes body rest : List UInt8} {count : UInt16} {pool : ConstantPool}
    (hcount : u2.run bytes = .ok (count, body)) (hpos : 1 ≤ count.toNat)
    (h : ConstantPool.read.run bytes = .ok (pool, rest)) :
    pool.FilledFor count.toNat ∧
      ∃ used, body = used ++ rest ∧
        (pool.slots.size = count.toNat → count.toNat + 1 < 0x10000 → ∀ kind high low more,
          ConstantPool.read.run
              (bytes2 (count + 1) ++ used ++ (PoolConstant.wide kind high low).encode ++ more) =
            .ok (⟨pool.slots ++ #[.wide, .unusable]⟩, more)) := by
  rw [ConstantPool.read, StateT.run_bind, Text.bind_of_ok hcount] at h
  obtain ⟨⟨slots, rest'⟩, hslots, h⟩ := Text.ok_of_bind h
  cases h
  obtain ⟨used, rfl, hused⟩ := prefixFree_readSlots _ body slots rest hslots
  have hasked : count.toNat - 1 + 1 = count.toNat := Nat.sub_add_cancel hpos
  have hfilled := filledFor_of_fills (fills_of_readSlots hslots)
  rw [hasked] at hfilled
  refine ⟨hfilled, used, rfl, fun hsize hfits kind high low more => ?_⟩
  have hlength : slots.length = count.toNat - 1 := by
    rw [List.size_toArray, List.length_cons] at hsize
    omega
  have hnext : (count + 1).toNat = count.toNat + 1 := by
    rw [UInt16.toNat_add]
    exact Nat.mod_eq_of_lt hfits
  have hlast := reads_wide_last hused.reads hlength kind high low
  rw [hasked] at hlast
  have hread : Reads ConstantPool.read
      (bytes2 (count + 1) ++ (used ++ (PoolConstant.wide kind high low).encode))
      ⟨(.unusable :: (slots ++ [.wide, .unusable])).toArray⟩ := by
    apply (reads_u2 (count + 1)).bind
    rw [hnext, Nat.add_sub_cancel]
    exact hlast.map
  simpa using hread more

end ConstantPool

/-- A class file whose pool declares four slots, of which the last one holds a long number. -/
def longInLastSlot : List UInt8 :=
  [0xCA, 0xFE, 0xBA, 0xBE, 0, 0, 0, 52, 0, 4, 1, 0, 1, 65, 7, 0, 1, 5, 0, 0, 0, 0, 0, 0, 0, 7,
    0, 33, 0, 2, 0, 0, 0, 0, 0, 0, 0, 0, 0, 0]

theorem longInLastSlot_read :
    ConstantPool.read.run (longInLastSlot.drop 8) =
      .ok (⟨#[.unusable, .utf8 "A", .ofClass 1, .wide, .unusable]⟩, longInLastSlot.drop 26) := by
  rfl

/-- The pool of the file has a slot for the second half of the number, which it does not declare. -/
theorem longInLastSlot_filledFor :
    ∃ pool rest, u2.run (longInLastSlot.drop 8) = .ok (4, longInLastSlot.drop 10) ∧
      ConstantPool.read.run (longInLastSlot.drop 8) = .ok (pool, rest) ∧
      pool.FilledFor 4 ∧ pool.slots.size = 5 := by
  obtain ⟨hfilled, -⟩ := ConstantPool.filledFor_declared rfl (by decide) longInLastSlot_read
  exact ⟨_, _, rfl, longInLastSlot_read, hfilled, rfl⟩

/-- Not each pool has as many slots as it declares: a class file with such a pool is accepted. -/
theorem longInLastSlot_accepted :
    (∃ f, ClassFile.parse longInLastSlot = .ok f) ∧
      ¬ ∀ bytes body rest count pool, u2.run bytes = .ok (count, body) → 1 ≤ count.toNat →
        ConstantPool.read.run bytes = .ok (pool, rest) → pool.slots.size = count.toNat := by
  refine ⟨⟨_, rfl⟩, fun hsize => ?_⟩
  exact absurd (hsize _ _ _ 4 _ rfl (by decide) longInLastSlot_read) (by decide)

end JavaSema.ClassFile
