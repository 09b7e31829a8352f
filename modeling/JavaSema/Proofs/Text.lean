import JavaSema.Text.Split
import Mathlib.Data.List.Perm.Basic

/-!
# Texts

What the functions on texts do to texts that are put together.

There are four groups.

* Readers.  A reader in steps gives a result where each step does.
* Characters.  Replacing a character goes piece by piece.
* Pieces.  A text that is put together with a separator falls apart at it.
* Lists of texts in ascending order.
-/

namespace JavaSema.Text

/-! ## Readers -/

section Readers

variable {ε α β : Type} {r : Except ε α} {f : α → Except ε β}

/-- The second step reads on where the first one succeeded. -/
theorem bind_of_ok {a : α} (h : r = .ok a) : r >>= f = f a := by
  rw [h]
  rfl

/-- Both steps of a reader that succeeds succeed. -/
theorem ok_of_bind {b : β} (h : r >>= f = .ok b) : ∃ a, r = .ok a ∧ f a = .ok b := by
  cases r with
  | error e => cases h
  | ok a => exact ⟨a, rfl, h⟩

/-- A reader fails in one of its steps. -/
theorem error_of_bind {e : ε} (h : r >>= f = .error e) :
    r = .error e ∨ ∃ a, r = .ok a ∧ f a = .error e := by
  cases r with
  | error e' =>
    cases h
    exact .inl rfl
  | ok a => exact .inr ⟨a, rfl, h⟩

end Readers

/-! ## Characters -/

theorem replaceChar_append (old new : Char) (s t : String) :
    replaceChar old new (s ++ t) = replaceChar old new s ++ replaceChar old new t := by
  simp [replaceChar, String.ofList_append]

/-- A text without the character stays. -/
theorem replaceChar_of_notMem {old : Char} (new : Char) {s : String} (h : old ∉ s.toList) :
    replaceChar old new s = s := by
  rw [replaceChar]
  have hmap : s.toList.map (fun c => if c = old then new else c) = s.toList := by
    refine (List.map_congr_left fun c hc => if_neg ?_).trans (List.map_id _)
    rintro rfl
    exact h hc
  rw [hmap, String.ofList_toList]

theorem isEmpty_replaceChar (old new : Char) (s : String) :
    (replaceChar old new s).isEmpty = s.isEmpty := by
  rw [Bool.eq_iff_iff]
  simp [replaceChar]

theorem notMem_join {c : Char} {sep : String} (hsep : c ∉ sep.toList) {names : List String}
    (h : ∀ n ∈ names, c ∉ n.toList) : c ∉ (join sep names).toList := by
  induction names with
  | nil => simp
  | cons n names ih =>
    cases names with
    | nil => exact h n List.mem_cons_self
    | cons m names =>
      have hrest := ih fun k hk => h k (List.mem_cons_of_mem _ hk)
      simp [h n List.mem_cons_self, hsep, hrest]

/-! ## Pieces -/

theorem replaceChar_join (old new : Char) (sep : String) (names : List String) :
    replaceChar old new (join sep names)
      = join (replaceChar old new sep) (names.map (replaceChar old new)) := by
  induction names with
  | nil => simp [replaceChar]
  | cons n names ih =>
    cases names with
    | nil => rfl
    | cons m names =>
      rw [join_cons_cons, replaceChar_append, replaceChar_append, ih]
      rfl

theorem join_concat_append (sep : String) (names : List String) (last s : String) :
    join sep (names ++ [last]) ++ s = join sep (names ++ [last ++ s]) := by
  induction names with
  | nil => rfl
  | cons n names ih =>
    -- A name is followed by the separator if there are more.
    cases names with
    | nil => simp [String.append_assoc]
    | cons m names => simpa [String.append_assoc] using ih

/-- A text that is put together starts with the first piece. -/
theorem exists_toList_join_cons (sep first : String) (names : List String) :
    ∃ rest, (join sep (first :: names)).toList = first.toList ++ rest := by
  cases names with
  | nil => exact ⟨[], by simp⟩
  | cons n names => exact ⟨sep.toList ++ (join sep (n :: names)).toList, by simp⟩

/-- A text that is put together ends in the last piece. -/
theorem exists_toList_join_concat (sep last : String) (names : List String) :
    ∃ start, (join sep (names ++ [last])).toList = start ++ last.toList := by
  have hlast := join_concat_append sep names "" last
  rw [String.empty_append] at hlast
  exact ⟨(join sep (names ++ [""])).toList, by rw [← hlast, String.toList_append]⟩

theorem splitChars_ne_nil (sep : Char) (s : List Char) : splitChars sep s ≠ [] := by
  cases s with
  | nil => simp
  | cons c s =>
    rw [splitChars_cons]
    split
    · simp
    · split <;> simp

/-- A text falls apart at each separator. -/
theorem splitChars_append (sep : Char) (s t : List Char) :
    splitChars sep (s ++ sep :: t) = splitChars sep s ++ splitChars sep t := by
  induction s with
  | nil => simp [splitChars_cons]
  | cons c s ih =>
    rw [List.cons_append, splitChars_cons, splitChars_cons, ih]
    split
    · rfl
    · cases hpieces : splitChars sep s with
      | nil => exact absurd hpieces (splitChars_ne_nil sep s)
      | cons piece rest => rfl

/-- A text without the separator is one piece. -/
theorem splitChars_of_notMem {sep : Char} {s : List Char} (h : sep ∉ s) :
    splitChars sep s = [s] := by
  induction s with
  | nil => rfl
  | cons c s ih =>
    obtain ⟨hne, hrest⟩ := not_or.mp (List.mem_cons.not.mp h)
    rw [splitChars_cons, if_neg (Ne.symm hne), ih hrest]

/-- A path falls apart at each slash. -/
theorem split_slash_append (before after : String) :
    split '/' (before ++ "/" ++ after) = split '/' before ++ split '/' after := by
  simp [split, splitChars_append]

/-- Names that are put together with slashes are the pieces again. -/
theorem split_slash_join {names : List String} (hne : names ≠ [])
    (h : ∀ name ∈ names, '/' ∉ name.toList) : split '/' (join "/" names) = names := by
  induction names with
  | nil => contradiction
  | cons n names ih =>
    have hfirst : split '/' n = [n] := by simp [split, splitChars_of_notMem (h n List.mem_cons_self)]
    cases names with
    | nil => exact hfirst
    | cons m names =>
      have hrest := ih (List.cons_ne_nil _ _) fun name hname => h name (List.mem_cons_of_mem _ hname)
      rw [join_cons_cons, split_slash_append, hfirst, hrest]
      rfl

theorem notMem_of_mem_splitChars {sep : Char} {s piece : List Char} (h : piece ∈ splitChars sep s) :
    sep ∉ piece := by
  induction s generalizing piece with
  | nil => simp_all
  | cons c s ih =>
    rw [splitChars_cons] at h
    split at h
    · rcases List.mem_cons.mp h with rfl | h
      · exact List.not_mem_nil
      · exact ih h
    · rename_i hc
      cases hpieces : splitChars sep s with
      | nil => exact absurd hpieces (splitChars_ne_nil sep s)
      | cons first rest =>
        rw [hpieces] at h ih
        rcases List.mem_cons.mp h with rfl | h
        · exact List.mem_cons.not.mpr (not_or.mpr ⟨Ne.symm hc, ih List.mem_cons_self⟩)
        · exact ih (List.mem_cons_of_mem _ h)

theorem length_splitChars (sep : Char) (s : List Char) :
    (splitChars sep s).length = s.count sep + 1 := by
  induction s with
  | nil => rfl
  | cons c s ih =>
    rw [splitChars_cons]
    split
    · rename_i hc
      subst hc
      rw [List.length_cons, ih, List.count_cons_self]
    · rename_i hc
      rw [List.count_cons_of_ne hc]
      cases hpieces : splitChars sep s with
      | nil => exact absurd hpieces (splitChars_ne_nil sep s)
      | cons first rest => simpa [hpieces] using ih

/-- The pieces of a text put it together again. -/
theorem toList_join_split (sep : Char) (s : String) :
    (join (String.singleton sep) (split sep s)).toList = s.toList := by
  rw [split]
  generalize s.toList = cs
  induction cs with
  | nil => simp
  | cons c cs ih =>
    obtain ⟨first, rest, hpieces⟩ := List.exists_cons_of_ne_nil (splitChars_ne_nil sep cs)
    rw [splitChars_cons]
    rw [hpieces] at ih ⊢
    split
    · rename_i hc
      subst hc
      simpa using ih
    · cases rest with
      | nil => simpa using ih
      | cons second rest => simpa using ih

/-- What stands before and after the first separator. -/
theorem splitFirstChars?_eq_some {sep : Char} {s before after : List Char} :
    splitFirstChars? sep s = some (before, after) ↔ s = before ++ sep :: after ∧ sep ∉ before := by
  induction s generalizing before with
  | nil => simp [splitFirstChars?]
  | cons c s ih =>
    rw [splitFirstChars?]
    split
    · next hc =>
      subst hc
      cases before with
      | nil => simp [eq_comm]
      | cons d before => simp +contextual [eq_comm]
    · next hc =>
      rw [Option.map_eq_some_iff]
      constructor
      · rintro ⟨⟨front, back⟩, hs, hpair⟩
        obtain ⟨rfl, rfl⟩ := Prod.mk.inj hpair
        obtain ⟨rfl, hnot⟩ := ih.mp hs
        exact ⟨rfl, by simp [Ne.symm hc, hnot]⟩
      · rintro ⟨hs, hnot⟩
        cases before with
        | nil => exact absurd (List.cons.inj hs).1 hc
        | cons d before =>
          obtain ⟨rfl, rfl⟩ := List.cons.inj hs
          exact ⟨(before, after), ih.mpr ⟨rfl, fun h => hnot (List.mem_cons_of_mem _ h)⟩, rfl⟩

theorem stripStartChars?_eq_some {start s rest : List Char} :
    stripStartChars? start s = some rest ↔ s = start ++ rest := by
  fun_induction stripStartChars? start s with
  | case1 s => simp
  | case2 p ps => simp
  | case3 ps c s ih => simpa using ih
  | case4 p ps c s hne => simp [Ne.symm hne]

/-- What stands before the end of a text. -/
theorem stripEnd?_eq_some {stop s rest : String} :
    stripEnd? stop s = some rest ↔ s = rest ++ stop := by
  rw [stripEnd?, Option.map_eq_some_iff]
  constructor
  · rintro ⟨r, hr, rfl⟩
    have hchars : s.toList = r.reverse ++ stop.toList := by
      simpa using congrArg List.reverse (stripStartChars?_eq_some.mp hr)
    rw [← String.ofList_toList (s := s), hchars, String.ofList_append, String.ofList_toList]
  · rintro rfl
    exact ⟨rest.toList.reverse, stripStartChars?_eq_some.mpr (by simp), by simp⟩

/-- What is put behind a text does not change how it starts. -/
theorem startsWith_slash_append {s : String} (hne : s ≠ "") (t : String) :
    startsWith "/" (s ++ t) = startsWith "/" s := by
  obtain ⟨c, cs, hs⟩ := List.exists_cons_of_ne_nil (mt String.toList_eq_nil_iff.mp hne)
  have hslash : "/".toList = ['/'] := rfl
  simp only [startsWith, stripStart?, String.toList_append, hs, hslash, List.cons_append,
    stripStartChars?]
  split <;> rfl

theorem startsWith_slash_of_notMem {s : String} (h : '/' ∉ s.toList) : startsWith "/" s = false := by
  rw [startsWith, Option.isSome_eq_false_iff, Option.isNone_iff_eq_none, stripStart?,
    Option.map_eq_none_iff, Option.eq_none_iff_forall_ne_some]
  intro rest hrest
  rw [stripStartChars?_eq_some.mp hrest] at h
  exact h (List.mem_append_left _ List.mem_cons_self)

/-! ## Lists in ascending order -/

theorem insertText_comm (s t : String) (l : List String) :
    insertText s (insertText t l) = insertText t (insertText s l) := by
  have htotal := String.le_total s t
  induction l with
  | nil => grind [insertText, String.le_antisymm]
  | cons r rest ih => grind [insertText, String.le_antisymm, String.le_trans, String.le_total]

theorem arrange_perm {l l' : List String} (h : l.Perm l') : arrange l = arrange l' :=
  h.foldr_eq' (fun s _ t _ l => insertText_comm t s l) []

theorem mem_sortTexts {s : String} {l : List String} : s ∈ sortTexts l ↔ s ∈ l := List.mem_mergeSort

theorem pairwise_sortTexts (l : List String) : (sortTexts l).Pairwise (· ≤ ·) := by
  have htrans : ∀ a b c : String, decide (a ≤ b) = true → decide (b ≤ c) = true →
      decide (a ≤ c) = true := by
    intro a b c hab hbc
    simp only [decide_eq_true_eq] at hab hbc ⊢
    exact String.le_trans hab hbc
  have htotal : ∀ a b : String, (decide (a ≤ b) || decide (b ≤ a)) = true := by
    intro a b
    simpa using String.le_total a b
  exact (List.pairwise_mergeSort htrans htotal l).imp of_decide_eq_true

theorem sortTexts_perm {l l' : List String} (h : l.Perm l') : sortTexts l = sortTexts l' := by
  have hperm : (sortTexts l).Perm (sortTexts l') :=
    (List.mergeSort_perm l _).trans (h.trans (List.mergeSort_perm l' _).symm)
  refine hperm.eq_of_pairwise ?_ (pairwise_sortTexts l) (pairwise_sortTexts l')
  intro a b _ _ hab hba
  exact String.le_antisymm hab hba

theorem mem_dedupAdjacent {s : String} {l : List String} : s ∈ dedupAdjacent l ↔ s ∈ l := by
  fun_induction dedupAdjacent l with
  | case1 | case2 => rfl
  | case3 t rest ih => simp [ih]
  | case4 t u rest _ ih => rw [List.mem_cons, ih, ← List.mem_cons]

/-- Texts in ascending order stand there once each if none equals the one before it. -/
theorem pairwise_dedupAdjacent {l : List String} (h : l.Pairwise (· ≤ ·)) :
    (dedupAdjacent l).Pairwise (· < ·) := by
  fun_induction dedupAdjacent l with
  | case1 => exact .nil
  | case2 s => exact List.pairwise_singleton _ s
  | case3 t rest ih => exact ih h.of_cons
  | case4 s t rest hne ih =>
    refine List.pairwise_cons.mpr ⟨fun r hr => ?_, ih h.of_cons⟩
    obtain ⟨hfirst, hrest⟩ := List.pairwise_cons.mp h
    have hst : s < t :=
      String.not_le.mp fun hts => hne (String.le_antisymm (hfirst t List.mem_cons_self) hts)
    rcases List.mem_cons.mp (mem_dedupAdjacent.mp hr) with rfl | hr
    · exact hst
    · have htr := (List.pairwise_cons.mp hrest).1 r hr
      exact String.not_le.mp fun hrs => String.not_le.mpr hst (String.le_trans htr hrs)

end JavaSema.Text
