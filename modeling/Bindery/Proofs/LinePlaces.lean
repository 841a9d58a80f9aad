import Bindery.Text.LineMap
import Mathlib.Data.List.DropRight
import Mathlib.Data.List.GetD
/-!
# Lines and columns of offsets

The line starts of a text are increasing, so halving them finds the last one that is not after an offset, whether the
offset is itself a line start or not. The index of that start is the number of newlines before the offset, and the start
itself is behind the last of them; line and column are counted from one. They have 32 bits, as offsets have, and so do
not quite hold all that offsets can give: the last offset overflows (`Overflows`) if the text before it has no newline,
or nothing else.
-/
namespace Bindery

namespace Search

variable {numbers : Array UInt32} {key : UInt32}

def Increasing (numbers : Array UInt32) : Prop :=
  ∀ i j, i < j → j < numbers.size → numbers.getD i 0 < numbers.getD j 0

theorem Increasing.le (h : Increasing numbers) {i j : Nat} (hij : i ≤ j) (hj : j < numbers.size) :
    numbers.getD i 0 ≤ numbers.getD j 0 := by
  obtain rfl | hlt := Nat.eq_or_lt_of_le hij
  · exact UInt32.le_refl _
  · exact UInt32.le_of_lt (h i j hlt hj)

/-- What a search has to come to: an index of the number, or the index between the smaller and the greater numbers. -/
inductive Correct (numbers : Array UInt32) (key : UInt32) : Search → Prop
  | found {i : Nat} : i < numbers.size → numbers.getD i 0 = key → Correct numbers key (.found i)
  | absent {i : Nat} : i ≤ numbers.size → (∀ j < i, numbers.getD j 0 < key) →
    (∀ j, i ≤ j → j < numbers.size → key < numbers.getD j 0) → Correct numbers key (.absent i)

/-- Halving a stretch keeps all that is not greater than the key, but for its first number. -/
theorem narrow_spec (h : Increasing numbers) (key : UInt32) (base size : Nat) (hsize : 0 < size)
    (hfit : base + size ≤ numbers.size) :
    base ≤ narrow numbers key base size ∧ narrow numbers key base size < base + size ∧
      (narrow numbers key base size = base ∨ numbers.getD (narrow numbers key base size) 0 ≤ key) ∧
      ∀ j, narrow numbers key base size < j → j < base + size → key < numbers.getD j 0 := by
  fun_induction narrow numbers key base size with
  | case1 base size hone => exact ⟨Nat.le_refl _, by omega, .inl rfl, fun j hj hj' => by omega⟩
  | case2 base size hmore middle hkey ih =>
    -- the upper half is greater than the key, as its first number is
    obtain ⟨hlow, hhigh, hnot, hafter⟩ := ih (by omega) (by omega)
    refine ⟨hlow, by omega, hnot, fun j hj hj' => ?_⟩
    by_cases hhalf : j < base + (size - size / 2)
    · exact hafter j hj hhalf
    · exact UInt32.lt_of_lt_of_le hkey (h.le (by omega) (by omega))
  | case3 base size hmore middle hkey ih =>
    obtain ⟨hlow, hhigh, hnot, hafter⟩ := ih (by omega) (by omega)
    refine ⟨by omega, by omega, .inr ?_, fun j hj hj' => hafter j hj (by omega)⟩
    obtain heq | hle := hnot
    · rw [heq]
      exact UInt32.not_lt.1 hkey
    · exact hle

theorem locate_correct (h : Increasing numbers) (key : UInt32) : Correct numbers key (locate numbers key) := by
  unfold locate
  split
  · rename_i hempty
    have hzero : numbers.size = 0 := by simpa using hempty
    exact .absent (Nat.zero_le _) (fun j hj => by omega) (fun j _ hj => by omega)
  · rename_i hempty
    have hpos : 0 < numbers.size := by
      rw [Array.isEmpty_iff_size_eq_zero] at hempty
      omega
    obtain ⟨-, hlt, hnot, hafter⟩ := narrow_spec h key 0 numbers.size hpos (by omega)
    dsimp only
    generalize narrow numbers key 0 numbers.size = i at *
    split
    · exact .found (by omega) ‹_›
    · rename_i hne
      split
      · rename_i hless
        exact .absent (by omega) (fun j hj => UInt32.lt_of_le_of_lt (h.le (by omega) (by omega)) hless)
          (fun j hj hj' => hafter j hj (by omega))
      · -- only the first number may be greater than the key
        rename_i hless
        have hgreater : key < numbers.getD i 0 := by
          rw [UInt32.lt_iff_toNat_lt] at hless ⊢
          have := UInt32.toNat_inj.not.2 hne
          omega
        obtain rfl | hle := hnot
        · refine .absent (Nat.zero_le _) (fun j hj => by omega) (fun j _ hj => ?_)
          exact UInt32.lt_of_lt_of_le hgreater (h.le (Nat.zero_le _) hj)
        · exact absurd hgreater (UInt32.not_lt.2 hle)

end Search

namespace LineMap

/-! ## The line starts of a text -/

theorem startsAfter_append (offset : Nat) (front back : List UInt8) : startsAfter offset (front ++ back) =
    startsAfter offset front ++ startsAfter (offset + front.length) back := by
  induction front generalizing offset with
  | nil => rfl
  | cons byte front ih =>
    have hoffset : offset + 1 + front.length = offset + (byte :: front).length := by
      rw [List.length_cons]
      omega
    rw [List.cons_append, startsAfter, startsAfter, ih, hoffset]
    split <;> rfl

theorem length_startsAfter (offset : Nat) (bytes : List UInt8) :
    (startsAfter offset bytes).length = bytes.count 10 := by
  induction bytes generalizing offset with
  | nil => rfl
  | cons byte bytes ih =>
    rw [startsAfter, List.count_cons]
    split <;> simp [*]

/-- In a text that 32 bits count, every line starts behind its newline and not after the end. -/
theorem mem_startsAfter {offset : Nat} {bytes : List UInt8} (hsize : offset + bytes.length < UInt32.size) {start : UInt32}
    (h : start ∈ startsAfter offset bytes) : offset < start.toNat ∧ start.toNat ≤ offset + bytes.length := by
  induction bytes generalizing offset with
  | nil => cases h
  | cons byte bytes ih =>
    rw [List.length_cons] at hsize ⊢
    have hrest : start ∈ startsAfter (offset + 1) bytes →
        offset < start.toNat ∧ start.toNat ≤ offset + (bytes.length + 1) := fun h => by
      have := ih (by omega) h
      omega
    rw [startsAfter] at h
    split at h
    · obtain rfl | h := List.mem_cons.1 h
      · rw [UInt32.toNat_ofNat_of_lt' (by omega)]
        omega
      · exact hrest h
    · exact hrest h

theorem pairwise_startsAfter {offset : Nat} {bytes : List UInt8} (hsize : offset + bytes.length < UInt32.size) :
    (startsAfter offset bytes).Pairwise (· < ·) := by
  induction bytes generalizing offset with
  | nil => exact .nil
  | cons byte bytes ih =>
    rw [List.length_cons] at hsize
    rw [startsAfter]
    split
    · refine .cons (fun start h => ?_) (ih (by omega))
      rw [UInt32.lt_iff_toNat_lt, UInt32.toNat_ofNat_of_lt' (by omega)]
      exact (mem_startsAfter (by omega) h).1
    · exact ih (by omega)

/-- **The line starts of a text are increasing**, the first one included. -/
theorem increasing_starts {bytes : List UInt8} (hsize : bytes.length < UInt32.size) :
    Search.Increasing (ofBytes bytes).starts := by
  have hpairwise : (0 :: startsAfter 0 bytes).Pairwise (· < ·) := by
    refine .cons (fun start h => ?_) (pairwise_startsAfter (by omega))
    exact UInt32.lt_iff_toNat_lt.2 (mem_startsAfter (by omega) h).1
  intro i j hij hj
  have hi : i < (ofBytes bytes).starts.size := by omega
  rw [Array.getD_eq_getD_getElem?, Array.getD_eq_getD_getElem?, Array.getElem?_eq_getElem hi,
    Array.getElem?_eq_getElem hj]
  exact List.pairwise_iff_getElem.1 hpairwise i j _ _ hij

/-- The last start of the lines that a text begins is behind its last newline. -/
theorem getLast_startsAfter (bytes : List UInt8) (hsize : bytes.length < UInt32.size) :
    ((0 :: startsAfter 0 bytes).getLast (by simp)).toNat = (bytes.rdropWhile (· ≠ 10)).length := by
  induction bytes using List.reverseRecOn with
  | nil => rfl
  | append_singleton bytes byte ih =>
    rw [List.length_append, List.length_singleton] at hsize
    simp only [startsAfter_append, List.rdropWhile_concat, startsAfter]
    by_cases hbyte : byte = 10
    · simpa [hbyte] using hsize
    · simpa [hbyte] using ih (by omega)

/-! ## The line of an offset -/

/-- How many newlines stand before an offset. -/
def newlinesBefore (bytes : List UInt8) (offset : Nat) : Nat := (bytes.take offset).count 10

/-- The offset behind the last newline before an offset, zero if there is none: how much of the text before the offset
is left without the bytes behind its last newline. -/
def lineStart (bytes : List UInt8) (offset : Nat) : Nat := ((bytes.take offset).rdropWhile (· ≠ 10)).length

/-- The line found is the last one that starts at the offset or before it, if the first one does. -/
theorem lineIndex_spec {map : LineMap} {offset : UInt32} (h : Search.Increasing map.starts) (hsize : 0 < map.starts.size)
    (hfirst : map.starts.getD 0 0 ≤ offset) : map.lineIndex offset < map.starts.size ∧
      map.starts.getD (map.lineIndex offset) 0 ≤ offset ∧
      ∀ j, map.lineIndex offset < j → j < map.starts.size → offset < map.starts.getD j 0 := by
  have hfound := Search.locate_correct h offset
  unfold lineIndex
  generalize Search.locate map.starts offset = result at hfound
  cases hfound with
  | found hi heq => exact ⟨hi, heq ▸ UInt32.le_refl _, fun j hj hj' => heq ▸ h _ j hj hj'⟩
  | @absent i hi hbefore hafter =>
    have hpos : 0 < i := Nat.pos_of_ne_zero fun hzero =>
      absurd (hafter 0 (Nat.le_of_eq hzero) hsize) (UInt32.not_lt.2 hfirst)
    dsimp only
    exact ⟨by omega, UInt32.le_of_lt (hbefore _ (by omega)), fun j hj hj' => hafter j (by omega) hj'⟩

variable {bytes : List UInt8} {offset : Nat}

/-- The starts at an offset or before it are those of the text before it; the others come behind. -/
theorem starts_split (bytes : List UInt8) (offset : Nat) : (ofBytes bytes).starts.toList =
    0 :: startsAfter 0 (bytes.take offset) ++ startsAfter (bytes.take offset).length (bytes.drop offset) := by
  show 0 :: startsAfter 0 bytes = _
  conv_lhs => rw [← List.take_append_drop offset bytes, startsAfter_append, Nat.zero_add]
  rfl

theorem length_starts_take (bytes : List UInt8) (offset : Nat) :
    (0 :: startsAfter 0 (bytes.take offset)).length = newlinesBefore bytes offset + 1 := by
  rw [List.length_cons, length_startsAfter, newlinesBefore]

theorem getD_starts (bytes : List UInt8) (j : Nat) :
    (ofBytes bytes).starts.getD j 0 = (ofBytes bytes).starts.toList.getD j 0 := by
  rw [Array.getD_eq_getD_getElem?, ← Array.getElem?_toList, List.getD_eq_getElem?_getD]

/-- **A line starts at an offset or before it just when no more newlines come before it than before the offset.** -/
theorem starts_le_iff (hsize : bytes.length < UInt32.size) {j : Nat} (hj : j < (ofBytes bytes).starts.size) :
    ((ofBytes bytes).starts.getD j 0).toNat ≤ offset ↔ j ≤ newlinesBefore bytes offset := by
  have hlength := List.length_take (l := bytes) (i := offset)
  have hearly := length_starts_take bytes offset
  rw [← Array.length_toList, starts_split bytes offset, List.length_append] at hj
  rw [getD_starts, starts_split bytes offset]
  by_cases hbefore : j < (0 :: startsAfter 0 (bytes.take offset)).length
  · refine iff_of_true ?_ (by omega)
    rw [List.getD_append _ _ _ _ hbefore, List.getD_eq_getElem _ _ hbefore]
    obtain hzero | hmem := List.mem_cons.1 (List.getElem_mem hbefore)
    · rw [hzero]
      exact Nat.zero_le _
    · have := mem_startsAfter (by omega) hmem
      omega
  · refine iff_of_false ?_ (by omega)
    rw [List.getD_append_right _ _ _ _ (by omega), List.getD_eq_getElem _ _ (by omega)]
    have hdrop := List.length_drop (l := bytes) (i := offset)
    have := mem_startsAfter (by omega) (List.getElem_mem (show j - (0 :: startsAfter 0 (bytes.take offset)).length <
      (startsAfter (bytes.take offset).length (bytes.drop offset)).length by omega))
    omega

theorem newlinesBefore_lt_size (bytes : List UInt8) (offset : Nat) :
    newlinesBefore bytes offset < (ofBytes bytes).starts.size := by
  rw [← Array.length_toList, starts_split bytes offset, List.length_append, length_starts_take]
  omega

theorem lineIndex_ofBytes (hsize : bytes.length < UInt32.size) (hoffset : offset < UInt32.size) :
    (ofBytes bytes).lineIndex (.ofNat offset) = newlinesBefore bytes offset := by
  have hword := UInt32.toNat_ofNat_of_lt' hoffset
  have hpos : 0 < (ofBytes bytes).starts.size := Nat.succ_pos _
  have hcount := newlinesBefore_lt_size bytes offset
  obtain ⟨hi, hle, hafter⟩ := lineIndex_spec (increasing_starts hsize) hpos
    (show (ofBytes bytes).starts.getD 0 0 ≤ .ofNat offset from UInt32.le_iff_toNat_le.2 (Nat.zero_le _))
  rw [UInt32.le_iff_toNat_le, hword, starts_le_iff hsize hi] at hle
  refine Nat.le_antisymm hle (Nat.le_of_not_lt fun hlt => ?_)
  have hlate := hafter _ hlt hcount
  rw [UInt32.lt_iff_toNat_lt, hword] at hlate
  exact absurd ((starts_le_iff hsize hcount).2 (Nat.le_refl _)) (Nat.not_le.2 hlate)

theorem getD_newlinesBefore (hsize : bytes.length < UInt32.size) (offset : Nat) :
    ((ofBytes bytes).starts.getD (newlinesBefore bytes offset) 0).toNat = lineStart bytes offset := by
  have hlength := List.length_take (l := bytes) (i := offset)
  have hearly := length_starts_take bytes offset
  rw [lineStart, ← getLast_startsAfter _ (by omega), getD_starts, starts_split bytes offset,
    List.getD_append _ _ _ _ (by omega), List.getD_eq_getElem _ _ (by omega), List.getLast_eq_getElem]
  congr 2
  omega

/-! ## Places -/

theorem lineStart_le (bytes : List UInt8) (offset : Nat) : lineStart bytes offset ≤ offset :=
  (List.rdropWhile_prefix _ _).length_le.trans (List.length_take_le _ _)

/-- Every newline before an offset is a byte before the line of the offset. -/
theorem newlinesBefore_le (bytes : List UInt8) (offset : Nat) :
    newlinesBefore bytes offset ≤ lineStart bytes offset := by
  unfold newlinesBefore lineStart
  induction bytes.take offset using List.reverseRecOn with
  | nil => exact Nat.zero_le _
  | append_singleton front byte ih =>
    rw [List.rdropWhile_concat]
    split
    · rename_i hbyte
      rw [List.count_append, List.count_singleton, if_neg (by simpa using hbyte)]
      exact ih
    · exact List.count_le_length

theorem lineStart_of_newlinesBefore (h : newlinesBefore bytes offset = 0) : lineStart bytes offset = 0 := by
  rw [lineStart, List.rdropWhile_eq_nil_iff.2 fun byte hbyte => ?_, List.length_nil]
  rw [newlinesBefore, List.count_eq_zero] at h
  exact decide_eq_true fun heq => h (heq ▸ hbyte)

/-- The line and the column of an offset, in 32 bits. -/
theorem place_ofBytes (hsize : bytes.length < UInt32.size) (hoffset : offset < UInt32.size) :
    (ofBytes bytes).place offset = ⟨(1 + newlinesBefore bytes offset) % UInt32.size,
      (1 + (offset - lineStart bytes offset)) % UInt32.size⟩ := by
  have hword := UInt32.toNat_ofNat_of_lt' hoffset
  have hstart : (ofBytes bytes).starts.getD (newlinesBefore bytes offset) 0 ≤ .ofNat offset := by
    rw [UInt32.le_iff_toNat_le, getD_newlinesBefore hsize, hword]
    exact lineStart_le bytes offset
  have hcount : newlinesBefore bytes offset < UInt32.size :=
    Nat.lt_of_le_of_lt ((newlinesBefore_le _ _).trans (lineStart_le _ _)) hoffset
  unfold place
  dsimp only
  rw [lineIndex_ofBytes hsize hoffset, UInt32.toNat_add, UInt32.toNat_add, UInt32.toNat_sub_of_le _ _ hstart,
    getD_newlinesBefore hsize, hword, UInt32.toNat_ofNat_of_lt' hcount, Nat.add_comm 1, Nat.add_comm 1]
  rfl

/-- The last offset, if the text before it has no newline, or nothing else: its column, or its line, does not fit into
32 bits. -/
def Overflows (bytes : List UInt8) (offset : Nat) : Prop :=
  offset + 1 = UInt32.size ∧ (newlinesBefore bytes offset = 0 ∨ newlinesBefore bytes offset = offset)

instance (bytes : List UInt8) (offset : Nat) : Decidable (Overflows bytes offset) :=
  inferInstanceAs (Decidable (_ ∧ _))

theorem place_exact_iff (hsize : bytes.length < UInt32.size) (hoffset : offset < UInt32.size) :
    (ofBytes bytes).place offset = ⟨1 + newlinesBefore bytes offset, 1 + (offset - lineStart bytes offset)⟩ ↔
      ¬ Overflows bytes offset := by
  have hcount := newlinesBefore_le bytes offset
  have hstart := lineStart_le bytes offset
  rw [place_ofBytes hsize hoffset, LineCol.mk.injEq, Nat.mod_eq_iff_lt (by decide), Nat.mod_eq_iff_lt (by decide),
    Overflows]
  by_cases hnone : newlinesBefore bytes offset = 0
  · have := lineStart_of_newlinesBefore hnone
    omega
  · omega

/-- Of two offsets the later one has a later line, or the same line and a later column. -/
theorem later_line_or_column {offset' : Nat} (hsize : bytes.length < UInt32.size) (h : offset < offset') :
    newlinesBefore bytes offset < newlinesBefore bytes offset' ∨
      newlinesBefore bytes offset = newlinesBefore bytes offset' ∧
        offset - lineStart bytes offset < offset' - lineStart bytes offset' := by
  have hstart := lineStart_le bytes offset
  have hline := getD_newlinesBefore hsize offset
  have hle : newlinesBefore bytes offset ≤ newlinesBefore bytes offset' :=
    (starts_le_iff hsize (newlinesBefore_lt_size bytes offset)).1 (by omega)
  obtain heq | hlt := Nat.eq_or_lt_of_le hle
  · rw [heq, getD_newlinesBefore hsize] at hline
    exact .inr ⟨heq, by omega⟩
  · exact .inl hlt

/-- **A later offset has a later place, but for the one that overflows**: that one comes before all others. -/
theorem place_lt {offset' : Nat} (hsize : bytes.length < UInt32.size) (h : offset < offset')
    (hoffset : offset' < UInt32.size) : if Overflows bytes offset' then
      (ofBytes bytes).place offset' < (ofBytes bytes).place offset
    else (ofBytes bytes).place offset < (ofBytes bytes).place offset' := by
  have hfits : ¬ Overflows bytes offset := fun hover => by
    have := hover.1
    omega
  have hlater := later_line_or_column hsize h
  rw [(place_exact_iff hsize (by omega)).2 hfits]
  split
  · rename_i hover
    have hcount := newlinesBefore_le bytes offset
    obtain ⟨hlast, hcase⟩ := hover
    simp only [place_ofBytes hsize hoffset, LineCol.lt_def, UInt32.size] at hlast ⊢
    obtain hnone | hall := hcase
    · -- the column is zero, on the first line
      rw [lineStart_of_newlinesBefore hnone]
      omega
    · omega
  · rename_i hfits'
    simp only [(place_exact_iff hsize hoffset).2 hfits', LineCol.lt_def]
    omega

theorem place_lt_iff {offset' : Nat} (hsize : bytes.length < UInt32.size) (h : offset < offset')
    (hoffset : offset' < UInt32.size) :
    (ofBytes bytes).place offset < (ofBytes bytes).place offset' ↔ ¬ Overflows bytes offset' := by
  have hplace := place_lt hsize h hoffset
  split at hplace
  · exact iff_of_false (LineCol.not_lt_of_lt hplace) (not_not_intro ‹_›)
  · exact iff_of_true hplace ‹_›

theorem span_ordered_iff {start stop : Nat} (hsize : bytes.length < UInt32.size) (h : start ≤ stop)
    (hstop : stop < UInt32.size) (file : Nat) :
    ((ofBytes bytes).span file start stop).start ≤ ((ofBytes bytes).span file start stop).stop ↔
      start = stop ∨ ¬ Overflows bytes stop := by
  show (ofBytes bytes).place start ≤ (ofBytes bytes).place stop ↔ _
  obtain rfl | hlt := Nat.eq_or_lt_of_le h
  · exact iff_of_true (LineCol.le_refl _) (.inl rfl)
  · have hplace := place_lt hsize hlt hstop
    split at hplace
    · exact iff_of_false (LineCol.not_le_of_lt hplace) fun hcase =>
        hcase.elim (Nat.ne_of_lt hlt) (not_not_intro ‹_›)
    · exact iff_of_true (LineCol.le_of_lt hplace) (.inr ‹_›)

/-- An offset is the start of its line and the bytes before its column. -/
theorem start_add_column (hsize : bytes.length < UInt32.size) (hoffset : offset < UInt32.size)
    (hfits : ¬ Overflows bytes offset) : ∃ start,
      (ofBytes bytes).starts[((ofBytes bytes).place offset).line - 1]? = some start ∧
      start.toNat + ((ofBytes bytes).place offset).column - 1 = offset := by
  have hstart := lineStart_le bytes offset
  have hline := getD_newlinesBefore hsize offset
  have hsome := Array.getElem?_eq_getElem (newlinesBefore_lt_size bytes offset)
  rw [Array.getD_eq_getD_getElem?, hsome, Option.getD_some] at hline
  rw [(place_exact_iff hsize hoffset).2 hfits]
  refine ⟨_, (congrArg _ (Nat.add_sub_cancel_left _ _)).trans hsome, ?_⟩
  dsimp only
  omega

/-- A line of letters. -/
def letters (count : Nat) : String := String.ofList (List.replicate count 'a')

theorem bytesOf_letters (count : Nat) : bytesOf (letters count) = List.replicate count 97 := by
  rw [bytesOf, letters, String.toUTF8, String.toByteArray_ofList, List.utf8Encode, List.data_toByteArray,
    List.toList_toArray]
  induction count with
  | zero => rfl
  | succ count ih =>
    rw [List.replicate_succ, List.replicate_succ, List.flatMap_cons, ih]
    rfl

theorem place_of_single_line (hsize : bytes.length < UInt32.size) (hoffset : offset < UInt32.size)
    (h : newlinesBefore bytes offset = 0) : (ofBytes bytes).place offset = ⟨1, (1 + offset) % UInt32.size⟩ := by
  rw [place_ofBytes hsize hoffset, h, lineStart_of_newlinesBefore h]
  rfl

theorem letters_place {count : Nat} (hsize : count < UInt32.size) (hoffset : offset < UInt32.size) :
    (letters count).utf8ByteSize = count ∧ newlinesBefore (bytesOf (letters count)) offset = 0 ∧
      lineStart (bytesOf (letters count)) offset = 0 ∧
      (ofText (letters count)).place offset = ⟨1, (1 + offset) % UInt32.size⟩ := by
  have hlength : (bytesOf (letters count)).length = count := by rw [bytesOf_letters, List.length_replicate]
  have hnone : newlinesBefore (bytesOf (letters count)) offset = 0 := by
    rw [newlinesBefore, bytesOf_letters, List.take_replicate, List.count_replicate]
    rfl
  exact ⟨hlength, hnone, lineStart_of_newlinesBefore hnone, place_of_single_line (by omega) hoffset hnone⟩

end LineMap

end Bindery
