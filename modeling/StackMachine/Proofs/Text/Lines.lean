import Mathlib.Data.List.Basic
import StackMachine.Proofs.Assembly.Scanning
import StackMachine.Text.Source

set_option autoImplicit false

namespace StackMachine

def utf8Bytes (chars : List Char) : List UInt8 := chars.flatMap String.utf8EncodeChar

theorem toList_toUTF8 (text : String) : text.toUTF8.data.toList = utf8Bytes text.toList := by
  have bytes : text.toUTF8 = text.toList.utf8Encode := String.utf8Encode_toList.symm
  rw [bytes, List.utf8Encode, List.data_toByteArray, utf8Bytes]

theorem length_utf8Bytes (chars : List Char) : (utf8Bytes chars).length = byteLength chars := by
  induction chars with
  | nil => rfl
  | cons c chars ih =>
    rw [utf8Bytes, List.flatMap_cons, List.length_append, String.length_utf8EncodeChar, byteLength,
      ← ih]
    rfl

theorem le_of_mem_utf8EncodeChar {c : Char} (wide : 127 < c.val.toNat) :
    ∀ byte ∈ String.utf8EncodeChar c, 128 ≤ byte.toNat := by
  fun_cases String.utf8EncodeChar c
  · omega
  all_goals
    simp only [List.forall_mem_cons, List.not_mem_nil, UInt8.toNat_ofNat', false_imp_iff,
      implies_true, and_true]
    omega

theorem count_newline_utf8EncodeChar (c : Char) :
    (String.utf8EncodeChar c).count 10 = if c = '\n' then 1 else 0 := by
  by_cases newline : c = '\n'
  · subst newline
    decide
  · rw [if_neg newline, List.count_eq_zero]
    by_cases narrow : c.val.toNat ≤ 127
    · have single : String.utf8EncodeChar c = [UInt8.ofNat c.val.toNat] := if_pos narrow
      rw [single, List.mem_singleton]
      intro same
      have value : 10 = c.val.toNat % 256 := congrArg UInt8.toNat same
      have ten : c.val.toNat = '\n'.val.toNat := by
        rw [Nat.mod_eq_of_lt (by omega)] at value
        exact value.symm
      exact newline (Char.ext (UInt32.toNat_inj.mp ten))
    · intro member
      have high := le_of_mem_utf8EncodeChar (Nat.not_le.mp narrow) 10 member
      exact absurd high (by decide)

def newlinesBefore (source : String) (offset : Nat) : Nat :=
  (source.toUTF8.data.toList.take offset).count 10

theorem newlinesBefore_of_le (source : String) {first second : Nat} (order : first ≤ second) :
    newlinesBefore source second = newlinesBefore source first +
      ((source.toUTF8.data.toList.drop first).take (second - first)).count 10 := by
  have cut : second = first + (second - first) := by omega
  rw [newlinesBefore, newlinesBefore, ← List.count_append, ← List.take_add, ← cut]

theorem newlinesBefore_eq_iff (source : String) {first second : Nat} (order : first ≤ second) :
    newlinesBefore source first = newlinesBefore source second ↔
      ∀ k, first ≤ k → k < second → source.toUTF8.data.toList[k]? ≠ some 10 := by
  rw [newlinesBefore_of_le source order, Nat.left_eq_add, List.count_eq_zero]
  constructor
  · intro absent k least most newline
    refine absent (List.mem_iff_getElem?.mpr ⟨k - first, ?_⟩)
    have place : first + (k - first) = k := by omega
    rw [List.getElem?_take_of_lt (by omega), List.getElem?_drop, place, newline]
  · intro absent member
    obtain ⟨k, newline⟩ := List.mem_iff_getElem?.mp member
    rw [List.getElem?_take] at newline
    split at newline
    next inside =>
      rw [List.getElem?_drop] at newline
      exact absent (first + k) (by omega) (by omega) newline
    next => cases newline

theorem partitionPoint_eq {α : Type} {holds : α → Bool} {values : Array α} {place low high : Nat}
    (splits : ∀ (k : Nat) (_ : k < values.size), holds values[k] = true ↔ k < place)
    (inside : high ≤ values.size) (least : low ≤ place) (most : place ≤ high) :
    partitionPoint holds values low high inside = place := by
  fun_induction partitionPoint holds values low high inside with
  | case1 low high inside wide middle found ih =>
    have before := (splits middle (by omega)).mp found
    exact ih before most
  | case2 low high inside wide middle missed ih =>
    have behind := mt (splits middle (by omega)).mpr missed
    exact ih least (Nat.not_lt.mp behind)
  | case3 low high inside empty => omega

theorem getElem_le_iff {sorted : List Nat} (increasing : sorted.Pairwise (· < ·)) (limit k : Nat)
    (inside : k < sorted.length) :
    sorted[k] ≤ limit ↔ k < sorted.countP fun value => decide (value ≤ limit) := by
  induction sorted generalizing k with
  | nil => cases inside
  | cons value sorted ih =>
    obtain ⟨least, increasing⟩ := List.pairwise_cons.mp increasing
    by_cases small : value ≤ limit
    · rw [List.countP_cons_of_pos (by simpa using small)]
      cases k with
      | zero => simpa using small
      | succ k =>
        rw [List.getElem_cons_succ, ih increasing k (Nat.lt_of_succ_lt_succ inside)]
        omega
    · -- All that follows is larger still.
      have none : (value :: sorted).countP (fun value => decide (value ≤ limit)) = 0 := by
        simp only [List.countP_eq_zero, List.forall_mem_cons, decide_eq_true_eq]
        refine ⟨small, fun other member => ?_⟩
        have further := least other member
        omega
      have larger : value ≤ (value :: sorted)[k] := by
        cases k with
        | zero => exact Nat.le_refl _
        | succ k => exact Nat.le_of_lt (least _ (List.getElem_mem _))
      rw [none]
      omega

namespace LineIndex

theorem idxsOf_newline_utf8EncodeChar (c : Char) (offset : Nat) :
    (String.utf8EncodeChar c).idxsOf 10 offset = if c = '\n' then [offset] else [] := by
  by_cases newline : c = '\n'
  · subst newline
    rfl
  · have absent := count_newline_utf8EncodeChar c
    rw [if_neg newline, List.count_eq_zero] at absent
    rw [if_neg newline, List.idxsOf_eq_nil_iff]
    intro byte member
    exact beq_eq_false_iff_ne.mpr fun same => absent (same ▸ member)

theorem startsAfter_eq (offset : Nat) (chars : List Char) :
    startsAfter offset chars = ((utf8Bytes chars).idxsOf 10 offset).map (· + 1) := by
  induction chars generalizing offset with
  | nil => rfl
  | cons c chars ih =>
    have bytes : utf8Bytes (c :: chars) = String.utf8EncodeChar c ++ utf8Bytes chars := rfl
    rw [bytes, List.idxsOf_append, List.map_append, String.length_utf8EncodeChar, ← ih,
      idxsOf_newline_utf8EncodeChar]
    by_cases newline : c = '\n'
    · subst newline
      rfl
    · simp only [startsAfter, if_neg newline, List.map_nil, List.nil_append]

theorem starts_ofText (source : String) : (ofText source).starts.toList =
    0 :: (source.toUTF8.data.toList.idxsOf 10).map (· + 1) := by
  rw [ofText, startsAfter_eq, toList_toUTF8]

theorem pairwise_starts (source : String) :
    (ofText source).starts.toList.Pairwise (· < ·) := by
  rw [starts_ofText, List.pairwise_cons]
  constructor
  · intro start member
    obtain ⟨place, -, rfl⟩ := List.mem_map.mp member
    exact Nat.succ_pos place
  · exact List.pairwise_idxsOf.map _ fun _ _ => Nat.succ_lt_succ

theorem le_of_mem_starts {source : String} {start : Nat}
    (member : start ∈ (ofText source).starts) : start ≤ source.toUTF8.data.toList.length := by
  rw [← Array.mem_toList_iff, starts_ofText] at member
  obtain rfl | behind := List.mem_cons.mp member
  · exact Nat.zero_le _
  · obtain ⟨place, newline, rfl⟩ := List.mem_map.mp behind
    exact List.lt_add_of_mem_idxsOf _ newline

theorem lineCount_eq (source : String) :
    (ofText source).lineCount = 1 + source.toUTF8.data.toList.count 10 := by
  rw [lineCount, ← Array.length_toList, starts_ofText, List.length_cons, List.length_map,
    List.length_idxsOf, Nat.add_comm]

theorem countP_idxsOf (bytes : List UInt8) (base distance : Nat) :
    (bytes.idxsOf 10 base).countP (fun place => decide (place < base + distance)) =
      (bytes.take distance).count 10 := by
  induction bytes generalizing base distance with
  | nil => simp
  | cons byte bytes ih =>
    cases distance with
    | zero =>
      rw [List.take_zero, List.count_nil, List.countP_eq_zero]
      intro place member
      have behind := List.ge_of_mem_idxsOf place member
      simpa using behind
    | succ distance =>
      have later := ih (base + 1) distance
      rw [Nat.add_right_comm] at later
      rw [List.idxsOf_cons, List.take_succ_cons, List.count_cons, ← later, Nat.add_assoc]
      split <;> simp

theorem line_eq (source : String) (offset : Nat) :
    (ofText source).line offset = 1 + newlinesBefore source offset := by
  have counted : (ofText source).starts.toList.countP (fun start => decide (start ≤ offset)) =
      1 + newlinesBefore source offset := by
    have below := countP_idxsOf source.toUTF8.data.toList 0 offset
    rw [Nat.zero_add] at below
    rw [starts_ofText, List.countP_cons_of_pos (by simp), List.countP_map, newlinesBefore, ← below,
      Nat.add_comm]
    rfl
  apply partitionPoint_eq
  · intro k inside
    rw [← counted, decide_eq_true_eq]
    exact getElem_le_iff (pairwise_starts source) offset k (by simpa using inside)
  · exact Nat.zero_le _
  · rw [← counted]
    exact List.countP_le_length

/-- A table of places in increasing order, each of which four bytes can hold if the source has less
than `2 ^ 32` bytes. So the line of an offset is one more than the newline bytes before it, wherever
the offset stands, and two offsets are on one line if no newline lies between them. -/
theorem lines_counted (source : String) :
    let index := ofText source
    let bytes := source.toUTF8.data.toList
    (index.starts.toList = 0 :: (bytes.idxsOf 10).map (· + 1) ∧
      index.starts.toList.Pairwise (· < ·) ∧
      (bytes.length < UInt32.size → ∀ start ∈ index.starts, start < UInt32.size)) ∧
    index.lineCount = 1 + bytes.count 10 ∧
    (∀ offset, index.line offset = 1 + newlinesBefore source offset ∧
      1 ≤ index.line offset ∧ index.line offset ≤ index.lineCount) ∧
    ∀ first second, (first ≤ second → index.line first ≤ index.line second) ∧
      (index.line first = index.line second ↔
        ∀ k, min first second ≤ k → k < max first second → bytes[k]? ≠ some 10) := by
  intro index bytes
  have counted (offset : Nat) : index.line offset = 1 + newlinesBefore source offset :=
    line_eq source offset
  refine ⟨⟨starts_ofText source, pairwise_starts source, ?_⟩, lineCount_eq source, ?_, ?_⟩
  · intro small start member
    exact Nat.lt_of_le_of_lt (le_of_mem_starts member) small
  · intro offset
    have most : newlinesBefore source offset ≤ bytes.count 10 :=
      (List.take_sublist offset bytes).count_le 10
    have all : index.lineCount = 1 + bytes.count 10 := lineCount_eq source
    rw [counted, all]
    exact ⟨rfl, Nat.le_add_right 1 _, Nat.add_le_add_left most 1⟩
  · intro first second
    simp only [counted, Nat.add_left_cancel_iff]
    constructor
    · intro order
      rw [newlinesBefore_of_le source order, ← Nat.add_assoc]
      exact Nat.le_add_right _ _
    · obtain order | order := Nat.le_total first second
      · rw [Nat.min_eq_left order, Nat.max_eq_right order]
        exact newlinesBefore_eq_iff source order
      · rw [Nat.min_eq_right order, Nat.max_eq_left order, eq_comm]
        exact newlinesBefore_eq_iff source order

theorem lines_counted_final_newline :
    let source := "é\n\nb\n"
    source.toUTF8.data.toList.length < UInt32.size ∧
      (∀ start ∈ (ofText source).starts, start < UInt32.size) ∧ (ofText source).lineCount = 4 ∧
        [0, 1, 2, 3, 4, 5, 6, 100].map (ofText source).line = [1, 1, 1, 2, 3, 3, 4, 4] := by
  intro source
  have small : source.toUTF8.data.toList.length < UInt32.size := by decide +kernel
  obtain ⟨⟨-, -, bounded⟩, all, counted, -⟩ := lines_counted source
  refine ⟨small, bounded small, all.trans (by decide +kernel), ?_⟩
  have lines : [0, 1, 2, 3, 4, 5, 6, 100].map (ofText source).line =
      [0, 1, 2, 3, 4, 5, 6, 100].map fun offset => 1 + newlinesBefore source offset :=
    List.map_congr_left fun offset _ => (counted offset).1
  exact lines.trans (by decide +kernel)

end LineIndex

def OneLine (text : String) : Prop := '\n' ∉ text.toList

instance (text : String) : Decidable (OneLine text) :=
  inferInstanceAs (Decidable ('\n' ∉ text.toList))

@[simp] theorem oneLine_append {first second : String} :
    OneLine (first ++ second) ↔ OneLine first ∧ OneLine second := by
  simp [OneLine, not_or]

theorem splitOn_newline {texts : List String} (short : ∀ text ∈ texts, OneLine text) :
    (String.join (texts.map fun text => text ++ "\n")).toList.splitOn '\n' =
      texts.map String.toList ++ [[]] := by
  induction texts with
  | nil => rfl
  | cons text texts ih =>
    obtain ⟨first, others⟩ := List.forall_mem_cons.mp short
    have alone : ∀ c ∈ text.toList, (c == '\n') = false := by
      intro c member
      apply beq_eq_false_iff_ne.mpr
      rintro rfl
      exact first member
    have chars : (String.join ((text :: texts).map fun text => text ++ "\n")).toList =
        text.toList ++ '\n' :: (String.join (texts.map fun text => text ++ "\n")).toList := by
      simp
    have split := ih others
    rw [List.splitOn] at split ⊢
    rw [chars, List.splitOnP_append_cons _ _ (by simp), List.splitOnP_eq_singleton alone, split]
    rfl

end StackMachine
