import Mathlib.Data.String.Basic
import RubyTree.Location

/-! The lines of a source, and where they start. No line is empty, so lines start at different
offsets. Text that ends with its last line can be put in front of a source without changing how the
source is cut. -/

namespace RubyTree

namespace LineTable

theorem total_append (a b : List Nat) : total (a ++ b) = total a + total b := by
  induction a with
  | nil => exact (Nat.zero_add _).symm
  | cons size rest ih =>
    change size + total (rest ++ b) = size + total rest + total b
    omega

theorem startsFrom_append (offset : Nat) (a b : List Nat) :
    startsFrom offset (a ++ b) = startsFrom offset a ++ startsFrom (offset + total a) b := by
  induction a generalizing offset with
  | nil => rfl
  | cons size rest ih =>
    have htotal : offset + size + total rest = offset + total (size :: rest) :=
      Nat.add_assoc _ _ _
    simp only [List.cons_append, startsFrom, ih, htotal]

theorem startsFrom_add (offset k : Nat) (sizes : List Nat) :
    startsFrom (offset + k) sizes = (startsFrom offset sizes).map (· + k) := by
  induction sizes generalizing offset with
  | nil => rfl
  | cons size rest ih =>
    have hnext : offset + k + size = offset + size + k := by omega
    simp only [startsFrom, List.map_cons, hnext, ih]

theorem length_startsFrom (offset : Nat) (sizes : List Nat) :
    (startsFrom offset sizes).length = sizes.length := by
  induction sizes generalizing offset with
  | nil => rfl
  | cons size rest ih => simp only [startsFrom, List.length_cons, ih]

theorem le_of_startsFrom {offset i start : Nat} {sizes : List Nat} (hsizes : ∀ s ∈ sizes, 0 < s)
    (h : (startsFrom offset sizes)[i]? = some start) : offset + i ≤ start := by
  induction sizes generalizing offset i with
  | nil => cases h
  | cons size rest ih =>
    cases i with
    | zero =>
      cases h
      exact Nat.le_refl _
    | succ i =>
      have hsize : 0 < size := hsizes size List.mem_cons_self
      have hrest := ih (fun s hs => hsizes s (List.mem_cons_of_mem _ hs)) h
      omega

/-! Cutting. -/

/-- Empty, or ended by a line break. -/
def WholeLines (text : List Char) : Prop := text = [] ∨ text.getLast? = some '\n'

instance (text : List Char) : Decidable (WholeLines text) :=
  inferInstanceAs (Decidable (_ ∨ _))

theorem WholeLines.of_cons {c : Char} {rest : List Char} (h : WholeLines (c :: rest)) :
    WholeLines rest := by
  cases rest with
  | nil => exact .inl rfl
  | cons d rest =>
    rcases h with h | h
    · cases h
    · exact .inr h

theorem WholeLines.ne_nil {c : Char} {rest : List Char} (h : WholeLines (c :: rest))
    (hc : c ≠ '\n') : rest ≠ [] := by
  rintro rfl
  rcases h with h | h
  · cases h
  · exact hc (Option.some.inj h)

theorem cutLines_ne_nil {text : List Char} (h : text ≠ []) : cutLines text ≠ [] := by
  cases text with
  | nil => exact absurd rfl h
  | cons c rest =>
    rw [cutLines]
    split
    · exact List.cons_ne_nil _ _
    · split
      · exact List.cons_ne_nil _ _
      · exact List.cons_ne_nil _ _

theorem cutLines_cons_of_ne {c : Char} {rest line : List Char} {lines : List (List Char)}
    (hc : c ≠ '\n') (h : cutLines rest = line :: lines) :
    cutLines (c :: rest) = (c :: line) :: lines := by
  rw [cutLines, if_neg hc, h]

theorem cutLines_append {front : List Char} (h : WholeLines front) (back : List Char) :
    cutLines (front ++ back) = cutLines front ++ cutLines back := by
  induction front with
  | nil => rfl
  | cons c rest ih =>
    have hrest := ih h.of_cons
    by_cases hc : c = '\n'
    · simp only [List.cons_append, cutLines, if_pos hc, hrest]
    · obtain ⟨line, lines, hlines⟩ := List.exists_cons_of_ne_nil (cutLines_ne_nil (h.ne_nil hc))
      rw [hlines, List.cons_append] at hrest
      rw [List.cons_append, cutLines_cons_of_ne hc hrest, cutLines_cons_of_ne hc hlines,
        List.cons_append]

theorem length_cutLines {text : List Char} (h : WholeLines text) :
    (cutLines text).length = text.count '\n' := by
  induction text with
  | nil => rfl
  | cons c rest ih =>
    have hrest := ih h.of_cons
    by_cases hc : c = '\n'
    · simp [cutLines, hc, hrest]
    · obtain ⟨line, lines, hlines⟩ := List.exists_cons_of_ne_nil (cutLines_ne_nil (h.ne_nil hc))
      rw [cutLines_cons_of_ne hc hlines, List.count_cons_of_ne hc, ← hrest, hlines,
        List.length_cons, List.length_cons]

theorem byteSize_cons (c : Char) (cs : List Char) :
    byteSize (c :: cs) = c.utf8Size + byteSize cs := rfl

theorem byteSize_toList (s : String) : byteSize s.toList = s.utf8ByteSize := by
  have hlen (cs : List Char) : byteSize cs = String.utf8Len cs := by
    induction cs with
    | nil => rfl
    | cons c cs ih => rw [byteSize_cons, ih, String.utf8Len_cons, Nat.add_comm]
  rw [hlen, ← String.utf8ByteSize_ofList, String.ofList_toList]

theorem byteSize_append (a b : List Char) : byteSize (a ++ b) = byteSize a + byteSize b := by
  unfold byteSize
  rw [List.map_append, total_append]

theorem total_map_byteSize (lines : List (List Char)) :
    total (lines.map byteSize) = byteSize lines.flatten := by
  induction lines with
  | nil => rfl
  | cons line lines ih =>
    rw [List.flatten_cons, byteSize_append, ← ih]
    rfl

theorem cutLines_cons_cases (c : Char) (rest : List Char) :
    cutLines (c :: rest) = [c] :: cutLines rest ∨
      ∃ line lines, cutLines rest = line :: lines ∧
        cutLines (c :: rest) = (c :: line) :: lines := by
  by_cases hc : c = '\n'
  · exact .inl (by rw [cutLines, if_pos hc])
  · cases hrest : cutLines rest with
    | nil => exact .inl (by rw [cutLines, if_neg hc, hrest])
    | cons line lines => exact .inr ⟨line, lines, rfl, cutLines_cons_of_ne hc hrest⟩

theorem flatten_cutLines (text : List Char) : (cutLines text).flatten = text := by
  induction text with
  | nil => rfl
  | cons c rest ih =>
    rcases cutLines_cons_cases c rest with h | ⟨line, lines, hrest, h⟩
    · rw [h, List.flatten_cons, ih, List.singleton_append]
    · rw [hrest, List.flatten_cons] at ih
      rw [h, List.flatten_cons, List.cons_append, ih]

theorem ne_nil_of_mem_cutLines {text line : List Char} (h : line ∈ cutLines text) :
    line ≠ [] := by
  induction text with
  | nil => cases h
  | cons c rest ih =>
    rcases cutLines_cons_cases c rest with hcut | ⟨first, lines, hrest, hcut⟩
    · rw [hcut] at h
      rcases List.mem_cons.mp h with rfl | h
      · exact List.cons_ne_nil _ _
      · exact ih h
    · rw [hcut] at h
      rcases List.mem_cons.mp h with rfl | h
      · exact List.cons_ne_nil _ _
      · exact ih (hrest ▸ List.mem_cons_of_mem _ h)

theorem byteSize_pos {text : List Char} (h : text ≠ []) : 0 < byteSize text := by
  cases text with
  | nil => exact absurd rfl h
  | cons c rest =>
    have hc := c.utf8Size_pos
    rw [byteSize_cons]
    omega

/-! The table of a source. -/

theorem length_ofSource (source : String) : (ofSource source).length = source.utf8ByteSize := by
  change total ((cutLines source.toList).map byteSize) = _
  rw [total_map_byteSize, flatten_cutLines, byteSize_toList]

theorem lineCount_ofSource {source : String} (h : WholeLines source.toList) :
    (ofSource source).lineCount = source.toList.count '\n' := by
  change (startsFrom 0 ((cutLines source.toList).map byteSize)).length = _
  rw [length_startsFrom, List.length_map, length_cutLines h]

theorem le_of_starts_ofSource {source : String} {i start : Nat}
    (h : (ofSource source).starts[i]? = some start) : i ≤ start := by
  have hsizes : ∀ s ∈ (cutLines source.toList).map byteSize, 0 < s := by
    intro s hs
    obtain ⟨line, hline, rfl⟩ := List.mem_map.mp hs
    exact byteSize_pos (ne_nil_of_mem_cutLines hline)
  have hle := le_of_startsFrom hsizes h
  omega

/-! Columns that are counted without leaving the word. -/

section

variable {table : LineTable} {line column : Nat}

/-- A column counted from the start of its line stays within a word. -/
def Fits (table : LineTable) (line column : Nat) : Prop :=
  ∀ start ∈ table.starts[line - 1]?, start + column < UInt64.size

instance (table : LineTable) (line column : Nat) : Decidable (table.Fits line column) :=
  inferInstanceAs (Decidable (∀ start ∈ _, _))

/-- Both points do, unless they are one and tell nothing. -/
def FitsBounds (table : LineTable) (p : Position) : Prop :=
  p.isDegenerate = true ∨
    table.Fits p.firstLine p.firstColumn ∧ table.Fits p.lastLine p.lastColumn

instance (table : LineTable) (p : Position) : Decidable (table.FitsBounds p) :=
  inferInstanceAs (Decidable (_ ∨ _))

theorem Fits.resolve? (h : table.Fits (line + 1) column) :
    table.resolve? (line + 1) column = table.starts[line]?.map (· + column) := by
  cases hstart : table.starts[line]? with
  | none => simp only [LineTable.resolve?, hstart, Option.map_none]
  | some start =>
    have hlt : start + column < UInt64.size := h start hstart
    simp only [LineTable.resolve?, hstart, Option.map_some, Nat.mod_eq_of_lt hlt]

end

variable {front : String}

theorem starts_ofSource_append (h : WholeLines front.toList) (back : String) :
    (ofSource (front ++ back)).starts =
      (ofSource front).starts ++ (ofSource back).starts.map (· + front.utf8ByteSize) := by
  have hcut : (cutLines (front ++ back).toList).map byteSize =
      (cutLines front.toList).map byteSize ++ (cutLines back.toList).map byteSize := by
    rw [String.toList_append, cutLines_append h, List.map_append]
  have htotal : total ((cutLines front.toList).map byteSize) = front.utf8ByteSize :=
    length_ofSource front
  change startsFrom 0 ((cutLines (front ++ back).toList).map byteSize) = _
  rw [hcut, startsFrom_append, htotal, startsFrom_add]
  rfl

theorem getElem?_starts_append (h : WholeLines front.toList) (back : String) (i : Nat) :
    (ofSource (front ++ back)).starts[i + front.toList.count '\n']? =
      (ofSource back).starts[i]?.map (· + front.utf8ByteSize) := by
  have hcount : (ofSource front).starts.length = front.toList.count '\n' := lineCount_ofSource h
  rw [starts_ofSource_append h, ← hcount, List.getElem?_append_right (by omega),
    Nat.add_sub_cancel, List.getElem?_map]

section

variable {back : String} {line column : Nat}

/-- Where a column fits behind more text, it fits without. -/
theorem Fits.of_append (h : WholeLines front.toList) (hline : 1 ≤ line)
    (hfits : (ofSource (front ++ back)).Fits (line + front.toList.count '\n') column) :
    (ofSource back).Fits line column := by
  obtain ⟨i, rfl⟩ := Nat.exists_eq_add_of_le' hline
  intro start hstart
  rw [Nat.add_sub_cancel] at hstart
  have hmoved : (ofSource (front ++ back)).starts[i + 1 + front.toList.count '\n' - 1]? =
      some (start + front.utf8ByteSize) := by
    rw [Nat.add_right_comm, Nat.add_sub_cancel, getElem?_starts_append h, hstart, Option.map_some]
  have hlt := hfits _ hmoved
  omega

theorem resolve?_ofSource_append (h : WholeLines front.toList) (hline : 1 ≤ line)
    (hfits : (ofSource (front ++ back)).Fits (line + front.toList.count '\n') column) :
    (ofSource (front ++ back)).resolve? (line + front.toList.count '\n') column =
      ((ofSource back).resolve? line column).map (· + front.utf8ByteSize) := by
  have hback := hfits.of_append h hline
  obtain ⟨i, rfl⟩ := Nat.exists_eq_add_of_le' hline
  rw [Nat.add_right_comm] at hfits ⊢
  rw [hfits.resolve?, hback.resolve?, getElem?_starts_append h, Option.map_map, Option.map_map]
  congr 1
  funext start
  simp only [Function.comp_apply]
  omega

end

end LineTable

end RubyTree
