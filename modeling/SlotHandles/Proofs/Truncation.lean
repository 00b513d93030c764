import SlotHandles.Report
import Mathlib.Data.List.Basic

/-!
# The buffer of a report

A report is assembled at the indices of an array that is one cell longer than the report may get.  Whatever formats a
piece is told how much space is left and answers with the size of the whole piece, cut or not, and the length counted so
far saturates at the limit.  Every store is checked against the array: a store outside of it, or the overwriting of the
last byte when there is none, has no result.

Along the pieces the cells below the length hold what was passed on so far (`Buffer.Holds`), which is the beginning of
the concatenated pieces that fits (`foldl_append_eq_take`).  So no store is ever outside, and cutting the pieces one by
one is cutting the line.
-/

namespace SlotHandles.Report

/-! ### The line -/

theorem toList_loop (b : ByteArray) (i : Nat) (r : List UInt8) :
    ByteArray.toList.loop b i r = r.reverse ++ b.data.toList.drop i := by
  induction i, r using ByteArray.toList.loop.induct b with
  | case1 i r h ih =>
    have hdrop : b.data.toList.drop i = b.get! i :: b.data.toList.drop (i + 1) := by
      simpa [ByteArray.get!, h] using List.drop_eq_getElem_cons (l := b.data.toList) h
    rw [ByteArray.toList.loop, if_pos h, ih, hdrop, List.reverse_cons, List.append_assoc]
    rfl
  | case2 i r h =>
    rw [ByteArray.toList.loop, if_neg h, List.drop_eq_nil_of_le (Nat.le_of_not_lt h), List.append_nil]

theorem bytes_eq (s : String) : bytes s = s.toByteArray.data.toList := toList_loop s.toByteArray 0 []

theorem bytes_append (s t : String) : bytes (s ++ t) = bytes s ++ bytes t := by
  rw [bytes_eq, bytes_eq, bytes_eq, String.toByteArray_append, ByteArray.data_append, Array.toList_append]

theorem bytes_newline : bytes "\n" = [newline] := by
  rw [bytes_eq]
  rfl

/-- The piece before the message, for a file name that need not be text. -/
def openingOf (file : List UInt8) (number : Nat) : List UInt8 :=
  file ++ bytes ":" ++ bytes (toString number) ++ bytes ": np::pointer contract violation: "

/-- The piece behind the message. -/
def closingOf (expression function : List UInt8) : List UInt8 :=
  bytes " [" ++ expression ++ bytes "] in " ++ function ++ [newline]

/-- The report as it would be without a limit. -/
def line (file : List UInt8) (number : Nat) (message expression function : List UInt8) : List UInt8 :=
  openingOf file number ++ message ++ closingOf expression function

theorem opening_eq (place : Location) : opening place = openingOf (bytes place.file) place.line := by
  simp only [opening, openingOf, bytes_append]
  rfl

theorem closing_eq (place : Location) (expression : String) :
    closing place expression = closingOf (bytes expression) (bytes place.function) := by
  rw [closingOf, ← bytes_newline]
  simp only [closing, bytes_append]
  rfl

/-- The line ends with a newline of its own. -/
theorem terminate_line (file : List UInt8) (number : Nat) (message expression function : List UInt8) :
    terminate (line file number message expression function) = line file number message expression function := by
  have hends : line file number message expression function =
      (openingOf file number ++ message ++ (bytes " [" ++ expression ++ bytes "] in " ++ function)) ++ [newline] :=
    (List.append_assoc ..).symm
  rw [hends, terminate, List.dropLast_concat]

theorem take_line_ne_nil (file : List UInt8) (number : Nat) (message expression function : List UInt8) :
    (line file number message expression function).take limit ≠ [] := by
  simp [line, closingOf, limit]

theorem length_terminate {buffer : List UInt8} (h : buffer ≠ []) : (terminate buffer).length = buffer.length := by
  have hpos := List.length_pos_of_ne_nil h
  rw [terminate, List.length_append, List.length_dropLast, List.length_singleton]
  omega

/-! ### Cutting piece by piece -/

theorem append_take (whole piece : List UInt8) : append (whole.take limit) piece = (whole ++ piece).take limit := by
  unfold append
  rw [List.take_append, List.length_take]
  congr 2
  omega

/-- Pieces that are cut one by one are the whole that is cut once, wherever the limit falls. -/
theorem foldl_append_eq_take (pieces : List (List UInt8)) (whole : List UInt8) :
    pieces.foldl append (whole.take limit) = (whole ++ pieces.flatten).take limit := by
  induction pieces generalizing whole with
  | nil => simp
  | cons piece pieces ih =>
    rw [List.foldl_cons, append_take, ih, List.flatten_cons, List.append_assoc]

/-- The line as it is reported: cut at the limit, and its last byte a newline. -/
theorem render_eq (place : Location) (message : List UInt8) (expression : String) :
    render place message expression =
      terminate ((line (bytes place.file) place.line message (bytes expression) (bytes place.function)).take limit) := by
  have hwhole := foldl_append_eq_take [opening place, message, closing place expression] []
  rw [List.take_nil] at hwhole
  unfold render
  rw [hwhole, opening_eq, closing_eq]
  simp [line]

/-! ### The array -/

/-- The cells that a report is assembled in. -/
abbrev Cells := Vector UInt8 (limit + 1)

def store (cells : Cells) (i : Nat) (b : UInt8) : Option Cells :=
  if h : i < limit + 1 then some (cells.set i b h) else none

/-- Store bytes from an index on, one after another. -/
def storeAll (cells : Cells) (start : Nat) : List UInt8 → Option Cells
  | [] => some cells
  | b :: bs => do storeAll (← store cells start b) (start + 1) bs

/-- What formats a text: given the space for it, the bytes that it passes on and the size that it returns. -/
abbrev Formatter := Nat → List UInt8 → List UInt8 × Nat

/-- As many bytes of the text are passed on as there is space for, and the size is that of the whole text. -/
structure Formatter.Cuts (format : Formatter) : Prop where
  passes : ∀ space text, (format space text).1 = text.take space
  size : ∀ space text, (format space text).2 = text.length

/-- The cells, and how many of them count. -/
structure Buffer where
  cells : Cells
  length : Nat

namespace Buffer

/-- Format a text behind what counts so far, from an index within the array. -/
def put (format : Formatter) (buffer : Buffer) (text : List UInt8) : Option Buffer :=
  if buffer.length < limit + 1 then do
    let formatted := format (limit - buffer.length) text
    let cells ← storeAll buffer.cells buffer.length formatted.1
    return ⟨cells, min (buffer.length + formatted.2) limit⟩
  else none

/-- Overwrite the last byte that counts, if there is one, and hand out the bytes that count. -/
def finish (buffer : Buffer) : Option (List UInt8) :=
  if buffer.length = 0 then none
  else do
    let cells ← store buffer.cells (buffer.length - 1) newline
    return cells.toList.take buffer.length

/-- The cells that count hold exactly these bytes, and there is a cell behind them. -/
structure Holds (buffer : Buffer) (kept : List UInt8) : Prop where
  length : buffer.length = kept.length
  cells : buffer.cells.toList.take buffer.length = kept
  bound : kept.length ≤ limit

end Buffer

/-- Assemble a report in cells of any content. -/
def assemble (format : Formatter) (cells : Cells) (file : List UInt8) (number : Nat)
    (message expression function : List UInt8) : Option (List UInt8) := do
  let buffer ← [openingOf file number, message, closingOf expression function].foldlM (Buffer.put format) ⟨cells, 0⟩
  buffer.finish

section

variable {format : Formatter} {cells : Cells} {buffer : Buffer} {kept : List UInt8}

theorem store_of_lt {i : Nat} (h : i < limit + 1) (b : UInt8) : store cells i b = some (cells.set i b h) := dif_pos h

theorem take_set_succ {i : Nat} (h : i < limit + 1) (b : UInt8) :
    (cells.set i b h).toList.take (i + 1) = cells.toList.take i ++ [b] := by
  have hlen : i < cells.toList.length := by simpa using h
  rw [Vector.toList_set, List.take_succ_eq_append_getElem (by simpa using hlen), List.getElem_set_self,
    List.take_set_of_le (Nat.le_refl i)]

/-- Bytes with a cell for each are stored, and everything before them stays. -/
theorem storeAll_of_le (cells : Cells) {start : Nat} {bs : List UInt8} (h : start + bs.length ≤ limit + 1) :
    ∃ cells', storeAll cells start bs = some cells' ∧
      cells'.toList.take (start + bs.length) = cells.toList.take start ++ bs := by
  induction bs generalizing cells start with
  | nil => exact ⟨cells, rfl, by simp⟩
  | cons b bs ih =>
    rw [List.length_cons] at h
    have hstart : start < limit + 1 := by omega
    have hrest : start + 1 + bs.length ≤ limit + 1 := by omega
    obtain ⟨cells', hstore, htake⟩ := ih (cells.set start b hstart) hrest
    refine ⟨cells', ?_, ?_⟩
    · unfold storeAll
      rw [store_of_lt hstart]
      exact hstore
    · rw [List.length_cons, ← Nat.add_right_comm, Nat.add_assoc] at *
      rw [htake, take_set_succ, List.append_assoc]
      rfl

theorem Buffer.Holds.put (hf : format.Cuts) (hb : buffer.Holds kept) (text : List UInt8) :
    ∃ buffer', buffer.put format text = some buffer' ∧ buffer'.Holds (append kept text) := by
  have hlength := hb.length
  have hbound := hb.bound
  have hroom : buffer.length + (text.take (limit - buffer.length)).length ≤ limit + 1 := by
    rw [List.length_take]
    omega
  obtain ⟨cells', hstore, htake⟩ := storeAll_of_le buffer.cells hroom
  have hlength' : min (buffer.length + text.length) limit = (append kept text).length := by
    unfold append
    rw [List.length_append, List.length_take]
    omega
  refine ⟨⟨cells', min (buffer.length + text.length) limit⟩, ?_, hlength', ?_, length_append_le text hbound⟩
  · unfold Buffer.put
    have hformat : format (limit - buffer.length) text = (text.take (limit - buffer.length), text.length) :=
      Prod.ext (hf.passes ..) (hf.size ..)
    rw [if_pos (by omega), hformat]
    dsimp only
    rw [hstore]
    rfl
  · have hkeep : buffer.length + (text.take (limit - buffer.length)).length = (append kept text).length := by
      unfold append
      rw [List.length_append, hlength]
    rw [hlength', ← hkeep, htake, hb.cells, hlength]
    rfl

/-- No piece is stored outside of the array. -/
theorem Buffer.Holds.putAll (hf : format.Cuts) (pieces : List (List UInt8)) (hb : buffer.Holds kept) :
    ∃ buffer', pieces.foldlM (Buffer.put format) buffer = some buffer' ∧
      buffer'.Holds (pieces.foldl append kept) := by
  induction pieces generalizing buffer kept with
  | nil => exact ⟨buffer, rfl, hb⟩
  | cons piece pieces ih =>
    obtain ⟨middle, hput, hm⟩ := hb.put hf piece
    obtain ⟨buffer', hrest, hb'⟩ := ih hm
    refine ⟨buffer', ?_, hb'⟩
    rw [List.foldlM_cons, hput]
    exact hrest

theorem Buffer.Holds.finish (hb : buffer.Holds kept) (hne : kept ≠ []) : buffer.finish = some (terminate kept) := by
  have hlength := hb.length
  have hbound := hb.bound
  have hpos : 0 < kept.length := List.length_pos_of_ne_nil hne
  obtain ⟨n, hn⟩ : ∃ n, buffer.length = n + 1 := ⟨buffer.length - 1, by omega⟩
  have hlast : n < limit + 1 := by omega
  have hstore : store buffer.cells n newline = some (buffer.cells.set n newline hlast) := store_of_lt hlast newline
  have hbefore : buffer.cells.toList.take n = kept.dropLast := by
    have hlen : buffer.length < buffer.cells.toList.length := by
      rw [Vector.length_toList]
      omega
    rw [← hb.cells, List.dropLast_take hlen, hn, Nat.add_sub_cancel]
  unfold Buffer.finish terminate
  rw [if_neg (by omega), hn, Nat.add_sub_cancel, hstore]
  change some ((buffer.cells.set n newline _).toList.take (n + 1)) = _
  rw [take_set_succ, hbefore]

/-- Assembling a report never fails, and gives the line, cut at the limit and ended with a newline. -/
theorem assemble_eq (hf : format.Cuts) (cells : Cells) (file : List UInt8) (number : Nat)
    (message expression function : List UInt8) :
    assemble format cells file number message expression function =
      some (terminate ((line file number message expression function).take limit)) := by
  have hstart : Buffer.Holds ⟨cells, 0⟩ [] := ⟨rfl, rfl, Nat.zero_le limit⟩
  obtain ⟨buffer, hrun, hb⟩ := hstart.putAll hf [openingOf file number, message, closingOf expression function]
  have hwhole := foldl_append_eq_take [openingOf file number, message, closingOf expression function] []
  have hflat : [] ++ [openingOf file number, message, closingOf expression function].flatten =
      line file number message expression function := by
    simp [line]
  rw [List.take_nil, hflat] at hwhole
  rw [hwhole] at hb
  unfold assemble
  rw [hrun]
  exact hb.finish (take_line_ne_nil file number message expression function)

end

/-- **The reported line.**  A report is assembled within its array whatever the array held, whatever the pieces are and
however long they are.  It has as many bytes as the line, but no more than the limit and at least one, and they are the
first bytes of the line with the last of them replaced by a newline: the line itself if it is within the limit. -/
theorem report_is_line_cut {format : Formatter} (hf : format.Cuts) (cells : Cells) (file : List UInt8) (number : Nat)
    (message expression function : List UInt8) :
    ∃ report, assemble format cells file number message expression function = some report ∧
      report = ((line file number message expression function).take limit).dropLast ++ [newline] ∧
      report.length = min limit (line file number message expression function).length ∧
      1 ≤ report.length ∧ report.length ≤ limit ∧
      ((line file number message expression function).length ≤ limit →
        report = line file number message expression function) ∧
      ∀ (place : Location) (text : String), bytes place.file = file → place.line = number →
        bytes text = expression → bytes place.function = function → render place message text = report := by
  have hlength := (length_terminate (take_line_ne_nil file number message expression function)).trans
    List.length_take
  have hpos := List.length_pos_of_ne_nil (take_line_ne_nil file number message expression function)
  rw [List.length_take] at hpos
  refine ⟨_, assemble_eq hf cells file number message expression function, rfl, hlength, ?_, ?_, ?_, ?_⟩
  · omega
  · omega
  · intro hle
    rw [List.take_of_length_le hle, terminate_line]
  · rintro place text rfl rfl rfl rfl
    exact render_eq place message text

/-- The formatter that does no more than it has to. -/
def cutting : Formatter := fun space text => (text.take space, text.length)

theorem cuts_cutting : Formatter.Cuts cutting := ⟨fun _ _ => rfl, fun _ _ => rfl⟩

/-- A message that is longer than the report leaves no space for the last piece. -/
theorem report_is_line_cut_long_message : ∃ report,
    assemble cutting (Vector.replicate (limit + 1) 0) (bytes "slot.hpp") 140 (List.replicate 600 120) (bytes "fits")
      (bytes "main") = some report ∧
    report.length = 511 := by
  obtain ⟨report, hrun, -, hlength, -⟩ := report_is_line_cut cuts_cutting (Vector.replicate (limit + 1) 0)
    (bytes "slot.hpp") 140 (List.replicate 600 120) (bytes "fits") (bytes "main")
  have hlong : 511 ≤ (line (bytes "slot.hpp") 140 (List.replicate 600 120) (bytes "fits") (bytes "main")).length := by
    simp only [line, List.length_append, List.length_replicate]
    omega
  exact ⟨report, hrun, hlength.trans (Nat.min_eq_left hlong)⟩

end SlotHandles.Report
