import CompilationBridge.Text.Lines
import Mathlib.Data.List.DropRight

/-! Lines of a stream. Taking two chunks one after the other is taking them as one, so the cuts of a
stream do not show: what the chunks and the flush hand on is read off the whole stream. -/

namespace CompilationBridge.Text

/-- The lines of a text: the pieces between newlines, without the carriage returns at their ends, less
the empty ones. -/
def lines (text : Bytes) : List Bytes :=
  ((text.splitOn 0x0A).map (·.rdropWhile (· = 0x0D))).filter (· ≠ [])

namespace LineBuffer

/-! ### Cutting -/

theorem cut_append (done first second : Bytes) :
    cut done (first ++ second) =
      ((cut done first).1 ++ (cut (cut done first).2.reverse second).1,
        (cut (cut done first).2.reverse second).2) := by
  induction first generalizing done with
  | nil => simp [cut]
  | cons b rest ih =>
      rw [List.cons_append, cut, cut]
      split
      · rw [ih []]
        rfl
      · exact ih (b :: done)

/-- Bytes are cut at all newlines and only there. -/
theorem cut_eq_splitOn {done : Bytes} (hdone : 0x0A ∉ done) (bytes : Bytes) :
    (cut done bytes).1 ++ [(cut done bytes).2] = (done.reverse ++ bytes).splitOn 0x0A := by
  have hreverse : 0x0A ∉ done.reverse := fun h => hdone (List.mem_reverse.1 h)
  induction bytes generalizing done with
  | nil =>
      rw [List.append_nil, List.splitOn_eq_singleton hreverse]
      rfl
  | cons b rest ih =>
      rw [cut]
      split
      · rename_i hb
        subst hb
        rw [List.splitOn_append_cons_self_of_not_mem hreverse, List.cons_append,
          ih List.not_mem_nil List.not_mem_nil]
        rfl
      · rename_i hb
        have hmore : 0x0A ∉ b :: done := List.not_mem_cons_of_ne_of_not_mem (fun h => hb h.symm) hdone
        rw [ih hmore fun h => hmore (List.mem_reverse.1 h), List.reverse_cons, List.append_assoc,
          List.singleton_append]

theorem no_newline_of_mem_splitOn {piece bytes : Bytes} (h : piece ∈ bytes.splitOn 0x0A) : 0x0A ∉ piece := by
  induction bytes generalizing piece with
  | nil => simp_all
  | cons b rest ih =>
      rw [List.splitOn_cons_eq_if_modifyHead] at h
      obtain ⟨first, more, hrest⟩ := List.exists_cons_of_ne_nil (List.splitOn_ne_nil 0x0A rest)
      rw [hrest] at h ih
      split at h
      · rcases List.mem_cons.1 h with h | h
        · simp [h]
        · exact ih h
      · rename_i hb
        rcases List.mem_cons.1 h with h | h
        · rw [h]
          exact List.not_mem_cons_of_ne_of_not_mem (fun heq => hb (by simp [← heq])) (ih List.mem_cons_self)
        · exact ih (List.mem_cons_of_mem first h)

/-! ### Lines of pieces -/

theorem line?_eq {piece : Bytes} (h : 0x0A ∉ piece) :
    line? piece =
      if piece.rdropWhile (· = 0x0D) = [] then none else some (piece.rdropWhile (· = 0x0D)) := by
  have htrim : piece.rdropWhile isLineEnd = piece.rdropWhile (· = 0x0D) := by
    induction piece using List.reverseRecOn with
    | nil => rfl
    | append_singleton before b ih =>
        rw [List.mem_append, not_or] at h
        have hb : b ≠ 0x0A := fun heq => h.2 (by simp [heq])
        rw [List.rdropWhile_concat, List.rdropWhile_concat, ih h.1]
        simp [isLineEnd, hb]
  rw [← htrim]
  rfl

/-- What is handed on of some pieces of a text that is cut at its newlines. -/
theorem filterMap_line? (text : Bytes) : (text.splitOn 0x0A).filterMap line? = lines text := by
  rw [lines, List.filter_map, List.filterMap_congr fun piece h => line?_eq (no_newline_of_mem_splitOn h)]
  induction text.splitOn 0x0A with
  | nil => rfl
  | cons piece rest ih =>
      by_cases hpiece : piece.rdropWhile (· = 0x0D) = [] <;> simp_all

/-! ### Chunks -/

theorem write_append (w : LineBuffer) (first second : Bytes) :
    w.write (first ++ second) =
      (((w.write first).1.write second).1, (w.write first).2 ++ ((w.write first).1.write second).2) := by
  simp only [write, cut_append, List.filterMap_append]

/-- Takes chunks one after the other, and tells of each. -/
def feed (w : LineBuffer) : List Bytes → LineBuffer × List Receipt
  | [] => (w, [])
  | chunk :: rest =>
    let (w, receipt) := w.accept chunk
    let (w, more) := feed w rest
    (w, receipt :: more)

/-- Chunks come to the same as their bytes in one piece. -/
theorem feed_eq_write (w : LineBuffer) (chunks : List Bytes) :
    (w.feed chunks).1 = (w.write chunks.flatten).1 ∧
      (w.feed chunks).2.flatMap (·.lines) = (w.write chunks.flatten).2 := by
  induction chunks generalizing w with
  | nil => simp [feed, write, cut]
  | cons chunk rest ih =>
      obtain ⟨hbuffer, hlines⟩ := ih (w.write chunk).1
      rw [List.flatten_cons, write_append]
      refine ⟨hbuffer, ?_⟩
      rw [← hlines]
      rfl

theorem taken_feed (w : LineBuffer) (chunks : List Bytes) :
    (w.feed chunks).2.map (·.taken) = chunks.map (·.length) := by
  induction chunks generalizing w with
  | nil => rfl
  | cons chunk rest ih => exact congrArg (chunk.length :: ·) (ih (w.write chunk).1)

/-- A whole text in one chunk, and what the flush adds. -/
theorem write_flush (text : Bytes) :
    (write {} text).2 ++ (write {} text).1.flush.2 = lines text := by
  rw [← filterMap_line?, ← List.nil_append text, ← List.reverse_nil, ← cut_eq_splitOn List.not_mem_nil text,
    List.filterMap_append]
  rfl

/-- Of a stream that is flushed at its end the lines of the whole are handed on, in their order, however
it was cut into chunks. Each chunk is taken whole, and a second flush hands on nothing. -/
theorem lines_of_chunks (chunks : List Bytes) :
    let (w, receipts) := feed {} chunks
    receipts.flatMap (·.lines) ++ w.flush.2 = lines chunks.flatten ∧
      receipts.map (·.taken) = chunks.map (·.length) ∧
      w.flush.1.flush.2 = [] := by
  obtain ⟨hbuffer, hlines⟩ := feed_eq_write {} chunks
  refine ⟨?_, taken_feed {} chunks, rfl⟩
  change (feed {} chunks).2.flatMap (·.lines) ++ (feed {} chunks).1.flush.2 = lines chunks.flatten
  rw [hbuffer, hlines]
  exact write_flush chunks.flatten

/-- A cut between a carriage return and its newline. -/
example : (feed {} [[0x61, 0x0D], [], [0x0A, 0x0A, 0x62]]).2.map (·.lines) = [[], [], [[0x61]]] := by
  decide

end LineBuffer

end CompilationBridge.Text
