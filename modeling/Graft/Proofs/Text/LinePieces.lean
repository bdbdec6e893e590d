import Graft.Proofs.Text.BlankLine
import Graft.Proofs.Text.LineTable

/-!
# `Graft.Proofs.Text.LinePieces` — what the lines of the table hold

The table of line starts and the pieces of a text between its newlines count the same lines: the entry of a
line in the table is where its piece begins (`LineIndex.exists_piece_of_lineStart?`). Both are followed line
by line, from the first line of the text on (`lineInduction`).
-/

namespace Graft

namespace Text

/-- Induction on the lines of a text: the last one, which has no newline, and one more line in front. -/
@[elab_as_elim]
theorem lineInduction {motive : Text → Prop} (last : ∀ body, '\n' ∉ body → motive body)
    (line : ∀ body more, '\n' ∉ body → motive more → motive (body ++ '\n' :: more)) (t : Text) :
    motive t := by
  rcases plain_or_exists_newline t with hplain | ⟨body, more, rfl, hbody⟩
  · exact last t hplain
  · exact line body more hbody (lineInduction last line more)
termination_by t.length

theorem pieces_of_plain {body : Text} (h : '\n' ∉ body) : pieces body = [body] := by
  induction body with
  | nil => rfl
  | cons c cs ih =>
      obtain ⟨hc, hcs⟩ : '\n' ≠ c ∧ '\n' ∉ cs := by simpa using h
      exact pieces_cons (Ne.symm hc) (ih hcs)

theorem pieces_append_newline {body : Text} (h : '\n' ∉ body) (more : Text) :
    pieces (body ++ '\n' :: more) = body :: pieces more := by
  induction body with
  | nil => exact pieces_newline more
  | cons c cs ih =>
      obtain ⟨hc, hcs⟩ : '\n' ≠ c ∧ '\n' ∉ cs := by simpa using h
      exact pieces_cons (Ne.symm hc) (ih hcs)

end Text

namespace LineIndex

theorem startsAfterNewlines_of_plain {body : Text} (h : '\n' ∉ body) (offset : Nat) :
    startsAfterNewlines body offset = [] := by
  apply List.eq_nil_iff_forall_not_mem.mpr
  intro start hstart
  obtain ⟨s, r, rfl, -⟩ := mem_startsAfterNewlines.mp hstart
  simp at h

theorem startsAfterNewlines_append_newline {body : Text} (h : '\n' ∉ body) (more : Text)
    (offset : Nat) : startsAfterNewlines (body ++ '\n' :: more) offset
      = (offset + body.size + 1) :: startsAfterNewlines more (offset + body.size + 1) := by
  induction body generalizing offset with
  | nil => simp [startsAfterNewlines]
  | cons c cs ih =>
      obtain ⟨hc, hcs⟩ : '\n' ≠ c ∧ '\n' ∉ cs := by simpa using h
      rw [List.cons_append, startsAfterNewlines, if_neg (Ne.symm hc), ih hcs, Text.size_cons,
        Nat.add_assoc offset]

/-- The entry of a line and its piece, in a text that itself begins at position `offset`. -/
theorem exists_piece_of_getElem? {t : Text} {offset k start : Nat}
    (h : (offset :: startsAfterNewlines t offset)[k]? = some start) :
    ∃ before body rest, t = before ++ (body ++ rest) ∧ offset + before.size = start ∧
      t.pieces[k]? = some body ∧ '\n' ∉ body ∧ (rest = [] ∨ ∃ more, rest = '\n' :: more) := by
  induction t using Text.lineInduction generalizing offset k with
  | last body hbody =>
      rw [startsAfterNewlines_of_plain hbody] at h
      obtain ⟨rfl, rfl⟩ : k = 0 ∧ offset = start := by
        cases k with
        | zero => simpa using h
        | succ k => simp at h
      exact ⟨[], body, [], by simp, rfl, by simp [Text.pieces_of_plain hbody], hbody, .inl rfl⟩
  | line body more hbody ih =>
      rw [startsAfterNewlines_append_newline hbody] at h
      rw [Text.pieces_append_newline hbody]
      cases k with
      | zero =>
          obtain rfl : offset = start := by simpa using h
          exact ⟨[], body, '\n' :: more, rfl, rfl, rfl, hbody, .inr ⟨more, rfl⟩⟩
      | succ k =>
          -- the rest of the table is the table of what comes behind the first newline
          rw [List.getElem?_cons_succ] at h
          obtain ⟨before, piece, rest, rfl, hsize, hpiece, hplain, hend⟩ := ih h
          refine ⟨body ++ '\n' :: before, piece, rest, by simp, ?_, hpiece, hplain, hend⟩
          have hwidth : Char.utf8Size '\n' = 1 := rfl
          rw [Text.size_append, Text.size_cons]
          omega

/-- `lineStart?` and `pieces` agree: where the table has a line begin its piece stands, up to a newline or
    to the end of the text. By `lineInduction`. -/
theorem exists_piece_of_lineStart? {t : Text} {line start : Nat}
    (h : (ofText t).lineStart? line = some start) :
    ∃ body rest, t.pieces[line - 1]? = some body ∧ t.from? start = some (body ++ rest) ∧
      '\n' ∉ body ∧ (rest = [] ∨ ∃ more, rest = '\n' :: more) := by
  rw [lineStart?] at h
  split at h
  · cases h
  obtain ⟨before, body, rest, rfl, hsize, hpiece, hplain, hend⟩ := exists_piece_of_getElem? h
  refine ⟨body, rest, hpiece, ?_, hplain, hend⟩
  rw [← hsize, Nat.zero_add, Text.from?_size_append]

end LineIndex

end Graft
