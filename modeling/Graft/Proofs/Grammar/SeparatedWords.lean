import Graft.Proofs.Grammar.SpelledOut
import Graft.Proofs.Recognizer.Items
import Graft.Proofs.TypeName.Layout

/-!
# `Graft.Proofs.Grammar.SeparatedWords` — writing words down and reading them back

Words are written down with a separator between them, and perhaps with one behind the last of them
(`WordsLayout`). How many blanks stand before each word and each separator is left open. A list of words
reads every such text back: the words in order, and whether a separator is at the end
(`Grammar.list_words`).

The words are read one by one. A word ends where blanks or a separator come next, as neither starts with a
word character, and the separator is read behind it; both leave the rest of the text to the next round
(`result_runItems_separated`). The items come to an end where nothing but blanks is left.
-/

namespace Graft

/-- What may stand between words: a text that starts with neither a word character nor white space. -/
def IsSeparator (s : Text) : Prop :=
  ∃ c more, s = c :: more ∧ Unicode.isWordChar c = false ∧ Unicode.isWhiteSpace c = false

/-- The texts that can be written for some words, from the first word on. -/
inductive WordsLayout (separator : Text) : List Text → Bool → Text → Prop
  | last {name : Text} (hname : Token.IsIdentifier name) :
      WordsLayout separator [name] false name
  | trailing {name gap : Text} (hname : Token.IsIdentifier name) (hgap : gap.Skipped) :
      WordsLayout separator [name] true (name ++ (gap ++ separator))
  | next {name gap lead s : Text} {names : List Text} {trailing : Bool}
      (hname : Token.IsIdentifier name) (hgap : gap.Skipped) (hlead : lead.Skipped)
      (hnames : WordsLayout separator names trailing s) :
      WordsLayout separator (name :: names) trailing (name ++ (gap ++ (separator ++ (lead ++ s))))

variable {separator s blanks : Text} {names : List Text} {trailing : Bool}

theorem Token.IsIdentifier.size_pos {name : Text} (h : IsIdentifier name) : 0 < name.size := by
  obtain ⟨c, others, rfl, -⟩ := h
  have := c.utf8Size_pos
  rw [Text.size_cons]
  omega

/-- Each name of a `WordsLayout` takes up some of the text, so the loop over items has rounds enough. -/
theorem WordsLayout.length_le_size (h : WordsLayout separator names trailing s) :
    names.length ≤ s.size := by
  induction h with
  | last hname => exact hname.size_pos
  | trailing hname =>
      have := hname.size_pos
      simp
      omega
  | next hname _ _ _ ih =>
      have := hname.size_pos
      simp
      omega

/-! ## Where words and separators end -/

theorem IsSeparator.head_not_isSkipped (h : IsSeparator separator) :
    ∃ c, separator.head? = some c ∧ Recognizer.isSkipped c = false := by
  obtain ⟨c, more, rfl, -, hspace⟩ := h
  refine ⟨c, rfl, ?_⟩
  cases hc : Recognizer.isSkipped c with
  | false => rfl
  | true =>
      have hskipped : Text.Skipped [c] := by simpa [Text.Skipped] using hc
      rw [hskipped.isWhiteSpace c (by simp)] at hspace
      cases hspace

/-- An `IsSeparator` begins with no word character, so an identifier ends in front of it. -/
theorem IsSeparator.endsIdentifier (h : IsSeparator separator) (more : Text) :
    Token.EndsIdentifier (separator ++ more) := by
  obtain ⟨c, others, rfl, hword, -⟩ := h
  rintro d ⟨⟩
  exact hword

/-- `Skipped` text in front of what ends an identifier ends it as well: no blank is a word character. -/
theorem Text.Skipped.endsIdentifier {gap more : Text} (hgap : gap.Skipped)
    (hmore : Token.EndsIdentifier more) : Token.EndsIdentifier (gap ++ more) := by
  cases gap with
  | nil => exact hmore
  | cons c gap =>
      rintro d ⟨⟩
      exact Unicode.not_isWordChar_of_isWhiteSpace (hgap.isWhiteSpace c (List.mem_cons_self ..))

namespace Recognizer

variable {t : Text} {pos : Nat}

/-- `symbol` has no answer where only blanks are left, since an `IsSeparator` does not begin with one. -/
theorem result_symbol_blanks (hseparator : IsSeparator separator) (hblanks : blanks.Skipped)
    (h : t.from? pos = some blanks) : (symbol separator t pos).result = .ok none := by
  apply result_symbol_none h
  obtain ⟨c, more, rfl, -⟩ := hseparator
  have hnone : (blanks ++ []).dropWhile isSkipped = [] := (takeWhile_isSkipped hblanks (by simp)).2
  rw [List.append_nil] at hnone
  rw [hnone, List.prefix_nil]
  simp

/-- Nor has `word`. -/
theorem result_word_blanks (hblanks : blanks.Skipped) (h : t.from? pos = some blanks) :
    (word t pos).result = .ok none := by
  have hend : t.from? pos = some (blanks ++ []) := by rw [h, List.append_nil]
  exact result_word_none hend hblanks.isWhiteSpace (by simp)

/-! ## The items -/

/-- What is to be known when words have been read up to the blanks at the end: the items read in addition
    to earlier ones, where the first of these starts and where the last token stops. -/
structure ReadWords (t : Text) (names : List Text) (trailing : Bool) (start stop : Nat)
    (earlier : List Element) (run : ItemRun) : Prop where
  items : ∃ (first : Extent) (others : List Extent), run.items = earlier ++ (first :: others).map .word ∧
    (first :: others).map (fun x => x.content? t) = names.map some ∧ first.start = start
  trailing_eq : run.trailing = trailing
  last_eq : run.last = ⟨stop, stop⟩

/-- One more item for `ReadWords`: a word that was read behind the items so far. -/
theorem ReadWords.single {x : Extent} {name : Text} {start stop : Nat} {earlier : List Element}
    {run : ItemRun} (hitems : run.items = earlier ++ [.word x]) (hx : x.content? t = some name)
    (hstart : x.start = start) (htrailing : run.trailing = trailing) (hlast : run.last = ⟨stop, stop⟩) :
    ReadWords t [name] trailing start stop earlier run :=
  ⟨⟨x, [], hitems, congrArg ([·]) hx, hstart⟩, htrailing, hlast⟩

/-- One name more in front of what `ReadWords` says of the rest. -/
theorem ReadWords.cons {x : Extent} {name : Text} {start start' stop : Nat} {earlier : List Element}
    {run : ItemRun} (h : ReadWords t names trailing start' stop (earlier ++ [.word x]) run)
    (hx : x.content? t = some name) (hstart : x.start = start) :
    ReadWords t (name :: names) trailing start stop earlier run := by
  obtain ⟨first, others, hitems, hcontents, -⟩ := h.items
  refine ⟨⟨x, first :: others, ?_, ?_, hstart⟩, h.trailing_eq, h.last_eq⟩
  · rw [hitems, List.append_assoc]
    rfl
  · rw [List.map_cons, hx, hcontents, List.map_cons]

/-- One round of `runItems`, over a name and the separator behind it. Blanks in front of either are
    skipped, and the loop goes on behind the separator. -/
theorem result_runItems_separated {run : ItemRun} {lead name gap rest : Text}
    (hseparator : IsSeparator separator) (hlead : lead.Skipped) (hname : Token.IsIdentifier name)
    (hgap : gap.Skipped)
    (h : t.from? run.last.taken = some (lead ++ (name ++ (gap ++ (separator ++ rest))))) (bound : Nat) :
    ∃ run' : ItemRun, run'.items = run.items ++ [.word (.token run.last.taken lead name)] ∧
      run'.trailing = true ∧
      run'.last = ⟨run.last.taken + lead.size + (name.size + (gap.size + separator.size)),
        run.last.taken + lead.size + (name.size + (gap.size + separator.size))⟩ ∧
      t.from? run'.last.taken = some rest ∧
      (runItems t word (symbol separator) (bound + 1) run).result
        = (runItems t word (symbol separator) bound run').result := by
  have hends : Token.EndsIdentifier (gap ++ (separator ++ rest)) :=
    hgap.endsIdentifier (hseparator.endsIdentifier rest)
  have hword := result_word h hlead.isWhiteSpace hname hends
  have hbehind : t.from? (run.last.taken + lead.size + name.size) = some (gap ++ (separator ++ rest)) :=
    Text.from?_add_size (Text.from?_add_size h)
  have hle : run.last.taken ≤ run.last.taken + lead.size + name.size := by omega
  obtain ⟨run', hitems, htrailing, hlast, hrest, hrun⟩ :=
    result_runItems_symbol hword hle hbehind hgap hseparator.head_not_isSkipped bound
  refine ⟨run', hitems, htrailing, hlast.trans ?_, hrest, hrun⟩
  have hsize : run.last.taken + lead.size + name.size + gap.size + separator.size
      = run.last.taken + lead.size + (name.size + (gap.size + separator.size)) := by omega
  rw [← hsize]
  rfl

/-- `runItems` reads all the names of a `WordsLayout` and nothing more. The induction is on how the names
    are written down, since each round leaves a `WordsLayout` of the names to come. -/
theorem exists_readWords (hseparator : IsSeparator separator) (hblanks : blanks.Skipped)
    (hs : WordsLayout separator names trailing s) {run : ItemRun} {lead : Text} {bound : Nat}
    (hlead : lead.Skipped) (h : t.from? run.last.taken = some (lead ++ (s ++ blanks)))
    (hbound : names.length < bound) :
    ∃ run', (runItems t word (symbol separator) bound run).result = .ok run' ∧
      ReadWords t names trailing (run.last.taken + lead.size) (run.last.taken + lead.size + s.size)
        run.items run' := by
  induction hs generalizing run lead bound with
  | @last name hname =>
      obtain ⟨bound, rfl⟩ : ∃ b, bound = b + 1 := ⟨bound - 1, by omega⟩
      have hends : Token.EndsIdentifier blanks := by
        rw [← List.append_nil blanks]
        exact hblanks.endsIdentifier (by simp [Token.EndsIdentifier])
      have hword := result_word h hlead.isWhiteSpace hname hends
      have hbehind : t.from? (run.last.taken + lead.size + name.size) = some blanks :=
        Text.from?_add_size (Text.from?_add_size h)
      have hnone := result_symbol_blanks hseparator hblanks hbehind
      exact ⟨_, result_runItems_last hword hnone,
        .single rfl (Extent.content?_token h) rfl rfl rfl⟩
  | @trailing name gap hname hgap =>
      obtain ⟨bound, rfl⟩ : ∃ b, bound = b + 2 := ⟨bound - 2, by simp at hbound; omega⟩
      have h : t.from? run.last.taken = some (lead ++ (name ++ (gap ++ (separator ++ blanks)))) := by
        simpa using h
      obtain ⟨run', hitems, htrailing, hlast, hrest, hrun⟩ :=
        result_runItems_separated hseparator hlead hname hgap h (bound + 1)
      have hstop : (runItems t word (symbol separator) (bound + 1) run').result = .ok run' :=
        result_runItems_stop (result_word_blanks hblanks hrest)
      refine ⟨run', hrun.trans hstop, .single hitems (Extent.content?_token h) rfl htrailing ?_⟩
      rw [hlast]
      simp
  | @next name gap lead' s names trailing hname hgap hlead' hnames ih =>
      obtain ⟨bound, rfl⟩ : ∃ b, bound = b + 1 := ⟨bound - 1, by omega⟩
      have h : t.from? run.last.taken
          = some (lead ++ (name ++ (gap ++ (separator ++ (lead' ++ (s ++ blanks)))))) := by
        simpa using h
      obtain ⟨run₁, hitems, -, hlast, hrest, hrun⟩ :=
        result_runItems_separated hseparator hlead hname hgap h bound
      obtain ⟨run', hrun', hread⟩ := ih hlead' hrest (Nat.lt_of_succ_lt_succ hbound)
      have hsize : run.last.taken + lead.size
          + Text.size (name ++ (gap ++ (separator ++ (lead' ++ s))))
          = run₁.last.taken + lead'.size + s.size := by
        rw [hlast]
        simp [Nat.add_assoc]
      rw [hitems] at hread
      rw [hsize]
      exact ⟨run', hrun.trans hrun', hread.cons (Extent.content?_token h) rfl⟩

end Recognizer

namespace Grammar

open Recognizer

/-- **Words in a list.** However `WordsLayout` writes names with separators between them, the `list` rule
    of words and this separator reads back exactly these names in order, where only blanks follow, with a
    trailing separator if there is one. The content runs from the first name to the last token, and the
    span ends there as well, in front of the blanks. -/
theorem list_words (g : Grammar) {t lead : Text} {pos : Nat} (hseparator : IsSeparator separator)
    (hs : WordsLayout separator names trailing s) (hlead : lead.Skipped) (hblanks : blanks.Skipped)
    (h : t.from? pos = some (lead ++ (s ++ blanks))) :
    ∃ (x : Extent) (words : List Extent),
      (g.recognizer (.list .word (.symbol separator) none none true true) t pos).result
        = .ok (some (.list x (words.map .word) trailing)) ∧
      words.map (fun x => x.content? t) = names.map some ∧ x.Delimits t pos lead s := by
  have hbound : names.length < itemBound t pos := by
    have := hs.length_le_size
    rw [itemBound, Text.ahead_of_from? h]
    simp
    omega
  have hstart : t.from? (ItemRun.start pos).last.taken = some (lead ++ (s ++ blanks)) := h
  obtain ⟨run, hrun, hread⟩ := exists_readWords hseparator hblanks hs hlead hstart hbound
  obtain ⟨first, others, hitems, hcontents, hfirst⟩ := hread.items
  have hitems : run.items = (first :: others).map .word := hitems
  let shape : ListShape := ⟨word, symbol separator, none, none, true, true⟩
  have hlist : (list shape t pos).result
      = (Extent.ofRange t first.start run.last.stop ⟨pos, run.last.taken⟩).result.map
          fun x => some (.list x run.items run.trailing) :=
    result_list_bare rfl rfl rfl hrun (congrArg List.head? hitems)
  have hextent : (Extent.ofRange t first.start run.last.stop ⟨pos, run.last.taken⟩).result
      = .ok (.token pos lead s) := by
    rw [hfirst, hread.last_eq]
    exact Extent.result_ofRange_token h
  refine ⟨.token pos lead s, first :: others, ?_, hcontents, Extent.delimits_token h⟩
  rw [result_recognizer, Rule.recognizer]
  refine hlist.trans ?_
  rw [hextent, hitems, hread.trailing_eq]
  rfl

/-- `list_words` for a separator with a blank and a wide character in it, once between two words and once
    behind them. -/
theorem list_words_guillemets :
    Text.from? ['é', ' ', 'a', '\n', '-', ' ', '»', 'b', '-', ' ', '»', '\t'] 2
        = some ([' '] ++ (['a', '\n', '-', ' ', '»', 'b', '-', ' ', '»'] ++ ['\t'])) ∧
      ∃ (x : Extent) (words : List Extent),
        (empty.recognizer (.list .word (.symbol ['-', ' ', '»']) none none true true)
          ['é', ' ', 'a', '\n', '-', ' ', '»', 'b', '-', ' ', '»', '\t'] 2).result
            = .ok (some (.list x (words.map .word) true)) ∧
        words.map (fun y =>
          y.content? ['é', ' ', 'a', '\n', '-', ' ', '»', 'b', '-', ' ', '»', '\t'])
            = [some ['a'], some ['b']] ∧
        x.Delimits ['é', ' ', 'a', '\n', '-', ' ', '»', 'b', '-', ' ', '»', '\t'] 2 [' ']
          ['a', '\n', '-', ' ', '»', 'b', '-', ' ', '»'] := by
  have ha : Token.IsIdentifier ['a'] := ⟨'a', [], rfl, rfl, by simp⟩
  have hb : Token.IsIdentifier ['b'] := ⟨'b', [], rfl, rfl, by simp⟩
  have hbreak : Text.Skipped ['\n'] := by decide
  have hnothing : Text.Skipped [] := by decide
  have hlayout : WordsLayout ['-', ' ', '»'] [['a'], ['b']] true
      ['a', '\n', '-', ' ', '»', 'b', '-', ' ', '»'] :=
    .next ha hbreak hnothing (.trailing hb hnothing)
  have hfrom : Text.from? ['é', ' ', 'a', '\n', '-', ' ', '»', 'b', '-', ' ', '»', '\t'] 2
      = some ([' '] ++ (['a', '\n', '-', ' ', '»', 'b', '-', ' ', '»'] ++ ['\t'])) := by decide
  exact ⟨hfrom, list_words empty ⟨'-', _, rfl, by decide, by decide⟩ hlayout (by decide) (by decide) hfrom⟩

end Grammar

end Graft
