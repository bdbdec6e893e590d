import Graft.Proofs.Recognizer.Name

/-!
# `Graft.Proofs.TypeName.Layout` — type names and how they are written

A type name is a tree of dotted names (`TypeTree`). Writing it down leaves open how many blanks stand
before each name, bracket and comma, and whether a comma follows the last argument; `TypeTree.Layout`
relates a tree to all texts that can be written for it. The tree that an element stands for is read off
the texts of its names (`Element.typeTree?`).
-/

namespace Graft

/-- Nothing but spaces, tabs and line ends. -/
def Text.Skipped (s : Text) : Prop :=
  ∀ c ∈ s, Recognizer.isSkipped c = true

instance (s : Text) : Decidable s.Skipped :=
  decidable_of_iff (s.all Recognizer.isSkipped = true) List.all_eq_true

/-- A dotted name without arguments, or with arguments and perhaps a comma behind the last of them. -/
inductive TypeTree
  | plain (name : Text)
  | generic (name : Text) (arguments : List TypeTree) (trailing : Bool)
deriving Repr

namespace TypeTree

def isPlain : TypeTree → Bool
  | plain _ => true
  | generic .. => false

mutual

/-- The texts that can be written for a type name. -/
inductive Layout : TypeTree → Text → Prop
  | plain {lead name : Text} (hlead : lead.Skipped) (hname : Token.IsDottedName name) :
      Layout (.plain name) (lead ++ name)
  | generic {lead name gap inner : Text} {arguments : List TypeTree} {trailing : Bool}
      (hlead : lead.Skipped) (hname : Token.IsDottedName name) (hgap : gap.Skipped)
      (harguments : ArgumentsLayout arguments trailing inner) :
      Layout (.generic name arguments trailing) (lead ++ (name ++ (gap ++ '<' :: inner)))

/-- The texts that can be written for arguments and the bracket that closes them. -/
inductive ArgumentsLayout : List TypeTree → Bool → Text → Prop
  | last {tree : TypeTree} {s gap : Text} (htree : Layout tree s) (hgap : gap.Skipped) :
      ArgumentsLayout [tree] false (s ++ (gap ++ ['>']))
  | trailing {tree : TypeTree} {s gap gap' : Text} (htree : Layout tree s) (hgap : gap.Skipped)
      (hgap' : gap'.Skipped) :
      ArgumentsLayout [tree] true (s ++ (gap ++ ',' :: (gap' ++ ['>'])))
  | next {tree : TypeTree} {others : List TypeTree} {trailing : Bool} {s gap inner : Text}
      (htree : Layout tree s) (hgap : gap.Skipped)
      (hothers : ArgumentsLayout others trailing inner) :
      ArgumentsLayout (tree :: others) trailing (s ++ (gap ++ ',' :: inner))

end

theorem ArgumentsLayout.ne_nil {arguments : List TypeTree} {trailing : Bool} {inner : Text}
    (h : ArgumentsLayout arguments trailing inner) : arguments ≠ [] := by
  cases h <;> simp

end TypeTree

namespace Element

mutual

/-- The type name that an element found in a text stands for. -/
def typeTree? (t : Text) : Element → Option TypeTree
  | typeName _ name => (name.content? t).map .plain
  | genericName _ name _ items trailing =>
      (name.content? t).bind fun name =>
        (typeTrees? t items).map fun arguments => .generic name arguments trailing
  | _ => none

/-- The type names that some elements stand for. -/
def typeTrees? (t : Text) : List Element → Option (List TypeTree)
  | [] => some []
  | e :: rest =>
      (typeTree? t e).bind fun tree => (typeTrees? t rest).map fun trees => tree :: trees

end

end Element

/-! ## What may come next -/

theorem Text.Skipped.isWhiteSpace {s : Text} (h : s.Skipped) :
    ∀ c ∈ s, Unicode.isWhiteSpace c = true := by
  intro c hc
  have hskipped := h c hc
  simp only [Recognizer.isSkipped, Bool.or_eq_true, decide_eq_true_eq] at hskipped
  rcases hskipped with ((rfl | rfl) | rfl) | rfl <;> rfl

/-- `EndsDottedName` where blanks come next, and behind them neither a word character nor a dot. -/
theorem Token.endsDottedName_of_dropWhile {more : Text}
    (h : ∀ c, (more.dropWhile Recognizer.isSkipped).head? = some c →
      Unicode.isWordChar c = false ∧ c ≠ '.') : EndsDottedName more := by
  have hnext : ∀ c, more.head? = some c → Unicode.isWordChar c = false ∧ c ≠ '.' := by
    intro c hc
    obtain ⟨rest, rfl⟩ := List.head?_eq_some_iff.mp hc
    by_cases hskipped : Recognizer.isSkipped c = true
    · have hc : Text.Skipped [c] := by simpa [Text.Skipped] using hskipped
      refine ⟨Unicode.not_isWordChar_of_isWhiteSpace (hc.isWhiteSpace c (by simp)), ?_⟩
      rintro rfl
      cases hskipped
    · exact h c (by rw [List.dropWhile_cons_of_neg hskipped]; rfl)
  refine ⟨fun c hc => (hnext c hc).1, ?_⟩
  rintro c rest rfl
  exact absurd rfl (hnext '.' rfl).2

/-- An argument may end here: if anything but blanks follows, then a comma or the closing bracket. -/
def Text.ClosesArgument (more : Text) : Prop :=
  ∀ c, (more.dropWhile Recognizer.isSkipped).head? = some c → c = ',' ∨ c = '>'

theorem Text.closesArgument_nil : Text.ClosesArgument [] := by
  intro c hc
  cases hc

theorem Text.closesArgument_append {gap rest : Text} {c : Char} (hgap : gap.Skipped)
    (hc : c = ',' ∨ c = '>') : Text.ClosesArgument (gap ++ c :: rest) := by
  have hnext : ∀ d, (c :: rest).head? = some d → Recognizer.isSkipped d = false := by
    intro d hd
    obtain rfl := Option.some.inj hd
    rcases hc with rfl | rfl <;> rfl
  intro d hd
  rw [(Recognizer.takeWhile_isSkipped hgap hnext).2] at hd
  obtain rfl := Option.some.inj hd
  exact hc

theorem Text.ClosesArgument.endsDottedName {more : Text} (h : more.ClosesArgument) :
    Token.EndsDottedName more := by
  apply Token.endsDottedName_of_dropWhile
  intro c hc
  rcases h c hc with rfl | rfl <;> exact ⟨rfl, by decide⟩

end Graft
